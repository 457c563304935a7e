import ResourceAgent.Ports.Client
import ResourceAgent.Verified.ErlangText
import ResourceAgent.Verified.Runs

/-!
# Node discovery, from the announcement to the scheduler

A node announces its free resources with `udp_broadcast`; its peers take the
datagram apart in `udp_datagram_from_remote` (`agent/loopfunc.c`) and keep the last
announcement of every address in `table_nodes`; `check_nodes_timeouts`
(`agent/timer.c`) drops the addresses that have been silent; the scheduler asks for
the table with GET_NODES and reads the answer with `parse_nodes`
(`scheduler_utils.erl`).

What the chain is for is said by `latest`: the last announcement received from an
address.  `discovery_pipeline` states that the scheduler sees exactly the latest
announcements of the recorded addresses, and which addresses a sweep leaves.
-/

namespace ResourceAgent.Ports.Discovery

open ResourceAgent.Ports.HashTable
open ResourceAgent.Ports.Records
open ResourceAgent.Ports.Wire
open ResourceAgent.Ports.Client
open ResourceAgent.Verified.CText
open ResourceAgent.Verified.ErlangText
open ResourceAgent.Verified.Runs

/-! ## Announcements -/

/-- What a node announces: its port and the `resources_left` of its queues. -/
structure Announcement where
  port : Int
  cpu : Int
  mem : Int
  gpu : Int
  portInt : IsInt port
  cpuInt : IsInt cpu
  memInt : IsInt mem
  gpuInt : IsInt gpu

/-- `"ANNOUNCE %d cpu:%d mem:%d gpu:%d\n"`. -/
def announceLine (a : Announcement) : Text :=
  unwords ["ANNOUNCE".toList, itoa a.port, "cpu:".toList ++ itoa a.cpu,
    "mem:".toList ++ itoa a.mem, "gpu:".toList ++ itoa a.gpu]

/-- `udp_broadcast`: the message, in a buffer of 126 bytes. -/
def udpBroadcast (a : Announcement) : Text := (announceLine a).take 125

/-- `get_quantity(line)`. -/
def getQuantity (line : Text) : Int :=
  match strtok (· == ':') line with
  | none => 0
  | some (_, rest) =>
      match strtok (· == ' ') rest with
      | none => 0
      | some (q, _) => atoi q

/-- `udp_datagram_from_remote`, for a datagram from `sender` at time `now`. -/
def udpDatagramFromRemote (nodes : Table nodeCallbacks) (sender : Int) (datagram : Text)
    (now : Int) : Table nodeCallbacks :=
  let buf := datagram.take (bufferLen - 1)
  if buf = [] then nodes
  else
    match getToken 10 (copyLine buf) with
    | _ :: port :: cpu :: mem :: gpu :: _ =>
        tablahashInsert nodes
          { ip := sender
            port := atoi port
            cpu := getQuantity cpu
            mem := getQuantity mem
            gpu := getQuantity gpu
            time := now }
    | _ => nodes

/-- `NODE_TIMEOUT_SEC`. -/
def nodeTimeoutSec : Int := 15

/-- `check_nodes_timeouts(table_nodes)`. -/
def checkNodesTimeouts (now : Int) (nodes : Table nodeCallbacks) : Table nodeCallbacks :=
  removeWhere nodes fun node => decide (now - node.time ≥ nodeTimeoutSec)

/-! ## The scheduler's view -/

/-- `{IP, Port, [{cpu, Cpu}, {mem, Mem}, {gpu, Gpu}]}`. -/
structure ParsedNode where
  ip : Text
  port : Int
  cpu : Int
  mem : Int
  gpu : Int
  deriving DecidableEq, Repr

/-- `parse_node(NodeStr)`; `none` when the match or `list_to_integer` raises. -/
def parseNode (nodeStr : Text) : Option ParsedNode :=
  match (trim nodeStr).splitOn ':' with
  | [ip, portStr, cpuKey, cpuStr, memKey, memStr, gpuKey, gpuStr] =>
      if cpuKey = "cpu".toList ∧ memKey = "mem".toList ∧ gpuKey = "gpu".toList then do
        let port ← listToInteger portStr
        let cpu ← listToInteger cpuStr
        let mem ← listToInteger memStr
        let gpu ← listToInteger gpuStr
        return { ip, port, cpu, mem, gpu }
      else none
  | _ => none

/-- `parse_nodes(Data)`. -/
def parseNodes (data : Text) : Option (List ParsedNode) :=
  match trim data with
  | [] => some []
  | clean => (clean.splitOn ';').mapM parseNode

/-! ## Runs -/

/-- What happens to `table_nodes`, with the time it happens at. -/
inductive NodeEvent where
  /-- an announcement arrives from an address -/
  | received (sender : Int) (a : Announcement) (now : Int)
  | sweep (now : Int)

def NodeEvent.time : NodeEvent → Int
  | .received _ _ now => now
  | .sweep now => now

/-- `table_nodes` and the time of the last event. -/
structure NodeState where
  nodes : Table nodeCallbacks
  clock : Int

def NodeState.init (clock : Int) : NodeState := ⟨tablahashCreate _, clock⟩

def nodeStep (s : NodeState) : NodeEvent → NodeState
  | .received sender a now => ⟨udpDatagramFromRemote s.nodes sender (udpBroadcast a) now, now⟩
  | .sweep now => ⟨checkNodesTimeouts now s.nodes, now⟩

/-- The clock does not go back, and an address is a 32-bit number. -/
def Ticks (s : NodeState) : NodeEvent → Prop
  | .received sender _ now => s.clock ≤ now ∧ IsInt sender
  | .sweep now => s.clock ≤ now

/-- The last announcement received from an address, and when. -/
def latest (ip : Int) : List NodeEvent → Option (Announcement × Int)
  | [] => none
  | .received sender a now :: es =>
      (latest ip es).or (if sender = ip then some (a, now) else none)
  | .sweep _ :: es => latest ip es

theorem latest_snoc (ip : Int) (es : List NodeEvent) (e : NodeEvent) :
    latest ip (es ++ [e]) = (latest ip [e]).or (latest ip es) := by
  induction es with
  | nil => simp [latest]
  | cons f fs ih =>
      cases f with
      | received sender a now => rw [List.cons_append, latest, ih, latest, Option.or_assoc]
      | sweep now => rw [List.cons_append, latest, ih, latest]

/-! ## An announcement is recorded as it was sent -/

/-- The record of an announcement. -/
def nodeOf (sender : Int) (a : Announcement) (now : Int) : ReceivedNode where
  ip := sender
  port := a.port
  gpu := a.gpu
  mem := a.mem
  cpu := a.cpu
  time := now

theorem numeral_clean {w : Text} {n : Int} (h : Numeral w n) :
    IsWord isBlank w ∧ '\x00' ∉ w :=
  ⟨⟨h.ne_nil, fun _ hc => (digit_clean (h.mem hc)).1⟩, fun hc => (digit_clean (h.mem hc)).2 rfl⟩

/-- A field of an announcement is a token. -/
theorem numeral_field_clean (r : Resource) {w : Text} {n : Int} (h : Numeral w n) :
    IsWord isBlank (r.name ++ ':' :: w) ∧ '\x00' ∉ r.name ++ ':' :: w := by
  have hName := Resource.name_isTypeName r
  obtain ⟨hWord, hNul⟩ := numeral_clean h
  refine ⟨⟨by simp, fun c hc => ?_⟩, fun hc => ?_⟩
  · rcases List.mem_append.mp hc with hc | hc
    · exact hName.word.clean c hc
    · rcases List.mem_cons.mp hc with rfl | hc
      · decide
      · exact hWord.clean c hc
  · rcases List.mem_append.mp hc with hc | hc
    · exact hName.nul hc
    · rcases List.mem_cons.mp hc with hc | hc
      · exact absurd hc (by decide)
      · exact hNul hc

/-- The amount of a field is the value of what stands behind its colon. -/
theorem getQuantity_field (r : Resource) {w : Text} {n : Int} (h : Numeral w n) :
    getQuantity (r.name ++ ':' :: w) = atoi w := by
  have hName : IsWord (· == ':') r.name := by
    cases r <;> exact isWord_of_all (by decide) (by decide)
  have hWord : IsWord (· == ' ') w := by
    refine ⟨h.ne_nil, fun c hc => ?_⟩
    have hBlank := (digit_clean (h.mem hc)).1
    simp only [isBlank, Bool.or_eq_false_iff] at hBlank
    exact hBlank.1.1
  rw [getQuantity]
  simp only [strtok_word hName (d := ':') rfl, strtok_last hWord]

private theorem length_field_le (r : Resource) {n : Int} (h : IsInt n) :
    (r.name ++ ':' :: itoa n).length ≤ 15 := by
  have hName : r.name.length = 3 := by cases r <;> rfl
  have hDigits := length_itoa_le h
  rw [List.length_append, List.length_cons, hName]
  omega

theorem announceLine_eq (a : Announcement) :
    announceLine a = unwords ["ANNOUNCE".toList, itoa a.port,
      Resource.cpu.name ++ ':' :: itoa a.cpu,
      Resource.mem.name ++ ':' :: itoa a.mem, Resource.gpu.name ++ ':' :: itoa a.gpu] := rfl

private theorem length_announceLine_le (a : Announcement) : (announceLine a).length ≤ 125 := by
  have hLen := length_unwords_le ["ANNOUNCE".toList, itoa a.port,
    Resource.cpu.name ++ ':' :: itoa a.cpu, Resource.mem.name ++ ':' :: itoa a.mem,
    Resource.gpu.name ++ ':' :: itoa a.gpu]
  have hHead : "ANNOUNCE".toList.length = 8 := rfl
  have hPort := length_itoa_le a.portInt
  have hCpu := length_field_le .cpu a.cpuInt
  have hMem := length_field_le .mem a.memInt
  have hGpu := length_field_le .gpu a.gpuInt
  rw [announceLine_eq]
  simp only [List.map_cons, List.map_nil, List.sum_cons, List.sum_nil, hHead] at hLen
  simp only [List.length_cons, List.length_nil] at hLen hCpu hMem hGpu ⊢
  omega

/-- **The receiver records what the sender announced.** -/
theorem udpDatagramFromRemote_udpBroadcast (nodes : Table nodeCallbacks) (sender : Int)
    (a : Announcement) (now : Int) :
    udpDatagramFromRemote nodes sender (udpBroadcast a) now =
      tablahashInsert nodes (nodeOf sender a now) := by
  have hLen := length_announceLine_le a
  have hSent : udpBroadcast a = announceLine a := List.take_of_length_le hLen
  have hBuf : (announceLine a).take (bufferLen - 1) = announceLine a := by
    refine List.take_of_length_le (hLen.trans ?_)
    decide
  have hNonempty : announceLine a ≠ [] := by
    simp [announceLine_eq, unwords]
  have hTokens : getToken 10 (copyLine (announceLine a)) =
      ["ANNOUNCE".toList, itoa a.port, Resource.cpu.name ++ ':' :: itoa a.cpu,
        Resource.mem.name ++ ':' :: itoa a.mem, Resource.gpu.name ++ ':' :: itoa a.gpu] := by
    refine getToken_unwords (n := 10) ?_ (hLen.trans (by decide))
    intro w hw
    simp only [List.mem_cons, List.not_mem_nil, or_false] at hw
    rcases hw with rfl | rfl | rfl | rfl | rfl
    · exact ⟨isWord_of_all (by decide) (by decide), by decide⟩
    · exact numeral_clean (numeral_itoa a.port)
    · exact numeral_field_clean .cpu (numeral_itoa a.cpu)
    · exact numeral_field_clean .mem (numeral_itoa a.mem)
    · exact numeral_field_clean .gpu (numeral_itoa a.gpu)
  simp only [udpDatagramFromRemote, hSent, hBuf, hNonempty, if_false, hTokens,
    getQuantity_field .cpu (numeral_itoa a.cpu), getQuantity_field .mem (numeral_itoa a.mem),
    getQuantity_field .gpu (numeral_itoa a.gpu), atoi_itoa a.portInt, atoi_itoa a.cpuInt,
    atoi_itoa a.memInt, atoi_itoa a.gpuInt]
  rfl

/-! ## The table holds the latest announcements -/

/-- What `table_nodes` is after a history of events. -/
structure Current (es : List NodeEvent) (s : NodeState) : Prop where
  /-- a record is the latest announcement of its address -/
  recorded : ∀ node ∈ s.nodes.toList, IsInt node.ip ∧
    ∃ a now, latest node.ip es = some (a, now) ∧ node = nodeOf node.ip a now
  /-- an address without a record has been silent for too long -/
  dropped : ∀ ip a now, latest ip es = some (a, now) →
    (∀ node ∈ s.nodes.toList, node.ip ≠ ip) → now + nodeTimeoutSec ≤ s.clock
  /-- announcements lie in the past -/
  past : ∀ ip a now, latest ip es = some (a, now) → now ≤ s.clock

theorem nodeCallbacks_same (a b : ReceivedNode) :
    nodeCallbacks.same a b = decide (a.ip = b.ip) := rfl

theorem Current.init (clock : Int) : Current [] (.init clock) where
  recorded node h := by
    rw [NodeState.init, toList_create] at h
    cases h
  dropped ip a now h := by cases h
  past ip a now h := by cases h

/-- An announcement replaces the earlier one of its address. -/
theorem Current.receive {es : List NodeEvent} {s : NodeState} (h : Current es s) {sender : Int}
    {a : Announcement} {now : Int} (hTicks : Ticks s (.received sender a now)) :
    Current (es ++ [.received sender a now]) (nodeStep s (.received sender a now)) := by
  have hNodes : (nodeStep s (.received sender a now)).nodes =
      tablahashInsert s.nodes (nodeOf sender a now) :=
    udpDatagramFromRemote_udpBroadcast s.nodes sender a now
  have hSame : latest sender (es ++ [.received sender a now]) = some (a, now) := by
    rw [latest_snoc]
    simp [latest]
  have hOther : ∀ ip, ip ≠ sender →
      latest ip (es ++ [.received sender a now]) = latest ip es := by
    intro ip hNe
    rw [latest_snoc]
    simp [latest, Ne.symm hNe]
  constructor
  · intro node hNode
    rw [hNodes, mem_insert] at hNode
    rcases hNode with rfl | ⟨hNode, hDiff⟩
    · exact ⟨hTicks.2, a, now, hSame, rfl⟩
    · have hNe : node.ip ≠ sender := by
        rw [nodeCallbacks_same, decide_eq_false_iff_not] at hDiff
        exact hDiff
      rw [hOther node.ip hNe]
      exact h.recorded node hNode
  · intro ip b heardAt hLatest hAbsent
    have hNe : ip ≠ sender := by
      rintro rfl
      exact hAbsent (nodeOf ip a now) (by rw [hNodes, mem_insert]; exact .inl rfl) rfl
    rw [hOther ip hNe] at hLatest
    have hOld := h.dropped ip b heardAt hLatest fun node hNode hIp => by
      refine hAbsent node ?_ hIp
      rw [hNodes, mem_insert]
      refine .inr ⟨hNode, ?_⟩
      rw [nodeCallbacks_same, decide_eq_false_iff_not, hIp]
      exact hNe
    exact Int.le_trans hOld hTicks.1
  · intro ip b heardAt hLatest
    by_cases hIp : ip = sender
    · rw [hIp, hSame, Option.some.injEq, Prod.mk.injEq] at hLatest
      rw [← hLatest.2]
      exact Int.le_refl now
    · rw [hOther ip hIp] at hLatest
      exact Int.le_trans (h.past ip b heardAt hLatest) hTicks.1

/-- A sweep only drops what has been silent for too long. -/
theorem Current.sweep {es : List NodeEvent} {s : NodeState} (h : Current es s) {now : Int}
    (hTicks : Ticks s (.sweep now)) :
    Current (es ++ [.sweep now]) (nodeStep s (.sweep now)) := by
  have hNodes : (nodeStep s (.sweep now)).nodes.toList =
      s.nodes.toList.filter fun node => !decide (now - node.time ≥ nodeTimeoutSec) :=
    toList_removeWhere _ _
  have hLatest : ∀ ip, latest ip (es ++ [.sweep now]) = latest ip es := by
    intro ip
    rw [latest_snoc]
    rfl
  constructor
  · intro node hNode
    rw [hNodes] at hNode
    rw [hLatest]
    exact h.recorded node (List.mem_of_mem_filter hNode)
  · intro ip a heardAt hIs hAbsent
    rw [hLatest] at hIs
    show heardAt + nodeTimeoutSec ≤ now
    by_cases hThere : ∃ node ∈ s.nodes.toList, node.ip = ip
    · -- its record was dropped by this very sweep
      obtain ⟨node, hNode, rfl⟩ := hThere
      obtain ⟨-, b, keptAt, hSome, hEq⟩ := h.recorded node hNode
      have hGone : ¬ node ∈ (nodeStep s (.sweep now)).nodes.toList := fun hMem =>
        hAbsent node hMem rfl
      rw [hNodes, List.mem_filter, not_and] at hGone
      have hOld := hGone hNode
      simp only [Bool.not_eq_true', decide_eq_false_iff_not, not_not] at hOld
      have hTime : node.time = heardAt := by
        rw [hIs, Option.some.injEq, Prod.mk.injEq] at hSome
        rw [hEq, hSome.2]
        rfl
      omega
    · have hOld := h.dropped ip a heardAt hIs fun node hNode hIp => hThere ⟨node, hNode, hIp⟩
      have hLater : s.clock ≤ now := hTicks
      omega
  · intro ip a heardAt hIs
    rw [hLatest] at hIs
    exact Int.le_trans (h.past ip a heardAt hIs) hTicks

theorem Current.step {es : List NodeEvent} {s : NodeState} {e : NodeEvent} (h : Current es s)
    (hTicks : Ticks s e) : Current (es ++ [e]) (nodeStep s e) := by
  cases e with
  | received sender a now => exact h.receive hTicks
  | sweep now => exact h.sweep hTicks

theorem current_run {clock : Int} {es : List NodeEvent}
    (h : Meets nodeStep Ticks (.init clock) es) : Current es (run nodeStep (.init clock) es) :=
  run_invariant_history Current (fun _ _ _ => Current.step) (.init clock) h

/-! ## The answer to GET_NODES -/

/-- The nodes of an answer, separated by semicolons. -/
def nodesText (nodes : Table nodeCallbacks) : Text :=
  [';'].intercalate (nodes.toList.map nodeText)

/-- The whole answer, were the buffer large enough. -/
def nodesReply (nodes : Table nodeCallbacks) : Text :=
  "NODES ".toList ++ nodesText nodes ++ "\n".toList

theorem nodesReply_eq (nodes : Table nodeCallbacks) :
    nodesReply nodes = "NODES ".toList ++ nodesText nodes ++ "\n".toList := rfl

/-- A piece that fits is written whole. -/
private theorem appendAt_fits {size : Nat} {result piece : Text}
    (h : result.length + piece.length < size) :
    appendAt size (result, result.length) piece =
      (result ++ piece, (result ++ piece).length) := by
  have hInside : result.length < size := by omega
  have hWhole : piece.take (size - result.length - 1) = piece := by
    apply List.take_of_length_le
    omega
  rw [appendAt, if_pos hInside, hWhole, List.length_append]

/-- The loop after its first turn: every node brings its separator. -/
private theorem appendNodes_rest {size : Nat} (nodes : List ReceivedNode) :
    ∀ result : Text,
      (result ++ nodes.flatMap fun node => ';' :: nodeText node).length < size →
      appendNodes size false nodes (result, result.length) =
        (result ++ nodes.flatMap fun node => ';' :: nodeText node,
          (result ++ nodes.flatMap fun node => ';' :: nodeText node).length) := by
  induction nodes with
  | nil =>
      intro result _
      simp [appendNodes]
  | cons node nodes ih =>
      intro result hFits
      have hSplit : result ++ (node :: nodes).flatMap (fun node => ';' :: nodeText node) =
          (result ++ ";".toList ++ nodeText node) ++
            nodes.flatMap fun node => ';' :: nodeText node := by
        rw [show ";".toList = [';'] from rfl, List.flatMap_cons]
        simp
      rw [hSplit] at hFits ⊢
      have hLen := hFits
      rw [List.length_append, List.length_append, List.length_append] at hLen
      simp only [appendNodes, Bool.false_eq_true, if_false]
      rw [appendAt_fits (by omega), appendAt_fits (by rw [List.length_append]; omega)]
      exact ih _ hFits

theorem intercalate_cons_eq (node : ReceivedNode) (nodes : List ReceivedNode) :
    [';'].intercalate ((node :: nodes).map nodeText) =
      nodeText node ++ nodes.flatMap fun node => ';' :: nodeText node := by
  induction nodes generalizing node with
  | nil => simp
  | cons next nodes ih =>
      rw [List.map_cons, List.map_cons, List.intercalate_cons_cons, ← List.map_cons, ih,
        List.flatMap_cons]
      simp

/-- The whole loop, behind any text that is already there. -/
private theorem appendNodes_all {size : Nat} (nodes : List ReceivedNode) (head : Text)
    (h : (head ++ [';'].intercalate (nodes.map nodeText)).length < size) :
    appendNodes size true nodes (head, head.length) =
      (head ++ [';'].intercalate (nodes.map nodeText),
        (head ++ [';'].intercalate (nodes.map nodeText)).length) := by
  cases nodes with
  | nil => simp [appendNodes]
  | cons node rest =>
      rw [intercalate_cons_eq, ← List.append_assoc] at h ⊢
      have hFirst := h
      rw [List.length_append, List.length_append] at hFirst
      simp only [appendNodes, if_true]
      rw [appendAt_fits (by omega)]
      exact appendNodes_rest rest _ h

/-- **`get_nodes_instance` writes the whole table** when the answer fits its
buffer. -/
theorem getNodesInstance_eq {nodes : Table nodeCallbacks}
    (h : (nodesReply nodes).length ≤ 8191) : getNodesInstance nodes = nodesReply nodes := by
  have hHead : appendAt 8192 ([], 0) "NODES ".toList = ("NODES ".toList, "NODES ".toList.length) :=
    rfl
  rw [getNodesInstance, hHead, nodesReply_eq]
  rw [nodesReply_eq, nodesText, List.length_append, show "\n".toList.length = 1 from rfl] at h
  generalize "NODES ".toList = head at h ⊢
  have hFits : (head ++ [';'].intercalate (nodes.toList.map nodeText)).length < 8191 := by omega
  have hLoop := @appendNodes_all 8192 nodes.toList head (by omega)
  simp only [hLoop, hFits, if_true]
  rw [nodesText]

/-! ## Reading it -/

/-- A node of the answer as the scheduler keeps it. -/
def entryOf (node : ReceivedNode) : ParsedNode :=
  ⟨inetNtop node.ip, node.port, node.cpu, node.mem, node.gpu⟩

private theorem nodeText_fields (node : ReceivedNode) :
    nodeText node = [':'].intercalate [inetNtop node.ip, itoa node.port, "cpu".toList,
      itoa node.cpu, "mem".toList, itoa node.mem, "gpu".toList, itoa node.gpu] := by
  have hColon : ":".toList = [':'] := rfl
  have hCpu : ":cpu:".toList = ':' :: ("cpu".toList ++ [':']) := rfl
  have hMem : ":mem:".toList = ':' :: ("mem".toList ++ [':']) := rfl
  have hGpu : ":gpu:".toList = ':' :: ("gpu".toList ++ [':']) := rfl
  rw [nodeText, hColon, hCpu, hMem, hGpu]
  simp only [List.intercalate_cons_cons, List.intercalate_singleton, List.append_assoc,
    List.cons_append, List.nil_append]

private theorem digit_no_separator {c : Char} (h : c.isDigit = true) : c ≠ ':' ∧ c ≠ ';' := by
  constructor
  · rintro rfl
    exact absurd h (by decide)
  · rintro rfl
    exact absurd h (by decide)

private theorem itoa_no_separator {n : Int} {c : Char} (h : c ∈ itoa n) : c ≠ ':' ∧ c ≠ ';' := by
  rcases mem_itoa h with rfl | h
  · decide
  · exact digit_no_separator h

private theorem inetNtop_no_separator {addr : Int} {c : Char} (h : c ∈ inetNtop addr) :
    c ≠ ':' ∧ c ≠ ';' := by
  rcases mem_inetNtop h with rfl | h
  · decide
  · exact digit_no_separator h

/-- What the answer says about a node has no white space and no semicolon. -/
theorem nodeText_clean (node : ReceivedNode) :
    Solid (nodeText node) ∧ ';' ∉ nodeText node := by
  have hLit : ∀ s ∈ [":".toList, ":cpu:".toList, ":mem:".toList, ":gpu:".toList],
      Solid s ∧ ';' ∉ s := by
    intro s hs
    simp only [List.mem_cons, List.not_mem_nil, or_false] at hs
    rcases hs with rfl | rfl | rfl | rfl <;> exact ⟨solid_of_all (by decide), by decide⟩
  have hNum : ∀ n, Solid (itoa n) ∧ ';' ∉ itoa n := fun n =>
    ⟨solid_itoa n, fun h => (itoa_no_separator h).2 rfl⟩
  have hAppend : ∀ {s t : Text}, Solid s ∧ ';' ∉ s → Solid t ∧ ';' ∉ t →
      Solid (s ++ t) ∧ ';' ∉ s ++ t := by
    intro s t hs ht
    exact ⟨solid_append hs.1 ht.1, fun h => (List.mem_append.mp h).elim hs.2 ht.2⟩
  have hIp : Solid (inetNtop node.ip) ∧ ';' ∉ inetNtop node.ip :=
    ⟨solid_inetNtop _, fun h => (inetNtop_no_separator h).2 rfl⟩
  rw [nodeText]
  refine hAppend (hAppend (hAppend (hAppend (hAppend (hAppend (hAppend (hAppend hIp ?_)
    (hNum _)) ?_) (hNum _)) ?_) (hNum _)) ?_) (hNum _)
  · exact hLit _ (by simp)
  · exact hLit _ (by simp)
  · exact hLit _ (by simp)
  · exact hLit _ (by simp)

theorem parseNode_nodeText (node : ReceivedNode) :
    parseNode (nodeText node) = some (entryOf node) := by
  have hFields : (nodeText node).splitOn ':' = [inetNtop node.ip, itoa node.port, "cpu".toList,
      itoa node.cpu, "mem".toList, itoa node.mem, "gpu".toList, itoa node.gpu] := by
    rw [nodeText_fields]
    refine List.splitOn_intercalate ':' ?_ (by simp)
    intro field hField hColon
    simp only [List.mem_cons, List.not_mem_nil, or_false] at hField
    rcases hField with rfl | rfl | rfl | rfl | rfl | rfl | rfl | rfl
    · exact (inetNtop_no_separator hColon).1 rfl
    · exact (itoa_no_separator hColon).1 rfl
    · exact absurd hColon (by decide)
    · exact (itoa_no_separator hColon).1 rfl
    · exact absurd hColon (by decide)
    · exact (itoa_no_separator hColon).1 rfl
    · exact absurd hColon (by decide)
    · exact (itoa_no_separator hColon).1 rfl
  rw [parseNode, trim_eq_self (nodeText_clean node).1, hFields]
  simp only [and_self, if_true, listToInteger_itoa, Option.bind_eq_bind, Option.bind_some]
  rfl

private theorem solid_nodesText (nodes : List ReceivedNode) :
    Solid ([';'].intercalate (nodes.map nodeText)) := by
  cases nodes with
  | nil => exact fun c hc => by cases hc
  | cons node rest =>
      rw [intercalate_cons_eq]
      refine solid_append (nodeText_clean node).1 fun c hc => ?_
      obtain ⟨next, -, hc⟩ := List.mem_flatMap.mp hc
      rcases List.mem_cons.mp hc with rfl | hc
      · decide
      · exact (nodeText_clean next).1 c hc

private theorem nodeText_ne_nil (node : ReceivedNode) : nodeText node ≠ [] := by
  rw [nodeText]
  intro hNil
  exact itoa_ne_nil node.gpu (List.append_eq_nil_iff.mp hNil).2

/-- **The scheduler reads the table back**, in the order of the buckets. -/
theorem parseNodes_nodesText (nodes : Table nodeCallbacks) :
    parseNodes (nodesText nodes ++ "\n".toList) = some (nodes.toList.map entryOf) := by
  have hTrim : trim (nodesText nodes ++ "\n".toList) = nodesText nodes :=
    trim_snoc (solid_nodesText nodes.toList) (by decide)
  have hEach : ∀ l : List ReceivedNode, (l.map nodeText).mapM parseNode = some (l.map entryOf) := by
    intro l
    induction l with
    | nil => rfl
    | cons node l ih => simp [parseNode_nodeText, ih]
  rw [parseNodes, hTrim, nodesText]
  cases hList : nodes.toList with
  | nil => rfl
  | cons node rest =>
      have hSplit : ([';'].intercalate ((node :: rest).map nodeText)).splitOn ';' =
          (node :: rest).map nodeText := by
        refine List.splitOn_intercalate ';' ?_ (by simp)
        intro text hText
        obtain ⟨n, -, rfl⟩ := List.mem_map.mp hText
        exact (nodeText_clean n).2
      have hNonempty : [';'].intercalate ((node :: rest).map nodeText) ≠ [] := by
        rw [intercalate_cons_eq]
        intro hNil
        exact nodeText_ne_nil node (List.append_eq_nil_iff.mp hNil).1
      split
      · contradiction
      · rw [hSplit]
        exact hEach (node :: rest)

/-! ## The pipeline -/

/-- The address is in `table_nodes`. -/
def Recorded (nodes : Table nodeCallbacks) (ip : Int) : Prop :=
  ∃ node ∈ nodes.toList, node.ip = ip

/-- The scheduler's list has one entry for each recorded address, with the values of
the last announcement received from it. -/
structure Shows (es : List NodeEvent) (nodes : Table nodeCallbacks) (parsed : List ParsedNode) :
    Prop where
  once : (parsed.map ParsedNode.ip).Nodup
  all : ∀ ip, Recorded nodes ip → ∃ entry ∈ parsed, entry.ip = inetNtop ip
  latest : ∀ entry ∈ parsed, ∃ ip a now, Recorded nodes ip ∧ latest ip es = some (a, now) ∧
    entry = ⟨inetNtop ip, a.port, a.cpu, a.mem, a.gpu⟩

/-- The line the coordinator sends for `{get_nodes, Pid}`. -/
def getNodesLine : Text := "GET_NODES\n".toList

theorem parseErlang_getNodesLine : parseErlang getNodesLine = .getNodes := by
  decide +kernel

theorem Current.shows {es : List NodeEvent} {s : NodeState} (h : Current es s) :
    Shows es s.nodes (s.nodes.toList.map entryOf) where
  once := by
    rw [List.map_map, List.Nodup, List.pairwise_map]
    refine s.nodes.distinct.imp_of_mem fun {m n} hm hn hDiff hEq => ?_
    have hIp : m.ip = n.ip :=
      inetNtop_injective (h.recorded m hm).1 (h.recorded n hn).1 hEq
    rw [nodeCallbacks_same, decide_eq_false_iff_not] at hDiff
    exact hDiff hIp
  all ip hIp := by
    obtain ⟨node, hNode, rfl⟩ := hIp
    exact ⟨entryOf node, List.mem_map_of_mem hNode, rfl⟩
  latest entry hEntry := by
    obtain ⟨node, hNode, rfl⟩ := List.mem_map.mp hEntry
    obtain ⟨-, a, now, hLatest, hEq⟩ := h.recorded node hNode
    refine ⟨node.ip, a, now, ⟨node, hNode, rfl⟩, hLatest, ?_⟩
    rw [hEq]
    rfl

/-- What is recorded right after a sweep. -/
theorem Current.swept {es : List NodeEvent} {s : NodeState} (h : Current es s) {now : Int}
    (hTicks : Ticks s (.sweep now)) (ip : Int) :
    Recorded (nodeStep s (.sweep now)).nodes ip ↔
      ∃ a heardAt, latest ip es = some (a, heardAt) ∧ now - heardAt < nodeTimeoutSec := by
  have hNodes : (nodeStep s (.sweep now)).nodes.toList =
      s.nodes.toList.filter fun node => !decide (now - node.time ≥ nodeTimeoutSec) :=
    toList_removeWhere _ _
  constructor
  · rintro ⟨node, hNode, rfl⟩
    rw [hNodes, List.mem_filter] at hNode
    obtain ⟨-, a, heardAt, hLatest, hEq⟩ := h.recorded node hNode.1
    refine ⟨a, heardAt, hLatest, ?_⟩
    have hTime : node.time = heardAt := by
      rw [hEq]
      rfl
    have hFresh := hNode.2
    simp only [Bool.not_eq_true', decide_eq_false_iff_not] at hFresh
    omega
  · rintro ⟨a, heardAt, hLatest, hFresh⟩
    have hLater : s.clock ≤ now := hTicks
    -- a fresh announcement cannot have been dropped by an earlier sweep
    have hThere : ∃ node ∈ s.nodes.toList, node.ip = ip := by
      by_contra hNone
      have hOld := h.dropped ip a heardAt hLatest fun node hNode hIp => hNone ⟨node, hNode, hIp⟩
      omega
    obtain ⟨node, hNode, rfl⟩ := hThere
    obtain ⟨-, b, keptAt, hSome, hEq⟩ := h.recorded node hNode
    have hTime : node.time = heardAt := by
      rw [hLatest, Option.some.injEq, Prod.mk.injEq] at hSome
      rw [hEq, hSome.2]
      rfl
    refine ⟨node, ?_, rfl⟩
    rw [hNodes, List.mem_filter]
    refine ⟨hNode, ?_⟩
    simp only [Bool.not_eq_true', decide_eq_false_iff_not]
    omega

/-- **Discovery end to end.**  Whatever announcements arrived from whatever addresses,
with sweeps in between: a GET_NODES whose answer fits is read by the scheduler as one
entry per recorded address with its latest announcement, and right after a sweep the
recorded addresses are those heard of less than `NODE_TIMEOUT_SEC` before. -/
theorem discovery_pipeline {clock : Int} {es : List NodeEvent}
    (hRun : Meets nodeStep Ticks (.init clock) es) :
    (∀ s timer dial, (nodesReply (run nodeStep (.init clock) es).nodes).length ≤ 8191 →
      ∃ rest parsed,
        clientStep s (.erlang getNodesLine timer (run nodeStep (.init clock) es).nodes dial) =
          (s, [.nodes ("NODES ".toList ++ rest)]) ∧
        parseNodes rest = some parsed ∧
        Shows es (run nodeStep (.init clock) es).nodes parsed) ∧
    ∀ past now, es = past ++ [.sweep now] → ∀ ip,
      Recorded (run nodeStep (.init clock) es).nodes ip ↔
        ∃ a heardAt, latest ip es = some (a, heardAt) ∧ now - heardAt < nodeTimeoutSec := by
  refine ⟨fun s timer dial hLen => ?_, ?_⟩
  · have hShows := (current_run hRun).shows
    generalize (run nodeStep (NodeState.init clock) es).nodes = nodes at hLen hShows ⊢
    refine ⟨nodesText nodes ++ "\n".toList, nodes.toList.map entryOf, ?_,
      parseNodes_nodesText nodes, hShows⟩
    rw [clientStep, parseErlang_getNodesLine, erlangToC, getNodesInstance_eq hLen, nodesReply_eq,
      List.append_assoc]
  · rintro past now rfl ip
    rw [meets_append] at hRun
    have hLatest : latest ip (past ++ [.sweep now]) = latest ip past := by
      rw [latest_snoc]
      rfl
    rw [run_snoc, hLatest]
    exact (current_run hRun.1).swept hRun.2.1 ip

/-- Two nodes announce themselves, one of them twice; then a sweep finds the other one
silent for too long. -/
def twoNodes : List NodeEvent :=
  [.received 16777226 ⟨4200, 4, 8, -1, by decide, by decide, by decide, by decide⟩ 0,
    .received 33554442 ⟨4300, 2, 0, 1, by decide, by decide, by decide, by decide⟩ 3,
    .received 16777226 ⟨4200, 3, 8, 0, by decide, by decide, by decide, by decide⟩ 10,
    .sweep 18]

theorem discovery_pipeline_twoNodes :
    Meets nodeStep Ticks (.init 0) twoNodes ∧
    (nodesReply (run nodeStep (.init 0) twoNodes).nodes).length ≤ 8191 ∧
    ∃ rest parsed, clientStep .init (.erlang getNodesLine 20 (run nodeStep (.init 0) twoNodes).nodes
          .noSocket) = (.init, [.nodes ("NODES ".toList ++ rest)]) ∧
        parseNodes rest = some parsed ∧
        Shows twoNodes (run nodeStep (.init 0) twoNodes).nodes parsed := by
  have hRun : Meets nodeStep Ticks (.init 0) twoNodes := by
    refine ⟨⟨by decide, by decide⟩, ⟨by decide, by decide⟩, ⟨by decide, by decide⟩, ?_, trivial⟩
    show (10 : Int) ≤ 18
    decide
  have hLen : (nodesReply (run nodeStep (.init 0) twoNodes).nodes).length ≤ 8191 := by
    decide +kernel
  exact ⟨hRun, hLen, (discovery_pipeline hRun).1 .init 20 .noSocket hLen⟩

end ResourceAgent.Ports.Discovery
