import ResourceAgent.Ports.NetInvariant

/-!
# The server's handlers keep the invariant of the network

A drain is taken apart into its grants, and each grant records the request and
answers on the connection it was read from (`Coherent.grant`).  RESERVE adds one
waiting request; RELEASE and the end of a connection take the records of one
connection away.
-/

namespace ResourceAgent.Ports.NetInvariant

open ResourceAgent.Ports.HashTable
open ResourceAgent.Ports.Records
open ResourceAgent.Ports.Wire
open ResourceAgent.Ports.Client
open ResourceAgent.Ports.Reservation
open ResourceAgent.Ports.Network
open ResourceAgent.Verified.CText

variable {A : Type} {w : Wires A} {clients : A → ClientState}
  {servers : A → List (Resource × Request) × Table jobCallbacks}

/-! ## The requests of a server -/

/-- The requests waiting in the three queues. -/
def queued (s : ServerState) : List (Resource × Request) :=
  [Resource.cpu, .mem, .gpu].flatMap fun r => (s.queue r).requests.map fun rq => (r, rq)

theorem mem_queued {s : ServerState} {r : Resource} {rq : Request} :
    (r, rq) ∈ queued s ↔ rq ∈ (s.queue r).requests := by
  simp only [queued, List.mem_flatMap, List.mem_map, Prod.mk.injEq]
  constructor
  · rintro ⟨r', -, rq', hIn, rfl, rfl⟩
    exact hIn
  · intro hIn
    exact ⟨r, by cases r <;> simp, rq, hIn, rfl, rfl⟩

private theorem count_map_mk (r r' : Resource) (rqs : List Request) (rq : Request) :
    (rqs.map fun x => (r', x)).count (r, rq) = if r' = r then rqs.count rq else 0 := by
  induction rqs with
  | nil => simp
  | cons x rqs ih =>
      rw [List.map_cons, List.count_cons, List.count_cons, ih]
      by_cases hr : r' = r <;> by_cases hx : x = rq <;> simp [hr, hx]

theorem count_queued (s : ServerState) (r : Resource) (rq : Request) :
    (queued s).count (r, rq) = (s.queue r).requests.count rq := by
  simp only [queued, List.flatMap_cons, List.flatMap_nil, List.append_nil, List.count_append,
    count_map_mk]
  cases r <;> simp

theorem count_grants (grants : List Grant) (r : Resource) (rq : Request) :
    (grants.map fun g => (g.resource, g.req)).count (r, rq) = (grantedReqs grants r).count rq := by
  induction grants with
  | nil => simp
  | cons g grants ih =>
      have hCons : grantedReqs (g :: grants) r =
          (if g.resource = r then [g.req] else []) ++ grantedReqs grants r := by
        by_cases hr : g.resource = r <;> simp [grantedReqs, hr]
      rw [List.map_cons, List.count_cons, ih, hCons, List.count_append, Nat.add_comm]
      by_cases hr : g.resource = r <;> by_cases hx : g.req = rq <;> simp [hr, hx]

/-- A drain splits what was waiting into what it grants and what it leaves. -/
theorem queued_drained {peers : Peers} {s s' : ServerState} {out : List Effect}
    {grants : List Grant} (h : Drained peers s s' out grants) :
    (queued s).Perm (grants.map (fun g => (g.resource, g.req)) ++ queued s') := by
  rw [List.perm_iff_count]
  rintro ⟨r, rq⟩
  obtain ⟨served, hCut, hPerm⟩ := h.queues r
  rw [List.count_append, count_queued, count_queued, count_grants, hCut, List.count_append,
    hPerm.count_eq]

theorem queued_enqueueOnly (s : ServerState) (r : Resource) (rq : Request) :
    (queued (enqueueOnly s r rq)).Perm ((r, rq) :: queued s) := by
  rw [List.perm_iff_count]
  rintro ⟨r', rq'⟩
  rw [List.count_cons, count_queued, count_queued]
  by_cases hr : r' = r
  · subst hr
    by_cases hx : rq = rq' <;> simp [enqueueOnly, enqueueRequest, List.count_append, hx]
  · simp [enqueueOnly, hr, Ne.symm hr]

/-! ## Grants -/

theorem Serves.perm {b : A} {waiting waiting' : List (Resource × Request)}
    {t : Table jobCallbacks} (h : Serves w b waiting t) (hPerm : waiting.Perm waiting') :
    Serves w b waiting' t :=
  ⟨hPerm.nodup_iff.mp h.nodup, fun hIn => h.waiting (hPerm.mem_iff.mpr hIn), h.table, h.live⟩

/-- The two ends are the same, and what was served stays served. -/
structure Same (c c' : Conn A) : Prop extends Static c c' where
  broken : c'.broken = c.broken
  served : c.served.isSome = true → c'.served.isSome = true

theorem Same.refl (c : Conn A) : Same c c := ⟨.refl c, rfl, id⟩

theorem Same.trans {c₁ c₂ c₃ : Conn A} (h : Same c₁ c₂) (h' : Same c₂ c₃) : Same c₁ c₃ where
  client := h'.client.trans h.client
  clientFd := h'.clientFd.trans h.clientFd
  server := h'.server.trans h.server
  jobId := h'.jobId.trans h.jobId
  req := h'.req.trans h.req
  serverEnd := h'.serverEnd.trans h.serverEnd
  broken := h'.broken.trans h.broken
  served hServed := h'.served (h.served hServed)

/-- Same descriptors, and connections with the same ends. -/
structure Steady (w w' : Wires A) : Prop where
  files : w'.files = w.files
  conns : ∀ {i : Nat} {c' : Conn A}, w'.conns[i]? = some c' →
    ∃ c, w.conns[i]? = some c ∧ Same c c'

theorem Steady.refl (w : Wires A) : Steady w w :=
  ⟨rfl, fun hConn => ⟨_, hConn, .refl _⟩⟩

theorem Steady.trans {w₁ w₂ w₃ : Wires A} (h : Steady w₁ w₂) (h' : Steady w₂ w₃) :
    Steady w₁ w₃ := by
  refine ⟨h'.files.trans h.files, fun hConn => ?_⟩
  obtain ⟨c', hConn', hSame'⟩ := h'.conns hConn
  obtain ⟨c, hConn'', hSame⟩ := h.conns hConn'
  exact ⟨c, hConn'', hSame.trans hSame'⟩

theorem Steady.modify {i : Nat} {f : Conn A → Conn A} (hf : ∀ c, Same c (f c)) :
    Steady w (w.modify i f) :=
  ⟨rfl, fun hConn => modify_backward Same.refl (fun c _ => hf c) hConn⟩

theorem push_same (side : Side) (line : Text) (c : Conn A) : Same c (c.push side line) := by
  unfold Conn.push
  split
  · exact .refl c
  · cases side <;> exact ⟨⟨rfl, rfl, rfl, rfl, rfl, rfl⟩, rfl, id⟩

variable {b : A}

theorem named_iff {names : Int → Option Addr} :
    w.Named b names ↔ ∀ {i : Nat} {c : Conn A} {fd addr}, w.conns[i]? = some c →
      c.serverEnd = some (fd, addr) → c.server = b → w.files b fd = some (i, .server) →
      c.Answers addr (names fd) := by
  constructor
  · intro h i c fd addr hConn hEnd hServer hFile
    exact h i (List.getElem?_eq_some_iff.mp hConn).1 c hConn (fd, addr) hEnd hServer hFile
  · intro h i _ c hConn x hEnd hServer hFile
    exact h hConn hEnd hServer hFile

theorem Steady.named {w' : Wires A} (h : Steady w w') {names : Int → Option Addr}
    (hNamed : w.Named b names) : w'.Named b names := by
  rw [named_iff] at hNamed ⊢
  intro i c' fd addr hConn' hEnd hServer hFile
  obtain ⟨c, hConn, hSame⟩ := h.conns hConn'
  rw [h.files] at hFile
  have hAnswer := hNamed hConn (hSame.serverEnd.symm.trans hEnd)
    (hSame.server.symm.trans hServer) hFile
  rw [Conn.Answers, hSame.broken]
  exact hAnswer

/-- What a grant does to the connection its request was read from. -/
def granting (g : Grant) (c : Conn A) : Conn A :=
  Conn.push .server (grantedLine g.req.jobId) { c with served := some (g.resource, g.req) }

theorem granting_static (g : Grant) (c : Conn A) : Static c (granting g c) := by
  have hPush := push_same .server (grantedLine g.req.jobId)
    { c with served := some (g.resource, g.req) }
  exact ⟨hPush.client, hPush.clientFd, hPush.server, hPush.jobId, hPush.req, hPush.serverEnd⟩

theorem granting_served (g : Grant) (c : Conn A) :
    (granting g c).served = some (g.resource, g.req) :=
  (push_quiet .server (grantedLine g.req.jobId)
    { c with served := some (g.resource, g.req) }).served

theorem granting_broken (g : Grant) (c : Conn A) : (granting g c).broken = c.broken :=
  (push_same .server (grantedLine g.req.jobId) { c with served := some (g.resource, g.req) }).broken

theorem flow_granting {g : Grant} {i : Nat} {c : Conn A} (h : Flow w i c)
    (hReceived : c.received = some (g.resource, g.req)) (hServed : c.served = none) :
    Flow w i (granting g c) := by
  have hEmpty : c.toClient = [] := by
    rcases h.toClient with hNil | ⟨-, hSome, -⟩
    · exact hNil
    · rw [hServed] at hSome
      cases hSome
  have hJob := (h.received hReceived).2.1
  have hServe : ∀ {x}, some (g.resource, g.req) = some x → c.received = some x :=
    fun hSame => hReceived.trans hSame
  unfold granting Conn.push
  split
  · exact ⟨h.job, h.req, h.toServer, h.armed, h.received, hServe, .inl hEmpty, h.accepted⟩
  · rename_i hBroken
    rw [Bool.not_eq_true] at hBroken
    refine ⟨h.job, h.req, h.toServer, h.armed, h.received, hServe,
      .inr ⟨?_, rfl, fun _ => hBroken⟩, h.accepted⟩
    simp [hEmpty, hJob]

/-- No record is filed under the peer of a request that is still waiting. -/
theorem find_grantKey_eq_none (hWired : Wired w) {waiting : List (Resource × Request)}
    {t : Table jobCallbacks} (h : Serves w b waiting t) {i : Nat} {c : Conn A} {fd : Int}
    {addr : Addr} (hFile : w.files b fd = some (i, .server)) (hConn : w.conns[i]? = some c)
    (hEnd : c.serverEnd = some (fd, addr)) (hServed : c.served = none) (jobId : Int) :
    tablahashFind t (grantKey (some addr) jobId) = none := by
  rw [find_eq_none_iff]
  intro e he
  obtain ⟨j, d, hFile', hConn', hSome, hMatch⟩ := h.table e he
  rw [← Bool.not_eq_true]
  intro hSame
  simp only [jobCallbacks_same, grantKey, Option.getD_some, decide_eq_true_eq,
    Prod.mk.injEq] at hSame
  have hAddr : (e.ip, e.port) = addr := Prod.ext hSame.2.1 hSame.2.2
  rcases hMatch with ⟨r, rq, addr', -, hEnd', -, hSocket, hPeer, -⟩ | hZero
  · rw [hSocket] at hFile'
    rw [← hPeer, hAddr] at hEnd'
    obtain rfl := hWired.peers hFile hFile' hConn hConn' hEnd hEnd'
    rw [hConn] at hConn'
    cases hConn'
    rw [hServed] at hSome
    cases hSome
  · refine hWired.port hConn hEnd ?_
    rw [← hAddr, hZero]

/-- With the peer known, the new record is that of this request alone. -/
theorem matches_recordOf (hWired : Wired w) {waiting : List (Resource × Request)}
    {t : Table jobCallbacks} (h : Serves w b waiting t) {g : Grant} {i : Nat} {c : Conn A}
    {addr : Addr} (hFile : w.files b g.req.originSocket = some (i, .server))
    (hConn : w.conns[i]? = some c) (hEnd : c.serverEnd = some (g.req.originSocket, addr))
    (hServed : c.served = none) (hName : g.peer = some addr) :
    Matches (granting g c) (recordOf t g) := by
  obtain ⟨hId, hKey⟩ := recordOf_key t g
  refine ⟨g.resource, g.req, addr, granting_served g c,
    (granting_static g c).serverEnd.trans hEnd, hId, recordOf_originalSocket t g, ?_, ?_⟩
  · rw [hKey, hName, Option.getD_some]
  · intro r
    rw [recordOf_granted, hName, find_grantKey_eq_none hWired h hFile hConn hEnd hServed,
      Option.elim_none, Int.zero_add]
    simp only [eq_comm]

/-- The record of another connection has another key: under the same key it would have the same
peer. -/
theorem Matches.apart (hWired : Wired w) {g : Grant} {i j : Nat} {c d : Conn A} {addr : Addr}
    {e : ReceivedJob} {fd : Int} (hMatch : Matches d e) (hSame : i ≠ j)
    (hFile : w.files b g.req.originSocket = some (i, .server)) (hConn : w.conns[i]? = some c)
    (hEnd : c.serverEnd = some (g.req.originSocket, addr)) (hPeer : c.Answers addr g.peer)
    (hFile' : w.files b fd = some (j, .server)) (hConn' : w.conns[j]? = some d) :
    jobCallbacks.same e (grantKey g.peer g.req.jobId) = false := by
  obtain ⟨r, rq, addr', -, hEnd', -, hSocket, hAddr', -⟩ := hMatch
  obtain ⟨-, addr'', hEnd''⟩ := hWired.at_server hFile' hConn'
  rw [hEnd'] at hEnd''
  cases hEnd''
  rw [← Bool.not_eq_true]
  intro hKeys
  simp only [jobCallbacks_same, grantKey, decide_eq_true_eq, Prod.mk.injEq] at hKeys
  have hAddr : addr' = g.peer.getD (0, 0) := by
    rw [← hAddr']
    exact Prod.ext hKeys.2.1 hKeys.2.2
  rcases hPeer with hName | ⟨-, hLost⟩
  · rw [hName, Option.getD_some] at hAddr
    subst hAddr
    exact hSame (hWired.peers hFile hFile' hConn hConn' hEnd hEnd')
  · rw [hLost] at hAddr
    refine hWired.port hConn' hEnd' ?_
    rw [hAddr]
    rfl

/-- A request that is granted is recorded for the connection it was read from. -/
theorem Serves.grant {g : Grant} {waiting : List (Resource × Request)}
    {t : Table jobCallbacks} (h : Serves w b ((g.resource, g.req) :: waiting) t)
    (hWired : Wired w) {i : Nat} {c : Conn A} {addr : Addr}
    (hFile : w.files b g.req.originSocket = some (i, .server))
    (hConn : w.conns[i]? = some c) (hEnd : c.serverEnd = some (g.req.originSocket, addr))
    (hReceived : c.received = some (g.resource, g.req)) (hServed : c.served = none)
    (hPeer : c.Answers addr g.peer) :
    Serves (w.modify i (granting g)) b waiting (g.record t) := by
  have hSelf : (w.modify i (granting g)).conns[i]? = some (granting g c) := conns_modify_self hConn
  have hExact : g.peer = some addr → Matches (granting g c) (recordOf t g) :=
    matches_recordOf hWired h hFile hConn hEnd hServed
  refine ⟨(List.nodup_cons.mp h.nodup).2, ?_, ?_, ?_⟩
  · intro r rq hIn
    obtain ⟨j, d, hFile', hConn', hReceived', hServed'⟩ :=
      h.waiting (List.mem_cons_of_mem _ hIn)
    refine ⟨j, d, hFile', ?_, hReceived', hServed'⟩
    refine (conns_modify_ne ?_).trans hConn'
    rintro rfl
    rw [hConn] at hConn'
    cases hConn'
    rw [hReceived] at hReceived'
    cases hReceived'
    exact (List.nodup_cons.mp h.nodup).1 hIn
  · intro e he
    rcases mem_record.mp he with rfl | ⟨he, -⟩
    · rw [recordOf_originalSocket]
      refine ⟨i, granting g c, hFile, hSelf, by rw [granting_served]; rfl, ?_⟩
      rcases hPeer with hName | ⟨-, hLost⟩
      · exact .inl (hExact hName)
      · refine .inr ?_
        rw [(recordOf_key t g).2, hLost]
        rfl
    · obtain ⟨j, d, hFile', hConn', hSome, hMatch⟩ := h.table e he
      refine ⟨j, d, hFile', ?_, hSome, hMatch⟩
      refine (conns_modify_ne ?_).trans hConn'
      rintro rfl
      rw [hConn] at hConn'
      cases hConn'
      rw [hServed] at hSome
      cases hSome
  · intro fd j d' hFile' hConn' hSome hLive
    by_cases hSame : i = j
    · subst hSame
      rw [hSelf] at hConn'
      cases hConn'
      have hName : g.peer = some addr := by
        rcases hPeer with hName | ⟨hBroken, -⟩
        · exact hName
        · have hWhole := hLive.2
          rw [granting_broken, hBroken] at hWhole
          cases hWhole
      exact ⟨recordOf t g, mem_record.mpr (.inl rfl), hExact hName⟩
    · rw [conns_modify_ne hSame] at hConn'
      obtain ⟨e, he, hMatch⟩ := h.live hFile' hConn' hSome hLive
      refine ⟨e, mem_record.mpr (.inr ⟨he, ?_⟩), hMatch⟩
      exact hMatch.apart hWired hSame hFile hConn hEnd hPeer hFile' hConn'

variable [DecidableEq A] {route : Text → Int → A}

theorem steady_grant (g : Grant) : Steady w (w.performAll route b g.effects) := by
  have hRecorded : Steady w (w.perform route b (.recorded g.resource g.req)) := by
    simp only [Wires.perform]
    split
    · exact .modify fun c => ⟨⟨rfl, rfl, rfl, rfl, rfl, rfl⟩, rfl, fun _ => rfl⟩
    · exact .refl w
  have hSend : ∀ {w' : Wires A} (line : Text),
      Steady w' (w'.perform route b (.send g.req.originSocket line)) := by
    intro w' line
    simp only [Wires.perform]
    split
    · exact .modify (push_same _ _)
    · exact .refl _
  exact hRecorded.trans (hSend _)

theorem performAll_grant {g : Grant} {i : Nat}
    (hFile : w.files b g.req.originSocket = some (i, .server)) :
    w.performAll route b g.effects = w.modify i (granting g) := by
  show (w.perform route b (.recorded g.resource g.req)).perform route b
    (.send g.req.originSocket (grantedLine g.req.jobId)) = _
  rw [perform_recorded hFile, perform_send (by exact hFile)]
  simp only [Wires.modify, List.modify_modify_eq]
  rfl

/-- **One grant.**  The request leaves the waiting ones, and its record and its
answer are on the connection it was read from. -/
theorem Coherent.grant (h : Coherent w clients servers) {g : Grant}
    {waiting : List (Resource × Request)} {t : Table jobCallbacks}
    (hServer : servers b = ((g.resource, g.req) :: waiting, t)) {names : Int → Option Addr}
    (hNamed : w.Named b names) (hPeer : g.peer = names g.req.originSocket) :
    Coherent (w.performAll route b g.effects) clients
      (fun x => if x = b then (waiting, g.record t) else servers x) := by
  have hServes := h.serves b
  rw [hServer] at hServes
  obtain ⟨i, c, hFile, hConn, hReceived, hServed⟩ := hServes.waiting List.mem_cons_self
  obtain ⟨hAgent, addr, hEnd⟩ := h.wired.at_server hFile hConn
  have hAnswers : c.Answers addr g.peer := hPeer ▸ named_iff.mp hNamed hConn hEnd hAgent hFile
  rw [performAll_grant hFile]
  refine ⟨h.wired.modify fun d _ => granting_static g d, ?_, ?_, ?_⟩
  · refine flow_modify h.flow ?_
    intro d hConn'
    rw [hConn] at hConn'
    cases hConn'
    exact flow_granting (h.flow hConn) hReceived hServed
  · intro a
    refine (h.asks a).frame ?_ fun _ _ _ => id
    intro j d hConn'
    obtain ⟨d', hConn'', hKept⟩ := modify_forward
      (R := fun c c' => Static c c' ∧ (c.served.isSome = true → c'.served.isSome = true))
      (fun c => ⟨.refl c, id⟩)
      (fun c _ => ⟨granting_static g c, fun _ => by rw [granting_served]; rfl⟩) hConn'
    exact ⟨d', hConn'', hKept.1.jobId, hKept.1.req, hKept.2⟩
  · intro x
    by_cases hSame : x = b
    · subst hSame
      simp only [if_true]
      exact hServes.grant h.wired hFile hConn hEnd hReceived hServed hAnswers
    · simp only [hSame, if_false]
      exact (h.serves x).elsewhere h.wired hConn (hAgent ▸ hSame)

/-- The grants of a drain, one after the other. -/
theorem Coherent.grants {names : Int → Option Addr} (grants : List Grant) :
    ∀ {w : Wires A} {servers : A → List (Resource × Request) × Table jobCallbacks}
      {waiting : List (Resource × Request)} {t : Table jobCallbacks},
      Coherent w clients servers →
      servers b = (grants.map (fun g => (g.resource, g.req)) ++ waiting, t) →
      w.Named b names → (∀ g ∈ grants, g.peer = names g.req.originSocket) →
      Coherent (w.performAll route b (grants.flatMap Grant.effects)) clients
        (fun x => if x = b then (waiting, grants.foldl Grant.record t) else servers x) := by
  induction grants with
  | nil =>
      intro w servers waiting t h hServer _ _
      refine h.congr (fun _ => rfl) fun x => ?_
      by_cases hSame : x = b
      · subst hSame
        simpa using hServer.symm
      · simp [hSame]
  | cons g grants ih =>
      intro w servers waiting t h hServer hNamed hPeers
      have hGrant : Coherent (w.performAll route b g.effects) clients _ :=
        h.grant hServer hNamed (hPeers g (by simp))
      have hRest := ih hGrant (if_pos rfl) ((steady_grant g).named hNamed)
        fun g' hg' => hPeers g' (List.mem_cons_of_mem _ hg')
      rw [List.flatMap_cons, performAll_append]
      exact hRest.overwriteServer

theorem Coherent.setServer (h : Coherent w clients servers) {waiting : List (Resource × Request)}
    {t : Table jobCallbacks} (hServes : Serves w b waiting t) :
    Coherent w clients (fun x => if x = b then (waiting, t) else servers x) := by
  refine ⟨h.wired, h.flow, h.asks, fun x => ?_⟩
  by_cases hSame : x = b
  · subst hSame
    simpa using hServes
  · simpa [hSame] using h.serves x

theorem steady_grants (grants : List Grant) :
    ∀ {w : Wires A}, Steady w (w.performAll route b (grants.flatMap Grant.effects)) := by
  induction grants with
  | nil => exact .refl _
  | cons g grants ih =>
      intro w
      rw [List.flatMap_cons, performAll_append]
      exact (steady_grant g).trans ih

/-- **A drain.**  Everything that is granted was read from an open connection,
and everything that is left still waits there. -/
theorem Coherent.drained (h : Coherent w clients servers) {names : Int → Option Addr}
    {mid s' : ServerState} {out : List Effect} {grants : List Grant}
    (hServer : servers b = (queued mid, mid.tableNodejobs)) (hNamed : w.Named b names)
    (hDrain : Drained (asPeers names) mid s' out grants) :
    Coherent (w.performAll route b out) clients
      (fun x => if x = b then (queued s', s'.tableNodejobs) else servers x) := by
  have hServes := h.serves b
  rw [hServer] at hServes
  have hSplit := h.setServer (hServes.perm (queued_drained hDrain))
  have hGranted : Coherent (w.performAll route b (grants.flatMap Grant.effects)) clients _ :=
    hSplit.grants grants (if_pos rfl) hNamed fun g hg => by
      obtain ⟨k, hPeer⟩ := hDrain.peer g hg
      exact hPeer
  rw [hDrain.out, hDrain.table]
  exact hGranted.overwriteServer

/-! ## RESERVE, RELEASE and the end of a connection -/

omit [DecidableEq A] in
/-- The line at the head of an inbox with a RESERVE in it is the RESERVE of the
connection, read for the first time. -/
theorem Flow.reserve {i : Nat} {c : Conn A} (h : Flow w i c) {line : Text} {rest : List Text}
    (hLine : c.toServer = line :: rest) {jobId amount : Int} {resource : Text}
    (hParse : parseRemote line = .reserve jobId resource amount) :
    rest = [] ∧ jobId = c.jobId ∧ resource = c.req.type ∧ amount = c.req.amount ∧
      c.received = none ∧ c.served = none := by
  rcases h.toServer with hNil | ⟨hReserve, hNone, -⟩ | ⟨⟨other, hRelease, hOther⟩, -⟩
  · rw [hNil] at hLine
    cases hLine
  · rw [hReserve, List.cons.injEq] at hLine
    obtain ⟨rfl, rfl⟩ := hLine
    rw [parseRemote_reserveLine h.job h.req.2 h.req.1] at hParse
    cases hParse
    refine ⟨rfl, rfl, rfl, rfl, hNone, ?_⟩
    cases hServed : c.served with
    | none => rfl
    | some x =>
        rw [h.served hServed] at hNone
        cases hNone
  · rw [hRelease, List.cons.injEq] at hLine
    rw [hLine.1, hParse] at hOther
    cases hOther

/-- What a RESERVE makes of its connection. -/
def reserving (r : Resource) (rq : Request) (c : Conn A) : Conn A :=
  { c with toServer := [], received := some (r, rq) }

omit [DecidableEq A] in
/-- The request of a RESERVE joins the waiting ones. -/
theorem Serves.reserve {waiting : List (Resource × Request)} {t : Table jobCallbacks}
    (h : Serves w b waiting t) {i : Nat} {c : Conn A} {r : Resource} {rq : Request}
    (hFile : w.files b rq.originSocket = some (i, .server)) (hConn : w.conns[i]? = some c)
    (hReceived : c.received = none) (hServed : c.served = none) {f : Conn A → Conn A}
    (hf : f c = reserving r rq c) : Serves (w.modify i f) b ((r, rq) :: waiting) t := by
  have hSelf : (w.modify i f).conns[i]? = some (reserving r rq c) := by
    rw [conns_modify_self hConn, hf]
  -- whatever the server refers to is on another connection
  have hOther : ∀ {j : Nat} {d : Conn A}, w.conns[j]? = some d →
      d.received.isSome = true ∨ d.served.isSome = true → (w.modify i f).conns[j]? = some d := by
    intro j d hConn' hBusy
    refine (conns_modify_ne ?_).trans hConn'
    rintro rfl
    rw [hConn] at hConn'
    cases hConn'
    simp [hReceived, hServed] at hBusy
  refine ⟨List.nodup_cons.mpr ⟨?_, h.nodup⟩, ?_, ?_, ?_⟩
  · intro hIn
    obtain ⟨j, d, hFile', hConn', hSome, -⟩ := h.waiting hIn
    rw [hFile] at hFile'
    cases hFile'
    rw [hConn] at hConn'
    cases hConn'
    rw [hReceived] at hSome
    cases hSome
  · intro r' rq' hIn
    rcases List.mem_cons.mp hIn with hNew | hIn
    · cases hNew
      exact ⟨i, _, hFile, hSelf, rfl, hServed⟩
    · obtain ⟨j, d, hFile', hConn', hSome, hNone⟩ := h.waiting hIn
      exact ⟨j, d, hFile', hOther hConn' (.inl (by rw [hSome]; rfl)), hSome, hNone⟩
  · intro e he
    obtain ⟨j, d, hFile', hConn', hSome, hMatch⟩ := h.table e he
    exact ⟨j, d, hFile', hOther hConn' (.inr hSome), hSome, hMatch⟩
  · intro fd j d hFile' hConn' hSome hLive
    by_cases hSame : i = j
    · subst hSame
      rw [hSelf] at hConn'
      cases hConn'
      have hNone : (reserving r rq c).served = none := hServed
      rw [hNone] at hSome
      cases hSome
    · rw [conns_modify_ne hSame] at hConn'
      exact h.live hFile' hConn' hSome hLive

/-- A RESERVE is read, and its request waits. -/
theorem Coherent.reserve (h : Coherent w clients servers) {i : Nat} {c : Conn A} {fd : Int}
    {s : ServerState} {t : Table jobCallbacks} {waiting : List (Resource × Request)}
    (hFile : w.files b fd = some (i, .server)) (hConn : w.conns[i]? = some c)
    {line : Text} {rest : List Text} (hLine : c.toServer = line :: rest) {jobId amount : Int}
    {resource : Text} (hParse : parseRemote line = .reserve jobId resource amount)
    (hServer : servers b = (waiting, t)) :
    Coherent (w.modify i (Conn.read .server s)) clients
      (fun x => if x = b then
        ((Resource.ofName resource, makeRequest s jobId fd amount) :: waiting, t)
        else servers x) := by
  have hFlow := h.flow hConn
  obtain ⟨rfl, rfl, rfl, rfl, hReceived, hServed⟩ := hFlow.reserve hLine hParse
  obtain ⟨hAgent, addr, hEnd⟩ := h.wired.at_server hFile hConn
  have hRead : Conn.read .server s c =
      reserving (Resource.ofName c.req.type) (makeRequest s c.jobId fd c.req.amount) c := by
    simp only [Conn.read, Conn.reserveRead, hLine, hEnd, List.head?_cons, Option.map_some, hParse,
      List.tail_cons, reserving]
  have hStatic : ∀ c : Conn A, Static c (Conn.read .server s c) :=
    fun _ => ⟨rfl, rfl, rfl, rfl, rfl, rfl⟩
  refine ⟨h.wired.modify fun c _ => hStatic c, ?_, ?_, ?_⟩
  · refine flow_modify h.flow ?_
    intro d hSame
    rw [hConn] at hSame
    cases hSame
    rw [hRead]
    refine ⟨hFlow.job, hFlow.req, .inl rfl, ?_, ?_, ?_, hFlow.toClient, hFlow.accepted⟩
    · intro hArmed
      have hNil := (hFlow.armed hArmed).2
      rw [hLine] at hNil
      cases hNil
    · rintro r rq ⟨⟩
      exact ⟨rfl, rfl, rfl, addr, hEnd⟩
    · intro x hSome
      have hNone : some x = none := hSome.symm.trans hServed
      cases hNone
  · intro a
    refine (h.asks a).frame ?_ fun _ _ _ => id
    intro j d hConn'
    obtain ⟨d', hConn'', hKept⟩ := modify_forward
      (R := fun c c' => Static c c' ∧ c'.served = c.served)
      (fun c => ⟨.refl c, rfl⟩) (fun c _ => ⟨hStatic c, rfl⟩) hConn'
    exact ⟨d', hConn'', hKept.1.jobId, hKept.1.req, fun hSome => hKept.2 ▸ hSome⟩
  · intro x
    by_cases hSame : x = b
    · subst hSame
      simp only [if_true]
      have hServes := h.serves x
      rw [hServer] at hServes
      exact hServes.reserve hFile hConn hReceived hServed hRead
    · simp only [hSame, if_false]
      exact (h.serves x).elsewhere h.wired hConn (hAgent ▸ hSame)

/-- The records of a connection whose requester is gone are dropped. -/
theorem Coherent.credit (h : Coherent w clients servers) {i : Nat} {c : Conn A} {fd : Int}
    (hFile : w.files b fd = some (i, .server)) (hConn : w.conns[i]? = some c)
    (hDead : ¬ Live w i c) {waiting : List (Resource × Request)} {t : Table jobCallbacks}
    (hServer : servers b = (waiting, t)) :
    Coherent w clients (fun x => if x = b then
      (waiting, removeWhere t fun job => decide (job.originalSocket = fd)) else servers x) := by
  have hServes := h.serves b
  rw [hServer] at hServes
  have hMem : ∀ {e}, e ∈ (removeWhere t fun job => decide (job.originalSocket = fd)).toList ↔
      e ∈ t.toList ∧ e.originalSocket ≠ fd := by
    intro e
    rw [toList_removeWhere]
    simp
  refine h.setServer ⟨hServes.nodup, hServes.waiting, ?_, ?_⟩
  · intro e he
    exact hServes.table e (hMem.mp he).1
  · intro fd' j d hFile' hConn' hSome hLive
    obtain ⟨e, he, hMatch⟩ := hServes.live hFile' hConn' hSome hLive
    refine ⟨e, hMem.mpr ⟨he, ?_⟩, hMatch⟩
    rintro rfl
    obtain ⟨r, rq, addr, -, hEnd, -, hSocket, -⟩ := hMatch
    obtain ⟨-, addr', hEnd'⟩ := h.wired.at_server hFile' hConn'
    rw [hEnd] at hEnd'
    cases hEnd'
    rw [hSocket, hFile'] at hFile
    cases hFile
    rw [hConn] at hConn'
    cases hConn'
    exact hDead hLive

/-- **`release_client_by_fd`** on a connection whose requester is gone. -/
theorem Coherent.releaseClient (h : Coherent w clients servers) {i : Nat} {c : Conn A} {fd : Int}
    (hFile : w.files b fd = some (i, .server)) (hConn : w.conns[i]? = some c)
    (hDead : ¬ Live w i c) {s : ServerState}
    (hServer : servers b = (queued s, s.tableNodejobs)) {names : Int → Option Addr}
    (hNamed : w.Named b names) :
    Coherent (w.performAll route b (releaseClientByFd (asPeers names) s fd).2) clients
      (fun x => if x = b then
        (queued (releaseClientByFd (asPeers names) s fd).1,
          (releaseClientByFd (asPeers names) s fd).1.tableNodejobs)
        else servers x) := by
  rcases releaseClientByFd_cases (asPeers names) s fd with ⟨-, hIdle⟩ | ⟨⟨grants, hDrain⟩, -⟩
  · rw [hIdle]
    refine h.congr (fun _ => rfl) fun x => ?_
    by_cases hSame : x = b
    · simp [hSame, hServer]
    · simp [hSame]
  · have hCredit := h.credit hFile hConn hDead hServer
    have hDone : Coherent (w.performAll route b _) clients _ :=
      hCredit.drained (if_pos rfl) hNamed hDrain
    exact hDone.overwriteServer

theorem steady_releaseClient (s : ServerState) (fd : Int) (names : Int → Option Addr) :
    Steady w (w.performAll route b (releaseClientByFd (asPeers names) s fd).2) := by
  rcases releaseClientByFd_cases (asPeers names) s fd with ⟨-, hIdle⟩ | ⟨⟨grants, hDrain⟩, -⟩
  · rw [hIdle]
    exact .refl w
  · rw [hDrain.out]
    exact steady_grants grants

/-- After `release_client_by_fd`, the descriptor is referred to only if a request
read from it is still queued. -/
theorem not_refers_releaseClient {s : ServerState} {fd : Int} {peers : Peers}
    (hNone : ∀ x ∈ queued s, x.2.originSocket ≠ fd) :
    ¬ Refers (queued (releaseClientByFd peers s fd).1)
      (releaseClientByFd peers s fd).1.tableNodejobs fd := by
  rcases releaseClientByFd_cases peers s fd with ⟨hEmpty, hIdle⟩ | ⟨⟨grants, hDrain⟩, -⟩
  · rw [hIdle]
    rintro (⟨x, hx, hSocket⟩ | ⟨e, he, hSocket⟩)
    · exact hNone x hx hSocket
    · have hIn : e ∈ reservedOn s.tableNodejobs fd := List.mem_filter.mpr ⟨he, by simp [hSocket]⟩
      rw [hEmpty] at hIn
      cases hIn
  · rintro (⟨⟨r, rq⟩, hx, hSocket⟩ | ⟨e, he, hSocket⟩)
    · exact hNone (r, rq) (mem_queued.mpr (hDrain.mem_queue (mem_queued.mp hx))) hSocket
    · rcases hDrain.mem_table he with hOld | ⟨g, hg, hOrigin⟩
      · rw [creditOnly, toList_removeWhere] at hOld
        simp [hSocket] at hOld
      · exact hNone (g.resource, g.req) (mem_queued.mpr (hDrain.mem_grants hg))
          (hOrigin.symm.trans hSocket)

section

variable {i fd : Nat} {c : Conn A} {addr : Addr}

/-- The new descriptor, and nothing else, leads to the server end. -/
theorem files_accept (hConn : w.conns[i]? = some c) (hFree : w.files c.server fd = none) {x : A}
    {fd' : Int} {y : Nat × Side} :
    (w.accept i fd addr).files x fd' = some y ↔
      w.files x fd' = some y ∨ (x = c.server ∧ fd' = fd ∧ y = (i, .server)) := by
  simp only [Wires.accept, hConn, Wires.setFile, Wires.modify]
  by_cases hSame : x = c.server ∧ fd' = fd
  · obtain ⟨rfl, rfl⟩ := hSame
    simp [hFree, eq_comm]
  · simp only [hSame, if_false]
    constructor
    · exact .inl
    · rintro (hOpen | ⟨rfl, rfl, -⟩)
      · exact hOpen
      · exact absurd ⟨rfl, rfl⟩ hSame

theorem conns_accept_self (hConn : w.conns[i]? = some c) :
    (w.accept i fd addr).conns[i]? = some { c with serverEnd := some ((fd : Int), addr) } := by
  simp only [Wires.accept, hConn]
  exact conns_modify_self hConn

theorem conns_accept_ne {j : Nat} (h : i ≠ j) :
    (w.accept i fd addr).conns[j]? = w.conns[j]? := by
  unfold Wires.accept
  split
  · rfl
  · exact conns_modify_ne h

/-- Connections keep everything but the server end of the accepted one. -/
theorem conns_accept (hConn : w.conns[i]? = some c) {j : Nat} {d' : Conn A}
    (h : (w.accept i fd addr).conns[j]? = some d') :
    (i = j ∧ d' = { c with serverEnd := some ((fd : Int), addr) }) ∨
      (i ≠ j ∧ w.conns[j]? = some d') := by
  by_cases hSame : i = j
  · subst hSame
    rw [conns_accept_self hConn] at h
    cases h
    exact .inl ⟨rfl, rfl⟩
  · rw [conns_accept_ne hSame] at h
    exact .inr ⟨hSame, h⟩

theorem Wired.accept (h : Wired w) (hConn : w.conns[i]? = some c) (hEnd : c.serverEnd = none)
    (hFree : w.files c.server fd = none) (hPort : addr.2 ≠ 0) (hUnused : w.Unused c.server addr) :
    Wired (w.accept i fd addr) := by
  have hFiles : ∀ {x fd' y}, (w.accept i fd addr).files x fd' = some y ↔
      w.files x fd' = some y ∨ (x = c.server ∧ fd' = fd ∧ y = (i, .server)) :=
    files_accept hConn hFree
  -- the server end of this connection was not open
  have hNot : ∀ {b fd'}, w.files b fd' ≠ some (i, .server) := by
    intro b fd' hFile
    obtain ⟨-, addr', hSome⟩ := h.at_server hFile hConn
    rw [hEnd] at hSome
    cases hSome
  have hKept : ∀ {b fd' j}, w.files b fd' = some (j, .server) → i ≠ j := by
    rintro b fd' j hFile rfl
    exact hNot hFile
  refine ⟨?_, ?_, ?_, ?_⟩
  · intro x fd' j hFile
    rcases hFiles.mp hFile with hFile | ⟨-, -, hNew⟩
    · obtain ⟨d, hConn', hClient, hFd⟩ := h.client hFile
      by_cases hSame : i = j
      · subst hSame
        rw [hConn] at hConn'
        cases hConn'
        exact ⟨_, conns_accept_self hConn, hClient, hFd⟩
      · exact ⟨d, (conns_accept_ne hSame).trans hConn', hClient, hFd⟩
    · cases hNew
  · intro b fd' j hFile
    rcases hFiles.mp hFile with hFile | ⟨rfl, rfl, hNew⟩
    · obtain ⟨d, addr', hConn', hServer, hSome⟩ := h.server hFile
      exact ⟨d, addr', (conns_accept_ne (hKept hFile)).trans hConn', hServer, hSome⟩
    · cases hNew
      exact ⟨_, addr, conns_accept_self hConn, rfl, rfl⟩
  · intro j d fd' addr' hConn' hSome
    rcases conns_accept hConn hConn' with ⟨-, rfl⟩ | ⟨-, hConn'⟩
    · cases hSome
      exact hPort
    · exact h.port hConn' hSome
  · intro b fd' fd'' j k d e addr' hFile hFile' hConn' hConn'' hSome hSome'
    have hFresh : ∀ {j fd'} {d : Conn A}, w.files c.server fd' = some (j, .server) →
        w.conns[j]? = some d → d.serverEnd ≠ some (fd', addr) := by
      intro j fd' d hFile hConn' hSome
      exact hUnused j (List.getElem?_eq_some_iff.mp hConn').1 d hConn' (fd', addr) hSome
        (h.at_server hFile hConn').1 hFile rfl
    rcases hFiles.mp hFile with hFile | ⟨rfl, rfl, hNew⟩
    · rw [conns_accept_ne (hKept hFile)] at hConn'
      rcases hFiles.mp hFile' with hFile' | ⟨rfl, rfl, hNew'⟩
      · rw [conns_accept_ne (hKept hFile')] at hConn''
        exact h.peers hFile hFile' hConn' hConn'' hSome hSome'
      · cases hNew'
        rw [conns_accept_self hConn] at hConn''
        cases hConn''
        cases hSome'
        exact absurd hSome (hFresh hFile hConn')
    · cases hNew
      rw [conns_accept_self hConn] at hConn'
      cases hConn'
      cases hSome
      rcases hFiles.mp hFile' with hFile' | ⟨-, rfl, hNew'⟩
      · rw [conns_accept_ne (hKept hFile')] at hConn''
        exact absurd hSome' (hFresh hFile' hConn'')
      · cases hNew'
        rfl

omit [DecidableEq A] in
/-- A connection that was not accepted has brought nothing to the server. -/
theorem Flow.unaccepted (h : Flow w i c) (hEnd : c.serverEnd = none) :
    c.received = none ∧ c.served = none := by
  have hReceived : c.received = none := by
    cases hSome : c.received with
    | none => rfl
    | some x =>
        obtain ⟨-, -, -, addr, hEnd'⟩ := h.received hSome
        rw [hEnd] at hEnd'
        cases hEnd'
  refine ⟨hReceived, ?_⟩
  cases hSome : c.served with
  | none => rfl
  | some x =>
      rw [h.served hSome] at hReceived
      cases hReceived

theorem clientOpen_accept (hConn : w.conns[i]? = some c) (hFree : w.files c.server fd = none)
    {j : Nat} {d : Conn A} (hOpen : ClientOpen (w.accept i fd addr) j d) : ClientOpen w j d := by
  rcases (files_accept hConn hFree).mp hOpen with hOpen | ⟨-, -, hNew⟩
  · exact hOpen
  · cases hNew

/-- The accepted connection. -/
theorem Flow.accept (h : Flow w i c) (hConn : w.conns[i]? = some c) (hEnd : c.serverEnd = none)
    (hFree : w.files c.server fd = none) :
    Flow (w.accept i fd addr) i { c with serverEnd := some ((fd : Int), addr) } := by
  obtain ⟨hReceived, hServed⟩ := h.unaccepted hEnd
  refine ⟨h.job, h.req, ?_, h.armed, ?_, h.served, ?_, ?_⟩
  · rcases h.toServer with hNil | hReserve | ⟨hRelease, hClosed⟩
    · exact .inl hNil
    · exact .inr (.inl hReserve)
    · exact .inr (.inr ⟨hRelease, fun hOpen => hClosed (clientOpen_accept hConn hFree hOpen)⟩)
  · intro r rq hSome
    have hNone : some (r, rq) = none := hSome.symm.trans hReceived
    cases hNone
  · rcases h.toClient with hNil | ⟨-, hSome, -⟩
    · exact .inl hNil
    · rw [hServed] at hSome
      cases hSome
  · rintro - - fd' addr' hSome
    cases hSome
    exact (files_accept hConn hFree).mpr (.inr ⟨rfl, rfl, rfl⟩)

/-- No request and no record of a server is about the connection it now accepts. -/
theorem Serves.accept {waiting : List (Resource × Request)} {t : Table jobCallbacks}
    (h : Serves w b waiting t) (hConn : w.conns[i]? = some c) (hFree : w.files c.server fd = none)
    (hReceived : c.received = none) (hServed : c.served = none) :
    Serves (w.accept i fd addr) b waiting t := by
  have hKeep : ∀ {fd' y}, w.files b fd' = some y → (w.accept i fd addr).files b fd' = some y :=
    fun hFile => (files_accept hConn hFree).mpr (.inl hFile)
  have hOther : ∀ {j : Nat} {d : Conn A}, w.conns[j]? = some d →
      d.received.isSome = true ∨ d.served.isSome = true →
      (w.accept i fd addr).conns[j]? = some d := by
    intro j d hConn' hBusy
    refine (conns_accept_ne ?_).trans hConn'
    rintro rfl
    rw [hConn] at hConn'
    cases hConn'
    simp [hReceived, hServed] at hBusy
  refine ⟨h.nodup, ?_, ?_, ?_⟩
  · intro r rq hIn
    obtain ⟨j, d, hFile, hConn', hSome, hNone⟩ := h.waiting hIn
    exact ⟨j, d, hKeep hFile, hOther hConn' (.inl (by rw [hSome]; rfl)), hSome, hNone⟩
  · intro e he
    obtain ⟨j, d, hFile, hConn', hSome, hMatch⟩ := h.table e he
    exact ⟨j, d, hKeep hFile, hOther hConn' (.inr hSome), hSome, hMatch⟩
  · intro fd' j d hFile hConn' hSome hLive
    rcases conns_accept hConn hConn' with ⟨rfl, rfl⟩ | ⟨hSame, hConn'⟩
    · have hNone : c.served.isSome = true := hSome
      rw [hServed] at hNone
      cases hNone
    · rcases (files_accept hConn hFree).mp hFile with hFile | ⟨-, -, hNew⟩
      · exact h.live hFile hConn' hSome ⟨clientOpen_accept hConn hFree hLive.1, hLive.2⟩
      · cases hNew
        exact absurd rfl hSame

/-- `accept4`. -/
theorem Coherent.accept (h : Coherent w clients servers) (hConn : w.conns[i]? = some c)
    (hEnd : c.serverEnd = none) (hFree : w.files c.server fd = none) (hPort : addr.2 ≠ 0)
    (hUnused : w.Unused c.server addr) : Coherent (w.accept i fd addr) clients servers := by
  have hKeep : ∀ {x fd' y}, w.files x fd' = some y →
      (w.accept i fd addr).files x fd' = some y :=
    fun hFile => (files_accept hConn hFree).mpr (.inl hFile)
  obtain ⟨hReceived, hServed⟩ := (h.flow hConn).unaccepted hEnd
  refine ⟨h.wired.accept hConn hEnd hFree hPort hUnused, ?_, ?_, ?_⟩
  · intro j d hConn'
    rcases conns_accept hConn hConn' with ⟨rfl, rfl⟩ | ⟨-, hConn'⟩
    · exact (h.flow hConn).accept hConn hEnd hFree
    · exact (h.flow hConn').frame (clientOpen_accept hConn hFree) fun _ _ => hKeep
  · intro a
    refine (h.asks a).frame ?_ fun _ _ _ => hKeep
    intro j d hConn'
    by_cases hSame : i = j
    · subst hSame
      rw [hConn] at hConn'
      cases hConn'
      exact ⟨_, conns_accept_self hConn, rfl, rfl, id⟩
    · exact ⟨d, (conns_accept_ne hSame).trans hConn', rfl, rfl, id⟩
  · intro b
    exact (h.serves b).accept hConn hFree hReceived hServed

end

end ResourceAgent.Ports.NetInvariant
