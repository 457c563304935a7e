import ResourceAgent.Ports.ClientShape
import ResourceAgent.Ports.Framing
import ResourceAgent.Ports.NetClient

/-!
# Agents connected by streams of bytes

`Network` delivers a line whole.  TCP does not know of lines: `send` appends the characters of a
line to a stream, `recv` takes as many of them as there are and the buffer has room for, and a line
is handled when `read_until_newline` has put it together in the buffer of its descriptor.  That
buffer belongs to the descriptor and not to the connection.

The agents, the descriptors and the connections are those of `Network`.  The lists `toServer` and
`toClient` of a connection hold what was written and not received; only their concatenation counts.
A `turn` is one turn of the loop of `recive_message_from_remote`: a call of `read_until_newline`
and what its result leads to.

`Asks` and `Grants` say that an agent only writes lines that fit the buffer of the one that reads
them: the handlers are translated once more in terms of what they send.
-/

namespace ResourceAgent.Ports.Streams

open ResourceAgent.Ports.HashTable
open ResourceAgent.Ports.Records
open ResourceAgent.Ports.Wire
open ResourceAgent.Ports.Client
open ResourceAgent.Ports.Reservation
open ResourceAgent.Ports.Outcomes
open ResourceAgent.Ports.ClientShape
open ResourceAgent.Ports.Framing
open ResourceAgent.Ports.Network
open ResourceAgent.Ports.NetInvariant
open ResourceAgent.Verified.CText
open ResourceAgent.Verified.Lines

/-! ## The system -/

section

variable {A : Type}

/-- The agents and their `connections` arrays. -/
structure ByteNet (A : Type) where
  net : Net A
  connections : A → Buffers

/-- The agents have started; their buffers hold no byte. -/
def ByteNet.init (capacity : A → Resource → Int) : ByteNet A where
  net := .init capacity
  connections _ _ := .fresh

/-- What one end has not received yet. -/
def setInbox (side : Side) (texts : List Text) (c : Conn A) : Conn A :=
  match side with
  | .client => { c with toClient := texts }
  | .server => { c with toServer := texts }

/-- The connection fails: of the bytes on their way, only the first ones still arrive. -/
def cut (keepServer keepClient : Nat) (c : Conn A) : Conn A :=
  { c with
    broken := true
    toServer := [c.toServer.flatten.take keepServer]
    toClient := [c.toClient.flatten.take keepClient] }

inductive StreamEvent (A : Type) where
  /-- `erlang_to_C` on a line of the agent's scheduler -/
  | erlang (a : A) (instruction : Text) (timer : Int) (nodes : Table nodeCallbacks) (dial : Dial)
  /-- `check_ourjob_timeouts` -/
  | sweep (a : A) (now : Int)
  /-- `connect_client`: connection `i` is accepted as `fd` -/
  | accept (i fd : Nat) (addr : Addr)
  /-- `send_request` on the client end of connection `i` -/
  | writable (i : Nat)
  /-- one turn of the loop of `recive_message_from_remote` at one end of connection `i` -/
  | turn (i : Nat) (side : Side) (arrival : Arrival) (now : Int) (dial : Dial)
      (names : Int → Option Addr)
  /-- connection `i` fails -/
  | fail (i keepServer keepClient : Nat)

/-- The bytes an end has received and not handed over as a line. -/
def pendingAt (connections : A → Buffers) (c : Conn A) (side : Side) : Text :=
  ((c.fd side).map fun fd => (connections (c.agent side) fd).pending).getD []

/-- The bytes written to an end and not handed over as a line. -/
def unread (connections : A → Buffers) (c : Conn A) (side : Side) : Text :=
  pendingAt connections c side ++ (c.inbox side).flatten

namespace ByteNet

/-- `read_until_newline` at one end. -/
def read (b : ByteNet A) (c : Conn A) (side : Side) (fd : Int) (arrival : Arrival) :
    Text × Buffers × Reading :=
  readUntilNewline (recvFrom arrival) (c.inbox side).flatten (b.connections (c.agent side)) fd

/-- Connection `i` with this left to receive at one end. -/
def left (b : ByteNet A) (i : Nat) (side : Side) (texts : List Text) : Net A :=
  { b.net with wires := b.net.wires.modify i (setInbox side texts) }

variable [DecidableEq A] (route : Text → Int → A)

/-- One turn of the loop.  A line is handled as `Network` handles it; the disconnect branch ends
with `clear_connection_buffer`. -/
def turn (b : ByteNet A) (i : Nat) (c : Conn A) (side : Side) (fd : Int) (arrival : Arrival)
    (now : Int) (dial : Dial) (names : Int → Option Addr) : ByteNet A :=
  let r := b.read c side fd arrival
  match r.2.2 with
  | .line text =>
      { net := netStep route (b.left i side [text, r.1]) (.line i side now dial names)
        connections := Function.update b.connections (c.agent side) r.2.1 }
  | .more =>
      { net := b.left i side [r.1]
        connections := Function.update b.connections (c.agent side) r.2.1 }
  | .closed =>
      { net := netStep route (b.left i side [r.1]) (.disconnect i side names)
        connections :=
          Function.update b.connections (c.agent side) (clearConnectionBuffer r.2.1 fd) }

end ByteNet

section

variable [DecidableEq A] (route : Text → Int → A)

/-- The connection and the descriptor of one end, once it is there. -/
def endOf (b : ByteNet A) (i : Nat) (side : Side) : Option (Conn A × Int) :=
  b.net.wires.conns[i]?.bind fun c => (c.fd side).map fun fd => (c, fd)

/-- One step. -/
def streamStep (b : ByteNet A) : StreamEvent A → ByteNet A
  | .erlang a instruction timer nodes dial =>
      { b with net := netStep route b.net (.erlang a instruction timer nodes dial) }
  | .sweep a now => { b with net := netStep route b.net (.sweep a now) }
  | .accept i fd addr => { b with net := netStep route b.net (.accept i fd addr) }
  | .writable i => { b with net := netStep route b.net (.writable i) }
  | .turn i side arrival now dial names =>
      match endOf b i side with
      | some (c, fd) => b.turn route i c side fd arrival now dial names
      | none => b
  | .fail i keepServer keepClient =>
      { b with
        net := { b.net with wires := b.net.wires.modify i (cut keepServer keepClient) } }

end

/-- The other end. -/
def other : Side → Side
  | .client => .server
  | .server => .client

variable [DecidableEq A]

/-- What the kernels and the network can do next.  The end of a stream is seen when the other end
is closed or the connection has failed. -/
def Possible (b : ByteNet A) : StreamEvent A → Prop
  | .erlang a instruction timer nodes dial => Enabled b.net (.erlang a instruction timer nodes dial)
  | .sweep _ _ => True
  | .accept i fd addr => Enabled b.net (.accept i fd addr)
  | .writable i => Enabled b.net (.writable i)
  | .turn i side arrival _ dial names =>
      ∃ c ∈ b.net.wires.conns[i]?, b.net.wires.IsOpen i c side ∧
        b.net.wires.Free (c.agent side) dial ∧ b.net.wires.Named (c.agent side) names ∧
        (arrival = .eof → c.broken = true ∨ b.net.wires.IsClosed i c (other side))
  | .fail i _ _ => i < b.net.wires.conns.length

/-- A descriptor that has a buffer, with nothing in it. -/
def Spare (connections : Buffers) (fd : Int) : Prop :=
  0 ≤ fd ∧ fd < maxFds ∧ (connections fd).accumulatedBytes = 0

instance (connections : Buffers) (fd : Int) : Decidable (Spare connections fd) :=
  inferInstanceAs (Decidable (_ ∧ _ ∧ _))

/-- The descriptor a dial gets is spare. -/
def SpareDial (connections : Buffers) : Dial → Prop
  | .epollFails fd => Spare connections fd
  | .connected fd => Spare connections fd
  | _ => True

instance (connections : Buffers) (dial : Dial) : Decidable (SpareDial connections dial) := by
  cases dial <;> unfold SpareDial <;> infer_instance

/-- New connections get spare descriptors. -/
def Fresh (b : ByteNet A) : StreamEvent A → Prop
  | .erlang a _ _ _ dial => SpareDial (b.connections a) dial
  | .accept i fd _ => ∀ c ∈ b.net.wires.conns[i]?, Spare (b.connections c.server) fd
  | .turn i side _ _ dial _ =>
      ∀ c ∈ b.net.wires.conns[i]?, SpareDial (b.connections (c.agent side)) dial
  | _ => True

instance (b : ByteNet A) (e : StreamEvent A) : Decidable (Possible b e) := by
  cases e <;> unfold Possible <;> infer_instance

instance (b : ByteNet A) (e : StreamEvent A) : Decidable (Fresh b e) := by
  cases e <;> unfold Fresh <;> infer_instance

/-- The steps of `Network` that a step amounts to: a line that is put together is delivered, and
of a failing connection the lines whose newline still arrives are kept. -/
def lineEvents (b : ByteNet A) : StreamEvent A → List (NetEvent A)
  | .erlang a instruction timer nodes dial => [.erlang a instruction timer nodes dial]
  | .sweep a now => [.sweep a now]
  | .accept i fd addr => [.accept i fd addr]
  | .writable i => [.writable i]
  | .turn i side arrival now dial names =>
      match endOf b i side with
      | some (c, fd) =>
          match (b.read c side fd arrival).2.2 with
          | .line _ => [.line i side now dial names]
          | .more => []
          | .closed => [.disconnect i side names]
      | none => []
  | .fail i keepServer keepClient =>
      match b.net.wires.conns[i]? with
      | some c =>
          [.fail i ((unread b.connections (cut keepServer keepClient c) .server).count '\n')
            ((unread b.connections (cut keepServer keepClient c) .client).count '\n')]
      | none => []

end

/-! ## What an agent writes -/

/-- A line that survives the buffer it is read into. -/
structure IsPlain (line : Text) : Prop where
  isLine : IsLine '\n' line
  length : line.length ≤ 1023
  nul : '\x00' ∉ line

/-- The newline of `unwords` is the last character. -/
theorem unwords_isLine {ws : List Text} (h : ∀ w ∈ ws, '\n' ∉ w) : IsLine '\n' (unwords ws) := by
  induction ws with
  | nil => exact ⟨[], by simp, rfl⟩
  | cons w ws ih =>
      cases ws with
      | nil => exact ⟨w, h w (by simp), rfl⟩
      | cons v vs =>
          obtain ⟨body, hBody, hRest⟩ := ih fun x hx => h x (List.mem_cons_of_mem _ hx)
          refine ⟨w ++ ' ' :: body, ?_, ?_⟩
          · simp [h w (by simp), hBody]
          · rw [unwords, hRest]
            · simp
            · simp

/-- A line of words. -/
theorem unwords_isPlain {ws : List Text}
    (hWords : ∀ w ∈ ws, (∀ c ∈ w, isBlank c = false) ∧ '\x00' ∉ w)
    (hLength : (unwords ws).length ≤ 1023) : IsPlain (unwords ws) where
  isLine := unwords_isLine fun w hw hMem => absurd ((hWords w hw).1 _ hMem) (by decide)
  length := hLength
  nul hMem := by
    rcases mem_unwords hMem with hSpace | hNewline | ⟨w, hw, hc⟩
    · exact absurd hSpace (by decide)
    · exact absurd hNewline (by decide)
    · exact (hWords w hw).2 hc

private theorem word_clean {w : Text} (h : IsWord isBlank w) (hNul : '\x00' ∉ w) :
    (∀ c ∈ w, isBlank c = false) ∧ '\x00' ∉ w :=
  ⟨h.2, hNul⟩

private theorem number_clean (n : Int) : (∀ c ∈ itoa n, isBlank c = false) ∧ '\x00' ∉ itoa n :=
  word_clean (itoa_isWord n) (nul_not_mem_itoa n)

private theorem command_clean {w : Text}
    (h : w.all (fun c => !isBlank c && c != '\x00') = true) :
    (∀ c ∈ w, isBlank c = false) ∧ '\x00' ∉ w := by
  rw [List.all_eq_true] at h
  refine ⟨fun c hc => ?_, fun hNul => ?_⟩
  · have hKept := h c hc
    rw [Bool.and_eq_true, Bool.not_eq_true'] at hKept
    exact hKept.1
  · have hKept := h _ hNul
    simp at hKept

/-- A line that names a job, a type and an amount. -/
private theorem amountLine_isPlain {command : Text} {jobId : Int} {req : PendingResource}
    (hCommand : (∀ c ∈ command, isBlank c = false) ∧ '\x00' ∉ command)
    (hShort : command.length = 7) (hJob : IsInt jobId) (hReq : WellFormed req) :
    IsPlain (unwords [command, itoa jobId, req.type, itoa req.amount]) := by
  refine unwords_isPlain (fun w hw => ?_) ?_
  · simp only [List.mem_cons, List.not_mem_nil, or_false] at hw
    rcases hw with rfl | rfl | rfl | rfl
    · exact hCommand
    · exact number_clean jobId
    · exact word_clean hReq.1.word hReq.1.nul
    · exact number_clean req.amount
  · have hJobLen := length_itoa_le hJob
    have hAmountLen := length_itoa_le hReq.2
    have hTypeLen := hReq.1.length
    simp only [unwords, List.length_append, List.length_cons, List.length_nil]
    omega

theorem reserveLine_isPlain {jobId : Int} {req : PendingResource} (hJob : IsInt jobId)
    (hReq : WellFormed req) : IsPlain (reserveLine jobId req.type req.amount) :=
  amountLine_isPlain (command_clean rfl) rfl hJob hReq

theorem releaseLine_isPlain {jobId : Int} {req : PendingResource} (hJob : IsInt jobId)
    (hReq : WellFormed req) : IsPlain (releaseLine jobId req.type req.amount) :=
  amountLine_isPlain (command_clean rfl) rfl hJob hReq

theorem grantedLine_isPlain {jobId : Int} (hJob : IsInt jobId) : IsPlain (grantedLine jobId) := by
  refine unwords_isPlain (fun w hw => ?_) ?_
  · simp only [List.mem_cons, List.not_mem_nil, or_false] at hw
    rcases hw with rfl | rfl
    · exact command_clean rfl
    · exact number_clean jobId
  · have hJobLen := length_itoa_le hJob
    have hCommand : "GRANTED".toList.length = 7 := rfl
    simp only [unwords, List.length_append, List.length_cons, List.length_nil]
    omega

/-- Effects that write plain lines and open spare descriptors. -/
def Sound (connections : Buffers) : Effect → Prop
  | .send _ line => IsPlain line
  | .connect fd _ _ => Spare connections fd
  | _ => True

/-- The client side has `int`s and types to write. -/
structure Asks (s : ClientState) : Prop where
  placed : Placed s
  reqs : ∀ job ∈ s.jobs, ∀ req ∈ job.nextReq ++ job.grantedReqs, WellFormed req

/-- The server side has `int`s to write. -/
def Grants (s : ServerState) : Prop :=
  ∀ r, ∀ req ∈ (s.queue r).requests, IsInt req.jobId

section

variable {s : ClientState} {connections : Buffers}

theorem sound_cToErlang (instruction : Instruction) (jobId : Text) :
    ∀ e ∈ cToErlang instruction jobId, Sound connections e := by
  intro e he
  unfold cToErlang at he
  split at he
  · cases he
  · cases List.mem_singleton.mp he
    trivial

theorem sound_ask {dial : Dial} (hDial : SpareDial connections dial) (job : LocalJob) :
    ∀ e ∈ (askForNextResource dial s job).2, Sound connections e := by
  unfold askForNextResource
  cases job.nextReq with
  | nil => exact sound_cToErlang _ _
  | cons req rest =>
      cases dial with
      | noSocket => simp
      | connectFails fd => simp [Sound]
      | epollFails fd =>
          intro e he
          simp only [List.mem_cons, List.not_mem_nil, or_false] at he
          rcases he with rfl | rfl
          · exact hDial
          · trivial
      | connected fd =>
          intro e he
          simp only [List.mem_cons, List.not_mem_nil, or_false] at he
          rcases he with rfl | rfl
          · exact hDial
          · trivial

theorem sound_released (h : Asks s) {s' : ClientState} {job : LocalJob} (hJob : job ∈ s.jobs) :
    ∀ e ∈ (releaseResources s' job).2, Sound connections e := by
  intro e he
  obtain ⟨granted, hGranted, hIn⟩ := List.mem_flatMap.mp he
  unfold releaseProvider at hIn
  split at hIn
  · simp only [List.mem_cons, List.not_mem_nil, or_false] at hIn
    rcases hIn with rfl | rfl | rfl
    · exact releaseLine_isPlain (h.placed.ids job hJob)
        (h.reqs job hJob granted (List.mem_append_right _ hGranted))
    · trivial
    · trivial
  · cases hIn

theorem sound_tearDown (job : LocalJob) : ∀ e ∈ (tearDown s job).2, Sound connections e := by
  unfold tearDown
  split
  · simp [Sound]
  · simp

theorem Asks.shrinks {s' : ClientState} (h : Asks s) (hShrinks : Shrinks s s') : Asks s' where
  placed := hShrinks.placed h.placed
  reqs job hJob := h.reqs job (hShrinks.jobs job hJob)

theorem sound_disconnect (h : Asks s) (fd : Int) :
    ∀ e ∈ (handleOutboundDisconnect s fd).2, Sound connections e := by
  unfold handleOutboundDisconnect
  cases hOwner : s.owner fd with
  | none => simp
  | some job =>
      exact fun e he => (List.mem_append.mp he).elim (sound_released h (owner_mem hOwner) e)
        (sound_cToErlang _ _ e)

theorem sound_timeOut (ids : List Int) (h : Asks s) :
    ∀ e ∈ (timeOut ids s).2, Sound connections e := by
  induction ids generalizing s with
  | nil => simp [timeOut]
  | cons jobId ids ih =>
      rw [timeOut]
      cases hFind : s.findJob jobId with
      | none => exact ih h
      | some job =>
          have hJob := (ClientState.findJob_eq_some.mp hFind).1
          have hRest := ih (h.shrinks (shrinks_tearDown h.placed hJob))
          intro e he
          simp only [List.mem_append] at he
          rcases he with ((hTorn | hReleased) | hTold) | hLater
          · exact sound_tearDown job e hTorn
          · exact sound_released h hJob e hReleased
          · exact sound_cToErlang _ _ e hTold
          · exact hRest e hLater

theorem sound_line (h : Asks s) {fd : Int} {instruction : Text} {now : Int} {dial : Dial}
    (hDial : SpareDial connections dial) :
    ∀ e ∈ (clientStep s (.line fd instruction now dial)).2, Sound connections e := by
  simp only [clientStep]
  cases parseRemote instruction with
  | granted jobId =>
      simp only [clientToMyserver]
      cases s.owner fd with
      | none => simp
      | some job =>
          by_cases hId : job.jobId = jobId
          · simp only [hId, if_true, List.mem_cons, forall_eq_or_imp]
            exact ⟨trivial, sound_ask hDial _⟩
          · simp [hId]
  | reject => exact sound_disconnect h fd
  | reserve jobId resource amount => simp [clientToMyserver]
  | release => simp [clientToMyserver]
  | ignored => simp [clientToMyserver]

theorem sound_erlang (h : Asks s) {instruction : Text} {timer : Int}
    {nodes : Table nodeCallbacks} {dial : Dial} (hDial : SpareDial connections dial) :
    ∀ e ∈ (clientStep s (.erlang instruction timer nodes dial)).2, Sound connections e := by
  simp only [clientStep]
  cases parseErlang instruction with
  | jobRequest jobId destinations =>
      cases destinations with
      | nil => exact sound_cToErlang _ _
      | cons token tokens => exact sound_ask hDial _
  | jobRelease jobId =>
      simp only [erlangToC]
      cases hFind : s.findJob (atoi jobId) with
      | none => simp
      | some job =>
          exact fun e he => (List.mem_append.mp he).elim (sound_tearDown job e)
            (sound_released h (ClientState.findJob_eq_some.mp hFind).1 e)
  | jobStatus jobId =>
      simp only [erlangToC]
      cases s.findJob (atoi jobId) with
      | none => exact sound_cToErlang _ _
      | some job =>
          by_cases hNext : job.nextReq = []
          · simp only [hNext, if_true]
            exact sound_cToErlang _ _
          · simp only [hNext, if_false]
            exact sound_cToErlang _ _
  | getNodes => simp [erlangToC, Sound]
  | ignored => simp [erlangToC]

theorem sound_sendRequest (h : Asks s) (fd : Int) :
    ∀ e ∈ (sendRequest s fd).2, Sound connections e := by
  cases hOwner : s.owner fd with
  | none => simp [sendRequest, hOwner]
  | some job =>
      cases hNext : job.nextReq with
      | nil => simp [sendRequest, hOwner, hNext]
      | cons req rest =>
          intro e he
          have hJob := owner_mem hOwner
          have hReq := h.reqs job hJob req (by simp [hNext])
          simp only [sendRequest, hOwner, hNext, List.mem_cons, List.not_mem_nil, or_false] at he
          rcases he with rfl | rfl
          · exact reserveLine_isPlain (h.placed.ids job hJob) hReq
          · trivial

/-- A JOB_REQUEST asks for what its destinations say. -/
theorem stored_wellFormed {e : ClientEvent} {job : LocalJob} (h : stored s e = some job) :
    ∀ req ∈ job.nextReq ++ job.grantedReqs, WellFormed req := by
  cases e with
  | erlang instruction timer nodes dial =>
      simp only [stored] at h
      split at h
      · rename_i jobId token tokens hParse
        cases h
        intro req hReq
        have hIn : req ∈ parseDestinations nodes (token :: tokens) := by
          simpa [makeJob] using hReq
        exact parseDestinations_wellFormed (jobRequest_words hParse) req hIn
      · cases h
  | _ => cases h

/-- What jobs ask for stays well formed. -/
theorem Asks.step (h : Asks s) (e : ClientEvent) : Asks (clientStep s e).1 := by
  have hPlaced := placed_step h.placed e
  cases clientStep_shape h.placed e with
  | shrinks hShrinks _ _ _ => exact h.shrinks hShrinks
  | requested job dial hStored _ _ _ _ hChanged _ =>
      refine ⟨hPlaced, fun x hx => ?_⟩
      have hNew := stored_wellFormed hStored
      rcases (hChanged.jobs x).mp hx with hSame | ⟨hOld, -⟩
      · cases hSame
        obtain ⟨fd, hJob⟩ := asked_job dial job
        rw [hJob]
        exact hNew
      · rcases ClientState.mem_jobs_insertJob.mp hOld with rfl | ⟨hOld, -⟩
        · exact hNew
        · exact h.reqs x hOld
  | advanced fd instruction now dial old _ _ _ hOwner hChanged _ =>
      refine ⟨hPlaced, fun x hx => ?_⟩
      rcases (hChanged.jobs x).mp hx with hSame | ⟨hOld, -⟩
      · cases hSame
        obtain ⟨socket, hJob⟩ := asked_job dial (LocalJob.advance old fd now)
        rw [hJob]
        have hReqs := h.reqs old (owner_mem hOwner)
        unfold LocalJob.advance
        cases hNext : old.nextReq with
        | nil => simpa [hNext] using hReqs
        | cons req rest =>
            have hReq : WellFormed req := hReqs req (by simp [hNext])
            intro x hx
            simp only [List.mem_append, List.mem_cons] at hx
            rcases hx with hRest | rfl | hGranted
            · exact hReqs x (by simp [hNext, hRest])
            · exact hReq
            · exact hReqs x (List.mem_append_right _ hGranted)
      · exact h.reqs x hOld

end

section

variable {s : ServerState} {peers : Peers} {connections : Buffers}

/-- A drain answers requests of the queues and leaves the others. -/
theorem Grants.drained {s' : ServerState} {out : List Effect} {grants : List Grant}
    (h : Grants s) (hDrained : Drained peers s s' out grants) :
    Grants s' ∧ ∀ e ∈ out, Sound connections e := by
  have hSplit : ∀ r, ∃ served, (s.queue r).requests = served ++ (s'.queue r).requests ∧
      served.Perm (grantedReqs grants r) := hDrained.queues
  constructor
  · intro r req hReq
    obtain ⟨served, hQueue, -⟩ := hSplit r
    exact h r req (by rw [hQueue]; exact List.mem_append_right _ hReq)
  · intro e he
    rw [hDrained.out, List.mem_flatMap] at he
    obtain ⟨grant, hGrant, hEffect⟩ := he
    obtain ⟨served, hQueue, hPerm⟩ := hSplit grant.resource
    have hServed : grant.req ∈ served :=
      hPerm.mem_iff.mpr (mem_grantedReqs.mpr ⟨grant, hGrant, rfl, rfl⟩)
    have hInt := h grant.resource grant.req (by rw [hQueue]; exact List.mem_append_left _ hServed)
    simp only [Grant.effects, List.mem_cons, List.not_mem_nil, or_false] at hEffect
    rcases hEffect with rfl | rfl
    · trivial
    · exact grantedLine_isPlain hInt

theorem Grants.releaseClient (h : Grants s) (fd : Int) :
    Grants (releaseClientByFd peers s fd).1 ∧
      ∀ e ∈ (releaseClientByFd peers s fd).2, Sound connections e := by
  rcases releaseClientByFd_cases peers s fd with ⟨-, hSame⟩ | ⟨⟨grants, hDrained⟩, -⟩
  · rw [hSame]
    exact ⟨h, by simp⟩
  · exact Grants.drained (s := creditOnly s fd) h hDrained

/-- The job of a RESERVE is what `atoi` returns. -/
theorem reserve_isInt {line resource : Text} {jobId amount : Int}
    (h : parseRemote line = .reserve jobId resource amount) : IsInt jobId := by
  unfold parseRemote at h
  split at h
  · cases h
  · split at h
    · split at h
      · cases h
        exact atoi_isInt _
      · cases h
    · split at h
      · cases h
      · split at h
        · split at h <;> cases h
        · split at h <;> cases h

theorem Grants.message (h : Grants s) (fd : Int) (line : Text) :
    Grants (serverMessage peers s fd line).1 ∧
      ∀ e ∈ (serverMessage peers s fd line).2, Sound connections e := by
  unfold serverMessage
  split
  · rename_i jobId resource amount hParse
    obtain ⟨⟨grants, hDrained⟩, -⟩ := enqueueJobs_drained peers s resource jobId amount fd
    refine Grants.drained ?_ hDrained
    intro r req hReq
    rw [enqueueOnly] at hReq
    simp only [setQueue_queue] at hReq
    split at hReq
    · rcases List.mem_append.mp hReq with hOld | hNew
      · exact h _ req hOld
      · rw [List.mem_singleton.mp hNew]
        exact reserve_isInt hParse
    · exact h r req hReq
  · exact h.releaseClient fd
  · exact ⟨h, by simp⟩

end

end ResourceAgent.Ports.Streams
