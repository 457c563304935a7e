import ResourceAgent.Ports.Deadlock

/-!
# Nothing stands still

While every dial succeeds and nothing disturbs the run, no request gets lost between
two handlers.  On an unanswered connection the RESERVE is still to be sent, on its
way, or its request waits in a queue of the server (`Flowing`).  A client waits on
every connection it has not got an answer on, no open connection is forgotten, and
the scheduler knows every job that has got everything (`Pursues`).

The descriptions of what a handler does are those of `Deadlock`; what is added is
that a job that is not done always has a connection under way.
-/

namespace ResourceAgent.Ports.Momentum

open ResourceAgent.Ports.HashTable
open ResourceAgent.Ports.Records
open ResourceAgent.Ports.Wire
open ResourceAgent.Ports.Client
open ResourceAgent.Ports.JobRequest
open ResourceAgent.Ports.Reservation
open ResourceAgent.Ports.Network
open ResourceAgent.Ports.NetInvariant
open ResourceAgent.Ports.Agreement
open ResourceAgent.Ports.Acquisition
open ResourceAgent.Ports.Deadlock
open ResourceAgent.Verified.CText
open ResourceAgent.Verified.Runs

variable {A : Type}

/-! ## What a drain does to the connections -/

/-- Some connections were answered by the grants of agent `b`, the others are as
they were. -/
structure Answered (b : A) (grants : List Grant) (w w' : Wires A) : Prop where
  files : w'.files = w.files
  length : w'.conns.length = w.conns.length
  conns : ∀ {i : Nat} {c' : Conn A}, w'.conns[i]? = some c' → ∃ c, w.conns[i]? = some c ∧
    (c' = c ∨ c.served = none ∧ ∃ g, c' = granting g c)
  done : ∀ g ∈ grants, ∀ {i : Nat} {c' : Conn A},
    w.files b g.req.originSocket = some (i, .server) → w'.conns[i]? = some c' →
      c'.served.isSome = true

section

variable {b : A} {w w' : Wires A} {clients : A → ClientState}
  {servers : A → List (Resource × Request) × Table jobCallbacks} {grants : List Grant}

theorem Answered.refl (b : A) (w : Wires A) : Answered b [] w w :=
  ⟨rfl, rfl, fun hConn => ⟨_, hConn, .inl rfl⟩, by simp⟩

/-- What is served stays as it is. -/
theorem Answered.kept (h : Answered b grants w w') {i : Nat} {c c' : Conn A}
    (hConn : w.conns[i]? = some c) (hConn' : w'.conns[i]? = some c')
    (hServed : c.served.isSome = true) : c' = c := by
  obtain ⟨d, hOld, hSame | ⟨hNone, -⟩⟩ := h.conns hConn'
  · rw [hConn] at hOld
    cases hOld
    exact hSame
  · rw [hConn] at hOld
    cases hOld
    rw [hNone] at hServed
    cases hServed

variable [DecidableEq A] {route : Text → Int → A}

theorem answered_grants {names : Int → Option Addr} (grants : List Grant) :
    ∀ {w : Wires A} {servers : A → List (Resource × Request) × Table jobCallbacks}
      {waiting : List (Resource × Request)} {t : Table jobCallbacks},
      Coherent w clients servers →
      servers b = (grants.map (fun g => (g.resource, g.req)) ++ waiting, t) →
      w.Named b names → (∀ g ∈ grants, g.peer = names g.req.originSocket) →
      Answered b grants w (w.performAll route b (grants.flatMap Grant.effects)) := by
  induction grants with
  | nil => exact fun {w} _ _ _ _ _ _ _ => Answered.refl b w
  | cons g grants ih =>
      intro w servers waiting t h hServer hNamed hPeers
      have hGrant : Coherent (w.performAll route b g.effects) clients _ :=
        h.grant hServer hNamed (hPeers g (by simp))
      have hRest := ih hGrant (if_pos rfl) ((steady_grant g).named hNamed)
        fun g' hg' => hPeers g' (List.mem_cons_of_mem _ hg')
      have hServes := h.serves b
      rw [hServer] at hServes
      obtain ⟨i, c, hFile, hConn, -, hServed⟩ := hServes.waiting List.mem_cons_self
      rw [performAll_grant hFile] at hRest
      rw [List.flatMap_cons, performAll_append, performAll_grant hFile]
      have hSelf : (w.modify i (granting g)).conns[i]? = some (granting g c) :=
        conns_modify_self hConn
      have hSome : (granting g c).served.isSome = true := by
        rw [granting_served]
        rfl
      refine ⟨hRest.files, ?_, ?_, ?_⟩
      · rw [hRest.length]
        exact List.length_modify ..
      · intro j d' hConn'
        obtain ⟨d, hMid, hChange⟩ := hRest.conns hConn'
        by_cases hSame : i = j
        · subst hSame
          rw [hSelf] at hMid
          cases hMid
          refine ⟨c, hConn, .inr ⟨hServed, g, ?_⟩⟩
          exact hRest.kept hSelf hConn' hSome
        · rw [conns_modify_ne hSame] at hMid
          exact ⟨d, hMid, hChange⟩
      · intro g' hg' j d' hFile' hConn'
        rcases List.mem_cons.mp hg' with rfl | hg'
        · rw [hFile] at hFile'
          cases hFile'
          rw [hRest.kept hSelf hConn' hSome]
          exact hSome
        · exact hRest.done g' hg' hFile' hConn'

theorem answered_drained (h : Coherent w clients servers) {names : Int → Option Addr}
    {mid s' : ServerState} {out : List Effect}
    (hServer : servers b = (queued mid, mid.tableNodejobs)) (hNamed : w.Named b names)
    (hDrain : Drained (asPeers names) mid s' out grants) :
    Answered b grants w (w.performAll route b out) := by
  have hServes := h.serves b
  rw [hServer] at hServes
  have hSplit := h.setServer (hServes.perm (queued_drained hDrain))
  rw [hDrain.out]
  refine answered_grants grants hSplit (if_pos rfl) hNamed fun g hg => ?_
  obtain ⟨k, hPeer⟩ := hDrain.peer g hg
  exact hPeer

end

/-! ## The invariant -/

/-- On a connection that was not answered, the RESERVE is still to come or its
request waits. -/
structure Flowing (w : Wires A) (waiting : A → List (Resource × Request)) : Prop where
  sent : ∀ {i : Nat} {c : Conn A}, w.conns[i]? = some c → c.served = none →
    c.armed = true ∨ c.toServer ≠ [] ∨ c.received.isSome = true
  queued : ∀ {i : Nat} {c : Conn A}, w.conns[i]? = some c → c.served = none →
    ∀ {x}, c.received = some x → x ∈ waiting c.server

/-- Agent `a` knows its open connections, and an answer it waits for is on its way
once it was given. -/
structure Reaches (w : Wires A) (a : A) (s : ClientState) : Prop where
  natural : ∀ {fd i}, w.files a fd = some (i, .client) → 0 ≤ fd
  used : ∀ {fd i}, w.files a fd = some (i, .client) → Uses s fd
  answered : ∀ {i : Nat} {c : Conn A}, ∀ e ∈ s.entries, w.files a e.fd = some (i, .client) →
    w.conns[i]? = some c → c.served.isSome = true → c.toClient ≠ []

/-- A job waits on a connection, or the scheduler knows that it has everything. -/
def Settled (s : ClientState) (told : List (Instruction × Text)) (job : LocalJob) : Prop :=
  (job.nextReq ≠ [] → ∃ e ∈ s.entries, e.job = job.addr) ∧
    (job.nextReq = [] → ToldGranted told job.jobId)

structure Pursues (w : Wires A) (a : A) (s : ClientState) (told : List (Instruction × Text)) :
    Prop where
  reaches : Reaches w a s
  settled : ∀ job ∈ s.jobs, Settled s told job

/-- The requests that wait at each agent. -/
def waitingOf (net : Net A) (b : A) : List (Resource × Request) := queued (net.agents b).server

structure Moving (net : Net A) : Prop where
  flowing : Flowing net.wires (waitingOf net)
  pursues : ∀ a, Pursues net.wires a (net.agents a).client (net.agents a).told

theorem moving_init (capacity : A → Resource → Int) : Moving (Net.init capacity) where
  flowing := by
    constructor
    · intro i c hConn
      simp [Net.init] at hConn
    · intro i c hConn
      simp [Net.init] at hConn
  pursues a := by
    refine ⟨⟨?_, ?_, ?_⟩, ?_⟩
    · intro fd i hFile
      cases hFile
    · intro fd i hFile
      cases hFile
    · intro i c e he
      simp [Net.init, ClientState.init, ClientState.entries] at he
    · intro job hJob
      simp [Net.init, ClientState.init, ClientState.jobs] at hJob

/-! ## Frames -/

section

variable {w w' : Wires A} {a : A} {s s' : ClientState} {told told' : List (Instruction × Text)}
  {waiting waiting' : A → List (Resource × Request)}

/-- The connections a client waits on have kept what was on its way to it. -/
theorem Reaches.frame (h : Reaches w a s)
    (hFiles : ∀ {fd i}, w'.files a fd = some (i, .client) → w.files a fd = some (i, .client))
    (hConns : ∀ {fd i} {c' : Conn A}, w.files a fd = some (i, .client) →
      w'.conns[i]? = some c' → c'.served.isSome = true →
      c'.toClient ≠ [] ∨ ∃ c, w.conns[i]? = some c ∧ c.served.isSome = true ∧
        (c.toClient ≠ [] → c'.toClient ≠ [])) : Reaches w' a s where
  natural hFile := h.natural (hFiles hFile)
  used hFile := h.used (hFiles hFile)
  answered {i c'} e he hFile hConn' hServed := by
    rcases hConns (hFiles hFile) hConn' hServed with hLine | ⟨c, hConn, hOld, hGrown⟩
    · exact hLine
    · exact hGrown (h.answered e he (hFiles hFile) hConn hOld)

theorem Settled.mono {job : LocalJob} (h : Settled s told job) :
    Settled s (told ++ told') job :=
  ⟨h.1, fun hDone => toldGranted_append.mpr (.inl (h.2 hDone))⟩

theorem Pursues.frame (h : Pursues w a s told) (hReaches : Reaches w' a s) :
    Pursues w' a s (told ++ told') :=
  ⟨hReaches, fun job hJob => (h.settled job hJob).mono⟩

/-- Unanswered connections keep what makes them move on. -/
theorem Flowing.frame (h : Flowing w waiting)
    (hConns : ∀ {i : Nat} {c' : Conn A}, w'.conns[i]? = some c' → c'.served = none →
      ∃ c, w.conns[i]? = some c ∧ c.served = none ∧ c'.server = c.server ∧
        c'.armed = c.armed ∧ (c.toServer ≠ [] → c'.toServer ≠ []) ∧ c'.received = c.received)
    (hWaiting : ∀ b x, x ∈ waiting b → x ∈ waiting' b) : Flowing w' waiting' where
  sent hConn' hServed' := by
    obtain ⟨c, hConn, hServed, -, hArmed, hLines, hReceived⟩ := hConns hConn' hServed'
    rw [hArmed, hReceived]
    rcases h.sent hConn hServed with hStill | hOnWay | hRead
    · exact .inl hStill
    · exact .inr (.inl (hLines hOnWay))
    · exact .inr (.inr hRead)
  queued hConn' hServed' x hSome := by
    obtain ⟨c, hConn, hServed, hServer, -, -, hReceived⟩ := hConns hConn' hServed'
    rw [hServer]
    exact hWaiting _ _ (h.queued hConn hServed (hReceived.symm.trans hSome))

/-- Lines were added, and nothing else. -/
structure Grown (c c' : Conn A) : Prop extends Quiet c c' where
  armed : c'.armed = c.armed
  toServer : c.toServer ≠ [] → c'.toServer ≠ []
  toClient : c.toClient ≠ [] → c'.toClient ≠ []

theorem Grown.refl (c : Conn A) : Grown c c := ⟨.refl c, rfl, id, id⟩

theorem Grown.trans {c₁ c₂ c₃ : Conn A} (h : Grown c₁ c₂) (h' : Grown c₂ c₃) : Grown c₁ c₃ where
  client := h'.client.trans h.client
  clientFd := h'.clientFd.trans h.clientFd
  server := h'.server.trans h.server
  jobId := h'.jobId.trans h.jobId
  req := h'.req.trans h.req
  serverEnd := h'.serverEnd.trans h.serverEnd
  received := h'.received.trans h.received
  served := h'.served.trans h.served
  broken hBroken := h'.broken (h.broken hBroken)
  armed := h'.armed.trans h.armed
  toServer hLines := h'.toServer (h.toServer hLines)
  toClient hLines := h'.toClient (h.toClient hLines)

theorem push_grown (side : Side) (line : Text) (c : Conn A) : Grown c (c.push side line) := by
  refine ⟨push_quiet side line c, ?_, ?_, ?_⟩
  all_goals
    unfold Conn.push
    split
    · simp
    · cases side <;> simp

theorem Reaches.grown (h : Reaches w a s)
    (hFiles : ∀ {fd i}, w'.files a fd = some (i, .client) → w.files a fd = some (i, .client))
    (hConns : ∀ {i : Nat} {c' : Conn A}, w'.conns[i]? = some c' →
      ∃ c, w.conns[i]? = some c ∧ Grown c c') : Reaches w' a s := by
  refine h.frame hFiles ?_
  intro fd i c' _ hConn' hServed
  obtain ⟨c, hConn, hGrown⟩ := hConns hConn'
  exact .inr ⟨c, hConn, hGrown.served ▸ hServed, hGrown.toClient⟩

theorem Flowing.grown (h : Flowing w waiting)
    (hConns : ∀ {i : Nat} {c' : Conn A}, w'.conns[i]? = some c' →
      ∃ c, w.conns[i]? = some c ∧ Grown c c') : Flowing w' waiting := by
  refine h.frame ?_ fun _ _ => id
  intro i c' hConn' hServed
  obtain ⟨c, hConn, hGrown⟩ := hConns hConn'
  exact ⟨c, hConn, hGrown.served.symm.trans hServed, hGrown.server, hGrown.armed,
    hGrown.toServer, hGrown.received⟩

/-! ## Drains -/

/-- A connection whose request waits is still open at the server. -/
theorem files_of_received {capacity : A → Resource → Int} {used : List (A × Int)}
    {clients : A → ClientState}
    {servers : A → List (Resource × Request) × Table jobCallbacks} (h : Coherent w clients servers)
    (hOrdered : Ordered capacity used w) {i : Nat} {c : Conn A} {x : Resource × Request}
    (hConn : w.conns[i]? = some c) (hServed : c.served = none) (hReceived : c.received = some x) :
    w.files c.server x.2.originSocket = some (i, .server) := by
  have hOpen := hOrdered.waiting hConn hServed
  have hWhole := hOrdered.whole hConn hOpen
  obtain ⟨-, -, -, addr, hEnd⟩ := (h.flow hConn).received hReceived
  exact (h.flow hConn).accepted hOpen hWhole hEnd

variable {b : A} {grants : List Grant}

/-- What is not granted stays in its queue. -/
theorem Flowing.answered [DecidableEq A] (h : Flowing w waiting)
    (hAnswered : Answered b grants w w')
    (hFiles : ∀ {i : Nat} {c : Conn A} {x : Resource × Request}, w.conns[i]? = some c →
      c.served = none → c.received = some x →
      w.files c.server x.2.originSocket = some (i, .server))
    {left : List (Resource × Request)}
    (hSplit : (waiting b).Perm (grants.map (fun g => (g.resource, g.req)) ++ left)) :
    Flowing w' (fun x => if x = b then left else waiting x) where
  sent {i c'} hConn' hServed' := by
    obtain ⟨c, hConn, rfl | ⟨-, g, rfl⟩⟩ := hAnswered.conns hConn'
    · exact h.sent hConn hServed'
    · rw [granting_served] at hServed'
      cases hServed'
  queued {i c'} hConn' hServed' x hReceived := by
    obtain ⟨c, hConn, rfl | ⟨-, g, rfl⟩⟩ := hAnswered.conns hConn'
    · have hIn := h.queued hConn hServed' hReceived
      by_cases hServer : c'.server = b
      · rw [if_pos hServer]
        rw [hServer, hSplit.mem_iff, List.mem_append, List.mem_map] at hIn
        rcases hIn with ⟨g, hg, rfl⟩ | hLeft
        · have hFile := hFiles hConn hServed' hReceived
          rw [hServer] at hFile
          have hDone := hAnswered.done g hg hFile hConn'
          rw [hServed'] at hDone
          cases hDone
        · exact hLeft
      · rw [if_neg hServer]
        exact hIn
    · rw [granting_served] at hServed'
      cases hServed'

/-- The answers reach the clients that wait for them. -/
theorem Reaches.answered_by (h : Reaches w a s) (hAnswered : Answered b grants w w')
    (hWhole : ∀ {fd i} {c : Conn A}, w.files a fd = some (i, .client) → w.conns[i]? = some c →
      c.broken = false) : Reaches w' a s := by
  refine h.frame ?_ ?_
  · intro fd i hFile
    rw [hAnswered.files] at hFile
    exact hFile
  · intro fd i c' hFile hConn' hServed
    obtain ⟨c, hConn, rfl | ⟨-, g, rfl⟩⟩ := hAnswered.conns hConn'
    · exact .inr ⟨c', hConn, hServed, id⟩
    · refine .inl ?_
      simp [granting, Conn.push, hWhole hFile hConn]

end

/-! ## The tables of a client -/

section

variable {w : Wires A} {a : A} {s s' : ClientState} {told : List (Instruction × Text)}
  {job : LocalJob} {fd : Int}

/-- A descriptor is still used if its entry is kept and a changed job has kept it. -/
theorem Uses.changed {addr : Nat} {new : Option LocalJob} {dropped : List Int}
    {added : List FdJobEntry} (hUses : Uses s fd) (hChanged : Changed s s' addr new dropped added)
    (hEntry : ∀ e ∈ s.entries, e.fd = fd → fd ∉ dropped)
    (hHeld : ∀ x ∈ s.jobs, x.addr = addr → ∀ g ∈ x.grantedReqs, g.providerFd = fd →
      ∃ y, new = some y ∧ g ∈ y.grantedReqs) : Uses s' fd := by
  rcases hUses with ⟨e, he, rfl⟩ | ⟨x, hx, g, hg, hFd⟩
  · exact .inl ⟨e, (hChanged.entries e).mpr (.inr ⟨he, hEntry e he rfl⟩), rfl⟩
  · refine .inr ?_
    by_cases hSame : x.addr = addr
    · obtain ⟨y, hNew, hg'⟩ := hHeld x hx hSame g hg hFd
      exact ⟨y, (hChanged.jobs y).mpr (.inl hNew), g, hg', hFd⟩
    · exact ⟨x, (hChanged.jobs x).mpr (.inr ⟨hx, hSame⟩), g, hg, hFd⟩

/-- Jobs other than the changed one wait on the connections they waited on. -/
theorem Settled.changed {addr : Nat} {new : Option LocalJob} {dropped : List Int}
    {added : List FdJobEntry} {x : LocalJob} (h : Settled s told x)
    (hChanged : Changed s s' addr new dropped added)
    (hEntries : ∀ e ∈ s.entries, e.job = x.addr → e.fd ∉ dropped) : Settled s' told x := by
  refine ⟨fun hWaits => ?_, h.2⟩
  obtain ⟨e, he, hSame⟩ := h.1 hWaits
  exact ⟨e, (hChanged.entries e).mpr (.inr ⟨he, hEntries e he hSame⟩), hSame⟩

/-- GRANTED: the answered connection is held from now on. -/
theorem Reaches.advance (h : Reaches w a s) (hKeys : s.AddrKeys) (hJob : job ∈ s.jobs)
    (hNext : job.nextReq ≠ []) (fd now : Int) :
    Reaches w a ((s.writeJob (LocalJob.advance job fd now)).removeEntry fd) := by
  have hChanged := advance_changed hKeys hJob fd now
  obtain ⟨req, rest, hCons⟩ := List.exists_cons_of_ne_nil hNext
  have hHolds : ({ req with providerFd := fd } : PendingResource) ∈
      (LocalJob.advance job fd now).grantedReqs := by
    simp [LocalJob.advance, hCons]
  have hKept : ∀ g ∈ job.grantedReqs, g ∈ (LocalJob.advance job fd now).grantedReqs := by
    intro g hg
    simp [LocalJob.advance, hCons, hg]
  refine ⟨h.natural, ?_, ?_⟩
  · intro fd' i hFile
    by_cases hSame : fd' = fd
    · refine .inr ⟨_, (hChanged.jobs _).mpr (.inl rfl), _, hHolds, hSame.symm⟩
    · refine Uses.changed (h.used hFile) hChanged (fun _ _ _ => by simpa using hSame) ?_
      intro x hx hAddr g hg _
      rw [hKeys x hx job hJob hAddr] at hg
      exact ⟨_, rfl, hKept g hg⟩
  · intro i c e he hFile hConn hServed
    rcases (hChanged.entries e).mp he with hNone | ⟨hOld, -⟩
    · cases hNone
    · exact h.answered e hOld hFile hConn hServed

/-- JOB_REQUEST: a new job is stored. -/
theorem Reaches.insertJob {job : LocalJob} (h : Reaches w a s) (hTidy : Tidy s)
    (hAbsent : ∀ x ∈ s.jobs, x.jobId ≠ job.jobId)
    (hNew : job = makeJob s job.jobId job.nextReq job.timer) : Reaches w a (s.insertJob job) := by
  have hChanged := insertJob_changed hTidy hAbsent hNew
  refine ⟨h.natural, ?_, h.answered⟩
  · intro fd i hFile
    have hUses : Uses { s with brk := s.brk + 1 } fd := h.used hFile
    refine Uses.changed hUses hChanged (by simp) ?_
    intro x hx hAddr
    have hLow := hTidy.allocated x hx
    rw [hAddr, hNew] at hLow
    exact absurd hLow (Nat.lt_irrefl _)

variable [DecidableEq A] {route : Text → Int → A}

/-- Opening a connection leaves the others as they are. -/
theorem conns_connectArmed {d jobId : Int} {req : PendingResource} {i : Nat} {c' : Conn A}
    (hFree : w.files a d = none)
    (h : (w.performAll route a [.connect d jobId req, .epollAdd d]).conns[i]? = some c') :
    w.conns[i]? = some c' ∨ (i = w.conns.length ∧ c' =
      { Conn.opened a d (route req.destIp req.destPort) jobId req with armed := true }) := by
  by_cases hSame : i = w.conns.length
  · subst hSame
    rw [conns_performAll_connect hFree] at h
    exact .inr ⟨rfl, (Option.some.inj h).symm⟩
  · rw [performAll_connect hFree, conns_modify_ne (Ne.symm hSame)] at h
    rcases conns_connect.mp h with hOld | ⟨hLast, -⟩
    · exact .inl hOld
    · exact absurd hLast hSame

theorem files_connectArmed {d fd jobId : Int} {req : PendingResource} {x : A} {y : Nat × Side}
    (hFree : w.files a d = none) :
    (w.performAll route a [.connect d jobId req, .epollAdd d]).files x fd = some y ↔
      w.files x fd = some y ∨ (x = a ∧ fd = d ∧ y = (w.conns.length, .client)) := by
  rw [performAll_connect hFree]
  exact files_connect hFree

theorem Flowing.connect {waiting : A → List (Resource × Request)} (h : Flowing w waiting)
    {d jobId : Int} {req : PendingResource} (hFree : w.files a d = none) :
    Flowing (w.performAll route a [.connect d jobId req, .epollAdd d]) waiting where
  sent hConn' hServed' := by
    rcases conns_connectArmed hFree hConn' with hConn | ⟨-, rfl⟩
    · exact h.sent hConn hServed'
    · exact .inl rfl
  queued hConn' hServed' x hReceived := by
    rcases conns_connectArmed hFree hConn' with hConn | ⟨-, rfl⟩
    · exact h.queued hConn hServed' hReceived
    · cases hReceived

/-- A connection another agent opens. -/
theorem Reaches.elsewhere {x : A} (h : Reaches w x s) {d jobId : Int} {req : PendingResource}
    (hFree : w.files a d = none) (hOther : x ≠ a) :
    Reaches (w.performAll route a [.connect d jobId req, .epollAdd d]) x s := by
  refine h.frame ?_ ?_
  · intro fd i hFile
    rcases (files_connectArmed hFree).mp hFile with hOld | ⟨hSame, -⟩
    · exact hOld
    · exact absurd hSame hOther
  · intro fd i c' _ hConn' hServed
    rcases conns_connectArmed hFree hConn' with hConn | ⟨-, rfl⟩
    · exact .inr ⟨c', hConn, hServed, id⟩
    · cases hServed

/-- The connection a job opens is in the index. -/
theorem Reaches.connect (h : Reaches w a s) (hKeys : s.AddrKeys) (hJob : job ∈ s.jobs) {d : Int}
    {req : PendingResource} (hNatural : 0 ≤ d) (hFree : w.files a d = none)
    (hChanged : Changed s s' job.addr (some { job with originSocket := d }) [d] [⟨d, job.addr⟩]) :
    Reaches (w.performAll route a [.connect d job.jobId req, .epollAdd d]) a s' where
  natural hFile := by
    rcases (files_connectArmed hFree).mp hFile with hOld | ⟨-, rfl, -⟩
    · exact h.natural hOld
    · exact hNatural
  used {fd i} hFile := by
    rcases (files_connectArmed hFree).mp hFile with hOld | ⟨-, rfl, -⟩
    · refine Uses.changed (h.used hOld) hChanged ?_ ?_
      · intro e he hFd
        rw [List.mem_singleton]
        rintro rfl
        rw [hFree] at hOld
        cases hOld
      · intro x hx hAddr g hg _
        rw [hKeys x hx job hJob hAddr] at hg
        exact ⟨_, rfl, hg⟩
    · exact .inl ⟨_, (hChanged.entries _).mpr (.inl List.mem_cons_self), rfl⟩
  answered {i c'} e he hFile hConn' hServed := by
    rcases conns_connectArmed hFree hConn' with hConn | ⟨-, rfl⟩
    · rcases (files_connectArmed hFree).mp hFile with hOld | ⟨-, -, hNew⟩
      · rcases (hChanged.entries e).mp he with hAdded | ⟨he, -⟩
        · rw [List.mem_singleton] at hAdded
          subst hAdded
          rw [hFree] at hOld
          cases hOld
        · exact h.answered e he hOld hConn hServed
      · cases hNew
        have hLt := (List.getElem?_eq_some_iff.mp hConn).1
        exact absurd hLt (Nat.lt_irrefl _)
    · cases hServed

/-- `ask_for_next_resource` settles the job it is called for. -/
theorem Pursues.ask (route : Text → Int → A) (told : List (Instruction × Text))
    (hReaches : Reaches w a s) (hKeys : s.AddrKeys) (hJob : job ∈ s.jobs)
    (hId : IsInt job.jobId) (hOpen : ∀ e ∈ s.entries, ∃ i, w.files a e.fd = some (i, .client))
    (hOthers : ∀ x ∈ s.jobs, x.addr ≠ job.addr → Settled s told x) {d : Nat}
    (hFree : w.files a d = none) :
    Pursues (w.performAll route a (askForNextResource (.connected d) s job).2) a
      (askForNextResource (.connected d) s job).1
      (told ++ toldBy (askForNextResource (.connected d) s job).2) := by
  obtain ⟨hChanged, hOut⟩ := askForNextResource_changed hKeys hJob hId (.connected d)
  cases hNext : job.nextReq with
  | nil =>
      simp only [askForNextResource, hNext, performAll_cToErlang]
      refine ⟨hReaches, fun x hx => ?_⟩
      by_cases hSame : x.addr = job.addr
      · rw [hKeys x hx job hJob hSame]
        refine ⟨fun hWaits => absurd hNext hWaits, fun _ => ?_⟩
        rw [toldGranted_append, cToErlang_itoa hId]
        refine .inr ⟨_, List.mem_cons_self, rfl, atoi_itoa hId⟩
      · exact (hOthers x hx hSame).mono
  | cons req rest =>
      simp only [asked, hNext] at hChanged hOut
      rw [← hNext] at hChanged
      rw [hOut]
      refine ⟨hReaches.connect hKeys hJob (Int.natCast_nonneg d) hFree hChanged, fun x hx => ?_⟩
      rcases (hChanged.jobs x).mp hx with hNew | ⟨hOld, hSame⟩
      · cases hNew
        refine ⟨fun _ => ?_, fun hDone => ?_⟩
        · exact ⟨_, (hChanged.entries _).mpr (.inl List.mem_cons_self), rfl⟩
        · rw [hNext] at hDone
          cases hDone
      · refine ((hOthers x hOld hSame).changed hChanged ?_).mono
        intro e he _ hDropped
        rw [List.mem_singleton] at hDropped
        obtain ⟨i, hFile⟩ := hOpen e he
        rw [hDropped, hFree] at hFile
        cases hFile

/-- What `ask_for_next_resource` does to the wires. -/
theorem performAll_asked (route : Text → Int → A) (a : A) (hKeys : s.AddrKeys)
    (hJob : job ∈ s.jobs) (hId : IsInt job.jobId) (w : Wires A) (d : Nat) :
    w.performAll route a (askForNextResource (.connected d) s job).2 = w ∨
      ∃ req rest, job.nextReq = req :: rest ∧
        w.performAll route a (askForNextResource (.connected d) s job).2 =
          w.performAll route a [.connect d job.jobId req, .epollAdd d] := by
  obtain ⟨-, hOut⟩ := askForNextResource_changed hKeys hJob hId (.connected d)
  cases hNext : job.nextReq with
  | nil =>
      left
      simp only [askForNextResource, hNext, performAll_cToErlang]
  | cons req rest =>
      right
      simp only [asked, hNext] at hOut
      rw [hOut]
      exact ⟨req, rest, rfl, rfl⟩

theorem Flowing.ask {waiting : A → List (Resource × Request)} (h : Flowing w waiting)
    (hKeys : s.AddrKeys) (hJob : job ∈ s.jobs) (hId : IsInt job.jobId) {d : Nat}
    (hFree : w.files a d = none) :
    Flowing (w.performAll route a (askForNextResource (.connected d) s job).2) waiting := by
  rcases performAll_asked route a hKeys hJob hId w d with hSame | ⟨req, -, -, hNew⟩
  · rw [hSame]
    exact h
  · rw [hNew]
    exact h.connect hFree

/-- The clients of the other agents. -/
theorem Reaches.askElsewhere {x : A} {s₀ : ClientState} (h : Reaches w x s₀) (hOther : x ≠ a)
    (hKeys : s.AddrKeys) (hJob : job ∈ s.jobs) (hId : IsInt job.jobId) {d : Nat}
    (hFree : w.files a d = none) :
    Reaches (w.performAll route a (askForNextResource (.connected d) s job).2) x s₀ := by
  rcases performAll_asked route a hKeys hJob hId w d with hSame | ⟨req, -, -, hNew⟩
  · rw [hSame]
    exact h
  · rw [hNew]
    exact h.elsewhere hFree hOther

end

end ResourceAgent.Ports.Momentum
