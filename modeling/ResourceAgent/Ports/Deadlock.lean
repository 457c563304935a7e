import Mathlib.Algebra.Order.BigOperators.Group.List
import ResourceAgent.Ports.Acquisition
import ResourceAgent.Ports.Agreement
import ResourceAgent.Ports.ClientRun
import ResourceAgent.Ports.JobRequest
import ResourceAgent.Verified.RankedWait

/-!
# No deadlock between jobs

Jobs take their resources in the order cpu, mem, gpu, each from any node.  In a
run in which no job times out, no connection is lost while it is in use, and jobs
are released only after JOB_GRANTED, there is never a set of jobs that wait for
each other (`no_deadlock`).

This puts together the order in which a job acquires (`Acquisition`), the
agreement of requester and provider about every connection (`Agreement`), and what
a provider keeps between two handlers: free and granted units add up to its
capacity, and the request at the head of a queue does not fit in what is free
(`Provides`).
-/

namespace ResourceAgent.Ports.Deadlock

open ResourceAgent.Ports.HashTable
open ResourceAgent.Ports.Records
open ResourceAgent.Ports.Wire
open ResourceAgent.Ports.Client
open ResourceAgent.Ports.ClientRun
open ResourceAgent.Ports.JobRequest
open ResourceAgent.Ports.Reservation
open ResourceAgent.Ports.Network
open ResourceAgent.Ports.NetInvariant
open ResourceAgent.Ports.Agreement
open ResourceAgent.Ports.Acquisition
open ResourceAgent.Verified.CText
open ResourceAgent.Verified.RankedWait
open ResourceAgent.Verified.Runs

/-! ## The provider -/

/-- A provider between two handlers; every record names its peer. -/
structure Provides (capacity : Resource → Int) (s : ServerState) : Prop where
  blocked : ∀ r, Blocked (s.queue r)
  pool : ∀ r, pool s r = capacity r
  named : ∀ e ∈ s.tableNodejobs.toList, e.port ≠ 0

theorem provides_init (capacity : Resource → Int) : Provides capacity (.init capacity) where
  blocked r := by simp [ServerState.init, makeQueue, Blocked]
  pool r := by simp [ServerState.init, makeQueue, Reservation.pool, totalGranted]
  named := by simp [ServerState.init]

section

variable {capacity : Resource → Int} {s mid s' : ServerState} {names : Int → Option Addr}
  {out : List Effect} {grants : List Grant} {fd : Int}

/-- `getpeername` names the peer of every request in a queue. -/
def NamesQueued (names : Int → Option Addr) (s : ServerState) : Prop :=
  ∀ r, ∀ rq ∈ (s.queue r).requests, ∃ addr, names rq.originSocket = some addr ∧ addr.2 ≠ 0

/-- The records of a drain name their peers. -/
theorem named_drained (hDrain : Drained (asPeers names) mid s' out grants)
    (hMid : ∀ e ∈ mid.tableNodejobs.toList, e.port ≠ 0) (hNames : NamesQueued names mid) :
    ∀ e ∈ s'.tableNodejobs.toList, e.port ≠ 0 := by
  rw [hDrain.table]
  refine forall_foldl_record ?_ _ hMid
  intro t g hg _
  obtain ⟨addr, hAddr, hPort⟩ := hNames g.resource g.req (hDrain.mem_grants hg)
  obtain ⟨k, hPeer⟩ := hDrain.peer g hg
  have hName : g.peer = some addr := hPeer.trans hAddr
  have hKey := congrArg Prod.snd (recordOf_key t g).2
  rw [hName] at hKey
  rw [show (recordOf t g).port = addr.2 from hKey]
  exact hPort

/-- RESERVE. -/
theorem Provides.enqueue (h : Provides capacity s) {resource : Text} {jobId amount : Int}
    (hNames : NamesQueued names
      (enqueueOnly s (Resource.ofName resource) (makeRequest s jobId fd amount))) :
    Provides capacity (enqueueJobs (asPeers names) s resource jobId amount fd).1 := by
  obtain ⟨⟨grants, hDrain⟩, hBlocked⟩ :=
    enqueueJobs_drained (asPeers names) s resource jobId amount fd
  refine ⟨hBlocked, ?_, named_drained hDrain h.named hNames⟩
  intro r
  have hPrepared : Prepared s fd _ := .enqueue (Resource.ofName resource) jobId amount
  rw [pool_drained hDrain, pool_prepared hPrepared, h.pool]

/-- RELEASE and the end of a connection. -/
theorem Provides.release (h : Provides capacity s) (hNames : NamesQueued names s) (fd : Int) :
    Provides capacity (releaseClientByFd (asPeers names) s fd).1 := by
  rcases releaseClientByFd_cases (asPeers names) s fd with
    ⟨-, hIdle⟩ | ⟨⟨grants, hDrain⟩, hBlocked⟩
  · rw [hIdle]
    exact h
  · refine ⟨hBlocked, ?_, named_drained hDrain ?_ hNames⟩
    · intro r
      have hPrepared : Prepared s fd _ := .credit
      rw [pool_drained hDrain, pool_prepared hPrepared, h.pool]
    · intro e he
      rw [creditOnly, toList_removeWhere] at he
      exact h.named e (List.mem_of_mem_filter he)

/-- Somebody holds units of a pool in whose queue a request waits, if the requests
in it fit in an empty pool. -/
theorem Provides.held (h : Provides capacity s) {r : Resource} {rq : Request}
    (hWaits : rq ∈ (s.queue r).requests)
    (hFits : ∀ rq ∈ (s.queue r).requests, rq.amountRequested ≤ capacity r) :
    ∃ e ∈ s.tableNodejobs.toList, 0 < e.granted r :=
  held_of_blocked (h.blocked r) (h.pool r) hFits (List.ne_nil_of_mem hWaits)

end

/-! ## What the scheduler was told -/

/-- The scheduler was told that a job has got everything. -/
def ToldGranted (told : List (Instruction × Text)) (j : Int) : Prop :=
  ∃ x ∈ told, x.1 = .granted ∧ atoi x.2 = j

instance (told : List (Instruction × Text)) (j : Int) : Decidable (ToldGranted told j) :=
  inferInstanceAs (Decidable (∃ x ∈ told, x.1 = .granted ∧ atoi x.2 = j))

theorem toldGranted_append {told told' : List (Instruction × Text)} {j : Int} :
    ToldGranted (told ++ told') j ↔ ToldGranted told j ∨ ToldGranted told' j := by
  simp [ToldGranted, or_and_right, exists_or]

theorem toldGranted_toldBy {out : List Effect} {j : Int} :
    ToldGranted (toldBy out) j ↔ .granted ∈ verdicts j out := by
  simp only [ToldGranted, toldBy, verdicts, List.mem_filterMap]
  constructor
  · rintro ⟨x, ⟨effect, hEffect, hTold⟩, hGranted, hId⟩
    refine ⟨effect, hEffect, ?_⟩
    cases effect <;> simp at hTold
    subst hTold
    simp at hGranted hId
    simp [hGranted, hId]
  · rintro ⟨effect, hEffect, hVerdict⟩
    cases effect <;> simp at hVerdict
    exact ⟨_, ⟨_, hEffect, rfl⟩, hVerdict.2, hVerdict.1.2⟩

/-- The jobs announced as granted are known, and none of them waits. -/
def Announced {A : Type} (used : List (A × Int)) (a : A) (s : ClientState)
    (told : List (Instruction × Text)) : Prop :=
  ∀ j, ToldGranted told j → (a, j) ∈ used ∧ phase s j ≠ some false

section

variable {cause : Cause} {j : Int} {p p' : Option Bool} {last : List Instruction}

theorem judged_stays_done (h : Judged cause j p last p') (hDone : p ≠ some false) :
    p' ≠ some false := by
  cases h with
  | still => exact hDone
  | grant => exact absurd rfl hDone
  | deny => exact absurd rfl hDone
  | expire => exact absurd rfl hDone
  | release b hCause => simp

theorem judged_granted (h : Judged cause j p last p') (hGranted : .granted ∈ last) :
    p = some false ∧ p' = some true := by
  cases h with
  | grant => exact ⟨rfl, rfl⟩
  | _ => simp at hGranted

end

theorem toldGranted_cToErlang {instruction : Instruction} {jobId : Text} {j : Int}
    (h : ToldGranted (toldBy (cToErlang instruction jobId)) j) :
    instruction = .granted ∧ atoi jobId = j := by
  unfold cToErlang at h
  split at h
  · obtain ⟨x, hx, -⟩ := h
    cases hx
  · obtain ⟨x, hx, hGranted, hId⟩ := h
    have hx : x ∈ [(instruction, jobId)] := hx
    rw [List.mem_singleton] at hx
    subst hx
    exact ⟨hGranted, hId⟩

/-- JOB_STATUS is answered with JOB_GRANTED only for a job that has everything. -/
theorem phase_query {s : ClientState} {e : ClientEvent} (hQuery : isQuery e = true) {j : Int}
    (hTold : ToldGranted (toldBy (clientStep s e).2) j) : phase s j = some true := by
  cases e with
  | erlang instruction timer nodes dial =>
      simp only [clientStep] at hTold
      cases hParse : parseErlang instruction with
      | jobStatus jobId =>
          simp only [hParse, erlangToC] at hTold
          cases hFind : s.findJob (atoi jobId) with
          | none =>
              rw [hFind] at hTold
              cases (toldGranted_cToErlang hTold).1
          | some job =>
              simp only [hFind] at hTold
              obtain ⟨hJob, hId⟩ := ClientState.findJob_eq_some.mp hFind
              split at hTold
              · rename_i hNext
                rw [← (toldGranted_cToErlang hTold).2, ← hId, phase_of_mem hJob]
                simp [hNext]
              · cases (toldGranted_cToErlang hTold).1
      | getNodes =>
          simp only [hParse, erlangToC] at hTold
          obtain ⟨x, hx, -⟩ := hTold
          cases hx
      | _ => simp [isQuery, hParse] at hQuery
  | _ => simp [isQuery] at hQuery

section

variable {A : Type} {used : List (A × Int)} {a : A} {s s' : ClientState}
  {told : List (Instruction × Text)}

theorem Announced.move (h : Announced used a s told) (hTidy : Tidy s) {cause : Cause}
    {out : List Effect} (hMove : Move cause s s' out)
    (hUsed : ∀ job ∈ s.jobs, (a, job.jobId) ∈ used)
    (hFresh : ∀ j, cause.requested = some j → (a, j) ∉ used) :
    Announced (used ++ (cause.requested.map fun j => (a, j)).toList) a s' (told ++ toldBy out) := by
  intro j hTold
  rw [toldGranted_append, toldGranted_toldBy] at hTold
  by_cases hNew : cause.requested = some j
  · refine ⟨by simp [hNew], fun hWaits => ?_⟩
    rcases hTold with hOld | hNow
    · exact hFresh j hNew (h j hOld).1
    · have hBefore : phase s j = none := by
        rw [phase_eq_none]
        rintro job hJob rfl
        exact hFresh _ hNew (hUsed job hJob)
      have hVerdicts := told_create hMove hBefore (by simp [hWaits])
      rw [hWaits] at hVerdicts
      rw [show verdicts j out = [] from hVerdicts] at hNow
      cases hNow
  · have hJudged := judged_move hTidy hMove hNew
    rcases hTold with hOld | hNow
    · obtain ⟨hIn, hDone⟩ := h j hOld
      exact ⟨List.mem_append_left _ hIn, judged_stays_done hJudged hDone⟩
    · obtain ⟨hBefore, hAfter⟩ := judged_granted hJudged hNow
      obtain ⟨job, hJob, rfl, -⟩ := phase_eq_some.mp hBefore
      exact ⟨List.mem_append_left _ (hUsed job hJob), by simp [hAfter]⟩

/-- Every handler but the sweep. -/
theorem Announced.step (h : Announced used a s told) (hTidy : Tidy s) {e : ClientEvent}
    (hUsed : ∀ job ∈ s.jobs, (a, job.jobId) ∈ used)
    (hFresh : ∀ j, (causeOf e).requested = some j → (a, j) ∉ used)
    (hSweep : ∀ now, e ≠ .sweep now) :
    Announced (used ++ ((causeOf e).requested.map fun j => (a, j)).toList) a (clientStep s e).1
      (told ++ toldBy (clientStep s e).2) := by
  cases hQuery : isQuery e with
  | true =>
      rw [clientStep_query hQuery]
      intro j hTold
      rw [toldGranted_append] at hTold
      rcases hTold with hOld | hNow
      · obtain ⟨hIn, hDone⟩ := h j hOld
        exact ⟨List.mem_append_left _ hIn, hDone⟩
      · have hDone := phase_query hQuery hNow
        obtain ⟨job, hJob, rfl, -⟩ := phase_eq_some.mp hDone
        exact ⟨List.mem_append_left _ (hUsed job hJob), by simp [hDone]⟩
  | false =>
      have hNew : FreshRequest s e := fun job hJob hSame => hFresh _ hSame (hUsed job hJob)
      exact h.move hTidy (clientStep_move hTidy hNew hQuery hSweep) hUsed hFresh

end

/-! ## Undisturbed runs -/

/-- `ask_for_next_resource` does not give up a connection it has made. -/
def keeps : Dial → Bool
  | .epollFails _ => false
  | _ => true

/-- The job id a JOB_RELEASE brings. -/
def releasing : Cause → Option Int
  | .release jobId => some jobId
  | _ => none

section

variable {A : Type}

/-- The job a JOB_REQUEST creates. -/
def requested : NetEvent A → Option (A × Int)
  | .erlang a instruction timer nodes dial =>
      (causeOf (.erlang instruction timer nodes dial)).requested.map fun j => (a, j)
  | _ => none

/-- A JOB_REQUEST is a line of `job_request_format`, and each amount in it is at
most what the node has that it is asked from. -/
def FromScheduler (capacity : A → Resource → Int) (route : Text → Int → A) : NetEvent A → Prop
  | .erlang _ instruction _ nodes _ =>
      ∀ token tokens, parseErlang instruction = .jobRequest token tokens →
        ∃ jobId picks, IsInt jobId ∧ instruction = jobRequestFormat jobId picks ∧
          ∀ type ∈ wanted picks, (picks type).quantity ≤ capacity
            (route (pendingOf nodes type (picks type)).destIp
              (pendingOf nodes type (picks type)).destPort) type
  | _ => True

variable [DecidableEq A]

/-- No job times out, no connection is lost before it is released, and a job is
released only after JOB_GRANTED. -/
def Undisturbed (net : Net A) : NetEvent A → Prop
  | .erlang a instruction timer nodes dial =>
      keeps dial = true ∧ ∀ j ∈ releasing (causeOf (.erlang instruction timer nodes dial)),
        ToldGranted (net.agents a).told j
  | .sweep a now => ∀ job ∈ (net.agents a).client.jobs, expired now job = false
  | .line _ _ _ dial _ => keeps dial = true
  | .fail i _ _ => ∀ c ∈ net.wires.conns[i]?, ¬ net.wires.IsOpen i c .client
  | _ => True

instance (net : Net A) : ∀ e, Decidable (Undisturbed net e)
  | .erlang a instruction timer nodes dial =>
      inferInstanceAs (Decidable (keeps dial = true ∧
        ∀ j ∈ releasing (causeOf (.erlang instruction timer nodes dial)),
          ToldGranted (net.agents a).told j))
  | .sweep a now =>
      inferInstanceAs (Decidable (∀ job ∈ (net.agents a).client.jobs, expired now job = false))
  | .accept _ _ _ => inferInstanceAs (Decidable True)
  | .writable _ => inferInstanceAs (Decidable True)
  | .line _ _ _ dial _ => inferInstanceAs (Decidable (keeps dial = true))
  | .disconnect _ _ _ => inferInstanceAs (Decidable True)
  | .fail i _ _ =>
      inferInstanceAs (Decidable (∀ c ∈ net.wires.conns[i]?, ¬ net.wires.IsOpen i c .client))

end

theorem ne_epollFails {dial : Dial} (h : keeps dial = true) : ∀ fd, dial ≠ .epollFails fd := by
  rintro fd rfl
  cases h

section

variable {A : Type} (capacity : A → Resource → Int) (route : Text → Int → A)

/-- The invariant of undisturbed runs, where `used` are the jobs requested so
far. -/
structure Unlocked (used : List (A × Int)) (net : Net A) : Prop where
  agreed : Agreed net
  acquiring : Acquiring capacity route used net.wires (clientsOf net)
  provides : ∀ b, Provides (capacity b) (net.agents b).server
  announced : ∀ a, Announced used a (net.agents a).client (net.agents a).told

theorem unlocked_init : Unlocked capacity route [] (Net.init capacity) where
  agreed := agreed_init capacity
  acquiring := by
    refine ⟨⟨?_, ?_, ?_, ?_, ?_⟩, ?_⟩
    · intro i c hConn
      simp [Net.init] at hConn
    · intro i c hConn
      simp [Net.init] at hConn
    · intro i c hConn
      simp [Net.init] at hConn
    · intro i c hConn
      simp [Net.init] at hConn
    · intro i j c d _ hConn
      simp [Net.init] at hConn
    · intro a job hJob
      simp [clientsOf, Net.init, ClientState.init, ClientState.jobs] at hJob
  provides b := provides_init (capacity b)
  announced a j hTold := by
    obtain ⟨x, hx, -⟩ := hTold
    cases hx

end

section

variable {A : Type} {capacity : A → Resource → Int} {route : Text → Int → A}
  {used : List (A × Int)} {net : Net A} {i : Nat} {c : Conn A}

/-- A request in a queue was read from a connection whose client still has it. -/
theorem Unlocked.queued (h : Unlocked capacity route used net) {b : A} {r : Resource} {rq : Request}
    (hQueued : rq ∈ ((net.agents b).server.queue r).requests) :
    ∃ i c, net.wires.files b rq.originSocket = some (i, .server) ∧ net.wires.conns[i]? = some c ∧
      c.received = some (r, rq) ∧ c.served = none ∧ ClientOpen net.wires i c ∧
      c.broken = false := by
  obtain ⟨i, c, hFile, hConn, hReceived, hServed⟩ :=
    (h.agreed.coherent.serves b).waiting (mem_queued.mpr hQueued)
  have hOpen := h.acquiring.conns.waiting hConn hServed
  exact ⟨i, c, hFile, hConn, hReceived, hServed, hOpen, h.acquiring.conns.whole hConn hOpen⟩

/-- An accepted connection that is not broken has a name. -/
theorem named_of_whole {w : Wires A} (hWired : Wired w) {b : A} {fd : Int}
    {names : Int → Option Addr} (hNamed : w.Named b names)
    (hFile : w.files b fd = some (i, .server)) (hConn : w.conns[i]? = some c)
    (hWhole : c.broken = false) : ∃ addr, names fd = some addr ∧ addr.2 ≠ 0 := by
  obtain ⟨hServer, addr, hEnd⟩ := hWired.at_server hFile hConn
  refine ⟨addr, ?_, hWired.port hConn hEnd⟩
  rcases named_iff.mp hNamed hConn hEnd hServer hFile with hName | ⟨hBroken, -⟩
  · exact hName
  · rw [hWhole] at hBroken
    cases hBroken

theorem Unlocked.namesQueued (h : Unlocked capacity route used net) {b : A}
    {names : Int → Option Addr} (hNamed : net.wires.Named b names) :
    NamesQueued names (net.agents b).server := by
  intro r rq hQueued
  obtain ⟨i, c, hFile, hConn, -, -, -, hWhole⟩ := h.queued hQueued
  exact named_of_whole h.agreed.coherent.wired hNamed hFile hConn hWhole

/-- No client sees the end of a connection. -/
theorem Unlocked.not_disconnect_client (h : Unlocked capacity route used net)
    {names : Int → Option Addr} : ¬ Enabled net (.disconnect i .client names) := by
  rintro ⟨c, hConn, ⟨fd, hFd, hFile⟩, -, hOver, -⟩
  cases hFd
  have hOpen : ClientOpen net.wires i c := hFile
  have hWhole := h.acquiring.conns.whole hConn hOpen
  rcases hOver with hBroken | ⟨fd, hFd, hClosed⟩
  · rw [hWhole] at hBroken
    cases hBroken
  · obtain ⟨⟨fd', addr⟩, hEnd, rfl⟩ := Option.map_eq_some_iff.mp hFd
    exact hClosed ((h.agreed.coherent.flow hConn).accepted hOpen hWhole hEnd)

/-- Undisturbed steps are orderly. -/
theorem Unlocked.orderly (h : Unlocked capacity route used net) {e : NetEvent A}
    (hEnabled : Enabled net e) (hUndisturbed : Undisturbed net e)
    (hFresh : ∀ x ∈ requested e, x ∉ used) : Orderly net e := by
  cases e with
  | erlang a instruction timer nodes dial =>
      intro job hJob hSame
      refine hFresh (a, job.jobId) ?_ (h.acquiring.jobs a job hJob).used
      rw [Option.mem_def, requested, hSame, Option.map_some]
  | sweep a now => trivial
  | accept i fd addr => trivial
  | writable i => trivial
  | line i side now dial names => trivial
  | disconnect i side names =>
      cases side with
      | client => exact absurd hEnabled h.not_disconnect_client
      | server =>
          obtain ⟨c, hConn, ⟨fd, hFd, hFile⟩, -, hOver, -⟩ := hEnabled
          intro d hSame x hEnd r rq hQueued hSocket
          obtain rfl : d = c := Option.some.inj (hSame.symm.trans hConn)
          rw [Option.mem_def] at hEnd
          rw [Conn.fd, hEnd, Option.map_some, Option.mem_some_iff] at hFd
          subst hFd
          have hFile : net.wires.files d.server x.1 = some (i, .server) := hFile
          obtain ⟨j, c, hFile', hConn', -, -, hOpen, hWhole⟩ := h.queued hQueued
          rw [hSocket, hFile] at hFile'
          cases hFile'
          obtain rfl : c = d := Option.some.inj (hConn'.symm.trans hConn)
          rcases hOver with hBroken | ⟨fd, hFd, hClosed⟩
          · rw [hWhole] at hBroken
            cases hBroken
          · cases hFd
            exact hClosed hOpen
  | fail i keepServer keepClient =>
      intro c hConn hOpen
      exact absurd hOpen (hUndisturbed c hConn)

/-! ## Steps -/

variable {a b : A} {w : Wires A}

/-- Only the wires changed, and only calmly. -/
theorem Unlocked.setWires (h : Unlocked capacity route used net)
    (hAgreed : Agreed { net with wires := w }) (hCalm : Calm net.wires w) :
    Unlocked capacity route used { net with wires := w } :=
  ⟨hAgreed, h.acquiring.calm hCalm, h.provides, h.announced⟩

variable [DecidableEq A]

/-- A handler of one client has returned. -/
theorem Unlocked.setClient (h : Unlocked capacity route used net) {used' : List (A × Int)}
    {r : ClientState × List Effect} (hAgreed : Agreed ⟨(net.actClient route a r).agents, w⟩)
    (hAcquiring : Acquiring capacity route used' w
      (fun x => if x = a then r.1 else clientsOf net x))
    (hAnnounced : Announced used' a r.1 ((net.agents a).told ++ toldBy r.2))
    (hUsed : ∀ x ∈ used, x ∈ used') :
    Unlocked capacity route used' ⟨(net.actClient route a r).agents, w⟩ where
  agreed := hAgreed
  acquiring := by
    show Acquiring capacity route used' w (clientsOf (net.actClient route a r))
    rw [clientsOf_actClient]
    exact hAcquiring
  provides b := by
    by_cases hSame : b = a
    · simpa [Net.actClient, hSame] using h.provides a
    · simpa [Net.actClient, hSame] using h.provides b
  announced x := by
    by_cases hSame : x = a
    · subst hSame
      simpa [Net.actClient] using hAnnounced
    · intro j hTold
      simp only [Net.actClient, hSame, if_false] at hTold ⊢
      obtain ⟨hIn, hDone⟩ := h.announced x j hTold
      exact ⟨hUsed _ hIn, hDone⟩

/-- A handler of one server has returned. -/
theorem Unlocked.setServer (h : Unlocked capacity route used net) {r : ServerState × List Effect}
    (hAgreed : Agreed ⟨(net.actServer route b r).agents, w⟩) (hCalm : Calm net.wires w)
    (hProvides : Provides (capacity b) r.1) :
    Unlocked capacity route used ⟨(net.actServer route b r).agents, w⟩ where
  agreed := hAgreed
  acquiring := by
    show Acquiring capacity route used w (clientsOf (net.actServer route b r))
    rw [clientsOf_actServer]
    exact h.acquiring.calm hCalm
  provides x := by
    by_cases hSame : x = b
    · subst hSame
      simpa [Net.actServer] using hProvides
    · simpa [Net.actServer, hSame] using h.provides x
  announced x := by
    by_cases hSame : x = b
    · subst hSame
      simpa [Net.actServer] using h.announced x
    · simpa [Net.actServer, hSame] using h.announced x

theorem Unlocked.accept (h : Unlocked capacity route used net) {fd : Nat} {addr : Addr}
    (hEnabled : Enabled net (.accept i fd addr))
    (hAgreed : Agreed (netStep route net (.accept i fd addr))) :
    Unlocked capacity route used (netStep route net (.accept i fd addr)) := by
  obtain ⟨c, hConn, -, hFree, -⟩ := hEnabled
  exact h.setWires hAgreed (calm_accept hConn hFree)

theorem Unlocked.fail (h : Unlocked capacity route used net) {keepServer keepClient : Nat}
    (hUndisturbed : Undisturbed net (.fail i keepServer keepClient))
    (hAgreed : Agreed (netStep route net (.fail i keepServer keepClient))) :
    Unlocked capacity route used (netStep route net (.fail i keepServer keepClient)) := by
  refine h.setWires hAgreed (calm_modify fun c hConn => ⟨⟨rfl, rfl, rfl, rfl, rfl, id⟩, ?_⟩)
  intro hOpen
  exact absurd ⟨_, rfl, hOpen⟩ (hUndisturbed c hConn)

/-- The sweep finds nothing to do. -/
theorem Unlocked.sweep (h : Unlocked capacity route used net) {now : Int}
    (hUndisturbed : Undisturbed net (.sweep a now)) :
    Unlocked capacity route used (netStep route net (.sweep a now)) := by
  have hNone : (net.agents a).client.jobs.filter (expired now) = [] := by
    rw [List.filter_eq_nil_iff]
    intro job hJob
    simp [hUndisturbed job hJob]
  have hIdle : netStep route net (.sweep a now) = net := by
    simp only [netStep, clientStep, checkOurjobTimeouts, hNone, List.map_nil, List.take_nil,
      timeOut]
    exact actClient_idle rfl
  rw [hIdle]
  exact h

/-- `send_request`. -/
theorem Unlocked.writable (h : Unlocked capacity route used net)
    (hEnabled : Enabled net (.writable i)) (hAgreed : Agreed (netStep route net (.writable i))) :
    Unlocked capacity route used (netStep route net (.writable i)) := by
  obtain ⟨c, hConn, -, fd, hFd, hFile⟩ := hEnabled
  cases hFd
  rw [Option.mem_def] at hConn
  simp only [netStep, hConn] at hAgreed ⊢
  refine h.setClient hAgreed ?_ ?_ fun _ => id
  · have hIdle : Calm net.wires (net.wires.modify i fun c => { c with armed := false }) :=
      calm_modify fun c _ => ⟨⟨rfl, rfl, rfl, rfl, rfl, id⟩, fun _ => rfl⟩
    have hFile : (net.wires.modify i fun c => { c with armed := false }).files c.client c.clientFd =
        some (i, .client) := hFile
    simp only [clientStep, sendRequest]
    split
    · exact (h.acquiring.calm hIdle).sameClient
    · split
      · exact (h.acquiring.calm hIdle).sameClient
      · show Acquiring _ _ _ (Wires.performAll route c.client _ [.send _ _, .epollMod _]) _
        rw [performAll_send hFile]
        exact ((h.acquiring.calm hIdle).calm (calm_of_steady (.modify (push_same _ _)))).sameClient
  · have hTidy := h.agreed.tidy c.client
    simpa [causeOf, Cause.requested] using (h.announced c.client).step
      (e := .sendRequest c.clientFd)
      hTidy (fun job hJob => (h.acquiring.jobs c.client job hJob).used)
      (by simp [causeOf, Cause.requested])
      (by simp)

/-- GRANTED. -/
theorem Unlocked.lineClient (h : Unlocked capacity route used net) {now : Int} {dial : Dial}
    {names : Int → Option Addr} (hEnabled : Enabled net (.line i .client now dial names))
    (hKeeps : keeps dial = true)
    (hAgreed : Agreed (netStep route net (.line i .client now dial names))) :
    Unlocked capacity route used (netStep route net (.line i .client now dial names)) := by
  obtain ⟨c, hConn, ⟨fd, hFd, hFile⟩, hInbox, hFree, -⟩ := hEnabled
  rw [Option.mem_def] at hConn
  cases hFd
  obtain ⟨text, rest, hLine⟩ : ∃ text rest, c.toClient = text :: rest :=
    List.exists_cons_of_ne_nil hInbox
  obtain ⟨rfl, hParse, hServed, -⟩ := Flow.granted (h.agreed.coherent.flow hConn) hFile hLine
  rw [netStep_granted hConn hLine hParse] at hAgreed ⊢
  have hTidy := h.agreed.tidy c.client
  refine h.setClient hAgreed ?_ ?_ fun _ => id
  · have hRead : Acquiring capacity route used
        (net.wires.modify i (Conn.read .client (net.agents c.client).server)) (clientsOf net) :=
      h.acquiring.calm (calm_of_steady (.modify (read_same .client _)))
    simp only [clientToMyserver]
    cases hOwner : (net.agents c.client).client.owner c.clientFd with
    | none => exact hRead.sameClient
    | some job =>
        obtain ⟨hEntry, hJob⟩ := (ClientState.owner_eq_some hTidy.addrKeys).mp hOwner
        simp only
        split
        · refine hRead.advanceJob hTidy ?_ now hJob hEntry hFile (conns_modify_self hConn) hServed
            hFree (ne_epollFails hKeeps)
          exact fun e he => (h.agreed.coherent.asks c.client).open_of_uses (.inl ⟨e, he, rfl⟩)
        · exact hRead.sameClient
  · have hStep := (h.announced c.client).step (e := .line c.clientFd text now dial) hTidy
      (fun job hJob => (h.acquiring.jobs c.client job hJob).used)
      (by simp [causeOf, Cause.requested])
      (by simp)
    simpa [causeOf, Cause.requested, clientStep, hParse] using hStep

/-- RESERVE and RELEASE. -/
theorem Unlocked.lineServer (h : Unlocked capacity route used net) {now : Int} {dial : Dial}
    {names : Int → Option Addr} (hEnabled : Enabled net (.line i .server now dial names))
    (hAgreed : Agreed (netStep route net (.line i .server now dial names))) :
    Unlocked capacity route used (netStep route net (.line i .server now dial names)) := by
  obtain ⟨c, hConn, ⟨fd, hFd, hFile⟩, hInbox, -, hNamed⟩ := hEnabled
  rw [Option.mem_def] at hConn
  have hNamed : net.wires.Named c.server names := hNamed
  have hFile : net.wires.files c.server fd = some (i, .server) := hFile
  obtain ⟨-, addr, hEnd⟩ := h.agreed.coherent.wired.at_server hFile hConn
  obtain ⟨text, rest, hLine⟩ : ∃ text rest, c.toServer = text :: rest :=
    List.exists_cons_of_ne_nil hInbox
  have hFlow := h.agreed.coherent.flow hConn
  have hRead : Steady net.wires (readLine net i .server c.server).wires :=
    Steady.modify (read_same .server _)
  rcases hFlow.toServer with hNil | ⟨hReserve, -, -⟩ | ⟨⟨line, hSame, hParse⟩, -⟩
  · rw [hNil] at hLine
    cases hLine
  · have hParse : parseRemote text = .reserve c.jobId c.req.type c.req.amount := by
      rw [hReserve, List.cons.injEq] at hLine
      rw [← hLine.1]
      exact parseRemote_reserveLine hFlow.job hFlow.req.2 hFlow.req.1
    rw [netStep_reserve hConn hEnd hLine hParse] at hAgreed ⊢
    obtain ⟨⟨grants, hDrain⟩, -⟩ := enqueueJobs_drained (asPeers names)
      (net.agents c.server).server c.req.type c.jobId c.req.amount fd
    refine h.setServer hAgreed ?_ ((h.provides c.server).enqueue ?_)
    · rw [hDrain.out]
      exact calm_of_steady (hRead.trans (steady_grants grants))
    · obtain ⟨-, -, -, -, -, hServed⟩ := hFlow.reserve hLine hParse
      have hOpen := h.acquiring.conns.waiting hConn hServed
      have hWhole := h.acquiring.conns.whole hConn hOpen
      intro r rq hQueued
      simp only [enqueueOnly, setQueue_queue] at hQueued
      split at hQueued
      · simp only [enqueueRequest, List.mem_append, List.mem_singleton] at hQueued
        rcases hQueued with hOld | rfl
        · exact h.namesQueued hNamed _ rq hOld
        · exact named_of_whole h.agreed.coherent.wired hNamed hFile hConn hWhole
      · exact h.namesQueued hNamed r rq hQueued
  · have hText : text = line := by
      rw [hSame, List.cons.injEq] at hLine
      exact hLine.1.symm
    subst hText
    rw [netStep_release hConn hEnd hLine hParse] at hAgreed ⊢
    exact h.setServer hAgreed (calm_of_steady (hRead.trans (steady_releaseClient _ fd names)))
      ((h.provides c.server).release (h.namesQueued hNamed) fd)

theorem Unlocked.disconnectServer (h : Unlocked capacity route used net)
    {names : Int → Option Addr} (hEnabled : Enabled net (.disconnect i .server names))
    (hAgreed : Agreed (netStep route net (.disconnect i .server names))) :
    Unlocked capacity route used (netStep route net (.disconnect i .server names)) := by
  obtain ⟨c, hConn, ⟨fd, hFd, hFile⟩, -, -, hNamed⟩ := hEnabled
  rw [Option.mem_def] at hConn
  have hFile : net.wires.files c.server fd = some (i, .server) := hFile
  obtain ⟨-, addr, hEnd⟩ := h.agreed.coherent.wired.at_server hFile hConn
  rw [netStep_disconnect_server hConn hEnd (h.agreed.owner_server hFile)] at hAgreed ⊢
  have hSteady : Steady net.wires (net.wires.performAll route c.server
      (releaseClientByFd (asPeers names) (net.agents c.server).server fd).2) :=
    steady_releaseClient _ _ _
  refine h.setServer hAgreed ((calm_of_steady hSteady).trans (calm_close ?_))
    ((h.provides c.server).release (h.namesQueued hNamed) fd)
  intro j hOpen
  rw [hSteady.files, hFile] at hOpen
  cases hOpen

omit [DecidableEq A] in
/-- A job announced as granted has got everything. -/
theorem Unlocked.done (h : Unlocked capacity route used net) {job : LocalJob}
    (hJob : job ∈ (net.agents a).client.jobs)
    (hTold : ToldGranted (net.agents a).told job.jobId) : job.nextReq = [] := by
  have hPhase := (h.announced a job.jobId hTold).2
  rw [phase_of_mem hJob] at hPhase
  simpa using hPhase

/-- The destinations of a JOB_REQUEST are in the acquisition order. -/
theorem ascending_wanted (nodes : Table nodeCallbacks) (picks : Picks) :
    ((wanted picks).map fun type => pendingOf nodes type (picks type)).Pairwise
      fun req req' => rankOf req < rankOf req' := by
  have hRank : ∀ type, rankOf (pendingOf nodes type (picks type)) = type.rank := by
    intro type
    rw [rankOf, pendingOf, Resource.ofName_name]
  rw [List.pairwise_map]
  simp only [hRank]
  exact List.Pairwise.filter _ (by decide)

/-- JOB_REQUEST. -/
theorem Unlocked.request (h : Unlocked capacity route used net) {jobId timer : Int} {picks : Picks}
    {nodes : Table nodeCallbacks} {dial : Dial} (hInt : IsInt jobId)
    (hFits : ∀ type ∈ wanted picks, (picks type).quantity ≤ capacity
      (route (pendingOf nodes type (picks type)).destIp
        (pendingOf nodes type (picks type)).destPort) type)
    (hFresh : (a, jobId) ∉ used) (hFree : net.wires.Free a dial) (hKeeps : keeps dial = true) :
    Acquiring capacity route (used ++ [(a, jobId)])
      (net.wires.performAll route a (clientStep (net.agents a).client
        (.erlang (jobRequestFormat jobId picks) timer nodes dial)).2)
      (fun x => if x = a then (clientStep (net.agents a).client
        (.erlang (jobRequestFormat jobId picks) timer nodes dial)).1 else clientsOf net x) := by
  simp only [clientStep, parseErlang_jobRequestFormat hInt]
  have hNext := parseDestinations_format nodes picks
  cases hTokens : (wanted picks).map fun type => resourceToString type (picks type) with
  | nil =>
      simp only [erlangToC, performAll_cToErlang]
      have hMono : Acquiring capacity route (used ++ [(a, jobId)]) net.wires (clientsOf net) :=
        h.acquiring.mono fun x hx => List.mem_append_left _ hx
      exact hMono.sameClient
  | cons token tokens =>
      rw [hTokens] at hNext
      have hAtoi := atoi_itoa hInt
      have hCreate := h.acquiring.createJob (h.agreed.tidy a)
        (fun e he => (h.agreed.coherent.asks a).open_of_uses (.inl ⟨e, he, rfl⟩))
        (makeJob (net.agents a).client jobId
          ((wanted picks).map fun type => pendingOf nodes type (picks type)) timer)
        hInt hFresh rfl (ascending_wanted nodes picks) ?_ hFree (ne_epollFails hKeeps)
      · simp only [erlangToC, hNext, hAtoi]
        exact hCreate
      · intro req hReq
        obtain ⟨type, hType, rfl⟩ := List.mem_map.mp hReq
        have hAmount := hFits type hType
        rw [show Resource.ofName (pendingOf nodes type (picks type)).type = type from
          Resource.ofName_name type]
        exact hAmount

omit [DecidableEq A] in
theorem requested_eq_none {instruction : Text} {timer : Int} {nodes : Table nodeCallbacks}
    {dial : Dial} (h : ∀ token tokens, parseErlang instruction ≠ .jobRequest token tokens) :
    requested (.erlang a instruction timer nodes dial) = none := by
  cases hParse : parseErlang instruction with
  | jobRequest token tokens => exact absurd hParse (h token tokens)
  | _ => simp [requested, causeOf, hParse, Cause.requested]

/-- The other lines of the scheduler. -/
theorem Unlocked.command (h : Unlocked capacity route used net) {instruction : Text} {timer : Int}
    {nodes : Table nodeCallbacks} {dial : Dial}
    (hUndisturbed : Undisturbed net (.erlang a instruction timer nodes dial))
    (hOther : ∀ token tokens, parseErlang instruction ≠ .jobRequest token tokens) :
    Acquiring capacity route used
      (net.wires.performAll route a (clientStep (net.agents a).client
        (.erlang instruction timer nodes dial)).2)
      (fun x => if x = a then (clientStep (net.agents a).client
        (.erlang instruction timer nodes dial)).1 else clientsOf net x) := by
  simp only [clientStep]
  cases hParse : parseErlang instruction with
  | jobRequest token tokens => exact absurd hParse (hOther token tokens)
  | jobRelease jobId =>
      simp only [erlangToC]
      cases hFind : (net.agents a).client.findJob (atoi jobId) with
      | none => exact h.acquiring.sameClient
      | some job =>
          obtain ⟨hJob, hId⟩ := ClientState.findJob_eq_some.mp hFind
          have hTold := hUndisturbed.2 job.jobId (by simp [releasing, causeOf, hParse, hId])
          exact h.acquiring.releaseJob (h.agreed.tidy a) (h.agreed.coherent.asks a) hJob
            (h.done hJob hTold)
  | jobStatus jobId =>
      simp only [erlangToC]
      split
      · rw [performAll_cToErlang]
        exact h.acquiring.sameClient
      · split
        · rw [performAll_cToErlang]
          exact h.acquiring.sameClient
        · rw [performAll_cToErlang]
          exact h.acquiring.sameClient
  | getNodes => exact h.acquiring.sameClient
  | ignored => exact h.acquiring.sameClient

/-- `erlang_to_C`. -/
theorem Unlocked.erlang (h : Unlocked capacity route used net) {instruction : Text} {timer : Int}
    {nodes : Table nodeCallbacks} {dial : Dial}
    (hEnabled : Enabled net (.erlang a instruction timer nodes dial))
    (hUndisturbed : Undisturbed net (.erlang a instruction timer nodes dial))
    (hScheduler : FromScheduler capacity route (.erlang a instruction timer nodes dial))
    (hFresh : ∀ x ∈ requested (.erlang a instruction timer nodes dial), x ∉ used)
    (hAgreed : Agreed (netStep route net (.erlang a instruction timer nodes dial))) :
    Unlocked capacity route (used ++ (requested (.erlang a instruction timer nodes dial)).toList)
      (netStep route net (.erlang a instruction timer nodes dial)) := by
  refine h.setClient hAgreed ?_ ?_ fun x hx => List.mem_append_left _ hx
  · by_cases hRequest : ∃ token tokens, parseErlang instruction = .jobRequest token tokens
    · obtain ⟨token, tokens, hParse⟩ := hRequest
      obtain ⟨jobId, picks, hInt, rfl, hFits⟩ := hScheduler token tokens hParse
      have hRequested : requested (.erlang a (jobRequestFormat jobId picks) timer nodes dial) =
          some (a, jobId) := by
        simp [requested, causeOf, parseErlang_jobRequestFormat hInt, Cause.requested,
          atoi_itoa hInt]
      rw [hRequested] at hFresh ⊢
      exact h.request hInt hFits (hFresh _ rfl) hEnabled hUndisturbed.1
    · have hOther : ∀ token tokens, parseErlang instruction ≠ .jobRequest token tokens :=
        fun token tokens hParse => hRequest ⟨token, tokens, hParse⟩
      rw [requested_eq_none hOther, Option.toList_none, List.append_nil]
      exact h.command hUndisturbed hOther
  · refine (h.announced a).step (h.agreed.tidy a)
      (fun job hJob => (h.acquiring.jobs a job hJob).used) ?_ (by simp)
    intro j hRequested
    refine hFresh _ ?_
    rw [Option.mem_def, requested, hRequested, Option.map_some]

/-- **One step.**  Whatever handler runs, jobs go on acquiring in order. -/
theorem Unlocked.step (h : Unlocked capacity route used net) {e : NetEvent A}
    (hEnabled : Enabled net e) (hUndisturbed : Undisturbed net e)
    (hScheduler : FromScheduler capacity route e) (hFresh : ∀ x ∈ requested e, x ∉ used) :
    Unlocked capacity route (used ++ (requested e).toList) (netStep route net e) := by
  have hAgreed : Agreed (netStep route net e) :=
    h.agreed.step hEnabled (h.orderly hEnabled hUndisturbed hFresh)
  cases e with
  | erlang a instruction timer nodes dial =>
      exact h.erlang hEnabled hUndisturbed hScheduler hFresh hAgreed
  | sweep a now => simpa [requested] using h.sweep hUndisturbed
  | accept i fd addr => simpa [requested] using h.accept hEnabled hAgreed
  | writable i => simpa [requested] using h.writable hEnabled hAgreed
  | line i side now dial names =>
      cases side with
      | client => simpa [requested] using h.lineClient hEnabled hUndisturbed hAgreed
      | server => simpa [requested] using h.lineServer hEnabled hAgreed
  | disconnect i side names =>
      cases side with
      | client => exact absurd hEnabled h.not_disconnect_client
      | server => simpa [requested] using h.disconnectServer hEnabled hAgreed
  | fail i keepServer keepClient => simpa [requested] using h.fail hUndisturbed hAgreed

/-- The invariant holds after every undisturbed run in which no job id is
requested twice at one agent. -/
theorem unlocked_run {es : List (NetEvent A)}
    (hMeets : Meets (netStep route) (fun net e => Enabled net e ∧ Undisturbed net e)
      (Net.init capacity) es)
    (hScheduler : ∀ e ∈ es, FromScheduler capacity route e)
    (hUnique : (es.filterMap requested).Nodup) :
    Unlocked capacity route (es.filterMap requested)
      (run (netStep route) (Net.init capacity) es) := by
  refine run_invariant_history
    (fun past net => (past.filterMap requested).Nodup →
      Unlocked capacity route (past.filterMap requested) net)
    ?_ (fun _ => unlocked_init capacity route) (hMeets.and (meets_of_forall hScheduler)) hUnique
  intro past net e hPast hOk hNodup
  have hLast : [e].filterMap requested = (requested e).toList := by
    cases hSome : requested e <;> simp [hSome]
  rw [List.filterMap_append, hLast] at hNodup ⊢
  rw [List.nodup_append] at hNodup
  refine (hPast hNodup.1).step hOk.1.1 hOk.1.2 hOk.2 ?_
  intro x hx hUsed
  exact hNodup.2.2 x hUsed x (by simpa using hx) rfl

end

/-! ## Who waits for whom -/

section

variable {A : Type} (net : Net A)

/-- Agent `a` is at the other end of the connection that agent `b` has accepted
as `fd`. -/
def Peer (b : A) (fd : Int) (a : A) : Prop :=
  ∃ i c, net.wires.files b fd = some (i, .server) ∧ net.wires.conns[i]? = some c ∧ c.client = a

/-- Job `x.2` of agent `x.1` waits in a queue of agent `b`, with request `rq`. -/
def Waits (x : A × Int) (b : A) (r : Resource) (rq : Request) : Prop :=
  rq ∈ ((net.agents b).server.queue r).requests ∧ Peer net b rq.originSocket x.1 ∧ rq.jobId = x.2

/-- Job `x.2` of agent `x.1` holds units of a pool of agent `b`. -/
def Holds (x : A × Int) (b : A) (r : Resource) : Prop :=
  ∃ e ∈ (net.agents b).server.tableNodejobs.toList,
    0 < e.granted r ∧ Peer net b e.originalSocket x.1 ∧ e.id = x.2

/-- A request of job `x.2` of agent `x.1` stands before `rq` in a queue. -/
def Ahead (x : A × Int) (b : A) (r : Resource) (rq : Request) : Prop :=
  ∃ front back, ((net.agents b).server.queue r).requests = front ++ rq :: back ∧
    ∃ rq' ∈ front, Waits net x b r rq'

/-- Every job of the set waits in a queue, and all who hold units of that pool or
stand before it in that queue are in the set. -/
def Stuck (D : Set (A × Int)) : Prop :=
  D.Nonempty ∧ ∀ x ∈ D, ∃ b r rq, Waits net x b r rq ∧
    (∀ y, Holds net y b r → y ∈ D) ∧ ∀ y, Ahead net y b r rq → y ∈ D

end

section

variable {A : Type} {capacity : A → Resource → Int} {route : Text → Int → A}
  {used : List (A × Int)} {net : Net A} {x : A × Int} {b : A} {r : Resource}

/-- A waiting job has an unanswered connection for what it waits for. -/
theorem Unlocked.conn_of_waits (h : Unlocked capacity route used net) {rq : Request}
    (hWaits : Waits net x b r rq) :
    ∃ (i : Nat) (c : Conn A), net.wires.conns[i]? = some c ∧ c.client = x.1 ∧ c.jobId = x.2 ∧
      c.served = none ∧ Resource.ofName c.req.type = r := by
  obtain ⟨hQueued, ⟨j, d, hFile', hConn', hClient⟩, hId⟩ := hWaits
  obtain ⟨i, c, hFile, hConn, hReceived, hServed, -⟩ := h.queued hQueued
  rw [hFile] at hFile'
  cases hFile'
  rw [hConn] at hConn'
  cases hConn'
  obtain ⟨hType, hJob, -⟩ := (h.agreed.coherent.flow hConn).received hReceived
  exact ⟨j, d, hConn, hClient, hJob.symm.trans hId, hServed, hType.symm⟩

/-- A holding job has an answered connection for what it holds. -/
theorem Unlocked.conn_of_holds (h : Unlocked capacity route used net) (hHolds : Holds net x b r) :
    ∃ (i : Nat) (c : Conn A), net.wires.conns[i]? = some c ∧ c.client = x.1 ∧ c.jobId = x.2 ∧
      c.served.isSome = true ∧ Resource.ofName c.req.type = r := by
  obtain ⟨e, he, hPos, ⟨j, d, hFile', hConn', hClient⟩, hId⟩ := hHolds
  obtain ⟨i, c, hFile, hConn, hServed, hMatch⟩ := (h.agreed.coherent.serves b).table e he
  rw [hFile] at hFile'
  cases hFile'
  rw [hConn] at hConn'
  cases hConn'
  rcases hMatch with ⟨r', rq, addr, hSome, -, hJob, -, -, hAmounts⟩ | hZero
  · obtain ⟨hType, hSame, -⟩ :=
      (h.agreed.coherent.flow hConn).received ((h.agreed.coherent.flow hConn).served hSome)
    have hResource : r = r' := by
      by_contra hOther
      rw [hAmounts r, if_neg hOther] at hPos
      exact lt_irrefl _ hPos
    refine ⟨j, d, hConn, hClient, ?_, hServed, ?_⟩
    · rw [← hSame, ← hJob, hId]
    · rw [hResource, hType]
  · exact absurd (congrArg Prod.snd hZero) ((h.provides b).named e he)

/-- A pool in whose queue somebody waits is held by somebody. -/
theorem Unlocked.exists_holds (h : Unlocked capacity route used net) {rq : Request}
    (hWaits : Waits net x b r rq) : ∃ y, Holds net y b r := by
  obtain ⟨e, he, hPos⟩ := (h.provides b).held hWaits.1 fun rq hQueued => by
    obtain ⟨i, c, hFile, hConn, hReceived, -⟩ := h.queued hQueued
    obtain ⟨hType, -, hAmount, -⟩ := (h.agreed.coherent.flow hConn).received hReceived
    rw [hAmount, hType, ← (h.agreed.coherent.wired.at_server hFile hConn).1]
    exact h.acquiring.conns.fits hConn
  obtain ⟨i, c, hFile, hConn, -⟩ := (h.agreed.coherent.serves b).table e he
  exact ⟨(c.client, e.id), e, he, hPos, ⟨i, c, hFile, hConn, rfl⟩, rfl⟩

/-- What a job holds ranks below what it waits for. -/
theorem Unlocked.rank_lt (h : Unlocked capacity route used net) {b' : A} {r' : Resource}
    {rq : Request} (hHolds : Holds net x b r) (hWaits : Waits net x b' r' rq) :
    r.rank < r'.rank := by
  obtain ⟨i, c, hConn, hClient, hId, hServed, rfl⟩ := h.conn_of_holds hHolds
  obtain ⟨j, d, hConn', hClient', hId', hUnserved, rfl⟩ := h.conn_of_waits hWaits
  rcases Nat.lt_trichotomy i j with hLt | rfl | hGt
  · exact (h.acquiring.conns.ascending hLt hConn hConn' (hClient.trans hClient'.symm)
      (hId.trans hId'.symm)).2
  · rw [hConn] at hConn'
    cases hConn'
    rw [hUnserved] at hServed
    cases hServed
  · -- the later connection would have been opened before the earlier was answered
    have hAnswered := (h.acquiring.conns.ascending hGt hConn' hConn (hClient'.trans hClient.symm)
      (hId'.trans hId.symm)).1
    rw [hUnserved] at hAnswered
    cases hAnswered

theorem Unlocked.not_stuck (h : Unlocked capacity route used net) (D : Set (A × Int)) :
    ¬ Stuck net D := by
  rintro ⟨hNonempty, hAll⟩
  have hDeadlocked : Deadlocked (fun x (p : A × Resource) => ∃ rq, Waits net x p.1 p.2 rq)
      (fun x p => Holds net x p.1 p.2) D := by
    intro x hx
    obtain ⟨b, r, rq, hWaits, hHolders, -⟩ := hAll x hx
    exact ⟨(b, r), ⟨rq, hWaits⟩, hHolders⟩
  have hEmpty := hDeadlocked.eq_empty (fun p => p.2.rank) 3 ?_ ?_ ?_
  · rw [hEmpty] at hNonempty
    exact Set.not_nonempty_empty hNonempty
  · rintro x p ⟨rq, hWaits⟩
    exact h.exists_holds hWaits
  · rintro x p q hHolds ⟨rq, hWaits⟩
    exact h.rank_lt hHolds hWaits
  · rintro ⟨b, r⟩
    cases r <;> simp [Resource.rank]

end

/-- **Ordered acquisition excludes deadlock.**  Any number of agents serve any
number of jobs, whose JOB_REQUEST lines come from `job_request_format` with each
amount at most the capacity of its node.  In every state of an undisturbed run in
which job ids are unique per agent, no set of jobs waits for itself. -/
theorem no_deadlock {A : Type} [DecidableEq A] (capacity : A → Resource → Int)
    (route : Text → Int → A) {es : List (NetEvent A)}
    (hMeets : Meets (netStep route) (fun net e => Enabled net e ∧ Undisturbed net e)
      (Net.init capacity) es)
    (hScheduler : ∀ e ∈ es, FromScheduler capacity route e)
    (hUnique : (es.filterMap requested).Nodup) (D : Set (A × Int)) :
    ¬ Stuck (run (netStep route) (Net.init capacity) es) D :=
  (unlocked_run hMeets hScheduler hUnique).not_stuck D

/-- All cpus and all memory of agent 0, and no gpu. -/
def allFour (type : Resource) : Pick where
  ip := "10.0.0.1".toList
  quantity := if type = .gpu then 0 else 4
  isIp := isIp_ten
  small := by cases type <;> decide

/-- The requester's scheduler asks for all that agent 0 has. -/
def requestAll (jobId : Int) (fd : Nat) : NetEvent (Fin 2) :=
  .erlang requester (jobRequestFormat jobId allFour) 0 (tablahashCreate _) (.connected fd)

/-- Job 1001 has got the cpus and is about to ask for the memory; job 1002 waits
for the cpus. -/
def contendedRun : List (NetEvent (Fin 2)) :=
  requestAll 1001 5 :: reserveOn 0 10 ++ .line 0 .client 0 (.connected 6) peerOf ::
    requestAll 1002 7 :: reserveOn 2 12

theorem no_deadlock_contendedRun :
    (((run (netStep toZero) (Net.init fours) contendedRun).agents 0).server.queue
        .cpu).requests.map Request.jobId = [1002] ∧
      ∀ D, ¬ Stuck (run (netStep toZero) (Net.init fours) contendedRun) D := by
  have hQueue : (((run (netStep toZero) (Net.init fours) contendedRun).agents 0).server.queue
      .cpu).requests.map Request.jobId = [1002] := by
    decide +kernel
  have hMeets : Meets (netStep toZero) (fun net e => Enabled net e ∧ Undisturbed net e)
      (Net.init fours) contendedRun := by
    decide +kernel
  have hUnique : (contendedRun.filterMap requested).Nodup := by
    decide +kernel
  have hRequest : ∀ {jobId : Int} (fd : Nat), IsInt jobId →
      FromScheduler fours toZero (requestAll jobId fd) := by
    intro jobId fd hInt token tokens _
    exact ⟨jobId, allFour, hInt, rfl, by decide⟩
  have hScheduler : ∀ e ∈ contendedRun, FromScheduler fours toZero e := by
    intro e he
    simp only [contendedRun, reserveOn, List.cons_append, List.nil_append, List.mem_cons,
      List.not_mem_nil, or_false] at he
    rcases he with rfl | rfl | rfl | rfl | rfl | rfl | rfl | rfl | rfl
    · exact hRequest 5 (by decide)
    · trivial
    · trivial
    · trivial
    · trivial
    · exact hRequest 7 (by decide)
    · trivial
    · trivial
    · trivial
  exact ⟨hQueue, no_deadlock fours toZero hMeets hScheduler hUnique⟩

end ResourceAgent.Ports.Deadlock
