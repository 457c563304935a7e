import Mathlib.Logic.Function.Basic
import ResourceAgent.Ports.Reservation
import ResourceAgent.Verified.Runs

/-!
# Concurrent workers on the server side

`Reservation.lean` runs a handler from start to end.  The agent has several
worker threads, and what is atomic there is only a mutex-protected section:
`enqueue_request`, the locked loop of `drain_queue`, one `tablahash_find` or
`tablahash_insert`, the bucket scan of `release_client_by_fd`, and each of its
three credits.  Here a worker is a program counter between two such sections,
and a step runs the next section of one worker; any number of workers may be
inside a handler at once.

A ghost log records what the sections do.  The address of a request node tells
its log entries from those of every other request.

* `handler_alone` — a handler that no other worker interrupts does what
  `Reservation.lean` says it does.
* `no_lost_wakeup` — when no worker is inside a handler, every queue is blocked.
  `Owes` says which worker still has to drain which queue.
-/

namespace ResourceAgent.Ports.Workers

open ResourceAgent.Ports.HashTable
open ResourceAgent.Ports.Records
open ResourceAgent.Ports.Wire
open ResourceAgent.Ports.Reservation
open ResourceAgent.Verified.CText
open ResourceAgent.Verified.Runs

/-! ## The model -/

/-- Where a worker is: the section it runs next, with its local variables. -/
inductive Worker where
  | idle
  /-- in `enqueue_jobs`, before the `enqueue_request` section -/
  | enqueue (r : Resource) (req : Request)
  /-- in `release_client_by_fd`, before the bucket scan -/
  | scan (fd : Int)
  /-- before the credit of `r`; `add` holds `add_cpu`, `add_mem`, `add_gpu` -/
  | credit (r : Resource) (add : Resource → Int)
  /-- before the locked loop of `drain_queue` on `r` -/
  | drain (r : Resource)
  /-- outside the lock, with this stash left to serve -/
  | serve (r : Resource) (ready : List Request)
  /-- in `record_granted` after the find, before the insert of `rj` -/
  | insert (r : Resource) (req : Request) (rj : ReceivedJob) (ready : List Request)
  /-- recorded, before the `send` -/
  | answer (r : Resource) (req : Request) (ready : List Request)

instance decidableIdle : (pc : Worker) → Decidable (pc = .idle)
  | .idle => isTrue rfl
  | .enqueue .. | .scan .. | .credit .. | .drain .. | .serve .. | .insert .. | .answer .. =>
      isFalse nofun

/-- What the sections did. -/
inductive Logged where
  | enqueued (r : Resource) (req : Request)
  | dequeued (r : Resource) (req : Request)
  /-- `record_granted(job_id, origin_socket, type, amount)` for the node `addr`, which
  inserts `rj` -/
  | recorded (addr : Nat) (jobId originSocket : Int) (r : Resource) (amount : Int)
      (rj : ReceivedJob)
  /-- `send(socket, line)` for the node `addr` -/
  | sent (addr : Nat) (socket : Int) (line : Text)
  /-- the bucket scan for `fd`, which unlinked something -/
  | unlinked (fd : Int)
  | credited (r : Resource) (amount : Int)
  deriving DecidableEq

/-- The shared server state, the workers, and the log. -/
structure Pool (W : Type) where
  server : ServerState
  worker : W → Worker
  log : List Logged

/-- A handler a worker may enter. -/
inductive Call where
  | enqueueJobs (resource : Text) (jobId amount fd : Int)
  | releaseClientByFd (fd : Int)

/-- One step: an idle worker enters a handler, or a worker runs its next
section, `getpeername` answering `peer` if the section calls it. -/
inductive Act (W : Type) where
  | call (w : W) (c : Call)
  | go (w : W) (peer : Option Addr)

/-- The drain that follows the one of `r` in `reserve_elements`. -/
def afterDrain : Resource → Worker
  | .cpu => .drain .mem
  | .mem => .drain .gpu
  | .gpu => .idle

/-- The credit that follows the one of `r`, or the first drain. -/
def afterCredit (add : Resource → Int) : Resource → Worker
  | .cpu => .credit .mem add
  | .mem => .credit .gpu add
  | .gpu => .drain .cpu

/-- Entering a handler; `enqueue_jobs` allocates its request first. -/
def enter (s : ServerState) : Call → ServerState × Worker
  | .enqueueJobs resource jobId amount fd =>
      ({ s with brk := s.brk + 1 },
        .enqueue (Resource.ofName resource) (makeRequest s jobId fd amount))
  | .releaseClientByFd fd => (s, .scan fd)

/-- The next section of a worker: new shared state, new program counter, and
what is logged. -/
def runSection (peer : Option Addr) (s : ServerState) :
    Worker → ServerState × Worker × List Logged
  | .idle => (s, .idle, [])
  | .enqueue r req =>
      (s.setQueue r (enqueueRequest (s.queue r) req), .drain .cpu, [.enqueued r req])
  | .scan fd =>
      if reservedOn s.tableNodejobs fd = [] then (s, .idle, [])
      else ({ s with tableNodejobs := (creditOnly s fd).tableNodejobs },
        .credit .cpu (totalGranted (reservedOn s.tableNodejobs fd)), [.unlinked fd])
  | .credit r add =>
      (s.setQueue r { s.queue r with resourcesLeft := (s.queue r).resourcesLeft + add r },
        afterCredit add r, [.credited r (add r)])
  | .drain r =>
      let drained := drainLocked (s.queue r).resourcesLeft (s.queue r).requests []
      (s.setQueue r drained.1, .serve r drained.2,
        drained.2.reverse.map fun req => .dequeued r req)
  | .serve r [] => (s, afterDrain r, [])
  | .serve r (req :: ready) =>
      (s, .insert r req (recordOf s.tableNodejobs ⟨r, req, peer⟩) ready, [])
  | .insert r req rj ready =>
      ({ s with tableNodejobs := tablahashInsert s.tableNodejobs rj }, .answer r req ready,
        [.recorded req.addr req.jobId req.originSocket r req.amountRequested rj])
  | .answer r req ready =>
      (s, .serve r ready, [.sent req.addr req.originSocket (grantedLine req.jobId)])

section

variable {W : Type} [DecidableEq W]

/-- A step of the pool.  A worker inside a handler cannot enter another. -/
def poolStep (s : Pool W) : Act W → Pool W
  | .call w c =>
      match s.worker w with
      | .idle =>
          { s with
            server := (enter s.server c).1
            worker := Function.update s.worker w (enter s.server c).2 }
      | _ => s
  | .go w peer =>
      let out := runSection peer s.server (s.worker w)
      { server := out.1
        worker := Function.update s.worker w out.2.1
        log := s.log ++ out.2.2 }

/-- All workers idle, nothing logged. -/
def Pool.init (capacity : Resource → Int) : Pool W where
  server := ServerState.init capacity
  worker := fun _ => .idle
  log := []

/-- No worker is inside a handler. -/
def Quiescent (s : Pool W) : Prop := ∀ w, s.worker w = .idle

instance (s : Pool Bool) : Decidable (Quiescent s) :=
  inferInstanceAs (Decidable (∀ w, s.worker w = .idle))

end

/-! ## A handler that nothing interrupts -/

/-- A handler from start to end. -/
def handleCall (peers : Peers) (s : ServerState) : Call → ServerState × List Effect
  | .enqueueJobs resource jobId amount fd => enqueueJobs peers s resource jobId amount fd
  | .releaseClientByFd fd => releaseClientByFd peers s fd

/-- What log entries say was recorded and sent. -/
def effectsOf (log : List Logged) : List Effect :=
  log.filterMap fun
    | .recorded addr jobId originSocket r amount _ =>
        some (.recorded r ⟨addr, jobId, originSocket, amount⟩)
    | .sent _ socket line => some (.send socket line)
    | _ => none

@[simp] theorem effectsOf_append (log l : List Logged) :
    effectsOf (log ++ l) = effectsOf log ++ effectsOf l := by simp [effectsOf]

/-- Sections that one worker runs on its own, with what they record and send. -/
inductive Alone : ServerState → Worker → ServerState → Worker → List Effect → Prop where
  | done (s : ServerState) (pc : Worker) : Alone s pc s pc []
  | next (peer : Option Addr) {s s' : ServerState} {pc pc' : Worker} {out : List Effect}
      (h : Alone (runSection peer s pc).1 (runSection peer s pc).2.1 s' pc' out) :
      Alone s pc s' pc' (effectsOf (runSection peer s pc).2.2 ++ out)

theorem Alone.of_section {peer : Option Addr} {s s₁ s' : ServerState} {pc pc₁ pc' : Worker}
    {l : List Logged} {out : List Effect} (hSection : runSection peer s pc = (s₁, pc₁, l))
    (h : Alone s₁ pc₁ s' pc' out) : Alone s pc s' pc' (effectsOf l ++ out) := by
  have hNext : Alone (runSection peer s pc).1 (runSection peer s pc).2.1 s' pc' out →
      Alone s pc s' pc' (effectsOf (runSection peer s pc).2.2 ++ out) := .next peer
  rw [hSection] at hNext
  exact hNext h

theorem Alone.trans {s₁ s₂ s₃ : ServerState} {pc₁ pc₂ pc₃ : Worker} {out₁ out₂ : List Effect}
    (h₁ : Alone s₁ pc₁ s₂ pc₂ out₁) (h₂ : Alone s₂ pc₂ s₃ pc₃ out₂) :
    Alone s₁ pc₁ s₃ pc₃ (out₁ ++ out₂) := by
  induction h₁ with
  | done s pc => exact h₂
  | next peer h ih =>
      rw [List.append_assoc]
      exact .next peer (ih h₂)

/-- The loop outside the lock serves the stash. -/
theorem alone_serve (r : Resource) (ready : List Request) :
    ∀ (peer : Nat → Int → Option Addr) (s : ServerState),
      Alone s (.serve r ready)
        { s with tableNodejobs := (serveReady peer r ready s.tableNodejobs).1 } (afterDrain r)
        (serveReady peer r ready s.tableNodejobs).2 := by
  induction ready with
  | nil =>
      intro peer s
      exact .next none (.done s _)
  | cons req ready ih =>
      intro peer s
      refine .next (peer 0 req.originSocket) ?_
      refine .next none ?_
      exact .next none (ih (fun k => peer (k + 1)) _)

/-- `drain_queue`. -/
theorem alone_drain (peers : Peers) (s : ServerState) (r : Resource) :
    Alone s (.drain r) (drainQueue peers s r).1 (afterDrain r) (drainQueue peers s r).2 := by
  have hServe := alone_serve r (drainLocked (s.queue r).resourcesLeft (s.queue r).requests []).2
    (peers r) (runSection none s (.drain r)).1
  have hLog : effectsOf (runSection none s (.drain r)).2.2 = [] := by
    simp [runSection, effectsOf, List.filterMap_map]
  have hStep := Alone.next none hServe
  rw [hLog] at hStep
  exact hStep

/-- `reserve_elements`. -/
theorem alone_reserve (peers : Peers) (s : ServerState) :
    Alone s (.drain .cpu) (reserveElements peers s).1 .idle (reserveElements peers s).2 := by
  have hCpu := alone_drain peers s .cpu
  have hMem := alone_drain peers (drainQueue peers s .cpu).1 .mem
  have hGpu := alone_drain peers (drainQueue peers (drainQueue peers s .cpu).1 .mem).1 .gpu
  exact (hCpu.trans hMem).trans hGpu

/-- The scan and the three credits of `release_client_by_fd`. -/
theorem alone_credit {s : ServerState} {fd : Int} (h : reservedOn s.tableNodejobs fd ≠ []) :
    Alone s (.scan fd) (creditOnly s fd) (.drain .cpu) [] := by
  have hScan : runSection none s (.scan fd) =
      ({ s with tableNodejobs := (creditOnly s fd).tableNodejobs },
        .credit .cpu (totalGranted (reservedOn s.tableNodejobs fd)), [.unlinked fd]) := by
    simp [runSection, h]
  have hSections : Alone { s with tableNodejobs := (creditOnly s fd).tableNodejobs }
      (.credit .cpu (totalGranted (reservedOn s.tableNodejobs fd))) (creditOnly s fd)
      (.drain .cpu) [] := by
    refine .next none (.next none (.next none ?_))
    have hSame : (runSection none (runSection none (runSection none
        { s with tableNodejobs := (creditOnly s fd).tableNodejobs }
        (.credit .cpu (totalGranted (reservedOn s.tableNodejobs fd)))).1
        (.credit .mem (totalGranted (reservedOn s.tableNodejobs fd)))).1
        (.credit .gpu (totalGranted (reservedOn s.tableNodejobs fd)))).1 = creditOnly s fd := by
      simp only [runSection, ServerState.setQueue, creditOnly]
      congr 1
      funext r
      cases r <;> rfl
    rw [← hSame]
    exact .done _ _
  exact hSections.of_section hScan

/-- **Section by section and from start to end** a handler does the same, when no
other worker runs in between. -/
theorem alone_handle (peers : Peers) (s : ServerState) (c : Call) :
    Alone (enter s c).1 (enter s c).2 (handleCall peers s c).1 .idle (handleCall peers s c).2 := by
  cases c with
  | enqueueJobs resource jobId amount fd => exact .next none (alone_reserve peers _)
  | releaseClientByFd fd =>
      simp only [enter, handleCall, releaseClientByFd]
      split
      · rename_i hNone
        have hScan : runSection none s (.scan fd) = (s, .idle, []) := by simp [runSection, hNone]
        exact (Alone.done s .idle).of_section hScan
      · rename_i hSome
        exact (alone_credit hSome).trans (alone_reserve peers _)

section

variable {W : Type} [DecidableEq W]

/-- Sections run by one worker are steps of the pool. -/
theorem Alone.run {s s' : ServerState} {pc pc' : Worker} {out : List Effect}
    (h : Alone s pc s' pc' out) (w : W) :
    ∀ (worker : W → Worker) (log : List Logged), worker w = pc →
      ∃ (peers : List (Option Addr)) (l : List Logged), effectsOf l = out ∧
        run poolStep ⟨s, worker, log⟩ (peers.map (.go w)) =
          ⟨s', Function.update worker w pc', log ++ l⟩ := by
  induction h with
  | done s pc =>
      intro worker log hPc
      exact ⟨[], [], rfl, by simp [← hPc]⟩
  | @next peer s s' pc pc' out _ ih =>
      intro worker log hPc
      obtain ⟨peers, l, hOut, hRun⟩ := ih (Function.update worker w (runSection peer s pc).2.1)
        (log ++ (runSection peer s pc).2.2) (Function.update_self ..)
      refine ⟨peer :: peers, (runSection peer s pc).2.2 ++ l, by rw [effectsOf_append, hOut], ?_⟩
      simp only [List.map_cons, run_cons, poolStep, hPc]
      rw [hRun, Function.update_idem, List.append_assoc]

/-- **A handler in the pool.**  An idle worker that enters a handler and runs
undisturbed is idle again after some sections, and the shared state, the records and
the lines are those of the handler. -/
theorem handler_alone (peers : Peers) (s : Pool W) (w : W) (c : Call)
    (hIdle : s.worker w = .idle) :
    ∃ (sections : List (Option Addr)) (l : List Logged),
      effectsOf l = (handleCall peers s.server c).2 ∧
      run poolStep s (.call w c :: sections.map (.go w)) =
        ⟨(handleCall peers s.server c).1, s.worker, s.log ++ l⟩ := by
  obtain ⟨sections, l, hOut, hRun⟩ := (alone_handle peers s.server c).run w
    (Function.update s.worker w (enter s.server c).2) s.log (Function.update_self ..)
  refine ⟨sections, l, hOut, ?_⟩
  rw [run_cons]
  simp only [poolStep, hIdle]
  rw [hRun, Function.update_idem, Function.update_eq_self_iff.mpr hIdle.symm]

/-! ## No lost wake-up -/

/-- The worker will still run the locked loop of `r` in its current handler,
after whatever it did to the queues. -/
def Owes : Worker → Resource → Prop
  | .credit _ _, _ => True
  | .drain r', r => r'.rank ≤ r.rank
  | .serve r' _, r => r'.rank < r.rank
  | .insert r' _ _ _, r => r'.rank < r.rank
  | .answer r' _ _, r => r'.rank < r.rank
  | _, _ => False

/-- A queue with a grantable head is owed a drain by some worker. -/
def Attended (s : Pool W) : Prop :=
  ∀ r, Blocked (s.server.queue r) ∨ ∃ w, Owes (s.worker w) r

/-- One section: each queue is left blocked, or is owed by the worker that ran
it, or is unchanged with nothing the worker owed forgotten. -/
theorem runSection_attends (peer : Option Addr) (s : ServerState) (pc : Worker) (r : Resource) :
    Blocked ((runSection peer s pc).1.queue r) ∨ Owes (runSection peer s pc).2.1 r ∨
      ((runSection peer s pc).1.queue r = s.queue r ∧ ¬ Owes pc r) := by
  cases pc with
  | idle => exact .inr (.inr ⟨rfl, id⟩)
  | enqueue r' req => exact .inr (.inl (Nat.zero_le _))
  | scan fd =>
      simp only [runSection]
      split
      · exact .inr (.inr ⟨rfl, id⟩)
      · exact .inr (.inl trivial)
  | credit r' add =>
      refine .inr (.inl ?_)
      cases r' with
      | cpu => trivial
      | mem => trivial
      | gpu => exact Nat.zero_le _
  | drain r' =>
      by_cases hr : r = r'
      · subst hr
        obtain ⟨served, rest, -, hDrain, hBlocked, -⟩ :=
          drainLocked_spec (s.queue r).requests (s.queue r).resourcesLeft []
        refine .inl ?_
        simpa [runSection, hDrain] using hBlocked
      · by_cases hOwes : r'.rank ≤ r.rank
        · have hNe : r'.rank ≠ r.rank := fun h => hr (Resource.rank_injective h).symm
          exact .inr (.inl (by simp only [runSection, Owes]; omega))
        · exact .inr (.inr ⟨by simp [runSection, hr], hOwes⟩)
  | serve r' ready =>
      cases ready with
      | nil => cases r' <;> cases r <;> simp [runSection, afterDrain, Owes, Resource.rank]
      | cons req ready =>
          by_cases hOwes : r'.rank < r.rank
          · exact .inr (.inl hOwes)
          · exact .inr (.inr ⟨rfl, hOwes⟩)
  | insert r' req rj ready =>
      by_cases hOwes : r'.rank < r.rank
      · exact .inr (.inl hOwes)
      · exact .inr (.inr ⟨rfl, hOwes⟩)
  | answer r' req ready =>
      by_cases hOwes : r'.rank < r.rank
      · exact .inr (.inl hOwes)
      · exact .inr (.inr ⟨rfl, hOwes⟩)

theorem Attended.step {s : Pool W} (h : Attended s) (a : Act W) : Attended (poolStep s a) := by
  intro r
  cases a with
  | call w c =>
      simp only [poolStep]
      cases hPc : s.worker w with
      | idle =>
          have hQueue : (enter s.server c).1.queue r = s.server.queue r := by
            cases c <;> rfl
          simp only [hQueue]
          rcases h r with hBlocked | ⟨w', hOwes⟩
          · exact .inl hBlocked
          · have hNe : w' ≠ w := by
              rintro rfl
              rw [hPc] at hOwes
              exact hOwes
            exact .inr ⟨w', by rw [Function.update_of_ne hNe]; exact hOwes⟩
      | _ => exact h r
  | go w peer =>
      simp only [poolStep]
      rcases runSection_attends peer s.server (s.worker w) r with hBlocked | hOwes | ⟨hSame, hNot⟩
      · exact .inl hBlocked
      · exact .inr ⟨w, by rw [Function.update_self]; exact hOwes⟩
      · rw [hSame]
        rcases h r with hBlocked | ⟨w', hOwes⟩
        · exact .inl hBlocked
        · have hNe : w' ≠ w := by
            rintro rfl
            exact hNot hOwes
          exact .inr ⟨w', by rw [Function.update_of_ne hNe]; exact hOwes⟩

theorem attended_run (capacity : Resource → Int) (acts : List (Act W)) :
    Attended (run poolStep (Pool.init capacity) acts) := by
  refine run_invariant_always Attended (fun s a hs => hs.step a) ?_ acts
  intro r
  refine .inl fun req hreq => ?_
  simp [Pool.init, ServerState.init, makeQueue] at hreq

/-- **No lost wake-up.**  Whatever the interleaving, in a state where no worker
is inside a handler each queue is empty or its first request asks for strictly
more than is left. -/
theorem no_lost_wakeup (capacity : Resource → Int) (acts : List (Act W))
    (hQuiet : Quiescent (run poolStep (Pool.init capacity) acts)) (r : Resource) :
    ((run poolStep (Pool.init capacity) acts).server.queue r).requests = [] ∨
      ∃ req rest, ((run poolStep (Pool.init capacity) acts).server.queue r).requests =
          req :: rest ∧
        ((run poolStep (Pool.init capacity) acts).server.queue r).resourcesLeft <
          req.amountRequested := by
  rcases attended_run capacity acts r with hBlocked | ⟨w, hOwes⟩
  · cases hReqs : ((run poolStep (Pool.init capacity) acts).server.queue r).requests with
    | nil => exact .inl rfl
    | cons req rest => exact .inr ⟨req, rest, rfl, hBlocked req (by simp [hReqs])⟩
  · rw [hQuiet w] at hOwes
    exact hOwes.elim

/-- Two workers, two requests for a pool of four: the interleaving ends with
both workers idle and one request waiting. -/
def contendedActs : List (Act Bool) :=
  [.call false (.enqueueJobs "cpu".toList 1 3 7), .call true (.enqueueJobs "cpu".toList 2 2 8),
    .go true none, .go false none] ++
    List.replicate 9 (.go false none) ++ List.replicate 9 (.go true none)

theorem no_lost_wakeup_contended :
    Quiescent (run poolStep (Pool.init fun _ => 4) contendedActs) ∧
      ∃ req rest, ((run poolStep (Pool.init fun _ => 4) contendedActs).server.queue .cpu).requests =
          req :: rest ∧
        ((run poolStep (Pool.init fun _ => 4) contendedActs).server.queue .cpu).resourcesLeft <
          req.amountRequested := by
  have hQuiet : Quiescent (run poolStep (Pool.init fun _ => 4) contendedActs) := by
    intro w
    cases w <;> rfl
  have hSome : ((run poolStep (Pool.init fun _ => 4) contendedActs).server.queue .cpu).requests ≠
      [] := by decide +kernel
  exact ⟨hQuiet, (no_lost_wakeup _ contendedActs hQuiet .cpu).resolve_left hSome⟩

end

end ResourceAgent.Ports.Workers
