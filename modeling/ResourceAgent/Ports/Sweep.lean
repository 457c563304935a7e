import Mathlib.Data.Fintype.Basic
import ResourceAgent.Ports.Replacement

/-!
# The timeout sweep among the other handlers

`check_ourjob_timeouts` collects the ids of the expired jobs under the table lock, and
ends these jobs after the lock is released: it finds each one again, closes its
connection, releases what it holds, tells the scheduler and removes it, each in a section
of its own.  Other workers handle messages in between, and the clock goes on.

The second pass finds a job by its id, does not look at its requests and its timer again,
and keeps the pointer it has found from section to section.  `Undisturbed` says which
handlers must not come in between; without them the sweep ends only jobs that are expired,
and removes the very jobs it has torn down (`sweep_ends_expired_jobs`).
-/

namespace ResourceAgent.Ports.Sweep

open ResourceAgent.Ports.HashTable
open ResourceAgent.Ports.Records
open ResourceAgent.Ports.Wire
open ResourceAgent.Ports.Client
open ResourceAgent.Ports.Outcomes
open ResourceAgent.Ports.Replacement (Orderly)
open ResourceAgent.Verified.CText
open ResourceAgent.Verified.Runs

/-! ## The sections of the sweep -/

/-- How far the second pass is with the job it has found. -/
inductive Stage where
  | found
  | torn
  | released
  | told
  deriving DecidableEq

/-- The job the second pass has found: how far it is with it, the pointer, and the id
printed into `id_str`. -/
structure Held where
  stage : Stage
  addr : Nat
  jobId : Int
  deriving DecidableEq

/-- Where a worker is in `check_ourjob_timeouts`. -/
inductive Phase where
  | idle
  /-- `now` is read, nothing collected yet -/
  | timed (now : Int)
  /-- before the `tablahash_find` of the next id -/
  | pass (ids : List Int)
  | on (job : Held) (ids : List Int)
  deriving DecidableEq

/-- The ids a sweep has collected and not looked up yet. -/
def Phase.waiting : Phase → List Int
  | .pass ids => ids
  | .on _ ids => ids
  | _ => []

def Phase.held : Phase → Option Held
  | .on job _ => some job
  | _ => none

/-- The client side, the monotonic clock, the workers that sweep, and what was done
outside. -/
structure Agent (W : Type) where
  client : ClientState
  clock : Int
  phase : W → Phase
  out : List Effect

def Agent.start {W : Type} (clock : Int) : Agent W :=
  ⟨.init, clock, fun _ => .idle, []⟩

/-- A message or an event on a connection. -/
inductive Input where
  | erlang (instruction : Text) (nodes : Table nodeCallbacks) (dial : Dial)
  | line (fd : Int) (instruction : Text) (dial : Dial)
  | sendRequest (fd : Int)
  | disconnect (fd : Int)

/-- The handler of an input, which reads the clock if it needs it. -/
def Input.event (clock : Int) : Input → ClientEvent
  | .erlang instruction nodes dial => .erlang instruction clock nodes dial
  | .line fd instruction dial => .line fd instruction clock dial
  | .sendRequest fd => .sendRequest fd
  | .disconnect fd => .disconnect fd

inductive Act (W : Type) where
  | tick (seconds : Nat)
  | handle (input : Input)
  /-- the timer wakes a worker -/
  | wake (w : W)
  /-- a worker runs the next section of its sweep -/
  | go (w : W)

/-- The ids the first pass collects. -/
def collect (now : Int) (s : ClientState) : List Int :=
  ((s.jobs.filter (expired now)).map LocalJob.jobId).take 256

/-- The `tablahash_find` of the second pass. -/
def lookUp (s : ClientState) : List Int → Phase
  | [] => .idle
  | jobId :: ids =>
      match s.findJob jobId with
      | none => .pass ids
      | some job => .on ⟨.found, job.addr, job.jobId⟩ ids

/-- A section of the second pass.  All but the one that tells the scheduler follow the
pointer, the removal to read the id under which it removes; where the job is gone, the
code reads freed memory, and the model does nothing. -/
def workOn (s : ClientState) (job : Held) : ClientState × List Effect :=
  match job.stage with
  | .found => (s.jobAt job.addr).elim (s, []) (tearDown s)
  | .torn => (s.jobAt job.addr).elim (s, []) (releaseResources s)
  | .released => (s, cToErlang .timeout (itoa job.jobId))
  | .told => ((s.jobAt job.addr).elim s s.removeJob, [])

/-- The phase after such a section. -/
def afterWork (job : Held) (ids : List Int) : Phase :=
  match job.stage with
  | .found => .on { job with stage := .torn } ids
  | .torn => .on { job with stage := .released } ids
  | .released => .on { job with stage := .told } ids
  | .told => .pass ids

section

variable {W : Type} [DecidableEq W]

def Agent.moveTo (a : Agent W) (w : W) (phase : Phase) : Agent W :=
  { a with phase := Function.update a.phase w phase }

def sweepStep (a : Agent W) : Act W → Agent W
  | .tick seconds => { a with clock := a.clock + seconds }
  | .handle input =>
      let handled := clientStep a.client (input.event a.clock)
      { a with client := handled.1, out := a.out ++ handled.2 }
  | .wake w =>
      match a.phase w with
      | .idle => a.moveTo w (.timed a.clock)
      | _ => a
  | .go w =>
      match a.phase w with
      | .idle => a
      | .timed now => a.moveTo w (.pass (collect now a.client))
      | .pass ids => a.moveTo w (lookUp a.client ids)
      | .on job ids =>
          let worked := workOn a.client job
          { a.moveTo w (afterWork job ids) with client := worked.1, out := a.out ++ worked.2 }

/-- No handler interferes with a sweep: while an id is collected, no JOB_REQUEST brings
it and no GRANTED advances its job; while a job is found and not removed, no JOB_REQUEST
brings its id and nobody else ends it; and no GRANTED advances it before its tear-down.
Nor does a JOB_REQUEST leave an index entry behind that leads to a freed job. -/
def Undisturbed (a : Agent W) : Act W → Prop
  | .handle input => Orderly a.client (input.event a.clock) ∧ ∀ w,
      (∀ jobId ∈ (a.phase w).waiting, requests (input.event a.clock) ≠ some jobId ∧
        advances a.client (input.event a.clock) ≠ some jobId) ∧
      ∀ job ∈ (a.phase w).held, requests (input.event a.clock) ≠ some job.jobId ∧
        ends a.client (input.event a.clock) ≠ some job.jobId ∧
        (job.stage = .found → advances a.client (input.event a.clock) ≠ some job.jobId)
  | .go w => ∀ job ∈ (a.phase w).held, job.stage = .told →
      ∀ w', w' ≠ w → ∀ job' ∈ (a.phase w').held, job'.jobId ≠ job.jobId
  | _ => True

instance [Fintype W] (a : Agent W) (act : Act W) : Decidable (Undisturbed a act) := by
  cases act with
  | tick seconds => exact isTrue trivial
  | handle input =>
      show Decidable (Orderly a.client _ ∧
        ∀ w, (∀ jobId ∈ (a.phase w).waiting, _) ∧ ∀ job ∈ (a.phase w).held, _)
      infer_instance
  | wake w => exact isTrue trivial
  | go w =>
      show Decidable (∀ job ∈ (a.phase w).held, _)
      infer_instance

/-- A section of the second pass works on the very job it has found, and tears it down
only if it is expired. -/
def EndsExpired (a : Agent W) : Act W → Prop
  | .go w => ∀ held ∈ (a.phase w).held, ∃ job ∈ a.client.findJob held.jobId,
      job.addr = held.addr ∧ (held.stage = .found → expired a.clock job = true)
  | _ => True

instance (a : Agent W) (act : Act W) : Decidable (EndsExpired a act) := by
  cases act with
  | go w =>
      show Decidable (∀ held ∈ (a.phase w).held, ∃ job ∈ a.client.findJob held.jobId, _)
      infer_instance
  | _ => exact isTrue trivial

end

/-! ## What a sweep relies on -/

/-- A sweep that goes on as it should: it has read the clock, the jobs it has collected
are expired, and so is the job it has found, until its tear-down. -/
structure Sound (s : ClientState) (clock : Int) (phase : Phase) : Prop where
  timed : ∀ now, phase = .timed now → now ≤ clock
  waiting : ∀ job ∈ s.jobs, job.jobId ∈ phase.waiting → expired clock job = true
  held : ∀ held ∈ phase.held, ∃ job ∈ s.jobs, job.addr = held.addr ∧ job.jobId = held.jobId ∧
    (held.stage = .found → expired clock job = true)

theorem expired_mono {now clock : Int} {job : LocalJob} (h : expired now job = true)
    (hLe : now ≤ clock) : expired clock job = true := by
  simp only [expired, Bool.and_eq_true, decide_eq_true_eq] at h ⊢
  exact ⟨h.1, by omega⟩

theorem Sound.tick {s : ClientState} {clock clock' : Int} {phase : Phase}
    (h : Sound s clock phase) (hLe : clock ≤ clock') : Sound s clock' phase where
  timed now hPhase := Int.le_trans (h.timed now hPhase) hLe
  waiting job hJob hWaiting := expired_mono (h.waiting job hJob hWaiting) hLe
  held held hHeld := by
    obtain ⟨job, hJob, hAddr, hId, hExpired⟩ := h.held held hHeld
    exact ⟨job, hJob, hAddr, hId, fun hStage => expired_mono (hExpired hStage) hLe⟩

/-- A sweep is not disturbed when the jobs it has collected are as they were or gone, and
the job it has found is still there, unchanged before its tear-down. -/
theorem Sound.transfer {s s' : ClientState} {clock : Int} {phase : Phase}
    (h : Sound s clock phase)
    (hBack : ∀ job ∈ s'.jobs, job.jobId ∈ phase.waiting → ∃ old ∈ s.jobs,
      old.jobId = job.jobId ∧ (expired clock old = true → expired clock job = true))
    (hForth : ∀ held ∈ phase.held, ∀ old ∈ s.jobs, old.jobId = held.jobId → ∃ job ∈ s'.jobs,
      job.addr = old.addr ∧ job.jobId = old.jobId ∧
        (held.stage = .found → expired clock old = true → expired clock job = true)) :
    Sound s' clock phase where
  timed := h.timed
  waiting job hJob hWaiting := by
    obtain ⟨old, hOld, hId, hExpired⟩ := hBack job hJob hWaiting
    exact hExpired (h.waiting old hOld (hId ▸ hWaiting))
  held held hHeld := by
    obtain ⟨old, hOld, hAddr, hId, hExpired⟩ := h.held held hHeld
    obtain ⟨job, hJob, hSameAddr, hSameId, hStill⟩ := hForth held hHeld old hOld hId
    exact ⟨job, hJob, hSameAddr.trans hAddr, hSameId.trans hId,
      fun hStage => hStill hStage (hExpired hStage)⟩

/-- A phase without a job, and with some of the ids of another one. -/
theorem Sound.shrink {s : ClientState} {clock : Int} {phase phase' : Phase}
    (h : Sound s clock phase) (hTimed : ∀ now, phase' ≠ .timed now)
    (hWaiting : ∀ jobId ∈ phase'.waiting, jobId ∈ phase.waiting) (hHeld : phase'.held = none) :
    Sound s clock phase' where
  timed now hPhase := absurd hPhase (hTimed now)
  waiting job hJob hIn := h.waiting job hJob (hWaiting _ hIn)
  held held hSome := by
    rw [hHeld] at hSome
    cases hSome

/-! ## The sections one by one -/

/-- One job before and after a section. -/
structure Alike (old job : LocalJob) : Prop where
  addr : job.addr = old.addr
  jobId : job.jobId = old.jobId
  nextReq : job.nextReq = old.nextReq
  timer : job.timer = old.timer

theorem Alike.refl (job : LocalJob) : Alike job job := ⟨rfl, rfl, rfl, rfl⟩

theorem Alike.expired {old job : LocalJob} (h : Alike old job) {clock : Int}
    (hOld : expired clock old = true) : Client.expired clock job = true := by
  simp only [Client.expired, h.nextReq, h.timer]
  exact hOld

section

variable {s : ClientState} {clock : Int}

/-- `release_resources` writes to the granted requests of the job, and to nothing else. -/
theorem mem_jobs_releaseResources (hPlaced : Placed s) {job : LocalJob} (hJob : job ∈ s.jobs) :
    ∃ job', Alike job job' ∧
      ∀ x, x ∈ (releaseResources s job).1.jobs ↔ x = job' ∨ (x ∈ s.jobs ∧ x.addr ≠ job.addr) := by
  refine ⟨{ job with
      grantedReqs := job.grantedReqs.map fun granted =>
        if 0 ≤ granted.providerFd then { granted with providerFd := -1 } else granted },
    ⟨rfl, rfl, rfl, rfl⟩, fun x => ?_⟩
  have hChanged := writeJob_changed hPlaced.addrKeys hJob
    { job with
      grantedReqs := job.grantedReqs.map fun granted =>
        if 0 ≤ granted.providerFd then { granted with providerFd := -1 } else granted } rfl rfl
  rw [releaseResources, hChanged.jobs, Option.some.injEq, eq_comm]

theorem jobAt_mem {addr : Nat} {job : LocalJob} (h : s.jobAt addr = some job) : job ∈ s.jobs :=
  List.mem_of_find?_eq_some h

theorem jobAt_addr {addr : Nat} {job : LocalJob} (h : s.jobAt addr = some job) :
    job.addr = addr := by
  simpa using List.find?_some h

theorem brk_workOn (s : ClientState) (held : Held) : (workOn s held).1.brk = s.brk := by
  unfold workOn
  split
  · cases s.jobAt held.addr with
    | none => rfl
    | some job => exact brk_tearDown s job
  · cases s.jobAt held.addr <;> rfl
  · rfl
  · cases s.jobAt held.addr <;> rfl

/-- A section brings no job and changes neither requests nor timers. -/
theorem workOn_back (hPlaced : Placed s) (held : Held) {job : LocalJob}
    (hJob : job ∈ (workOn s held).1.jobs) : ∃ old ∈ s.jobs, Alike old job := by
  unfold workOn at hJob
  split at hJob
  · refine ⟨job, ?_, .refl job⟩
    cases hAt : s.jobAt held.addr with
    | none =>
        rw [hAt] at hJob
        exact hJob
    | some found =>
        rw [hAt] at hJob
        rw [← jobs_tearDown s found]
        exact hJob
  · cases hAt : s.jobAt held.addr with
    | none =>
        rw [hAt] at hJob
        exact ⟨job, hJob, .refl job⟩
    | some found =>
        rw [hAt] at hJob
        obtain ⟨found', hAlike, hMem⟩ := mem_jobs_releaseResources hPlaced (jobAt_mem hAt)
        rcases (hMem job).mp hJob with rfl | ⟨hOld, -⟩
        · exact ⟨found, jobAt_mem hAt, hAlike⟩
        · exact ⟨job, hOld, .refl job⟩
  · exact ⟨job, hJob, .refl job⟩
  · refine ⟨job, ?_, .refl job⟩
    cases hAt : s.jobAt held.addr with
    | none =>
        rw [hAt] at hJob
        exact hJob
    | some found =>
        rw [hAt] at hJob
        exact (ClientState.mem_jobs_removeJob.mp hJob).1

/-- The last section removes the job at the pointer, and no section removes another one. -/
theorem workOn_forth (hPlaced : Placed s) (held : Held) {old : LocalJob} (hOld : old ∈ s.jobs)
    (hKept : held.stage = .told → old.addr ≠ held.addr) :
    ∃ job ∈ (workOn s held).1.jobs, Alike old job := by
  unfold workOn
  split
  · refine ⟨old, ?_, .refl old⟩
    cases hAt : s.jobAt held.addr with
    | none => exact hOld
    | some found =>
        show old ∈ (tearDown s found).1.jobs
        rw [jobs_tearDown]
        exact hOld
  · cases hAt : s.jobAt held.addr with
    | none => exact ⟨old, hOld, .refl old⟩
    | some found =>
        obtain ⟨found', hAlike, hMem⟩ := mem_jobs_releaseResources hPlaced (jobAt_mem hAt)
        by_cases hSame : old.addr = found.addr
        · rw [hPlaced.addrKeys old hOld found (jobAt_mem hAt) hSame]
          exact ⟨found', (hMem found').mpr (.inl rfl), hAlike⟩
        · exact ⟨old, (hMem old).mpr (.inr ⟨hOld, hSame⟩), .refl old⟩
  · exact ⟨old, hOld, .refl old⟩
  · rename_i hStage
    refine ⟨old, ?_, .refl old⟩
    cases hAt : s.jobAt held.addr with
    | none => exact hOld
    | some found =>
        refine ClientState.mem_jobs_removeJob.mpr ⟨hOld, fun hSame => hKept hStage ?_⟩
        rw [ClientState.eq_of_jobId hOld (jobAt_mem hAt) hSame, jobAt_addr hAt]

theorem placed_workOn (hPlaced : Placed s) (held : Held) : Placed (workOn s held).1 where
  addrKeys x hx y hy hSame := by
    obtain ⟨x₀, hx₀, hxAlike⟩ := workOn_back hPlaced held hx
    obtain ⟨y₀, hy₀, hyAlike⟩ := workOn_back hPlaced held hy
    have hOld := hPlaced.addrKeys x₀ hx₀ y₀ hy₀ (by rw [← hxAlike.addr, ← hyAlike.addr, hSame])
    exact ClientState.eq_of_jobId hx hy (by rw [hxAlike.jobId, hyAlike.jobId, hOld])
  allocated x hx := by
    obtain ⟨x₀, hx₀, hAlike⟩ := workOn_back hPlaced held hx
    rw [hAlike.addr, brk_workOn]
    exact hPlaced.allocated x₀ hx₀
  ids x hx := by
    obtain ⟨x₀, hx₀, hAlike⟩ := workOn_back hPlaced held hx
    rw [hAlike.jobId]
    exact hPlaced.ids x₀ hx₀

/-- A section of another worker. -/
theorem Sound.workOn {phase : Phase} (h : Sound s clock phase) (hPlaced : Placed s) {held : Held}
    (hHeld : ∃ job ∈ s.jobs, job.addr = held.addr ∧ job.jobId = held.jobId)
    (hOther : held.stage = .told → ∀ mine ∈ phase.held, mine.jobId ≠ held.jobId) :
    Sound (workOn s held).1 clock phase := by
  refine h.transfer (fun job hJob _ => ?_) fun mine hMine old hOld hId => ?_
  · obtain ⟨old, hOld, hAlike⟩ := workOn_back hPlaced held hJob
    exact ⟨old, hOld, hAlike.jobId.symm, hAlike.expired⟩
  · have hApart : held.stage = .told → old.addr ≠ held.addr := by
      intro hStage hSame
      obtain ⟨theirs, hTheirs, hAddr, hTheirId⟩ := hHeld
      refine hOther hStage mine hMine ?_
      rw [← hId, ← hTheirId, hPlaced.addrKeys old hOld theirs hTheirs (hSame.trans hAddr.symm)]
    obtain ⟨job, hJob, hAlike⟩ := workOn_forth hPlaced held hOld hApart
    exact ⟨job, hJob, hAlike.addr, hAlike.jobId, fun _ => hAlike.expired⟩

/-- A section of the sweep itself. -/
theorem Sound.afterWork {held : Held} {ids : List Int} (h : Sound s clock (.on held ids))
    (hPlaced : Placed s) : Sound (Sweep.workOn s held).1 clock (afterWork held ids) where
  timed now hPhase := by
    unfold Sweep.afterWork at hPhase
    split at hPhase <;> cases hPhase
  waiting job hJob hWaiting := by
    have hIds : (Sweep.afterWork held ids).waiting = ids := by
      unfold Sweep.afterWork
      split <;> rfl
    rw [hIds] at hWaiting
    obtain ⟨old, hOld, hAlike⟩ := workOn_back hPlaced held hJob
    exact hAlike.expired (h.waiting old hOld (hAlike.jobId ▸ hWaiting))
  held mine hMine := by
    have hMine' : held.stage ≠ .told ∧ mine.stage ≠ .found ∧ mine.addr = held.addr ∧
        mine.jobId = held.jobId := by
      unfold Sweep.afterWork at hMine
      split at hMine
      · cases hMine
        simp_all
      · cases hMine
        simp_all
      · cases hMine
        simp_all
      · cases hMine
    obtain ⟨hNotTold, hNotFound, hAddr, hId⟩ := hMine'
    obtain ⟨old, hOld, hOldAddr, hOldId, -⟩ := h.held held rfl
    obtain ⟨job, hJob, hAlike⟩ := workOn_forth hPlaced held hOld fun hTold =>
      absurd hTold hNotTold
    exact ⟨job, hJob, by rw [hAlike.addr, hOldAddr, hAddr], by rw [hAlike.jobId, hOldId, hId],
      fun hFound => absurd hFound hNotFound⟩

/-- The first pass collects expired jobs only. -/
theorem sound_collect {now : Int} (hLe : now ≤ clock) : Sound s clock (.pass (collect now s)) where
  timed _ hPhase := nomatch hPhase
  waiting job hJob hWaiting := by
    obtain ⟨x, hx, hSame⟩ := List.mem_map.mp (List.mem_of_mem_take hWaiting)
    obtain ⟨hx, hExpired⟩ := List.mem_filter.mp hx
    rw [← ClientState.eq_of_jobId hx hJob hSame]
    exact expired_mono hExpired hLe
  held _ hHeld := nomatch hHeld

theorem Sound.lookUp {ids : List Int} (h : Sound s clock (.pass ids)) :
    Sound s clock (lookUp s ids) := by
  cases ids with
  | nil => exact h.shrink (fun _ hPhase => nomatch hPhase) (fun _ hIn => nomatch hIn) rfl
  | cons jobId ids =>
      simp only [Sweep.lookUp]
      cases hFind : s.findJob jobId with
      | none =>
          exact h.shrink (fun _ hPhase => nomatch hPhase)
            (fun _ hIn => List.mem_cons_of_mem _ hIn) rfl
      | some job =>
          obtain ⟨hJob, hId⟩ := ClientState.findJob_eq_some.mp hFind
          refine ⟨fun _ hPhase => (nomatch hPhase), fun x hx hIn => ?_, ?_⟩
          · exact h.waiting x hx (List.mem_cons_of_mem _ hIn)
          · rintro held ⟨⟩
            refine ⟨job, hJob, rfl, rfl, fun _ => h.waiting job hJob ?_⟩
            rw [hId]
            exact List.mem_cons_self

/-- A handler that keeps away from the jobs of the sweep. -/
theorem Sound.handle {s' : ClientState} {phase : Phase} {e : ClientEvent} (h : Sound s clock phase)
    (hPlaced : Placed s) (hOutcome : Outcome s e s')
    (hWaiting : ∀ jobId ∈ phase.waiting, requests e ≠ some jobId ∧ advances s e ≠ some jobId)
    (hHeld : ∀ held ∈ phase.held, requests e ≠ some held.jobId ∧ ends s e ≠ some held.jobId ∧
      (held.stage = .found → advances s e ≠ some held.jobId)) :
    Sound s' clock phase := by
  refine h.transfer (fun job hJob hIn => ?_) fun held hMine old hOld hId => ?_
  · obtain ⟨hRequests, hAdvances⟩ := hWaiting job.jobId hIn
    exact ⟨job, hOutcome.mem_of_mem hJob hRequests hAdvances, rfl, id⟩
  · obtain ⟨hRequests, hEnds, hAdvances⟩ := hHeld held hMine
    rw [← hId] at hRequests hEnds hAdvances
    obtain ⟨job, hJob, hAddr, hSameId, hSame⟩ := hOutcome.stays hPlaced hOld hRequests hEnds
    refine ⟨job, hJob, hAddr, hSameId, fun hFound hExpired => ?_⟩
    rw [hSame (hAdvances hFound)]
    exact hExpired

end

/-! ## Runs -/

section

variable {W : Type} [DecidableEq W] {a : Agent W}

/-- Every sweep under way goes on as it should. -/
structure Watching (a : Agent W) : Prop where
  placed : Placed a.client
  sound : ∀ w, Sound a.client a.clock (a.phase w)

omit [DecidableEq W] in
theorem watching_start (clock : Int) : Watching (Agent.start (W := W) clock) where
  placed := ⟨tidy_init.addrKeys, tidy_init.allocated, tidy_init.ids⟩
  sound _ := ⟨fun _ hPhase => (nomatch hPhase), fun _ _ hIn => (nomatch hIn),
    fun _ hHeld => (nomatch hHeld)⟩

theorem Watching.moveTo (h : Watching a) {w : W} {phase : Phase}
    (hSound : Sound a.client a.clock phase) : Watching (a.moveTo w phase) where
  placed := h.placed
  sound v := by
    by_cases hv : v = w
    · subst hv
      simp only [Agent.moveTo, Function.update_self]
      exact hSound
    · simp only [Agent.moveTo, Function.update_of_ne hv]
      exact h.sound v

theorem Input.event_ne_sweep (input : Input) (clock now : Int) :
    input.event clock ≠ .sweep now := by
  cases input <;> exact fun h => nomatch h

theorem Watching.step (h : Watching a) {act : Act W} (hUndisturbed : Undisturbed a act) :
    Watching (sweepStep a act) := by
  cases act with
  | tick seconds =>
      exact ⟨h.placed, fun w => (h.sound w).tick (by simp only [sweepStep]; omega)⟩
  | handle input =>
      have hOutcome := clientStep_outcome h.placed (input.event_ne_sweep a.clock)
      refine ⟨hOutcome.placed h.placed, fun w => ?_⟩
      exact (h.sound w).handle h.placed hOutcome (hUndisturbed.2 w).1 (hUndisturbed.2 w).2
  | wake w =>
      cases hPhase : a.phase w with
      | idle =>
          simp only [sweepStep, hPhase]
          refine h.moveTo ⟨?_, fun _ _ hIn => (nomatch hIn), fun _ hHeld => (nomatch hHeld)⟩
          rintro now ⟨⟩
          exact Int.le_refl _
      | _ =>
          simp only [sweepStep, hPhase]
          exact h
  | go w =>
      have hSound := h.sound w
      cases hPhase : a.phase w with
      | idle =>
          simp only [sweepStep, hPhase]
          exact h
      | timed now =>
          simp only [sweepStep, hPhase]
          exact h.moveTo (sound_collect (hSound.timed now hPhase))
      | pass ids =>
          rw [hPhase] at hSound
          simp only [sweepStep, hPhase]
          exact h.moveTo hSound.lookUp
      | on held ids =>
          rw [hPhase] at hSound
          simp only [sweepStep, hPhase]
          refine ⟨placed_workOn h.placed held, fun v => ?_⟩
          by_cases hv : v = w
          · subst hv
            simp only [Agent.moveTo, Function.update_self]
            exact hSound.afterWork h.placed
          · simp only [Agent.moveTo, Function.update_of_ne hv]
            obtain ⟨job, hJob, hAddr, hId, -⟩ := hSound.held held rfl
            refine (h.sound v).workOn h.placed ⟨job, hJob, hAddr, hId⟩ fun hTold mine hMine => ?_
            exact hUndisturbed held (by rw [hPhase]; rfl) hTold v hv mine hMine

omit [DecidableEq W] in
theorem Watching.endsExpired (h : Watching a) (act : Act W) : EndsExpired a act := by
  cases act with
  | go w =>
      intro held hHeld
      obtain ⟨job, hJob, hAddr, hId, hExpired⟩ := (h.sound w).held held hHeld
      exact ⟨job, ClientState.findJob_eq_some.mpr ⟨hJob, hId⟩, hAddr, hExpired⟩
  | _ => trivial

end

/-- **The sweep ends expired jobs only.**  Any number of workers sweep, message after
message is handled between their sections, and time passes.  If no handler interferes
with a job that a sweep has collected or found, every section of a second pass works on
the job it has found, and not on a later one of the same id, and at the tear-down the job
still waits for a resource and has done so for `JOB_TIMEOUT_SEC`. -/
theorem sweep_ends_expired_jobs {W : Type} [DecidableEq W] (clock : Int) (acts : List (Act W))
    (hUndisturbed : Meets sweepStep Undisturbed (Agent.start clock) acts) :
    Meets sweepStep EndsExpired (Agent.start clock) acts :=
  Meets.of_invariant Watching (fun _ act h hStep => ⟨h.step hStep, h.endsExpired act⟩)
    (watching_start clock) hUndisturbed

/-- JOB_REQUEST for one cpu of one node; the connection gets `fd`. -/
def request (jobId : String) (fd : Nat) : Act Bool :=
  .handle (.erlang ("JOB_REQUEST ".toList ++ jobId.toList ++ " @10.0.0.1:cpu:1".toList)
    (tablahashCreate _) (.connected fd))

/-- Two jobs expire.  While a worker sweeps, one of them is released, and the other one is
requested again after its removal. -/
def relaunchedAfter : List (Act Bool) :=
  [request "7" 5, request "8" 6, .tick 30, .wake false, .go false,
    .handle (.erlang "JOB_RELEASE 8".toList (tablahashCreate _) .noSocket),
    .go false, .wake true, .go false, .go false, .go false, .go false, request "7" 7, .go true,
    .go false, .go false, .go true]

theorem sweep_ends_expired_jobs_relaunchedAfter :
    Meets sweepStep Undisturbed (Agent.start 0) relaunchedAfter ∧
      Meets sweepStep EndsExpired (Agent.start 0) relaunchedAfter := by
  have hUndisturbed : Meets sweepStep Undisturbed (Agent.start 0) relaunchedAfter := by
    decide +kernel
  exact ⟨hUndisturbed, sweep_ends_expired_jobs 0 relaunchedAfter hUndisturbed⟩

/-- The last grant of a job arrives after its id was collected. -/
def grantedLate : List (Act Bool) :=
  [request "7" 5, .tick 30, .wake false, .go false, .handle (.line 5 "GRANTED 7".toList .noSocket),
    .go false, .go false, .go false, .go false, .go false]

/-- The sweep tears down a job that has all its resources, and tells the scheduler both
that it is granted and that it timed out. -/
theorem sweep_ends_a_granted_job :
    ¬ Meets sweepStep EndsExpired (Agent.start 0) grantedLate ∧
    (run sweepStep (Agent.start 0) (grantedLate.take 6)).client.jobs.map
        (fun job => (job.jobId, job.nextReq, job.timer)) = [(7, [], 30)] ∧
    (run sweepStep (Agent.start 0) grantedLate).out.filter (fun effect =>
        effect = .toErlang .granted "7".toList ∨ effect = .toErlang .timeout "7".toList) =
      [.toErlang .granted "7".toList, .toErlang .timeout "7".toList] ∧
    (run sweepStep (Agent.start 0) grantedLate).client.jobs = [] := by
  decide +kernel

end ResourceAgent.Ports.Sweep
