import Mathlib.Data.List.Induction
import ResourceAgent.Ports.ClientRun
import ResourceAgent.Ports.JobEnds

/-!
# What becomes of a job

A job comes from a JOB_REQUEST and changes only by a GRANTED that is accepted for it; every
other handler keeps it as it is or ends it (`clientStep_fate`).

Its timer follows from that: it is the time of the last of these events.
-/

namespace ResourceAgent.Ports.JobFate

open ResourceAgent.Ports.HashTable
open ResourceAgent.Ports.Records
open ResourceAgent.Ports.Wire
open ResourceAgent.Ports.Client
open ResourceAgent.Ports.ClientRun (next)
open ResourceAgent.Ports.Outcomes
open ResourceAgent.Ports.ClientShape
open ResourceAgent.Ports.JobEnds
open ResourceAgent.Verified.CText
open ResourceAgent.Verified.Runs

/-! ## Jobs -/

section

variable {s : ClientState} {x : LocalJob}

/-- Where a job that is there after an event comes from.  Its socket is that of the last
dial. -/
inductive Fate (s : ClientState) (e : ClientEvent) (x : LocalJob) : Prop where
  | kept (hOld : x ∈ s.jobs) (hOther : ∀ old, accepted s e = some old → x.addr ≠ old.addr)
  | stored (job : LocalJob) (socket : Int) (hStored : stored s e = some job)
      (hx : x = { job with originSocket := socket })
  | advanced (fd : Int) (instruction : Text) (now : Int) (dial : Dial) (old : LocalJob)
      (socket : Int) (hEvent : e = .line fd instruction now dial)
      (hAccepted : accepted s e = some old) (hOwner : s.owner fd = some old)
      (hx : x = { LocalJob.advance old fd now with originSocket := socket })

/-- **What becomes of the jobs.** -/
theorem clientStep_fate (h : Anchored s) (e : ClientEvent) (hx : x ∈ (clientStep s e).1.jobs) :
    Fate s e x := by
  cases clientStep_shape h.placed e with
  | shrinks hShrinks _ hAccepted _ =>
      refine .kept (hShrinks.jobs x hx) fun old hOld => ?_
      rw [hAccepted] at hOld
      cases hOld
  | requested job dial hStored hAccepted _ _ _ hChanged _ =>
      rcases (hChanged.jobs x).mp hx with hNew | ⟨hOld, hNe⟩
      · obtain ⟨socket, hAsked⟩ := asked_job dial job
        exact .stored job socket hStored ((Option.some.inj hNew).symm.trans hAsked)
      · rcases ClientState.mem_jobs_insertJob.mp hOld with rfl | ⟨hOld, -⟩
        · exact absurd rfl hNe
        · refine .kept hOld fun old hSame => ?_
          rw [hAccepted] at hSame
          cases hSame
  | advanced fd instruction now dial old hEvent _ hAccepted hOwner hChanged _ =>
      rcases (hChanged.jobs x).mp hx with hNew | ⟨hOld, hNe⟩
      · obtain ⟨socket, hAsked⟩ := asked_job dial (LocalJob.advance old fd now)
        exact .advanced fd instruction now dial old socket hEvent hAccepted hOwner
          ((Option.some.inj hNew).symm.trans hAsked)
      · refine .kept hOld fun other hSame => ?_
        rw [hAccepted] at hSame
        cases hSame
        exact hNe

/-- A JOB_GRANTED names a job that waits for nothing. -/
theorem done_of_granted (h : Anchored s) {e : ClientEvent} {text : Text}
    (hSaid : .toErlang .granted text ∈ (clientStep s e).2) (hx : x ∈ (clientStep s e).1.jobs)
    (hId : x.jobId = atoi text) : x.nextReq = [] := by
  cases clientStep_shape h.placed e with
  | shrinks hShrinks _ _ hOut =>
      obtain ⟨job, hJob, hSame, hDone⟩ := hOut text hSaid
      rw [ClientState.eq_of_jobId (hShrinks.jobs x hx) hJob (hId.trans hSame.symm)]
      exact hDone
  | requested job dial _ _ _ hInt _ hChanged hOut =>
      rw [hOut] at hSaid
      obtain ⟨hDone, rfl⟩ := asked_granted hSaid
      have hSame : x.jobId = (asked dial job).job.jobId := by
        rw [hId, asked_jobId, atoi_itoa hInt]
      rw [ClientState.eq_of_jobId hx hChanged.mem_self hSame, asked_nextReq]
      exact hDone
  | advanced fd instruction now dial old _ _ _ hOwner hChanged hOut =>
      rw [hOut] at hSaid
      rcases List.mem_cons.mp hSaid with hNone | hSaid
      · cases hNone
      · obtain ⟨hDone, rfl⟩ := asked_granted hSaid
        have hInt : IsInt (LocalJob.advance old fd now).jobId := by
          rw [LocalJob.advance_jobId]
          exact h.placed.ids old (owner_mem hOwner)
        have hSame : x.jobId = (asked dial (LocalJob.advance old fd now)).job.jobId := by
          rw [hId, asked_jobId, atoi_itoa hInt]
        rw [ClientState.eq_of_jobId hx hChanged.mem_self hSame, asked_nextReq]
        exact hDone

end

/-! ## Timers -/

/-- What the clock shows when a handler reads it. -/
def clock : ClientEvent → Int
  | .erlang _ timer _ _ => timer
  | .line _ _ now _ => now
  | .sweep now => now
  | _ => 0

/-- The event stores the job at this address, or a GRANTED is accepted for it. -/
def isProgress (s : ClientState) (e : ClientEvent) (addr : Nat) : Bool :=
  (stored s e).any (fun job => job.addr == addr) || (accepted s e).any fun job => job.addr == addr

/-- The creation of the job at an address and the GRANTEDs accepted for it, as the times
they happened at. -/
def progress : ClientState → List ClientEvent → Nat → List Int
  | _, [], _ => []
  | s, e :: es, addr =>
      (if isProgress s e addr then [clock e] else []) ++ progress (next s e) es addr

section

variable {s : ClientState} {x : LocalJob}

theorem progress_snoc (s : ClientState) (es : List ClientEvent) (e : ClientEvent) (addr : Nat) :
    progress s (es ++ [e]) addr = progress s es addr ++
      if isProgress (run next s es) e addr then [clock e] else [] := by
  induction es generalizing s with
  | nil =>
      rw [List.nil_append, progress, progress, progress, List.append_nil, List.nil_append]
      rfl
  | cons e' es ih =>
      rw [List.cons_append, progress, ih, progress, List.append_assoc]
      rfl

theorem stored_timer {e : ClientEvent} {job : LocalJob} (h : stored s e = some job) :
    job.timer = clock e := by
  unfold stored at h
  split at h
  · split at h
    · cases h
      rfl
    · cases h
  · cases h

theorem advance_timer (job : LocalJob) (fd now : Int) :
    (LocalJob.advance job fd now).timer = now := by
  unfold LocalJob.advance
  split <;> rfl

/-- A timer is set by progress, and by nothing else. -/
theorem timer_step (h : Anchored s) {e : ClientEvent} (hx : x ∈ (clientStep s e).1.jobs) :
    (isProgress s e x.addr = true ∧ x.timer = clock e) ∨
      (isProgress s e x.addr = false ∧ x ∈ s.jobs) := by
  cases clientStep_fate h e hx with
  | kept hOld hOther =>
      refine .inr ⟨?_, hOld⟩
      have hBelow := h.placed.allocated x hOld
      rw [isProgress, Bool.or_eq_false_iff, Option.any_eq_false, Option.any_eq_false]
      constructor
      · intro job hStored
        rw [beq_eq_false_iff_ne, stored_addr hStored]
        omega
      · intro old hAccepted
        rw [beq_eq_false_iff_ne]
        exact (hOther old hAccepted).symm
  | stored job socket hStored hEq =>
      subst hEq
      refine .inl ⟨?_, ?_⟩
      · simp [isProgress, hStored]
      · show job.timer = clock e
        exact stored_timer hStored
  | advanced fd instruction now dial old socket hEvent hAccepted _ hEq =>
      subst hEq
      refine .inl ⟨?_, ?_⟩
      · simp [isProgress, hAccepted, LocalJob.advance_addr]
      · rw [hEvent]
        exact advance_timer old fd now

end

theorem anchored_run (es : List ClientEvent) : Anchored (run next ClientState.init es) :=
  run_invariant_always Anchored (fun _ e h => h.handler e) anchored_init es

/-- **The timer of a job** is the time of its creation or of the last GRANTED accepted for
it. -/
theorem timer_eq_last_progress (es : List ClientEvent) : ∀ {job : LocalJob},
    job ∈ (run next ClientState.init es).jobs →
      (progress ClientState.init es job.addr).getLast? = some job.timer := by
  induction es using List.reverseRecOn with
  | nil =>
      intro job hJob
      simp [ClientState.jobs, ClientState.init] at hJob
  | append_singleton es e ih =>
      intro job hJob
      rw [run_snoc] at hJob
      rw [progress_snoc]
      rcases timer_step (anchored_run es) hJob with ⟨hProgress, hTimer⟩ | ⟨hNone, hOld⟩
      · rw [if_pos hProgress, hTimer, List.getLast?_concat]
      · rw [hNone, if_neg (by simp), List.append_nil]
        exact ih hOld

end ResourceAgent.Ports.JobFate
