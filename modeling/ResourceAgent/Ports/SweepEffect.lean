import ResourceAgent.Ports.JobFate

/-!
# The effect of one timeout sweep

`check_ourjob_timeouts` collects at most 256 ids of expired jobs and then ends the jobs one
by one, each through lookups in the two tables that the ends before it have changed.  With
the index in order, none of these lookups is disturbed: the sweep ends exactly the jobs it
has collected, and does for each of them what it would do for that job alone.
-/

namespace ResourceAgent.Ports.SweepEffect

open ResourceAgent.Ports.HashTable
open ResourceAgent.Ports.Records
open ResourceAgent.Ports.Wire
open ResourceAgent.Ports.Client
open ResourceAgent.Ports.ClientRun (next)
open ResourceAgent.Ports.JobEnds
open ResourceAgent.Ports.JobFate
open ResourceAgent.Verified.CText
open ResourceAgent.Verified.Runs

/-! ## What a sweep is meant to do -/

/-- The grants of a job whose connections it still has. -/
def held (job : LocalJob) : List PendingResource :=
  job.grantedReqs.filter fun granted => decide (0 ≤ granted.providerFd)

def heldFds (job : LocalJob) : List Int := (held job).map PendingResource.providerFd

/-- The states the effect of a sweep is stated for.  Jobs are allocations of their own and
their ids are of type `int`; no connection is held twice; and an entry under the socket of a
job leads to that job.  That ids are unique is part of `table_localjobs`. -/
structure SweepReady (s : ClientState) : Prop where
  addrKeys : s.AddrKeys
  ids : ∀ job ∈ s.jobs, IsInt job.jobId
  distinct : ∀ job ∈ s.jobs, (heldFds job).Nodup
  apart : ∀ x ∈ s.jobs, ∀ y ∈ s.jobs, x ≠ y → ∀ fd ∈ heldFds x, fd ∉ heldFds y
  index : ∀ e ∈ s.entries, ∀ job ∈ s.jobs, e.fd = job.originSocket → e.job = job.addr

/-- The jobs that still wait and whose timer is at least 30 s old. -/
def overdue (now : Int) (s : ClientState) : List LocalJob := s.jobs.filter (expired now)

/-- `MAX_TIMEOUTS_PER_TICK` of them at most. -/
def timedOut (now : Int) (s : ClientState) : List LocalJob := (overdue now s).take 256

/-- The entry of a job in `table_ourjobs`, if it has one; a negative socket is none. -/
def entryOf (s : ClientState) (job : LocalJob) : Option FdJobEntry :=
  if 0 ≤ job.originSocket then s.findEntry job.originSocket else none

/-- What is said to the scheduler. -/
def said (out : List Effect) : List (Instruction × Text) :=
  out.filterMap fun
    | .toErlang instruction jobId => some (instruction, jobId)
    | _ => none

/-- What is sent to other agents. -/
def sent (out : List Effect) : List (Int × Text) :=
  out.filterMap fun
    | .send fd line => some (fd, line)
    | _ => none

/-- The RELEASE lines of a job, one for each connection held. -/
def releases (job : LocalJob) : List (Int × Text) :=
  (held job).map fun granted =>
    (granted.providerFd, releaseLine job.jobId granted.type granted.amount)

/-- **The effect of a sweep.** -/
structure Sweeps (now : Int) (s : ClientState) (r : ClientState × List Effect) : Prop where
  count : (timedOut now s).length = min (overdue now s).length 256
  jobs : (r.1.jobs ++ timedOut now s).Perm s.jobs
  granted : ∀ job ∈ s.jobs, job.nextReq = [] → job ∈ r.1.jobs
  entries : ∀ e, e ∈ r.1.entries ↔ e ∈ s.entries ∧ ∀ job ∈ timedOut now s, entryOf s job ≠ some e
  others : ∀ job ∈ r.1.jobs, ∀ e, e.job = job.addr → (e ∈ r.1.entries ↔ e ∈ s.entries)
  reports : said r.2 = (timedOut now s).map fun job => (.timeout, itoa job.jobId)
  toldOnce : ∀ job ∈ timedOut now s, (said r.2).count (.timeout, itoa job.jobId) = 1
  sends : sent r.2 = (timedOut now s).flatMap releases
  releasedOnce : ∀ job ∈ timedOut now s, ∀ fd ∈ heldFds job,
    ((sent r.2).map Prod.fst).count fd = 1

/-! ## One turn of the second loop -/

/-- What the turn for a job does outside. -/
def turn (s : ClientState) (job : LocalJob) : List Effect :=
  (tearDown s job).2 ++ released job ++ [.toErlang .timeout (itoa job.jobId)]

section

variable {s s' : ClientState} {job : LocalJob}

theorem entryOf_eq_some {e : FdJobEntry} :
    entryOf s job = some e ↔ e ∈ s.entries ∧ 0 ≤ job.originSocket ∧ e.fd = job.originSocket := by
  unfold entryOf
  split
  · rename_i hSocket
    rw [ClientState.findEntry_eq_some]
    simp [hSocket]
  · rename_i hSocket
    simp [hSocket]

/-- The tear-down acts on the entry of the job. -/
theorem tearDown_effects (s : ClientState) (job : LocalJob) :
    (tearDown s job).2 = if (entryOf s job).isSome then
      [.epollDel job.originSocket, .close job.originSocket] else [] := by
  unfold tearDown entryOf
  by_cases hSocket : 0 ≤ job.originSocket
  · simp only [hSocket, true_and, if_true]
    split <;> rfl
  · simp [hSocket]

/-- The jobs `gone` have been taken out, with their entries. -/
structure Ended (s s' : ClientState) (gone : List LocalJob) : Prop where
  jobs : ∀ x, x ∈ s'.jobs ↔ x ∈ s.jobs ∧ x ∉ gone
  entries : ∀ e, e ∈ s'.entries ↔ e ∈ s.entries ∧ ∀ job ∈ gone, entryOf s job ≠ some e

theorem ended_turn (hKeys : s.AddrKeys) (hJob : job ∈ s.jobs) :
    Ended s ((releaseResources (tearDown s job).1 job).1.removeJob job) [job] := by
  have hTornKeys : (tearDown s job).1.AddrKeys := by
    intro x hx y hy
    rw [jobs_tearDown] at hx hy
    exact hKeys x hx y hy
  have hTornJob : job ∈ (tearDown s job).1.jobs := by
    rw [jobs_tearDown]
    exact hJob
  have hChanged := releaseResources_changed hTornKeys hTornJob
  constructor
  · intro x
    rw [hChanged.jobs, jobs_tearDown, List.mem_singleton]
    constructor
    · rintro (hNone | ⟨hx, hNe⟩)
      · cases hNone
      · exact ⟨hx, fun hSame => hNe (congrArg LocalJob.addr hSame)⟩
    · rintro ⟨hx, hNe⟩
      exact .inr ⟨hx, fun hSame => hNe (hKeys x hx job hJob hSame)⟩
  · intro e
    rw [hChanged.entries, mem_entries_tearDown]
    simp only [List.not_mem_nil, not_false_iff, and_true, false_or, List.mem_singleton,
      forall_eq, ne_eq, entryOf_eq_some]
    tauto

theorem SweepReady.ended (h : SweepReady s) {gone : List LocalJob} (hEnded : Ended s s' gone) :
    SweepReady s' := by
  have hJobs : ∀ x ∈ s'.jobs, x ∈ s.jobs := fun x hx => ((hEnded.jobs x).mp hx).1
  have hEntries : ∀ e ∈ s'.entries, e ∈ s.entries := fun e he => ((hEnded.entries e).mp he).1
  constructor
  · exact fun x hx y hy => h.addrKeys x (hJobs x hx) y (hJobs y hy)
  · exact fun x hx => h.ids x (hJobs x hx)
  · exact fun x hx => h.distinct x (hJobs x hx)
  · exact fun x hx y hy => h.apart x (hJobs x hx) y (hJobs y hy)
  · exact fun e he x hx => h.index e (hEntries e he) x (hJobs x hx)

/-- The end of some jobs leaves the entry of another one where it was. -/
theorem entryOf_ended (h : SweepReady s) {gone : List LocalJob} (hGone : ∀ x ∈ gone, x ∈ s.jobs)
    (hEnded : Ended s s' gone) (hJob : job ∈ s'.jobs) : entryOf s' job = entryOf s job := by
  obtain ⟨hOld, hNot⟩ := (hEnded.jobs job).mp hJob
  apply Option.ext
  intro e
  rw [entryOf_eq_some, entryOf_eq_some, hEnded.entries]
  constructor
  · rintro ⟨⟨he, -⟩, hSocket⟩
    exact ⟨he, hSocket⟩
  · rintro ⟨he, hSocket, hFd⟩
    refine ⟨⟨he, fun x hx hEntry => hNot ?_⟩, hSocket, hFd⟩
    -- an entry of both would lead to both
    obtain ⟨-, -, hFd'⟩ := entryOf_eq_some.mp hEntry
    have hAddr := h.index e he job hOld hFd
    have hAddr' := h.index e he x (hGone x hx) hFd'
    rw [h.addrKeys job hOld x (hGone x hx) (hAddr.symm.trans hAddr')]
    exact hx

theorem turn_ended (h : SweepReady s) {gone : List LocalJob} (hGone : ∀ x ∈ gone, x ∈ s.jobs)
    (hEnded : Ended s s' gone) (hJob : job ∈ s'.jobs) : turn s' job = turn s job := by
  rw [turn, turn, tearDown_effects, tearDown_effects, entryOf_ended h hGone hEnded hJob]

/-! ## The second loop -/

theorem timeOut_ended (gone : List LocalJob) : ∀ {s : ClientState}, SweepReady s → gone.Nodup →
    (∀ job ∈ gone, job ∈ s.jobs) →
      Ended s (timeOut (gone.map LocalJob.jobId) s).1 gone ∧
        (timeOut (gone.map LocalJob.jobId) s).2 = gone.flatMap (turn s) := by
  induction gone with
  | nil =>
      intro s _ _ _
      exact ⟨⟨fun x => by simp [timeOut], fun e => by simp [timeOut]⟩, rfl⟩
  | cons job rest ih =>
      intro s h hNodup hThere
      have hJob := hThere job List.mem_cons_self
      have hFind : s.findJob job.jobId = some job := ClientState.findJob_eq_some.mpr ⟨hJob, rfl⟩
      have hTurn := ended_turn h.addrKeys hJob
      have hSelf : ∀ x ∈ [job], x ∈ s.jobs := fun x hx => by
        rw [List.mem_singleton.mp hx]
        exact hJob
      have hRest : ∀ x ∈ rest,
          x ∈ ((releaseResources (tearDown s job).1 job).1.removeJob job).jobs := by
        intro x hx
        refine (hTurn.jobs x).mpr ⟨hThere x (List.mem_cons_of_mem _ hx), fun hSame => ?_⟩
        rw [List.mem_singleton.mp hSame] at hx
        exact (List.nodup_cons.mp hNodup).1 hx
      obtain ⟨hEnded, hOut⟩ := ih (h.ended hTurn) (List.nodup_cons.mp hNodup).2 hRest
      simp only [List.map_cons, timeOut, hFind]
      refine ⟨⟨fun x => ?_, fun e => ?_⟩, ?_⟩
      · rw [hEnded.jobs, hTurn.jobs, List.mem_singleton, and_assoc, List.mem_cons, not_or]
      · have hSame : (∀ x ∈ rest, entryOf ((releaseResources (tearDown s job).1 job).1.removeJob
            job) x ≠ some e) ↔ ∀ x ∈ rest, entryOf s x ≠ some e :=
          forall₂_congr fun x hx => by rw [entryOf_ended h hSelf hTurn (hRest x hx)]
        rw [hEnded.entries, hTurn.entries, hSame, List.forall_mem_singleton, and_assoc,
          List.forall_mem_cons]
      · rw [cToErlang_itoa (h.ids job hJob), hOut, List.flatMap_cons]
        refine congrArg _ (List.flatMap_congr fun x hx => ?_)
        exact turn_ended h hSelf hTurn (hRest x hx)

/-! ## What is said and sent -/

theorem said_append (out out' : List Effect) : said (out ++ out') = said out ++ said out' :=
  List.filterMap_append

theorem sent_append (out out' : List Effect) : sent (out ++ out') = sent out ++ sent out' :=
  List.filterMap_append

theorem releaseProvider_talk (jobId : Int) (granted : PendingResource) :
    said (releaseProvider jobId granted) = [] ∧
      sent (releaseProvider jobId granted) = if 0 ≤ granted.providerFd then
        [(granted.providerFd, releaseLine jobId granted.type granted.amount)] else [] := by
  unfold releaseProvider
  split <;> exact ⟨rfl, rfl⟩

theorem released_talk (job : LocalJob) :
    said (released job) = [] ∧ sent (released job) = releases job := by
  unfold released releases held
  induction job.grantedReqs with
  | nil => exact ⟨rfl, rfl⟩
  | cons granted rest ih =>
      obtain ⟨hSaid, hSent⟩ := releaseProvider_talk job.jobId granted
      rw [List.flatMap_cons, said_append, sent_append, ih.1, ih.2, hSaid, hSent]
      by_cases hHeld : 0 ≤ granted.providerFd
      · simp [hHeld]
      · simp [hHeld]

theorem turn_talk (s : ClientState) (job : LocalJob) :
    said (turn s job) = [(.timeout, itoa job.jobId)] ∧ sent (turn s job) = releases job := by
  have hTorn : said (tearDown s job).2 = [] ∧ sent (tearDown s job).2 = [] := by
    unfold tearDown
    split <;> exact ⟨rfl, rfl⟩
  rw [turn, said_append, said_append, sent_append, sent_append, hTorn.1, hTorn.2,
    (released_talk job).1, (released_talk job).2]
  exact ⟨rfl, by simp [sent]⟩

theorem turns_talk (s : ClientState) (gone : List LocalJob) :
    said (gone.flatMap (turn s)) = gone.map (fun job => (.timeout, itoa job.jobId)) ∧
      sent (gone.flatMap (turn s)) = gone.flatMap releases := by
  induction gone with
  | nil => exact ⟨rfl, rfl⟩
  | cons job rest ih =>
      rw [List.flatMap_cons, said_append, sent_append, ih.1, ih.2, (turn_talk s job).1,
        (turn_talk s job).2]
      exact ⟨rfl, rfl⟩

theorem map_fst_releases (job : LocalJob) : (releases job).map Prod.fst = heldFds job := by
  rw [releases, heldFds, List.map_map]
  rfl

/-- No connection is held by two of the jobs, or twice by one of them. -/
theorem nodup_heldFds (h : SweepReady s) {gone : List LocalJob} (hNodup : gone.Nodup)
    (hGone : ∀ x ∈ gone, x ∈ s.jobs) : (gone.flatMap heldFds).Nodup := by
  rw [List.nodup_flatMap]
  refine ⟨fun x hx => h.distinct x (hGone x hx), ?_⟩
  refine hNodup.imp_of_mem fun hx hy hNe => ?_
  exact fun fd hFd hFd' => h.apart _ (hGone _ hx) _ (hGone _ hy) hNe fd hFd hFd'

theorem nodup_jobs (s : ClientState) : s.jobs.Nodup := by
  refine s.tableLocaljobs.distinct.imp fun hNe hSame => ?_
  simp [hSame] at hNe

theorem nodup_reports (h : SweepReady s) {gone : List LocalJob} (hNodup : gone.Nodup)
    (hGone : ∀ x ∈ gone, x ∈ s.jobs) :
    (gone.map fun job => (Instruction.timeout, itoa job.jobId)).Nodup := by
  refine List.Nodup.map_on (fun x hx y hy hSame => ?_) hNodup
  have hText : itoa x.jobId = itoa y.jobId := congrArg Prod.snd hSame
  have hId := itoa_injective (h.ids x (hGone x hx)) (h.ids y (hGone y hy)) hText
  exact ClientState.eq_of_jobId (hGone x hx) (hGone y hy) hId

/-! ## The sweep -/

theorem nodup_timedOut (now : Int) (s : ClientState) : (timedOut now s).Nodup :=
  ((nodup_jobs s).filter _).sublist (List.take_sublist _ _)

theorem mem_timedOut {now : Int} (h : job ∈ timedOut now s) :
    job ∈ s.jobs ∧ expired now job = true :=
  List.mem_filter.mp (List.mem_of_mem_take h)

theorem checkOurjobTimeouts_ended (h : SweepReady s) (now : Int) :
    Ended s (checkOurjobTimeouts now s).1 (timedOut now s) ∧
      (checkOurjobTimeouts now s).2 = (timedOut now s).flatMap (turn s) := by
  have hIds : ((s.jobs.filter (expired now)).map LocalJob.jobId).take 256 =
      (timedOut now s).map LocalJob.jobId := (List.map_take).symm
  rw [checkOurjobTimeouts, hIds]
  exact timeOut_ended _ h (nodup_timedOut now s) fun x hx => (mem_timedOut hx).1

theorem checkOurjobTimeouts_sweeps (h : SweepReady s) (now : Int) :
    Sweeps now s (checkOurjobTimeouts now s) := by
  obtain ⟨hEnded, hOut⟩ := checkOurjobTimeouts_ended h now
  have hNodup := nodup_timedOut now s
  have hGone : ∀ x ∈ timedOut now s, x ∈ s.jobs := fun x hx => (mem_timedOut hx).1
  obtain ⟨hSaid, hSent⟩ := turns_talk s (timedOut now s)
  rw [← hOut] at hSaid hSent
  constructor
  case count => rw [timedOut, List.length_take, Nat.min_comm]
  case jobs =>
    rw [List.perm_ext_iff_of_nodup ?_ (nodup_jobs s)]
    · intro x
      rw [List.mem_append, hEnded.jobs]
      constructor
      · rintro (⟨hx, -⟩ | hx)
        · exact hx
        · exact hGone x hx
      · intro hx
        by_cases hIn : x ∈ timedOut now s
        · exact .inr hIn
        · exact .inl ⟨hx, hIn⟩
    · refine (nodup_jobs _).append hNodup fun x hx hIn => ?_
      exact ((hEnded.jobs x).mp hx).2 hIn
  case granted =>
    intro x hx hNone
    refine (hEnded.jobs x).mpr ⟨hx, fun hIn => ?_⟩
    have hExpired := (mem_timedOut hIn).2
    simp [expired, hNone] at hExpired
  case entries => exact hEnded.entries
  case others =>
    intro x hx e hLeads
    rw [hEnded.entries]
    refine and_iff_left_of_imp fun he y hy hEntry => ?_
    obtain ⟨hOld, hNot⟩ := (hEnded.jobs x).mp hx
    have hAddr := h.index e he y (hGone y hy) (entryOf_eq_some.mp hEntry).2.2
    rw [h.addrKeys x hOld y (hGone y hy) (hLeads.symm.trans hAddr)] at hNot
    exact hNot hy
  case reports => exact hSaid
  case toldOnce =>
    intro x hx
    rw [hSaid]
    exact List.count_eq_one_of_mem (nodup_reports h hNodup hGone) (List.mem_map.mpr ⟨x, hx, rfl⟩)
  case sends => exact hSent
  case releasedOnce =>
    intro x hx fd hFd
    rw [hSent, List.map_flatMap]
    simp only [map_fst_releases]
    exact List.count_eq_one_of_mem (nodup_heldFds h hNodup hGone)
      (List.mem_flatMap.mpr ⟨x, hx, hFd⟩)

/-! ## Sweep after sweep -/

/-- The tables after a sweep. -/
def swept (now : Int) (s : ClientState) : ClientState := (checkOurjobTimeouts now s).1

theorem SweepReady.swept (h : SweepReady s) (now : Int) : SweepReady (swept now s) :=
  h.ended (checkOurjobTimeouts_ended h now).1

/-- A sweep leaves the expired jobs beyond its cap. -/
theorem length_overdue_swept (h : SweepReady s) (now : Int) :
    (overdue now (SweepEffect.swept now s)).length = (overdue now s).length - 256 := by
  have hSweeps := checkOurjobTimeouts_sweeps h now
  have hAll : (timedOut now s).filter (expired now) = timedOut now s :=
    List.filter_eq_self.mpr fun x hx => (mem_timedOut hx).2
  have hPerm := (hSweeps.jobs.filter (expired now)).length_eq
  rw [List.filter_append, List.length_append, hAll, hSweeps.count] at hPerm
  have hLeft : (overdue now (SweepEffect.swept now s)).length +
      min (overdue now s).length 256 = (overdue now s).length := hPerm
  omega

theorem length_overdue_iterate (now : Int) (n : Nat) : ∀ {s : ClientState}, SweepReady s →
    (overdue now ((SweepEffect.swept now)^[n] s)).length = (overdue now s).length - 256 * n := by
  induction n with
  | zero =>
      intro s _
      rw [Function.iterate_zero_apply, Nat.mul_zero, Nat.sub_zero]
  | succ n ih =>
      intro s h
      rw [Function.iterate_succ_apply, ih (h.swept now), length_overdue_swept h now]
      omega

end

/-- **The effect of a timeout sweep.**  In every state with its index in order, a sweep ends
`min (|E|, 256)` of the expired jobs `E` with one JOB_TIMEOUT each and one RELEASE for each
connection they hold, and leaves every other job and its entries alone; `⌈|E| / 256⌉` sweeps
leave no expired job.  In a state that is reached by a run, the timers are the times of the
last progress. -/
theorem sweep_effect {s : ClientState} (hReady : SweepReady s) (now : Int) :
    Sweeps now s (checkOurjobTimeouts now s) ∧
      overdue now ((swept now)^[((overdue now s).length + 255) / 256] s) = [] ∧
      ∀ es, s = run next ClientState.init es → ∀ job ∈ s.jobs,
        (progress ClientState.init es job.addr).getLast? = some job.timer := by
  refine ⟨checkOurjobTimeouts_sweeps hReady now, ?_, ?_⟩
  · rw [← List.length_eq_zero_iff, length_overdue_iterate now _ hReady]
    omega
  · rintro es rfl job hJob
    exact timer_eq_last_progress es hJob

/-- Job 1001 holds a cpu on descriptor 5 and waits for memory on descriptor 6; job 1002 has
its cpu on descriptor 7. -/
def mixed : List ClientEvent :=
  [.erlang "JOB_REQUEST 1001 @10.0.0.1:cpu:1 @10.0.0.2:mem:1\n".toList 0 (tablahashCreate _)
      (.connected 5),
    .line 5 "GRANTED 1001\n".toList 1 (.connected 6),
    .erlang "JOB_REQUEST 1002 @10.0.0.1:cpu:1\n".toList 2 (tablahashCreate _) (.connected 7),
    .line 7 "GRANTED 1002\n".toList 3 .noSocket]

/-- The two jobs after these events. -/
def mixedJobs : List LocalJob :=
  [⟨0, 1001, 6, [⟨"mem".toList, 1, "10.0.0.2".toList, 4200, -1⟩],
      [⟨"cpu".toList, 1, "10.0.0.1".toList, 4200, 5⟩], 1⟩,
    ⟨1, 1002, 7, [], [⟨"cpu".toList, 1, "10.0.0.1".toList, 4200, 7⟩], 3⟩]

/-- The sweep at time 40 ends job 1001. -/
theorem sweep_effect_mixed :
    (overdue 40 (run next ClientState.init mixed)).map
        LocalJob.jobId = [1001] ∧
      Sweeps 40 (run next ClientState.init mixed)
        (checkOurjobTimeouts 40 (run next ClientState.init mixed)) := by
  have hState : (run next ClientState.init mixed).jobs = mixedJobs ∧
      (run next ClientState.init mixed).entries = [⟨6, 0⟩] := by
    decide +kernel
  obtain ⟨hJobs, hEntries⟩ := hState
  have hReady : SweepReady (run next ClientState.init mixed) := by
    constructor
    · unfold ClientState.AddrKeys
      rw [hJobs]
      decide
    all_goals
      rw [hJobs]
      try rw [hEntries]
      decide
  refine ⟨?_, (sweep_effect hReady 40).1⟩
  rw [overdue, hJobs]
  decide

end ResourceAgent.Ports.SweepEffect
