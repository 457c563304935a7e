import ResourceAgent.Ports.ClientMoves

/-!
# What a handler does to the jobs

A message or an event on a connection concerns at most one job: a JOB_REQUEST stores it,
a GRANTED advances it, a JOB_RELEASE, a rejection or a disconnect ends it.  `requests`,
`advances` and `ends` name that job, and `Outcome` says what becomes of `table_localjobs`
(`clientStep_outcome`), also where a JOB_REQUEST brings an id that is there already.
-/

namespace ResourceAgent.Ports.Outcomes

open ResourceAgent.Ports.HashTable
open ResourceAgent.Ports.Records
open ResourceAgent.Ports.Wire
open ResourceAgent.Ports.Client
open ResourceAgent.Verified.CText

/-! ## The job a handler is about -/

/-- The id of the job a JOB_REQUEST stores. -/
def requests : ClientEvent → Option Int
  | .erlang instruction _ _ _ =>
      match parseErlang instruction with
      | .jobRequest jobId (_ :: _) => some (atoi jobId)
      | _ => none
  | _ => none

/-- The id of the job a GRANTED advances. -/
def advances (s : ClientState) : ClientEvent → Option Int
  | .line fd instruction _ _ =>
      match parseRemote instruction with
      | .granted jobId =>
          if (s.owner fd).map LocalJob.jobId = some jobId then some jobId else none
      | _ => none
  | _ => none

/-- The id of the job that a JOB_RELEASE, a rejection or a disconnect ends. -/
def ends (s : ClientState) : ClientEvent → Option Int
  | .erlang instruction _ _ _ =>
      match parseErlang instruction with
      | .jobRelease jobId => (s.findJob (atoi jobId)).map LocalJob.jobId
      | _ => none
  | .line fd instruction _ _ =>
      match parseRemote instruction with
      | .reject => (s.owner fd).map LocalJob.jobId
      | _ => none
  | .disconnect fd => (s.owner fd).map LocalJob.jobId
  | _ => none

/-- The part of tidiness that survives a JOB_REQUEST for an id already there. -/
structure Placed (s : ClientState) : Prop where
  addrKeys : s.AddrKeys
  allocated : ∀ job ∈ s.jobs, job.addr < s.brk
  ids : ∀ job ∈ s.jobs, IsInt job.jobId

/-- What a handler does to `table_localjobs`. -/
inductive Outcome (s : ClientState) (e : ClientEvent) (s' : ClientState) : Prop where
  | kept (hJobs : s'.jobs = s.jobs) (hBrk : s'.brk = s.brk)
  | requested (job : LocalJob) (hRequested : requests e = some job.jobId)
      (hId : IsInt job.jobId) (hAddr : job.addr = s.brk) (hBrk : s'.brk = s.brk + 1)
      (hJobs : ∀ x, x ∈ s'.jobs ↔ x = job ∨ (x ∈ s.jobs ∧ x.jobId ≠ job.jobId))
  | advanced (old job : LocalJob) (hOld : old ∈ s.jobs)
      (hAdvanced : advances s e = some old.jobId) (hAddr : job.addr = old.addr)
      (hId : job.jobId = old.jobId) (hBrk : s'.brk = s.brk)
      (hJobs : ∀ x, x ∈ s'.jobs ↔ x = job ∨ (x ∈ s.jobs ∧ x.addr ≠ old.addr))
  | ended (old : LocalJob) (hOld : old ∈ s.jobs) (hEnded : ends s e = some old.jobId)
      (hBrk : s'.brk = s.brk) (hJobs : ∀ x, x ∈ s'.jobs ↔ x ∈ s.jobs ∧ x.addr ≠ old.addr)

section

variable {s s' : ClientState} {e : ClientEvent}

theorem owner_mem {fd : Int} {job : LocalJob} (h : s.owner fd = some job) : job ∈ s.jobs := by
  obtain ⟨entry, -, hAt⟩ := Option.bind_eq_some_iff.mp h
  exact List.mem_of_find?_eq_some hAt

/-- The common end of a rejected, disconnected or released job. -/
theorem outcome_ended (hPlaced : Placed s) {s₀ : ClientState} {old : LocalJob}
    (hOld : old ∈ s.jobs) (hJobs : s₀.jobs = s.jobs) (hBrk : s₀.brk = s.brk)
    (hEnded : ends s e = some old.jobId) :
    Outcome s e ((releaseResources s₀ old).1.removeJob old) := by
  have hKeys : s₀.AddrKeys := by
    intro x hx y hy
    rw [hJobs] at hx hy
    exact hPlaced.addrKeys x hx y hy
  have hChanged := releaseResources_changed hKeys (hJobs ▸ hOld)
  refine .ended old hOld hEnded (hChanged.brk.trans hBrk) fun x => ?_
  rw [hChanged.jobs, hJobs]
  simp

/-- A GRANTED for the job of its connection. -/
theorem outcome_advanced (hPlaced : Placed s) {fd now : Int} {dial : Dial} {old : LocalJob}
    (hOld : old ∈ s.jobs) (hAdvanced : advances s e = some old.jobId) :
    Outcome s e (askForNextResource dial
      ((s.writeJob (LocalJob.advance old fd now)).removeEntry fd)
      (LocalJob.advance old fd now)).1 := by
  have hAddr := LocalJob.advance_addr old fd now
  have hId := LocalJob.advance_jobId old fd now
  have hDropped := advance_changed hPlaced.addrKeys hOld fd now
  have hKeys := hDropped.addrKeys hPlaced.addrKeys (by rintro x ⟨⟩; exact hAddr)
  have hInt : IsInt (LocalJob.advance old fd now).jobId := by
    rw [hId]
    exact hPlaced.ids old hOld
  have hAsked := (askForNextResource_changed hKeys hDropped.mem_self hInt dial).1
  have hChanged := hDropped.then hAddr hAsked
  refine .advanced old (asked dial (LocalJob.advance old fd now)).job hOld hAdvanced ?_ ?_
    hChanged.brk fun x => ?_
  · rw [asked_addr, hAddr]
  · rw [asked_jobId, hId]
  · rw [hChanged.jobs, Option.some.injEq, eq_comm]

/-- A job stored at a new address, in the place of another one of its id or not. -/
theorem addrKeys_insertJob (hPlaced : Placed s) {job : LocalJob} (hAddr : job.addr = s.brk) :
    (s.insertJob job).AddrKeys := by
  -- the new address is above those of the jobs that stay
  have hOther : ∀ x ∈ (s.insertJob job).jobs, x ≠ job → x ∈ s.jobs ∧ x.addr ≠ job.addr := by
    intro x hx hNe
    rcases ClientState.mem_jobs_insertJob.mp hx with hSame | ⟨hOld, -⟩
    · exact absurd hSame hNe
    · have := hPlaced.allocated x hOld
      exact ⟨hOld, by omega⟩
  intro x hx y hy hSame
  by_cases hxJob : x = job
  · by_contra hNe
    exact (hOther y hy fun hyJob => hNe (hxJob.trans hyJob.symm)).2 (by rw [← hSame, hxJob])
  · by_cases hyJob : y = job
    · exact absurd (by rw [hSame, hyJob]) (hOther x hx hxJob).2
    · exact hPlaced.addrKeys x (hOther x hx hxJob).1 y (hOther y hy hyJob).1 hSame

/-- A JOB_REQUEST with destinations, its id known or not. -/
theorem outcome_requested (hPlaced : Placed s) {dial : Dial} {job : LocalJob}
    (hAddr : job.addr = s.brk) (hId : IsInt job.jobId) (hRequested : requests e = some job.jobId) :
    Outcome s e (askForNextResource dial (s.insertJob job) job).1 := by
  have hJob : job ∈ (s.insertJob job).jobs := ClientState.mem_jobs_insertJob.mpr (.inl rfl)
  have hKeys := addrKeys_insertJob hPlaced hAddr
  have hChanged := (askForNextResource_changed hKeys hJob hId dial).1
  refine .requested (asked dial job).job ?_ ?_ ?_ hChanged.brk fun x => ?_
  · rw [asked_jobId]
    exact hRequested
  · rw [asked_jobId]
    exact hId
  · rw [asked_addr]
    exact hAddr
  · rw [hChanged.jobs, Option.some.injEq, eq_comm, asked_jobId]
    refine or_congr Iff.rfl ?_
    rw [ClientState.mem_jobs_insertJob]
    constructor
    · rintro ⟨rfl | hOld, hNe⟩
      · exact absurd rfl hNe
      · exact hOld
    · intro hOld
      have := hPlaced.allocated x hOld.1
      exact ⟨.inr hOld, by omega⟩

theorem erlangToC_outcome (hPlaced : Placed s) (instruction : Text) (timer : Int)
    (nodes : Table nodeCallbacks) (dial : Dial) :
    Outcome s (.erlang instruction timer nodes dial)
      (erlangToC nodes timer dial s (parseErlang instruction)).1 := by
  cases hParse : parseErlang instruction with
  | jobRequest jobId destinations =>
      cases destinations with
      | nil => exact .kept rfl rfl
      | cons token tokens =>
          refine outcome_requested hPlaced rfl (atoi_isInt jobId) ?_
          simp only [requests, hParse]
          rfl
  | jobRelease jobId =>
      simp only [erlangToC]
      cases hFind : s.findJob (atoi jobId) with
      | none => exact .kept rfl rfl
      | some job =>
          refine outcome_ended hPlaced (ClientState.findJob_eq_some.mp hFind).1
            (jobs_tearDown s job) (brk_tearDown s job) ?_
          simp only [ends, hParse, hFind, Option.map_some]
  | jobStatus jobId =>
      refine .kept ?_ ?_
      · simp only [erlangToC]
        split
        · rfl
        · split <;> rfl
      · simp only [erlangToC]
        split
        · rfl
        · split <;> rfl
  | getNodes => exact .kept rfl rfl
  | ignored => exact .kept rfl rfl

theorem clientToMyserver_outcome (hPlaced : Placed s) (fd : Int) (instruction : Text) (now : Int)
    (dial : Dial) :
    Outcome s (.line fd instruction now dial)
      (clientToMyserver now dial s fd (parseRemote instruction)).1 := by
  cases hParse : parseRemote instruction with
  | granted jobId =>
      simp only [clientToMyserver]
      cases hOwner : s.owner fd with
      | none => exact .kept rfl rfl
      | some job =>
          by_cases hId : job.jobId = jobId
          · simp only [hId, if_true]
            refine outcome_advanced hPlaced (owner_mem hOwner) ?_
            simp only [advances, hParse, hOwner, Option.map_some, hId, if_true]
          · simp only [hId, if_false]
            exact .kept rfl rfl
  | reject =>
      simp only [clientToMyserver]
      cases hOwner : s.owner fd with
      | none => exact .kept rfl rfl
      | some job =>
          refine outcome_ended hPlaced (owner_mem hOwner) rfl rfl ?_
          simp only [ends, hParse, hOwner, Option.map_some]
  | _ => exact .kept rfl rfl

/-- **What a handler does to the jobs**, the sweep apart. -/
theorem clientStep_outcome (hPlaced : Placed s) (hSweep : ∀ now, e ≠ .sweep now) :
    Outcome s e (clientStep s e).1 := by
  cases e with
  | erlang instruction timer nodes dial =>
      exact erlangToC_outcome hPlaced instruction timer nodes dial
  | line fd instruction now dial => exact clientToMyserver_outcome hPlaced fd instruction now dial
  | sendRequest fd =>
      refine .kept ?_ ?_
      · simp only [clientStep, sendRequest]
        split
        · rfl
        · split <;> rfl
      · simp only [clientStep, sendRequest]
        split
        · rfl
        · split <;> rfl
  | disconnect fd =>
      simp only [clientStep, handleOutboundDisconnect]
      cases hOwner : s.owner fd with
      | none => exact .kept rfl rfl
      | some job =>
          refine outcome_ended hPlaced (owner_mem hOwner) rfl rfl ?_
          simp only [ends, hOwner, Option.map_some]
  | sweep now => exact absurd rfl (hSweep now)

/-- Jobs stay placed when at most one of them is new, at an address of its own. -/
theorem Placed.of_new (hPlaced : Placed s) (hBrk : s.brk ≤ s'.brk) (new : Option LocalJob)
    (hJobs : ∀ x ∈ s'.jobs, new = some x ∨ (x ∈ s.jobs ∧ ∀ y, new = some y → x.addr ≠ y.addr))
    (hNew : ∀ x, new = some x → x.addr < s'.brk ∧ IsInt x.jobId) : Placed s' where
  addrKeys x hx y hy hSame := by
    rcases hJobs x hx with hxNew | ⟨hxOld, hxNe⟩
    · rcases hJobs y hy with hyNew | ⟨-, hyNe⟩
      · exact Option.some.inj (hxNew.symm.trans hyNew)
      · exact absurd hSame.symm (hyNe x hxNew)
    · rcases hJobs y hy with hyNew | ⟨hyOld, -⟩
      · exact absurd hSame (hxNe y hyNew)
      · exact hPlaced.addrKeys x hxOld y hyOld hSame
  allocated x hx := by
    rcases hJobs x hx with hxNew | ⟨hxOld, -⟩
    · exact (hNew x hxNew).1
    · exact Nat.lt_of_lt_of_le (hPlaced.allocated x hxOld) hBrk
  ids x hx := by
    rcases hJobs x hx with hxNew | ⟨hxOld, -⟩
    · exact (hNew x hxNew).2
    · exact hPlaced.ids x hxOld

/-- Jobs that stay are placed as they were. -/
theorem Placed.of_subset (hPlaced : Placed s) (hBrk : s'.brk = s.brk)
    (hJobs : ∀ x ∈ s'.jobs, x ∈ s.jobs) : Placed s' := by
  refine hPlaced.of_new (Nat.le_of_eq hBrk.symm) none (fun x hx => ?_) (by simp)
  exact .inr ⟨hJobs x hx, by simp⟩

theorem Outcome.placed (h : Outcome s e s') (hPlaced : Placed s) : Placed s' := by
  cases h with
  | kept hJobs hBrk => exact hPlaced.of_subset hBrk fun x hx => hJobs ▸ hx
  | requested job _ hId hAddr hBrk hJobs =>
      refine hPlaced.of_new (by omega) (some job) (fun x hx => ?_) ?_
      · rcases (hJobs x).mp hx with rfl | ⟨hOld, -⟩
        · exact .inl rfl
        · refine .inr ⟨hOld, ?_⟩
          rintro y ⟨⟩
          have := hPlaced.allocated x hOld
          omega
      · rintro x ⟨⟩
        exact ⟨by omega, hId⟩
  | advanced old job hOld _ hAddr hId hBrk hJobs =>
      refine hPlaced.of_new (Nat.le_of_eq hBrk.symm) (some job) (fun x hx => ?_) ?_
      · rcases (hJobs x).mp hx with rfl | ⟨hKept, hNe⟩
        · exact .inl rfl
        · refine .inr ⟨hKept, ?_⟩
          rintro y ⟨⟩
          rw [hAddr]
          exact hNe
      · rintro x ⟨⟩
        rw [hAddr, hBrk, hId]
        exact ⟨hPlaced.allocated old hOld, hPlaced.ids old hOld⟩
  | ended old hOld _ hBrk hJobs => exact hPlaced.of_subset hBrk fun x hx => ((hJobs x).mp hx).1

/-- A job that a handler neither brings nor advances was there before. -/
theorem Outcome.mem_of_mem (h : Outcome s e s') {x : LocalJob} (hx : x ∈ s'.jobs)
    (hRequested : requests e ≠ some x.jobId) (hAdvanced : advances s e ≠ some x.jobId) :
    x ∈ s.jobs := by
  cases h with
  | kept hJobs _ => exact hJobs ▸ hx
  | requested job hReq _ _ _ hJobs =>
      rcases (hJobs x).mp hx with rfl | ⟨hOld, -⟩
      · exact absurd hReq hRequested
      · exact hOld
  | advanced old job _ hAdv _ hId _ hJobs =>
      rcases (hJobs x).mp hx with rfl | ⟨hOld, -⟩
      · rw [hId] at hAdvanced
        exact absurd hAdv hAdvanced
      · exact hOld
  | ended old _ _ _ hJobs => exact ((hJobs x).mp hx).1

/-- A job that a handler neither replaces nor ends is there afterwards, and the same if
the handler does not advance it either. -/
theorem Outcome.stays (h : Outcome s e s') (hPlaced : Placed s) {x : LocalJob} (hx : x ∈ s.jobs)
    (hRequested : requests e ≠ some x.jobId) (hEnded : ends s e ≠ some x.jobId) :
    ∃ x' ∈ s'.jobs, x'.addr = x.addr ∧ x'.jobId = x.jobId ∧
      (advances s e ≠ some x.jobId → x' = x) := by
  cases h with
  | kept hJobs _ => exact ⟨x, hJobs ▸ hx, rfl, rfl, fun _ => rfl⟩
  | requested job hReq _ _ _ hJobs =>
      refine ⟨x, (hJobs x).mpr (.inr ⟨hx, fun hSame => hRequested ?_⟩), rfl, rfl, fun _ => rfl⟩
      rw [hReq, hSame]
  | advanced old job hOld hAdv hAddr hId _ hJobs =>
      by_cases hSame : x.addr = old.addr
      · have hxOld := hPlaced.addrKeys x hx old hOld hSame
        subst hxOld
        exact ⟨job, (hJobs job).mpr (.inl rfl), hAddr, hId, fun hNot => absurd hAdv hNot⟩
      · exact ⟨x, (hJobs x).mpr (.inr ⟨hx, hSame⟩), rfl, rfl, fun _ => rfl⟩
  | ended old hOld hEnd _ hJobs =>
      refine ⟨x, (hJobs x).mpr ⟨hx, fun hSame => hEnded ?_⟩, rfl, rfl, fun _ => rfl⟩
      rw [hEnd, hPlaced.addrKeys x hx old hOld hSame]

end

end ResourceAgent.Ports.Outcomes
