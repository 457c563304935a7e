import ResourceAgent.Ports.Outcomes

/-!
# The shape of a client-side step

`Outcome` says which job a handler is about.  `Shape` says what it does to both tables, and
in how many ways: jobs and entries only go, or one job is stored and asks for its first
resource, or one job is advanced and asks for its next.  It holds from every placed state, so
for runs in which ids are asked for again and dials fail, and the invariants of such runs are
proved from it.
-/

namespace ResourceAgent.Ports.ClientShape

open ResourceAgent.Ports.HashTable
open ResourceAgent.Ports.Records
open ResourceAgent.Ports.Wire
open ResourceAgent.Ports.Client
open ResourceAgent.Ports.Outcomes
open ResourceAgent.Verified.CText

/-! ## The job of an event -/

/-- The job a JOB_REQUEST stores. -/
def stored (s : ClientState) : ClientEvent → Option LocalJob
  | .erlang instruction timer nodes _ =>
      match parseErlang instruction with
      | .jobRequest jobId (token :: tokens) =>
          some (makeJob s (atoi jobId) (parseDestinations nodes (token :: tokens)) timer)
      | _ => none
  | _ => none

/-- The job a GRANTED is accepted for: the job of its connection, if it names it. -/
def accepted (s : ClientState) : ClientEvent → Option LocalJob
  | .line fd instruction _ _ =>
      match parseRemote instruction with
      | .granted jobId => (s.owner fd).filter fun job => job.jobId == jobId
      | _ => none
  | _ => none

/-- No job and no entry is new. -/
structure Shrinks (s s' : ClientState) : Prop where
  jobs : ∀ x ∈ s'.jobs, x ∈ s.jobs
  entries : ∀ e ∈ s'.entries, e ∈ s.entries
  brk : s'.brk = s.brk

/-- The three things a handler can do: it ends jobs or does nothing to them, it stores a job
that asks for its first resource, or it advances one that asks for its next. -/
inductive Shape (s : ClientState) (e : ClientEvent) (s' : ClientState) (out : List Effect) :
    Prop where
  | shrinks (hShrinks : Shrinks s s') (hStored : stored s e = none)
      (hAccepted : accepted s e = none)
      (hOut : ∀ text, .toErlang .granted text ∈ out →
        ∃ job ∈ s.jobs, job.jobId = atoi text ∧ job.nextReq = [])
  | requested (job : LocalJob) (dial : Dial) (hStored : stored s e = some job)
      (hAccepted : accepted s e = none) (hAddr : job.addr = s.brk) (hId : IsInt job.jobId)
      (hBare : job.grantedReqs = [])
      (hChanged : Changed (s.insertJob job) s' job.addr (some (asked dial job).job)
        (asked dial job).dropped (asked dial job).added)
      (hOut : out = (asked dial job).out)
  | advanced (fd : Int) (instruction : Text) (now : Int) (dial : Dial) (old : LocalJob)
      (hEvent : e = .line fd instruction now dial) (hStored : stored s e = none)
      (hAccepted : accepted s e = some old) (hOwner : s.owner fd = some old)
      (hChanged : Changed s s' old.addr (some (asked dial (LocalJob.advance old fd now)).job)
        (fd :: (asked dial (LocalJob.advance old fd now)).dropped)
        (asked dial (LocalJob.advance old fd now)).added)
      (hOut : out = .epollDel fd :: (asked dial (LocalJob.advance old fd now)).out)

section

variable {s s' : ClientState} {x : LocalJob}

theorem accepted_eq_some {fd : Int} {instruction : Text} {now : Int} {dial : Dial}
    {jobId : Int} (hParse : parseRemote instruction = .granted jobId) {job : LocalJob} :
    accepted s (.line fd instruction now dial) = some job ↔
      s.owner fd = some job ∧ job.jobId = jobId := by
  simp only [accepted, hParse, Option.filter_eq_some_iff, beq_iff_eq]

theorem accepted_mem {e : ClientEvent} {job : LocalJob} (h : accepted s e = some job) :
    job ∈ s.jobs := by
  unfold accepted at h
  split at h
  · split at h
    · exact owner_mem (Option.filter_eq_some_iff.mp h).1
    · cases h
  · cases h

theorem Shrinks.refl (s : ClientState) : Shrinks s s := ⟨fun _ hx => hx, fun _ he => he, rfl⟩

theorem Shrinks.trans {s₁ s₂ s₃ : ClientState} (h : Shrinks s₁ s₂) (h' : Shrinks s₂ s₃) :
    Shrinks s₁ s₃ :=
  ⟨fun x hx => h.jobs x (h'.jobs x hx), fun e he => h.entries e (h'.entries e he),
    h'.brk.trans h.brk⟩

theorem Shrinks.placed (h : Shrinks s s') (hPlaced : Placed s) : Placed s' :=
  hPlaced.of_subset h.brk h.jobs

/-- What a job holds is released, and the job is freed. -/
theorem shrinks_end (hPlaced : Placed s) {job : LocalJob} (hJob : job ∈ s.jobs)
    {s₀ : ClientState} (hJobs : s₀.jobs = s.jobs) (hEntries : ∀ e ∈ s₀.entries, e ∈ s.entries)
    (hBrk : s₀.brk = s.brk) : Shrinks s ((releaseResources s₀ job).1.removeJob job) := by
  have hKeys : s₀.AddrKeys := by
    intro x hx y hy
    rw [hJobs] at hx hy
    exact hPlaced.addrKeys x hx y hy
  have hChanged := releaseResources_changed hKeys (hJobs ▸ hJob)
  constructor
  · intro x hx
    rcases (hChanged.jobs x).mp hx with hNone | ⟨hOld, -⟩
    · cases hNone
    · exact hJobs ▸ hOld
  · intro e he
    rcases (hChanged.entries e).mp he with hNone | ⟨hOld, -⟩
    · cases hNone
    · exact hEntries e hOld
  · exact hChanged.brk.trans hBrk

/-- The end that JOB_RELEASE and a timeout make. -/
theorem shrinks_tearDown (hPlaced : Placed s) {job : LocalJob} (hJob : job ∈ s.jobs) :
    Shrinks s ((releaseResources (tearDown s job).1 job).1.removeJob job) :=
  shrinks_end hPlaced hJob (jobs_tearDown s job) (fun _ he => (mem_entries_tearDown.mp he).1)
    (brk_tearDown s job)

/-- A GRANTED for the job of its connection, which asks for the next resource. -/
theorem granted_changed (hPlaced : Placed s) {fd : Int} {job : LocalJob}
    (hOwner : s.owner fd = some job) (now : Int) (dial : Dial) :
    Changed s (askForNextResource dial ((s.writeJob (LocalJob.advance job fd now)).removeEntry fd)
        (LocalJob.advance job fd now)).1 job.addr
        (some (asked dial (LocalJob.advance job fd now)).job)
        (fd :: (asked dial (LocalJob.advance job fd now)).dropped)
        (asked dial (LocalJob.advance job fd now)).added ∧
      (askForNextResource dial ((s.writeJob (LocalJob.advance job fd now)).removeEntry fd)
        (LocalJob.advance job fd now)).2 = (asked dial (LocalJob.advance job fd now)).out := by
  have hJob := owner_mem hOwner
  have hAddr := LocalJob.advance_addr job fd now
  have hDropped := advance_changed hPlaced.addrKeys hJob fd now
  have hKeys := hDropped.addrKeys hPlaced.addrKeys (by rintro x ⟨⟩; exact hAddr)
  have hInt : IsInt (LocalJob.advance job fd now).jobId := by
    rw [LocalJob.advance_jobId]
    exact hPlaced.ids job hJob
  obtain ⟨hAsked, hOut⟩ := askForNextResource_changed hKeys hDropped.mem_self hInt dial
  exact ⟨hDropped.then hAddr hAsked, hOut⟩

/-- A JOB_REQUEST with destinations: the job is stored and asks. -/
theorem requested_changed (hPlaced : Placed s) {job : LocalJob} (hAddr : job.addr = s.brk)
    (hId : IsInt job.jobId) (dial : Dial) :
    Changed (s.insertJob job) (askForNextResource dial (s.insertJob job) job).1 job.addr
        (some (asked dial job).job) (asked dial job).dropped (asked dial job).added ∧
      (askForNextResource dial (s.insertJob job) job).2 = (asked dial job).out :=
  askForNextResource_changed (addrKeys_insertJob hPlaced hAddr)
    (ClientState.mem_jobs_insertJob.mpr (.inl rfl)) hId dial

/-! ## What is said about a grant -/

theorem cToErlang_granted {instruction : Instruction} {jobId text : Text}
    (h : .toErlang .granted text ∈ cToErlang instruction jobId) :
    instruction = .granted ∧ text = jobId := by
  unfold cToErlang at h
  split at h
  · cases h
  · cases List.mem_singleton.mp h
    exact ⟨rfl, rfl⟩

theorem toErlang_not_mem_released (instruction : Instruction) (text : Text) (job : LocalJob) :
    .toErlang instruction text ∉ released job := by
  intro h
  obtain ⟨granted, -, hMem⟩ := List.mem_flatMap.mp h
  unfold releaseProvider at hMem
  split at hMem <;> simp at hMem

theorem toErlang_not_mem_tearDown (instruction : Instruction) (text : Text) (s : ClientState)
    (job : LocalJob) : .toErlang instruction text ∉ (tearDown s job).2 := by
  unfold tearDown
  split <;> simp

theorem asked_granted {dial : Dial} {job : LocalJob} {text : Text}
    (h : .toErlang .granted text ∈ (asked dial job).out) :
    job.nextReq = [] ∧ text = itoa job.jobId := by
  cases hNext : job.nextReq with
  | nil =>
      simp only [asked, hNext, List.mem_singleton] at h
      cases h
      exact ⟨rfl, rfl⟩
  | cons req rest =>
      cases dial with
      | _ => simp [asked, hNext] at h

/-! ## Every handler has one of the shapes -/

theorem timeOut_shrinks (ids : List Int) : ∀ {s : ClientState}, Placed s →
    Shrinks s (timeOut ids s).1 ∧
      ∀ text, .toErlang .granted text ∉ (timeOut ids s).2 := by
  induction ids with
  | nil => exact fun _ => ⟨.refl _, fun _ => List.not_mem_nil⟩
  | cons jobId ids ih =>
      intro s hPlaced
      cases hFind : s.findJob jobId with
      | none =>
          simp only [timeOut, hFind]
          exact ih hPlaced
      | some job =>
          have hJob := (ClientState.findJob_eq_some.mp hFind).1
          have hEnd := shrinks_tearDown hPlaced hJob
          obtain ⟨hShrinks, hSilent⟩ := ih (hEnd.placed hPlaced)
          simp only [timeOut, hFind]
          refine ⟨hEnd.trans hShrinks, fun text hText => ?_⟩
          simp only [List.mem_append] at hText
          rcases hText with ((hText | hText) | hText) | hText
          · exact toErlang_not_mem_tearDown _ _ s job hText
          · exact toErlang_not_mem_released _ _ job hText
          · cases (cToErlang_granted hText).1
          · exact hSilent text hText

/-- A rejection or a disconnect. -/
theorem disconnect_shrinks (hPlaced : Placed s) (fd : Int) :
    Shrinks s (handleOutboundDisconnect s fd).1 ∧
      ∀ text, .toErlang .granted text ∉ (handleOutboundDisconnect s fd).2 := by
  unfold handleOutboundDisconnect
  cases hOwner : s.owner fd with
  | none => exact ⟨.refl s, fun _ => List.not_mem_nil⟩
  | some job =>
      refine ⟨shrinks_end hPlaced (owner_mem hOwner) (rfl : (s.removeEntry fd).jobs = s.jobs)
        (fun _ he => (ClientState.mem_entries_removeEntry.mp he).1) rfl, fun text hText => ?_⟩
      rcases List.mem_append.mp hText with hText | hText
      · exact toErlang_not_mem_released _ _ job hText
      · cases (cToErlang_granted hText).1

theorem erlang_shape (hPlaced : Placed s) (instruction : Text) (timer : Int)
    (nodes : Table nodeCallbacks) (dial : Dial) :
    Shape s (.erlang instruction timer nodes dial)
      (clientStep s (.erlang instruction timer nodes dial)).1
      (clientStep s (.erlang instruction timer nodes dial)).2 := by
  simp only [clientStep]
  cases hParse : parseErlang instruction with
  | jobRequest jobId destinations =>
      cases destinations with
      | nil =>
          refine .shrinks (.refl s) (by simp only [stored, hParse]) rfl fun text hText => ?_
          cases (cToErlang_granted hText).1
      | cons token tokens =>
          obtain ⟨hChanged, hOut⟩ := requested_changed hPlaced
            (rfl : (makeJob s (atoi jobId) (parseDestinations nodes (token :: tokens))
              timer).addr = s.brk) (atoi_isInt jobId) dial
          exact .requested _ dial (by simp only [stored, hParse]) rfl rfl (atoi_isInt jobId) rfl
            hChanged hOut
  | jobRelease jobId =>
      have hStored : stored s (.erlang instruction timer nodes dial) = none := by
        simp only [stored, hParse]
      simp only [erlangToC]
      cases hFind : s.findJob (atoi jobId) with
      | none => exact .shrinks (.refl s) hStored rfl fun text hText => by cases hText
      | some job =>
          have hJob := (ClientState.findJob_eq_some.mp hFind).1
          refine .shrinks (shrinks_tearDown hPlaced hJob) hStored rfl fun text hText => ?_
          rcases List.mem_append.mp hText with hText | hText
          · exact absurd hText (toErlang_not_mem_tearDown _ _ s job)
          · exact absurd hText (toErlang_not_mem_released _ _ job)
  | jobStatus jobId =>
      have hStored : stored s (.erlang instruction timer nodes dial) = none := by
        simp only [stored, hParse]
      simp only [erlangToC]
      cases hFind : s.findJob (atoi jobId) with
      | none =>
          refine .shrinks (.refl s) hStored rfl fun text hText => ?_
          cases (cToErlang_granted hText).1
      | some job =>
          obtain ⟨hJob, hId⟩ := ClientState.findJob_eq_some.mp hFind
          by_cases hNext : job.nextReq = []
          · simp only [hNext, if_true]
            refine .shrinks (.refl s) hStored rfl fun text hText => ⟨job, hJob, ?_, hNext⟩
            rw [(cToErlang_granted hText).2]
            exact hId
          · simp only [hNext, if_false]
            refine .shrinks (.refl s) hStored rfl fun text hText => ?_
            cases (cToErlang_granted hText).1
  | getNodes =>
      refine .shrinks (.refl s) (by simp only [stored, hParse]) rfl fun text hText => ?_
      cases List.mem_singleton.mp hText
  | ignored =>
      exact .shrinks (.refl s) (by simp only [stored, hParse]) rfl fun text hText => by
        cases hText

theorem line_shape (hPlaced : Placed s) (fd : Int) (instruction : Text) (now : Int) (dial : Dial) :
    Shape s (.line fd instruction now dial) (clientStep s (.line fd instruction now dial)).1
      (clientStep s (.line fd instruction now dial)).2 := by
  have hIdle : accepted s (.line fd instruction now dial) = none →
      Shape s (.line fd instruction now dial) s [] :=
    fun hAccepted => .shrinks (.refl s) rfl hAccepted fun text hText => by cases hText
  simp only [clientStep]
  cases hParse : parseRemote instruction with
  | granted jobId =>
      simp only [clientToMyserver]
      cases hOwner : s.owner fd with
      | none =>
          apply hIdle
          simp only [accepted, hParse, hOwner, Option.filter_none]
      | some job =>
          by_cases hId : job.jobId = jobId
          · simp only [hId, if_true]
            obtain ⟨hChanged, hOut⟩ := granted_changed hPlaced hOwner now dial
            rw [hOut]
            exact .advanced fd instruction now dial job rfl rfl
              ((accepted_eq_some hParse).mpr ⟨hOwner, hId⟩) hOwner hChanged rfl
          · simp only [hId, if_false]
            apply hIdle
            simp [accepted, hParse, hOwner, hId]
  | reject =>
      obtain ⟨hShrinks, hSilent⟩ := disconnect_shrinks hPlaced fd
      refine .shrinks hShrinks rfl (by simp only [accepted, hParse]) fun text hText => ?_
      exact absurd hText (hSilent text)
  | reserve jobId resource amount => exact hIdle (by simp only [accepted, hParse])
  | release => exact hIdle (by simp only [accepted, hParse])
  | ignored => exact hIdle (by simp only [accepted, hParse])

/-- **Every handler has one of the shapes.** -/
theorem clientStep_shape (hPlaced : Placed s) (e : ClientEvent) :
    Shape s e (clientStep s e).1 (clientStep s e).2 := by
  cases e with
  | erlang instruction timer nodes dial => exact erlang_shape hPlaced instruction timer nodes dial
  | line fd instruction now dial => exact line_shape hPlaced fd instruction now dial
  | sendRequest fd =>
      simp only [clientStep, sendRequest]
      split
      · exact .shrinks (.refl s) rfl rfl fun text hText => by cases hText
      · split
        · exact .shrinks (.refl s) rfl rfl fun text hText => by cases hText
        · exact .shrinks (.refl s) rfl rfl fun text hText => by simp at hText
  | disconnect fd =>
      obtain ⟨hShrinks, hSilent⟩ := disconnect_shrinks hPlaced fd
      exact .shrinks hShrinks rfl rfl fun text hText => absurd hText (hSilent text)
  | sweep now =>
      obtain ⟨hShrinks, hSilent⟩ := timeOut_shrinks
        (((s.jobs.filter (expired now)).map LocalJob.jobId).take 256) hPlaced
      exact .shrinks hShrinks rfl rfl fun text hText => absurd hText (hSilent text)

/-- Steps keep jobs placed. -/
theorem placed_step (hPlaced : Placed s) (e : ClientEvent) : Placed (clientStep s e).1 := by
  cases e with
  | sweep now => exact (timeOut_shrinks _ hPlaced).1.placed hPlaced
  | _ => exact (clientStep_outcome hPlaced (by rintro now ⟨⟩)).placed hPlaced

/-- Jobs are placed, and the addresses in the index were handed out. -/
structure Rooted (s : ClientState) : Prop where
  placed : Placed s
  allocated : ∀ e ∈ s.entries, e.job < s.brk

theorem rooted_init : Rooted ClientState.init := by
  refine ⟨⟨?_, ?_, ?_⟩, ?_⟩ <;>
    simp [ClientState.AddrKeys, ClientState.jobs, ClientState.entries, ClientState.init]

/-- One job changes, and the entries that are new lead to it. -/
theorem allocated_changed {addr : Nat} {new : Option LocalJob} {dropped : List Int}
    {added : List FdJobEntry} (hChanged : Changed s s' addr new dropped added)
    (hOld : ∀ e ∈ s.entries, e.job < s.brk) (hAdded : ∀ e ∈ added, e.job = addr)
    (hAddr : addr < s.brk) : ∀ e ∈ s'.entries, e.job < s'.brk := by
  intro e he
  rw [hChanged.brk]
  rcases (hChanged.entries e).mp he with he | ⟨he, -⟩
  · rw [hAdded e he]
    exact hAddr
  · exact hOld e he

theorem Rooted.of_shrinks (h : Rooted s) (hShrinks : Shrinks s s') : Rooted s' where
  placed := hShrinks.placed h.placed
  allocated e he := by
    rw [hShrinks.brk]
    exact h.allocated e (hShrinks.entries e he)

/-- **Every handler keeps the index rooted.** -/
theorem Rooted.step (h : Rooted s) (e : ClientEvent) : Rooted (clientStep s e).1 := by
  refine ⟨placed_step h.placed e, ?_⟩
  cases clientStep_shape h.placed e with
  | shrinks hShrinks _ _ _ => exact (h.of_shrinks hShrinks).allocated
  | requested job dial _ _ hAddr _ _ hChanged _ =>
      refine allocated_changed hChanged (fun entry hEntry => ?_)
        (fun entry hEntry => (asked_added hEntry).2.1) ?_
      · exact Nat.lt_succ_of_lt (h.allocated entry hEntry)
      · rw [hAddr]
        exact Nat.lt_succ_self _
  | advanced fd instruction now dial job _ _ _ hOwner hChanged _ =>
      exact allocated_changed hChanged h.allocated
        (fun entry hEntry => (asked_added hEntry).2.1.trans (LocalJob.advance_addr job fd now))
        (h.placed.allocated job (owner_mem hOwner))

/-! ## The stored job and the accepted one -/

theorem stored_addr {e : ClientEvent} {job : LocalJob} (h : stored s e = some job) :
    job.addr = s.brk := by
  unfold stored at h
  split at h
  · split at h
    · cases h
      rfl
    · cases h
  · cases h

theorem requests_of_stored {e : ClientEvent} {job : LocalJob} (h : stored s e = some job) :
    requests e = some job.jobId := by
  cases e with
  | erlang instruction timer nodes dial =>
      simp only [stored] at h
      split at h
      · rename_i jobId token tokens hParse
        cases h
        simp only [requests, hParse]
        rfl
      · cases h
  | _ => cases h

end

end ResourceAgent.Ports.ClientShape
