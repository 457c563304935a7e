import ResourceAgent.Ports.ClientRun
import ResourceAgent.Ports.ClientShape

/-!
# A JOB_REQUEST for a job that is already there

`tablahash_insert` replaces an element with the same key and destroys the old one.
For `table_localjobs` the destructor frees the job and its lists; it knows nothing
of the connections the job holds nor of the index entry that leads to it.  So a
JOB_REQUEST with the id of a job in the table (a restarted scheduler numbers
its jobs from 1001 again) loses whatever that job had.

A job without a request in flight can be replaced without damage to the tables: the
step is the same as creating the job in the state without the old one
(`request_move`).
-/

namespace ResourceAgent.Ports.Replacement

open ResourceAgent.Ports.HashTable
open ResourceAgent.Ports.Records
open ResourceAgent.Ports.Wire
open ResourceAgent.Ports.Client
open ResourceAgent.Ports.ClientRun
open ResourceAgent.Ports.ClientShape (Rooted rooted_init requested_changed)
open ResourceAgent.Verified.CText
open ResourceAgent.Verified.Runs

/-- An index entry leads to the job: a request of it is in flight. -/
def InFlight (s : ClientState) (job : LocalJob) : Prop := ∃ e ∈ s.entries, e.job = job.addr

instance (s : ClientState) (job : LocalJob) : Decidable (InFlight s job) :=
  inferInstanceAs (Decidable (∃ e ∈ s.entries, e.job = job.addr))

/-- The id under which a line of the scheduler stores a job. -/
def stored (instruction : Text) : Option Int :=
  match parseErlang instruction with
  | .jobRequest jobId (_ :: _) => some (atoi jobId)
  | _ => none

/-- No job with a request in flight is replaced by what the line stores. -/
def ReplacesIdle (s : ClientState) (instruction : Text) : Prop :=
  ∀ id ∈ stored instruction, ∀ old ∈ s.jobs, old.jobId = id → ¬ InFlight s old

instance (s : ClientState) (instruction : Text) : Decidable (ReplacesIdle s instruction) :=
  inferInstanceAs (Decidable (∀ id ∈ stored instruction, ∀ old ∈ s.jobs, old.jobId = id →
    ¬ InFlight s old))

section

variable {s : ClientState} (hTidy : Tidy s) {job : LocalJob}
include hTidy

/-- A job that nothing in flight belongs to can be taken out. -/
theorem tidy_removeJob (hIdle : ∀ old ∈ s.jobs, old.jobId = job.jobId → ¬ InFlight s old) :
    Tidy (s.removeJob job) where
  addrKeys x hx y hy :=
    hTidy.addrKeys x (ClientState.mem_jobs_removeJob.mp hx).1
      y (ClientState.mem_jobs_removeJob.mp hy).1
  allocated x hx := hTidy.allocated x (ClientState.mem_jobs_removeJob.mp hx).1
  ids x hx := hTidy.ids x (ClientState.mem_jobs_removeJob.mp hx).1
  entries e he := by
    obtain ⟨hFd, x, hx, hAddr, hRest⟩ := hTidy.entries e he
    refine ⟨hFd, x, ClientState.mem_jobs_removeJob.mpr ⟨hx, fun hSame => ?_⟩, hAddr, hRest⟩
    exact hIdle x hx hSame ⟨e, he, hAddr.symm⟩

/-- Storing a job is storing it in the state without the one it replaces. -/
theorem insertJob_replaces (hNew : job = makeJob s job.jobId job.nextReq job.timer) :
    Changed { s.removeJob job with brk := s.brk + 1 } (s.insertJob job) job.addr
      (some job) [] [] := by
  have hAddr : job.addr = s.brk := by
    rw [hNew]
    rfl
  refine ⟨fun x => ?_, fun e => ?_, rfl⟩
  · rw [ClientState.mem_jobs_insertJob, Option.some.injEq, eq_comm]
    constructor
    · rintro (hx | ⟨hx, hNe⟩)
      · exact .inl hx
      · have := hTidy.allocated x hx
        exact .inr ⟨ClientState.mem_jobs_removeJob.mpr ⟨hx, hNe⟩, by omega⟩
    · rintro (hx | ⟨hx, -⟩)
      · exact .inl hx
      · exact .inr (ClientState.mem_jobs_removeJob.mp hx)
  · rw [ClientState.entries_insertJob]
    simp only [List.not_mem_nil, false_or, not_false_iff, and_true]
    rfl

/-- The stored job asks for its first resource. -/
theorem request_changed (hId : IsInt job.jobId)
    (hNew : job = makeJob s job.jobId job.nextReq job.timer) (dial : Dial) :
    Changed { s.removeJob job with brk := s.brk + 1 }
        (askForNextResource dial (s.insertJob job) job).1 job.addr
        (some (asked dial job).job) (asked dial job).dropped (asked dial job).added ∧
      (askForNextResource dial (s.insertJob job) job).2 = (asked dial job).out := by
  have hInsert := insertJob_replaces hTidy hNew
  have hKeys : (s.insertJob job).AddrKeys := by
    refine hInsert.addrKeys (fun x hx y hy => ?_) (by rintro x ⟨⟩; rfl)
    exact hTidy.addrKeys x (ClientState.mem_jobs_removeJob.mp hx).1 y
      (ClientState.mem_jobs_removeJob.mp hy).1
  obtain ⟨hAsk, hOut⟩ := askForNextResource_changed hKeys hInsert.mem_self hId dial
  exact ⟨hInsert.then rfl hAsk, hOut⟩

/-- **Replacing a job** is a move from the state without it. -/
theorem request_move (hId : IsInt job.jobId)
    (hNew : job = makeJob s job.jobId job.nextReq job.timer) (dial : Dial) :
    Move (.request job.jobId job.nextReq) (s.removeJob job)
      (askForNextResource dial (s.insertJob job) job).1
      (askForNextResource dial (s.insertJob job) job).2 := by
  obtain ⟨hChanged, hOut⟩ := request_changed hTidy hId hNew dial
  rw [hOut]
  exact .create hId (fun x hx => (ClientState.mem_jobs_removeJob.mp hx).2) hNew rfl hChanged

end

theorem tidy_erlang {s : ClientState} (hTidy : Tidy s) {instruction : Text}
    (hIdle : ReplacesIdle s instruction) (timer : Int) (nodes : Table nodeCallbacks) (dial : Dial) :
    Tidy (clientStep s (.erlang instruction timer nodes dial)).1 := by
  cases hParse : parseErlang instruction with
  | jobRequest jobId destinations =>
      simp only [clientStep, hParse]
      cases destinations with
      | nil => exact hTidy
      | cons token tokens =>
          have hNone : Tidy (s.removeJob (makeJob s (atoi jobId)
              (parseDestinations nodes (token :: tokens)) timer)) := by
            refine tidy_removeJob hTidy fun old hOld hSame => hIdle (atoi jobId) ?_ old hOld hSame
            simp [stored, hParse]
          exact (request_move hTidy (atoi_isInt jobId) rfl dial).tidy hNone
  | jobRelease jobId =>
      simp only [clientStep, hParse, erlangToC]
      cases hFind : s.findJob (atoi jobId) with
      | none => exact hTidy
      | some job =>
          have hMove : Move (.release (atoi jobId)) s _ _ := release_move hTidy hFind rfl
          exact hMove.tidy hTidy
  | jobStatus jobId =>
      rw [clientStep_query (by simp [isQuery, hParse])]
      exact hTidy
  | getNodes =>
      rw [clientStep_query (by simp [isQuery, hParse])]
      exact hTidy
  | ignored =>
      simp only [clientStep, hParse, erlangToC]
      exact hTidy

/-- No step replaces a job with a request in flight. -/
def Orderly (s : ClientState) : ClientEvent → Prop
  | .erlang instruction _ _ _ => ReplacesIdle s instruction
  | _ => True

instance (s : ClientState) : ∀ e, Decidable (Orderly s e)
  | .erlang instruction _ _ _ => inferInstanceAs (Decidable (ReplacesIdle s instruction))
  | .line _ _ _ _ => inferInstanceAs (Decidable True)
  | .sendRequest _ => inferInstanceAs (Decidable True)
  | .disconnect _ => inferInstanceAs (Decidable True)
  | .sweep _ => inferInstanceAs (Decidable True)

theorem tidy_orderly {s : ClientState} (hTidy : Tidy s) {e : ClientEvent} (hOrderly : Orderly s e) :
    Tidy (next s e) := by
  cases e with
  | erlang instruction timer nodes dial => exact tidy_erlang hTidy hOrderly timer nodes dial
  | _ => exact hTidy.step (by simp [FreshRequest, causeOf, Cause.requested])

/-! ## What a repeated request loses -/

/-- After a handler: what was held is still held by a job or was sent RELEASE and
closed, and every index entry leads to a job of the table. -/
def OrphansNothing (s : ClientState) (r : ClientState × List Effect) : Prop :=
  (∀ job ∈ s.jobs, ∀ granted ∈ job.grantedReqs, 0 ≤ granted.providerFd →
    (∃ job' ∈ r.1.jobs, ∃ granted' ∈ job'.grantedReqs,
        granted'.providerFd = granted.providerFd) ∨
      (Effect.send granted.providerFd (releaseLine job.jobId granted.type granted.amount) ∈ r.2 ∧
        Effect.close granted.providerFd ∈ r.2)) ∧
    ∀ e ∈ r.1.entries, ∃ job ∈ r.1.jobs, job.addr = e.job

instance (s : ClientState) (r : ClientState × List Effect) : Decidable (OrphansNothing s r) := by
  unfold OrphansNothing
  infer_instance

/-- The job that the line replaces has no request in flight and holds no provider
connection that no other job holds. -/
def ReplacesBare (s : ClientState) (instruction : Text) : Prop :=
  ∀ id ∈ stored instruction, ∀ old ∈ s.jobs, old.jobId = id → ¬ InFlight s old ∧
    ∀ granted ∈ old.grantedReqs, 0 ≤ granted.providerFd →
      ∃ other ∈ s.jobs, other.jobId ≠ id ∧
        ∃ granted' ∈ other.grantedReqs, granted'.providerFd = granted.providerFd

instance (s : ClientState) (instruction : Text) : Decidable (ReplacesBare s instruction) := by
  unfold ReplacesBare
  infer_instance

/-- `socket()` does not return the descriptor of a request in flight. -/
def Unused (s : ClientState) : Dial → Prop
  | .epollFails fd => s.findEntry fd = none
  | .connected fd => s.findEntry fd = none
  | _ => True

instance (s : ClientState) : ∀ dial, Decidable (Unused s dial)
  | .noSocket => inferInstanceAs (Decidable True)
  | .connectFails _ => inferInstanceAs (Decidable True)
  | .epollFails fd => inferInstanceAs (Decidable (s.findEntry fd = none))
  | .connected fd => inferInstanceAs (Decidable (s.findEntry fd = none))

/-- The dial drops no entry that is there. -/
theorem not_mem_dropped {s : ClientState} {dial : Dial} (hDial : Unused s dial) (job : LocalJob)
    {e : FdJobEntry} (he : e ∈ s.entries) : e.fd ∉ (asked dial job).dropped := by
  have hOther : ∀ fd : Nat, s.findEntry fd = none → e.fd ≠ fd := fun fd hNone hSame =>
    ClientState.findEntry_eq_none.mp hNone e he hSame
  cases hNext : job.nextReq with
  | nil => simp [asked, hNext]
  | cons req rest =>
      cases dial with
      | noSocket => simp [asked, hNext]
      | connectFails fd => simp [asked, hNext]
      | epollFails fd => simpa [asked, hNext] using hOther fd hDial
      | connected fd => simpa [asked, hNext] using hOther fd hDial

theorem not_send_asked (dial : Dial) (job : LocalJob) (fd : Int) (line : Text) :
    Effect.send fd line ∉ (asked dial job).out := by
  cases hNext : job.nextReq with
  | nil => simp [asked, hNext]
  | cons req rest => cases dial <;> simp [asked, hNext]

/-- Every index entry leads to a stored job, none to one that was replaced. -/
def Leads (s : ClientState) : Prop := ∀ e ∈ s.entries, ∃ job ∈ s.jobs, job.addr = e.job

instance (s : ClientState) : Decidable (Leads s) :=
  inferInstanceAs (Decidable (∀ e ∈ s.entries, ∃ job ∈ s.jobs, job.addr = e.job))

section

variable {s s' : ClientState} {job : LocalJob} {dial : Dial}

/-- The jobs after a JOB_REQUEST: the new one, and those with other ids. -/
theorem mem_jobs_requested (hRooted : Rooted s) (hBrk : job.addr = s.brk)
    (hChanged : Changed (s.insertJob job) s' job.addr (some (asked dial job).job)
      (asked dial job).dropped (asked dial job).added) {x : LocalJob} :
    x ∈ s'.jobs ↔ x = (asked dial job).job ∨ (x ∈ s.jobs ∧ x.jobId ≠ job.jobId) := by
  rw [hChanged.jobs, Option.some.injEq, eq_comm, ClientState.mem_jobs_insertJob]
  refine or_congr Iff.rfl ⟨?_, fun hOld => ?_⟩
  · rintro ⟨rfl | hOld, hAddr⟩
    · exact absurd rfl hAddr
    · exact hOld
  · have hLt := hRooted.placed.allocated x hOld.1
    exact ⟨.inr hOld, by omega⟩

/-- An entry that was there leads to the same job as before, which must not be the one
that is replaced. -/
theorem leads_requested (hRooted : Rooted s) (hBrk : job.addr = s.brk) (hDial : Unused s dial)
    (hChanged : Changed (s.insertJob job) s' job.addr (some (asked dial job).job)
      (asked dial job).dropped (asked dial job).added) :
    Leads s' ↔ ∀ e ∈ s.entries, ∃ x ∈ s.jobs, x.jobId ≠ job.jobId ∧ x.addr = e.job := by
  have hJobs := fun x => mem_jobs_requested hRooted hBrk hChanged (x := x)
  constructor
  · intro hLeads e he
    obtain ⟨x, hx, hAddr⟩ := hLeads e ((hChanged.entries e).mpr
      (.inr ⟨he, not_mem_dropped hDial job he⟩))
    rcases (hJobs x).mp hx with rfl | ⟨hOld, hNe⟩
    · -- the new job has an address that no entry has
      have hLt := hRooted.allocated e he
      rw [asked_addr] at hAddr
      omega
    · exact ⟨x, hOld, hNe, hAddr⟩
  · intro hOld e he
    rcases (hChanged.entries e).mp he with he | ⟨he, -⟩
    · obtain ⟨-, hLeads, -, -⟩ := asked_added he
      exact ⟨_, hChanged.mem_self, by rw [asked_addr, hLeads]⟩
    · obtain ⟨x, hx, hNe, hAddr⟩ := hOld e he
      exact ⟨x, (hJobs x).mpr (.inr ⟨hx, hNe⟩), hAddr⟩

/-- Entries lead to jobs with other ids if they lead to jobs and none is in flight under
this id. -/
theorem leads_elsewhere (hRooted : Rooted s) (jobId : Int) :
    (∀ e ∈ s.entries, ∃ x ∈ s.jobs, x.jobId ≠ jobId ∧ x.addr = e.job) ↔
      Leads s ∧ ∀ old ∈ s.jobs, old.jobId = jobId → ¬ InFlight s old := by
  constructor
  · intro hOther
    refine ⟨fun e he => ?_, ?_⟩
    · obtain ⟨x, hx, -, hAddr⟩ := hOther e he
      exact ⟨x, hx, hAddr⟩
    · rintro old hOld hSame ⟨e, he, hInFlight⟩
      obtain ⟨x, hx, hNe, hAddr⟩ := hOther e he
      rw [hRooted.placed.addrKeys x hx old hOld (hAddr.trans hInFlight)] at hNe
      exact hNe hSame
  · rintro ⟨hLeads, hIdle⟩ e he
    obtain ⟨x, hx, hAddr⟩ := hLeads e he
    exact ⟨x, hx, fun hSame => hIdle x hx hSame ⟨e, he, hAddr.symm⟩, hAddr⟩

/-- Nothing is sent RELEASE, so a connection stays held if a job with another id holds it. -/
theorem held_requested (hRooted : Rooted s) (hBrk : job.addr = s.brk)
    (hNothing : job.grantedReqs = [])
    (hChanged : Changed (s.insertJob job) s' job.addr (some (asked dial job).job)
      (asked dial job).dropped (asked dial job).added) :
    (∀ x ∈ s.jobs, ∀ granted ∈ x.grantedReqs, 0 ≤ granted.providerFd →
      (∃ job' ∈ s'.jobs, ∃ granted' ∈ job'.grantedReqs,
          granted'.providerFd = granted.providerFd) ∨
        (Effect.send granted.providerFd (releaseLine x.jobId granted.type granted.amount) ∈
            (asked dial job).out ∧
          Effect.close granted.providerFd ∈ (asked dial job).out)) ↔
      ∀ old ∈ s.jobs, old.jobId = job.jobId → ∀ granted ∈ old.grantedReqs,
        0 ≤ granted.providerFd → ∃ other ∈ s.jobs, other.jobId ≠ job.jobId ∧
          ∃ granted' ∈ other.grantedReqs, granted'.providerFd = granted.providerFd := by
  have hJobs := fun x => mem_jobs_requested hRooted hBrk hChanged (x := x)
  constructor
  · intro hHeld old hOld hSame granted hGranted hPos
    rcases hHeld old hOld granted hGranted hPos with ⟨x, hx, granted', hGranted', hFd⟩ | hSent
    · rcases (hJobs x).mp hx with rfl | ⟨hx, hNe⟩
      · simp [asked_grantedReqs, hNothing] at hGranted'
      · exact ⟨x, hx, hNe, granted', hGranted', hFd⟩
    · exact absurd hSent.1 (not_send_asked dial job _ _)
  · intro hBare x hx granted hGranted hPos
    by_cases hSame : x.jobId = job.jobId
    · obtain ⟨other, hOther, hNe, hHolds⟩ := hBare x hx hSame granted hGranted hPos
      exact .inl ⟨other, (hJobs other).mpr (.inr ⟨hOther, hNe⟩), hHolds⟩
    · exact .inl ⟨x, (hJobs x).mpr (.inr ⟨hx, hSame⟩), granted, hGranted, rfl⟩

end

/-- A request that found no socket: job 1001 waits, and nothing of it is in flight, while
job 1002 waits for its answer on descriptor 5. -/
def stranded : List ClientEvent :=
  [.erlang "JOB_REQUEST 1001 @10.0.0.1:cpu:2\n".toList 0 (tablahashCreate _) .noSocket,
    .erlang "JOB_REQUEST 1002 @10.0.0.1:mem:1\n".toList 1 (tablahashCreate _) (.connected 5)]

end ResourceAgent.Ports.Replacement
