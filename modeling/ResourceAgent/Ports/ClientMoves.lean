import ResourceAgent.Ports.Client

/-!
# What a client-side handler can do

The four ways a job ends share one shape, and so do the two callers of
`ask_for_next_resource`.  `Move` lists what a handler can do once these are
merged, with the exact change of both tables (`Changed`) and the exact effects;
`clientStep_moves` says that a handler does nothing else.  Moves are taken from
tidy states, and lead to tidy states again (`Tidy.step`).
-/

namespace ResourceAgent.Ports.Client

open ResourceAgent.Ports.HashTable
open ResourceAgent.Ports.Records
open ResourceAgent.Ports.Wire
open ResourceAgent.Verified.CText

/-! ## The tables under the operations -/

namespace ClientState

@[simp] theorem jobs_insertEntry (s : ClientState) (fd : Int) (addr : Nat) :
    (s.insertEntry fd addr).jobs = s.jobs := rfl

@[simp] theorem jobs_removeEntry (s : ClientState) (fd : Int) :
    (s.removeEntry fd).jobs = s.jobs := rfl

@[simp] theorem entries_insertJob (s : ClientState) (job : LocalJob) :
    (s.insertJob job).entries = s.entries := rfl

@[simp] theorem entries_writeJob (s : ClientState) (job : LocalJob) :
    (s.writeJob job).entries = s.entries := rfl

@[simp] theorem entries_removeJob (s : ClientState) (job : LocalJob) :
    (s.removeJob job).entries = s.entries := rfl

theorem mem_jobs_insertJob {s : ClientState} {job x : LocalJob} :
    x ∈ (s.insertJob job).jobs ↔ x = job ∨ (x ∈ s.jobs ∧ x.jobId ≠ job.jobId) := by
  simpa [jobs, insertJob] using mem_insert (t := s.tableLocaljobs) (d := job) (e := x)

theorem mem_jobs_removeJob {s : ClientState} {job x : LocalJob} :
    x ∈ (s.removeJob job).jobs ↔ x ∈ s.jobs ∧ x.jobId ≠ job.jobId := by
  simp [jobs, removeJob]

theorem mem_entries_insertEntry {s : ClientState} {fd : Int} {addr : Nat} {e : FdJobEntry} :
    e ∈ (s.insertEntry fd addr).entries ↔ e = ⟨fd, addr⟩ ∨ (e ∈ s.entries ∧ e.fd ≠ fd) := by
  simpa [entries, insertEntry] using mem_insert (t := s.tableOurjobs) (d := ⟨fd, addr⟩) (e := e)

theorem mem_entries_removeEntry {s : ClientState} {fd : Int} {e : FdJobEntry} :
    e ∈ (s.removeEntry fd).entries ↔ e ∈ s.entries ∧ e.fd ≠ fd := by
  simp [entries, removeEntry]

/-- Job ids are keys. -/
theorem eq_of_jobId {s : ClientState} {x y : LocalJob} (hx : x ∈ s.jobs) (hy : y ∈ s.jobs)
    (h : x.jobId = y.jobId) : x = y :=
  s.tableLocaljobs.eq_of_same hx hy (by simpa using h)

/-- Descriptors are keys. -/
theorem eq_of_fd {s : ClientState} {x y : FdJobEntry} (hx : x ∈ s.entries) (hy : y ∈ s.entries)
    (h : x.fd = y.fd) : x = y :=
  s.tableOurjobs.eq_of_same hx hy (by simpa using h)

theorem findJob_eq_some {s : ClientState} {jobId : Int} {job : LocalJob} :
    s.findJob jobId = some job ↔ job ∈ s.jobs ∧ job.jobId = jobId := by
  simp [findJob, find_eq_some_iff, jobs]

theorem findJob_eq_none {s : ClientState} {jobId : Int} :
    s.findJob jobId = none ↔ ∀ job ∈ s.jobs, job.jobId ≠ jobId := by
  simp [findJob, find_eq_none_iff, jobs]

theorem findEntry_eq_some {s : ClientState} {fd : Int} {e : FdJobEntry} :
    s.findEntry fd = some e ↔ e ∈ s.entries ∧ e.fd = fd := by
  simp [findEntry, find_eq_some_iff, entries]

theorem findEntry_eq_none {s : ClientState} {fd : Int} :
    s.findEntry fd = none ↔ ∀ e ∈ s.entries, e.fd ≠ fd := by
  simp [findEntry, find_eq_none_iff, entries]

/-- No two jobs share an address. -/
def AddrKeys (s : ClientState) : Prop :=
  ∀ x ∈ s.jobs, ∀ y ∈ s.jobs, x.addr = y.addr → x = y

theorem jobAt_eq_some {s : ClientState} (hAddr : s.AddrKeys) {addr : Nat} {job : LocalJob} :
    s.jobAt addr = some job ↔ job ∈ s.jobs ∧ job.addr = addr := by
  constructor
  · intro h
    refine ⟨List.mem_of_find?_eq_some h, ?_⟩
    simpa using List.find?_some h
  · rintro ⟨hJob, rfl⟩
    cases h : s.jobAt job.addr with
    | none =>
        have hNone := List.find?_eq_none.mp h job hJob
        simp at hNone
    | some other =>
        have hOther : other.addr = job.addr := by simpa using List.find?_some h
        rw [hAddr other (List.mem_of_find?_eq_some h) job hJob hOther]

theorem owner_eq_some {s : ClientState} (hAddr : s.AddrKeys) {fd : Int} {job : LocalJob} :
    s.owner fd = some job ↔ ⟨fd, job.addr⟩ ∈ s.entries ∧ job ∈ s.jobs := by
  simp only [owner, Option.bind_eq_some_iff, findEntry_eq_some, jobAt_eq_some hAddr]
  constructor
  · rintro ⟨⟨fd', addr⟩, ⟨hEntry, rfl⟩, hJob, rfl⟩
    exact ⟨hEntry, hJob⟩
  · rintro ⟨hEntry, hJob⟩
    exact ⟨_, ⟨hEntry, rfl⟩, hJob, rfl⟩

end ClientState

/-! ## What an operation changes -/

/-- From `s` to `s'`: the job at `addr` is now `job` (absent if `none`), the
index entries of the descriptors `dropped` are gone, and `added` are there. -/
structure Changed (s s' : ClientState) (addr : Nat) (job : Option LocalJob)
    (dropped : List Int) (added : List FdJobEntry) : Prop where
  jobs : ∀ x, x ∈ s'.jobs ↔ job = some x ∨ (x ∈ s.jobs ∧ x.addr ≠ addr)
  entries : ∀ e, e ∈ s'.entries ↔ e ∈ added ∨ (e ∈ s.entries ∧ e.fd ∉ dropped)
  brk : s'.brk = s.brk

theorem Changed.trans {s₁ s₂ s₃ : ClientState} {addr : Nat} {job job' : Option LocalJob}
    {dropped dropped' : List Int} {added : List FdJobEntry}
    (h : Changed s₁ s₂ addr job dropped []) (h' : Changed s₂ s₃ addr job' dropped' added)
    (hJob : ∀ x, job = some x → x.addr = addr) :
    Changed s₁ s₃ addr job' (dropped ++ dropped') added where
  jobs x := by
    rw [h'.jobs, h.jobs]
    constructor
    · rintro (hx | ⟨hx | hx, hAddr⟩)
      · exact .inl hx
      · exact absurd (hJob x hx) hAddr
      · exact .inr hx
    · rintro (hx | hx)
      · exact .inl hx
      · exact .inr ⟨.inr hx, hx.2⟩
  entries e := by
    rw [h'.entries, h.entries]
    simp [and_assoc]
  brk := h'.brk.trans h.brk

section

variable {s : ClientState} {job : LocalJob}

theorem removeEntry_changed (hAddr : s.AddrKeys) (hJob : job ∈ s.jobs) (fd : Int) :
    Changed s (s.removeEntry fd) job.addr (some job) [fd] [] where
  jobs x := by
    constructor
    · intro hx
      by_cases h : x.addr = job.addr
      · exact .inl (by rw [hAddr x hx job hJob h])
      · exact .inr ⟨hx, h⟩
    · rintro (hx | ⟨hx, -⟩)
      · cases hx
        exact hJob
      · exact hx
  entries e := by simp [ClientState.mem_entries_removeEntry]
  brk := rfl

theorem insertEntry_changed (hAddr : s.AddrKeys) (hJob : job ∈ s.jobs) (fd : Int) :
    Changed s (s.insertEntry fd job.addr) job.addr (some job) [fd] [⟨fd, job.addr⟩] where
  jobs := (removeEntry_changed hAddr hJob fd).jobs
  entries e := by simp [ClientState.mem_entries_insertEntry]
  brk := rfl

theorem writeJob_changed (hAddr : s.AddrKeys) (hJob : job ∈ s.jobs) (job' : LocalJob)
    (hSameAddr : job'.addr = job.addr) (hSameId : job'.jobId = job.jobId) :
    Changed s (s.writeJob job') job.addr (some job') [] [] where
  jobs x := by
    have hWrite : x ∈ (s.writeJob job').jobs ↔ ∃ old ∈ s.jobs,
        (if old.addr = job'.addr then { job' with addr := old.addr, jobId := old.jobId }
          else old) = x := by
      simp [ClientState.jobs, ClientState.writeJob]
    rw [hWrite]
    constructor
    · rintro ⟨old, hOld, rfl⟩
      by_cases h : old.addr = job'.addr
      · rw [if_pos h, hAddr old hOld job hJob (h.trans hSameAddr), ← hSameAddr, ← hSameId]
        exact .inl rfl
      · rw [if_neg h]
        exact .inr ⟨hOld, fun hSame => h (hSame.trans hSameAddr.symm)⟩
    · rintro (hx | ⟨hx, hNe⟩)
      · cases hx
        refine ⟨job, hJob, ?_⟩
        rw [if_pos hSameAddr.symm, ← hSameAddr, ← hSameId]
      · refine ⟨x, hx, ?_⟩
        rw [if_neg]
        rw [hSameAddr]
        exact hNe
  entries e := by simp
  brk := rfl

theorem removeJob_changed (hAddr : s.AddrKeys) (hJob : job ∈ s.jobs) {job' : LocalJob}
    (hSameId : job'.jobId = job.jobId) :
    Changed s (s.removeJob job') job.addr none [] [] where
  jobs x := by
    rw [ClientState.mem_jobs_removeJob, hSameId]
    constructor
    · rintro ⟨hx, hNe⟩
      refine .inr ⟨hx, fun hSame => ?_⟩
      rw [hAddr x hx job hJob hSame] at hNe
      exact hNe rfl
    · rintro (hx | ⟨hx, hNe⟩)
      · cases hx
      · refine ⟨hx, fun hSame => ?_⟩
        rw [ClientState.eq_of_jobId hx hJob hSame] at hNe
        exact hNe rfl
  entries e := by simp
  brk := rfl

theorem Changed.addrKeys {s' : ClientState} {addr : Nat} {new : Option LocalJob}
    {dropped : List Int} {added : List FdJobEntry} (h : Changed s s' addr new dropped added)
    (hAddr : s.AddrKeys) (hNew : ∀ x, new = some x → x.addr = addr) : s'.AddrKeys := by
  intro x hx y hy hSame
  rcases (h.jobs x).mp hx with hx | ⟨hx, hxNe⟩
  · rcases (h.jobs y).mp hy with hy | ⟨hy, hyNe⟩
    · rw [hx] at hy
      exact Option.some.inj hy
    · exact absurd (hSame.symm.trans (hNew x hx)) hyNe
  · rcases (h.jobs y).mp hy with hy | ⟨hy, hyNe⟩
    · exact absurd (hSame.trans (hNew y hy)) hxNe
    · exact hAddr x hx y hy hSame

theorem Changed.mem_self {s' : ClientState} {addr : Nat} {dropped : List Int}
    {added : List FdJobEntry} (h : Changed s s' addr (some job) dropped added) : job ∈ s'.jobs :=
  (h.jobs job).mpr (.inl rfl)

/-- Two writes to one job. -/
theorem Changed.then {s₁ s₂ : ClientState} {job' : LocalJob} {new : Option LocalJob}
    {dropped dropped' : List Int} {added : List FdJobEntry}
    (h : Changed s s₁ job.addr (some job') dropped []) (hSameAddr : job'.addr = job.addr)
    (h' : Changed s₁ s₂ job'.addr new dropped' added) :
    Changed s s₂ job.addr new (dropped ++ dropped') added := by
  rw [hSameAddr] at h'
  refine h.trans h' fun x hx => ?_
  cases hx
  exact hSameAddr

/-- What `ask_for_next_resource` makes of a job: the job afterwards, the index
entries it drops and adds, and its effects. -/
structure Asked where
  job : LocalJob
  dropped : List Int
  added : List FdJobEntry
  out : List Effect

def asked (dial : Dial) (job : LocalJob) : Asked :=
  match job.nextReq with
  | [] => ⟨job, [], [], [.toErlang .granted (itoa job.jobId)]⟩
  | req :: _ =>
      match dial with
      | .noSocket => ⟨job, [], [], []⟩
      | .connectFails fd => ⟨job, [], [], [.close fd]⟩
      | .epollFails fd =>
          ⟨{ job with originSocket := fd }, [(fd : Int)], [],
            [.connect fd job.jobId req, .close fd]⟩
      | .connected fd =>
          ⟨{ job with originSocket := fd }, [(fd : Int)], [⟨fd, job.addr⟩],
            [.connect fd job.jobId req, .epollAdd fd]⟩

/-- Only the socket of the job may differ. -/
theorem asked_job (dial : Dial) (job : LocalJob) :
    ∃ fd, (asked dial job).job = { job with originSocket := fd } := by
  unfold asked
  split
  · exact ⟨job.originSocket, rfl⟩
  · split
    · exact ⟨job.originSocket, rfl⟩
    · exact ⟨job.originSocket, rfl⟩
    · exact ⟨_, rfl⟩
    · exact ⟨_, rfl⟩

theorem asked_addr (dial : Dial) (job : LocalJob) : (asked dial job).job.addr = job.addr := by
  obtain ⟨fd, h⟩ := asked_job dial job
  rw [h]

theorem asked_jobId (dial : Dial) (job : LocalJob) : (asked dial job).job.jobId = job.jobId := by
  obtain ⟨fd, h⟩ := asked_job dial job
  rw [h]

theorem asked_nextReq (dial : Dial) (job : LocalJob) :
    (asked dial job).job.nextReq = job.nextReq := by
  obtain ⟨fd, h⟩ := asked_job dial job
  rw [h]

theorem asked_grantedReqs (dial : Dial) (job : LocalJob) :
    (asked dial job).job.grantedReqs = job.grantedReqs := by
  obtain ⟨fd, h⟩ := asked_job dial job
  rw [h]

/-- An entry is added only for a waiting job, under the descriptor it waits on. -/
theorem asked_added {dial : Dial} {job : LocalJob} {e : FdJobEntry}
    (h : e ∈ (asked dial job).added) :
    0 ≤ e.fd ∧ e.job = job.addr ∧ job.nextReq ≠ [] ∧
      (asked dial job).job.originSocket = e.fd := by
  cases hNext : job.nextReq with
  | nil => simp [asked, hNext] at h
  | cons req rest =>
      cases dial with
      | connected fd =>
          simp only [asked, hNext, List.mem_singleton] at h ⊢
          subst h
          exact ⟨Int.natCast_nonneg fd, rfl, by simp, rfl⟩
      | _ => simp [asked, hNext] at h

private theorem refl_changed (hAddr : s.AddrKeys) (hJob : job ∈ s.jobs) :
    Changed s s job.addr (some job) [] [] where
  jobs := (removeEntry_changed hAddr hJob 0).jobs
  entries e := by simp
  brk := rfl

/-- `ask_for_next_resource` on a stored job. -/
theorem askForNextResource_changed (hAddr : s.AddrKeys) (hJob : job ∈ s.jobs)
    (hId : IsInt job.jobId) (dial : Dial) :
    Changed s (askForNextResource dial s job).1 job.addr (some (asked dial job).job)
        (asked dial job).dropped (asked dial job).added ∧
      (askForNextResource dial s job).2 = (asked dial job).out := by
  cases hNext : job.nextReq with
  | nil =>
      simp only [askForNextResource, asked, hNext]
      exact ⟨refl_changed hAddr hJob, cToErlang_itoa hId⟩
  | cons req rest =>
      have hWrite := fun fd : Nat =>
        writeJob_changed hAddr hJob { job with originSocket := fd } rfl rfl
      have hInsert := fun fd : Nat => (hWrite fd).then rfl
        (insertEntry_changed ((hWrite fd).addrKeys hAddr (by rintro x ⟨⟩; rfl))
          (hWrite fd).mem_self fd)
      simp only [askForNextResource, asked, hNext]
      cases dial with
      | noSocket => exact ⟨refl_changed hAddr hJob, rfl⟩
      | connectFails fd => exact ⟨refl_changed hAddr hJob, rfl⟩
      | connected fd =>
          rw [← hNext]
          exact ⟨hInsert fd, rfl⟩
      | epollFails fd =>
          rw [← hNext]
          refine ⟨⟨(hInsert fd).jobs, fun e => ?_, rfl⟩, rfl⟩
          have hEntries := (hInsert fd).entries e
          simp only [List.nil_append, List.mem_singleton] at hEntries
          rw [ClientState.mem_entries_removeEntry, hEntries]
          constructor
          · rintro ⟨rfl | hOld, hNe⟩
            · exact absurd rfl hNe
            · exact .inr (by simpa using hOld)
          · rintro (hNone | hOld)
            · simp at hNone
            · exact ⟨.inr (by simpa using hOld), by simpa using hOld.2⟩

/-- Releasing what a job holds and freeing it. -/
theorem releaseResources_changed (hAddr : s.AddrKeys) (hJob : job ∈ s.jobs) :
    Changed s ((releaseResources s job).1.removeJob job) job.addr none [] [] := by
  have hWrite := writeJob_changed hAddr hJob
    { job with
      grantedReqs := job.grantedReqs.map fun granted =>
        if 0 ≤ granted.providerFd then { granted with providerFd := -1 } else granted }
    rfl rfl
  have hKeys := hWrite.addrKeys hAddr (by rintro x ⟨⟩; rfl)
  exact hWrite.then rfl (removeJob_changed hKeys hWrite.mem_self rfl)

end

/-! ## Moves -/

/-- The shape every reachable client state has: addresses are keys below the
allocator's mark, job ids are `int`s, and an index entry leads to a job that
waits on exactly that descriptor. -/
structure Tidy (s : ClientState) : Prop where
  addrKeys : s.AddrKeys
  allocated : ∀ job ∈ s.jobs, job.addr < s.brk
  ids : ∀ job ∈ s.jobs, IsInt job.jobId
  entries : ∀ e ∈ s.entries, 0 ≤ e.fd ∧
    ∃ job ∈ s.jobs, job.addr = e.job ∧ job.nextReq ≠ [] ∧ job.originSocket = e.fd

/-- The lines and closes of `release_resources`. -/
def released (job : LocalJob) : List Effect :=
  job.grantedReqs.flatMap (releaseProvider job.jobId)

/-- What the scheduler asked for in the line being handled, if there is one. -/
inductive Cause where
  /-- JOB_REQUEST, with the parsed destinations -/
  | request (jobId : Int) (reqs : List PendingResource)
  /-- JOB_RELEASE -/
  | release (jobId : Int)
  | other

/-- The job id a JOB_REQUEST brings. -/
def Cause.requested : Cause → Option Int
  | .request jobId _ => some jobId
  | _ => none

/-- What a handler can do about one job. -/
inductive Move (cause : Cause) (s : ClientState) : ClientState → List Effect → Prop where
  | idle : Move cause s s []
  /-- a JOB_REQUEST without destinations -/
  | refuse {jobId : Text} (hAbsent : ∀ job ∈ s.jobs, job.jobId ≠ atoi jobId)
      (hCause : cause = .request (atoi jobId) []) :
      Move cause s s (cToErlang .rejected jobId)
  /-- `send_request` on the connection of a waiting job -/
  | reserve {fd : Int} {job : LocalJob} {req : PendingResource} {rest : List PendingResource}
      (hEntry : ⟨fd, job.addr⟩ ∈ s.entries) (hJob : job ∈ s.jobs)
      (hNext : job.nextReq = req :: rest) :
      Move cause s s [.send fd (reserveLine job.jobId req.type req.amount), .epollMod fd]
  /-- JOB_REQUEST: a new job asks for its first resource -/
  | create {s' : ClientState} {job : LocalJob} {dial : Dial} (hId : IsInt job.jobId)
      (hAbsent : ∀ x ∈ s.jobs, x.jobId ≠ job.jobId)
      (hNew : job = makeJob s job.jobId job.nextReq job.timer)
      (hCause : cause = .request job.jobId job.nextReq)
      (hChanged : Changed { s with brk := s.brk + 1 } s' job.addr (some (asked dial job).job)
        (asked dial job).dropped (asked dial job).added) :
      Move cause s s' (asked dial job).out
  /-- GRANTED on the connection of a waiting job, which asks for the next one -/
  | grant {s' : ClientState} {fd : Int} {job : LocalJob} {now : Int} {dial : Dial}
      (hEntry : ⟨fd, job.addr⟩ ∈ s.entries) (hJob : job ∈ s.jobs)
      (hChanged : Changed s s' job.addr
        (some (asked dial (LocalJob.advance job fd now)).job)
        (fd :: (asked dial (LocalJob.advance job fd now)).dropped)
        (asked dial (LocalJob.advance job fd now)).added) :
      Move cause s s' (.epollDel fd :: (asked dial (LocalJob.advance job fd now)).out)
  /-- a rejection or a disconnect on the connection of a waiting job -/
  | reject {s' : ClientState} {fd : Int} {job : LocalJob}
      (hEntry : ⟨fd, job.addr⟩ ∈ s.entries) (hJob : job ∈ s.jobs)
      (hChanged : Changed s s' job.addr none [fd] []) :
      Move cause s s' (released job ++ [.toErlang .rejected (itoa job.jobId)])
  /-- JOB_RELEASE -/
  | release {s' : ClientState} {job : LocalJob} (hJob : job ∈ s.jobs)
      (hCause : cause = .release job.jobId)
      (hChanged : Changed s s' job.addr none [job.originSocket] []) :
      Move cause s s' ((tearDown s job).2 ++ released job)
  /-- a job the timeout sweep ends -/
  | timeOut {s' : ClientState} {job : LocalJob} (hJob : job ∈ s.jobs) (hNext : job.nextReq ≠ [])
      (hChanged : Changed s s' job.addr none [job.originSocket] []) :
      Move cause s s' ((tearDown s job).2 ++ released job ++ [.toErlang .timeout (itoa job.jobId)])

/-- Moves one after the other. -/
inductive Moves (cause : Cause) : ClientState → ClientState → List Effect → Prop where
  | nil (s : ClientState) : Moves cause s s []
  | cons {s₁ s₂ s₃ : ClientState} {out out' : List Effect} :
      Move cause s₁ s₂ out → Moves cause s₂ s₃ out' → Moves cause s₁ s₃ (out ++ out')

variable {cause : Cause}

theorem Move.moves {s s' : ClientState} {out : List Effect} (h : Move cause s s' out) :
    Moves cause s s' out := by
  simpa using Moves.cons h (.nil s')

theorem LocalJob.advance_addr (job : LocalJob) (fd now : Int) :
    (LocalJob.advance job fd now).addr = job.addr := by
  unfold LocalJob.advance
  split <;> rfl

theorem LocalJob.advance_jobId (job : LocalJob) (fd now : Int) :
    (LocalJob.advance job fd now).jobId = job.jobId := by
  unfold LocalJob.advance
  split <;> rfl

theorem jobs_tearDown (s : ClientState) (job : LocalJob) : (tearDown s job).1.jobs = s.jobs := by
  unfold tearDown
  split <;> rfl

theorem brk_tearDown (s : ClientState) (job : LocalJob) : (tearDown s job).1.brk = s.brk := by
  unfold tearDown
  split <;> rfl

theorem mem_entries_tearDown {s : ClientState} {job : LocalJob} {e : FdJobEntry} :
    e ∈ (tearDown s job).1.entries ↔
      e ∈ s.entries ∧ ¬ (0 ≤ job.originSocket ∧ e.fd = job.originSocket) := by
  unfold tearDown
  split
  · rename_i hFound
    rw [ClientState.mem_entries_removeEntry]
    simp only [hFound.1, true_and, ne_eq]
  · rename_i hNone
    constructor
    · intro he
      refine ⟨he, fun hSame => hNone ⟨hSame.1, ?_⟩⟩
      rw [Option.isSome_iff_exists]
      exact ⟨e, ClientState.findEntry_eq_some.mpr ⟨he, hSame.2⟩⟩
    · exact fun h => h.1

section

variable {s : ClientState} (hKeys : s.AddrKeys) {job : LocalJob} (hJob : job ∈ s.jobs)
include hKeys hJob

/-- The tear-down drops the entry of the job's last connection, if there is one. -/
theorem tearDown_changed (hFds : ∀ e ∈ s.entries, 0 ≤ e.fd) :
    Changed s (tearDown s job).1 job.addr (some job) [job.originSocket] [] where
  jobs x := by
    rw [jobs_tearDown]
    exact (removeEntry_changed hKeys hJob 0).jobs x
  entries e := by
    rw [mem_entries_tearDown, List.mem_singleton, or_iff_right List.not_mem_nil]
    constructor
    · rintro ⟨he, hNot⟩
      exact ⟨he, fun hSame => hNot ⟨hSame ▸ hFds e he, hSame⟩⟩
    · rintro ⟨he, hNe⟩
      exact ⟨he, fun hBoth => hNe hBoth.2⟩
  brk := brk_tearDown s job

/-- The common end of JOB_RELEASE and of a timeout. -/
theorem ended_tearDown (hFds : ∀ e ∈ s.entries, 0 ≤ e.fd) :
    Changed s ((releaseResources (tearDown s job).1 job).1.removeJob job) job.addr none
      [job.originSocket] [] := by
  have hTorn := tearDown_changed hKeys hJob hFds
  have hTornKeys := hTorn.addrKeys hKeys (by rintro x ⟨⟩; rfl)
  exact hTorn.then rfl (releaseResources_changed hTornKeys hTorn.mem_self)

/-- The common end of a rejection and of a disconnect. -/
theorem ended_removeEntry (fd : Int) :
    Changed s ((releaseResources (s.removeEntry fd) job).1.removeJob job)
      job.addr none [fd] [] := by
  have hRemoved := removeEntry_changed hKeys hJob fd
  have hRemovedKeys := hRemoved.addrKeys hKeys (by rintro x ⟨⟩; rfl)
  exact hRemoved.then rfl (releaseResources_changed hRemovedKeys hRemoved.mem_self)

end

section

variable {s : ClientState} (hTidy : Tidy s)
include hTidy

theorem tearDown_release_changed {job : LocalJob} (hJob : job ∈ s.jobs) :
    Changed s ((releaseResources (tearDown s job).1 job).1.removeJob job) job.addr none
      [job.originSocket] [] :=
  ended_tearDown hTidy.addrKeys hJob fun e he => (hTidy.entries e he).1

theorem reject_changed {fd : Int} {job : LocalJob} (hJob : job ∈ s.jobs) :
    Changed s ((releaseResources (s.removeEntry fd) job).1.removeJob job) job.addr none [fd] [] :=
  ended_removeEntry hTidy.addrKeys hJob fd

theorem reject_move {fd : Int} {job : LocalJob} (hOwner : s.owner fd = some job) :
    Move cause s ((releaseResources (s.removeEntry fd) job).1.removeJob job)
      ((releaseResources (s.removeEntry fd) job).2 ++ cToErlang .rejected (itoa job.jobId)) := by
  obtain ⟨hEntry, hJob⟩ := (ClientState.owner_eq_some hTidy.addrKeys).mp hOwner
  rw [cToErlang_itoa (hTidy.ids job hJob)]
  exact .reject hEntry hJob (reject_changed hTidy hJob)

omit hTidy in
/-- GRANTED moves the head request and drops the entry, before the job asks
again. -/
theorem advance_changed (hKeys : s.AddrKeys) {job : LocalJob} (hJob : job ∈ s.jobs)
    (fd now : Int) :
    Changed s ((s.writeJob (LocalJob.advance job fd now)).removeEntry fd) job.addr
      (some (LocalJob.advance job fd now)) [fd] [] := by
  have hAddr := LocalJob.advance_addr job fd now
  have hWrite := writeJob_changed hKeys hJob (LocalJob.advance job fd now) hAddr
    (LocalJob.advance_jobId job fd now)
  have hWritten := hWrite.addrKeys hKeys (by rintro x ⟨⟩; exact hAddr)
  exact hWrite.then hAddr (removeEntry_changed hWritten hWrite.mem_self fd)

theorem clientToMyserver_move (now : Int) (dial : Dial) (fd : Int) (m : RemoteMessage) :
    Move cause s (clientToMyserver now dial s fd m).1 (clientToMyserver now dial s fd m).2 := by
  cases m with
  | granted jobId =>
      simp only [clientToMyserver]
      cases hOwner : s.owner fd with
      | none => exact .idle
      | some job =>
          obtain ⟨hEntry, hJob⟩ := (ClientState.owner_eq_some hTidy.addrKeys).mp hOwner
          by_cases hId : job.jobId = jobId
          · simp only [hId, if_true]
            have hAddr := LocalJob.advance_addr job fd now
            have hDropped := advance_changed hTidy.addrKeys hJob fd now
            have hKeys := hDropped.addrKeys hTidy.addrKeys (by rintro x ⟨⟩; exact hAddr)
            have hInt : IsInt (LocalJob.advance job fd now).jobId := by
              rw [LocalJob.advance_jobId]
              exact hTidy.ids job hJob
            obtain ⟨hAsk, hOut⟩ :=
              askForNextResource_changed hKeys hDropped.mem_self hInt dial
            rw [hOut]
            exact .grant hEntry hJob (hDropped.then hAddr hAsk)
          · simp only [hId, if_false]
            exact .idle
  | reject =>
      simp only [clientToMyserver]
      cases hOwner : s.owner fd with
      | none => exact .idle
      | some job => exact reject_move hTidy hOwner
  | _ => exact .idle

theorem handleOutboundDisconnect_move (fd : Int) :
    Move cause s (handleOutboundDisconnect s fd).1 (handleOutboundDisconnect s fd).2 := by
  simp only [handleOutboundDisconnect]
  cases hOwner : s.owner fd with
  | none => exact .idle
  | some job => exact reject_move hTidy hOwner

theorem sendRequest_move (fd : Int) : Move cause s (sendRequest s fd).1 (sendRequest s fd).2 := by
  simp only [sendRequest]
  cases hOwner : s.owner fd with
  | none => exact .idle
  | some job =>
      obtain ⟨hEntry, hJob⟩ := (ClientState.owner_eq_some hTidy.addrKeys).mp hOwner
      cases hNext : job.nextReq with
      | nil =>
          simp only [hNext]
          exact .idle
      | cons req rest =>
          simp only [hNext]
          exact .reserve hEntry hJob hNext

theorem release_move {jobId : Int} {job : LocalJob} (hFind : s.findJob jobId = some job)
    (hCause : cause = .release jobId) :
    Move cause s ((releaseResources (tearDown s job).1 job).1.removeJob job)
      ((tearDown s job).2 ++ (releaseResources (tearDown s job).1 job).2) := by
  obtain ⟨hJob, rfl⟩ := ClientState.findJob_eq_some.mp hFind
  exact .release hJob hCause (tearDown_release_changed hTidy hJob)

/-- JOB_REQUEST stores a new job, before it asks. -/
theorem insertJob_changed {job : LocalJob} (hAbsent : ∀ x ∈ s.jobs, x.jobId ≠ job.jobId)
    (hNew : job = makeJob s job.jobId job.nextReq job.timer) :
    Changed { s with brk := s.brk + 1 } (s.insertJob job) job.addr (some job) [] [] := by
  have hAddr : job.addr = s.brk := by
    rw [hNew]
    rfl
  refine ⟨fun x => ?_, fun e => ?_, rfl⟩
  · rw [ClientState.mem_jobs_insertJob, Option.some.injEq, eq_comm]
    constructor
    · rintro (hx | ⟨hx, -⟩)
      · exact .inl hx
      · have := hTidy.allocated x hx
        exact .inr ⟨hx, by omega⟩
    · rintro (hx | ⟨hx, -⟩)
      · exact .inl hx
      · exact .inr ⟨hx, hAbsent x hx⟩
  · rw [ClientState.entries_insertJob]
    simp only [List.not_mem_nil, false_or, not_false_iff, and_true]
    rfl

/-- A new job asks for its first resource. -/
theorem create_changed {job : LocalJob} (hId : IsInt job.jobId)
    (hAbsent : ∀ x ∈ s.jobs, x.jobId ≠ job.jobId)
    (hNew : job = makeJob s job.jobId job.nextReq job.timer) (dial : Dial) :
    Changed { s with brk := s.brk + 1 } (askForNextResource dial (s.insertJob job) job).1 job.addr
        (some (asked dial job).job) (asked dial job).dropped (asked dial job).added ∧
      (askForNextResource dial (s.insertJob job) job).2 = (asked dial job).out := by
  have hInsert := insertJob_changed hTidy hAbsent hNew
  have hKeys := hInsert.addrKeys hTidy.addrKeys (by rintro x ⟨⟩; rfl)
  obtain ⟨hAsk, hOut⟩ := askForNextResource_changed hKeys hInsert.mem_self hId dial
  exact ⟨hInsert.then rfl hAsk, hOut⟩

theorem create_move {job : LocalJob} (hId : IsInt job.jobId)
    (hAbsent : ∀ x ∈ s.jobs, x.jobId ≠ job.jobId)
    (hNew : job = makeJob s job.jobId job.nextReq job.timer)
    (hCause : cause = .request job.jobId job.nextReq) (dial : Dial) :
    Move cause s (askForNextResource dial (s.insertJob job) job).1
      (askForNextResource dial (s.insertJob job) job).2 := by
  obtain ⟨hChanged, hOut⟩ := create_changed hTidy hId hAbsent hNew dial
  rw [hOut]
  exact .create hId hAbsent hNew hCause hChanged

omit hTidy in
/-- A state stays tidy when the changed job loses its entry and an entry is
added only for the job as it now is. -/
theorem tidy_of_changed {s₀ s' : ClientState} {addr : Nat} {new : Option LocalJob}
    {dropped : List Int} {added : List FdJobEntry} (hTidy : Tidy s₀)
    (hJobs : s.jobs = s₀.jobs) (hEntries : s.entries = s₀.entries) (hBrk : s₀.brk ≤ s.brk)
    (hChanged : Changed s s' addr new dropped added)
    (hNew : ∀ x, new = some x → x.addr = addr ∧ x.addr < s.brk ∧ IsInt x.jobId)
    (hDropped : ∀ x ∈ s.jobs, x.addr = addr → x.nextReq ≠ [] → x.originSocket ∈ dropped)
    (hAdded : ∀ e ∈ added, 0 ≤ e.fd ∧
      ∃ x, new = some x ∧ x.addr = e.job ∧ x.nextReq ≠ [] ∧ x.originSocket = e.fd) :
    Tidy s' where
  addrKeys := by
    refine hChanged.addrKeys ?_ fun x hx => (hNew x hx).1
    intro x hx y hy
    rw [hJobs] at hx hy
    exact hTidy.addrKeys x hx y hy
  allocated job hJob := by
    rw [hChanged.brk]
    rcases (hChanged.jobs job).mp hJob with hJob | ⟨hJob, -⟩
    · exact (hNew job hJob).2.1
    · rw [hJobs] at hJob
      have := hTidy.allocated job hJob
      omega
  ids job hJob := by
    rcases (hChanged.jobs job).mp hJob with hJob | ⟨hJob, -⟩
    · exact (hNew job hJob).2.2
    · rw [hJobs] at hJob
      exact hTidy.ids job hJob
  entries e he := by
    rcases (hChanged.entries e).mp he with he | ⟨he, hKept⟩
    · obtain ⟨hFd, x, hx, hRest⟩ := hAdded e he
      exact ⟨hFd, x, (hChanged.jobs x).mpr (.inl hx), hRest⟩
    · rw [hEntries] at he
      obtain ⟨hFd, x, hx, hAddr, hNext, hSocket⟩ := hTidy.entries e he
      refine ⟨hFd, x, (hChanged.jobs x).mpr (.inr ⟨hJobs ▸ hx, fun hSame => hKept ?_⟩), hAddr,
        hNext, hSocket⟩
      rw [← hSocket]
      exact hDropped x (hJobs ▸ hx) hSame hNext

theorem Move.tidy {s' : ClientState} {out : List Effect} (h : Move cause s s' out) : Tidy s' := by
  -- the entry of a job is under the job's own socket, and there is no other
  have hSocket : ∀ {fd : Int} {job : LocalJob}, ⟨fd, job.addr⟩ ∈ s.entries → job ∈ s.jobs →
      ∀ x ∈ s.jobs, x.addr = job.addr → x.originSocket = fd := by
    intro fd job hEntry hJob x hx hSame
    obtain ⟨-, y, hy, hyAddr, -, hySocket⟩ := hTidy.entries _ hEntry
    rw [hTidy.addrKeys x hx y hy (hSame.trans hyAddr.symm)]
    exact hySocket
  cases h with
  | idle => exact hTidy
  | refuse _ _ => exact hTidy
  | reserve _ _ _ => exact hTidy
  | @create s' job dial hId hAbsent hNew _ hChanged =>
      have hAddr : job.addr = s.brk := by
        rw [hNew]
        rfl
      refine tidy_of_changed (s := { s with brk := s.brk + 1 }) hTidy rfl rfl (Nat.le_succ _)
        hChanged ?_ ?_ ?_
      · rintro x ⟨⟩
        rw [asked_addr, asked_jobId]
        exact ⟨rfl, by rw [hAddr]; exact Nat.lt_succ_self _, hId⟩
      · intro x hx hSame
        have := hTidy.allocated x hx
        omega
      · intro e he
        obtain ⟨hFd, hJob, hNext, hOrigin⟩ := asked_added he
        refine ⟨hFd, _, rfl, ?_, ?_, hOrigin⟩
        · rw [asked_addr, hJob]
        · rw [asked_nextReq]
          exact hNext
  | @grant s' fd job now dial hEntry hJob hChanged =>
      refine tidy_of_changed hTidy rfl rfl (le_refl _) hChanged ?_ ?_ ?_
      · rintro x ⟨⟩
        rw [asked_addr, asked_jobId, LocalJob.advance_addr, LocalJob.advance_jobId]
        exact ⟨rfl, hTidy.allocated job hJob, hTidy.ids job hJob⟩
      · intro x hx hSame _
        rw [hSocket hEntry hJob x hx hSame]
        exact List.mem_cons_self
      · intro e he
        obtain ⟨hFd, hAdvanced, hNext, hOrigin⟩ := asked_added he
        refine ⟨hFd, _, rfl, ?_, ?_, hOrigin⟩
        · rw [asked_addr, hAdvanced]
        · rw [asked_nextReq]
          exact hNext
  | @reject s' fd job hEntry hJob hChanged =>
      refine tidy_of_changed hTidy rfl rfl (le_refl _) hChanged (by simp) ?_ (by simp)
      intro x hx hSame _
      rw [hSocket hEntry hJob x hx hSame]
      exact List.mem_cons_self
  | @release s' job hJob _ hChanged =>
      refine tidy_of_changed hTidy rfl rfl (le_refl _) hChanged (by simp) ?_ (by simp)
      intro x hx hSame _
      rw [hTidy.addrKeys x hx job hJob hSame]
      exact List.mem_cons_self
  | @timeOut s' job hJob hNext hChanged =>
      refine tidy_of_changed hTidy rfl rfl (le_refl _) hChanged (by simp) ?_ (by simp)
      intro x hx hSame _
      rw [hTidy.addrKeys x hx job hJob hSame]
      exact List.mem_cons_self

end

theorem Moves.tidy {s s' : ClientState} {out : List Effect} (hTidy : Tidy s)
    (h : Moves cause s s' out) : Tidy s' := by
  induction h with
  | nil s => exact hTidy
  | cons hMove _ ih => exact ih (hMove.tidy hTidy)

/-! ## Every handler is a sequence of moves -/

/-- What the line of the scheduler asks for. -/
def causeOf : ClientEvent → Cause
  | .erlang instruction _ nodes _ =>
      match parseErlang instruction with
      | .jobRequest jobId destinations =>
          .request (atoi jobId) (parseDestinations nodes destinations)
      | .jobRelease jobId => .release (atoi jobId)
      | _ => .other
  | _ => .other

/-- A JOB_REQUEST brings a job id that is not in `table_localjobs`. -/
def FreshRequest (s : ClientState) (e : ClientEvent) : Prop :=
  ∀ job ∈ s.jobs, (causeOf e).requested ≠ some job.jobId

instance (s : ClientState) (e : ClientEvent) : Decidable (FreshRequest s e) :=
  inferInstanceAs (Decidable (∀ job ∈ s.jobs, (causeOf e).requested ≠ some job.jobId))

/-- JOB_STATUS and GET_NODES only answer. -/
def isQuery : ClientEvent → Bool
  | .erlang instruction _ _ _ =>
      match parseErlang instruction with
      | .jobStatus _ => true
      | .getNodes => true
      | _ => false
  | _ => false

/-- The second pass of the sweep, when the collected ids are of waiting jobs. -/
theorem timeOut_moves (ids : List Int) :
    ∀ {s : ClientState}, Tidy s →
      (∀ job ∈ s.jobs, job.jobId ∈ ids → job.nextReq ≠ []) →
      Moves cause s (timeOut ids s).1 (timeOut ids s).2 := by
  induction ids with
  | nil => exact fun _ _ => .nil _
  | cons jobId ids ih =>
      intro s hTidy hWaiting
      cases hFind : s.findJob jobId with
      | none =>
          simp only [timeOut, hFind]
          exact ih hTidy fun job hJob hId => hWaiting job hJob (List.mem_cons_of_mem _ hId)
      | some job =>
          obtain ⟨hJob, hId⟩ := ClientState.findJob_eq_some.mp hFind
          have hNext := hWaiting job hJob (by simp [hId])
          have hChanged := tearDown_release_changed hTidy hJob
          have hMove : Move cause s _ _ := .timeOut hJob hNext hChanged
          simp only [timeOut, hFind]
          rw [cToErlang_itoa (hTidy.ids job hJob)]
          refine .cons hMove (ih (hMove.tidy hTidy) ?_)
          intro x hx hxId
          rcases (hChanged.jobs x).mp hx with hNone | ⟨hOld, -⟩
          · cases hNone
          · exact hWaiting x hOld (List.mem_cons_of_mem _ hxId)

theorem checkOurjobTimeouts_moves {s : ClientState} (hTidy : Tidy s) (now : Int) :
    Moves cause s (checkOurjobTimeouts now s).1 (checkOurjobTimeouts now s).2 := by
  refine timeOut_moves _ hTidy fun job hJob hId => ?_
  obtain ⟨x, hx, hSame⟩ := List.mem_map.mp (List.mem_of_mem_take hId)
  obtain ⟨hx, hExpired⟩ := List.mem_filter.mp hx
  rw [← ClientState.eq_of_jobId hx hJob hSame]
  simp only [expired, Bool.and_eq_true, decide_eq_true_eq] at hExpired
  exact hExpired.1

theorem erlangToC_move {s : ClientState} (hTidy : Tidy s) (nodes : Table nodeCallbacks)
    (timer : Int) (dial : Dial) (c : ErlangCommand)
    (hFresh : ∀ jobId destinations, c = .jobRequest jobId destinations →
      ∀ job ∈ s.jobs, job.jobId ≠ atoi jobId)
    (hRequest : ∀ jobId destinations, c = .jobRequest jobId destinations →
      cause = .request (atoi jobId) (parseDestinations nodes destinations))
    (hRelease : ∀ jobId, c = .jobRelease jobId → cause = .release (atoi jobId))
    (hQuery : (∀ jobId, c ≠ .jobStatus jobId) ∧ c ≠ .getNodes) :
    Move cause s (erlangToC nodes timer dial s c).1 (erlangToC nodes timer dial s c).2 := by
  cases c with
  | jobRequest jobId destinations =>
      have hAbsent := hFresh jobId destinations rfl
      have hCause := hRequest jobId destinations rfl
      cases destinations with
      | nil => exact .refuse hAbsent hCause
      | cons token tokens =>
          exact create_move hTidy (atoi_isInt jobId) hAbsent rfl hCause dial
  | jobRelease jobId =>
      simp only [erlangToC]
      cases hFind : s.findJob (atoi jobId) with
      | none => exact .idle
      | some job => exact release_move hTidy hFind (hRelease jobId rfl)
  | jobStatus jobId => exact absurd rfl (hQuery.1 jobId)
  | getNodes => exact absurd rfl hQuery.2
  | ignored => exact .idle

/-- A handler other than the sweep is one move. -/
theorem clientStep_move {s : ClientState} (hTidy : Tidy s) {e : ClientEvent}
    (hFresh : FreshRequest s e) (hQuery : isQuery e = false) (hSweep : ∀ now, e ≠ .sweep now) :
    Move (causeOf e) s (clientStep s e).1 (clientStep s e).2 := by
  cases e with
  | erlang instruction timer nodes dial =>
      apply erlangToC_move hTidy nodes timer dial (parseErlang instruction)
      · intro jobId destinations hParse job hJob hSame
        exact hFresh job hJob (by simp [causeOf, Cause.requested, hParse, hSame])
      · intro jobId destinations hParse
        simp [causeOf, hParse]
      · intro jobId hParse
        simp [causeOf, hParse]
      · constructor
        · intro jobId hParse
          simp [isQuery, hParse] at hQuery
        · intro hParse
          simp [isQuery, hParse] at hQuery
  | line fd instruction now dial => exact clientToMyserver_move hTidy now dial fd _
  | sendRequest fd => exact sendRequest_move hTidy fd
  | disconnect fd => exact handleOutboundDisconnect_move hTidy fd
  | sweep now => exact absurd rfl (hSweep now)

/-- **Every handler is a sequence of moves**, if a JOB_REQUEST brings a new id. -/
theorem clientStep_moves {s : ClientState} (hTidy : Tidy s) {e : ClientEvent}
    (hFresh : FreshRequest s e) (hQuery : isQuery e = false) :
    Moves (causeOf e) s (clientStep s e).1 (clientStep s e).2 := by
  by_cases hSweep : ∃ now, e = .sweep now
  · obtain ⟨now, rfl⟩ := hSweep
    exact checkOurjobTimeouts_moves hTidy now
  · exact (clientStep_move hTidy hFresh hQuery fun now h => hSweep ⟨now, h⟩).moves

theorem clientStep_query {s : ClientState} {e : ClientEvent} (hQuery : isQuery e = true) :
    (clientStep s e).1 = s := by
  cases e with
  | erlang instruction timer nodes dial =>
      simp only [isQuery] at hQuery
      simp only [clientStep]
      cases hParse : parseErlang instruction with
      | jobStatus jobId =>
          simp only [erlangToC]
          cases s.findJob (atoi jobId) with
          | none => rfl
          | some job => by_cases hNext : job.nextReq = [] <;> simp [hNext]
      | getNodes => rfl
      | _ => simp [hParse] at hQuery
  | _ => simp [isQuery] at hQuery

theorem tidy_init : Tidy ClientState.init := by
  constructor <;> simp [ClientState.AddrKeys, ClientState.jobs, ClientState.entries,
    ClientState.init]

theorem Tidy.step {s : ClientState} (hTidy : Tidy s) {e : ClientEvent} (hFresh : FreshRequest s e) :
    Tidy (clientStep s e).1 := by
  cases hQuery : isQuery e with
  | true =>
      rw [clientStep_query hQuery]
      exact hTidy
  | false => exact (clientStep_moves hTidy hFresh hQuery).tidy hTidy

end ResourceAgent.Ports.Client
