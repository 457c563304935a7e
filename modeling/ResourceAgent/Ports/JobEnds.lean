import Mathlib.Data.List.Nodup
import ResourceAgent.Ports.Replacement

/-!
# How a job ends

A job leaves the agent in four ways: JOB_RELEASE, the timeout sweep, a rejection on the
connection of its request in flight, and the end of that connection.  Each of them
releases what the job holds and takes it out of both tables, and each is written out on
its own.

Two of them differ from the others.  A rejection does not close the connection it came on.
JOB_RELEASE and the sweep find that connection through `origin_socket`, which is not reset
when a later dial fails: the descriptor may have been closed, and may be another job's by
now.  `ends_cleanly_iff` says exactly when an end does what all four are meant to do.

A job that is replaced while an index entry leads to it is freed, and its block may be the
one of another job later.  So the runs are those in which none is.
-/

namespace ResourceAgent.Ports.JobEnds

open ResourceAgent.Ports.HashTable
open ResourceAgent.Ports.Records
open ResourceAgent.Ports.Wire
open ResourceAgent.Ports.Client
open ResourceAgent.Ports.Outcomes
open ResourceAgent.Ports.ClientShape
open ResourceAgent.Verified.CText
open ResourceAgent.Verified.Runs

/-! ## What every reachable state has -/

/-- A JOB_REQUEST may bring an id that is already there, so an entry may lead to no job;
but the job it leads to, if there is one, has it under its own socket. -/
structure Anchored (s : ClientState) : Prop extends Rooted s where
  fds : ∀ e ∈ s.entries, 0 ≤ e.fd
  sockets : ∀ e ∈ s.entries, ∀ job ∈ s.jobs, job.addr = e.job → job.originSocket = e.fd
  held : ∀ job ∈ s.jobs, ∀ granted ∈ job.grantedReqs, 0 ≤ granted.providerFd

section

variable {s s' : ClientState}

theorem anchored_init : Anchored ClientState.init := by
  refine ⟨rooted_init, ?_, ?_, ?_⟩ <;>
    simp [ClientState.jobs, ClientState.entries, ClientState.init]

/-- One job changes.  If it stays, its entries go or lead to it under its socket. -/
theorem Anchored.of_changed (h : Anchored s) {addr : Nat} {new : Option LocalJob}
    {dropped : List Int} {added : List FdJobEntry} (hChanged : Changed s s' addr new dropped added)
    (hRooted : Rooted s')
    (hNew : ∀ x, new = some x → x.addr = addr ∧ ∀ granted ∈ x.grantedReqs, 0 ≤ granted.providerFd)
    (hDropped : ∀ e ∈ s.entries, e.job = addr → new ≠ none → e.fd ∈ dropped)
    (hAdded : ∀ e ∈ added, 0 ≤ e.fd ∧ e.job = addr ∧
      ∀ x, new = some x → x.originSocket = e.fd) : Anchored s' where
  toRooted := hRooted
  fds e he := by
    rcases (hChanged.entries e).mp he with he | ⟨he, -⟩
    · exact (hAdded e he).1
    · exact h.fds e he
  sockets e he job hJob hLeads := by
    rcases (hChanged.entries e).mp he with he | ⟨he, hKept⟩
    · rcases (hChanged.jobs job).mp hJob with hSame | ⟨-, hNe⟩
      · exact (hAdded e he).2.2 job hSame
      · exact absurd (hLeads.trans (hAdded e he).2.1) hNe
    · rcases (hChanged.jobs job).mp hJob with hSame | ⟨hOld, -⟩
      · have hAddr := (hNew job hSame).1
        refine absurd (hDropped e he (hLeads.symm.trans hAddr) ?_) hKept
        rw [hSame]
        exact Option.some_ne_none job
      · exact h.sockets e he job hOld hLeads
  held job hJob := by
    rcases (hChanged.jobs job).mp hJob with hSame | ⟨hOld, -⟩
    · exact (hNew job hSame).2
    · exact h.held job hOld

/-- Jobs and entries only go. -/
theorem Anchored.of_shrinks (h : Anchored s) (hShrinks : Shrinks s s') : Anchored s' where
  toRooted := h.toRooted.of_shrinks hShrinks
  fds e he := h.fds e (hShrinks.entries e he)
  sockets e he job hJob := h.sockets e (hShrinks.entries e he) job (hShrinks.jobs job hJob)
  held job hJob := h.held job (hShrinks.jobs job hJob)

/-- The job of an entry. -/
theorem Anchored.owner (h : Anchored s) {fd : Int} {job : LocalJob}
    (hOwner : s.owner fd = some job) :
    ⟨fd, job.addr⟩ ∈ s.entries ∧ job ∈ s.jobs ∧ job.originSocket = fd := by
  obtain ⟨hEntry, hJob⟩ := (ClientState.owner_eq_some h.placed.addrKeys).mp hOwner
  exact ⟨hEntry, hJob, h.sockets _ hEntry job hJob rfl⟩

/-- A job has one entry at most, that of its connection. -/
theorem Anchored.entry_fd (h : Anchored s) {fd : Int} {job : LocalJob}
    (hOwner : s.owner fd = some job) {e : FdJobEntry} (he : e ∈ s.entries)
    (hLeads : e.job = job.addr) : e.fd = fd := by
  obtain ⟨-, hJob, hSocket⟩ := h.owner hOwner
  rw [← h.sockets e he job hJob hLeads.symm, hSocket]

/-- What a job holds after a GRANTED. -/
theorem mem_grantedReqs_advance {job : LocalJob} {fd now : Int} {granted : PendingResource}
    (h : granted ∈ (LocalJob.advance job fd now).grantedReqs) :
    granted.providerFd = fd ∨ granted ∈ job.grantedReqs := by
  unfold LocalJob.advance at h
  split at h
  · exact .inr h
  · rcases List.mem_cons.mp h with rfl | h
    · exact .inl rfl
    · exact .inr h

/-- A job is stored at an address no entry has. -/
theorem Anchored.insertJob (h : Anchored s) {job : LocalJob} (hAddr : job.addr = s.brk)
    (hId : IsInt job.jobId) (hBare : job.grantedReqs = []) : Anchored (s.insertJob job) where
  placed := by
    refine h.placed.of_new (Nat.le_succ _) (some job) (fun x hx => ?_) ?_
    · rcases ClientState.mem_jobs_insertJob.mp hx with rfl | ⟨hOld, -⟩
      · exact .inl rfl
      · refine .inr ⟨hOld, ?_⟩
        rintro y ⟨⟩
        have := h.placed.allocated x hOld
        omega
    · rintro x ⟨⟩
      exact ⟨by rw [hAddr]; exact Nat.lt_succ_self _, hId⟩
  fds := h.fds
  allocated e he := Nat.lt_succ_of_lt (h.allocated e he)
  sockets e he x hx hLeads := by
    rcases ClientState.mem_jobs_insertJob.mp hx with rfl | ⟨hOld, -⟩
    · have := h.allocated e he
      omega
    · exact h.sockets e he x hOld hLeads
  held x hx := by
    rcases ClientState.mem_jobs_insertJob.mp hx with rfl | ⟨hOld, -⟩
    · simp [hBare]
    · exact h.held x hOld

/-- **Every handler keeps the index anchored.** -/
theorem Anchored.handler (h : Anchored s) (e : ClientEvent) : Anchored (clientStep s e).1 := by
  have hRooted := h.toRooted.step e
  cases clientStep_shape h.placed e with
  | shrinks hShrinks _ _ _ => exact h.of_shrinks hShrinks
  | requested job dial _ _ hAddr hId hBare hChanged _ =>
      refine (h.insertJob hAddr hId hBare).of_changed hChanged hRooted ?_ ?_ ?_
      · rintro x ⟨⟩
        rw [asked_addr, asked_grantedReqs, hBare]
        exact ⟨rfl, by simp⟩
      · intro e he hLeads
        have := h.allocated e he
        omega
      · intro e he
        obtain ⟨hFd, hLeads, -, hOrigin⟩ := asked_added he
        refine ⟨hFd, hLeads, ?_⟩
        rintro x ⟨⟩
        exact hOrigin
  | advanced fd instruction now dial job _ _ _ hOwner hChanged _ =>
      obtain ⟨hEntry, hJob, -⟩ := h.owner hOwner
      have hAddr := LocalJob.advance_addr job fd now
      refine h.of_changed hChanged hRooted ?_ ?_ ?_
      · rintro x ⟨⟩
        rw [asked_addr, asked_grantedReqs]
        refine ⟨hAddr, fun granted hGranted => ?_⟩
        rcases mem_grantedReqs_advance hGranted with hFd | hOld
        · rw [hFd]
          exact h.fds _ hEntry
        · exact h.held job hJob granted hOld
      · intro e he hLeads _
        rw [h.entry_fd hOwner he hLeads]
        exact List.mem_cons_self
      · intro e he
        obtain ⟨hFd, hLeads, -, hOrigin⟩ := asked_added he
        refine ⟨hFd, hLeads.trans hAddr, ?_⟩
        rintro x ⟨⟩
        exact hOrigin

end

/-- A handler of the client side, or one turn of the second loop of
`check_ourjob_timeouts`. -/
inductive Step where
  | handler (e : ClientEvent)
  | timeOut (jobId : Int)

def step (s : ClientState) : Step → ClientState
  | .handler e => (clientStep s e).1
  | .timeOut jobId => (timeOut [jobId] s).1

/-- No index entry is left with the address of a job that was freed. -/
def Orderly (s : ClientState) : Step → Prop
  | .handler e => Replacement.Orderly s e
  | .timeOut _ => True

instance (s : ClientState) : ∀ e, Decidable (Orderly s e)
  | .handler e => inferInstanceAs (Decidable (Replacement.Orderly s e))
  | .timeOut _ => .isTrue trivial

theorem Anchored.step {s : ClientState} (h : Anchored s) (e : Step) : Anchored (step s e) := by
  cases e with
  | timeOut jobId => exact h.of_shrinks (timeOut_shrinks [jobId] h.placed).1
  | handler e => exact h.handler e

/-! ## The four ends -/

inductive End where
  /-- a JOB_RELEASE line -/
  | release (instruction : Text) (timer : Int) (nodes : Table nodeCallbacks) (dial : Dial)
  /-- the turn of `check_ourjob_timeouts` for the job, which has expired -/
  | timeOut (now : Int)
  /-- a DENIED or unknown line on the connection of the request in flight -/
  | reject (fd : Int) (instruction : Text) (now : Int) (dial : Dial)
  /-- the end of that connection -/
  | disconnect (fd : Int)

/-- The end is one of this job. -/
def End.Of (s : ClientState) (job : LocalJob) : End → Prop
  | .release instruction _ _ _ =>
      ∃ jobId, parseErlang instruction = .jobRelease jobId ∧ atoi jobId = job.jobId
  | .timeOut now => expired now job = true
  | .reject fd instruction _ _ => s.owner fd = some job ∧ parseRemote instruction = .reject
  | .disconnect fd => s.owner fd = some job

/-- What the agent does.  After `handle_outbound_disconnect`, `recive_message_from_remote`
closes the connection. -/
def endStep (s : ClientState) (job : LocalJob) : End → ClientState × List Effect
  | .release instruction timer nodes dial => clientStep s (.erlang instruction timer nodes dial)
  | .timeOut _ => timeOut [job.jobId] s
  | .reject fd instruction now dial => clientStep s (.line fd instruction now dial)
  | .disconnect fd =>
      ((clientStep s (.disconnect fd)).1,
        (clientStep s (.disconnect fd)).2 ++ [.epollDel fd, .close fd])

/-- The connections a job holds. -/
def providers (job : LocalJob) : List Int := job.grantedReqs.map PendingResource.providerFd

/-- The connection of the request in flight, if there is one. -/
def inFlight (s : ClientState) (job : LocalJob) : List Int :=
  (s.entries.filter fun e => e.job == job.addr).map FdJobEntry.fd

def closes (out : List Effect) : List Int :=
  out.filterMap fun
    | .close fd => some fd
    | _ => none

/-- The descriptor an effect acts on. -/
def actsOn : Effect → Option Int
  | .send fd _ => some fd
  | .close fd => some fd
  | .epollDel fd => some fd
  | _ => none

def isSendOn (fd : Int) : Effect → Bool
  | .send fd' _ => fd' == fd
  | _ => false

/-- **What an end is meant to do.**  The job is in neither table, every provider gets one
RELEASE, the connections of the job are closed, and the other jobs, their entries and
their connections are left alone. -/
structure EndsCleanly (s : ClientState) (job : LocalJob) (r : ClientState × List Effect) :
    Prop where
  gone : ∀ x ∈ r.1.jobs, x.jobId ≠ job.jobId
  unindexed : ∀ e ∈ r.1.entries, e.job ≠ job.addr
  released : ∀ granted ∈ job.grantedReqs, r.2.countP (isSendOn granted.providerFd) = 1 ∧
    .send granted.providerFd (releaseLine job.jobId granted.type granted.amount) ∈ r.2
  closed : (providers job ++ inFlight s job).Subperm (closes r.2)
  jobs : ∀ x, x ≠ job → (x ∈ r.1.jobs ↔ x ∈ s.jobs)
  entries : ∀ x ∈ s.jobs, x ≠ job → ∀ e, e.job = x.addr → (e ∈ r.1.entries ↔ e ∈ s.entries)
  connections : ∀ x ∈ s.jobs, x ≠ job → ∀ fd ∈ providers x ++ inFlight s x,
    ∀ effect ∈ r.2, actsOn effect ≠ some fd

def End.isReject : End → Bool
  | .reject _ _ _ _ => true
  | _ => false

/-- JOB_RELEASE and the sweep look the connection up by `origin_socket`. -/
def End.tearsDown : End → Bool
  | .release _ _ _ _ => true
  | .timeOut _ => true
  | _ => false

/-- The state in which an end is clean: the job is not rejected, it holds no descriptor
twice and none of another job, and if its socket is looked up and found, it is not another
job's. -/
structure Isolated (s : ClientState) (job : LocalJob) (e : End) : Prop where
  closing : e.isReject = false
  distinct : (providers job).Nodup
  own : ∀ x ∈ s.jobs, x ≠ job → ∀ fd ∈ providers x ++ inFlight s x,
    fd ∉ providers job ++ inFlight s job
  socket : e.tearsDown = true → ∀ entry ∈ s.entries, entry.fd = job.originSocket →
    ∀ x ∈ s.jobs, x ≠ job → job.originSocket ∉ providers x ++ inFlight s x

/-! ## What an end does -/

/-- Before the release of what the job holds. -/
def beforeRelease (s : ClientState) (job : LocalJob) (e : End) : List Effect :=
  if e.tearsDown then (tearDown s job).2 else []

/-- And after it. -/
def afterRelease (job : LocalJob) : End → List Effect
  | .release _ _ _ _ => []
  | .timeOut _ => [.toErlang .timeout (itoa job.jobId)]
  | .reject _ _ _ _ => [.toErlang .rejected (itoa job.jobId)]
  | .disconnect fd => [.toErlang .rejected (itoa job.jobId), .epollDel fd, .close fd]

section

variable {s : ClientState} {job : LocalJob} {e : End}

theorem mem_inFlight {fd : Int} : fd ∈ inFlight s job ↔ ⟨fd, job.addr⟩ ∈ s.entries := by
  simp only [inFlight, List.mem_map, List.mem_filter, beq_iff_eq]
  constructor
  · rintro ⟨⟨fd', addr⟩, ⟨hEntry, rfl⟩, rfl⟩
    exact hEntry
  · intro hEntry
    exact ⟨_, ⟨hEntry, rfl⟩, rfl⟩

/-- A job has at most one connection in flight, and `origin_socket` names it. -/
theorem Anchored.inFlight (h : Anchored s) (hJob : job ∈ s.jobs) {fd : Int}
    (hFd : fd ∈ inFlight s job) : fd = job.originSocket :=
  (h.sockets _ (mem_inFlight.mp hFd) job hJob rfl).symm

/-- **All ends do the same to the tables.** -/
theorem endStep_changed (h : Anchored s) (hJob : job ∈ s.jobs) (hEnd : e.Of s job) :
    Changed s (endStep s job e).1 job.addr none [job.originSocket] [] := by
  have hKeys := h.placed.addrKeys
  have hFind : s.findJob job.jobId = some job := ClientState.findJob_eq_some.mpr ⟨hJob, rfl⟩
  cases e with
  | release instruction timer nodes dial =>
      obtain ⟨jobId, hParse, hId⟩ := hEnd
      simp only [endStep, clientStep, hParse, erlangToC, hId, hFind]
      exact ended_tearDown hKeys hJob h.fds
  | timeOut now =>
      simp only [endStep, timeOut, hFind]
      exact ended_tearDown hKeys hJob h.fds
  | reject fd instruction now dial =>
      obtain ⟨hOwner, hParse⟩ := hEnd
      simp only [endStep, clientStep, hParse, clientToMyserver, hOwner]
      rw [(h.owner hOwner).2.2]
      exact ended_removeEntry hKeys hJob fd
  | disconnect fd =>
      have hOwner : s.owner fd = some job := hEnd
      simp only [endStep, clientStep, handleOutboundDisconnect, hOwner]
      rw [(h.owner hOwner).2.2]
      exact ended_removeEntry hKeys hJob fd

theorem endStep_effects (h : Anchored s) (hJob : job ∈ s.jobs) (hEnd : e.Of s job) :
    (endStep s job e).2 = beforeRelease s job e ++ released job ++ afterRelease job e := by
  have hFind : s.findJob job.jobId = some job := ClientState.findJob_eq_some.mpr ⟨hJob, rfl⟩
  have hSent : ∀ instruction, cToErlang instruction (itoa job.jobId) =
      [.toErlang instruction (itoa job.jobId)] :=
    fun instruction => cToErlang_itoa (h.placed.ids job hJob)
  cases e with
  | release instruction timer nodes dial =>
      obtain ⟨jobId, hParse, hId⟩ := hEnd
      simp only [endStep, clientStep, hParse, erlangToC, hId, hFind, afterRelease,
        List.append_nil]
      rfl
  | timeOut now =>
      simp only [endStep, timeOut, hFind, hSent, afterRelease, List.append_nil]
      rfl
  | reject fd instruction now dial =>
      obtain ⟨hOwner, hParse⟩ := hEnd
      simp only [endStep, clientStep, hParse, clientToMyserver, hOwner, hSent]
      rfl
  | disconnect fd =>
      have hOwner : s.owner fd = some job := hEnd
      simp only [endStep, clientStep, handleOutboundDisconnect, hOwner, hSent]
      rw [List.append_assoc]
      rfl

/-! ### Sends and closes -/

theorem closes_append (out out' : List Effect) : closes (out ++ out') = closes out ++ closes out' :=
  List.filterMap_append

theorem mem_closes {out : List Effect} {fd : Int} : fd ∈ closes out ↔ Effect.close fd ∈ out := by
  simp only [closes, List.mem_filterMap]
  constructor
  · rintro ⟨effect, hMem, hClose⟩
    cases effect with
    | close fd' =>
        cases hClose
        exact hMem
    | _ => cases hClose
  · intro hMem
    exact ⟨_, hMem, rfl⟩

/-- One RELEASE and one close for each connection held. -/
theorem released_counts {gs : List PendingResource} (hHeld : ∀ g ∈ gs, 0 ≤ g.providerFd)
    (jobId fd : Int) :
    closes (gs.flatMap (releaseProvider jobId)) = gs.map PendingResource.providerFd ∧
      (gs.flatMap (releaseProvider jobId)).countP (isSendOn fd) =
        (gs.map PendingResource.providerFd).count fd := by
  induction gs with
  | nil => exact ⟨rfl, rfl⟩
  | cons g gs ih =>
      obtain ⟨hCloses, hSends⟩ := ih fun x hx => hHeld x (List.mem_cons_of_mem _ hx)
      have hHead : releaseProvider jobId g =
          [.send g.providerFd (releaseLine jobId g.type g.amount), .epollDel g.providerFd,
            .close g.providerFd] := if_pos (hHeld g List.mem_cons_self)
      rw [List.flatMap_cons, hHead, List.map_cons]
      constructor
      · rw [closes_append, hCloses]
        rfl
      · rw [List.countP_append, hSends, List.count_cons, Nat.add_comm]
        simp [List.countP_cons, isSendOn]

theorem closes_released (h : Anchored s) (hJob : job ∈ s.jobs) :
    closes (released job) = providers job :=
  (released_counts (h.held job hJob) job.jobId 0).1

theorem send_mem_released (h : Anchored s) (hJob : job ∈ s.jobs) {granted : PendingResource}
    (hGranted : granted ∈ job.grantedReqs) :
    .send granted.providerFd (releaseLine job.jobId granted.type granted.amount) ∈
      released job := by
  refine List.mem_flatMap.mpr ⟨granted, hGranted, ?_⟩
  rw [releaseProvider, if_pos (h.held job hJob granted hGranted)]
  exact List.mem_cons_self

theorem actsOn_released {effect : Effect} (hMem : effect ∈ released job) {fd : Int}
    (hActs : actsOn effect = some fd) : fd ∈ providers job := by
  obtain ⟨granted, hGranted, hMem⟩ := List.mem_flatMap.mp hMem
  refine List.mem_map.mpr ⟨granted, hGranted, ?_⟩
  unfold releaseProvider at hMem
  split at hMem
  · simp only [List.mem_cons, List.not_mem_nil, or_false] at hMem
    rcases hMem with rfl | rfl | rfl <;> exact Option.some.inj hActs
  · cases hMem

/-- The connection an end looks up and finds. -/
theorem beforeRelease_eq (h : Anchored s) :
    beforeRelease s job e =
      if e.tearsDown = true ∧ ∃ entry ∈ s.entries, entry.fd = job.originSocket then
        [.epollDel job.originSocket, .close job.originSocket]
      else [] := by
  have hFound : (0 ≤ job.originSocket ∧ (s.findEntry job.originSocket).isSome) ↔
      ∃ entry ∈ s.entries, entry.fd = job.originSocket := by
    rw [Option.isSome_iff_exists]
    constructor
    · rintro ⟨-, entry, hEntry⟩
      exact ⟨entry, ClientState.findEntry_eq_some.mp hEntry⟩
    · rintro ⟨entry, hMem, hFd⟩
      exact ⟨hFd ▸ h.fds entry hMem, entry, ClientState.findEntry_eq_some.mpr ⟨hMem, hFd⟩⟩
  unfold beforeRelease
  by_cases hTears : e.tearsDown = true
  · by_cases hThere : ∃ entry ∈ s.entries, entry.fd = job.originSocket
    · rw [if_pos hTears, if_pos ⟨hTears, hThere⟩, tearDown, if_pos (hFound.mpr hThere)]
    · rw [if_pos hTears, if_neg fun hBoth => hThere hBoth.2, tearDown,
        if_neg fun hBoth => hThere (hFound.mp hBoth)]
  · rw [if_neg hTears, if_neg fun hBoth => hTears hBoth.1]

theorem countP_afterRelease (fd : Int) : (afterRelease job e).countP (isSendOn fd) = 0 := by
  cases e <;> rfl

/-- An end sends what `release_resources` sends. -/
theorem countP_endStep (h : Anchored s) (hJob : job ∈ s.jobs) (hEnd : e.Of s job) (fd : Int) :
    (endStep s job e).2.countP (isSendOn fd) = (providers job).count fd := by
  have hBefore : (beforeRelease s job e).countP (isSendOn fd) = 0 := by
    rw [beforeRelease_eq h]
    split <;> rfl
  rw [endStep_effects h hJob hEnd, List.countP_append, List.countP_append, hBefore,
    countP_afterRelease, Nat.zero_add, Nat.add_zero]
  exact (released_counts (h.held job hJob) job.jobId fd).2

theorem inFlight_eq (h : Anchored s) (hJob : job ∈ s.jobs) :
    inFlight s job = [] ∨ inFlight s job = [job.originSocket] := by
  have hNodup : (inFlight s job).Nodup := by
    refine List.Pairwise.map _ (fun a b hab => ?_)
      (List.Pairwise.filter _ s.tableOurjobs.distinct)
    simpa using hab
  have hAll : ∀ fd ∈ inFlight s job, fd = job.originSocket := fun fd hFd => h.inFlight hJob hFd
  cases hList : inFlight s job with
  | nil => exact .inl rfl
  | cons a rest =>
      rw [hList] at hNodup hAll
      cases rest with
      | nil =>
          rw [hAll a List.mem_cons_self]
          exact .inr rfl
      | cons b rest =>
          have hSame : a = b := (hAll a (by simp)).trans (hAll b (by simp)).symm
          rw [hSame] at hNodup
          simp at hNodup

/-! ### When an end is clean -/

theorem closes_endStep (h : Anchored s) (hJob : job ∈ s.jobs) (hEnd : e.Of s job) :
    closes (endStep s job e).2 =
      closes (beforeRelease s job e) ++ providers job ++ closes (afterRelease job e) := by
  rw [endStep_effects h hJob hEnd, closes_append, closes_append, closes_released h hJob]

/-- The connection in flight is closed, except by a rejection. -/
theorem close_inFlight (h : Anchored s) (hJob : job ∈ s.jobs) (hEnd : e.Of s job)
    (hClosing : e.isReject = false) :
    (providers job ++ inFlight s job).Subperm (closes (endStep s job e).2) := by
  rw [closes_endStep h hJob hEnd]
  rcases inFlight_eq h hJob with hNone | hOne
  · rw [hNone, List.append_nil]
    exact ((List.sublist_append_right _ _).trans (List.sublist_append_left _ _)).subperm
  · rw [hOne]
    have hEntry : ⟨job.originSocket, job.addr⟩ ∈ s.entries :=
      mem_inFlight.mp (by rw [hOne]; exact List.mem_singleton_self _)
    have hTorn : e.tearsDown = true → closes (beforeRelease s job e) = [job.originSocket] := by
      intro hTears
      rw [beforeRelease_eq h, if_pos ⟨hTears, _, hEntry, rfl⟩]
      rfl
    have hSwap : (providers job ++ [job.originSocket]).Perm (job.originSocket :: providers job) :=
      List.perm_append_singleton _ _
    cases e with
    | release instruction timer nodes dial =>
        rw [hTorn rfl]
        exact (hSwap.trans (by simp [afterRelease, closes])).subperm
    | timeOut now =>
        rw [hTorn rfl]
        exact (hSwap.trans (by simp [afterRelease, closes])).subperm
    | reject fd instruction now dial => cases hClosing
    | disconnect fd =>
        have hOwner : s.owner fd = some job := hEnd
        have hBefore : closes (beforeRelease s job (.disconnect fd)) = [] := rfl
        have hAfter : closes (afterRelease job (.disconnect fd)) = [fd] := rfl
        rw [(h.owner hOwner).2.2, hBefore, hAfter, List.nil_append]

/-- What an end acts on: the descriptors of the job, and the socket it looks up. -/
theorem actsOn_endStep (h : Anchored s) (hJob : job ∈ s.jobs) (hEnd : e.Of s job)
    {effect : Effect} (hMem : effect ∈ (endStep s job e).2) {fd : Int}
    (hActs : actsOn effect = some fd) :
    fd ∈ providers job ++ inFlight s job ∨
      (e.tearsDown = true ∧ fd = job.originSocket ∧
        ∃ entry ∈ s.entries, entry.fd = job.originSocket) := by
  rw [endStep_effects h hJob hEnd] at hMem
  rcases List.mem_append.mp hMem with hMem | hMem
  · rcases List.mem_append.mp hMem with hMem | hMem
    · rw [beforeRelease_eq h] at hMem
      split at hMem
      · rename_i hTorn
        refine .inr ⟨hTorn.1, ?_, hTorn.2⟩
        simp only [List.mem_cons, List.not_mem_nil, or_false] at hMem
        rcases hMem with rfl | rfl <;> exact (Option.some.inj hActs).symm
      · cases hMem
    · exact .inl (List.mem_append_left _ (actsOn_released hMem hActs))
  · cases e with
    | disconnect fd' =>
        have hOwner : s.owner fd' = some job := hEnd
        have hFd : fd' = fd := by
          simp only [afterRelease, List.mem_cons, List.not_mem_nil, or_false] at hMem
          rcases hMem with rfl | rfl | rfl
          · cases hActs
          · exact Option.some.inj hActs
          · exact Option.some.inj hActs
        rw [← hFd]
        exact .inl (List.mem_append_right _ (mem_inFlight.mpr (h.owner hOwner).1))
    | release instruction timer nodes dial => cases hMem
    | timeOut now =>
        rw [List.mem_singleton.mp hMem] at hActs
        cases hActs
    | reject fd' instruction now dial =>
        rw [List.mem_singleton.mp hMem] at hActs
        cases hActs

/-- No other job has an entry under the socket of the job that ends. -/
theorem Isolated.other_socket (h : Anchored s) (hJob : job ∈ s.jobs) (hEnd : e.Of s job)
    (hIsolated : Isolated s job e) {x : LocalJob} (hx : x ∈ s.jobs) (hNe : x ≠ job) :
    job.originSocket ∉ inFlight s x := by
  intro hFd
  have hEntry := mem_inFlight.mp hFd
  cases hTears : e.tearsDown with
  | true =>
      exact hIsolated.socket hTears _ hEntry rfl x hx hNe (List.mem_append_right _ hFd)
  | false =>
      cases e with
      | release instruction timer nodes dial => cases hTears
      | timeOut now => cases hTears
      | reject fd instruction now dial => cases hIsolated.closing
      | disconnect fd =>
          have hOwner : s.owner fd = some job := hEnd
          obtain ⟨hOwn, -, hSocket⟩ := h.owner hOwner
          have hSame := ClientState.eq_of_fd hEntry hOwn hSocket
          exact hNe (h.placed.addrKeys x hx job hJob (congrArg FdJobEntry.job hSame))

theorem Isolated.endsCleanly (h : Anchored s) (hJob : job ∈ s.jobs) (hEnd : e.Of s job)
    (hIsolated : Isolated s job e) : EndsCleanly s job (endStep s job e) := by
  have hChanged := endStep_changed h hJob hEnd
  have hKeys := h.placed.addrKeys
  have hJobs : ∀ x, x ∈ (endStep s job e).1.jobs ↔ x ∈ s.jobs ∧ x.addr ≠ job.addr := by
    intro x
    rw [hChanged.jobs]
    simp
  have hEntries : ∀ entry, entry ∈ (endStep s job e).1.entries ↔
      entry ∈ s.entries ∧ entry.fd ≠ job.originSocket := by
    intro entry
    rw [hChanged.entries]
    simp
  constructor
  case gone =>
    intro x hx hSame
    obtain ⟨hOld, hAddr⟩ := (hJobs x).mp hx
    exact hAddr (congrArg LocalJob.addr (ClientState.eq_of_jobId hOld hJob hSame))
  case unindexed =>
    intro entry hEntry hLeads
    obtain ⟨hOld, hFd⟩ := (hEntries entry).mp hEntry
    exact hFd (h.sockets entry hOld job hJob hLeads.symm).symm
  case released =>
    intro granted hGranted
    constructor
    · rw [countP_endStep h hJob hEnd]
      exact List.count_eq_one_of_mem hIsolated.distinct
        (List.mem_map.mpr ⟨granted, hGranted, rfl⟩)
    · rw [endStep_effects h hJob hEnd]
      exact List.mem_append_left _ (List.mem_append_right _ (send_mem_released h hJob hGranted))
  case closed => exact close_inFlight h hJob hEnd hIsolated.closing
  case jobs =>
    intro x hNe
    rw [hJobs]
    constructor
    · exact fun hx => hx.1
    · exact fun hx => ⟨hx, fun hSame => hNe (hKeys x hx job hJob hSame)⟩
  case entries =>
    intro x hx hNe entry hLeads
    rw [hEntries]
    constructor
    · exact fun hEntry => hEntry.1
    · intro hEntry
      refine ⟨hEntry, fun hFd => hIsolated.other_socket h hJob hEnd hx hNe ?_⟩
      rw [mem_inFlight, ← hFd, ← hLeads]
      exact hEntry
  case connections =>
    intro x hx hNe fd hFd effect hMem hActs
    rcases actsOn_endStep h hJob hEnd hMem hActs with hOwn | ⟨hTears, rfl, entry, hEntry, hSame⟩
    · exact hIsolated.own x hx hNe fd hFd hOwn
    · exact hIsolated.socket hTears entry hEntry hSame x hx hNe hFd

theorem EndsCleanly.isolated (h : Anchored s) (hJob : job ∈ s.jobs) (hEnd : e.Of s job)
    (hClean : EndsCleanly s job (endStep s job e)) : Isolated s job e := by
  constructor
  case closing =>
    cases e with
    | reject fd instruction now dial =>
        -- the connection in flight is one more than the connections closed
        have hOwner : s.owner fd = some job := hEnd.1
        have hFd : fd ∈ inFlight s job := mem_inFlight.mpr (h.owner hOwner).1
        have hLe := hClean.closed.length_le
        rw [closes_endStep h hJob hEnd, List.length_append] at hLe
        have hPos := List.length_pos_of_mem hFd
        have hBefore : closes (beforeRelease s job (.reject fd instruction now dial)) = [] := rfl
        have hAfter : closes (afterRelease job (.reject fd instruction now dial)) = [] := rfl
        rw [hBefore, hAfter, List.nil_append, List.append_nil] at hLe
        omega
    | _ => rfl
  case distinct =>
    rw [List.nodup_iff_count_le_one]
    intro fd
    by_cases hMem : fd ∈ providers job
    · obtain ⟨granted, hGranted, rfl⟩ := List.mem_map.mp hMem
      rw [← countP_endStep h hJob hEnd, (hClean.released granted hGranted).1]
    · rw [List.count_eq_zero_of_not_mem hMem]
      exact Nat.zero_le 1
  case own =>
    intro x hx hNe fd hFd hOwn
    have hClose : Effect.close fd ∈ (endStep s job e).2 :=
      mem_closes.mp (hClean.closed.subset hOwn)
    exact hClean.connections x hx hNe fd hFd _ hClose rfl
  case socket =>
    intro hTears entry hEntry hSame x hx hNe hFd
    have hClose : Effect.close job.originSocket ∈ (endStep s job e).2 := by
      rw [endStep_effects h hJob hEnd, beforeRelease_eq h, if_pos ⟨hTears, entry, hEntry, hSame⟩]
      simp
    exact hClean.connections x hx hNe _ hFd _ hClose rfl

end

/-- **When the ends of a job agree.**  In every state reached in good order, whatever dials
failed before, an end of a job does what it is meant to do exactly if the job is isolated:
it is not rejected, and no other job has one of its descriptors. -/
theorem ends_cleanly_iff {es : List Step} (hOrderly : Meets step Orderly ClientState.init es)
    {job : LocalJob} {e : End} (hJob : job ∈ (run step ClientState.init es).jobs)
    (hEnd : e.Of (run step ClientState.init es) job) :
    EndsCleanly (run step ClientState.init es) job
        (endStep (run step ClientState.init es) job e) ↔
      Isolated (run step ClientState.init es) job e := by
  have hAnchored : Anchored (run step ClientState.init es) :=
    run_invariant Anchored (fun _ e h _ => h.step e) anchored_init hOrderly
  exact ⟨EndsCleanly.isolated hAnchored hJob hEnd, Isolated.endsCleanly hAnchored hJob hEnd⟩

/-- Job 1001 holds a cpu on descriptor 5 and asks for memory on descriptor 6. -/
def halfway : List Step :=
  [.handler (.erlang "JOB_REQUEST 1001 @10.0.0.1:cpu:1 @10.0.0.2:mem:1\n".toList 0
      (tablahashCreate _) (.connected 5)),
    .handler (.line 5 "GRANTED 1001\n".toList 1 (.connected 6))]

/-- The end of the connection of its request. -/
theorem ends_cleanly_halfway :
    ∃ job ∈ (run step ClientState.init halfway).jobs,
      EndsCleanly (run step ClientState.init halfway) job
        (endStep (run step ClientState.init halfway) job (.disconnect 6)) := by
  have hOwner : ∃ job ∈ (run step ClientState.init halfway).jobs,
      (run step ClientState.init halfway).owner 6 = some job := by decide +kernel
  obtain ⟨job, hJob, hOwner⟩ := hOwner
  have hAll : ∀ x ∈ (run step ClientState.init halfway).jobs,
      (providers x).Nodup ∧ ∀ y ∈ (run step ClientState.init halfway).jobs, y = x := by
    decide +kernel
  obtain ⟨hNodup, hOnly⟩ := hAll job hJob
  have hEnd : End.Of (run step ClientState.init halfway) job (.disconnect 6) := hOwner
  have hOrderly : Meets step Orderly ClientState.init halfway := by decide +kernel
  refine ⟨job, hJob, (ends_cleanly_iff hOrderly hJob hEnd).mpr ⟨rfl, hNodup, ?_, by rintro ⟨⟩⟩⟩
  exact fun x hx hNe => absurd (hOnly x hx) hNe

/-- The dial of job 1001 got descriptor 5, which could not be registered and was closed;
job 1002 now waits on it. -/
def stale : List Step :=
  [.handler (.erlang "JOB_REQUEST 1001 @10.0.0.1:cpu:1\n".toList 0 (tablahashCreate _)
      (.epollFails 5)),
    .handler (.erlang "JOB_REQUEST 1002 @10.0.0.1:cpu:1\n".toList 0 (tablahashCreate _)
      (.connected 5))]

/-- A rejection leaves the connection open; a JOB_RELEASE closes the one of another job. -/
theorem ends_disagree :
    (∃ job ∈ (run step ClientState.init halfway).jobs,
      End.Of (run step ClientState.init halfway) job
          (.reject 6 "DENIED 1001\n".toList 2 .noSocket) ∧
        ¬ EndsCleanly (run step ClientState.init halfway) job
          (endStep (run step ClientState.init halfway) job
            (.reject 6 "DENIED 1001\n".toList 2 .noSocket))) ∧
      ∃ job ∈ (run step ClientState.init stale).jobs,
        End.Of (run step ClientState.init stale) job
            (.release "JOB_RELEASE 1001\n".toList 2 (tablahashCreate _) .noSocket) ∧
          ¬ EndsCleanly (run step ClientState.init stale) job
            (endStep (run step ClientState.init stale) job
              (.release "JOB_RELEASE 1001\n".toList 2 (tablahashCreate _) .noSocket)) := by
  constructor
  · have hReject : ∃ job ∈ (run step ClientState.init halfway).jobs,
        ((run step ClientState.init halfway).owner 6 = some job ∧
          parseRemote "DENIED 1001\n".toList = .reject) ∧
        6 ∈ inFlight (run step ClientState.init halfway) job ∧
        Effect.close 6 ∉ (endStep (run step ClientState.init halfway) job
          (.reject 6 "DENIED 1001\n".toList 2 .noSocket)).2 := by decide +kernel
    obtain ⟨job, hJob, hEnd, hFd, hOpen⟩ := hReject
    refine ⟨job, hJob, hEnd, fun hClean => hOpen (mem_closes.mp ?_)⟩
    exact hClean.closed.subset (List.mem_append_right _ hFd)
  · have hRelease : ∃ job ∈ (run step ClientState.init stale).jobs,
        (parseErlang "JOB_RELEASE 1001\n".toList = .jobRelease "1001".toList ∧
          atoi "1001".toList = job.jobId) ∧
        (∃ x ∈ (run step ClientState.init stale).jobs,
          x ≠ job ∧ 5 ∈ inFlight (run step ClientState.init stale) x) ∧
        Effect.close 5 ∈ (endStep (run step ClientState.init stale) job
          (.release "JOB_RELEASE 1001\n".toList 2 (tablahashCreate _) .noSocket)).2 := by
      decide +kernel
    obtain ⟨job, hJob, hEnd, ⟨x, hx, hNe, hFd⟩, hClose⟩ := hRelease
    refine ⟨job, hJob, ⟨_, hEnd⟩, fun hClean => ?_⟩
    exact hClean.connections x hx hNe 5 (List.mem_append_right _ hFd) _ hClose rfl

end ResourceAgent.Ports.JobEnds
