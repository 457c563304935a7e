import ResourceAgent.Ports.JobRefinement

/-!
# The client side uses its memory correctly

Every handler of `Ports.JobMemory` does what the handler of `Ports.Client` does, from every state
that stands for a tidy one (`step_refines`).  So in every run in which no JOB_REQUEST replaces a
job with a request in flight, whatever addresses `malloc` returns:

* `memory_safe`: no handler follows a dangling pointer, reads through NULL or frees twice, what
  the agent does is what the model says, and at the end exactly the jobs of `table_localjobs` and
  the nodes of their lists are allocated.
* `replaced_job_dangles`: replacing a job in flight is what has to be excluded.  It frees the job
  and leaves the index entry; whatever is handled next on that descriptor reads freed memory.
-/

namespace ResourceAgent.Ports.JobMemory

open ResourceAgent.Ports.HashTable
open ResourceAgent.Ports.Records
open ResourceAgent.Ports.Wire
open ResourceAgent.Ports.Client
open ResourceAgent.Ports.ClientRun
open ResourceAgent.Ports.Replacement
open ResourceAgent.Verified.CText
open ResourceAgent.Verified.Linked
open ResourceAgent.Verified.Memory
open ResourceAgent.Verified.Runs

/-! ## The requests of a new job -/

/-- From `m` to `m'`, the nodes `new` have been linked behind `cells`. -/
structure Built (m m' : Blocks) (newjob : Nat) (block : JobBlock) (cells new : List Nat)
    (reqs : List PendingResource) : Prop where
  job : ∀ q, m'.jobs.read q =
    if q = newjob then some { block with nextReq := (cells ++ new).head? } else m.jobs.read q
  unused : ∀ a ∈ new, m.pending.read a = none
  same : ∀ a, a ∉ cells ++ new → m'.pending.read a = m.pending.read a
  chain : Chain PendingBlock.next m'.pending.read (cells ++ new).head? (cells ++ new)
  old : ∀ a ∈ cells, (m'.pending.read a).map PendingBlock.data =
    (m.pending.read a).map PendingBlock.data
  contents : Contents m'.pending.read new reqs

section

variable {malloc : Malloc} {nodes : Table nodeCallbacks} {newjob : Nat} {block : JobBlock}
  {m m₁ m' : Blocks} {cells new : List Nat} {reqs : List PendingResource}

/-- One node first, and then the others. -/
theorem Built.cons {a : Nat} {data : PendingResource}
    (h : Built m₁ m' newjob block (cells ++ [a]) new reqs)
    (hJobs : ∀ q, q ≠ newjob → m₁.jobs.read q = m.jobs.read q)
    (hNew : m₁.pending.read a = some ⟨data, none⟩) (hUnused : m.pending.read a = none)
    (hSame : ∀ x, x ∉ cells → x ≠ a → m₁.pending.read x = m.pending.read x)
    (hOld : ∀ x ∈ cells, (m₁.pending.read x).map PendingBlock.data =
      (m.pending.read x).map PendingBlock.data)
    (hOldAlloc : ∀ x ∈ cells, m.pending.read x ≠ none) :
    Built m m' newjob block cells (a :: new) (data :: reqs) := by
  have hAppend : cells ++ a :: new = cells ++ [a] ++ new := by simp
  have hApart : ∀ x ∈ new, x ∉ cells ∧ x ≠ a := by
    intro x hx
    have hNone := h.unused x hx
    constructor
    · intro hIn
      have hSome := hOld x hIn
      rw [hNone, Option.map_none, eq_comm, Option.map_eq_none_iff] at hSome
      exact hOldAlloc x hIn hSome
    · rintro rfl
      rw [hNew] at hNone
      cases hNone
  refine ⟨fun q => ?_, ?_, fun x hx => ?_, ?_, fun x hx => ?_, ?_⟩
  · rw [h.job, hAppend]
    split
    · rfl
    · rename_i hNe
      exact hJobs q hNe
  · intro x hx
    rcases List.mem_cons.mp hx with rfl | hx
    · exact hUnused
    · rw [← hSame x (hApart x hx).1 (hApart x hx).2]
      exact h.unused x hx
  · rw [hAppend] at hx
    rw [h.same x hx]
    simp only [List.mem_append, List.mem_singleton, not_or] at hx
    exact hSame x hx.1.1 hx.1.2
  · rw [hAppend]
    exact h.chain
  · rw [h.old x (List.mem_append_left _ hx), hOld x hx]
  · have hHead := h.old a (List.mem_append_right _ List.mem_cons_self)
    rw [hNew, Option.map_some] at hHead
    rw [Contents, List.map_cons, List.map_cons, hHead]
    exact congrArg _ h.contents

theorem linkDestinations_built (malloc : Malloc) (nodes : Table nodeCallbacks)
    (tokens : List Text) {tail : Option Nat}
    (hJob : m.jobs.read newjob = some { block with nextReq := cells.head? })
    (hTail : tail = cells.getLast?)
    (hChain : Chain PendingBlock.next m.pending.read cells.head? cells) :
    ∃ m' new, linkDestinations malloc nodes newjob tokens m tail = some m' ∧
      Built m m' newjob block cells new (parseDestinations nodes tokens) := by
  induction tokens generalizing m cells tail with
  | nil =>
      refine ⟨m, [], rfl, fun q => ?_, by simp, fun a _ => rfl, ?_, fun a _ => rfl, rfl⟩
      · split
        · rename_i hSelf
          rw [hSelf, hJob, List.append_nil]
        · rfl
      · rw [List.append_nil]
        exact hChain
  | cons token tokens ih =>
      cases hParse : parseDestination nodes token with
      | none =>
          have hRest : parseDestinations nodes (token :: tokens) =
              parseDestinations nodes tokens := by
            rw [parseDestinations, List.filterMap_cons_none hParse]
            rfl
          rw [linkDestinations, hParse, hRest]
          exact ih hJob hTail hChain
      | some data =>
          have hRest : parseDestinations nodes (token :: tokens) =
              data :: parseDestinations nodes tokens := by
            rw [parseDestinations, List.filterMap_cons_some hParse]
            rfl
          obtain ⟨a, hAddress⟩ : ∃ a, a = malloc.address m := ⟨_, rfl⟩
          have hUnused : m.pending.read a = none := hAddress ▸ (malloc.unused m).2
          have hAlloc : ∀ x ∈ cells, m.pending.read x ≠ none := fun x hx => by
            obtain ⟨n, hn⟩ := hChain.allocated hx
            rw [hn]
            simp
          have hFresh : ∀ x ∈ cells, x ≠ a := by
            rintro x hx rfl
            exact hAlloc x hx hUnused
          have hPlaced : ∀ x, x ≠ a →
              (m.pending.malloc a ⟨data, none⟩).read x = m.pending.read x :=
            fun x hx => by rw [Heap.read_malloc, if_neg hx]
          have hSelf : (m.pending.malloc a ⟨data, none⟩).read a = some ⟨data, none⟩ := by simp
          rw [linkDestinations, hParse, hRest, ← hAddress]
          rcases List.eq_nil_or_concat cells with rfl | ⟨init, b, hConcat⟩
          · -- the first node: `newjob->next_req = req`
            have hWrite := Heap.write_of_read hJob { block with nextReq := some a }
            obtain ⟨jobs, hJobs⟩ : ∃ jobs, jobs =
              (m.jobs.remove newjob).malloc newjob { block with nextReq := some a } := ⟨_, rfl⟩
            rw [← hJobs] at hWrite
            have hFirst : Chain PendingBlock.next (m.pending.malloc a ⟨data, none⟩).read
                ([] ++ [a]).head? ([] ++ [a]) := ⟨rfl, _, hSelf, rfl⟩
            have hStored : jobs.read newjob =
                some { block with nextReq := ([] ++ [a]).head? } := by
              rw [Heap.read_write hWrite, if_pos rfl]
              rfl
            have hLast : some a = ([] ++ [a]).getLast? := rfl
            obtain ⟨m', new, hLink, hBuilt⟩ :=
              ih (m := ⟨jobs, m.pending.malloc a ⟨data, none⟩⟩) hStored hLast hFirst
            have hElse : ∀ q, q ≠ newjob → jobs.read q = m.jobs.read q := fun q hq => by
              rw [Heap.read_write hWrite, if_neg hq]
            refine ⟨m', a :: new, ?_, hBuilt.cons hElse hSelf hUnused (fun x _ hx => hPlaced x hx)
              (by simp) (by simp)⟩
            simp only [hJob, Option.bind_eq_bind, Option.bind_some, List.head?_nil, hWrite]
            exact hLink
          · -- behind the last one: `tail->next = req`
            rw [List.concat_eq_append] at hConcat
            obtain ⟨first, hHead⟩ : ∃ first, cells.head? = some first := by
              cases hCells : cells with
              | nil => simp [hCells] at hConcat
              | cons x _ => exact ⟨x, rfl⟩
            have hLast : tail = some b := by
              rw [hTail, hConcat, List.getLast?_append]
              rfl
            have hb : b ∈ cells := by
              rw [hConcat]
              exact List.mem_append_right _ List.mem_cons_self
            obtain ⟨node, hNode⟩ := hChain.allocated hb
            have hRead : (m.pending.malloc a ⟨data, none⟩).read b = some node := by
              rw [hPlaced b (hFresh b hb), hNode]
            have hWrite := Heap.write_of_read hRead { node with next := some a }
            obtain ⟨pending, hPending⟩ : ∃ pending, pending =
              ((m.pending.malloc a ⟨data, none⟩).remove b).malloc b
                { node with next := some a } := ⟨_, rfl⟩
            rw [← hPending] at hWrite
            have hReads : ∀ x, pending.read x =
                if x = b then some { node with next := some a }
                else (m.pending.malloc a ⟨data, none⟩).read x := fun x => Heap.read_write hWrite
            have hNew : pending.read a = some ⟨data, none⟩ := by
              rw [hReads, if_neg (hFresh b hb).symm, hSelf]
            have hElse : ∀ x, x ∉ cells → x ≠ a → pending.read x = m.pending.read x := by
              intro x hx hNe
              rw [hReads, if_neg, hPlaced x hNe]
              rintro rfl
              exact hx hb
            have hData : ∀ x ∈ cells, (pending.read x).map PendingBlock.data =
                (m.pending.read x).map PendingBlock.data := by
              intro x hx
              rw [hReads]
              split
              · rename_i hSame
                rw [hSame, hNode]
                rfl
              · rw [hPlaced x (hFresh x hx)]
            have hKept : ∀ x ∈ init, pending.read x = m.pending.read x := by
              intro x hx
              have hNodup := hChain.nodup
              rw [hConcat, List.nodup_append] at hNodup
              have hNe : x ≠ b := hNodup.2.2 x hx b List.mem_cons_self
              have hIn : x ∈ cells := by
                rw [hConcat]
                exact List.mem_append_left _ hx
              rw [hReads, if_neg hNe, hPlaced x (hFresh x hIn)]
            have hRoot : (cells ++ [a]).head? = cells.head? := by
              rw [List.head?_append, hHead]
              rfl
            have hSnoc : Chain PendingBlock.next pending.read (cells ++ [a]).head?
                (cells ++ [a]) := by
              rw [hRoot]
              rw [hConcat] at hChain ⊢
              exact hChain.snoc (by rw [hReads, if_pos rfl]) rfl hNew rfl hKept
            have hStored : m.jobs.read newjob =
                some { block with nextReq := (cells ++ [a]).head? } := by
              rw [hJob, hRoot]
            have hTail' : some a = (cells ++ [a]).getLast? := by
              rw [List.getLast?_append]
              rfl
            obtain ⟨m', new, hLink, hBuilt⟩ :=
              ih (m := ⟨m.jobs, pending⟩) hStored hTail' hSnoc
            refine ⟨m', a :: new, ?_,
              hBuilt.cons (fun _ _ => rfl) hNew hUnused hElse hData hAlloc⟩
            simp only [hJob, Option.bind_eq_bind, Option.bind_some, hHead, hLast, hRead, hWrite]
            exact hLink

end

/-! ## Handlers -/

section

variable {h : State} {s : ClientState} {at' : Layout} {job : LocalJob}

theorem Refines.nextReq_eq_none (hRefines : Refines h s at') (hJob : job ∈ s.jobs) :
    (blockOf at' job).nextReq = none ↔ job.nextReq = [] := by
  rw [← (hRefines.holds.nextReq job hJob).nil_iff]
  exact List.head?_eq_none_iff

/-- The first request of a waiting job. -/
theorem Refines.firstReq (hRefines : Refines h s at') (hJob : job ∈ s.jobs)
    {req : PendingResource} {reqs : List PendingResource} (hNext : job.nextReq = req :: reqs) :
    ∃ a node, (blockOf at' job).nextReq = some a ∧ h.mem.pending.read a = some node ∧
      node.data = req := by
  have hContents := hRefines.holds.nextReq job hJob
  rw [hNext] at hContents
  obtain ⟨a, rest, node, hCells, hRead, hData, -⟩ := hContents.cons
  refine ⟨a, node, ?_, hRead, hData⟩
  rw [blockOf, hCells]
  rfl

theorem askForNextResource_refines (hRefines : Refines h s at') (hJob : job ∈ s.jobs)
    (dial : Dial) :
    ∃ h', askForNextResource dial h (at'.job job.addr) =
        some (h', (Client.askForNextResource dial s job).2) ∧
      Refines h' (Client.askForNextResource dial s job).1 at' := by
  have hBlock := hRefines.holds.block job hJob
  cases hNext : job.nextReq with
  | nil =>
      have hNone := (hRefines.nextReq_eq_none hJob).mpr hNext
      refine ⟨h, ?_, ?_⟩
      · simp only [askForNextResource, hBlock, Option.bind_eq_bind, Option.bind_some, hNone,
          Client.askForNextResource, hNext]
        rfl
      · simp only [Client.askForNextResource, hNext]
        exact hRefines
  | cons req reqs =>
      obtain ⟨a, node, hFirst, hRead, hData⟩ := hRefines.firstReq hJob hNext
      have hOrigin : ∀ fd : Nat, ∃ h',
          h.writeJob (at'.job job.addr) { blockOf at' job with originSocket := fd } = some h' ∧
            Refines h' (s.writeJob { job with originSocket := fd }) at' :=
        fun fd => hRefines.writeJob hJob { job with originSocket := fd } rfl rfl rfl rfl
      cases dial with
      | noSocket =>
          refine ⟨h, ?_, ?_⟩
          · simp only [askForNextResource, hBlock, Option.bind_eq_bind, Option.bind_some, hFirst,
              Client.askForNextResource, hNext]
            rfl
          · simp only [Client.askForNextResource, hNext]
            exact hRefines
      | connectFails fd =>
          refine ⟨h, ?_, ?_⟩
          · simp only [askForNextResource, hBlock, Option.bind_eq_bind, Option.bind_some, hFirst,
              hRead, Client.askForNextResource, hNext]
            rfl
          · simp only [Client.askForNextResource, hNext]
            exact hRefines
      | epollFails fd =>
          obtain ⟨h', hWrite, hAfter⟩ := hOrigin fd
          simp only [hFirst] at hWrite
          refine ⟨(h'.insertEntry fd (at'.job job.addr)).removeEntry fd, ?_, ?_⟩
          · simp only [askForNextResource, hBlock, Option.bind_eq_bind, Option.bind_some, hFirst,
              hRead, hWrite, hData, Client.askForNextResource, hNext]
            rfl
          · have hEntry := (hAfter.insertEntry fd job.addr).removeEntry fd
            simp only [Client.askForNextResource, hNext] at hEntry ⊢
            exact hEntry
      | connected fd =>
          obtain ⟨h', hWrite, hAfter⟩ := hOrigin fd
          simp only [hFirst] at hWrite
          refine ⟨h'.insertEntry fd (at'.job job.addr), ?_, ?_⟩
          · simp only [askForNextResource, hBlock, Option.bind_eq_bind, Option.bind_some, hFirst,
              hRead, hWrite, hData, Client.askForNextResource, hNext]
            rfl
          · have hEntry := hAfter.insertEntry fd job.addr
            simp only [Client.askForNextResource, hNext] at hEntry ⊢
            exact hEntry

/-- Releasing a job and removing it. -/
theorem released_refines (hRefines : Refines h s at') (hJob : job ∈ s.jobs) :
    ∃ h₁ h₂, releaseResources h (at'.job job.addr) =
        some (h₁, (Client.releaseResources s job).2) ∧
      h₁.removeJob (at'.job job.addr) = some h₂ ∧
      Refines h₂ ((Client.releaseResources s job).1.removeJob job) (at'.drop job.addr) := by
  obtain ⟨h₁, hReleased, hAfter⟩ := hRefines.releaseResources hJob
  have hAddr : (releasedJob job).addr = job.addr := rfl
  have hMem : releasedJob job ∈ (Client.releaseResources s job).1.jobs :=
    (mem_jobs_writeJob hRefines hJob hAddr rfl _).mpr (.inl rfl)
  obtain ⟨h₂, hRemoved, hEnd⟩ := hAfter.removeJob hMem
  have hSame : (Client.releaseResources s job).1.removeJob job =
      (Client.releaseResources s job).1.removeJob (releasedJob job) := removeJob_congr rfl
  exact ⟨h₁, h₂, hReleased, hRemoved, hSame ▸ hEnd⟩

theorem tearDown_refines (hRefines : Refines h s at') (job : LocalJob) :
    (tearDown h job.originSocket).2 = (Client.tearDown s job).2 ∧
      Refines (tearDown h job.originSocket).1 (Client.tearDown s job).1 at' := by
  have hFound : (h.findEntry job.originSocket).isSome = (s.findEntry job.originSocket).isSome := by
    rw [hRefines.findEntry, Option.isSome_map]
  unfold tearDown Client.tearDown
  rw [hFound]
  split
  · exact ⟨rfl, hRefines.removeEntry job.originSocket⟩
  · exact ⟨rfl, hRefines⟩

/-- The end of a job by JOB_RELEASE or by the sweep. -/
theorem endJob_refines (hRefines : Refines h s at') (hJob : job ∈ s.jobs)
    (told : Int → List Effect) :
    ∃ h', endJob told h (at'.job job.addr) =
        some (h', (Client.tearDown s job).2 ++
          (Client.releaseResources (Client.tearDown s job).1 job).2 ++ told job.jobId) ∧
      Refines h' ((Client.releaseResources (Client.tearDown s job).1 job).1.removeJob job)
        (at'.drop job.addr) := by
  obtain ⟨hOut, hTorn⟩ := tearDown_refines hRefines job
  have hStill : job ∈ (Client.tearDown s job).1.jobs := by
    rw [jobs_tearDown]
    exact hJob
  obtain ⟨h₁, h₂, hReleased, hRemoved, hEnd⟩ := released_refines hTorn hStill
  refine ⟨h₂, ?_, hEnd⟩
  have hOrigin : (blockOf at' job).originSocket = job.originSocket := rfl
  simp only [endJob, hRefines.holds.block job hJob, Option.bind_eq_bind, Option.bind_some, hOrigin,
    hReleased, hRemoved, hOut]
  rfl

/-- In a tidy state an index entry leads to a stored job. -/
theorem entry_cases (hTidy : Tidy s) (fd : Int) :
    (s.findEntry fd = none ∧ s.owner fd = none) ∨
      ∃ job ∈ s.jobs, s.findEntry fd = some ⟨fd, job.addr⟩ ∧ s.owner fd = some job := by
  cases hFind : s.findEntry fd with
  | none =>
      refine .inl ⟨rfl, ?_⟩
      rw [ClientState.owner, hFind]
      rfl
  | some e =>
      obtain ⟨he, rfl⟩ := ClientState.findEntry_eq_some.mp hFind
      obtain ⟨-, job, hJob, hAddr, -⟩ := hTidy.entries e he
      refine .inr ⟨job, hJob, by rw [hAddr], ?_⟩
      rw [ClientState.owner_eq_some hTidy.addrKeys, hAddr]
      exact ⟨he, hJob⟩

theorem reject_refines (hRefines : Refines h s at') (hTidy : Tidy s) (fd : Int) :
    ∃ h' at₂, reject h fd = some (h', (handleOutboundDisconnect s fd).2) ∧
      Refines h' (handleOutboundDisconnect s fd).1 at₂ := by
  have hFound := hRefines.findEntry fd
  rcases entry_cases hTidy fd with ⟨hNone, hOwner⟩ | ⟨job, hJob, hEntry, hOwner⟩
  · refine ⟨h, at', ?_, ?_⟩
    · simp only [reject, hFound, hNone, Option.map_none, handleOutboundDisconnect, hOwner]
      rfl
    · simp only [handleOutboundDisconnect, hOwner]
      exact hRefines
  · have hStored : job ∈ (s.removeEntry fd).jobs := hJob
    obtain ⟨h₁, h₂, hReleased, hRemoved, hEnd⟩ :=
      released_refines (hRefines.removeEntry fd) hStored
    refine ⟨h₂, at'.drop job.addr, ?_, ?_⟩
    · have hId : (blockOf at' job).jobId = job.jobId := rfl
      simp only [reject, hFound, hEntry, Option.map_some, hRefines.holds.block job hJob,
        Option.bind_eq_bind, Option.bind_some, hReleased, hRemoved, hId, handleOutboundDisconnect,
        hOwner]
      rfl
    · simp only [handleOutboundDisconnect, hOwner]
      exact hEnd

theorem clientToMyserver_refines (hRefines : Refines h s at') (hTidy : Tidy s) (now : Int)
    (dial : Dial) (fd : Int) (message : RemoteMessage) :
    ∃ h' at₂, clientToMyserver now dial h fd message =
        some (h', (Client.clientToMyserver now dial s fd message).2) ∧
      Refines h' (Client.clientToMyserver now dial s fd message).1 at₂ := by
  cases message with
  | granted jobId =>
      have hFound := hRefines.findEntry fd
      rcases entry_cases hTidy fd with ⟨hNone, hOwner⟩ | ⟨job, hJob, hEntry, hOwner⟩
      · refine ⟨h, at', ?_, ?_⟩
        · simp only [clientToMyserver, hFound, hNone, Option.map_none, Client.clientToMyserver,
            hOwner]
          rfl
        · simp only [Client.clientToMyserver, hOwner]
          exact hRefines
      · have hId : (blockOf at' job).jobId = job.jobId := rfl
        by_cases hSame : job.jobId = jobId
        · obtain ⟨h₁, at₂, hAdvance, hPtr, hAfter⟩ := hRefines.advance hJob fd now
          have hMem : LocalJob.advance job fd now ∈
              ((s.writeJob (LocalJob.advance job fd now)).removeEntry fd).jobs :=
            (mem_jobs_writeJob hRefines hJob (LocalJob.advance_addr job fd now)
              (LocalJob.advance_jobId job fd now) _).mpr (.inl rfl)
          obtain ⟨h₂, hAsk, hEnd⟩ :=
            askForNextResource_refines (hAfter.removeEntry fd) hMem dial
          rw [LocalJob.advance_addr, hPtr] at hAsk
          refine ⟨h₂, at₂, ?_, ?_⟩
          · simp only [clientToMyserver, hFound, hEntry, Option.map_some,
              hRefines.holds.block job hJob, Option.bind_eq_bind, Option.bind_some, hId, hSame,
              if_true, hAdvance, hAsk, Client.clientToMyserver, hOwner]
            rfl
          · simp only [Client.clientToMyserver, hOwner, hSame, if_true]
            exact hEnd
        · refine ⟨h, at', ?_, ?_⟩
          · simp only [clientToMyserver, hFound, hEntry, Option.map_some,
              hRefines.holds.block job hJob, Option.bind_eq_bind, Option.bind_some, hId, hSame,
              if_false, Client.clientToMyserver, hOwner]
            rfl
          · simp only [Client.clientToMyserver, hOwner, hSame, if_false]
            exact hRefines
  | reject => exact reject_refines hRefines hTidy fd
  | reserve jobId resource amount => exact ⟨h, at', rfl, hRefines⟩
  | release => exact ⟨h, at', rfl, hRefines⟩
  | ignored => exact ⟨h, at', rfl, hRefines⟩

theorem sendRequest_refines (hRefines : Refines h s at') (hTidy : Tidy s) (fd : Int) :
    ∃ h', sendRequest h fd = some (h', (Client.sendRequest s fd).2) ∧
      Refines h' (Client.sendRequest s fd).1 at' := by
  have hFound := hRefines.findEntry fd
  rcases entry_cases hTidy fd with ⟨hNone, hOwner⟩ | ⟨job, hJob, hEntry, hOwner⟩
  · refine ⟨h, ?_, ?_⟩
    · simp only [sendRequest, hFound, hNone, Option.map_none, Client.sendRequest, hOwner]
      rfl
    · simp only [Client.sendRequest, hOwner]
      exact hRefines
  · have hBlock := hRefines.holds.block job hJob
    cases hNext : job.nextReq with
    | nil =>
        have hNil := (hRefines.nextReq_eq_none hJob).mpr hNext
        refine ⟨h, ?_, ?_⟩
        · simp only [sendRequest, hFound, hEntry, Option.map_some, hBlock, Option.bind_eq_bind,
            Option.bind_some, hNil, Client.sendRequest, hOwner, hNext]
          rfl
        · simp only [Client.sendRequest, hOwner, hNext]
          exact hRefines
    | cons req reqs =>
        obtain ⟨a, node, hFirst, hRead, hData⟩ := hRefines.firstReq hJob hNext
        have hId : (blockOf at' job).jobId = job.jobId := rfl
        refine ⟨h, ?_, ?_⟩
        · simp only [sendRequest, hFound, hEntry, Option.map_some, hBlock, Option.bind_eq_bind,
            Option.bind_some, hFirst, hRead, hData, hId, Client.sendRequest, hOwner, hNext]
          rfl
        · simp only [Client.sendRequest, hOwner, hNext]
          exact hRefines

/-! ## The sweep -/

/-- The inner loop of the first pass, over jobs that can be read. -/
theorem collectBucket_eq {l : List LocalJob} (now : Int) (hRefines : Refines h s at')
    (hJobs : ∀ x ∈ l, x ∈ s.jobs) {ids : List Int} (hIds : ids.length ≤ 256) :
    collectBucket now h.mem.jobs (at'.pointers l) ids =
      some ((ids ++ (l.filter (expired now)).map LocalJob.jobId).take 256) := by
  induction l generalizing ids with
  | nil =>
      rw [List.filter_nil, List.map_nil, List.append_nil, List.take_of_length_le hIds]
      rfl
  | cons job l ih =>
      have hRest := fun x hx => hJobs x (List.mem_cons_of_mem job hx)
      have hBlock := hRefines.holds.block job (hJobs job List.mem_cons_self)
      have hWaits := hRefines.nextReq_eq_none (hJobs job List.mem_cons_self)
      show collectBucket now h.mem.jobs (at'.job job.addr :: at'.pointers l) ids = _
      rw [collectBucket]
      split
      · rename_i hFull
        have hLength : ids.length = 256 := Nat.le_antisymm hIds hFull
        rw [← hLength, List.take_left']
        rfl
      · rename_i hRoom
        have hId : (blockOf at' job).jobId = job.jobId := rfl
        have hTimer : (blockOf at' job).timer = job.timer := rfl
        rw [hBlock]
        simp only [Option.bind_eq_bind, Option.bind_some, ne_eq, hWaits, hId, hTimer]
        by_cases hExpired : expired now job = true
        · have hBoth : ¬ job.nextReq = [] ∧ now - job.timer ≥ 30 := by
            simpa [expired] using hExpired
          rw [List.filter_cons_of_pos hExpired, List.map_cons, if_pos hBoth,
            ih hRest (by rw [List.length_append, List.length_singleton]; omega),
            List.append_assoc]
          rfl
        · have hNot : ¬ (¬ job.nextReq = [] ∧ now - job.timer ≥ 30) := by
            simpa [expired] using hExpired
          rw [List.filter_cons_of_neg hExpired, if_neg hNot, ih hRest hIds]

/-- What is cut off before is cut off after. -/
private theorem take_take_append {α : Type _} (n : Nat) (l r : List α) :
    (l.take n ++ r).take n = (l ++ r).take n := by
  have hRoom : n - min n l.length = n - l.length := by omega
  rw [List.take_append, List.take_append, List.take_take, min_self, List.length_take, hRoom]

theorem collect_eq {elems : List (List LocalJob)} (now : Int) (hRefines : Refines h s at')
    (hJobs : ∀ l ∈ elems, ∀ x ∈ l, x ∈ s.jobs) {ids : List Int} (hIds : ids.length ≤ 256) :
    collect now h.mem.jobs (elems.map at'.pointers) ids =
      some ((ids ++ (elems.flatten.filter (expired now)).map LocalJob.jobId).take 256) := by
  induction elems generalizing ids with
  | nil =>
      rw [List.flatten_nil, List.filter_nil, List.map_nil, List.map_nil, List.append_nil,
        List.take_of_length_le hIds]
      rfl
  | cons l elems ih =>
      rw [List.map_cons, collect]
      split
      · rename_i hFull
        have hLength : ids.length = 256 := Nat.le_antisymm hIds hFull
        rw [← hLength, List.take_left']
        rfl
      · have hHere := collectBucket_eq now hRefines (hJobs l List.mem_cons_self) hIds
        have hRest := fun l' hl' => hJobs l' (List.mem_cons_of_mem l hl')
        rw [hHere]
        simp only [Option.bind_eq_bind, Option.bind_some]
        rw [ih hRest (by rw [List.length_take]; omega), List.flatten_cons, List.filter_append,
          List.map_append, ← List.append_assoc, take_take_append]

theorem timeOut_refines (ids : List Int) (hRefines : Refines h s at') :
    ∃ h' at₂, timeOut ids h = some (h', (Client.timeOut ids s).2) ∧
      Refines h' (Client.timeOut ids s).1 at₂ := by
  induction ids generalizing h s at' with
  | nil => exact ⟨h, at', rfl, hRefines⟩
  | cons jobId ids ih =>
      have hFound := hRefines.findJob jobId
      cases hFind : s.findJob jobId with
      | none =>
          obtain ⟨h', at₂, hRest, hAfter⟩ := ih hRefines
          refine ⟨h', at₂, ?_, ?_⟩
          · simp only [timeOut, hFound, hFind, Option.map_none, Option.bind_eq_bind,
              Option.bind_some, hRest, Client.timeOut]
          · simp only [Client.timeOut, hFind]
            exact hAfter
      | some job =>
          have hJob := (ClientState.findJob_eq_some.mp hFind).1
          obtain ⟨h₁, hEnd, hEnded⟩ :=
            endJob_refines hRefines hJob fun id => cToErlang .timeout (itoa id)
          obtain ⟨h', at₂, hRest, hAfter⟩ := ih hEnded
          refine ⟨h', at₂, ?_, ?_⟩
          · simp only [timeOut, hFound, hFind, Option.map_some, Option.bind_eq_bind,
              Option.bind_some, hEnd, hRest, Client.timeOut]
            rfl
          · simp only [Client.timeOut, hFind]
            exact hAfter

theorem checkOurjobTimeouts_refines (hRefines : Refines h s at') (now : Int) :
    ∃ h' at₂, checkOurjobTimeouts now h = some (h', (Client.checkOurjobTimeouts now s).2) ∧
      Refines h' (Client.checkOurjobTimeouts now s).1 at₂ := by
  have hElems : h.localjobs.elems = s.tableLocaljobs.elems.map at'.pointers := hRefines.elems
  have hStored : ∀ l ∈ s.tableLocaljobs.elems, ∀ x ∈ l, x ∈ s.jobs :=
    fun l hl x hx => List.mem_flatten.mpr ⟨l, hl, hx⟩
  have hEmpty : ([] : List Int).length ≤ 256 := Nat.zero_le 256
  have hCollect := collect_eq now hRefines hStored hEmpty
  rw [List.nil_append] at hCollect
  obtain ⟨h', at₂, hTimeOut, hAfter⟩ := timeOut_refines _ hRefines
  refine ⟨h', at₂, ?_, hAfter⟩
  simp only [checkOurjobTimeouts, hElems, hCollect, Option.bind_eq_bind, Option.bind_some]
  exact hTimeOut

/-! ## Commands of the scheduler -/

/-- JOB_REQUEST leaves the stored jobs where they are, and takes unused memory for the new one. -/
theorem jobRequest_refines (hRefines : Refines h s at') (hTidy : Tidy s) (malloc : Malloc)
    (nodes : Table nodeCallbacks) (timer : Int) (dial : Dial) (jobId token : Text)
    (tokens : List Text) :
    ∃ h' at₂, erlangToC malloc nodes timer dial h (.jobRequest jobId (token :: tokens)) =
        some (h', (Client.erlangToC nodes timer dial s (.jobRequest jobId (token :: tokens))).2) ∧
      Refines h' (Client.erlangToC nodes timer dial s (.jobRequest jobId (token :: tokens))).1
        at₂ ∧
      (∀ addr, addr < s.brk → at₂.job addr = at'.job addr) ∧
      h.mem.jobs.read (at₂.job s.brk) = none := by
  obtain ⟨p, hAddress⟩ : ∃ p, p = malloc.address h.mem := ⟨_, rfl⟩
  have hUnused : h.mem.jobs.read p = none := hAddress ▸ (malloc.unused h.mem).1
  obtain ⟨newjob, hNew⟩ : ∃ newjob, newjob = makeJob s (atoi jobId)
    (parseDestinations nodes (token :: tokens)) timer := ⟨_, rfl⟩
  have hBrk : newjob.addr = s.brk := by rw [hNew]; rfl
  have hNoGrants : newjob.grantedReqs = [] := by rw [hNew]; rfl
  have hNext : newjob.nextReq = parseDestinations nodes (token :: tokens) := by rw [hNew]; rfl
  have hAbsent : ∀ x ∈ s.jobs, x.addr ≠ newjob.addr := fun x hx hSame => by
    have := hTidy.allocated x hx
    omega
  -- the job and its requests are allocated
  obtain ⟨block, hBlock⟩ : ∃ block : JobBlock, block = ⟨atoi jobId, -1, none, none, timer⟩ :=
    ⟨_, rfl⟩
  have hStart : (h.mem.jobs.malloc p block).read p = some { block with nextReq := none } := by
    rw [Heap.read_malloc, if_pos rfl, hBlock]
  have hTail : none = ([] : List Nat).getLast? := rfl
  obtain ⟨m, cells, hLink, hBuilt⟩ := linkDestinations_built malloc nodes (token :: tokens)
    (m := ⟨h.mem.jobs.malloc p block, h.mem.pending⟩) hStart hTail rfl
  have hRead : ∀ q, m.jobs.read q =
      if q = p then some ⟨newjob.jobId, newjob.originSocket, cells.head?, none, newjob.timer⟩
      else h.mem.jobs.read q := by
    intro q
    rw [hBuilt.job, hNew, hBlock]
    by_cases hSelf : q = p
    · rw [if_pos hSelf, if_pos hSelf]
      rfl
    · rw [if_neg hSelf, if_neg hSelf]
      exact (Heap.read_malloc).trans (if_neg hSelf)
  have hHolds := hRefines.holds.add hAbsent hNoGrants hUnused hBuilt.unused hRead hBuilt.same
    hBuilt.chain (by rw [hNext]; exact hBuilt.contents)
  -- and the job goes into the table
  have hPtr : (at'.add newjob.addr p cells).job newjob.addr = p := Function.update_self ..
  have hOld : ∀ addr, addr < s.brk → (at'.add newjob.addr p cells).job addr = at'.job addr :=
    fun addr hLt => Function.update_of_ne (by omega) ..
  obtain ⟨h₁, at₁, hInsert, hSame, hStored⟩ := insertJob_refines hRefines hHolds
    (fun x hx => hOld x.addr (hTidy.allocated x hx)) hAbsent fun e he => by
      obtain ⟨-, x, hx, hAddr, -⟩ := hTidy.entries e he
      exact hOld e.job (hAddr ▸ hTidy.allocated x hx)
  have hMem : newjob ∈ (s.insertJob newjob).jobs :=
    ClientState.mem_jobs_insertJob.mpr (.inl rfl)
  obtain ⟨h₂, hAsk, hEnd⟩ := askForNextResource_refines hStored hMem dial
  rw [hSame, hPtr] at hAsk
  rw [hPtr] at hInsert
  refine ⟨h₂, at₁, ?_, ?_, fun addr hLt => by rw [hSame, hOld addr hLt], ?_⟩
  · simp only [erlangToC, ← hAddress, ← hBlock, hLink, Option.bind_eq_bind, Option.bind_some,
      hInsert, hAsk, Client.erlangToC, ← hNew]
  · simp only [Client.erlangToC, ← hNew]
    exact hEnd
  · rw [hSame, ← hBrk, hPtr]
    exact hUnused

theorem erlangToC_refines (hRefines : Refines h s at') (hTidy : Tidy s) (malloc : Malloc)
    (nodes : Table nodeCallbacks) (timer : Int) (dial : Dial) (command : ErlangCommand) :
    ∃ h' at₂, erlangToC malloc nodes timer dial h command =
        some (h', (Client.erlangToC nodes timer dial s command).2) ∧
      Refines h' (Client.erlangToC nodes timer dial s command).1 at₂ := by
  cases command with
  | jobRequest jobId destinations =>
      cases destinations with
      | nil => exact ⟨h, at', rfl, hRefines⟩
      | cons token tokens =>
          obtain ⟨h', at₂, hStep, hAfter, -⟩ :=
            jobRequest_refines hRefines hTidy malloc nodes timer dial jobId token tokens
          exact ⟨h', at₂, hStep, hAfter⟩
  | jobRelease jobId =>
      have hFound := hRefines.findJob (atoi jobId)
      cases hFind : s.findJob (atoi jobId) with
      | none =>
          refine ⟨h, at', ?_, ?_⟩
          · simp only [erlangToC, hFound, hFind, Option.map_none, Option.bind_eq_bind,
              Option.bind_some, Client.erlangToC]
            rfl
          · simp only [Client.erlangToC, hFind]
            exact hRefines
      | some job =>
          have hJob := (ClientState.findJob_eq_some.mp hFind).1
          obtain ⟨h', hEnd, hAfter⟩ := endJob_refines hRefines hJob fun _ => []
          refine ⟨h', at'.drop job.addr, ?_, ?_⟩
          · rw [List.append_nil] at hEnd
            simp only [erlangToC, hFound, hFind, Option.map_some, Option.bind_eq_bind,
              Option.bind_some, hEnd, Client.erlangToC]
          · simp only [Client.erlangToC, hFind]
            exact hAfter
  | jobStatus jobId =>
      have hFound := hRefines.findJob (atoi jobId)
      cases hFind : s.findJob (atoi jobId) with
      | none =>
          refine ⟨h, at', ?_, ?_⟩
          · simp only [erlangToC, hFound, hFind, Option.map_none, Option.bind_eq_bind,
              Option.bind_some, Client.erlangToC]
            rfl
          · simp only [Client.erlangToC, hFind]
            exact hRefines
      | some job =>
          have hJob := (ClientState.findJob_eq_some.mp hFind).1
          have hWaits := hRefines.nextReq_eq_none hJob
          by_cases hNil : job.nextReq = []
          · refine ⟨h, at', ?_, ?_⟩
            · simp only [erlangToC, hFound, hFind, Option.map_some, Option.bind_eq_bind,
                Option.bind_some, hRefines.holds.block job hJob, hWaits, hNil, if_true,
                Client.erlangToC]
              rfl
            · simp only [Client.erlangToC, hFind, hNil, if_true]
              exact hRefines
          · refine ⟨h, at', ?_, ?_⟩
            · simp only [erlangToC, hFound, hFind, Option.map_some, Option.bind_eq_bind,
                Option.bind_some, hRefines.holds.block job hJob, hWaits, hNil, if_false,
                Client.erlangToC]
              rfl
            · simp only [Client.erlangToC, hFind, hNil, if_false]
              exact hRefines
  | getNodes => exact ⟨h, at', rfl, hRefines⟩
  | ignored => exact ⟨h, at', rfl, hRefines⟩

/-- **A handler in memory does what the model's handler does.** -/
theorem step_refines (hRefines : Refines h s at') (hTidy : Tidy s) (malloc : Malloc)
    (e : ClientEvent) :
    ∃ h' at₂, step malloc h e = some (h', (clientStep s e).2) ∧ Refines h' (next s e) at₂ := by
  cases e with
  | erlang instruction timer nodes dial =>
      exact erlangToC_refines hRefines hTidy malloc nodes timer dial (parseErlang instruction)
  | line fd instruction now dial =>
      exact clientToMyserver_refines hRefines hTidy now dial fd (parseRemote instruction)
  | sendRequest fd =>
      obtain ⟨h', hSend, hAfter⟩ := sendRequest_refines hRefines hTidy fd
      exact ⟨h', at', hSend, hAfter⟩
  | disconnect fd => exact reject_refines hRefines hTidy fd
  | sweep now => exact checkOurjobTimeouts_refines hRefines now

end

/-! ## Runs -/

/-- What the agent does in a run of the model. -/
def effects : ClientState → List ClientEvent → List Effect
  | _, [] => []
  | s, e :: es => (clientStep s e).2 ++ effects (next s e) es

theorem runFrom_refines {es : List (Malloc × ClientEvent)} {h : State} {s : ClientState}
    {at' : Layout} (hRefines : Refines h s at') (hTidy : Tidy s)
    (hOrderly : Meets next Orderly s (es.map Prod.snd)) :
    ∃ h' at₂, runFrom h es = some (h', effects s (es.map Prod.snd)) ∧
      Refines h' (run next s (es.map Prod.snd)) at₂ := by
  induction es generalizing h s at' with
  | nil => exact ⟨h, at', rfl, hRefines⟩
  | cons e es ih =>
      obtain ⟨malloc, e⟩ := e
      obtain ⟨h₁, at₁, hStep, hNext⟩ := step_refines hRefines hTidy malloc e
      obtain ⟨h₂, at₂, hRest, hEnd⟩ := ih hNext (tidy_orderly hTidy hOrderly.1) hOrderly.2
      refine ⟨h₂, at₂, ?_, hEnd⟩
      rw [runFrom, hStep]
      simp only [Option.bind_eq_bind, Option.bind_some, hRest]
      rfl

/-! ## Memory safety -/

/-- The list of a job. -/
def JobBlock.root (block : JobBlock) : Field → Option Nat
  | .nextReq => block.nextReq
  | .grantedReqs => block.grantedReqs

/-- Node `a` is in a list of the job at `p`. -/
def InList (h : State) (p : Nat) (f : Field) (a : Nat) : Prop :=
  ∃ block, h.mem.jobs.read p = some block ∧
    Reaches PendingBlock.next h.mem.pending.read (block.root f) a

/-- What is allocated is what the tables lead to. -/
structure Exact (h : State) : Prop where
  jobs : ∀ p, h.mem.jobs.read p ≠ none ↔ p ∈ h.localjobs.data
  /-- no job is stored twice -/
  distinct : h.localjobs.data.Nodup
  pending : ∀ a, h.mem.pending.read a ≠ none ↔ ∃ p ∈ h.localjobs.data, ∃ f, InList h p f a
  /-- no node is in two lists -/
  once : ∀ a p f q g, InList h p f a → InList h q g a → p = q ∧ f = g
  index : ∀ e ∈ h.ourjobs.toList, e.job ∈ h.localjobs.data

theorem Refines.data {h : State} {s : ClientState} {at' : Layout} (hRefines : Refines h s at') :
    h.localjobs.data = at'.pointers s.jobs := by
  rw [TableMap.RawTable.data, hRefines.elems]
  exact List.map_flatten.symm

theorem Refines.mem_data {h : State} {s : ClientState} {at' : Layout}
    (hRefines : Refines h s at') {p : Nat} :
    p ∈ h.localjobs.data ↔ ∃ job ∈ s.jobs, at'.job job.addr = p := by
  rw [hRefines.data]
  exact List.mem_map

theorem Refines.inList_iff {h : State} {s : ClientState} {at' : Layout}
    (hRefines : Refines h s at') {job : LocalJob} (hJob : job ∈ s.jobs) (f : Field) (a : Nat) :
    InList h (at'.job job.addr) f a ↔ a ∈ at'.cells (job.addr, f) := by
  have hBlock := hRefines.holds.block job hJob
  have hRoot : (blockOf at' job).root f = (at'.cells (job.addr, f)).head? := by
    cases f with
    | nextReq => rfl
    | grantedReqs => rfl
  rw [← (hRefines.holds.root (job.addr, f)).reaches_iff, ← hRoot]
  constructor
  · rintro ⟨block, hRead, hReaches⟩
    rw [hBlock] at hRead
    cases hRead
    exact hReaches
  · exact fun hReaches => ⟨_, hBlock, hReaches⟩

theorem Refines.exact {h : State} {s : ClientState} {at' : Layout} (hRefines : Refines h s at')
    (hTidy : Tidy s) : Exact h where
  jobs p := by
    rw [hRefines.mem_data]
    constructor
    · exact hRefines.holds.owned p
    · rintro ⟨job, hJob, rfl⟩
      rw [hRefines.holds.block job hJob]
      simp
  distinct := by
    have hNodup : s.jobs.Nodup := by
      have hDistinct : s.jobs.Pairwise fun a b => localjobCallbacks.same a b = false :=
        s.tableLocaljobs.distinct
      refine hDistinct.imp fun {a b} hNe hSame => ?_
      rw [hSame, localjobCallbacks.same_refl] at hNe
      cases hNe
    rw [hRefines.data]
    exact hNodup.map_on fun x hx y hy hSame => hRefines.holds.apart x hx y hy hSame
  pending a := by
    constructor
    · intro ha
      obtain ⟨⟨x, f⟩, hi⟩ := hRefines.holds.linked a ha
      obtain ⟨job, hJob, hAddr⟩ := hRefines.holds.live (x, f) (List.ne_nil_of_mem hi)
      cases hAddr
      exact ⟨_, hRefines.mem_data.mpr ⟨job, hJob, rfl⟩, f, (hRefines.inList_iff hJob f a).mpr hi⟩
    · rintro ⟨p, hp, f, hIn⟩
      obtain ⟨job, hJob, rfl⟩ := hRefines.mem_data.mp hp
      obtain ⟨node, hNode⟩ := (hRefines.holds.root (job.addr, f)).allocated
        ((hRefines.inList_iff hJob f a).mp hIn)
      rw [hNode]
      simp
  once a p f q g hp hq := by
    have hStored : ∀ {p f}, InList h p f a → ∃ job ∈ s.jobs, at'.job job.addr = p := by
      rintro p f ⟨block, hRead, -⟩
      exact hRefines.holds.owned p (by rw [hRead]; simp)
    obtain ⟨x, hx, rfl⟩ := hStored hp
    obtain ⟨y, hy, rfl⟩ := hStored hq
    have hxIn := (hRefines.inList_iff hx f a).mp hp
    have hyIn := (hRefines.inList_iff hy g a).mp hq
    have hSame : (x.addr, f) = (y.addr, g) := by
      by_contra hNe
      exact hRefines.holds.threaded.apart _ _ hNe a hxIn hyIn
    obtain ⟨hAddr, hField⟩ := Prod.mk.inj hSame
    exact ⟨by rw [hAddr], hField⟩
  index e he := by
    obtain ⟨e', he', rfl⟩ := (hRefines.index e).mp he
    obtain ⟨-, job, hJob, hAddr, -⟩ := hTidy.entries e' he'
    exact hRefines.mem_data.mpr ⟨job, hJob, by rw [hAddr]⟩

/-- **Memory safety.**  In a run in which no JOB_REQUEST replaces a job in flight, whatever
`malloc` returns, no handler goes wrong in memory, the agent does what the model says, and at the
end exactly the stored jobs and the nodes of their lists are allocated, each in one place. -/
theorem memory_safe {es : List (Malloc × ClientEvent)}
    (hOrderly : Meets next Orderly ClientState.init (es.map Prod.snd)) :
    ∃ h, runFrom State.init es = some (h, effects ClientState.init (es.map Prod.snd)) ∧
      (∃ at', Refines h (run next ClientState.init (es.map Prod.snd)) at') ∧ Exact h := by
  obtain ⟨h, at', hRun, hRefines⟩ := runFrom_refines Refines.init tidy_init hOrderly
  have hTidy : Tidy (run next ClientState.init (es.map Prod.snd)) :=
    run_invariant Tidy (fun s e h hOk => tidy_orderly h hOk) tidy_init hOrderly
  exact ⟨h, hRun, ⟨at', hRefines⟩, hRefines.exact hTidy⟩

theorem le_foldr_max {n : Nat} {l : List Nat} (h : n ∈ l) : n ≤ l.foldr max 0 := by
  induction l with
  | nil => cases h
  | cons x l ih =>
      rw [List.foldr_cons]
      rcases List.mem_cons.mp h with rfl | h
      · exact Nat.le_max_left _ _
      · exact (ih h).trans (Nat.le_max_right _ _)

/-- The address above all that are in use: what was freed at the top comes back. -/
def aboveAll : Malloc where
  address m := (m.jobs.blocks.map Prod.fst ++ m.pending.blocks.map Prod.fst).foldr max 0 + 1
  unused m := by
    constructor
    · by_contra hUsed
      obtain ⟨n, hRead⟩ := Option.ne_none_iff_exists'.mp hUsed
      have hLe := le_foldr_max (List.mem_append_left (m.pending.blocks.map Prod.fst)
        (Heap.mem_of_read hRead))
      omega
    · by_contra hUsed
      obtain ⟨n, hRead⟩ := Option.ne_none_iff_exists'.mp hUsed
      have hLe := le_foldr_max (List.mem_append_right (m.jobs.blocks.map Prod.fst)
        (Heap.mem_of_read hRead))
      omega

/-- A job holds one of its resources and is released; the next one is stored where it was,
and times out. -/
def recycled : List ClientEvent :=
  halfGranted ++
    [.erlang "JOB_RELEASE 1001\n".toList 2 (tablahashCreate _) .noSocket,
      .erlang "JOB_REQUEST 1002 @10.0.0.1:cpu:1 @10.0.0.2:mem:1\n".toList 3 (tablahashCreate _)
        (.connected 7),
      .sweep 40]

def recycledRun : List (Malloc × ClientEvent) := recycled.map fun e => (aboveAll, e)

/-- The addresses of the jobs and of the nodes after some handlers. -/
def allocated (es : List (Malloc × ClientEvent)) : Option (List Nat × List Nat) :=
  (runFrom State.init es).map fun r =>
    (r.1.mem.jobs.blocks.map Prod.fst, r.1.mem.pending.blocks.map Prod.fst)

/-- The run of `recycledRun` frees every block, and the address of the first job is used
again. -/
theorem memory_safe_recycled :
    (∃ h, runFrom State.init recycledRun =
        some (h, effects ClientState.init (recycledRun.map Prod.snd)) ∧
      (∃ at', Refines h (run next ClientState.init (recycledRun.map Prod.snd)) at') ∧ Exact h) ∧
    ([3, 4, 5, 6].map fun n => (allocated (recycledRun.take n)).map Prod.fst) =
      [some [1], some [], some [1], some []] ∧
    allocated recycledRun = some ([], []) :=
  ⟨memory_safe (by decide +kernel), by decide +kernel, by decide +kernel⟩

/-- A handler that follows the index entry of a descriptor. -/
def Follows (fd : Int) : ClientEvent → Prop
  | .line fd' instruction _ _ =>
      fd' = fd ∧
        ((∃ jobId, parseRemote instruction = .granted jobId) ∨ parseRemote instruction = .reject)
  | .sendRequest fd' => fd' = fd
  | .disconnect fd' => fd' = fd
  | _ => False

/-- An entry that leads to freed memory. -/
theorem follows_faults {h : State} {fd : Int} {e : FdJobEntry}
    (hEntry : h.findEntry fd = some e) (hFreed : h.mem.jobs.read e.job = none) (malloc : Malloc)
    {event : ClientEvent} (hFollows : Follows fd event) : step malloc h event = none := by
  cases event with
  | erlang _ _ _ _ => exact hFollows.elim
  | line fd' instruction now dial =>
      obtain ⟨rfl, ⟨jobId, hParse⟩ | hParse⟩ := hFollows
      · simp only [step, hParse, clientToMyserver, hEntry, hFreed]
        rfl
      · simp only [step, hParse, clientToMyserver, reject, hEntry, hFreed]
        rfl
  | sendRequest fd' =>
      cases (show fd' = fd from hFollows)
      simp only [step, sendRequest, hEntry, hFreed]
      rfl
  | disconnect fd' =>
      cases (show fd' = fd from hFollows)
      simp only [step, reject, hEntry, hFreed]
      rfl
  | sweep _ => exact hFollows.elim

/-- **Replacing a job in flight.**  A JOB_REQUEST with the id of a job that an index entry leads
to is handled without an error, but it frees that job and leaves the entry: the next handler that
follows it reads freed memory. -/
theorem replaced_job_dangles {es : List (Malloc × ClientEvent)} {h : State} {out : List Effect}
    (hOrderly : Meets next Orderly ClientState.init (es.map Prod.snd))
    (hRun : runFrom State.init es = some (h, out)) {job : LocalJob} {e : FdJobEntry}
    (hJob : job ∈ (run next ClientState.init (es.map Prod.snd)).jobs)
    (he : e ∈ (run next ClientState.init (es.map Prod.snd)).entries) (hLeads : e.job = job.addr)
    {instruction jobId token : Text} {tokens : List Text}
    (hParse : parseErlang instruction = .jobRequest jobId (token :: tokens))
    (hId : atoi jobId = job.jobId) {dial : Dial}
    (hDial : Unused (run next ClientState.init (es.map Prod.snd)) dial) (malloc : Malloc)
    (timer : Int) (nodes : Table nodeCallbacks) :
    ∃ h' out' p, step malloc h (.erlang instruction timer nodes dial) = some (h', out') ∧
      h'.findEntry e.fd = some ⟨e.fd, p⟩ ∧ h'.mem.jobs.read p = none ∧
      ∀ malloc' event, Follows e.fd event → step malloc' h' event = none := by
  obtain ⟨h₀, at', hRun', hRefines⟩ := runFrom_refines Refines.init tidy_init hOrderly
  cases hRun.symm.trans hRun'
  have hTidy : Tidy (run next ClientState.init (es.map Prod.snd)) :=
    run_invariant Tidy (fun s e h hOk => tidy_orderly h hOk) tidy_init hOrderly
  generalize run next ClientState.init (es.map Prod.snd) = s at *
  obtain ⟨h', at₂, hStep, hAfter, hOld, hUnused⟩ :=
    jobRequest_refines hRefines hTidy malloc nodes timer dial jobId token tokens
  obtain ⟨newjob, hNew⟩ : ∃ newjob, newjob = makeJob s (atoi jobId)
    (parseDestinations nodes (token :: tokens)) timer := ⟨_, rfl⟩
  have hNewId : newjob.jobId = job.jobId := by
    rw [hNew, ← hId]
    rfl
  have hBrk : newjob.addr = s.brk := by
    rw [hNew]
    rfl
  have hInt : IsInt newjob.jobId := by
    rw [hNewId]
    exact hTidy.ids job hJob
  obtain ⟨hChanged, -⟩ := request_changed hTidy hInt (by rw [hNew]; rfl) dial
  simp only [Client.erlangToC, ← hNew] at hAfter
  have hLt := hTidy.allocated job hJob
  -- the entry is still there, with the pointer it had
  have hStill : h'.findEntry e.fd = some ⟨e.fd, at'.job job.addr⟩ := by
    have hMem : e ∈ (Client.askForNextResource dial (s.insertJob newjob) newjob).1.entries :=
      (hChanged.entries e).mpr (.inr ⟨he, not_mem_dropped hDial newjob he⟩)
    rw [hAfter.findEntry, ClientState.findEntry_eq_some.mpr ⟨hMem, rfl⟩, Option.map_some, hLeads,
      hOld _ hLt]
  -- and no job is at that address any more
  have hFreed : h'.mem.jobs.read (at'.job job.addr) = none := by
    by_contra hUsed
    obtain ⟨x, hx, hPtr⟩ := hAfter.holds.owned _ hUsed
    rcases (hChanged.jobs x).mp hx with hx | ⟨hx, -⟩
    · cases hx
      rw [asked_addr, hBrk] at hPtr
      rw [hPtr, hRefines.holds.block job hJob] at hUnused
      cases hUnused
    · obtain ⟨hx, hNe⟩ := ClientState.mem_jobs_removeJob.mp hx
      rw [hOld _ (hTidy.allocated x hx)] at hPtr
      rw [hRefines.holds.apart x hx job hJob hPtr] at hNe
      exact hNe hNewId.symm
  have hHandled : step malloc h (.erlang instruction timer nodes dial) = some (h',
      (Client.erlangToC nodes timer dial s (.jobRequest jobId (token :: tokens))).2) := by
    simp only [step, hParse]
    exact hStep
  exact ⟨h', _, _, hHandled, hStill, hFreed, fun malloc' event hFollows =>
    follows_faults hStill hFreed malloc' hFollows⟩

/-- One job asks for its first resource on descriptor 5. -/
def inFlight : List (Malloc × ClientEvent) :=
  [(aboveAll, .erlang "JOB_REQUEST 1001 @10.0.0.1:cpu:2\n".toList 0 (tablahashCreate _)
    (.connected 5))]

theorem replaced_job_dangles_inFlight :
    ∃ h out h' out' p, runFrom State.init inFlight = some (h, out) ∧
      step aboveAll h (.erlang "JOB_REQUEST 1001 @10.0.0.1:cpu:2\n".toList 9 (tablahashCreate _)
        (.connected 7)) = some (h', out') ∧
      h'.findEntry 5 = some ⟨5, p⟩ ∧ h'.mem.jobs.read p = none ∧
      ∀ malloc' event, Follows 5 event → step malloc' h' event = none := by
  have hOrderly : Meets next Orderly ClientState.init (inFlight.map Prod.snd) := by
    decide +kernel
  have hParse : parseErlang "JOB_REQUEST 1001 @10.0.0.1:cpu:2\n".toList =
      .jobRequest "1001".toList ["@10.0.0.1:cpu:2".toList] := by decide +kernel
  have hDial : Unused (run next ClientState.init (inFlight.map Prod.snd)) (.connected 7) := by
    decide +kernel
  obtain ⟨h, at', hRun, -⟩ := runFrom_refines Refines.init tidy_init hOrderly
  have hJob : ∃ job ∈ (run next ClientState.init (inFlight.map Prod.snd)).jobs,
      job.addr = 0 ∧ job.jobId = 1001 := by decide +kernel
  have hEntry : (⟨5, 0⟩ : FdJobEntry) ∈
      (run next ClientState.init (inFlight.map Prod.snd)).entries := by decide +kernel
  obtain ⟨job, hJob, hAddr, hId⟩ := hJob
  have hSame : atoi "1001".toList = job.jobId := by
    rw [hId]
    decide +kernel
  obtain ⟨h', out', p, hDangles⟩ := replaced_job_dangles hOrderly hRun hJob hEntry hAddr.symm
    hParse hSame hDial aboveAll 9 (tablahashCreate _)
  exact ⟨h, _, h', out', p, hRun, hDangles⟩

end ResourceAgent.Ports.JobMemory
