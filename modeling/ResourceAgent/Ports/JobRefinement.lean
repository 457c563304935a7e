import ResourceAgent.Ports.JobMemory

/-!
# What the blocks of the client side stand for

`Refines h s at` relates the memory of `Ports.JobMemory` to a state of `Ports.Client`.
The layout `at` says where things are: the address of a job, and the nodes of its two lists.

* `Holds` is about the blocks: those of the jobs in the table and of their lists, no node in two
  lists, and no other block in use.
* the owner table has the pointers in the buckets of the jobs they lead to, and the fd index has
  the entries of the model with the addresses translated.

`Holds.change`, `Holds.drop` and `Holds.add` are the rules for one job.  The operations of the
program follow: writing a job, moving a request, releasing, inserting and removing.
-/

namespace ResourceAgent.Ports.JobMemory

open ResourceAgent.Ports.HashTable
open ResourceAgent.Ports.Records
open ResourceAgent.Ports.Wire
open ResourceAgent.Ports.Client
open ResourceAgent.Ports.TableMap (RawTable localjobFunctions localjobFunctions_matches raw)
open ResourceAgent.Verified.CText
open ResourceAgent.Verified.Linked
open ResourceAgent.Verified.Memory

/-! ## Layouts -/

/-- The two lists of a job. -/
inductive Field where
  | nextReq
  | grantedReqs
  deriving DecidableEq, Repr

/-- Where the job allocated as number `addr` is, and which nodes its lists have. -/
structure Layout where
  job : Nat → Nat
  cells : Nat × Field → List Nat

/-- The nodes hold these requests, in this order. -/
def Contents (read : Nat → Option PendingBlock) (cells : List Nat) (reqs : List PendingResource) :
    Prop :=
  cells.map (fun a => (read a).map PendingBlock.data) = reqs.map some

/-- The block of a job. -/
def blockOf (at' : Layout) (job : LocalJob) : JobBlock where
  jobId := job.jobId
  originSocket := job.originSocket
  nextReq := (at'.cells (job.addr, .nextReq)).head?
  grantedReqs := (at'.cells (job.addr, .grantedReqs)).head?
  timer := job.timer

/-- The blocks in use are those of the jobs and of their lists. -/
structure Holds (m : Blocks) (jobs : List LocalJob) (at' : Layout) : Prop where
  block : ∀ job ∈ jobs, m.jobs.read (at'.job job.addr) = some (blockOf at' job)
  apart : ∀ x ∈ jobs, ∀ y ∈ jobs, at'.job x.addr = at'.job y.addr → x = y
  threaded : Threaded PendingBlock.next m.pending.read (fun i => (at'.cells i).head?) at'.cells
  nextReq : ∀ job ∈ jobs, Contents m.pending.read (at'.cells (job.addr, .nextReq)) job.nextReq
  grantedReqs : ∀ job ∈ jobs,
    Contents m.pending.read (at'.cells (job.addr, .grantedReqs)) job.grantedReqs
  /-- nothing is lost -/
  owned : ∀ p, m.jobs.read p ≠ none → ∃ job ∈ jobs, at'.job job.addr = p
  linked : ∀ a, m.pending.read a ≠ none → ∃ i, a ∈ at'.cells i
  live : ∀ i, at'.cells i ≠ [] → ∃ job ∈ jobs, job.addr = i.1

/-- The program state stands for the state of the model. -/
structure Refines (h : State) (s : ClientState) (at' : Layout) : Prop where
  holds : Holds h.mem s.jobs at'
  elems : h.localjobs.elems = s.tableLocaljobs.elems.map (List.map fun job => at'.job job.addr)
  numElems : h.localjobs.numElems = s.tableLocaljobs.numElems
  index : ∀ e, e ∈ h.ourjobs.toList ↔ ∃ e' ∈ s.entries, e = ⟨e'.fd, at'.job e'.job⟩

theorem Refines.init : Refines State.init ClientState.init ⟨fun _ => 0, fun _ => []⟩ where
  holds := by
    refine ⟨?_, ?_, ⟨fun i => rfl, ?_⟩, ?_, ?_, ?_, ?_, ?_⟩
    all_goals simp [ClientState.jobs, ClientState.init, State.init]
  elems := by simp [State.init, ClientState.init, tablahashCreate]
  numElems := rfl
  index e := by simp [State.init, ClientState.init, ClientState.entries]

section

variable {m m' : Blocks} {jobs jobs' : List LocalJob} {at₁ at₂ : Layout} {job job' : LocalJob}

theorem Contents.frame {read read' : Nat → Option PendingBlock} {cells : List Nat}
    {reqs : List PendingResource} (h : Contents read cells reqs)
    (hSame : ∀ a ∈ cells, read' a = read a) : Contents read' cells reqs := by
  have hMap : cells.map (fun a => (read' a).map PendingBlock.data) =
      cells.map (fun a => (read a).map PendingBlock.data) :=
    List.map_congr_left fun a ha => by rw [hSame a ha]
  exact hMap.trans h

theorem Contents.nil_iff {read : Nat → Option PendingBlock} {cells : List Nat}
    {reqs : List PendingResource} (h : Contents read cells reqs) : cells = [] ↔ reqs = [] := by
  have hLength := congrArg List.length h
  rw [List.length_map, List.length_map] at hLength
  rw [← List.length_eq_zero_iff, ← List.length_eq_zero_iff, hLength]

/-- The first node holds the first request. -/
theorem Contents.cons {read : Nat → Option PendingBlock} {cells : List Nat}
    {req : PendingResource} {reqs : List PendingResource} (h : Contents read cells (req :: reqs)) :
    ∃ a rest node, cells = a :: rest ∧ read a = some node ∧ node.data = req ∧
      Contents read rest reqs := by
  cases cells with
  | nil => cases h
  | cons a rest =>
      obtain ⟨hHead, hRest⟩ := List.cons.inj h
      obtain ⟨node, hRead, hData⟩ := Option.map_eq_some_iff.mp hHead
      exact ⟨a, rest, node, rfl, hRead, hData, hRest⟩

theorem Holds.addrKeys (h : Holds m jobs at₁) {x y : LocalJob} (hx : x ∈ jobs) (hy : y ∈ jobs)
    (hSame : x.addr = y.addr) : x = y :=
  h.apart x hx y hy (by rw [hSame])

theorem Holds.root (h : Holds m jobs at₁) (i : Nat × Field) :
    Chain PendingBlock.next m.pending.read (at₁.cells i).head? (at₁.cells i) :=
  h.threaded.chain i

/-! ## One job -/

/-- A job is written to: its block and the nodes of its lists. -/
theorem Holds.change (h : Holds m jobs at₁) (hJob : job ∈ jobs) (hAddr : job'.addr = job.addr)
    (hJobs : ∀ x, x ∈ jobs' ↔ x = job' ∨ (x ∈ jobs ∧ x.addr ≠ job.addr))
    (hPtr : at₂.job = at₁.job)
    (hRead : ∀ p, m'.jobs.read p =
      if p = at₁.job job.addr then some (blockOf at₂ job') else m.jobs.read p)
    (hThreaded : Threaded PendingBlock.next m'.pending.read (fun i => (at₂.cells i).head?)
      at₂.cells)
    (hOthers : ∀ i, i.1 ≠ job.addr → at₂.cells i = at₁.cells i ∧
      ∀ a ∈ at₁.cells i, m'.pending.read a = m.pending.read a)
    (hNext : Contents m'.pending.read (at₂.cells (job.addr, .nextReq)) job'.nextReq)
    (hGranted : Contents m'.pending.read (at₂.cells (job.addr, .grantedReqs)) job'.grantedReqs)
    (hLinked : ∀ a, m'.pending.read a ≠ none → ∃ i, a ∈ at₂.cells i) :
    Holds m' jobs' at₂ := by
  have hPtrNe : ∀ x ∈ jobs, x.addr ≠ job.addr → at₁.job x.addr ≠ at₁.job job.addr := by
    intro x hx hNe hSame
    exact hNe (congrArg LocalJob.addr (h.apart x hx job hJob hSame))
  have hMem : job' ∈ jobs' := (hJobs job').mpr (.inl rfl)
  refine ⟨?_, ?_, hThreaded, ?_, ?_, ?_, hLinked, ?_⟩
  · intro x hx
    rw [hPtr, hRead]
    rcases (hJobs x).mp hx with rfl | ⟨hx, hNe⟩
    · rw [hAddr, if_pos rfl]
    · rw [if_neg (hPtrNe x hx hNe), h.block x hx, blockOf, blockOf,
        (hOthers (x.addr, .nextReq) hNe).1, (hOthers (x.addr, .grantedReqs) hNe).1]
  · intro x hx y hy hSame
    rw [hPtr] at hSame
    rcases (hJobs x).mp hx with rfl | ⟨hx, hxNe⟩
    · rcases (hJobs y).mp hy with rfl | ⟨hy, hyNe⟩
      · rfl
      · rw [hAddr] at hSame
        exact absurd hSame.symm (hPtrNe y hy hyNe)
    · rcases (hJobs y).mp hy with rfl | ⟨hy, hyNe⟩
      · rw [hAddr] at hSame
        exact absurd hSame (hPtrNe x hx hxNe)
      · exact h.apart x hx y hy hSame
  · intro x hx
    rcases (hJobs x).mp hx with rfl | ⟨hx, hNe⟩
    · rw [hAddr]
      exact hNext
    · obtain ⟨hCells, hSame⟩ := hOthers (x.addr, .nextReq) hNe
      rw [hCells]
      exact (h.nextReq x hx).frame hSame
  · intro x hx
    rcases (hJobs x).mp hx with rfl | ⟨hx, hNe⟩
    · rw [hAddr]
      exact hGranted
    · obtain ⟨hCells, hSame⟩ := hOthers (x.addr, .grantedReqs) hNe
      rw [hCells]
      exact (h.grantedReqs x hx).frame hSame
  · intro p hp
    rw [hRead] at hp
    by_cases hSelf : p = at₁.job job.addr
    · exact ⟨job', hMem, by rw [hPtr, hAddr, hSelf]⟩
    · rw [if_neg hSelf] at hp
      obtain ⟨x, hx, hxPtr⟩ := h.owned p hp
      refine ⟨x, (hJobs x).mpr (.inr ⟨hx, fun hSame => hSelf ?_⟩), by rw [hPtr, hxPtr]⟩
      rw [← hxPtr, hSame]
  · intro i hi
    by_cases hSelf : i.1 = job.addr
    · exact ⟨job', hMem, hAddr.trans hSelf.symm⟩
    · rw [(hOthers i hSelf).1] at hi
      obtain ⟨x, hx, hxAddr⟩ := h.live i hi
      exact ⟨x, (hJobs x).mpr (.inr ⟨hx, by rw [hxAddr]; exact hSelf⟩), hxAddr⟩

/-- Only the block of a job is written. -/
theorem Holds.write (h : Holds m jobs at₁) (hJob : job ∈ jobs) (hAddr : job'.addr = job.addr)
    (hJobs : ∀ x, x ∈ jobs' ↔ x = job' ∨ (x ∈ jobs ∧ x.addr ≠ job.addr))
    (hNext : job'.nextReq = job.nextReq) (hGranted : job'.grantedReqs = job.grantedReqs)
    (hRead : ∀ p, m'.jobs.read p =
      if p = at₁.job job.addr then some (blockOf at₁ job') else m.jobs.read p)
    (hPending : m'.pending = m.pending) : Holds m' jobs' at₁ := by
  refine h.change hJob hAddr hJobs rfl hRead ?_ (fun i _ => ⟨rfl, fun a _ => by rw [hPending]⟩)
    ?_ ?_ ?_
  · rw [hPending]
    exact h.threaded
  · rw [hPending, hNext]
    exact h.nextReq job hJob
  · rw [hPending, hGranted]
    exact h.grantedReqs job hJob
  · rw [hPending]
    exact h.linked

/-- The layout without the lists of a job. -/
def Layout.drop (at' : Layout) (addr : Nat) : Layout :=
  { at' with cells := fun i => if i.1 = addr then [] else at'.cells i }

/-- A job and its lists are freed. -/
theorem Holds.drop (h : Holds m jobs at₁) (hJob : job ∈ jobs)
    (hJobs : ∀ x, x ∈ jobs' ↔ x ∈ jobs ∧ x.addr ≠ job.addr)
    (hRead : ∀ p, m'.jobs.read p = if p = at₁.job job.addr then none else m.jobs.read p)
    (hFreed : ∀ a, m'.pending.read a =
      if a ∈ at₁.cells (job.addr, .nextReq) ∨ a ∈ at₁.cells (job.addr, .grantedReqs) then none
      else m.pending.read a) :
    Holds m' jobs' (at₁.drop job.addr) := by
  have hCells : ∀ x : LocalJob, x.addr ≠ job.addr → ∀ f,
      (at₁.drop job.addr).cells (x.addr, f) = at₁.cells (x.addr, f) :=
    fun x hNe f => if_neg hNe
  -- the nodes of other lists are not freed
  have hSame : ∀ i : Nat × Field, i.1 ≠ job.addr → ∀ a ∈ at₁.cells i,
      m'.pending.read a = m.pending.read a := by
    intro i hNe a ha
    rw [hFreed, if_neg]
    rintro (hIn | hIn)
    · exact h.threaded.apart i _ (fun hEq => hNe (congrArg Prod.fst hEq)) a ha hIn
    · exact h.threaded.apart i _ (fun hEq => hNe (congrArg Prod.fst hEq)) a ha hIn
  refine ⟨?_, ?_, ⟨fun i => ?_, ?_⟩, ?_, ?_, ?_, ?_, ?_⟩
  · intro x hx
    obtain ⟨hx, hNe⟩ := (hJobs x).mp hx
    have hPtr : at₁.job x.addr ≠ at₁.job job.addr := fun hEq =>
      hNe (congrArg LocalJob.addr (h.apart x hx job hJob hEq))
    rw [hRead]
    show (if at₁.job x.addr = at₁.job job.addr then none else _) = _
    rw [if_neg hPtr]
    refine (h.block x hx).trans ?_
    rw [blockOf, blockOf, hCells x hNe, hCells x hNe]
  · intro x hx y hy hEq
    exact h.apart x ((hJobs x).mp hx).1 y ((hJobs y).mp hy).1 hEq
  · by_cases hSelf : i.1 = job.addr
    · have hNil : (at₁.drop job.addr).cells i = [] := if_pos hSelf
      rw [hNil]
      exact rfl
    · have hKept : (at₁.drop job.addr).cells i = at₁.cells i := if_neg hSelf
      rw [hKept]
      exact (h.root i).frame (hSame i hSelf)
  · intro i j hij a hi hj
    by_cases hiSelf : i.1 = job.addr
    · rw [show (at₁.drop job.addr).cells i = [] from if_pos hiSelf] at hi
      cases hi
    · by_cases hjSelf : j.1 = job.addr
      · rw [show (at₁.drop job.addr).cells j = [] from if_pos hjSelf] at hj
        cases hj
      · rw [show (at₁.drop job.addr).cells i = at₁.cells i from if_neg hiSelf] at hi
        rw [show (at₁.drop job.addr).cells j = at₁.cells j from if_neg hjSelf] at hj
        exact h.threaded.apart i j hij a hi hj
  · intro x hx
    obtain ⟨hx, hNe⟩ := (hJobs x).mp hx
    rw [hCells x hNe]
    exact (h.nextReq x hx).frame (hSame (x.addr, .nextReq) hNe)
  · intro x hx
    obtain ⟨hx, hNe⟩ := (hJobs x).mp hx
    rw [hCells x hNe]
    exact (h.grantedReqs x hx).frame (hSame (x.addr, .grantedReqs) hNe)
  · intro p hp
    rw [hRead] at hp
    by_cases hSelf : p = at₁.job job.addr
    · rw [if_pos hSelf] at hp
      exact absurd rfl hp
    · rw [if_neg hSelf] at hp
      obtain ⟨x, hx, hxPtr⟩ := h.owned p hp
      refine ⟨x, (hJobs x).mpr ⟨hx, fun hEq => hSelf ?_⟩, hxPtr⟩
      rw [← hxPtr, hEq]
  · intro a ha
    rw [hFreed] at ha
    split at ha
    · exact absurd rfl ha
    · rename_i hOut
      obtain ⟨⟨x, f⟩, hi⟩ := h.linked a ha
      refine ⟨(x, f), ?_⟩
      have hNe : x ≠ job.addr := by
        rintro rfl
        cases f with
        | nextReq => exact hOut (.inl hi)
        | grantedReqs => exact hOut (.inr hi)
      show a ∈ if x = job.addr then [] else at₁.cells (x, f)
      rwa [if_neg hNe]
  · intro i hi
    by_cases hSelf : i.1 = job.addr
    · exact absurd (if_pos hSelf) hi
    · obtain ⟨x, hx, hxAddr⟩ := h.live i (fun hNil => hi ((if_neg hSelf).trans hNil))
      exact ⟨x, (hJobs x).mpr ⟨hx, by rw [hxAddr]; exact hSelf⟩, hxAddr⟩

/-- The layout with a new job at `p`. -/
def Layout.add (at' : Layout) (addr p : Nat) (cells : List Nat) : Layout where
  job := Function.update at'.job addr p
  cells := Function.update at'.cells (addr, .nextReq) cells

/-- A job is allocated, with the requests it starts with. -/
theorem Holds.add (h : Holds m jobs at₁) {p : Nat} {cells : List Nat}
    (hNew : ∀ x ∈ jobs, x.addr ≠ job.addr) (hGranted : job.grantedReqs = [])
    (hUnused : m.jobs.read p = none) (hFresh : ∀ a ∈ cells, m.pending.read a = none)
    (hRead : ∀ q, m'.jobs.read q =
      if q = p then some ⟨job.jobId, job.originSocket, cells.head?, none, job.timer⟩
      else m.jobs.read q)
    (hSame : ∀ a, a ∉ cells → m'.pending.read a = m.pending.read a)
    (hChain : Chain PendingBlock.next m'.pending.read cells.head? cells)
    (hContents : Contents m'.pending.read cells job.nextReq) :
    Holds m' (job :: jobs) (at₁.add job.addr p cells) := by
  have hJob : ∀ x ∈ jobs, (at₁.add job.addr p cells).job x.addr = at₁.job x.addr :=
    fun x hx => Function.update_of_ne (hNew x hx) ..
  have hSelf : (at₁.add job.addr p cells).job job.addr = p := Function.update_self ..
  have hNext : (at₁.add job.addr p cells).cells (job.addr, .nextReq) = cells :=
    Function.update_self ..
  have hOther : ∀ i, i ≠ (job.addr, .nextReq) →
      (at₁.add job.addr p cells).cells i = at₁.cells i := fun i hi => Function.update_of_ne hi ..
  have hNone : (at₁.add job.addr p cells).cells (job.addr, .grantedReqs) = [] := by
    rw [hOther _ (by simp)]
    by_contra hLive
    obtain ⟨x, hx, hAddr⟩ := h.live _ hLive
    exact hNew x hx hAddr
  have hOf : ∀ x ∈ jobs, ∀ f, (at₁.add job.addr p cells).cells (x.addr, f) =
      at₁.cells (x.addr, f) := fun x hx f => hOther _ fun hEq =>
    hNew x hx (congrArg Prod.fst hEq)
  -- a node of another list is allocated, so it is not one of the new ones
  have hOld : ∀ i, ∀ a ∈ at₁.cells i, a ∉ cells := by
    intro i a ha hNewCell
    obtain ⟨node, hNode⟩ := (h.root i).allocated ha
    rw [hFresh a hNewCell] at hNode
    cases hNode
  have hPtr : ∀ x ∈ jobs, at₁.job x.addr ≠ p := by
    intro x hx hEq
    have hBlock := h.block x hx
    rw [hEq, hUnused] at hBlock
    cases hBlock
  refine ⟨?_, ?_, ?_, ?_, ?_, ?_, ?_, ?_⟩
  · intro x hx
    rcases List.mem_cons.mp hx with rfl | hx
    · rw [hSelf, hRead, if_pos rfl, blockOf, hNext, hNone]
      rfl
    · rw [hJob x hx, hRead, if_neg (hPtr x hx), h.block x hx, blockOf, blockOf,
        hOf x hx, hOf x hx]
  · intro x hx y hy hEq
    rcases List.mem_cons.mp hx with hxNew | hxOld
    · rcases List.mem_cons.mp hy with hyNew | hyOld
      · rw [hxNew, hyNew]
      · rw [hxNew, hSelf, hJob y hyOld] at hEq
        exact absurd hEq.symm (hPtr y hyOld)
    · rcases List.mem_cons.mp hy with hyNew | hyOld
      · rw [hyNew, hSelf, hJob x hxOld] at hEq
        exact absurd hEq (hPtr x hxOld)
      · rw [hJob x hxOld, hJob y hyOld] at hEq
        exact h.apart x hxOld y hyOld hEq
  · have hSet := h.threaded.set hChain (i := (job.addr, Field.nextReq))
      (fun i _ a ha => hSame a (hOld i a ha)) fun a ha i _ hIn => hOld i a hIn ha
    have hRoot : Function.update (fun i => (at₁.cells i).head?) (job.addr, Field.nextReq)
        cells.head? = fun i => ((at₁.add job.addr p cells).cells i).head? := by
      funext i
      by_cases hi : i = (job.addr, Field.nextReq)
      · rw [hi, Function.update_self, hNext]
      · rw [Function.update_of_ne hi, hOther i hi]
    rw [hRoot] at hSet
    exact hSet
  · intro x hx
    rcases List.mem_cons.mp hx with rfl | hx
    · rw [hNext]
      exact hContents
    · rw [hOf x hx]
      exact (h.nextReq x hx).frame fun a ha => hSame a (hOld _ a ha)
  · intro x hx
    rcases List.mem_cons.mp hx with rfl | hx
    · rw [hNone, hGranted]
      exact rfl
    · rw [hOf x hx]
      exact (h.grantedReqs x hx).frame fun a ha => hSame a (hOld _ a ha)
  · intro q hq
    rw [hRead] at hq
    by_cases hIs : q = p
    · exact ⟨job, List.mem_cons_self, by rw [hSelf, hIs]⟩
    · rw [if_neg hIs] at hq
      obtain ⟨x, hx, hxPtr⟩ := h.owned q hq
      exact ⟨x, List.mem_cons_of_mem _ hx, by rw [hJob x hx, hxPtr]⟩
  · intro a ha
    by_cases hIn : a ∈ cells
    · exact ⟨(job.addr, .nextReq), by rw [hNext]; exact hIn⟩
    · rw [hSame a hIn] at ha
      obtain ⟨i, hi⟩ := h.linked a ha
      refine ⟨i, ?_⟩
      rw [hOther]
      · exact hi
      · rintro rfl
        obtain ⟨x, hx, hAddr⟩ := h.live (job.addr, .nextReq) (List.ne_nil_of_mem hi)
        exact hNew x hx hAddr
  · intro i hi
    by_cases hIs : i = (job.addr, .nextReq)
    · exact ⟨job, List.mem_cons_self, by rw [hIs]⟩
    · rw [hOther i hIs] at hi
      obtain ⟨x, hx, hAddr⟩ := h.live i hi
      exact ⟨x, List.mem_cons_of_mem _ hx, hAddr⟩

/-- Only which jobs there are matters. -/
theorem Holds.congr (h : Holds m jobs at₁) (hJobs : ∀ x, x ∈ jobs' ↔ x ∈ jobs) :
    Holds m jobs' at₁ where
  block x hx := h.block x ((hJobs x).mp hx)
  apart x hx y hy hEq := h.apart x ((hJobs x).mp hx) y ((hJobs y).mp hy) hEq
  threaded := h.threaded
  nextReq x hx := h.nextReq x ((hJobs x).mp hx)
  grantedReqs x hx := h.grantedReqs x ((hJobs x).mp hx)
  owned p hp := by
    obtain ⟨x, hx, hPtr⟩ := h.owned p hp
    exact ⟨x, (hJobs x).mpr hx, hPtr⟩
  linked := h.linked
  live i hi := by
    obtain ⟨x, hx, hAddr⟩ := h.live i hi
    exact ⟨x, (hJobs x).mpr hx, hAddr⟩

/-- `destr_localjob` on a job. -/
theorem Holds.destr (h : Holds m jobs at₁) (hJob : job ∈ jobs)
    (hJobs : ∀ x, x ∈ jobs' ↔ x ∈ jobs ∧ x.addr ≠ job.addr) :
    ∃ m', destrLocaljob m (at₁.job job.addr) = some m' ∧ Holds m' jobs' (at₁.drop job.addr) := by
  have hBlock := h.block job hJob
  obtain ⟨pending₁, hFirst, hRead₁⟩ := Heap.freeList_spec (h.root (job.addr, .nextReq))
  -- the second list is still there when the first is gone
  have hApart : ∀ a ∈ at₁.cells (job.addr, .grantedReqs), a ∉ at₁.cells (job.addr, .nextReq) :=
    h.threaded.apart _ _ (by simp)
  have hSecond : Chain PendingBlock.next pending₁.read (at₁.cells (job.addr, .grantedReqs)).head?
      (at₁.cells (job.addr, .grantedReqs)) :=
    (h.root _).frame fun a ha => by rw [hRead₁, if_neg (hApart a ha)]
  obtain ⟨pending₂, hFreed, hRead₂⟩ := Heap.freeList_spec hSecond
  refine ⟨⟨m.jobs.remove (at₁.job job.addr), pending₂⟩, ?_, h.drop hJob hJobs ?_ ?_⟩
  · have hNextRoot : (blockOf at₁ job).nextReq = (at₁.cells (job.addr, .nextReq)).head? := rfl
    have hGrantedRoot : (blockOf at₁ job).grantedReqs =
        (at₁.cells (job.addr, .grantedReqs)).head? := rfl
    simp only [destrLocaljob, hBlock, Option.bind_eq_bind, Option.bind_some, hNextRoot, hFirst,
      hGrantedRoot, hFreed, Heap.free_of_read hBlock]
    rfl
  · exact fun p => Heap.read_remove
  · intro a
    show pending₂.read a = _
    rw [hRead₂, hRead₁]
    by_cases hNext : a ∈ at₁.cells (job.addr, .nextReq)
    · simp [hNext]
    · simp [hNext]

/-- The layout after GRANTED: node `a` goes from the front of one list to the front of the
other. -/
def Layout.move (at' : Layout) (addr a : Nat) (rest : List Nat) : Layout :=
  { at' with
    cells := Function.update (Function.update at'.cells (addr, .nextReq) rest)
      (addr, .grantedReqs) (a :: at'.cells (addr, .grantedReqs)) }

theorem Layout.move_granted (at' : Layout) (addr a : Nat) (rest : List Nat) :
    (at'.move addr a rest).cells (addr, .grantedReqs) = a :: at'.cells (addr, .grantedReqs) :=
  Function.update_self ..

theorem Layout.move_next (at' : Layout) (addr a : Nat) (rest : List Nat) :
    (at'.move addr a rest).cells (addr, .nextReq) = rest := by
  show Function.update _ _ _ _ = _
  rw [Function.update_of_ne (by simp), Function.update_self]

theorem Layout.move_other (at' : Layout) {addr : Nat} (a : Nat) (rest : List Nat)
    {i : Nat × Field} (hi : i.1 ≠ addr) : (at'.move addr a rest).cells i = at'.cells i := by
  show Function.update _ _ _ _ = _
  rw [Function.update_of_ne, Function.update_of_ne]
  · rintro rfl
    exact hi rfl
  · rintro rfl
    exact hi rfl

/-- The node of a request after GRANTED. -/
def movedBlock (at' : Layout) (job : LocalJob) (req : PendingResource) (fd : Int) :
    PendingBlock where
  data := { req with providerFd := fd }
  next := (at'.cells (job.addr, .grantedReqs)).head?

/-- A request is moved from one list of a job to the other. -/
theorem Holds.move (h : Holds m jobs at₁) (hJob : job ∈ jobs) {req : PendingResource}
    {reqs : List PendingResource} (hNext : job.nextReq = req :: reqs) (fd now : Int) :
    ∃ a node rest, (blockOf at₁ job).nextReq = some a ∧ m.pending.read a = some node ∧
      node.data = req ∧
      blockOf (at₁.move job.addr a rest) (LocalJob.advance job fd now) =
        { blockOf at₁ job with nextReq := node.next, grantedReqs := some a, timer := now } ∧
      ∀ jobs', (∀ x, x ∈ jobs' ↔
          x = LocalJob.advance job fd now ∨ (x ∈ jobs ∧ x.addr ≠ job.addr)) →
        Holds ⟨(m.jobs.remove (at₁.job job.addr)).malloc (at₁.job job.addr)
            (blockOf (at₁.move job.addr a rest) (LocalJob.advance job fd now)),
          (m.pending.remove a).malloc a (movedBlock at₁ job req fd)⟩ jobs'
          (at₁.move job.addr a rest) := by
  have hContents := h.nextReq job hJob
  rw [hNext] at hContents
  obtain ⟨a, rest, node, hCells, hRead, hData, hRest⟩ := hContents.cons
  have hAdvance : LocalJob.advance job fd now =
      { job with
        nextReq := reqs
        grantedReqs := { req with providerFd := fd } :: job.grantedReqs
        timer := now } := by
    simp [LocalJob.advance, hNext]
  have hChain := h.root (job.addr, .nextReq)
  have hLink : node.next = rest.head? := by
    rw [hCells] at hChain
    obtain ⟨-, n, hRead', hTail⟩ := hChain
    rw [hRead] at hRead'
    cases hRead'
    exact hTail.head
  have hNodup : a ∉ rest := by
    have hAll := hChain.nodup
    rw [hCells] at hAll
    exact (List.nodup_cons.mp hAll).1
  -- node `a` is the only one that is written
  have hWrite := Heap.write_of_read hRead (movedBlock at₁ job req fd)
  have hElse : ∀ x, x ≠ a → ((m.pending.remove a).malloc a (movedBlock at₁ job req fd)).read x =
      m.pending.read x := fun x hx => by rw [Heap.read_write hWrite, if_neg hx]
  have hNow : ((m.pending.remove a).malloc a (movedBlock at₁ job req fd)).read a =
      some (movedBlock at₁ job req fd) := by rw [Heap.read_write hWrite, if_pos rfl]
  have hApart : ∀ i, i ≠ (job.addr, Field.nextReq) → ∀ x ∈ at₁.cells i, x ≠ a := by
    rintro i hi x hx rfl
    exact h.threaded.apart i _ hi x hx (hCells ▸ List.mem_cons_self)
  have hMoved := h.threaded.moveHead (i := (job.addr, Field.nextReq))
    (j := (job.addr, Field.grantedReqs)) (by simp) hCells hRead hNow rfl hElse
  have hRoot : Function.update (Function.update (fun i => (at₁.cells i).head?)
      (job.addr, Field.nextReq) node.next) (job.addr, Field.grantedReqs) (some a) =
      fun i => ((at₁.move job.addr a rest).cells i).head? := by
    funext i
    by_cases hi : i.1 = job.addr
    · obtain ⟨x, f⟩ := i
      cases hi
      cases f with
      | nextReq =>
          rw [at₁.move_next, Function.update_of_ne (by simp), Function.update_self, hLink]
      | grantedReqs =>
          rw [at₁.move_granted, Function.update_self]
          rfl
    · rw [at₁.move_other a rest hi, Function.update_of_ne, Function.update_of_ne]
      · rintro rfl
        exact hi rfl
      · rintro rfl
        exact hi rfl
  rw [hRoot] at hMoved
  refine ⟨a, node, rest, by rw [blockOf, hCells]; rfl, hRead, hData, ?_, fun jobs' hJobs => ?_⟩
  · rw [hAdvance]
    simp only [blockOf, at₁.move_next, at₁.move_granted, hLink, List.head?_cons]
  · have hJobWrite := Heap.write_of_read (h.block job hJob)
      (blockOf (at₁.move job.addr a rest) (LocalJob.advance job fd now))
    refine h.change hJob (LocalJob.advance_addr job fd now) hJobs rfl
      (fun p => Heap.read_write hJobWrite) hMoved
      (fun i hi => ⟨at₁.move_other a rest hi, fun x hx => hElse x (hApart i ?_ x hx)⟩) ?_ ?_ ?_
    · rintro rfl
      exact hi rfl
    · rw [at₁.move_next, hAdvance]
      refine hRest.frame fun x hx => hElse x ?_
      rintro rfl
      exact hNodup hx
    · rw [at₁.move_granted, hAdvance]
      have hOld := (h.grantedReqs job hJob).frame fun x hx => hElse x (hApart _ (by simp) x hx)
      simp only [Contents, List.map_cons, hNow, Option.map_some]
      exact congrArg _ hOld
    · intro x hx
      by_cases hSame : x = a
      · exact ⟨(job.addr, .grantedReqs), by rw [at₁.move_granted, hSame]; exact List.mem_cons_self⟩
      · rw [hElse x hSame] at hx
        obtain ⟨⟨y, f⟩, hi⟩ := h.linked x hx
        by_cases hy : y = job.addr
        · subst hy
          cases f with
          | nextReq =>
              rw [hCells] at hi
              rcases List.mem_cons.mp hi with hi | hi
              · exact absurd hi hSame
              · exact ⟨(job.addr, .nextReq), by rw [at₁.move_next]; exact hi⟩
          | grantedReqs =>
              refine ⟨(job.addr, .grantedReqs), ?_⟩
              rw [at₁.move_granted]
              exact List.mem_cons_of_mem _ hi
        · exact ⟨(y, f), by rw [at₁.move_other a rest hy]; exact hi⟩

end

/-! ## The owner table -/

/-- The pointers that stand for jobs. -/
def Layout.pointers (at' : Layout) (l : List LocalJob) : List Nat :=
  l.map fun job => at'.job job.addr

section

variable {blocks : Heap Nat JobBlock} {at' : Layout} {l : List LocalJob} {key : LocalJob}

theorem comp_eq_zero {x : LocalJob} :
    localjobFunctions.comp x key = 0 ↔ x.jobId = key.jobId := by
  simp [localjobFunctions, TableMap.negation_eq_zero]

theorem findInList_pointers (key : LocalJob)
    (hRead : ∀ x ∈ l, ∃ b, blocks.read (at'.job x.addr) = some b ∧ b.jobId = x.jobId) :
    findInList blocks key.jobId (at'.pointers l) =
      some (TableMap.findInList localjobFunctions key l) := by
  induction l with
  | nil => rfl
  | cons x l ih =>
      obtain ⟨b, hBlock, hId⟩ := hRead x List.mem_cons_self
      have hRest := ih fun y hy => hRead y (List.mem_cons_of_mem _ hy)
      show (blocks.read (at'.job x.addr) >>= _) = _
      rw [hBlock, TableMap.findInList]
      simp only [Option.bind_eq_bind, Option.bind_some, hId, comp_eq_zero]
      split
      · rfl
      · show (findInList blocks key.jobId (at'.pointers l) >>= _) = _
        rw [hRest]
        rfl

theorem unlinkFirst_pointers (key : LocalJob)
    (hRead : ∀ x ∈ l, ∃ b, blocks.read (at'.job x.addr) = some b ∧ b.jobId = x.jobId) :
    unlinkFirst blocks key.jobId (at'.pointers l) =
      some ((l.find? fun x => localjobCallbacks.same x key).map fun x =>
        (at'.job x.addr, at'.pointers (l.eraseP fun x => localjobCallbacks.same x key))) := by
  induction l with
  | nil => rfl
  | cons x l ih =>
      obtain ⟨b, hBlock, hId⟩ := hRead x List.mem_cons_self
      have hRest := ih fun y hy => hRead y (List.mem_cons_of_mem _ hy)
      show (blocks.read (at'.job x.addr) >>= _) = _
      rw [hBlock]
      simp only [Option.bind_eq_bind, Option.bind_some, hId]
      by_cases hSame : x.jobId = key.jobId
      · simp [hSame]
        rfl
      · rw [if_neg hSame]
        show (unlinkFirst blocks key.jobId (at'.pointers l) >>= _) = _
        rw [hRest]
        simp [hSame, Layout.pointers, Function.comp_def]

end

section

variable {h : State} {s : ClientState} {at' : Layout} {job key : LocalJob}

theorem Refines.addrKeys (hRefines : Refines h s at') : s.AddrKeys :=
  fun _ hx _ hy => hRefines.holds.addrKeys hx hy

theorem mem_of_bucket {t : Table localjobCallbacks} {x : LocalJob} (hx : x ∈ t.bucket key) :
    x ∈ t.toList := by
  unfold Table.bucket at hx
  cases hGet : t.elems[t.index key]? with
  | none => simp [hGet] at hx
  | some bucket =>
      rw [hGet] at hx
      exact List.mem_flatten.mpr ⟨bucket, List.mem_of_getElem? hGet, hx⟩

/-- The blocks that a search in a bucket looks at. -/
theorem Refines.readable (hRefines : Refines h s at') (key : LocalJob) :
    ∀ x ∈ s.tableLocaljobs.bucket key,
      ∃ b, h.mem.jobs.read (at'.job x.addr) = some b ∧ b.jobId = x.jobId :=
  fun x hx => ⟨_, hRefines.holds.block x (mem_of_bucket hx), rfl⟩

theorem Refines.list (hRefines : Refines h s at') (key : LocalJob) :
    h.localjobs.list (bucketOf h.localjobs key.jobId) =
      at'.pointers (s.tableLocaljobs.bucket key) := by
  have hIndex : bucketOf h.localjobs key.jobId = s.tableLocaljobs.index key := by
    rw [bucketOf, hRefines.elems, List.length_map]
    rfl
  rw [hIndex, RawTable.list, hRefines.elems, List.getElem?_map, Table.bucket]
  cases s.tableLocaljobs.elems[s.tableLocaljobs.index key]? with
  | none => rfl
  | some bucket => rfl

/-- A bucket is replaced in both tables. -/
theorem Refines.setList (hRefines : Refines h s at') (key : LocalJob)
    (f : List LocalJob → List LocalJob) :
    (h.localjobs.setList (bucketOf h.localjobs key.jobId)
        (at'.pointers (f (s.tableLocaljobs.bucket key)))).elems =
      (s.tableLocaljobs.elems.modify (s.tableLocaljobs.index key) f).map at'.pointers := by
  have hIndex : bucketOf h.localjobs key.jobId = s.tableLocaljobs.index key := by
    rw [bucketOf, hRefines.elems, List.length_map]
    rfl
  have hRaw := TableMap.setList_raw localjobFunctions_matches s.tableLocaljobs key f
  rw [← hRaw]
  show h.localjobs.elems.set _ _ = (s.tableLocaljobs.elems.set _ _).map at'.pointers
  rw [hRefines.elems, List.map_set, hIndex]
  rfl

/-- **Finding a job** gives the pointer to the job the model finds. -/
theorem Refines.findJob (hRefines : Refines h s at') (jobId : Int) :
    h.findJob jobId = some ((s.findJob jobId).map fun job => at'.job job.addr) := by
  obtain ⟨key, hKey⟩ : ∃ key : LocalJob, key = ⟨0, jobId, -1, [], [], 0⟩ := ⟨_, rfl⟩
  have hId : key.jobId = jobId := by rw [hKey]
  have hFound := findInList_pointers key (hRefines.readable key)
  have hModel : s.findJob jobId =
      (s.tableLocaljobs.bucket key).find? (localjobCallbacks.same · key) := by rw [hKey]; rfl
  rw [State.findJob, ← hId, hRefines.list, hFound, hId, hModel]
  cases hNode : TableMap.findInList localjobFunctions key (s.tableLocaljobs.bucket key) with
  | none =>
      obtain ⟨-, hNone⟩ := TableMap.findInList_none localjobFunctions_matches hNode
      rw [hNone]
      rfl
  | some node =>
      obtain ⟨-, hGet, -⟩ := TableMap.findInList_some localjobFunctions_matches hNode
      rw [← hGet]
      show some ((at'.pointers _)[node]?) = _
      rw [Layout.pointers, List.getElem?_map]

/-! ## The fd index -/

theorem Refines.findEntry (hRefines : Refines h s at') (fd : Int) :
    h.findEntry fd = (s.findEntry fd).map fun e => ⟨e.fd, at'.job e.job⟩ := by
  cases hFind : s.findEntry fd with
  | none =>
      have hNone := ClientState.findEntry_eq_none.mp hFind
      rw [Option.map_none, State.findEntry, find_eq_none_iff]
      intro e he
      obtain ⟨e', he', rfl⟩ := (hRefines.index e).mp he
      simpa using hNone e' he'
  | some e =>
      obtain ⟨he, rfl⟩ := ClientState.findEntry_eq_some.mp hFind
      rw [Option.map_some, State.findEntry, find_eq_some_iff]
      exact ⟨(hRefines.index _).mpr ⟨e, he, rfl⟩, by simp⟩

theorem Refines.removeEntry (hRefines : Refines h s at') (fd : Int) :
    Refines (h.removeEntry fd) (s.removeEntry fd) at' where
  holds := hRefines.holds
  elems := hRefines.elems
  numElems := hRefines.numElems
  index e := by
    rw [State.removeEntry, mem_remove, hRefines.index]
    simp only [fdCallbacks_same, decide_eq_false_iff_not, ClientState.mem_entries_removeEntry]
    constructor
    · rintro ⟨⟨e', he', rfl⟩, hNe⟩
      exact ⟨e', ⟨he', hNe⟩, rfl⟩
    · rintro ⟨e', ⟨he', hNe⟩, rfl⟩
      exact ⟨⟨e', he', rfl⟩, hNe⟩

theorem Refines.insertEntry (hRefines : Refines h s at') (fd : Int) (addr : Nat) :
    Refines (h.insertEntry fd (at'.job addr)) (s.insertEntry fd addr) at' where
  holds := hRefines.holds
  elems := hRefines.elems
  numElems := hRefines.numElems
  index e := by
    rw [State.insertEntry, mem_insert, hRefines.index]
    simp only [fdCallbacks_same, decide_eq_false_iff_not, ClientState.mem_entries_insertEntry]
    constructor
    · rintro (rfl | ⟨⟨e', he', rfl⟩, hNe⟩)
      · exact ⟨⟨fd, addr⟩, .inl rfl, rfl⟩
      · exact ⟨e', .inr ⟨he', hNe⟩, rfl⟩
    · rintro ⟨e', rfl | ⟨he', hNe⟩, rfl⟩
      · exact .inl rfl
      · exact .inr ⟨⟨e', he', rfl⟩, hNe⟩

/-! ## Writing a job -/

theorem pointers_writeJob (s : ClientState) (at' : Layout) (job : LocalJob) :
    (s.writeJob job).tableLocaljobs.elems.map at'.pointers =
      s.tableLocaljobs.elems.map at'.pointers := by
  show (s.tableLocaljobs.elems.map (List.map _)).map at'.pointers = _
  rw [List.map_map]
  refine List.map_congr_left fun bucket _ => ?_
  show ((bucket.map _).map _) = bucket.map _
  rw [List.map_map]
  refine List.map_congr_left fun old _ => ?_
  show at'.job (if _ then _ else old).addr = at'.job old.addr
  split
  · rfl
  · rfl

/-- Only the memory of one job has changed. -/
theorem Refines.written {h' : State} {at₂ : Layout} (hRefines : Refines h s at')
    (hHolds : Holds h'.mem (s.writeJob job).jobs at₂) (hPtr : at₂.job = at'.job)
    (hTable : h'.localjobs = h.localjobs) (hIndex : h'.ourjobs = h.ourjobs) :
    Refines h' (s.writeJob job) at₂ where
  holds := hHolds
  elems := by
    have hSame : at₂.pointers = at'.pointers := by
      funext l
      rw [Layout.pointers, Layout.pointers, hPtr]
    rw [hTable, hRefines.elems]
    show s.tableLocaljobs.elems.map at'.pointers =
      (s.writeJob job).tableLocaljobs.elems.map at₂.pointers
    rw [hSame, pointers_writeJob]
  numElems := by
    rw [hTable, hRefines.numElems]
    rfl
  index e := by
    rw [hIndex, hRefines.index, hPtr]
    rfl

theorem mem_jobs_writeJob (hRefines : Refines h s at') (hJob : job ∈ s.jobs)
    (hAddr : key.addr = job.addr) (hId : key.jobId = job.jobId) (x : LocalJob) :
    x ∈ (s.writeJob key).jobs ↔ x = key ∨ (x ∈ s.jobs ∧ x.addr ≠ job.addr) := by
  rw [(writeJob_changed hRefines.addrKeys hJob key hAddr hId).jobs x, Option.some.injEq, eq_comm]

/-- **Writing the fields of a job** that are not lists. -/
theorem Refines.writeJob (hRefines : Refines h s at') (hJob : job ∈ s.jobs) (key : LocalJob)
    (hAddr : key.addr = job.addr) (hId : key.jobId = job.jobId)
    (hNext : key.nextReq = job.nextReq) (hGranted : key.grantedReqs = job.grantedReqs) :
    ∃ h', h.writeJob (at'.job job.addr) (blockOf at' key) = some h' ∧
      Refines h' (s.writeJob key) at' := by
  have hWrite := Heap.write_of_read (hRefines.holds.block job hJob) (blockOf at' key)
  have hHolds : Holds ⟨(h.mem.jobs.remove (at'.job job.addr)).malloc (at'.job job.addr)
      (blockOf at' key), h.mem.pending⟩ (s.writeJob key).jobs at' :=
    hRefines.holds.write hJob hAddr (mem_jobs_writeJob hRefines hJob hAddr hId) hNext hGranted
      (fun p => Heap.read_write hWrite) rfl
  refine ⟨{ h with mem := ⟨_, _⟩ }, ?_, hRefines.written hHolds rfl rfl rfl⟩
  rw [State.writeJob, hWrite, Option.map_some]

/-- **GRANTED** moves the first node of `next_req` to the front of `granted_reqs`. -/
theorem Refines.advance (hRefines : Refines h s at') (hJob : job ∈ s.jobs) (fd now : Int) :
    ∃ h' at₂, JobMemory.advance h (at'.job job.addr) fd now = some h' ∧ at₂.job = at'.job ∧
      Refines h' (s.writeJob (LocalJob.advance job fd now)) at₂ := by
  have hBlock := hRefines.holds.block job hJob
  cases hNext : job.nextReq with
  | nil =>
      have hNil : at'.cells (job.addr, .nextReq) = [] :=
        (hRefines.holds.nextReq job hJob).nil_iff.mpr hNext
      have hRoot : (blockOf at' job).nextReq = none := by
        rw [blockOf, hNil]
        rfl
      have hAdvance : LocalJob.advance job fd now = { job with timer := now } := by
        simp [LocalJob.advance, hNext]
      obtain ⟨h', hWrite, hAfter⟩ := hRefines.writeJob hJob { job with timer := now }
        rfl rfl rfl rfl
      refine ⟨h', at', ?_, rfl, ?_⟩
      · have hStored : blockOf at' { job with timer := now } =
            { blockOf at' job with nextReq := none, timer := now } := by
          rw [← hRoot]
          rfl
        simp only [JobMemory.advance, hBlock, Option.bind_eq_bind, Option.bind_some, hRoot,
          ← hStored, hWrite]
      · rw [hAdvance]
        exact hAfter
  | cons req reqs =>
      obtain ⟨a, node, rest, hFirst, hRead, hData, hBlock₂, hHolds⟩ :=
        hRefines.holds.move hJob hNext fd now
      have hAddr := LocalJob.advance_addr job fd now
      have hId := LocalJob.advance_jobId job fd now
      have hAfter := hHolds _ (mem_jobs_writeJob hRefines hJob hAddr hId)
      refine ⟨{ h with mem := ⟨_, _⟩ }, at'.move job.addr a rest, ?_, rfl,
        hRefines.written hAfter rfl rfl rfl⟩
      have hStored : (⟨{ node.data with providerFd := fd }, (blockOf at' job).grantedReqs⟩ :
          PendingBlock) = movedBlock at' job req fd := by
        rw [hData]
        rfl
      simp only [JobMemory.advance, hBlock, Option.bind_eq_bind, Option.bind_some, hFirst, hRead,
        hStored, Heap.write_of_read hRead, State.writeJob, ← hBlock₂, Heap.write_of_read hBlock,
        Option.map_some]

/-- The job after `release_resources`. -/
def releasedJob (job : LocalJob) : LocalJob :=
  { job with
    grantedReqs := job.grantedReqs.map fun granted =>
      if 0 ≤ granted.providerFd then { granted with providerFd := -1 } else granted }

/-- **`release_resources`** walks over `granted_reqs` and writes to its nodes only. -/
theorem Refines.releaseResources (hRefines : Refines h s at') (hJob : job ∈ s.jobs) :
    ∃ h', JobMemory.releaseResources h (at'.job job.addr) =
        some (h', (Client.releaseResources s job).2) ∧
      Refines h' (Client.releaseResources s job).1 at' := by
  have hBlock := hRefines.holds.block job hJob
  have hContents := hRefines.holds.grantedReqs job hJob
  obtain ⟨pending, hVisited, hRead⟩ := Heap.visitList_spec (releaseBlock job.jobId)
    (fun n => rfl) (hRefines.holds.root (job.addr, .grantedReqs))
  have hLinks : ∀ a, (pending.read a).map PendingBlock.next =
      (h.mem.pending.read a).map PendingBlock.next := by
    intro a
    rw [hRead]
    split
    · rw [Option.map_map]
      rfl
    · rfl
  have hElse : ∀ i, i ≠ (job.addr, Field.grantedReqs) → ∀ a ∈ at'.cells i,
      pending.read a = h.mem.pending.read a := fun i hi a ha => by
    rw [hRead, if_neg (hRefines.holds.threaded.apart i _ hi a ha)]
  have hOut : ((at'.cells (job.addr, .grantedReqs)).flatMap fun a =>
      (h.mem.pending.read a).elim [] fun n => (releaseBlock job.jobId n).2) =
        job.grantedReqs.flatMap (releaseProvider job.jobId) := by
    have hEffects : ((at'.cells (job.addr, .grantedReqs)).flatMap fun a =>
        (h.mem.pending.read a).elim [] fun n => (releaseBlock job.jobId n).2) =
          ((at'.cells (job.addr, .grantedReqs)).map fun a =>
            (h.mem.pending.read a).map PendingBlock.data).flatMap fun data =>
              data.elim [] (releaseProvider job.jobId) := by
      rw [List.flatMap_map]
      refine List.flatMap_congr fun a _ => ?_
      cases h.mem.pending.read a with
      | none => rfl
      | some node => rfl
    rw [hEffects, hContents, List.flatMap_map]
    rfl
  have hReleased : Contents pending.read (at'.cells (job.addr, .grantedReqs))
      (releasedJob job).grantedReqs := by
    have hMapped : ((at'.cells (job.addr, .grantedReqs)).map fun a =>
        (pending.read a).map PendingBlock.data) =
          ((at'.cells (job.addr, .grantedReqs)).map fun a =>
            (h.mem.pending.read a).map PendingBlock.data).map (Option.map fun granted =>
              if 0 ≤ granted.providerFd then { granted with providerFd := -1 } else granted) := by
      rw [List.map_map]
      refine List.map_congr_left fun a ha => ?_
      rw [hRead, if_pos ha, Function.comp_apply, Option.map_map, Option.map_map]
      rfl
    rw [Contents, hMapped, hContents, releasedJob, List.map_map, List.map_map]
    rfl
  have hHolds : Holds ⟨h.mem.jobs, pending⟩ (s.writeJob (releasedJob job)).jobs at' := by
    have hJobs : ∀ x, x ∈ (s.writeJob (releasedJob job)).jobs ↔
        x = releasedJob job ∨ (x ∈ s.jobs ∧ x.addr ≠ job.addr) :=
      mem_jobs_writeJob hRefines hJob rfl rfl
    have hAddr : (releasedJob job).addr = job.addr := rfl
    refine hRefines.holds.change hJob hAddr hJobs rfl
      (fun p => ?_) (threaded_of_links hRefines.holds.threaded fun i a _ => hLinks a)
      (fun i hi => ⟨rfl, hElse i fun hEq => hi (congrArg Prod.fst hEq)⟩) ?_ hReleased ?_
    · split
      · rename_i hSelf
        rw [hSelf]
        exact hBlock
      · rfl
    · exact (hRefines.holds.nextReq job hJob).frame (hElse _ (by simp))
    · intro a ha
      refine hRefines.holds.linked a fun hNone => ha ?_
      have hSame := hLinks a
      rw [hNone, Option.map_none, Option.map_eq_none_iff] at hSame
      exact hSame
  refine ⟨{ h with mem := ⟨h.mem.jobs, pending⟩ }, ?_, hRefines.written hHolds rfl rfl rfl⟩
  have hVisited' : h.mem.pending.visitList PendingBlock.next (releaseBlock (blockOf at' job).jobId)
      (blockOf at' job).grantedReqs = some (pending, job.grantedReqs.flatMap
        (releaseProvider job.jobId)) := by
    rw [← hOut]
    exact hVisited
  simp only [JobMemory.releaseResources, hBlock, Option.bind_eq_bind, Option.bind_some, hVisited']
  rfl

/-! ## Removing and inserting -/

/-- What a table operation sees of its argument is the key. -/
theorem removeJob_congr {s : ClientState} {job key : LocalJob} (hId : key.jobId = job.jobId) :
    s.removeJob key = s.removeJob job := by
  obtain ⟨addr, jobId, originSocket, nextReq, grantedReqs, timer⟩ := job
  obtain ⟨addr', jobId', originSocket', nextReq', grantedReqs', timer'⟩ := key
  cases hId
  rfl

/-- **Removing a job** frees it and its lists. -/
theorem Refines.removeJob (hRefines : Refines h s at') (hJob : job ∈ s.jobs) :
    ∃ h', h.removeJob (at'.job job.addr) = some h' ∧
      Refines h' (s.removeJob job) (at'.drop job.addr) := by
  have hBlock := hRefines.holds.block job hJob
  have hJobs : ∀ x, x ∈ (s.removeJob job).jobs ↔ x ∈ s.jobs ∧ x.addr ≠ job.addr := by
    intro x
    rw [(removeJob_changed hRefines.addrKeys hJob rfl).jobs x]
    simp
  obtain ⟨mem, hDestr, hHolds⟩ := hRefines.holds.destr hJob hJobs
  have hFind : (s.tableLocaljobs.bucket job).find? (localjobCallbacks.same · job) = some job :=
    (find_eq_some_iff s.tableLocaljobs job job).mpr ⟨hJob, by simp⟩
  have hUnlink : unlinkFirst h.mem.jobs job.jobId
      (h.localjobs.list (bucketOf h.localjobs job.jobId)) =
      some (some (at'.job job.addr, at'.pointers ((s.tableLocaljobs.bucket job).eraseP
        (localjobCallbacks.same · job)))) := by
    rw [hRefines.list job, unlinkFirst_pointers job (hRefines.readable job), hFind]
    rfl
  refine ⟨{ h with
      mem := mem
      localjobs := { h.localjobs.setList (bucketOf h.localjobs job.jobId) (at'.pointers
        ((s.tableLocaljobs.bucket job).eraseP (localjobCallbacks.same · job))) with
          numElems := h.localjobs.numElems - 1 } }, ?_, hHolds, ?_, ?_, ?_⟩
  · have hId : (blockOf at' job).jobId = job.jobId := rfl
    simp only [State.removeJob, hBlock, Option.bind_eq_bind, Option.bind_some, hId, hUnlink,
      hDestr]
    rfl
  · exact hRefines.setList job _
  · have hAny : (s.tableLocaljobs.bucket job).any (localjobCallbacks.same · job) = true :=
      List.any_eq_true.mpr ⟨job, List.mem_of_find?_eq_some hFind, by simp⟩
    show h.localjobs.numElems - 1 = if _ then _ else _
    rw [hAny, if_pos rfl, hRefines.numElems]
  · exact hRefines.index

/-- **`tablahash_insert` of a new job**, in memory that holds it besides the stored ones.  A job
with the same id is destroyed. -/
theorem insertJob_refines {at₂ : Layout} {m : Blocks} (hRefines : Refines h s at')
    (hHolds : Holds m (job :: s.jobs) at₂) (hPtr : ∀ x ∈ s.jobs, at₂.job x.addr = at'.job x.addr)
    (hNew : ∀ x ∈ s.jobs, x.addr ≠ job.addr)
    (hIndex : ∀ e ∈ s.entries, at₂.job e.job = at'.job e.job) :
    ∃ h' at₃, State.insertJob { h with mem := m } (at₂.job job.addr) = some h' ∧
      at₃.job = at₂.job ∧ Refines h' (s.insertJob job) at₃ := by
  have hBlock := hHolds.block job List.mem_cons_self
  have hId : (blockOf at₂ job).jobId = job.jobId := rfl
  -- the table, read with the new layout
  have hPointers : ∀ l : List LocalJob, (∀ x ∈ l, x ∈ s.jobs) → at₂.pointers l = at'.pointers l :=
    fun l hl => List.map_congr_left fun x hx => hPtr x (hl x hx)
  have hElems : h.localjobs.elems = s.tableLocaljobs.elems.map at₂.pointers := by
    rw [hRefines.elems]
    exact List.map_congr_left fun l hl =>
      (hPointers l fun x hx => List.mem_flatten.mpr ⟨l, hl, hx⟩).symm
  have hBucket : at₂.pointers (s.tableLocaljobs.bucket job) =
      h.localjobs.list (bucketOf h.localjobs job.jobId) := by
    rw [hRefines.list job]
    exact hPointers _ fun x hx => mem_of_bucket hx
  have hReadable : ∀ x ∈ s.tableLocaljobs.bucket job,
      ∃ b, m.jobs.read (at₂.job x.addr) = some b ∧ b.jobId = x.jobId :=
    fun x hx => ⟨_, hHolds.block x (List.mem_cons_of_mem _ (mem_of_bucket hx)), rfl⟩
  have hFound := findInList_pointers job hReadable
  have hSet : ∀ f : List LocalJob → List LocalJob,
      (h.localjobs.setList (bucketOf h.localjobs job.jobId)
        (at₂.pointers (f (s.tableLocaljobs.bucket job)))).elems =
      (s.tableLocaljobs.elems.modify (s.tableLocaljobs.index job) f).map at₂.pointers := by
    intro f
    have hRaw := TableMap.setList_raw localjobFunctions_matches s.tableLocaljobs job f
    rw [← hRaw]
    show h.localjobs.elems.set _ _ = (s.tableLocaljobs.elems.set _ _).map at₂.pointers
    rw [hElems, List.map_set, bucketOf, hElems, List.length_map]
    rfl
  have hEntries : ∀ e, e ∈ h.ourjobs.toList ↔ ∃ e' ∈ s.entries, e = ⟨e'.fd, at₂.job e'.job⟩ := by
    intro e
    rw [hRefines.index]
    constructor
    · rintro ⟨e', he', rfl⟩
      exact ⟨e', he', by rw [hIndex e' he']⟩
    · rintro ⟨e', he', rfl⟩
      exact ⟨e', he', by rw [hIndex e' he']⟩
  cases hNode : TableMap.findInList localjobFunctions job (s.tableLocaljobs.bucket job) with
  | none =>
      obtain ⟨hAny, hNone⟩ := TableMap.findInList_none localjobFunctions_matches hNode
      have hAbsent := (find_eq_none_iff s.tableLocaljobs job).mp hNone
      have hInsert : insertBucket localjobCallbacks job (s.tableLocaljobs.bucket job) =
          job :: s.tableLocaljobs.bucket job := by
        rw [insertBucket, if_neg (by rw [hAny]; decide)]
      refine ⟨{ h with
          mem := m
          localjobs := { h.localjobs.setList (bucketOf h.localjobs job.jobId)
            (at₂.job job.addr :: at₂.pointers (s.tableLocaljobs.bucket job)) with
              numElems := h.localjobs.numElems + 1 } }, at₂, ?_, rfl, ?_, ?_, ?_, hEntries⟩
      · simp only [State.insertJob, hBlock, Option.bind_eq_bind, Option.bind_some, hId, ← hBucket,
          hFound, hNode]
        rfl
      · refine hHolds.congr fun x => ?_
        rw [ClientState.mem_jobs_insertJob, List.mem_cons]
        refine or_congr Iff.rfl ⟨And.left, fun hx => ⟨hx, ?_⟩⟩
        simpa using hAbsent x hx
      · have hAll := hSet (insertBucket localjobCallbacks job)
        rw [hInsert] at hAll
        exact hAll
      · show h.localjobs.numElems + 1 = if _ then _ else _
        rw [hAny, if_neg (by decide), hRefines.numElems]
  | some node =>
      obtain ⟨hAny, hGet, hReplace⟩ := TableMap.findInList_some localjobFunctions_matches hNode
      have hIsSome : ((s.tableLocaljobs.bucket job).find?
          (localjobCallbacks.same · job)).isSome = true := by
        rw [List.find?_isSome]
        exact List.any_eq_true.mp hAny
      obtain ⟨old, hOld⟩ := Option.isSome_iff_exists.mp hIsSome
      obtain ⟨hStored, hSame⟩ := (find_eq_some_iff s.tableLocaljobs job old).mp hOld
      have hOldId : old.jobId = job.jobId := by simpa using hSame
      have hOthers : ∀ x, x ∈ (s.insertJob job).jobs ↔ x ∈ job :: s.jobs ∧ x.addr ≠ old.addr := by
        intro x
        rw [ClientState.mem_jobs_insertJob, List.mem_cons]
        constructor
        · rintro (rfl | ⟨hx, hNe⟩)
          · exact ⟨.inl rfl, fun hEq => hNew old hStored hEq.symm⟩
          · refine ⟨.inr hx, fun hEq => hNe ?_⟩
            rw [hRefines.addrKeys x hx old hStored hEq, hOldId]
        · rintro ⟨rfl | hx, hNe⟩
          · exact .inl rfl
          · refine .inr ⟨hx, fun hEq => hNe ?_⟩
            rw [ClientState.eq_of_jobId hx hStored (hEq.trans hOldId.symm)]
      obtain ⟨mem, hDestr, hAfter⟩ := hHolds.destr (List.mem_cons_of_mem _ hStored) hOthers
      have hAt : (at₂.pointers (s.tableLocaljobs.bucket job))[node]? = some (at₂.job old.addr) := by
        rw [Layout.pointers, List.getElem?_map, hGet, hOld, Option.map_some]
      have hInsert : insertBucket localjobCallbacks job (s.tableLocaljobs.bucket job) =
          (s.tableLocaljobs.bucket job).set node job := by
        rw [insertBucket, if_pos hAny, hReplace]
      refine ⟨{ h with
          mem := mem
          localjobs := h.localjobs.setList (bucketOf h.localjobs job.jobId)
            ((at₂.pointers (s.tableLocaljobs.bucket job)).set node (at₂.job job.addr)) },
        at₂.drop old.addr, ?_, rfl, hAfter, ?_, ?_, hEntries⟩
      · simp only [State.insertJob, hBlock, Option.bind_eq_bind, Option.bind_some, hId, ← hBucket,
          hFound, hNode, hAt, hDestr]
        rfl
      · have hAll := hSet (insertBucket localjobCallbacks job)
        rw [hInsert, Layout.pointers, List.map_set] at hAll
        exact hAll
      · show h.localjobs.numElems = if _ then _ else _
        rw [hAny, if_pos rfl, hRefines.numElems]

end

end ResourceAgent.Ports.JobMemory
