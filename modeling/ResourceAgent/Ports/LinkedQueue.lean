import ResourceAgent.Ports.Reservation
import ResourceAgent.Verified.Linked
import ResourceAgent.Verified.Runs

/-!
# The linked FIFO refines a list

`Ports.Reservation` has the requests of a `request_queue` as a list.  Here they are nodes on a
heap: `first`, `last` and `next_req` are pointers, `make_request` allocates a node,
`destr_request` frees it, and the functions of `resource_queue.c` and the two loops of
`drain_queue` read and write them one after the other.  Following a pointer that is NULL, or
that leads to freed memory, has no result.

Any number of workers drain any number of queues.  One turn of a loop is one step, and the
second loop has two: up to `ready = ready->next_req`, and from there to `destr_request`.  The
mutex of a queue only rules out some orders of these steps; the results hold for all of them.

`Refines` relates a state to the lists it stands for, one for each queue and one for each stash.
The theorems at the end say what each operation does to them: `Refines.enqueueRequest`,
`Refines.stash`, `Refines.consume`, `Refines.destroy`.
-/

namespace ResourceAgent.Ports.LinkedQueue

open ResourceAgent.Verified.Linked
open ResourceAgent.Verified.Runs

/-! ## Memory -/

/-- `request`: a node and its link. -/
structure RequestNode (A : Type) where
  jobId : Int
  originSocket : Int
  amountRequested : Int
  nextReq : Option A
  deriving DecidableEq, Repr

/-- `request_queue`. -/
structure RawQueue (A : Type) where
  resourcesLeft : Int
  first : Option A
  last : Option A
  deriving DecidableEq, Repr

section

variable {A : Type} [DecidableEq A]

/-- The memory `malloc` has handed out for requests. -/
abbrev Heap (A : Type) := A → Option (RequestNode A)

/-- `make_request(jid, socketfd, amount)`, `malloc` giving `a`. -/
def makeRequest (heap : Heap A) (a : A) (jobId originSocket amount : Int) : Heap A :=
  Function.update heap a (some ⟨jobId, originSocket, amount, none⟩)

/-- `p->next_req = next;` -/
def setNext (heap : Heap A) (p next : Option A) : Option (Heap A) :=
  p.bind fun a => (heap a).map fun node =>
    Function.update heap a (some { node with nextReq := next })

/-- The first half of `enqueue_request`. -/
def linkLast (heap : Heap A) (q : RawQueue A) (request : A) : Option (Heap A × RawQueue A) :=
  match q.first with
  | none => some (heap, { q with first := some request, last := some request })
  | some _ => (setNext heap q.last (some request)).map fun heap =>
      (heap, { q with last := some request })

/-- `enqueue_request(queue, request)`. -/
def enqueueRequest (heap : Heap A) (q : RawQueue A) (request : A) :
    Option (Heap A × RawQueue A) :=
  (linkLast heap q request).bind fun (heap, q) =>
    (setNext heap (some request) none).map fun heap => (heap, q)

/-- `dequeue_request_locked(queue)`. -/
def dequeueRequestLocked (heap : Heap A) (q : RawQueue A) :
    Option (Heap A × RawQueue A × Option A) :=
  match q.first with
  | none => some (heap, q, none)
  | some req =>
      (heap req).bind fun node =>
        (setNext heap (some req) none).map fun heap =>
          (heap, { q with
            first := node.nextReq
            last := if node.nextReq = none then none else q.last }, some req)

/-- `q->first != NULL && q->resources_left >= q->first->amount_requested`. -/
def grantable (heap : Heap A) (q : RawQueue A) : Option Bool :=
  match q.first with
  | none => some false
  | some a => (heap a).map fun node => decide (q.resourcesLeft ≥ node.amountRequested)

/-- The body of the first loop of `drain_queue`: the heap, the queue and `ready`. -/
def dequeueAndStash (heap : Heap A) (q : RawQueue A) (ready : Option A) :
    Option (Heap A × RawQueue A × Option A) :=
  (dequeueRequestLocked heap q).bind fun (heap, q, req) =>
    (req.bind heap).bind fun node =>
      (setNext heap req ready).map fun heap =>
        (heap, { q with resourcesLeft := q.resourcesLeft - node.amountRequested }, req)

/-- `destr_request(req)`. -/
def destrRequest (heap : Heap A) (req : A) : Option (Heap A) :=
  (heap req).map fun _ => Function.update heap req none

end

/-! ## Workers -/

/-- Where a worker is in `drain_queue`. -/
inductive Drain (Q A : Type) where
  | idle
  /-- at the test of the first loop -/
  | locked (q : Q) (ready : Option A)
  /-- at the test of the second loop -/
  | outside (ready : Option A)
  /-- in its body, with `req` to be recorded, answered and freed -/
  | serving (req : A) (ready : Option A)
  deriving DecidableEq, Repr

/-- `ready`. -/
def Drain.ready {Q A : Type} : Drain Q A → Option A
  | .idle => none
  | .locked _ ready => ready
  | .outside ready => ready
  | .serving _ ready => ready

/-- `req` in the second loop. -/
def Drain.req {Q A : Type} : Drain Q A → Option A
  | .serving req _ => some req
  | _ => none

/-- The queues and the workers.  No step reads the last two fields: they record, for the last
drain of a worker, which nodes it dequeued and which of them its second loop has taken. -/
structure State (Q W A : Type) where
  heap : Heap A
  queue : Q → RawQueue A
  worker : W → Drain Q A
  dequeued : W → List A
  consumed : W → List A

inductive Event (Q W A : Type) where
  | makeRequest (a : A) (jobId originSocket amount : Int)
  | enqueueRequest (q : Q) (a : A)
  | drainQueue (w : W) (q : Q)
  /-- the next step of a worker -/
  | go (w : W)

section

variable {Q W A : Type}

/-- Empty queues, all workers idle, and anything on the heap. -/
def State.init (heap : Heap A) (capacity : Q → Int) : State Q W A where
  heap := heap
  queue q := ⟨capacity q, none, none⟩
  worker _ := .idle
  dequeued _ := []
  consumed _ := []

section

variable [DecidableEq Q] [DecidableEq W] [DecidableEq A]

/-- The next step of a worker. -/
def goStep (s : State Q W A) (w : W) : Option (State Q W A) :=
  match s.worker w with
  | .idle => some s
  | .locked q ready =>
      (grantable s.heap (s.queue q)).bind fun
        | true =>
            (dequeueAndStash s.heap (s.queue q) ready).map fun (heap, queue, ready) =>
              { s with
                heap := heap
                queue := Function.update s.queue q queue
                worker := Function.update s.worker w (.locked q ready)
                dequeued := Function.update s.dequeued w (s.dequeued w ++ ready.toList) }
        | false => some { s with worker := Function.update s.worker w (.outside ready) }
  | .outside none => some { s with worker := Function.update s.worker w .idle }
  | .outside (some req) =>
      (s.heap req).map fun node =>
        { s with
          worker := Function.update s.worker w (.serving req node.nextReq)
          consumed := Function.update s.consumed w (s.consumed w ++ [req]) }
  | .serving req ready =>
      (destrRequest s.heap req).map fun heap =>
        { s with
          heap := heap
          worker := Function.update s.worker w (.outside ready) }

def step (s : State Q W A) : Event Q W A → Option (State Q W A)
  | .makeRequest a jobId originSocket amount =>
      some { s with heap := makeRequest s.heap a jobId originSocket amount }
  | .enqueueRequest q a =>
      (enqueueRequest s.heap (s.queue q) a).map fun (heap, queue) =>
        { s with heap := heap, queue := Function.update s.queue q queue }
  | .drainQueue w q =>
      some { s with
        worker := Function.update s.worker w (.locked q none)
        dequeued := Function.update s.dequeued w []
        consumed := Function.update s.consumed w [] }
  | .go w => goStep s w

end

/-- A node that no pointer of the queues and the workers leads to. -/
structure InNoList (s : State Q W A) (a : A) : Prop where
  allocated : s.heap a ≠ none
  queue : ∀ q, ¬ Reaches RequestNode.nextReq s.heap (s.queue q).first a
  stash : ∀ w, ¬ Reaches RequestNode.nextReq s.heap (s.worker w).ready a
  /-- nor is it about to be freed -/
  req : ∀ w, (s.worker w).req ≠ some a

/-- What can happen next: `malloc` hands out memory that is not in use, a node is enqueued that
is in no list, and a worker enters `drain_queue` when it is not inside. -/
def Enabled (s : State Q W A) : Event Q W A → Prop
  | .makeRequest a _ _ _ => s.heap a = none
  | .enqueueRequest _ a => InNoList s a
  | .drainQueue w _ => s.worker w = .idle
  | .go _ => True

/-! ## The lists -/

/-- Whose list it is. -/
inductive Owner (Q W : Type) where
  | queue (q : Q)
  | stash (w : W)
  deriving DecidableEq, Repr

/-- One list for each queue and one for the stash of each worker. -/
abbrev Lists (Q W A : Type) := Owner Q W → List A

/-- What happens to the lists. -/
inductive Move (Q W A : Type) where
  | stay
  | append (q : Q) (a : A)
  /-- the head of the queue becomes the head of the stash -/
  | stash (q : Q) (w : W)
  /-- the head of the stash is taken out -/
  | consume (w : W)

def move [DecidableEq Q] [DecidableEq W] (l : Lists Q W A) : Move Q W A → Lists Q W A
  | .stay => l
  | .append q a => Function.update l (.queue q) (l (.queue q) ++ [a])
  | .stash q w =>
      Function.update (Function.update l (.queue q) (l (.queue q)).tail) (.stash w)
        ((l (.queue q)).head?.toList ++ l (.stash w))
  | .consume w => Function.update l (.stash w) (l (.stash w)).tail

/-- What a step of the program is to the lists. -/
def moveOf (s : State Q W A) : Event Q W A → Move Q W A
  | .enqueueRequest q a => .append q a
  | .go w =>
      match s.worker w with
      | .locked q _ => if grantable s.heap (s.queue q) = some true then .stash q w else .stay
      | .outside (some _) => .consume w
      | _ => .stay
  | _ => .stay

/-- Where the lists start. -/
def root (queue : Q → RawQueue A) (worker : W → Drain Q A) : Owner Q W → Option A
  | .queue q => (queue q).first
  | .stash w => (worker w).ready

/-- The nodes the second loops work on are in no list, and each is in the hands of one
worker. -/
structure Held (heap : Heap A) (worker : W → Drain Q A) (l : Lists Q W A) : Prop where
  allocated : ∀ w a, (worker w).req = some a → heap a ≠ none
  out : ∀ w a, (worker w).req = some a → ∀ o, a ∉ l o
  one : ∀ w w' a, (worker w).req = some a → (worker w').req = some a → w = w'

/-- The stash is what the drain dequeued, last first, without what was consumed; the first loop
consumes nothing. -/
structure History (d : Drain Q A) (dequeued consumed stash : List A) : Prop where
  split : dequeued.reverse = consumed ++ stash
  locked : ∀ q ready, d = .locked q ready → consumed = []

/-- The state stands for these lists. -/
structure Refines (s : State Q W A) (l : Lists Q W A) : Prop where
  threaded : Threaded RequestNode.nextReq s.heap (root s.queue s.worker) l
  last : ∀ q, (s.queue q).last = (l (.queue q)).getLast?
  held : Held s.heap s.worker l
  history : ∀ w, History (s.worker w) (s.dequeued w) (s.consumed w) (l (.stash w))

theorem root_queue [DecidableEq Q] [DecidableEq W] (queue : Q → RawQueue A)
    (worker : W → Drain Q A) (q : Q) (x : RawQueue A) :
    root (Function.update queue q x) worker =
      Function.update (root queue worker) (.queue q) x.first := by
  funext o
  cases o with
  | queue q' => by_cases hq : q' = q <;> simp [root, hq]
  | stash w => simp [root]

theorem root_worker [DecidableEq Q] [DecidableEq W] (queue : Q → RawQueue A)
    (worker : W → Drain Q A) (w : W) (d : Drain Q A) :
    root queue (Function.update worker w d) =
      Function.update (root queue worker) (.stash w) d.ready := by
  funext o
  cases o with
  | queue q => simp [root]
  | stash w' => by_cases hw : w' = w <;> simp [root, hw]

section

variable {s : State Q W A} {l : Lists Q W A}

theorem Refines.not_mem_of_free (h : Refines s l) {a : A} (hFree : s.heap a = none)
    (o : Owner Q W) : a ∉ l o := by
  intro hMem
  obtain ⟨n, hn⟩ := (h.threaded.chain o).allocated hMem
  rw [hFree] at hn
  cases hn

theorem Refines.not_mem (h : Refines s l) {a : A} (hNone : InNoList s a) (o : Owner Q W) :
    a ∉ l o := by
  intro hMem
  have hReach := (h.threaded.chain o).reaches_iff.mpr hMem
  cases o with
  | queue q => exact hNone.queue q hReach
  | stash w => exact hNone.stash w hReach

end

end

/-! ## What the functions do to a list -/

section

variable {A : Type} [DecidableEq A] {heap : Heap A} {a : A} {node : RequestNode A}

/-- What a node holds besides its link. -/
def contents (heap : Heap A) (a : A) : Option (Int × Int × Int) :=
  (heap a).map fun node => (node.jobId, node.originSocket, node.amountRequested)

omit [DecidableEq A] in
theorem contents_eq_none : contents heap a = none ↔ heap a = none := Option.map_eq_none_iff

theorem setNext_some (h : heap a = some node) (next : Option A) :
    setNext heap (some a) next =
      some (Function.update heap a (some { node with nextReq := next })) := by
  rw [setNext, Option.bind_some, h, Option.map_some]

theorem contents_setNext (h : heap a = some node) (next : Option A) :
    contents (Function.update heap a (some { node with nextReq := next })) = contents heap := by
  funext x
  by_cases hx : x = a
  · subst hx
    simp only [contents, Function.update_self, h, Option.map_some]
  · simp only [contents, Function.update_of_ne hx]

/-- `enqueue_request` appends. -/
theorem enqueueRequest_chain {q : RawQueue A} {l : List A}
    (hChain : Chain RequestNode.nextReq heap q.first l) (hLast : q.last = l.getLast?)
    (hRead : heap a = some node) (hOut : a ∉ l) :
    ∃ heap' first', enqueueRequest heap q a = some (heap', ⟨q.resourcesLeft, first', some a⟩) ∧
      Chain RequestNode.nextReq heap' first' (l ++ [a]) ∧
      (∀ x, x ∉ l → x ≠ a → heap' x = heap x) ∧ contents heap' = contents heap := by
  rcases List.eq_nil_or_concat l with rfl | ⟨front, b, rfl⟩
  · have hFirst : q.first = none := hChain
    refine ⟨_, some a, ?_, ?_, ?_, contents_setNext hRead none⟩
    · simp only [enqueueRequest, linkLast, hFirst, Option.bind_some, setNext_some hRead,
        Option.map_some]
    · exact ⟨rfl, _, Function.update_self .., rfl⟩
    · exact fun x _ hx => Function.update_of_ne hx _ _
  · rw [List.concat_eq_append] at hChain hLast hOut ⊢
    obtain ⟨last, hReadLast⟩ := hChain.allocated (List.mem_append_right front List.mem_cons_self)
    have hNodup := hChain.nodup
    have hFirst : ∃ p, q.first = some p := by
      rw [hChain.head]
      cases front with
      | nil => exact ⟨_, rfl⟩
      | cons c front => exact ⟨_, rfl⟩
    obtain ⟨p, hFirst⟩ := hFirst
    rw [List.getLast?_concat] at hLast
    have hNe : a ≠ b := by
      rintro rfl
      exact hOut (List.mem_append_right front List.mem_cons_self)
    -- the link of the old last node is set first
    generalize hLinked : Function.update heap b (some { last with nextReq := some a }) = linked
    have hRead' : linked a = some node := by
      rw [← hLinked, Function.update_of_ne hNe, hRead]
    have hSame : ∀ x, x ≠ b → x ≠ a →
        Function.update linked a (some { node with nextReq := none }) x = heap x := by
      intro x hb ha
      rw [Function.update_of_ne ha, ← hLinked, Function.update_of_ne hb]
    refine ⟨Function.update linked a (some { node with nextReq := none }), some p, ?_, ?_, ?_, ?_⟩
    · simp only [enqueueRequest, linkLast, hFirst, hLast, setNext_some hReadLast, hLinked,
        Option.map_some, Option.bind_some, setNext_some hRead']
    · rw [← hFirst]
      have hLastNow : Function.update linked a (some { node with nextReq := none }) b =
          some { last with nextReq := some a } := by
        rw [Function.update_of_ne hNe.symm, ← hLinked, Function.update_self]
      refine hChain.snoc hLastNow rfl (Function.update_self ..) rfl ?_
      · intro x hx
        refine hSame x ?_ ?_
        · rintro rfl
          exact (List.nodup_append.mp hNodup).2.2 x hx x List.mem_cons_self rfl
        · rintro rfl
          exact hOut (List.mem_append_left _ hx)
    · intro x hx ha
      refine hSame x ?_ ha
      rintro rfl
      exact hx (List.mem_append_right front List.mem_cons_self)
    · rw [contents_setNext hRead', ← hLinked, contents_setNext hReadLast]

/-- The first loop takes the head of the queue, and puts it at the head of the stash. -/
theorem dequeueAndStash_chain {q : RawQueue A} {rest : List A}
    (hChain : Chain RequestNode.nextReq heap q.first (a :: rest))
    (hLast : q.last = (a :: rest).getLast?) (hRead : heap a = some node) (ready : Option A) :
    dequeueAndStash heap q ready =
      some (Function.update heap a (some { node with nextReq := ready }),
        ⟨q.resourcesLeft - node.amountRequested, node.nextReq, rest.getLast?⟩, some a) := by
  obtain ⟨hFirst, node', hRead', hRest⟩ := hChain
  rw [hRead] at hRead'
  cases hRead'
  have hTail : (if node.nextReq = none then none else q.last) = rest.getLast? := by
    rw [hRest.head, hLast]
    cases rest with
    | nil => rfl
    | cons b rest => rfl
  have hTaken : Function.update heap a (some { node with nextReq := none }) a =
      some { node with nextReq := none } := Function.update_self ..
  simp only [dequeueAndStash, dequeueRequestLocked, hFirst, hRead, Option.bind_some,
    setNext_some hRead, Option.map_some, hTaken, setNext_some hTaken, hTail,
    Function.update_idem]

omit [DecidableEq A] in
theorem grantable_chain {q : RawQueue A} {rest : List A}
    (hChain : Chain RequestNode.nextReq heap q.first (a :: rest)) (hRead : heap a = some node) :
    grantable heap q = some (decide (q.resourcesLeft ≥ node.amountRequested)) := by
  rw [grantable, hChain.1]
  simp only [hRead, Option.map_some]

end

/-! ## Every step is a step on the lists -/

section

variable {Q W A : Type} {s : State Q W A} {l : Lists Q W A}

theorem refines_init (heap : Heap A) (capacity : Q → Int) :
    Refines (State.init heap capacity : State Q W A) fun _ => [] where
  threaded := by
    refine ⟨fun o => ?_, fun _ _ _ _ hMem => absurd hMem List.not_mem_nil⟩
    cases o <;> rfl
  last _ := rfl
  held := by
    refine ⟨fun _ _ hReq => ?_, fun _ _ _ _ => List.not_mem_nil, fun _ _ _ hReq _ => ?_⟩
    · cases hReq
    · cases hReq
  history _ := ⟨rfl, fun _ _ _ => rfl⟩

/-- A change to a node that nobody has. -/
theorem Refines.setHeap [DecidableEq A] (h : Refines s l) {a : A} (hOut : ∀ o, a ∉ l o)
    (hReq : ∀ w, (s.worker w).req ≠ some a) (node : Option (RequestNode A)) :
    Refines { s with heap := Function.update s.heap a node } l where
  threaded := by
    refine h.threaded.frame fun o x hx => Function.update_of_ne ?_ _ _
    rintro rfl
    exact hOut o hx
  last := h.last
  held := by
    refine ⟨fun w x hx => ?_, h.held.out, h.held.one⟩
    have hNe : x ≠ a := by
      rintro rfl
      exact hReq w hx
    show Function.update s.heap a node x ≠ none
    rw [Function.update_of_ne hNe]
    exact h.held.allocated w x hx
  history := h.history

/-- `make_request` fills a node that is in no list. -/
theorem Refines.makeRequest [DecidableEq A] (h : Refines s l) {a : A} (hFree : s.heap a = none)
    (jobId originSocket amount : Int) :
    Refines { s with heap := makeRequest s.heap a jobId originSocket amount } l :=
  h.setHeap (h.not_mem_of_free hFree) (fun w hReq => h.held.allocated w a hReq hFree) _

variable [DecidableEq W]

/-- A worker that lets go of its node, or has none. -/
theorem Held.drop {heap : Heap A} {worker : W → Drain Q A} (h : Held heap worker l) {w : W}
    {d : Drain Q A} (hReq : d.req = none) : Held heap (Function.update worker w d) l := by
  have hOld : ∀ w' a, (Function.update worker w d w').req = some a →
      (worker w').req = some a := by
    intro w' a ha
    by_cases hw : w' = w
    · subst hw
      rw [Function.update_self, hReq] at ha
      cases ha
    · rw [Function.update_of_ne hw] at ha
      exact ha
  exact ⟨fun w' a ha => h.allocated w' a (hOld w' a ha), fun w' a ha => h.out w' a (hOld w' a ha),
    fun w' w'' a ha ha' => h.one w' w'' a (hOld w' a ha) (hOld w'' a ha')⟩

omit [DecidableEq W] in
theorem Held.contents {heap heap' : Heap A} {worker : W → Drain Q A} (h : Held heap worker l)
    (hContents : contents heap' = contents heap) : Held heap' worker l := by
  refine ⟨fun w a ha hNone => h.allocated w a ha ?_, h.out, h.one⟩
  rw [← contents_eq_none, ← hContents, contents_eq_none]
  exact hNone

omit [DecidableEq W] in
/-- Lists of which every node was in a list before. -/
theorem Held.lists {heap : Heap A} {worker : W → Drain Q A} (h : Held heap worker l)
    {l' : Lists Q W A} (hOld : ∀ o, ∀ a ∈ l' o, ∃ o', a ∈ l o') : Held heap worker l' := by
  refine ⟨h.allocated, fun w a ha o hMem => ?_, h.one⟩
  obtain ⟨o', hMem'⟩ := hOld o a hMem
  exact h.out w a ha o' hMem'

/-- A worker takes a node out of a list. -/
theorem Held.take {heap : Heap A} {worker : W → Drain Q A} (h : Held heap worker l) {w : W}
    {d : Drain Q A} {a : A} {o : Owner Q W} (hReq : d.req = some a) (hMem : a ∈ l o)
    (hAllocated : heap a ≠ none) {l' : Lists Q W A} (hOld : ∀ o, ∀ x ∈ l' o, x ∈ l o)
    (hOut : ∀ o, a ∉ l' o) : Held heap (Function.update worker w d) l' := by
  have hCases : ∀ w' x, (Function.update worker w d w').req = some x →
      w' = w ∧ x = a ∨ w' ≠ w ∧ (worker w').req = some x := by
    intro w' x hx
    by_cases hw : w' = w
    · subst hw
      rw [Function.update_self, hReq] at hx
      exact .inl ⟨rfl, (Option.some.inj hx).symm⟩
    · rw [Function.update_of_ne hw] at hx
      exact .inr ⟨hw, hx⟩
  -- a node of a list is not yet in anybody's hands
  have hFresh : ∀ w', (worker w').req ≠ some a := fun w' hw' => h.out w' a hw' o hMem
  refine ⟨fun w' x hx => ?_, fun w' x hx o' hx' => ?_, fun w₁ w₂ x h₁ h₂ => ?_⟩
  · obtain ⟨-, rfl⟩ | ⟨-, hx⟩ := hCases w' x hx
    · exact hAllocated
    · exact h.allocated w' x hx
  · obtain ⟨-, rfl⟩ | ⟨-, hx⟩ := hCases w' x hx
    · exact hOut o' hx'
    · exact h.out w' x hx o' (hOld o' x hx')
  · obtain ⟨rfl, rfl⟩ | ⟨-, h₁⟩ := hCases w₁ x h₁
    · obtain ⟨rfl, -⟩ | ⟨-, h₂⟩ := hCases w₂ x h₂
      · rfl
      · exact absurd h₂ (hFresh w₂)
    · obtain ⟨-, rfl⟩ | ⟨-, h₂⟩ := hCases w₂ x h₂
      · exact absurd h₁ (hFresh w₁)
      · exact h.one w₁ w₂ x h₁ h₂

/-- A step of one worker, with what it does to the queues and to its stash. -/
theorem Refines.update (h : Refines s l) {w : W} {heap' : Heap A} {queue' : Q → RawQueue A}
    {d : Drain Q A} {deq con : List A} {l' : Lists Q W A}
    (hThreaded : Threaded RequestNode.nextReq heap' (root queue' (Function.update s.worker w d)) l')
    (hLast : ∀ q, (queue' q).last = (l' (.queue q)).getLast?)
    (hHeld : Held heap' (Function.update s.worker w d) l')
    (hHistory : History d deq con (l' (.stash w)))
    (hOthers : ∀ w', w' ≠ w → l' (.stash w') = l (.stash w')) :
    Refines ⟨heap', queue', Function.update s.worker w d, Function.update s.dequeued w deq,
      Function.update s.consumed w con⟩ l' where
  threaded := hThreaded
  last := hLast
  held := hHeld
  history w' := by
    by_cases hw : w' = w
    · subst hw
      simp only [Function.update_self]
      exact hHistory
    · simp only [Function.update_of_ne hw, hOthers w' hw]
      exact h.history w'

variable [DecidableEq Q]

/-- A worker moves on without touching a list. -/
theorem Refines.setWorker (h : Refines s l) {w : W} {d : Drain Q A} {deq con : List A}
    (hReady : d.ready = (s.worker w).ready) (hReq : d.req = none)
    (hHistory : History d deq con (l (.stash w))) :
    Refines { s with
      worker := Function.update s.worker w d
      dequeued := Function.update s.dequeued w deq
      consumed := Function.update s.consumed w con } l := by
  refine h.update ?_ h.last (h.held.drop hReq) hHistory fun _ _ => rfl
  have hRoot : root s.queue (Function.update s.worker w d) = root s.queue s.worker := by
    rw [root_worker, hReady]
    exact Function.update_eq_self (Owner.stash w) (root s.queue s.worker)
  rw [hRoot]
  exact h.threaded

/-- A worker enters `drain_queue` with an empty stash. -/
theorem Refines.drainQueue (h : Refines s l) {w : W} (hIdle : s.worker w = .idle) (q : Q) :
    Refines { s with
      worker := Function.update s.worker w (.locked q none)
      dequeued := Function.update s.dequeued w []
      consumed := Function.update s.consumed w [] } l := by
  have hEmpty : l (.stash w) = [] := by
    have hChain := h.threaded.chain (.stash w)
    rw [root, hIdle] at hChain
    exact hChain.unique rfl
  refine h.setWorker ?_ rfl ?_
  · rw [hIdle]
    rfl
  · rw [hEmpty]
    exact ⟨rfl, fun _ _ _ => rfl⟩

/-- The end of the first loop, and the end of the second. -/
theorem Refines.leaves (h : Refines s l) {w : W} {d : Drain Q A}
    (hReady : d.ready = (s.worker w).ready) (hReq : d.req = none)
    (hLocked : ∀ q ready, d ≠ .locked q ready) :
    Refines { s with worker := Function.update s.worker w d } l := by
  have hHistory : History d (s.dequeued w) (s.consumed w) (l (.stash w)) :=
    ⟨(h.history w).split, fun q ready hd => absurd hd (hLocked q ready)⟩
  have hSame := h.setWorker hReady hReq hHistory
  rw [Function.update_eq_self, Function.update_eq_self] at hSame
  exact hSame

/-- **The second loop** takes the head of the stash into its hands. -/
theorem Refines.consume (h : Refines s l) {w : W} {a : A} {rest : List A}
    {node : RequestNode A} (hList : l (.stash w) = a :: rest) (hRead : s.heap a = some node) :
    Refines { s with
      worker := Function.update s.worker w (.serving a node.nextReq)
      consumed := Function.update s.consumed w (s.consumed w ++ [a]) }
      (move l (.consume w)) := by
  have hMove : move l (.consume w) = Function.update l (.stash w) rest := by
    rw [move, hList, List.tail_cons]
  have hThreaded := h.threaded.tail hList hRead fun _ _ => rfl
  have hNodup := (h.threaded.chain (.stash w)).nodup
  rw [hList] at hNodup
  have hOut : ∀ o, a ∉ move l (.consume w) o := by
    intro o hx
    rw [hMove] at hx
    obtain ⟨-, hx⟩ | ⟨ho, hx⟩ := mem_update hx
    · exact (List.nodup_cons.mp hNodup).1 hx
    · exact h.threaded.apart _ o (Ne.symm ho) a (hList ▸ List.mem_cons_self) hx
  have hOld : ∀ o, ∀ x ∈ move l (.consume w) o, x ∈ l o := by
    intro o x hx
    rw [hMove] at hx
    obtain ⟨rfl, hRest⟩ | ⟨-, hRest⟩ := mem_update hx
    · exact hList ▸ List.mem_cons_of_mem a hRest
    · exact hRest
  have hStep : Refines ⟨s.heap, s.queue, Function.update s.worker w (.serving a node.nextReq),
      Function.update s.dequeued w (s.dequeued w),
      Function.update s.consumed w (s.consumed w ++ [a])⟩ (move l (.consume w)) := by
    refine h.update ?_ ?_ ?_ ?_ ?_
    · rw [hMove, root_worker]
      exact hThreaded
    · intro q
      rw [hMove, Function.update_of_ne (show Owner.queue q ≠ .stash w by simp)]
      exact h.last q
    · refine h.held.take rfl (hList ▸ List.mem_cons_self) ?_ hOld hOut
      rw [hRead]
      exact Option.some_ne_none node
    · rw [hMove, Function.update_self]
      refine ⟨?_, fun q ready hd => by cases hd⟩
      rw [(h.history w).split, hList, List.append_assoc, List.singleton_append]
    · intro w' hw
      rw [hMove, Function.update_of_ne (by simp [hw])]
  rw [Function.update_eq_self] at hStep
  exact hStep

variable [DecidableEq A]

/-- **`enqueue_request` of a node in no list** appends it to the list of the queue. -/
theorem Refines.enqueueRequest (h : Refines s l) {a : A} (hNone : InNoList s a) (q : Q) :
    ∃ heap' queue', enqueueRequest s.heap (s.queue q) a = some (heap', queue') ∧
      queue'.resourcesLeft = (s.queue q).resourcesLeft ∧ contents heap' = contents s.heap ∧
      Refines { s with heap := heap', queue := Function.update s.queue q queue' }
        (move l (.append q a)) := by
  obtain ⟨node, hRead⟩ := Option.ne_none_iff_exists'.mp hNone.allocated
  have hOut := h.not_mem hNone
  obtain ⟨heap', first', hEnqueue, hChain, hSame, hContents⟩ :=
    enqueueRequest_chain (h.threaded.chain (.queue q)) (h.last q) hRead (hOut (.queue q))
  refine ⟨heap', _, hEnqueue, rfl, hContents, ?_, ?_, ?_, ?_⟩
  · show Threaded _ _ (root (Function.update s.queue q _) s.worker) _
    rw [root_queue]
    refine h.threaded.set hChain (fun o ho x hx => hSame x ?_ ?_) fun x hx o ho => ?_
    · exact fun hMem => h.threaded.apart o _ ho x hx hMem
    · rintro rfl
      exact hOut o hx
    · rcases List.mem_append.mp hx with hx | hx
      · exact h.threaded.apart _ o (Ne.symm ho) x hx
      · rw [List.mem_singleton.mp hx]
        exact hOut o
  · intro q'
    by_cases hq : q' = q
    · subst hq
      simp [move]
    · simp [move, hq, h.last]
  · refine ⟨(h.held.contents hContents).allocated, fun w x hx o hMem => ?_, h.held.one⟩
    obtain ⟨-, hNow⟩ | ⟨-, hNow⟩ := mem_update hMem
    · rcases List.mem_append.mp hNow with hOld | hNew
      · exact h.held.out w x hx _ hOld
      · rw [List.mem_singleton.mp hNew] at hx
        exact hNone.req w hx
    · exact h.held.out w x hx o hNow
  · intro w
    simpa [move] using h.history w

/-- **The first loop** takes the head of the queue to the head of the stash. -/
theorem Refines.stash (h : Refines s l) {w : W} {q : Q} {ready : Option A}
    (hPc : s.worker w = .locked q ready) {a : A} {rest : List A} {node : RequestNode A}
    (hList : l (.queue q) = a :: rest) (hRead : s.heap a = some node) :
    Refines { s with
      heap := Function.update s.heap a (some { node with nextReq := ready })
      queue := Function.update s.queue q
        ⟨(s.queue q).resourcesLeft - node.amountRequested, node.nextReq, rest.getLast?⟩
      worker := Function.update s.worker w (.locked q (some a))
      dequeued := Function.update s.dequeued w (s.dequeued w ++ [a]) }
      (move l (.stash q w)) := by
  have hMove : move l (.stash q w) =
      Function.update (Function.update l (.queue q) rest) (.stash w) (a :: l (.stash w)) := by
    simp only [move, hList, List.tail_cons, List.head?_cons, Option.toList_some,
      List.cons_append, List.nil_append]
  have hReady : ready = root s.queue s.worker (.stash w) := by
    rw [root, hPc]
    rfl
  have hContents := contents_setNext hRead ready
  have hNow := Function.update_self a (some { node with nextReq := ready }) s.heap
  have hSame : ∀ x, x ≠ a →
      Function.update s.heap a (some { node with nextReq := ready }) x = s.heap x :=
    fun x hx => Function.update_of_ne hx _ _
  generalize Function.update s.heap a (some { node with nextReq := ready }) = heap'
    at hContents hNow hSame ⊢
  have hOld : ∀ o, ∀ x ∈ move l (.stash q w) o, ∃ o', x ∈ l o' := by
    intro o x hx
    rw [hMove] at hx
    obtain ⟨-, hx⟩ | ⟨-, hx⟩ := mem_update hx
    · rcases List.mem_cons.mp hx with rfl | hx
      · exact ⟨.queue q, hList ▸ List.mem_cons_self⟩
      · exact ⟨.stash w, hx⟩
    · obtain ⟨-, hx⟩ | ⟨-, hx⟩ := mem_update hx
      · exact ⟨.queue q, hList ▸ List.mem_cons_of_mem a hx⟩
      · exact ⟨o, hx⟩
  have hConsumed := (h.history w).locked q ready hPc
  have hStep : Refines ⟨heap', Function.update s.queue q
        ⟨(s.queue q).resourcesLeft - node.amountRequested, node.nextReq, rest.getLast?⟩,
      Function.update s.worker w (.locked q (some a)),
      Function.update s.dequeued w (s.dequeued w ++ [a]),
      Function.update s.consumed w (s.consumed w)⟩ (move l (.stash q w)) := by
    refine h.update ?_ ?_ (((h.held.drop rfl).contents hContents).lists hOld) ?_ ?_
    · rw [hMove, root_worker, root_queue]
      exact h.threaded.moveHead (by simp) hList hRead hNow hReady hSame
    · intro q'
      rw [hMove, Function.update_of_ne (show Owner.queue q' ≠ .stash w by simp)]
      by_cases hq : q' = q
      · subst hq
        simp only [Function.update_self]
      · rw [Function.update_of_ne hq,
          Function.update_of_ne (show Owner.queue q' ≠ .queue q by simp [hq])]
        exact h.last q'
    · rw [hMove, Function.update_self]
      refine ⟨?_, fun _ _ _ => hConsumed⟩
      have hSplit := (h.history w).split
      rw [hConsumed, List.nil_append] at hSplit ⊢
      rw [List.reverse_append, hSplit]
      rfl
    · intro w' hw
      rw [hMove, Function.update_of_ne (by simp [hw]), Function.update_of_ne (by simp)]
  rw [Function.update_eq_self] at hStep
  exact hStep

/-- `destr_request` frees a node that is in no list. -/
theorem Refines.destroy (h : Refines s l) {w : W} {req : A} {ready : Option A}
    (hPc : s.worker w = .serving req ready) :
    ∃ heap, destrRequest s.heap req = some heap ∧
      Refines { s with
        heap := heap
        worker := Function.update s.worker w (.outside ready) } l := by
  have hReq : (s.worker w).req = some req := by
    rw [hPc]
    rfl
  obtain ⟨node, hRead⟩ := Option.ne_none_iff_exists'.mp (h.held.allocated w req hReq)
  refine ⟨Function.update s.heap req none, by rw [destrRequest, hRead, Option.map_some], ?_⟩
  have hReady : (Drain.outside ready : Drain Q A).ready = (s.worker w).ready := by
    rw [hPc]
    rfl
  have hFree := h.leaves hReady rfl fun _ _ hd => by cases hd
  refine hFree.setHeap (h.held.out w req hReq) (fun w' hw' => ?_) none
  by_cases hw : w' = w
  · subst hw
    simp only [Function.update_self] at hw'
    cases hw'
  · simp only [Function.update_of_ne hw] at hw'
    exact hw (h.held.one w' w req hw' hReq)

end

end ResourceAgent.Ports.LinkedQueue
