import ResourceAgent.Ports.LinkedQueue

/-!
# Runs of the linked FIFO

`step_refines` says that every step of the heap program has a result, and that the result stands
for the lists after `move`.  Run by itself, a worker gets to the end of `drain_queue`:
`locked_loop` follows the first loop, which computes what `drainLocked` computes on the lists,
and `outside_loop` the second.

`fifo_refines_list` is the result for whole runs.
-/

namespace ResourceAgent.Ports.FifoRefinement

open ResourceAgent.Ports.LinkedQueue
open ResourceAgent.Ports.Records (Request RequestQueue)
open ResourceAgent.Ports.Reservation (drainLocked)
open ResourceAgent.Verified.Linked
open ResourceAgent.Verified.Runs

section

variable {Q W A : Type} [DecidableEq Q] [DecidableEq W] [DecidableEq A]
  {s : State Q W A} {l : Lists Q W A}

/-! ## Single steps -/

omit [DecidableEq Q] [DecidableEq W] [DecidableEq A] in
/-- The first loop stops at an empty queue, and at a head that asks for too much. -/
theorem grantable_stops (h : Refines s l) {q : Q}
    (hStop : ∀ a ∈ (l (.queue q)).head?, ∀ node ∈ s.heap a,
      ¬ (s.queue q).resourcesLeft ≥ node.amountRequested) :
    grantable s.heap (s.queue q) = some false := by
  have hChain := h.threaded.chain (.queue q)
  cases hList : l (.queue q) with
  | nil =>
      rw [hList] at hChain
      rw [grantable, show (s.queue q).first = none from hChain]
  | cons a rest =>
      rw [hList] at hChain hStop
      obtain ⟨node, hRead⟩ := hChain.allocated List.mem_cons_self
      rw [grantable_chain hChain hRead, decide_eq_false (hStop a rfl node hRead)]

/-- The first loop grants a head that is covered. -/
theorem goStep_grants (h : Refines s l) {w : W} {q : Q} {ready : Option A}
    (hPc : s.worker w = .locked q ready) {a : A} {rest : List A} {node : RequestNode A}
    (hList : l (.queue q) = a :: rest) (hRead : s.heap a = some node)
    (hEnough : (s.queue q).resourcesLeft ≥ node.amountRequested) :
    grantable s.heap (s.queue q) = some true ∧
      ∃ s', goStep s w = some s' ∧ Refines s' (move l (.stash q w)) ∧
        s'.worker w = .locked q (some a) ∧
        (s'.queue q).resourcesLeft = (s.queue q).resourcesLeft - node.amountRequested ∧
        contents s'.heap = contents s.heap := by
  have hChain : Chain RequestNode.nextReq s.heap (s.queue q).first (a :: rest) :=
    hList ▸ h.threaded.chain (.queue q)
  have hLast : (s.queue q).last = (a :: rest).getLast? := hList ▸ h.last q
  have hGrant : grantable s.heap (s.queue q) = some true := by
    rw [grantable_chain hChain hRead, decide_eq_true hEnough]
  refine ⟨hGrant, _, ?_, h.stash hPc hList hRead, Function.update_self .., ?_, ?_⟩
  · simp only [goStep, hPc, hGrant, Option.bind_some,
      dequeueAndStash_chain hChain hLast hRead ready, Option.map_some, Option.toList_some]
  · simp only [Function.update_self]
  · exact contents_setNext hRead ready

/-- The first loop ends. -/
theorem goStep_stops (h : Refines s l) {w : W} {q : Q} {ready : Option A}
    (hPc : s.worker w = .locked q ready) (hGrant : grantable s.heap (s.queue q) = some false) :
    goStep s w = some { s with worker := Function.update s.worker w (.outside ready) } ∧
      Refines { s with worker := Function.update s.worker w (.outside ready) } l := by
  refine ⟨by simp only [goStep, hPc, hGrant, Option.bind_some], h.leaves ?_ rfl ?_⟩
  · rw [hPc]
    rfl
  · intro q ready hd
    cases hd

/-- The second loop ends. -/
theorem goStep_returns (h : Refines s l) {w : W} (hPc : s.worker w = .outside none) :
    goStep s w = some { s with worker := Function.update s.worker w .idle } ∧
      Refines { s with worker := Function.update s.worker w .idle } l := by
  refine ⟨by simp only [goStep, hPc], h.leaves ?_ rfl ?_⟩
  · rw [hPc]
    rfl
  · intro q ready hd
    cases hd

/-- The second loop takes the head of the stash. -/
theorem goStep_takes (h : Refines s l) {w : W} {a : A} (hPc : s.worker w = .outside (some a)) :
    ∃ rest s' ready, l (.stash w) = a :: rest ∧ goStep s w = some s' ∧
      Refines s' (move l (.consume w)) ∧ s'.worker w = .serving a ready := by
  have hChain := h.threaded.chain (.stash w)
  rw [root, hPc] at hChain
  cases hList : l (.stash w) with
  | nil =>
      rw [hList] at hChain
      cases (show some a = none from hChain)
  | cons b rest =>
      rw [hList] at hChain
      obtain ⟨hSame, node, hRead, -⟩ := hChain
      cases hSame
      refine ⟨rest, _, node.nextReq, rfl, ?_, h.consume hList hRead, Function.update_self ..⟩
      simp only [goStep, hPc, hRead, Option.map_some]

/-- The second loop frees what it has taken. -/
theorem goStep_frees (h : Refines s l) {w : W} {req : A} {ready : Option A}
    (hPc : s.worker w = .serving req ready) :
    ∃ s', goStep s w = some s' ∧ Refines s' l ∧ s'.worker w = .outside ready := by
  obtain ⟨heap, hFree, hAfter⟩ := h.destroy hPc
  refine ⟨_, ?_, hAfter, Function.update_self ..⟩
  simp only [goStep, hPc, hFree, Option.map_some]

theorem goStep_refines (h : Refines s l) (w : W) :
    ∃ s', goStep s w = some s' ∧ Refines s' (move l (moveOf s (.go w))) := by
  cases hPc : s.worker w with
  | idle =>
      refine ⟨s, by simp only [goStep, hPc], ?_⟩
      rw [moveOf, hPc]
      exact h
  | locked q ready =>
      by_cases hStop : ∀ a ∈ (l (.queue q)).head?, ∀ node ∈ s.heap a,
          ¬ (s.queue q).resourcesLeft ≥ node.amountRequested
      · have hGrant := grantable_stops h hStop
        obtain ⟨hGo, hAfter⟩ := goStep_stops h hPc hGrant
        have hMove : moveOf s (.go w) = .stay := by
          simp only [moveOf, hPc, hGrant, Option.some.injEq, Bool.false_eq_true, if_false]
        exact ⟨_, hGo, hMove ▸ hAfter⟩
      · simp only [not_forall, not_not] at hStop
        obtain ⟨a, hHead, node, hRead, hEnough⟩ := hStop
        obtain ⟨rest, hList⟩ := List.head?_eq_some_iff.mp hHead
        obtain ⟨hGrant, s', hGo, hAfter, -⟩ := goStep_grants h hPc hList hRead hEnough
        have hMove : moveOf s (.go w) = .stash q w := by
          simp only [moveOf, hPc, hGrant, if_true]
        exact ⟨s', hGo, hMove ▸ hAfter⟩
  | outside ready =>
      rw [moveOf, hPc]
      cases ready with
      | none => exact ⟨_, goStep_returns h hPc⟩
      | some a =>
          obtain ⟨rest, s', ready, hList, hGo, hAfter, -⟩ := goStep_takes h hPc
          exact ⟨s', hGo, hAfter⟩
  | serving req ready =>
      rw [moveOf, hPc]
      obtain ⟨s', hGo, hAfter, -⟩ := goStep_frees h hPc
      exact ⟨s', hGo, hAfter⟩

/-- **Every step has a result**, and is a step on the lists. -/
theorem step_refines (h : Refines s l) {e : Event Q W A} (hEnabled : Enabled s e) :
    ∃ s', step s e = some s' ∧ Refines s' (move l (moveOf s e)) := by
  cases e with
  | makeRequest a jobId originSocket amount =>
      exact ⟨_, rfl, h.makeRequest hEnabled jobId originSocket amount⟩
  | enqueueRequest q a =>
      obtain ⟨heap, queue, hEnqueue, -, -, hAfter⟩ := h.enqueueRequest hEnabled q
      exact ⟨_, by rw [step, hEnqueue, Option.map_some], hAfter⟩
  | drainQueue w q => exact ⟨_, rfl, h.drainQueue hEnabled q⟩
  | go w => exact goStep_refines h w

/-! ## A worker by itself -/

/-- One worker runs and nothing else happens. -/
def Alone (w : W) : State Q W A → State Q W A → Prop :=
  Relation.ReflTransGen fun s s' => step s (.go w) = some s'

theorem Alone.go {w : W} {s₁ s' : State Q W A} (h : Alone w s₁ s') (hGo : goStep s w = some s₁) :
    Alone w s s' :=
  Relation.ReflTransGen.head hGo h

/-- The requests of a list of nodes, as `Ports.Reservation` has them. -/
def requests (address : A → Nat) (heap : Heap A) (l : List A) : List Request :=
  l.filterMap fun a => (contents heap a).map fun (jobId, originSocket, amount) =>
    ⟨address a, jobId, originSocket, amount⟩

omit [DecidableEq A] in
theorem requests_cons {heap : Heap A} {a : A} {node : RequestNode A} (hRead : heap a = some node)
    (address : A → Nat) (l : List A) :
    requests address heap (a :: l) =
      ⟨address a, node.jobId, node.originSocket, node.amountRequested⟩ ::
        requests address heap l := by
  simp [requests, contents, hRead]

omit [DecidableEq A] in
theorem requests_congr {heap heap' : Heap A} (hContents : contents heap' = contents heap)
    (address : A → Nat) : requests address heap' = requests address heap := by
  funext l
  rw [requests, hContents, requests]

/-- A queue, as `Ports.Reservation` has it. -/
def asQueue (address : A → Nat) (s : State Q W A) (l : Lists Q W A) (q : Q) : RequestQueue :=
  ⟨(s.queue q).resourcesLeft, requests address s.heap (l (.queue q))⟩

/-- `enqueue_request` is the one of `Ports.Reservation`. -/
theorem enqueueRequest_list (address : A → Nat) (h : Refines s l) {a : A} (hNone : InNoList s a)
    {node : RequestNode A} (hRead : s.heap a = some node) (q : Q) :
    ∃ s', step s (.enqueueRequest q a) = some s' ∧ Refines s' (move l (.append q a)) ∧
      asQueue address s' (move l (.append q a)) q =
        Reservation.enqueueRequest (asQueue address s l q)
          ⟨address a, node.jobId, node.originSocket, node.amountRequested⟩ := by
  obtain ⟨heap, queue, hEnqueue, hLeft, hContents, hAfter⟩ := h.enqueueRequest hNone q
  refine ⟨_, by rw [step, hEnqueue, Option.map_some], hAfter, ?_⟩
  have hNew : requests address s.heap [a] =
      [⟨address a, node.jobId, node.originSocket, node.amountRequested⟩] :=
    requests_cons hRead address []
  simp only [asQueue, Reservation.enqueueRequest, move, Function.update_self, hLeft,
    requests_congr hContents, ← hNew]
  rw [requests, List.filterMap_append]
  rfl

/-- **The first loop** ends, and does to the lists what `drainLocked` does. -/
theorem locked_loop (address : A → Nat) (h : Refines s l) {w : W} {q : Q} {ready : Option A}
    (hPc : s.worker w = .locked q ready) :
    ∃ s' l' ready', Alone w s s' ∧ Refines s' l' ∧ s'.worker w = .outside ready' ∧
      drainLocked (s.queue q).resourcesLeft (requests address s.heap (l (.queue q)))
          (requests address s.heap (l (.stash w))) =
        (asQueue address s' l' q, requests address s'.heap (l' (.stash w))) := by
  induction hList : l (.queue q) generalizing s l ready with
  | nil =>
      have hGrant := grantable_stops h (q := q) fun a hHead => by
        rw [hList] at hHead
        cases hHead
      obtain ⟨hGo, hAfter⟩ := goStep_stops h hPc hGrant
      refine ⟨_, l, ready, .single hGo, hAfter, Function.update_self .., ?_⟩
      rw [asQueue, hList]
      rfl
  | cons a rest ih =>
      obtain ⟨node, hRead⟩ := (h.threaded.chain (.queue q)).allocated
        (hList ▸ List.mem_cons_self)
      rw [requests_cons hRead, drainLocked]
      by_cases hEnough : (s.queue q).resourcesLeft ≥ node.amountRequested
      · obtain ⟨-, s₁, hGo, hAfter, hPc₁, hLeft, hContents⟩ :=
          goStep_grants h hPc hList hRead hEnough
        have hQueue : move l (.stash q w) (.queue q) = rest := by
          simp [move, hList]
        have hStash : move l (.stash q w) (.stash w) = a :: l (.stash w) := by
          simp [move, hList]
        obtain ⟨s', l', ready', hRun, hEnd, hPc', hDrain⟩ := ih hAfter hPc₁ hQueue
        refine ⟨s', l', ready', hRun.go hGo, hEnd, hPc', ?_⟩
        rw [if_pos hEnough, ← hDrain, hLeft, hStash, requests_congr hContents,
          requests_cons hRead]
      · have hGrant := grantable_stops h (q := q) fun b hHead node' hRead' => by
          rw [hList] at hHead
          cases hHead
          rw [hRead] at hRead'
          cases hRead'
          exact hEnough
        obtain ⟨hGo, hAfter⟩ := goStep_stops h hPc hGrant
        refine ⟨_, l, ready, .single hGo, hAfter, Function.update_self .., ?_⟩
        rw [if_neg hEnough, asQueue, hList, requests_cons hRead]

/-- **The second loop** ends. -/
theorem outside_loop (h : Refines s l) {w : W} {ready : Option A}
    (hPc : s.worker w = .outside ready) :
    ∃ s' l', Alone w s s' ∧ Refines s' l' ∧ s'.worker w = .idle := by
  induction hList : l (.stash w) generalizing s l ready with
  | nil =>
      have hChain := h.threaded.chain (.stash w)
      rw [hList, root, hPc] at hChain
      cases (show ready = none from hChain)
      obtain ⟨hGo, hAfter⟩ := goStep_returns h hPc
      exact ⟨_, l, .single hGo, hAfter, Function.update_self ..⟩
  | cons a rest ih =>
      have hChain := h.threaded.chain (.stash w)
      rw [hList, root, hPc] at hChain
      cases hChain.1
      obtain ⟨rest', s₁, ready₁, hTaken, hGo₁, hAfter₁, hPc₁⟩ := goStep_takes h hPc
      obtain ⟨s₂, hGo₂, hAfter₂, hPc₂⟩ := goStep_frees hAfter₁ hPc₁
      have hRest : move l (.consume w) (.stash w) = rest := by
        simp [move, hList]
      obtain ⟨s', l', hRun, hEnd, hIdle⟩ := ih hAfter₂ hPc₂ hRest
      exact ⟨s', l', (hRun.go hGo₂).go hGo₁, hEnd, hIdle⟩

omit [DecidableEq Q] [DecidableEq W] [DecidableEq A] in
/-- A worker that is not in `drain_queue` has consumed all it had dequeued. -/
theorem consumed_idle (h : Refines s l) {w : W} (hIdle : s.worker w = .idle) :
    s.consumed w = (s.dequeued w).reverse := by
  have hChain := h.threaded.chain (.stash w)
  rw [root, hIdle] at hChain
  have hEmpty : l (.stash w) = [] := hChain.unique rfl
  rw [(h.history w).split, hEmpty, List.append_nil]

/-- **`drain_queue` returns**, wherever the worker is in it. -/
theorem drain_returns (h : Refines s l) (w : W) :
    ∃ s', Alone w s s' ∧ s'.worker w = .idle ∧ s'.consumed w = (s'.dequeued w).reverse := by
  have hEnd : ∃ s' l', Alone w s s' ∧ Refines s' l' ∧ s'.worker w = .idle := by
    cases hPc : s.worker w with
    | idle => exact ⟨s, l, .refl, h, hPc⟩
    | locked q ready =>
        obtain ⟨s₁, l₁, ready₁, hFirst, hAfter, hPc₁, -⟩ := locked_loop (fun _ => 0) h hPc
        obtain ⟨s', l', hSecond, hEnd, hIdle⟩ := outside_loop hAfter hPc₁
        exact ⟨s', l', hFirst.trans hSecond, hEnd, hIdle⟩
    | outside ready => exact outside_loop h hPc
    | serving req ready =>
        obtain ⟨s₁, hGo, hAfter, hPc₁⟩ := goStep_frees h hPc
        obtain ⟨s', l', hRun, hEnd, hIdle⟩ := outside_loop hAfter hPc₁
        exact ⟨s', l', hRun.go hGo, hEnd, hIdle⟩
  obtain ⟨s', l', hRun, hEnd, hIdle⟩ := hEnd
  exact ⟨s', hRun, hIdle, consumed_idle hEnd hIdle⟩

/-! ## Whole runs -/

/-- What `l` has to do with the pointers. -/
structure IsFifo (s : State Q W A) (l : Lists Q W A) : Prop where
  /-- following `next_req` from `first` visits the list of the queue and ends in NULL -/
  visits : ∀ q, Chain RequestNode.nextReq s.heap (s.queue q).first (l (.queue q))
  distinct : ∀ q, (l (.queue q)).Nodup
  last : ∀ q, (s.queue q).last = (l (.queue q)).getLast?
  empty : ∀ q, ((s.queue q).first = none ↔ l (.queue q) = []) ∧
    ((s.queue q).last = none ↔ l (.queue q) = [])
  /-- following `next_req` from `ready` visits the stash and ends in NULL -/
  stash : ∀ w, Chain RequestNode.nextReq s.heap (s.worker w).ready (l (.stash w))
  apart : ∀ o o', o ≠ o' → ∀ a ∈ l o, a ∉ l o'
  /-- in the first loop the stash is what the drain has dequeued, the last one first -/
  locked : ∀ w q ready, s.worker w = .locked q ready → l (.stash w) = (s.dequeued w).reverse
  /-- in the second loop it is what has not been consumed of that -/
  dequeued : ∀ w, (s.dequeued w).reverse = s.consumed w ++ l (.stash w)
  consumed : ∀ w, s.worker w = .idle → s.consumed w = (s.dequeued w).reverse
  /-- a worker gets to the end of `drain_queue`, and has consumed all of it by then -/
  returns : ∀ w, ∃ s', Alone w s s' ∧ s'.worker w = .idle ∧
    s'.consumed w = (s'.dequeued w).reverse

theorem isFifo_of_refines (h : Refines s l) : IsFifo s l where
  visits q := h.threaded.chain (.queue q)
  distinct q := (h.threaded.chain (.queue q)).nodup
  last := h.last
  empty q := by
    have hFirst : (s.queue q).first = (l (.queue q)).head? := (h.threaded.chain (.queue q)).head
    constructor
    · rw [hFirst, List.head?_eq_none_iff]
    · rw [h.last, List.getLast?_eq_none_iff]
  stash w := h.threaded.chain (.stash w)
  apart := h.threaded.apart
  locked w q ready hPc := by
    rw [(h.history w).split, (h.history w).locked q ready hPc, List.nil_append]
  dequeued w := (h.history w).split
  consumed _ := consumed_idle h
  returns := drain_returns h

omit [DecidableEq Q] [DecidableEq W] [DecidableEq A] in
/-- What is in no list can be seen from the lists. -/
theorem inNoList_of_chains {a : A} (hRead : s.heap a ≠ none)
    (hChain : ∀ o, Chain RequestNode.nextReq s.heap (root s.queue s.worker o) (l o))
    (hOut : ∀ o, a ∉ l o) (hReq : ∀ w, (s.worker w).req ≠ some a) : InNoList s a where
  allocated := hRead
  queue q hReach := hOut _ ((hChain (.queue q)).reaches_iff.mp hReach)
  stash w hReach := hOut _ ((hChain (.stash w)).reaches_iff.mp hReach)
  req := hReq

/-- The lists after a run: empty at first, and moved step by step. -/
def listsAfter (heap : Heap A) (capacity : Q → Int) (es : List (Event Q W A)) : Lists Q W A :=
  run move (fun _ => []) (labels (checked step) (fun s e => s.elim .stay fun s => moveOf s e)
    (some (State.init heap capacity)) es)

/-- **The linked FIFO refines a list.**  In every run from empty queues no pointer is followed
that leads nowhere, and the pointers of the state it ends in make up the lists that the same run
leaves when each `enqueue_request` appends to a list, each turn of a first loop takes the head of
one, and nothing else touches it. -/
theorem fifo_refines_list (heap : Heap A) (capacity : Q → Int) {es : List (Event Q W A)}
    (hMeets : Meets (checked step) (fun s e => ∀ x ∈ s, Enabled x e)
      (some (State.init heap capacity)) es) :
    ∃ s, run (checked step) (some (State.init heap capacity)) es = some s ∧
      IsFifo s (listsAfter heap capacity es) := by
  have hStep : ∀ (o : Option (State Q W A)) l e, (∃ s, o = some s ∧ Refines s l) →
      (∀ x ∈ o, Enabled x e) → ∃ s, checked step o e = some s ∧
        Refines s (move l (o.elim .stay fun s => moveOf s e)) := by
    rintro o l e ⟨s, rfl, h⟩ hEnabled
    exact step_refines h (hEnabled s rfl)
  obtain ⟨s, hRun, h⟩ := run_simulation (fun o l => ∃ s, o = some s ∧ Refines s l) hStep
    ⟨_, rfl, refines_init heap capacity⟩ hMeets
  exact ⟨s, hRun, isFifo_of_refines h⟩

end

/-- One queue of five elements and one worker: two requests are granted, and the address of the
first is handed out again. -/
def refilled : List (Event Unit Unit Nat) :=
  [.makeRequest 0 7 4 2, .enqueueRequest () 0, .makeRequest 1 8 4 3, .enqueueRequest () 1,
    .drainQueue () (), .go (), .go (), .go (), .go (), .go (), .go (), .go (), .go (),
    .makeRequest 0 9 5 1, .enqueueRequest () 0]

theorem fifo_refines_list_refilled :
    ∃ s, run (checked step) (some (State.init (fun _ => none) fun _ => 5)) refilled = some s ∧
      IsFifo s (listsAfter (fun _ => none) (fun _ => 5) refilled) := by
  refine fifo_refines_list _ _
    ⟨?_, ?_, ?_, ?_, ?_, ?_, ?_, ?_, ?_, ?_, ?_, ?_, ?_, ?_, ?_, trivial⟩ <;> rintro s ⟨⟩
  · rfl
  · refine inNoList_of_chains (l := fun _ => []) ?_ ?_ (fun _ => List.not_mem_nil) ?_
    · decide
    · rintro (_ | _) <;> rfl
    · rintro w ⟨⟩
  · rfl
  · refine inNoList_of_chains (l := fun o => o.casesOn (fun _ => [0]) fun _ => []) ?_ ?_ ?_ ?_
    · decide
    · rintro (_ | _)
      · exact ⟨rfl, _, rfl, rfl⟩
      · rfl
    · rintro (_ | _) <;> simp
    · rintro w ⟨⟩
  · rfl
  iterate 8 exact trivial
  · rfl
  · refine inNoList_of_chains (l := fun _ => []) ?_ ?_ (fun _ => List.not_mem_nil) ?_
    · decide
    · rintro (_ | _) <;> rfl
    · rintro w ⟨⟩

end ResourceAgent.Ports.FifoRefinement
