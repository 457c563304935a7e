import Mathlib.Data.List.Nodup
import Mathlib.Logic.Function.Basic

/-!
# Lists threaded through a heap

A heap is a partial map from addresses to nodes, and `next` is the link field of a node.
`Chain next m p l` says that following the link from `p` visits exactly the nodes `l` and then
reaches NULL.  Such an `l` is determined by `p` and the heap (`Chain.unique`), and a chain that
ends cannot visit a node twice (`Chain.nodup`).

One link field can serve several lists in turn as long as they share no node.  `Threaded` says so
for a family of lists; `Threaded.set` is the frame rule: a change to one list, and to nodes that
are in no other, leaves the others alone.
-/

namespace ResourceAgent.Verified.Linked

variable {A N : Type _} {next : N → Option A}

/-! ## One list -/

/-- Following the links from `p` visits `l` and ends in NULL. -/
def Chain (next : N → Option A) (m : A → Option N) : Option A → List A → Prop
  | p, [] => p = none
  | p, a :: l => p = some a ∧ ∃ n, m a = some n ∧ Chain next m (next n) l

/-- Following the links from `p` comes to `a`. -/
inductive Reaches (next : N → Option A) (m : A → Option N) : Option A → A → Prop where
  | here (a : A) : Reaches next m (some a) a
  | step {a b : A} {n : N} (hRead : m b = some n) (hRest : Reaches next m (next n) a) :
      Reaches next m (some b) a

section

variable {m m' : A → Option N} {p : Option A} {l : List A} {a b : A}

theorem Chain.head (h : Chain next m p l) : p = l.head? := by
  cases l with
  | nil => exact h
  | cons a l => exact h.1

/-- The links decide what is visited. -/
theorem Chain.unique {l' : List A} (h : Chain next m p l) (h' : Chain next m p l') : l = l' := by
  induction l generalizing p l' with
  | nil =>
      cases l' with
      | nil => rfl
      | cons a' l' => cases (show p = none from h).symm.trans h'.1
  | cons a l ih =>
      obtain ⟨rfl, n, hRead, hRest⟩ := h
      cases l' with
      | nil => cases (show some a = none from h')
      | cons a' l' =>
          obtain ⟨hSame, n', hRead', hRest'⟩ := h'
          cases hSame
          rw [hRead] at hRead'
          cases hRead'
          rw [ih hRest hRest']

theorem Chain.allocated (h : Chain next m p l) (hMem : a ∈ l) : ∃ n, m a = some n := by
  induction l generalizing p with
  | nil => cases hMem
  | cons b l ih =>
      obtain ⟨-, n, hRead, hRest⟩ := h
      rcases List.mem_cons.mp hMem with rfl | hMem
      · exact ⟨n, hRead⟩
      · exact ih hRest hMem

/-- A chain goes on from each of its nodes. -/
theorem Chain.from_mem {l₁ l₂ : List A} (h : Chain next m p (l₁ ++ a :: l₂)) :
    Chain next m (some a) (a :: l₂) := by
  induction l₁ generalizing p with
  | nil =>
      obtain ⟨rfl, hRest⟩ := h
      exact ⟨rfl, hRest⟩
  | cons b l₁ ih =>
      obtain ⟨-, n, -, hRest⟩ := h
      exact ih hRest

/-- **No node is visited twice**: the walk from it would be longer than itself. -/
theorem Chain.nodup (h : Chain next m p l) : l.Nodup := by
  induction l generalizing p with
  | nil => exact List.nodup_nil
  | cons a l ih =>
      obtain ⟨rfl, n, hRead, hRest⟩ := h
      refine List.nodup_cons.mpr ⟨fun hMem => ?_, ih hRest⟩
      obtain ⟨l₁, l₂, rfl⟩ := List.append_of_mem hMem
      have hAgain := hRest.from_mem
      have hWhole : Chain next m (some a) (a :: (l₁ ++ a :: l₂)) := ⟨rfl, n, hRead, hRest⟩
      have hLength := congrArg List.length (hAgain.unique hWhole)
      simp only [List.length_cons, List.length_append] at hLength
      omega

theorem Chain.reaches_iff (h : Chain next m p l) : Reaches next m p a ↔ a ∈ l := by
  constructor
  · intro hReach
    induction hReach generalizing l with
    | here a =>
        cases l with
        | nil => cases (show some a = none from h)
        | cons b l =>
            cases h.1
            exact List.mem_cons_self
    | step hRead hRest ih =>
        cases l with
        | nil => cases (show some _ = none from h)
        | cons b l =>
            obtain ⟨hSame, n, hRead', hChain⟩ := h
            cases hSame
            rw [hRead] at hRead'
            cases hRead'
            exact List.mem_cons_of_mem _ (ih hChain)
  · intro hMem
    induction l generalizing p with
    | nil => cases hMem
    | cons b l ih =>
        obtain ⟨rfl, n, hRead, hRest⟩ := h
        rcases List.mem_cons.mp hMem with rfl | hMem
        · exact .here _
        · exact .step hRead (ih hRest hMem)

/-- **Frame.**  Only the nodes of the list matter. -/
theorem Chain.frame (h : Chain next m p l) (hSame : ∀ x ∈ l, m' x = m x) :
    Chain next m' p l := by
  induction l generalizing p with
  | nil => exact h
  | cons a l ih =>
      obtain ⟨rfl, n, hRead, hRest⟩ := h
      refine ⟨rfl, n, ?_, ih hRest fun x hx => hSame x (List.mem_cons_of_mem _ hx)⟩
      rw [hSame a List.mem_cons_self, hRead]

/-- A node behind the last one. -/
theorem Chain.snoc {n n' : N} (h : Chain next m p (l ++ [b])) (hLast : m' b = some n)
    (hLink : next n = some a) (hNew : m' a = some n') (hEnd : next n' = none)
    (hSame : ∀ x ∈ l, m' x = m x) : Chain next m' p (l ++ [b] ++ [a]) := by
  induction l generalizing p with
  | nil =>
      obtain ⟨rfl, -⟩ := h
      exact ⟨rfl, n, hLast, hLink, n', hNew, hEnd⟩
  | cons c l ih =>
      obtain ⟨rfl, n₀, hRead, hRest⟩ := h
      refine ⟨rfl, n₀, ?_, ih hRest fun x hx => hSame x (List.mem_cons_of_mem _ hx)⟩
      rw [hSame c List.mem_cons_self, hRead]

end

/-! ## Several lists -/

variable {ι : Type _} {m m' : A → Option N} {root : ι → Option A} {cells : ι → List A}

/-- Lists that share no node. -/
structure Threaded (next : N → Option A) (m : A → Option N) (root : ι → Option A)
    (cells : ι → List A) : Prop where
  chain : ∀ i, Chain next m (root i) (cells i)
  apart : ∀ i j, i ≠ j → ∀ a ∈ cells i, a ∉ cells j

theorem Threaded.frame (h : Threaded next m root cells) (hSame : ∀ i, ∀ x ∈ cells i, m' x = m x) :
    Threaded next m' root cells :=
  ⟨fun i => (h.chain i).frame (hSame i), h.apart⟩

/-- A node of the lists after one of them has changed. -/
theorem mem_update [DecidableEq ι] {i j : ι} {l : List A} {a : A}
    (h : a ∈ Function.update cells i l j) : j = i ∧ a ∈ l ∨ j ≠ i ∧ a ∈ cells j := by
  by_cases hj : j = i
  · subst hj
    rw [Function.update_self] at h
    exact .inl ⟨rfl, h⟩
  · rw [Function.update_of_ne hj] at h
    exact .inr ⟨hj, h⟩

/-- **Frame rule.**  A new list in the place of an old one, where the other lists have none of
its nodes and see none of the changes to the heap. -/
theorem Threaded.set [DecidableEq ι] (h : Threaded next m root cells) {i : ι} {p : Option A}
    {l : List A} (hChain : Chain next m' p l)
    (hSame : ∀ j, j ≠ i → ∀ x ∈ cells j, m' x = m x)
    (hApart : ∀ x ∈ l, ∀ j, j ≠ i → x ∉ cells j) :
    Threaded next m' (Function.update root i p) (Function.update cells i l) where
  chain j := by
    by_cases hj : j = i
    · subst hj
      rw [Function.update_self, Function.update_self]
      exact hChain
    · rw [Function.update_of_ne hj, Function.update_of_ne hj]
      exact (h.chain j).frame (hSame j hj)
  apart j k hjk a hMem hOther := by
    obtain ⟨hj, hFirst⟩ | ⟨hj, hFirst⟩ := mem_update hMem
    · obtain ⟨hk, -⟩ | ⟨hk, hSecond⟩ := mem_update hOther
      · exact hjk (hj.trans hk.symm)
      · exact hApart a hFirst k hk hSecond
    · obtain ⟨-, hSecond⟩ | ⟨-, hSecond⟩ := mem_update hOther
      · exact hApart a hSecond j hj hFirst
      · exact h.apart j k hjk a hFirst hSecond

/-- The head of a list is taken out; after that it may change. -/
theorem Threaded.tail [DecidableEq ι] (h : Threaded next m root cells) {i : ι} {a : A}
    {rest : List A} {n : N} (hList : cells i = a :: rest) (hRead : m a = some n)
    (hSame : ∀ x, x ≠ a → m' x = m x) :
    Threaded next m' (Function.update root i (next n)) (Function.update cells i rest) := by
  have hChain := h.chain i
  rw [hList] at hChain
  have hNodup := List.nodup_cons.mp hChain.nodup
  obtain ⟨-, n', hRead', hRest⟩ := hChain
  rw [hRead] at hRead'
  cases hRead'
  refine h.set (hRest.frame fun x hx => hSame x ?_) (fun j hj x hx => hSame x ?_)
    fun x hx j hj => h.apart i j (Ne.symm hj) x (hList ▸ List.mem_cons_of_mem a hx)
  · rintro rfl
    exact hNodup.1 hx
  · rintro rfl
    exact h.apart j i hj x hx (hList ▸ List.mem_cons_self)

/-- The head of one list becomes the head of another: its link is set once more. -/
theorem Threaded.moveHead [DecidableEq ι] (h : Threaded next m root cells) {i j : ι} (hij : i ≠ j)
    {a : A} {rest : List A} {n n' : N} (hList : cells i = a :: rest) (hRead : m a = some n)
    (hNow : m' a = some n') (hLink : next n' = root j) (hSame : ∀ x, x ≠ a → m' x = m x) :
    Threaded next m' (Function.update (Function.update root i (next n)) j (some a))
      (Function.update (Function.update cells i rest) j (a :: cells j)) := by
  have hTail := h.tail hList hRead hSame
  have hOld := hTail.chain j
  rw [Function.update_of_ne hij.symm, Function.update_of_ne hij.symm, ← hLink] at hOld
  have hNodup : a ∉ rest := by
    have hChain := h.chain i
    rw [hList] at hChain
    exact (List.nodup_cons.mp hChain.nodup).1
  refine hTail.set ⟨rfl, n', hNow, hOld⟩ (fun _ _ _ _ => rfl) fun x hx k hk => ?_
  rcases List.mem_cons.mp hx with rfl | hx
  · by_cases hki : k = i
    · rw [hki, Function.update_self]
      exact hNodup
    · rw [Function.update_of_ne hki]
      exact h.apart i k (Ne.symm hki) x (hList ▸ List.mem_cons_self)
  · have hApart := hTail.apart j k (Ne.symm hk) x
    rw [Function.update_of_ne hij.symm] at hApart
    exact hApart hx

end ResourceAgent.Verified.Linked
