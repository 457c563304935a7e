import Mathlib.Data.List.Perm.Subperm
import ResourceAgent.Verified.Linked

/-!
# A heap with `malloc` and `free`

`Heap A N` is memory for nodes of one kind: the blocks that were allocated and not freed.
Reading, writing and freeing have no result where nothing is allocated, so a program that has a
result uses no freed memory and frees nothing twice.  There are finitely many blocks, which bounds
the two loops over a linked list below.

* `freeList_spec`: freeing a list node by node frees its nodes, each once, and nothing else.
* `visitList_spec`: a loop over a list that writes to its nodes and leaves their links alone.
-/

namespace ResourceAgent.Verified.Memory

open ResourceAgent.Verified.Linked

section

variable {ι A N : Type _} {next : N → Option A} {m m' : A → Option N}

/-- What the nodes hold besides their links does not matter. -/
theorem chain_of_links {p : Option A} {l : List A} (h : Chain next m p l)
    (hLinks : ∀ x ∈ l, (m' x).map next = (m x).map next) : Chain next m' p l := by
  induction l generalizing p with
  | nil => exact h
  | cons a l ih =>
      obtain ⟨rfl, n, hRead, hRest⟩ := h
      have hLink := hLinks a List.mem_cons_self
      rw [hRead] at hLink
      obtain ⟨n', hRead', hNext⟩ := Option.map_eq_some_iff.mp hLink
      refine ⟨rfl, n', hRead', ?_⟩
      rw [hNext]
      exact ih hRest fun x hx => hLinks x (List.mem_cons_of_mem _ hx)

theorem threaded_of_links {root : ι → Option A} {cells : ι → List A}
    (h : Threaded next m root cells)
    (hLinks : ∀ i, ∀ x ∈ cells i, (m' x).map next = (m x).map next) :
    Threaded next m' root cells :=
  ⟨fun i => chain_of_links (h.chain i) (hLinks i), h.apart⟩

end

/-- The blocks in use. -/
structure Heap (A N : Type _) where
  blocks : List (A × N)

namespace Heap

variable {A N : Type _}

def empty : Heap A N := ⟨[]⟩

variable [DecidableEq A] {h h' : Heap A N} {a b : A} {n n' : N}

/-- Following a pointer to `a`. -/
def read (h : Heap A N) (a : A) : Option N := h.blocks.lookup a

def malloc (h : Heap A N) (a : A) (n : N) : Heap A N := ⟨(a, n) :: h.blocks⟩

def remove (h : Heap A N) (a : A) : Heap A N := ⟨h.blocks.filter fun block => block.1 ≠ a⟩

/-- `*a = n;` -/
def write (h : Heap A N) (a : A) (n : N) : Option (Heap A N) :=
  (h.read a).map fun _ => (h.remove a).malloc a n

/-- `free(a);` -/
def free (h : Heap A N) (a : A) : Option (Heap A N) := (h.read a).map fun _ => h.remove a

@[simp] theorem read_empty : (empty : Heap A N).read a = none := rfl

@[simp] theorem read_malloc :
    (h.malloc a n).read b = if b = a then some n else h.read b := by
  by_cases hSame : b = a
  · subst hSame
    simp [read, malloc]
  · have hOther : (b == a) = false := beq_eq_false_iff_ne.mpr hSame
    simp [read, malloc, List.lookup_cons, hSame, hOther]

@[simp] theorem read_remove : (h.remove a).read b = if b = a then none else h.read b := by
  unfold read remove
  induction h.blocks with
  | nil => simp
  | cons block rest ih =>
      by_cases hGone : block.1 = a
      · rw [List.filter_cons_of_neg (by simpa using hGone), ih, List.lookup_cons]
        by_cases hSame : b = a
        · simp [hSame]
        · have hOther : (b == block.1) = false := by simpa [hGone] using hSame
          simp [hSame, hOther]
      · rw [List.filter_cons_of_pos (by simpa using hGone), List.lookup_cons, List.lookup_cons, ih]
        by_cases hSame : b = block.1
        · have hNe : b ≠ a := hSame ▸ hGone
          simp [hSame, hSame ▸ hNe]
        · have hOther : (b == block.1) = false := by simpa using hSame
          simp [hOther]

theorem write_of_read (hRead : h.read a = some n) (n' : N) :
    h.write a n' = some ((h.remove a).malloc a n') := by
  rw [write, hRead, Option.map_some]

theorem read_write (hWrite : h.write a n' = some h') :
    h'.read b = if b = a then some n' else h.read b := by
  obtain ⟨n, -, rfl⟩ := Option.map_eq_some_iff.mp hWrite
  rw [read_malloc, read_remove]
  split
  · rfl
  · rfl

theorem free_of_read (hRead : h.read a = some n) : h.free a = some (h.remove a) := by
  rw [free, hRead, Option.map_some]

theorem mem_of_read (hRead : h.read a = some n) : a ∈ h.blocks.map Prod.fst := by
  unfold read at hRead
  generalize h.blocks = blocks at hRead ⊢
  induction blocks with
  | nil => cases hRead
  | cons block rest ih =>
      rw [List.lookup_cons] at hRead
      by_cases hSame : a = block.1
      · exact hSame ▸ List.mem_cons_self
      · have hOther : (a == block.1) = false := by simpa using hSame
        rw [hOther] at hRead
        exact List.mem_cons_of_mem _ (ih hRead)

/-! ## Loops over a linked list -/

variable {next : N → Option A} {p : Option A} {l : List A}

/-- A list has no more nodes than there are blocks. -/
theorem length_le_blocks (hChain : Chain next h.read p l) : l.length ≤ h.blocks.length := by
  have hSub : l ⊆ h.blocks.map Prod.fst := fun a hMem => by
    obtain ⟨n, hRead⟩ := hChain.allocated hMem
    exact mem_of_read hRead
  have hLength := (List.subperm_of_subset hChain.nodup hSub).length_le
  rwa [List.length_map] at hLength

/-- `while (p != NULL) { next = p->next; free(p); p = next; }` -/
def freeFrom (next : N → Option A) : Nat → Heap A N → Option A → Option (Heap A N)
  | _, h, none => some h
  | 0, _, some _ => none
  | fuel + 1, h, some a =>
      (h.read a).bind fun n => (h.free a).bind fun h => freeFrom next fuel h (next n)

def freeList (next : N → Option A) (h : Heap A N) (p : Option A) : Option (Heap A N) :=
  freeFrom next h.blocks.length h p

private theorem freeFrom_spec {fuel : Nat} (hChain : Chain next h.read p l)
    (hFuel : l.length ≤ fuel) :
    ∃ h', freeFrom next fuel h p = some h' ∧
      ∀ b, h'.read b = if b ∈ l then none else h.read b := by
  induction l generalizing fuel h p with
  | nil =>
      cases (show p = none from hChain)
      refine ⟨h, by cases fuel <;> rfl, fun b => ?_⟩
      rw [if_neg List.not_mem_nil]
  | cons a l ih =>
      have hFresh := List.nodup_cons.mp hChain.nodup
      obtain ⟨rfl, n, hRead, hRest⟩ := hChain
      obtain ⟨fuel, rfl⟩ : ∃ k, fuel = k + 1 :=
        ⟨fuel - 1, by rw [List.length_cons] at hFuel; omega⟩
      have hAfter : Chain next (h.remove a).read (next n) l := by
        refine hRest.frame fun x hx => ?_
        rw [read_remove, if_neg]
        rintro rfl
        exact hFresh.1 hx
      have hLess : l.length ≤ fuel := Nat.le_of_succ_le_succ hFuel
      obtain ⟨h', hFreed, hReads⟩ := ih hAfter hLess
      refine ⟨h', ?_, fun b => ?_⟩
      · rw [freeFrom, hRead, Option.bind_some, free_of_read hRead, Option.bind_some]
        exact hFreed
      · rw [hReads, read_remove]
        by_cases hSame : b = a
        · simp [hSame]
        · simp [hSame]

/-- **Freeing a list.** -/
theorem freeList_spec (hChain : Chain next h.read p l) :
    ∃ h', freeList next h p = some h' ∧ ∀ b, h'.read b = if b ∈ l then none else h.read b :=
  freeFrom_spec hChain (length_le_blocks hChain)

variable {E : Type _} {visit : N → N × List E}

/-- A loop that writes `visit` to each node and collects what it does, before it goes on to the
next one. -/
def visitFrom (next : N → Option A) (visit : N → N × List E) :
    Nat → Heap A N → Option A → Option (Heap A N × List E)
  | _, h, none => some (h, [])
  | 0, _, some _ => none
  | fuel + 1, h, some a =>
      (h.read a).bind fun n => (h.write a (visit n).1).bind fun h =>
        (visitFrom next visit fuel h (next (visit n).1)).map fun r => (r.1, (visit n).2 ++ r.2)

def visitList (next : N → Option A) (visit : N → N × List E) (h : Heap A N) (p : Option A) :
    Option (Heap A N × List E) :=
  visitFrom next visit h.blocks.length h p

private theorem visitFrom_spec {fuel : Nat} (hLink : ∀ n, next (visit n).1 = next n)
    (hChain : Chain next h.read p l) (hFuel : l.length ≤ fuel) :
    ∃ h', visitFrom next visit fuel h p =
        some (h', l.flatMap fun a => (h.read a).elim [] fun n => (visit n).2) ∧
      ∀ b, h'.read b =
        if b ∈ l then (h.read b).map (fun n => (visit n).1) else h.read b := by
  induction l generalizing fuel h p with
  | nil =>
      cases (show p = none from hChain)
      refine ⟨h, by cases fuel <;> rfl, fun b => ?_⟩
      rw [if_neg List.not_mem_nil]
  | cons a l ih =>
      have hFresh := List.nodup_cons.mp hChain.nodup
      obtain ⟨rfl, n, hRead, hRest⟩ := hChain
      obtain ⟨fuel, rfl⟩ : ∃ k, fuel = k + 1 :=
        ⟨fuel - 1, by rw [List.length_cons] at hFuel; omega⟩
      have hWrite : h.write a (visit n).1 = some ((h.remove a).malloc a (visit n).1) :=
        write_of_read hRead _
      have hElse : ∀ x ∈ l, ((h.remove a).malloc a (visit n).1).read x = h.read x := by
        intro x hx
        rw [read_write hWrite, if_neg]
        rintro rfl
        exact hFresh.1 hx
      have hLess : l.length ≤ fuel := Nat.le_of_succ_le_succ hFuel
      obtain ⟨h', hVisited, hReads⟩ := ih (hRest.frame hElse) hLess
      refine ⟨h', ?_, fun b => ?_⟩
      · have hOut : (l.flatMap fun x => (((h.remove a).malloc a (visit n).1).read x).elim []
            fun n => (visit n).2) = l.flatMap fun x => (h.read x).elim [] fun n => (visit n).2 :=
          List.flatMap_congr fun x hx => by rw [hElse x hx]
        rw [visitFrom, hRead, Option.bind_some, hWrite, Option.bind_some, hLink, hVisited, hOut,
          List.flatMap_cons, hRead]
        rfl
      · rw [hReads, read_write hWrite]
        by_cases hSame : b = a
        · subst hSame
          rw [if_neg hFresh.1, if_pos rfl, if_pos List.mem_cons_self, hRead]
          rfl
        · simp [hSame]

/-- **Visiting a list.** -/
theorem visitList_spec (visit : N → N × List E) (hLink : ∀ n, next (visit n).1 = next n)
    (hChain : Chain next h.read p l) :
    ∃ h', visitList next visit h p =
        some (h', l.flatMap fun a => (h.read a).elim [] fun n => (visit n).2) ∧
      ∀ b, h'.read b =
        if b ∈ l then (h.read b).map (fun n => (visit n).1) else h.read b :=
  visitFrom_spec hLink hChain (length_le_blocks hChain)

end Heap

end ResourceAgent.Verified.Memory
