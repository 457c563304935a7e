import Mathlib.Algebra.Order.BigOperators.Group.Finset
import Mathlib.Algebra.Order.BigOperators.Group.List
import ResourceAgent.Verified.Runs

/-!
# Runs that use up a potential

A natural number that every admitted step lowers bounds the length of the runs that
can be made from a state (`length_add_le_potential`), so a run that can always be continued
until something holds comes to where it holds.  Where only some steps count, each has a cost
(`spent`), and a potential that pays for it bounds the cost of a run.

`total` is the potential of a list, where the weight of an element depends on its
place.
-/

namespace ResourceAgent.Verified.Potential

open ResourceAgent.Verified.Runs

/-! ## Runs -/

section

variable {σ ε : Type _} {step : σ → ε → σ} {ok : σ → ε → Prop} {s : σ}

/-- **Potential rule.**  What a run of admitted steps has cost, and what is left. -/
theorem length_add_le_potential (inv : σ → Prop) (potential : σ → Nat)
    (hStep : ∀ s e, inv s → ok s e → inv (step s e) ∧ potential (step s e) < potential s)
    {es : List ε} (hInit : inv s) (hMeets : Meets step ok s es) :
    es.length + potential (run step s es) ≤ potential s := by
  induction es generalizing s with
  | nil => simp
  | cons e es ih =>
      obtain ⟨hInv, hLess⟩ := hStep s e hInit hMeets.1
      have hRest := ih hInv hMeets.2
      rw [List.length_cons, run_cons]
      omega

/-- What the steps of a run cost together. -/
def spent (step : σ → ε → σ) (cost : σ → ε → Nat) : σ → List ε → Nat
  | _, [] => 0
  | s, e :: es => cost s e + spent step cost (step s e) es

theorem spent_snoc (step : σ → ε → σ) (cost : σ → ε → Nat) (s : σ) (es : List ε) (e : ε) :
    spent step cost s (es ++ [e]) = spent step cost s es + cost (run step s es) e := by
  induction es generalizing s with
  | nil => simp [spent]
  | cons x es ih =>
      rw [List.cons_append, spent, ih, spent, run_cons]
      omega

/-- **Cost rule.**  A potential that pays for every step pays for the run. -/
theorem spent_add_le_potential (inv : σ → Prop) (cost : σ → ε → Nat) (potential : σ → Nat)
    (hStep : ∀ s e, inv s → inv (step s e) ∧ cost s e + potential (step s e) ≤ potential s)
    (hInit : inv s) (es : List ε) :
    spent step cost s es + potential (run step s es) ≤ potential s := by
  induction es generalizing s with
  | nil => simp [spent]
  | cons e es ih =>
      obtain ⟨hInv, hPays⟩ := hStep s e hInit
      have hRest := ih hInv
      rw [spent, run_cons]
      omega

end

/-! ## Lists -/

section

variable {α : Type _}

/-- The weights of the elements of a list, each at its place. -/
def total (weight : Nat → α → Nat) (l : List α) : Nat :=
  ∑ i ∈ Finset.range l.length, (l[i]?).elim 0 (weight i)

theorem total_append_singleton (weight : Nat → α → Nat) (l : List α) (x : α) :
    total weight (l ++ [x]) = total weight l + weight l.length x := by
  have hFront : ∀ i ∈ Finset.range l.length,
      ((l ++ [x])[i]?).elim 0 (weight i) = (l[i]?).elim 0 (weight i) := by
    intro i hi
    rw [List.getElem?_append_left (Finset.mem_range.mp hi)]
  rw [total, List.length_append, List.length_singleton, Finset.sum_range_succ,
    Finset.sum_congr rfl hFront]
  simp [total]

/-- One element changes its weight. -/
theorem total_modify (weight : Nat → α → Nat) {l : List α} {i : Nat} (f : α → α) {x : α}
    (h : l[i]? = some x) :
    total weight (l.modify i f) + weight i x = total weight l + weight i (f x) := by
  have hIn : i ∈ Finset.range l.length := by
    rw [Finset.mem_range]
    exact (List.getElem?_eq_some_iff.mp h).1
  have hOther : ∀ j ∈ (Finset.range l.length).erase i,
      ((l.modify i f)[j]?).elim 0 (weight j) = (l[j]?).elim 0 (weight j) := by
    intro j hj
    have hNe : i ≠ j := (Finset.ne_of_mem_erase hj).symm
    simp [hNe]
  have hSelf : (l.modify i f)[i]? = some (f x) := by simp [h]
  unfold total
  rw [List.length_modify, ← Finset.add_sum_erase _ _ hIn, ← Finset.add_sum_erase _ _ hIn,
    Finset.sum_congr rfl hOther, hSelf, h]
  simp only [Option.elim_some]
  omega

variable {weight weight' : Nat → α → Nat} {l l' : List α}

private theorem elim_le (hLength : l'.length = l.length)
    (hLe : ∀ {i x x'}, l[i]? = some x → l'[i]? = some x' → weight' i x' ≤ weight i x) :
    ∀ i ∈ Finset.range l.length, (l'[i]?).elim 0 (weight' i) ≤ (l[i]?).elim 0 (weight i) := by
  intro i hi
  have hBound := Finset.mem_range.mp hi
  obtain ⟨x, hOld⟩ : ∃ x, l[i]? = some x := ⟨_, List.getElem?_eq_getElem hBound⟩
  obtain ⟨x', hNew⟩ : ∃ x', l'[i]? = some x' :=
    ⟨_, List.getElem?_eq_getElem (hLength ▸ hBound)⟩
  rw [hOld, hNew]
  exact hLe hOld hNew

/-- No element has become heavier. -/
theorem total_le (hLength : l'.length = l.length)
    (hLe : ∀ {i x x'}, l[i]? = some x → l'[i]? = some x' → weight' i x' ≤ weight i x) :
    total weight' l' ≤ total weight l := by
  unfold total
  rw [hLength]
  exact Finset.sum_le_sum (elim_le hLength hLe)

/-- No element has become heavier, and one has become lighter. -/
theorem total_lt (hLength : l'.length = l.length)
    (hLe : ∀ {i x x'}, l[i]? = some x → l'[i]? = some x' → weight' i x' ≤ weight i x)
    {i : Nat} {x x' : α} (hOld : l[i]? = some x) (hNew : l'[i]? = some x')
    (hLess : weight' i x' < weight i x) :
    total weight' l' < total weight l := by
  unfold total
  rw [hLength]
  apply Finset.sum_lt_sum (elim_le hLength hLe)
  refine ⟨i, Finset.mem_range.mpr (List.getElem?_eq_some_iff.mp hOld).1, ?_⟩
  rw [hOld, hNew]
  exact hLess

/-- No element has become heavier, and one has become lighter by `k`. -/
theorem sum_map_add_le {f g : α → Nat} {x : α} {k : Nat} (hLe : ∀ y ∈ l, f y ≤ g y) (hx : x ∈ l)
    (hLess : f x + k ≤ g x) : (l.map f).sum + k ≤ (l.map g).sum := by
  induction l with
  | nil => simp at hx
  | cons y l ih =>
      have hHead := hLe y List.mem_cons_self
      have hTail := fun z hz => hLe z (List.mem_cons_of_mem _ hz)
      simp only [List.map_cons, List.sum_cons]
      rcases List.mem_cons.mp hx with rfl | hx
      · have hRest : (l.map f).sum ≤ (l.map g).sum := List.sum_le_sum hTail
        omega
      · have hRest := ih hTail hx
        omega

end

end ResourceAgent.Verified.Potential
