import Mathlib.Data.Set.Basic

/-!
# Ordered acquisition excludes deadlock

Jobs wait for pools and hold units of pools; pools carry a rank, and ranks are
bounded.  A deadlock is a nonempty set of jobs that wait only for pools whose
holders are all in the set.

Two facts exclude it: a pool is waited for only while somebody holds units of
it, and a job holds only pools that rank below the one it waits for.  From a
waiting job one gets to a holder of what it waits for, which in a deadlock waits
in turn, for a pool of higher rank; this cannot go on.
-/

namespace ResourceAgent.Verified.RankedWait

variable {J P : Type*} {waits holds : J → P → Prop}

/-- A set of jobs each of which waits for a pool held by jobs of the set only. -/
def Deadlocked (waits holds : J → P → Prop) (D : Set J) : Prop :=
  ∀ j ∈ D, ∃ p, waits j p ∧ ∀ k, holds k p → k ∈ D

/-- From a deadlocked job, jobs waiting for pools of ever higher rank are
reached. -/
theorem Deadlocked.climb {D : Set J} (h : Deadlocked waits holds D) {rank : P → Nat}
    (hHeld : ∀ j p, waits j p → ∃ k, holds k p)
    (hOrder : ∀ j p q, holds j p → waits j q → rank p < rank q) {j : J} (hj : j ∈ D) (n : Nat) :
    ∃ k p, waits k p ∧ (∀ l, holds l p → l ∈ D) ∧ n ≤ rank p := by
  induction n with
  | zero =>
      obtain ⟨p, hWait, hInside⟩ := h j hj
      exact ⟨j, p, hWait, hInside, Nat.zero_le _⟩
  | succ n ih =>
      obtain ⟨k, p, hWait, hInside, hRank⟩ := ih
      obtain ⟨l, hHolds⟩ := hHeld k p hWait
      obtain ⟨q, hWait', hInside'⟩ := h l (hInside l hHolds)
      have hLt := hOrder l p q hHolds hWait'
      exact ⟨l, q, hWait', hInside', by omega⟩

/-- **Ordered acquisition.**  With bounded ranks, only the empty set is
deadlocked. -/
theorem Deadlocked.eq_empty {D : Set J} (h : Deadlocked waits holds D) (rank : P → Nat)
    (bound : Nat) (hHeld : ∀ j p, waits j p → ∃ k, holds k p)
    (hOrder : ∀ j p q, holds j p → waits j q → rank p < rank q)
    (hBound : ∀ p, rank p < bound) : D = ∅ := by
  rw [Set.eq_empty_iff_forall_notMem]
  intro j hj
  obtain ⟨k, p, -, -, hRank⟩ := h.climb hHeld hOrder hj bound
  have := hBound p
  omega

end ResourceAgent.Verified.RankedWait
