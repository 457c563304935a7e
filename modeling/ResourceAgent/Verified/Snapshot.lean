import Mathlib.Logic.Function.Basic

/-!
# Calls that look first and write later

A call on a shared state often takes two critical sections: it looks at the state in
one and writes what it computed from that in another.  Other calls may run in
between.  A `Scheme` gives the two halves; `Shared` is the state with the looks that
are still pending, one for each worker at most, and the calls in the order in which
they wrote.

`sequential` is the rule for such systems: if no write changes what a pending call has
looked at, the state is the one that the whole calls give, one after the other, in
the order of their writes.
-/

namespace ResourceAgent.Verified.Snapshot

/-- What a call looks at, and what it writes after having seen something. -/
structure Scheme (σ κ τ : Type) where
  look : κ → σ → τ
  write : κ → τ → σ → σ

namespace Scheme

variable {σ κ τ : Type} (sc : Scheme σ κ τ)

/-- A call without interruption. -/
def whole (s : σ) (c : κ) : σ := sc.write c (sc.look c s) s

end Scheme

structure Shared (W σ κ τ : Type) where
  memory : σ
  pending : W → Option (κ × τ)
  order : List κ

inductive Move (W κ : Type) where
  | look (w : W) (c : κ)
  | write (w : W)
  /-- a call in one critical section -/
  | once (c : κ)

section

variable {W σ κ τ : Type} [DecidableEq W] (sc : Scheme σ κ τ)

def Shared.start (s : σ) : Shared W σ κ τ := ⟨s, fun _ => none, []⟩

def move (m : Shared W σ κ τ) : Move W κ → Shared W σ κ τ
  | .look w c => { m with pending := Function.update m.pending w (some (c, sc.look c m.memory)) }
  | .write w =>
      match m.pending w with
      | none => m
      | some (c, seen) =>
          { memory := sc.write c seen m.memory
            pending := Function.update m.pending w none
            order := m.order ++ [c] }
  | .once c => { m with memory := sc.whole m.memory c, order := m.order ++ [c] }

/-- The new memory shows every other pending call what it has seen. -/
def Spares (m : Shared W σ κ τ) (w : Option W) (memory : σ) : Prop :=
  ∀ w', some w' ≠ w → ∀ c seen, m.pending w' = some (c, seen) →
    sc.look c memory = sc.look c m.memory

/-- A step that spares the pending calls. -/
def Sparing (m : Shared W σ κ τ) : Move W κ → Prop
  | .look _ _ => True
  | .write w => ∀ c seen, m.pending w = some (c, seen) →
      Spares sc m (some w) (sc.write c seen m.memory)
  | .once c => Spares sc m none (sc.whole m.memory c)

/-- Every pending call has seen what is there, and the memory is what the whole calls
give in the order of their writes. -/
structure Sequential (start : σ) (m : Shared W σ κ τ) : Prop where
  current : ∀ w c seen, m.pending w = some (c, seen) → seen = sc.look c m.memory
  memory : m.memory = m.order.foldl sc.whole start

variable {sc} {start : σ} {m : Shared W σ κ τ}

omit [DecidableEq W] in
theorem sequential_start (s : σ) : Sequential sc s (Shared.start (W := W) s) :=
  ⟨fun _ _ _ h => (by cases h), rfl⟩

/-- **Sequential rule.**  A step that spares the pending calls keeps the state that of the
whole calls in the order of their writes. -/
theorem Sequential.move (h : Sequential sc start m) {a : Move W κ} (hSparing : Sparing sc m a) :
    Sequential sc start (move sc m a) := by
  cases a with
  | look w c =>
      refine ⟨fun w' c' seen hPending => ?_, h.memory⟩
      by_cases hw : w' = w
      · simp only [Snapshot.move, hw, Function.update_self, Option.some.injEq,
          Prod.mk.injEq] at hPending
        rw [← hPending.1, ← hPending.2]
        rfl
      · simp only [Snapshot.move, Function.update_of_ne hw] at hPending
        exact h.current w' c' seen hPending
  | write w =>
      cases hw : m.pending w with
      | none =>
          simp only [Snapshot.move, hw]
          exact h
      | some x =>
          obtain ⟨c, seen⟩ := x
          have hSpares := hSparing c seen hw
          simp only [Snapshot.move, hw]
          refine ⟨fun w' c' seen' hPending => ?_, ?_⟩
          · by_cases hw' : w' = w
            · simp [hw'] at hPending
            · simp only [Function.update_of_ne hw'] at hPending
              rw [h.current w' c' seen' hPending]
              exact (hSpares w' (by simpa using hw') c' seen' hPending).symm
          · rw [List.foldl_append, ← h.memory, h.current w c seen hw]
            rfl
  | once c =>
      refine ⟨fun w' c' seen' hPending => ?_, ?_⟩
      · rw [h.current w' c' seen' hPending]
        exact (hSparing w' (by simp) c' seen' hPending).symm
      · simp only [Snapshot.move]
        rw [List.foldl_append, ← h.memory]
        rfl

end

end ResourceAgent.Verified.Snapshot
