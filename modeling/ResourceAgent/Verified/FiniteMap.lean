import Mathlib.Data.Set.Finite.Basic
import ResourceAgent.Verified.Runs

/-!
# Finite maps keyed by an equivalence

A container whose data are compared by an equivalence, not by equality, is a
finite map from classes to representatives.  `KeyedMap` is that map in its own
terms: a lookup that does not tell equivalent arguments apart, returns only
data equivalent to its argument, and is defined on finitely many classes.

The commands of such a container are `Op`s.  What a lookup returns after a
history of commands is said without the map by `lookup_run`: the datum that
was inserted last under the class, if nothing has overridden it since.
-/

namespace ResourceAgent.Verified.FiniteMap

open ResourceAgent.Verified.Runs

/-- A command on a container. -/
inductive Op (α : Type _) where
  | insert (d : α)
  | find (d : α)
  | remove (d : α)
  /-- delete every datum that satisfies the test -/
  | deleteWhere (p : α → Bool)

variable {α : Type _}

/-- The command takes the place of `d`, or removes it. -/
def Op.Overrides (s : Setoid α) (op : Op α) (d : α) : Prop :=
  match op with
  | .insert e => s.r e d
  | .find _ => False
  | .remove e => s.r e d
  | .deleteWhere p => p d = true

/-- A finite map from the classes of `s` to data of those classes. -/
@[ext]
structure KeyedMap (s : Setoid α) where
  lookup : α → Option α
  congr : ∀ a b, s.r a b → lookup a = lookup b
  keyed : ∀ a d, lookup a = some d → s.r d a
  finite : {d | lookup d = some d}.Finite

namespace KeyedMap

variable {s : Setoid α}

/-- The map with no entry. -/
def empty (s : Setoid α) : KeyedMap s where
  lookup _ := none
  congr _ _ _ := rfl
  keyed a d h := by cases h
  finite := by simp

open Classical in
/-- Make `d` the entry of its class. -/
noncomputable def insert (m : KeyedMap s) (d : α) : KeyedMap s where
  lookup x := if s.r d x then some d else m.lookup x
  congr a b hab := by
    have hIff : s.r d a ↔ s.r d b :=
      ⟨fun h => s.iseqv.trans h hab, fun h => s.iseqv.trans h (s.iseqv.symm hab)⟩
    have hSame := m.congr a b hab
    simp only [hIff, hSame]
  keyed a e h := by
    split at h
    · rename_i hd
      cases h
      exact hd
    · exact m.keyed a e h
  finite := by
    refine (m.finite.insert d).subset ?_
    intro e he
    simp only [Set.mem_ofPred_eq] at he
    split at he
    · cases he
      exact Set.mem_insert d _
    · exact Set.mem_insert_of_mem d he

open Classical in
/-- Drop the entry of the class of `d`. -/
noncomputable def remove (m : KeyedMap s) (d : α) : KeyedMap s where
  lookup x := if s.r d x then none else m.lookup x
  congr a b hab := by
    have hIff : s.r d a ↔ s.r d b :=
      ⟨fun h => s.iseqv.trans h hab, fun h => s.iseqv.trans h (s.iseqv.symm hab)⟩
    have hSame := m.congr a b hab
    simp only [hIff, hSame]
  keyed a e h := by
    split at h
    · cases h
    · exact m.keyed a e h
  finite := by
    refine m.finite.subset ?_
    intro e he
    simp only [Set.mem_ofPred_eq] at he
    split at he
    · cases he
    · exact he

/-- Drop every entry that satisfies the test. -/
def deleteWhere (m : KeyedMap s) (p : α → Bool) : KeyedMap s where
  lookup x := (m.lookup x).filter (!p ·)
  congr a b hab := by rw [m.congr a b hab]
  keyed a e h := m.keyed a e (Option.filter_eq_some_iff.mp h).1
  finite := m.finite.subset fun _ he => (Option.filter_eq_some_iff.mp he).1

theorem lookup_insert {m : KeyedMap s} {d x e : α} :
    (m.insert d).lookup x = some e ↔
      (s.r d x ∧ d = e) ∨ (¬ s.r d x ∧ m.lookup x = some e) := by
  by_cases hd : s.r d x
  · simp [insert, hd]
  · simp [insert, hd]

theorem lookup_remove {m : KeyedMap s} {d x e : α} :
    (m.remove d).lookup x = some e ↔ ¬ s.r d x ∧ m.lookup x = some e := by
  by_cases hd : s.r d x
  · simp [remove, hd]
  · simp [remove, hd]

theorem lookup_deleteWhere {m : KeyedMap s} {p : α → Bool} {x e : α} :
    (m.deleteWhere p).lookup x = some e ↔ ¬ p e = true ∧ m.lookup x = some e := by
  simp [deleteWhere, Option.filter_eq_some_iff, and_comm]

/-- Run one command. -/
noncomputable def apply (m : KeyedMap s) : Op α → KeyedMap s
  | .insert d => m.insert d
  | .find _ => m
  | .remove d => m.remove d
  | .deleteWhere p => m.deleteWhere p

end KeyedMap

/-- `d` was inserted and nothing has overridden it since. -/
def LastInserted (s : Setoid α) (ops : List (Op α)) (d : α) : Prop :=
  ∃ before after, ops = before ++ .insert d :: after ∧ ∀ op ∈ after, ¬ op.Overrides s d

theorem lastInserted_snoc {s : Setoid α} {ops : List (Op α)} {op : Op α} {d : α} :
    LastInserted s (ops ++ [op]) d ↔
      op = .insert d ∨ (¬ op.Overrides s d ∧ LastInserted s ops d) := by
  constructor
  · intro ⟨before, after, hCut, hKept⟩
    rcases List.eq_nil_or_concat after with rfl | ⟨after', last, rfl⟩
    · have hLast := (List.append_inj' hCut rfl).2
      exact .inl (by simpa using hLast)
    · rw [List.concat_eq_append] at hCut hKept
      rw [← List.cons_append, ← List.append_assoc] at hCut
      obtain ⟨hInit, hLast⟩ := List.append_inj' hCut rfl
      obtain rfl : op = last := by simpa using hLast
      refine .inr ⟨hKept op (by simp), before, after', hInit, ?_⟩
      intro op' hop'
      exact hKept op' (by simp [hop'])
  · intro h
    rcases h with rfl | ⟨hKept, before, after, rfl, hAfter⟩
    · exact ⟨ops, [], rfl, by simp⟩
    · refine ⟨before, after ++ [op], by simp, ?_⟩
      intro op' hop'
      rcases List.mem_append.mp hop' with h | h
      · exact hAfter op' h
      · rw [List.mem_singleton.mp h]
        exact hKept

/-- **The map after a history.**  A lookup returns the datum of the class that
was inserted last, if it has not been overridden since, and nothing otherwise. -/
theorem lookup_run (s : Setoid α) (ops : List (Op α)) (x d : α) :
    (run KeyedMap.apply (KeyedMap.empty s) ops).lookup x = some d ↔
      s.r d x ∧ LastInserted s ops d := by
  induction ops using List.reverseRecOn with
  | nil => simp [KeyedMap.empty, LastInserted]
  | append_singleton ops op ih =>
      rw [run_snoc, lastInserted_snoc]
      cases op with
      | find e => simp [KeyedMap.apply, Op.Overrides, ih]
      | insert e =>
          show ((run KeyedMap.apply (KeyedMap.empty s) ops).insert e).lookup x = some d ↔ _
          rw [KeyedMap.lookup_insert, ih, Op.insert.injEq]
          constructor
          · intro h
            rcases h with ⟨he, rfl⟩ | ⟨he, hd, hLast⟩
            · exact ⟨he, .inl rfl⟩
            · exact ⟨hd, .inr ⟨fun h => he (s.iseqv.trans h hd), hLast⟩⟩
          · intro ⟨hd, hOr⟩
            rcases hOr with rfl | ⟨hNot, hLast⟩
            · exact .inl ⟨hd, rfl⟩
            · exact .inr ⟨fun he => hNot (s.iseqv.trans he (s.iseqv.symm hd)), hd, hLast⟩
      | remove e =>
          show ((run KeyedMap.apply (KeyedMap.empty s) ops).remove e).lookup x = some d ↔ _
          rw [KeyedMap.lookup_remove, ih]
          constructor
          · intro ⟨he, hd, hLast⟩
            exact ⟨hd, .inr ⟨fun h => he (s.iseqv.trans h hd), hLast⟩⟩
          · intro ⟨hd, hOr⟩
            rcases hOr with hCase | ⟨hNot, hLast⟩
            · cases hCase
            · exact ⟨fun he => hNot (s.iseqv.trans he (s.iseqv.symm hd)), hd, hLast⟩
      | deleteWhere p =>
          show ((run KeyedMap.apply (KeyedMap.empty s) ops).deleteWhere p).lookup x = some d ↔ _
          rw [KeyedMap.lookup_deleteWhere, ih]
          constructor
          · intro ⟨hp, hd, hLast⟩
            exact ⟨hd, .inr ⟨hp, hLast⟩⟩
          · intro ⟨hd, hOr⟩
            rcases hOr with hCase | ⟨hp, hLast⟩
            · cases hCase
            · exact ⟨hp, hd, hLast⟩

end ResourceAgent.Verified.FiniteMap
