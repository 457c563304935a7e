import Mathlib.Data.List.Basic
import Mathlib.Data.List.Perm.Basic
import Mathlib.Data.List.Pairwise

/-!
# The chained hash table of `ResourceManager/hashtable.c`

`struct _HashTable` is an array of bucket lists with an element count and
four callbacks.  `Callbacks` keeps the two that carry meaning, `hash` and
`comp`, together with the laws every instantiation in `hash.c` satisfies;
`copy` and `destr` only manage memory.

The table is modelled with its well-formedness inside the structure: a datum
lies in the bucket its hash selects, no two stored data are equivalent, and
`numElems` counts them.  A table that breaks one of these cannot be built, so
every operation below proves once that it keeps them, and later modules read
a table only through `toList`:

* `find_eq_some_iff`, `find_eq_none_iff` — what `tablahash_find` returns;
* `toList_insert_perm`, `toList_remove`, `toList_removeWhere`,
  `toList_update` — the effect of each mutation on the stored data.
-/

namespace ResourceAgent.Ports.HashTable

/-- The callbacks of a table.  `same a b` is the test `comp(a, b) == 0`. -/
structure Callbacks (α : Type) where
  hash : α → Nat
  same : α → α → Bool
  same_refl : ∀ a, same a a = true
  same_symm : ∀ a b, same a b = same b a
  same_trans : ∀ a b c, same a b = true → same b c = true → same a c = true
  hash_congr : ∀ a b, same a b = true → hash a = hash b

/-- Callbacks that compare a key and hash the same key.  All four tables of
`hash.c` are of this form. -/
def Callbacks.ofKey {α κ : Type} [DecidableEq κ] (key : α → κ) (h : κ → Nat) :
    Callbacks α where
  hash a := h (key a)
  same a b := decide (key a = key b)
  same_refl a := by simp
  same_symm a b := by simp [eq_comm]
  same_trans a b c := by
    simp only [decide_eq_true_eq]
    exact Eq.trans
  hash_congr a b := by
    simp only [decide_eq_true_eq]
    exact congrArg h

/-- `HASH_SIZE`. -/
def hashSize : Nat := 256

/-- `struct _HashTable`; `capacity` is the number of buckets. -/
structure Table {α : Type} (cb : Callbacks α) where
  elems : List (List α)
  numElems : Nat
  capacity_pos : 0 < elems.length
  placed : ∀ i bucket, elems[i]? = some bucket →
    ∀ d ∈ bucket, cb.hash d % elems.length = i
  distinct : elems.flatten.Pairwise fun a b => cb.same a b = false
  counted : numElems = elems.flatten.length

variable {α : Type} {cb : Callbacks α}

/-- Inequivalence is symmetric, so `distinct` does not depend on the order
of the stored data. -/
instance : Std.Symm fun x y => cb.same x y = false where
  symm x y h := by rw [cb.same_symm]; exact h

namespace Table

/-- The stored data, bucket by bucket, each bucket from its head. -/
def toList (t : Table cb) : List α := t.elems.flatten

/-- `table->hash(data) % table->capacity`. -/
def index (t : Table cb) (d : α) : Nat := cb.hash d % t.elems.length

theorem index_lt (t : Table cb) (d : α) : t.index d < t.elems.length :=
  Nat.mod_lt _ t.capacity_pos

/-- The bucket a datum hashes to. -/
def bucket (t : Table cb) (d : α) : List α := t.elems[t.index d]?.getD []

/-- The bucket of `d` cut out of the table.  Everything equivalent to `d` is
in the middle piece, because equivalent data have equal hashes. -/
theorem split (t : Table cb) (d : α) :
    ∃ before after, t.elems = before ++ t.bucket d :: after ∧
      before.length = t.index d ∧
      (∀ f, t.elems.modify (t.index d) f = before ++ f (t.bucket d) :: after) ∧
      (∀ e ∈ before.flatten ++ after.flatten, cb.same e d = false) := by
  have hLt := t.index_lt d
  have hGet : t.elems[t.index d]? = some (t.bucket d) := by
    simp [bucket, List.getElem?_eq_getElem hLt]
  have hElem : t.elems[t.index d] = t.bucket d := by
    rw [List.getElem?_eq_getElem hLt] at hGet
    exact Option.some.inj hGet
  have hCut : t.elems =
      t.elems.take (t.index d) ++ t.bucket d :: t.elems.drop (t.index d + 1) := by
    rw [← hElem, List.getElem_cons_drop, List.take_append_drop]
  refine ⟨t.elems.take (t.index d), t.elems.drop (t.index d + 1), hCut, ?_, ?_, ?_⟩
  · rw [List.length_take]
    omega
  · intro f
    rw [List.modify_eq_take_cons_drop hLt, hElem]
  · -- a datum of another bucket has another hash, so it is not equivalent
    intro e he
    by_contra hSame
    rw [Bool.not_eq_false] at hSame
    have hIdx : cb.hash e % t.elems.length = t.index d := by
      rw [cb.hash_congr e d hSame, index]
    rcases List.mem_append.mp he with he | he
    · obtain ⟨b, hb, heb⟩ := List.mem_flatten.mp he
      obtain ⟨i, hi, hib⟩ := List.mem_iff_getElem.mp hb
      rw [List.length_take] at hi
      have hPlace := t.placed i b (by
        rw [List.getElem_take] at hib
        rw [List.getElem?_eq_getElem (by omega), hib]) e heb
      omega
    · obtain ⟨b, hb, heb⟩ := List.mem_flatten.mp he
      obtain ⟨i, hi, hib⟩ := List.mem_iff_getElem.mp hb
      rw [List.length_drop] at hi
      have hPlace := t.placed (t.index d + 1 + i) b (by
        rw [List.getElem_drop] at hib
        rw [List.getElem?_eq_getElem (by omega), hib]) e heb
      omega

/-- Rebuilding one bucket keeps every datum where its hash says, as long as
the new bucket only holds data of that index. -/
private theorem placed_modify (t : Table cb) (d : α) (f : List α → List α)
    (hf : ∀ e ∈ f (t.bucket d), cb.hash e % t.elems.length = t.index d) :
    ∀ i b, (t.elems.modify (t.index d) f)[i]? = some b →
      ∀ e ∈ b, cb.hash e % (t.elems.modify (t.index d) f).length = i := by
  intro i b hb e he
  rw [List.length_modify]
  by_cases hi : t.index d = i
  · subst hi
    have hLt := t.index_lt d
    rw [List.getElem?_modify_eq, List.getElem?_eq_getElem hLt] at hb
    apply hf
    rw [bucket, List.getElem?_eq_getElem hLt, Option.getD_some]
    rw [← Option.some.inj hb] at he
    exact he
  · rw [List.getElem?_modify_ne f t.elems hi] at hb
    exact t.placed i b hb e he

end Table

/-! ## `tablahash_create` and `tablahash_find` -/

/-- `tablahash_create`: `HASH_SIZE` empty buckets. -/
def tablahashCreate (cb : Callbacks α) : Table cb where
  elems := List.replicate hashSize []
  numElems := 0
  capacity_pos := by
    rw [List.length_replicate]
    decide
  placed i bucket h d hd := by
    obtain ⟨hLt, hEq⟩ := List.getElem?_eq_some_iff.mp h
    rw [List.getElem_replicate] at hEq
    simp [← hEq] at hd
  distinct := by simp
  counted := by simp

/-- `find_in_list` on the bucket of `d`. -/
def tablahashFind (t : Table cb) (d : α) : Option α :=
  (t.bucket d).find? (cb.same · d)

@[simp] theorem toList_create : (tablahashCreate cb).toList = [] := by
  simp [Table.toList, tablahashCreate]

/-- Filtering out the equivalents of `d` only touches its bucket. -/
private theorem filter_split {d : α} {before after : List (List α)} {b : List α}
    (hOut : ∀ e ∈ before.flatten ++ after.flatten, cb.same e d = false) :
    (before ++ b :: after).flatten.filter (fun e => !cb.same e d) =
      before.flatten ++ (b.filter (fun e => !cb.same e d) ++ after.flatten) := by
  have hKeep : ∀ l : List α, (∀ e ∈ l, cb.same e d = false) →
      l.filter (fun e => !cb.same e d) = l := by
    intro l hl
    rw [List.filter_eq_self]
    intro e he
    simp [hl e he]
  simp only [List.flatten_append, List.flatten_cons, List.filter_append]
  rw [hKeep before.flatten fun e he => hOut e (List.mem_append_left _ he),
    hKeep after.flatten fun e he => hOut e (List.mem_append_right _ he)]

/-- What a bucket holds is stored in the table. -/
private theorem mem_toList_of_bucket {t : Table cb} {d e : α} (h : e ∈ t.bucket d) :
    e ∈ t.toList := by
  obtain ⟨before, after, hCut, -, -, -⟩ := t.split d
  rw [Table.toList, hCut]
  simp [h]

private theorem mem_bucket_of_same {t : Table cb} {d e : α} (he : e ∈ t.toList)
    (hSame : cb.same e d = true) : e ∈ t.bucket d := by
  obtain ⟨before, after, hCut, -, -, hOut⟩ := t.split d
  rw [Table.toList, hCut] at he
  simp only [List.flatten_append, List.flatten_cons, List.mem_append] at he
  have hNot : ¬ e ∈ before.flatten ++ after.flatten := fun hMem => by
    rw [hOut e hMem] at hSame
    exact Bool.false_ne_true hSame
  simp only [List.mem_append, not_or] at hNot
  tauto

/-- Two stored data that are equivalent are the same datum. -/
theorem Table.eq_of_same (t : Table cb) {a b : α} (ha : a ∈ t.toList)
    (hb : b ∈ t.toList) (hSame : cb.same a b = true) : a = b := by
  by_contra hNe
  have hFalse : cb.same a b = false := t.distinct.forall ha hb hNe
  rw [hFalse] at hSame
  exact Bool.false_ne_true hSame

/-- **`tablahash_find`, positive.**  It returns the stored datum equivalent to
its argument. -/
theorem find_eq_some_iff (t : Table cb) (d e : α) :
    tablahashFind t d = some e ↔ e ∈ t.toList ∧ cb.same e d = true := by
  constructor
  · intro h
    have hSame : cb.same e d = true := by
      simpa using List.find?_some (p := (cb.same · d)) h
    exact ⟨mem_toList_of_bucket (List.mem_of_find?_eq_some h), hSame⟩
  · rintro ⟨hMem, hSame⟩
    cases hFind : tablahashFind t d with
    | none =>
        have hNone := List.find?_eq_none.mp hFind e (mem_bucket_of_same hMem hSame)
        exact absurd hSame hNone
    | some x =>
        have hx : cb.same x d = true := by
          simpa using List.find?_some (p := (cb.same · d)) hFind
        have hxMem := mem_toList_of_bucket (List.mem_of_find?_eq_some hFind)
        rw [t.eq_of_same hxMem hMem
          (cb.same_trans x d e hx (by rw [cb.same_symm]; exact hSame))]

/-- **`tablahash_find`, negative.**  It returns `NULL` when nothing stored is
equivalent to its argument. -/
theorem find_eq_none_iff (t : Table cb) (d : α) :
    tablahashFind t d = none ↔ ∀ e ∈ t.toList, cb.same e d = false := by
  constructor
  · intro h e he
    by_contra hSame
    rw [Bool.not_eq_false] at hSame
    have := (find_eq_some_iff t d e).mpr ⟨he, hSame⟩
    rw [h] at this
    cases this
  · intro h
    cases hFind : tablahashFind t d with
    | none => rfl
    | some x =>
        obtain ⟨hMem, hSame⟩ := (find_eq_some_iff t d x).mp hFind
        rw [h x hMem] at hSame
        cases hSame

/-- `tablahash_find` only depends on the stored data equivalent to its argument. -/
theorem find_congr {t t' : Table cb} {d : α}
    (h : ∀ e, cb.same e d = true → (e ∈ t.toList ↔ e ∈ t'.toList)) :
    tablahashFind t d = tablahashFind t' d := by
  ext e
  rw [find_eq_some_iff, find_eq_some_iff]
  constructor
  · rintro ⟨hMem, hSame⟩
    exact ⟨(h e hSame).mp hMem, hSame⟩
  · rintro ⟨hMem, hSame⟩
    exact ⟨(h e hSame).mpr hMem, hSame⟩

/-- What is left besides the datum `tablahash_find` returned. -/
theorem toList_perm_of_find {t : Table cb} {d e : α} (h : tablahashFind t d = some e) :
    t.toList.Perm (e :: t.toList.filter fun x => !cb.same x d) := by
  classical
  obtain ⟨hMem, hSame⟩ := (find_eq_some_iff t d e).mp h
  have hOnly : t.toList.filter (fun x => cb.same x d) = [e] := by
    have hAll : ∀ x ∈ t.toList.filter (fun x => cb.same x d), x = e := by
      intro x hx
      obtain ⟨hxMem, hxSame⟩ := List.mem_filter.mp hx
      exact t.eq_of_same hxMem hMem
        (cb.same_trans x d e hxSame (by rw [cb.same_symm]; exact hSame))
    have hCount : (t.toList.filter (fun x => cb.same x d)).length = 1 := by
      rw [← List.countP_eq_length_filter]
      have hNodup : t.toList.Nodup := t.distinct.imp fun {a b} hab => by
        rintro rfl
        rw [cb.same_refl] at hab
        cases hab
      rw [List.countP_congr (q := (· == e)), ← List.count, hNodup.count, if_pos hMem]
      intro x hx
      simp only [beq_iff_eq]
      constructor
      · intro hxSame
        exact hAll x (List.mem_filter.mpr ⟨hx, hxSame⟩)
      · rintro rfl
        exact hSame
    match hList : t.toList.filter (fun x => cb.same x d), hCount with
    | [x], _ =>
        rw [hList] at hAll
        rw [hAll x (by simp)]
  have hSplit := List.filter_append_perm (fun x => cb.same x d) t.toList
  rw [hOnly] at hSplit
  exact hSplit.symm

/-- Nothing is dropped when nothing equivalent is stored. -/
theorem filter_eq_of_find_none {t : Table cb} {d : α} (h : tablahashFind t d = none) :
    t.toList.filter (fun x => !cb.same x d) = t.toList := by
  rw [List.filter_eq_self]
  intro e he
  simp [(find_eq_none_iff t d).mp h e he]

/-! ## `tablahash_insert` -/

/-- `existing->data = copy(data)` on the first equivalent node. -/
def replaceFirst (cb : Callbacks α) (d : α) : List α → List α
  | [] => []
  | e :: es => if cb.same e d then d :: es else e :: replaceFirst cb d es

/-- The new bucket: replace the datum that is there, or push a node. -/
def insertBucket (cb : Callbacks α) (d : α) (b : List α) : List α :=
  if b.any (cb.same · d) then replaceFirst cb d b else d :: b

private theorem replaceFirst_perm {d : α} {b : List α}
    (hDistinct : b.Pairwise fun x y => cb.same x y = false)
    (hAny : b.any (cb.same · d) = true) :
    (replaceFirst cb d b).Perm (d :: b.filter fun e => !cb.same e d) := by
  induction b with
  | nil => simp at hAny
  | cons e es ih =>
      obtain ⟨hHead, hTail⟩ := List.pairwise_cons.mp hDistinct
      by_cases hSame : cb.same e d = true
      · -- the rest of the bucket differs from `e`, hence from `d`
        have hKeep : es.filter (fun x => !cb.same x d) = es := by
          rw [List.filter_eq_self]
          intro x hx
          by_contra hEq
          simp only [Bool.not_eq_true', Bool.not_eq_false] at hEq
          have hChain := cb.same_trans e d x hSame (by rw [cb.same_symm]; exact hEq)
          rw [hHead x hx] at hChain
          cases hChain
        simp [replaceFirst, hSame, hKeep]
      · rw [Bool.not_eq_true] at hSame
        have hAny' : es.any (cb.same · d) = true := by simpa [hSame] using hAny
        simp only [replaceFirst, hSame, Bool.false_eq_true, if_false, List.filter_cons,
          Bool.not_false, if_true]
        exact ((ih hTail hAny').cons e).trans (List.Perm.swap _ _ _)

private theorem insertBucket_perm {d : α} {b : List α}
    (hDistinct : b.Pairwise fun x y => cb.same x y = false) :
    (insertBucket cb d b).Perm (d :: b.filter fun e => !cb.same e d) := by
  unfold insertBucket
  split
  · rename_i hAny
    exact replaceFirst_perm hDistinct hAny
  · rename_i hAny
    have hKeep : b.filter (fun e => !cb.same e d) = b := by
      rw [List.filter_eq_self]
      intro e he
      have := hAny
      simp only [List.any_eq_true, not_exists, not_and, Bool.not_eq_true] at this
      simp [this e he]
    rw [hKeep]

private theorem bucket_distinct (t : Table cb) (d : α) :
    (t.bucket d).Pairwise fun x y => cb.same x y = false := by
  obtain ⟨before, after, hCut, -, -, -⟩ := t.split d
  have h := t.distinct
  rw [hCut, List.flatten_append, List.flatten_cons] at h
  exact (List.pairwise_append.mp (List.pairwise_append.mp h).2.1).1

/-- The data after an insertion, before the new table is packed. -/
private theorem insert_flatten_perm (t : Table cb) (d : α) :
    (t.elems.modify (t.index d) (insertBucket cb d)).flatten.Perm
      (d :: t.toList.filter fun e => !cb.same e d) := by
  obtain ⟨before, after, hCut, -, hModify, hOut⟩ := t.split d
  rw [hModify, Table.toList, hCut, filter_split hOut]
  simp only [List.flatten_append, List.flatten_cons]
  calc before.flatten ++ (insertBucket cb d (t.bucket d) ++ after.flatten)
      |>.Perm (before.flatten ++
        (d :: (t.bucket d).filter (fun e => !cb.same e d) ++ after.flatten)) :=
        ((insertBucket_perm (bucket_distinct t d)).append_right _).append_left _
    _ |>.Perm (d :: (before.flatten ++
        ((t.bucket d).filter (fun e => !cb.same e d) ++ after.flatten))) :=
        List.perm_middle

private theorem distinct_cons_filter (t : Table cb) (d : α) :
    (d :: t.toList.filter fun e => !cb.same e d).Pairwise
      fun x y => cb.same x y = false := by
  rw [List.pairwise_cons]
  refine ⟨fun e he => ?_, t.distinct.filter _⟩
  have := (List.mem_filter.mp he).2
  rw [cb.same_symm]
  simpa using this

/-- Of pairwise inequivalent data at most one is equivalent to `d`. -/
private theorem countP_same {d : α} {l : List α}
    (hDistinct : l.Pairwise fun x y => cb.same x y = false) :
    l.countP (cb.same · d) = if l.any (cb.same · d) then 1 else 0 := by
  induction l with
  | nil => rfl
  | cons e es ih =>
      obtain ⟨hHead, hTail⟩ := List.pairwise_cons.mp hDistinct
      by_cases hSame : cb.same e d = true
      · have hZero : es.countP (cb.same · d) = 0 := by
          rw [List.countP_eq_zero]
          intro x hx hEq
          have hChain := cb.same_trans e d x hSame (by rw [cb.same_symm]; exact hEq)
          rw [hHead x hx] at hChain
          cases hChain
        simp [hSame, hZero]
      · simp [hSame, ih hTail]

/-- Searching the table and searching the bucket see the same data. -/
private theorem any_toList (t : Table cb) (d : α) :
    t.toList.any (cb.same · d) = (t.bucket d).any (cb.same · d) := by
  rw [Bool.eq_iff_iff, List.any_eq_true, List.any_eq_true]
  constructor
  · rintro ⟨e, he, hSame⟩
    exact ⟨e, mem_bucket_of_same he hSame, hSame⟩
  · rintro ⟨e, he, hSame⟩
    exact ⟨e, mem_toList_of_bucket he, hSame⟩

/-- How many data survive the removal of everything equivalent to `d`. -/
private theorem length_filter_same (t : Table cb) (d : α) :
    (t.toList.filter fun e => !cb.same e d).length +
        (if (t.bucket d).any (cb.same · d) then 1 else 0) = t.numElems := by
  have hCount : t.toList.countP (cb.same · d) =
      if t.toList.any (cb.same · d) then 1 else 0 := countP_same t.distinct
  have hSplit := t.toList.length_eq_countP_add_countP (cb.same · d)
  simp only [Bool.not_eq_true, Bool.decide_eq_false] at hSplit
  rw [← any_toList, ← hCount, t.counted, ← List.countP_eq_length_filter]
  rw [Table.toList] at hSplit ⊢
  omega

/-- `tablahash_insert`: replace the equivalent datum or push a new node. -/
def tablahashInsert (t : Table cb) (d : α) : Table cb where
  elems := t.elems.modify (t.index d) (insertBucket cb d)
  numElems := if (t.bucket d).any (cb.same · d) then t.numElems else t.numElems + 1
  capacity_pos := by simpa using t.capacity_pos
  placed := by
    refine Table.placed_modify t d _ fun e he => ?_
    rcases List.mem_cons.mp ((insertBucket_perm (bucket_distinct t d)).subset he) with rfl | he
    · rfl
    · have hLt := t.index_lt d
      refine t.placed (t.index d) (t.bucket d) ?_ e (List.mem_of_mem_filter he)
      simp [Table.bucket, List.getElem?_eq_getElem hLt]
  distinct := ((insert_flatten_perm t d).pairwise_iff fun h => symm_of _ h).mpr
    (distinct_cons_filter t d)
  counted := by
    rw [(insert_flatten_perm t d).length_eq, List.length_cons]
    have := length_filter_same t d
    split at this <;> rename_i hAny
    · rw [if_pos hAny]
      omega
    · rw [if_neg hAny]
      omega

/-- **`tablahash_insert`.**  The datum replaces whatever was equivalent to it
and nothing else changes. -/
theorem toList_insert_perm (t : Table cb) (d : α) :
    (tablahashInsert t d).toList.Perm (d :: t.toList.filter fun e => !cb.same e d) :=
  insert_flatten_perm t d

theorem mem_insert {t : Table cb} {d e : α} :
    e ∈ (tablahashInsert t d).toList ↔
      e = d ∨ (e ∈ t.toList ∧ cb.same e d = false) := by
  rw [(toList_insert_perm t d).mem_iff]
  simp

/-! ## `tablahash_remove` -/

/-- Unlinking the first equivalent node of a bucket of inequivalent data
removes all of them. -/
private theorem eraseP_eq_filter {d : α} {b : List α}
    (hDistinct : b.Pairwise fun x y => cb.same x y = false) :
    b.eraseP (cb.same · d) = b.filter fun e => !cb.same e d := by
  induction b with
  | nil => rfl
  | cons e es ih =>
      obtain ⟨hHead, hTail⟩ := List.pairwise_cons.mp hDistinct
      by_cases hSame : cb.same e d = true
      · have hKeep : es.filter (fun x => !cb.same x d) = es := by
          rw [List.filter_eq_self]
          intro x hx
          by_contra hEq
          simp only [Bool.not_eq_true', Bool.not_eq_false] at hEq
          have hChain := cb.same_trans e d x hSame (by rw [cb.same_symm]; exact hEq)
          rw [hHead x hx] at hChain
          cases hChain
        simp [hSame, hKeep]
      · simp [hSame, ih hTail]

private theorem remove_flatten (t : Table cb) (d : α) :
    (t.elems.modify (t.index d) (List.eraseP (cb.same · d))).flatten =
      t.toList.filter fun e => !cb.same e d := by
  obtain ⟨before, after, hCut, -, hModify, hOut⟩ := t.split d
  rw [hModify, Table.toList, hCut, filter_split hOut]
  simp only [List.flatten_append, List.flatten_cons, eraseP_eq_filter (bucket_distinct t d)]

/-- `tablahash_remove` (and `tablahash_remove_lock`): unlink the equivalent
node if there is one. -/
def tablahashRemove (t : Table cb) (d : α) : Table cb where
  elems := t.elems.modify (t.index d) (List.eraseP (cb.same · d))
  numElems := if (t.bucket d).any (cb.same · d) then t.numElems - 1 else t.numElems
  capacity_pos := by simpa using t.capacity_pos
  placed := by
    refine Table.placed_modify t d _ fun e he => ?_
    have hLt := t.index_lt d
    refine t.placed (t.index d) (t.bucket d) ?_ e (List.mem_of_mem_eraseP he)
    simp [Table.bucket, List.getElem?_eq_getElem hLt]
  distinct := by
    rw [remove_flatten]
    exact t.distinct.filter _
  counted := by
    rw [remove_flatten]
    have := length_filter_same t d
    split at this <;> rename_i hAny
    · rw [if_pos hAny]
      omega
    · rw [if_neg hAny]
      omega

/-- **`tablahash_remove`.**  The equivalent datum leaves; the others stay in
their order. -/
@[simp] theorem toList_remove (t : Table cb) (d : α) :
    (tablahashRemove t d).toList = t.toList.filter fun e => !cb.same e d :=
  remove_flatten t d

theorem mem_remove {t : Table cb} {d e : α} :
    e ∈ (tablahashRemove t d).toList ↔ e ∈ t.toList ∧ cb.same e d = false := by
  simp

/-! ## Walks over every bucket -/

/-- The pointer-to-pointer walk of `release_client_by_fd` and
`check_nodes_timeouts`: unlink every node whose datum satisfies `p`,
decrementing `numElems` each time. -/
def removeWhere (t : Table cb) (p : α → Bool) : Table cb where
  elems := t.elems.map (List.filter (!p ·))
  numElems := t.numElems - t.toList.countP p
  capacity_pos := by simpa using t.capacity_pos
  placed i b hb e he := by
    rw [List.getElem?_map, Option.map_eq_some_iff] at hb
    obtain ⟨b', hb', rfl⟩ := hb
    rw [List.length_map]
    exact t.placed i b' hb' e (List.mem_of_mem_filter he)
  distinct := by
    rw [← List.filter_flatten]
    exact t.distinct.filter _
  counted := by
    rw [← List.filter_flatten, ← List.countP_eq_length_filter, t.counted]
    have := t.elems.flatten.length_eq_countP_add_countP p
    simp only [Bool.not_eq_true, Bool.decide_eq_false] at this
    rw [Table.toList]
    omega

@[simp] theorem toList_removeWhere (t : Table cb) (p : α → Bool) :
    (removeWhere t p).toList = t.toList.filter (!p ·) :=
  (List.filter_flatten).symm

/-- A walk that selects nothing changes nothing. -/
theorem removeWhere_eq_self {t : Table cb} {p : α → Bool} (h : ∀ d ∈ t.toList, p d = false) :
    removeWhere t p = t := by
  have hElems : t.elems.map (List.filter (!p ·)) = t.elems := by
    rw [List.map_congr_left (g := id), List.map_id]
    intro b hb
    rw [id_eq, List.filter_eq_self]
    intro d hd
    rw [h d (List.mem_flatten.mpr ⟨b, hb, hd⟩)]
    rfl
  have hCount : t.toList.countP p = 0 := by
    rw [List.countP_eq_zero]
    intro d hd
    rw [h d hd]
    decide
  cases t
  simp only [removeWhere, Table.mk.injEq]
  exact ⟨hElems, by rw [hCount, Nat.sub_zero]⟩

/-- Writing through a pointer into stored data: every datum satisfying `p` is
rewritten by `f`, which must not change what the datum is equivalent to. -/
def update (t : Table cb) (p : α → Bool) (f : α → α)
    (hf : ∀ d, cb.same (f d) d = true) : Table cb where
  elems := t.elems.map (List.map fun d => if p d then f d else d)
  numElems := t.numElems
  capacity_pos := by simpa using t.capacity_pos
  placed i b hb e he := by
    rw [List.getElem?_map, Option.map_eq_some_iff] at hb
    obtain ⟨b', hb', rfl⟩ := hb
    obtain ⟨d, hd, rfl⟩ := List.mem_map.mp he
    rw [List.length_map]
    have hHash : cb.hash (if p d then f d else d) = cb.hash d := by
      split
      · exact cb.hash_congr _ _ (hf d)
      · rfl
    rw [hHash]
    exact t.placed i b' hb' d hd
  distinct := by
    rw [← List.map_flatten, List.pairwise_map]
    have hSame : ∀ d, cb.same (if p d then f d else d) d = true := by
      intro d
      split
      · exact hf d
      · exact cb.same_refl d
    refine t.distinct.imp fun {a b} hab => ?_
    by_contra hEq
    rw [Bool.not_eq_false] at hEq
    have hLeft := cb.same_trans _ _ _ (by rw [cb.same_symm]; exact hSame a) hEq
    rw [cb.same_trans _ _ _ hLeft (hSame b)] at hab
    cases hab
  counted := by
    rw [← List.map_flatten, List.length_map]
    exact t.counted

@[simp] theorem toList_update (t : Table cb) (p : α → Bool) (f : α → α)
    (hf : ∀ d, cb.same (f d) d = true) :
    (update t p f hf).toList = t.toList.map fun d => if p d then f d else d :=
  (List.map_flatten).symm

end ResourceAgent.Ports.HashTable
