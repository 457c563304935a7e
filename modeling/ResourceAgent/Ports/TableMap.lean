import ResourceAgent.Ports.Discovery
import ResourceAgent.Ports.Reservation
import ResourceAgent.Verified.FiniteMap

/-!
# The hash table refines a finite map

`Ports.HashTable` builds the invariants of a table into its type.  Here the
five pieces of code that change a table are written as the source has them,
on a `RawTable` of which nothing is known: `tablahash_insert` and
`tablahash_find` over `find_in_list`, `tablahash_remove` with its own walk, and
the two pointer-to-pointer walks of `release_client_by_fd` and
`check_nodes_timeouts`, which unlink nodes and count `numElems` down from
outside the module.

Each of them does to the memory of a well-formed table what the operation of
`Ports.HashTable` says (`raw_insert`, `raw_remove`, `raw_deleteWhere`), so a
sequence of them starting at `tablahash_create` never leaves the well-formed
tables, and `contents` takes it to the same sequence on an abstract finite map
(`contents_step`).  `table_refines_map` is the result for every lawful pair of
callbacks and for the four pairs of `hash.c`.
-/

namespace ResourceAgent.Ports.TableMap

open ResourceAgent.Ports.HashTable
open ResourceAgent.Ports.Records
open ResourceAgent.Ports.Reservation
open ResourceAgent.Ports.Discovery
open ResourceAgent.Verified.FiniteMap
open ResourceAgent.Verified.Runs

/-! ## Callbacks -/

/-- The `hash` and `comp` callbacks of a table, with nothing assumed. -/
structure Functions (α : Type) where
  hash : α → Nat
  comp : α → α → Int

/-- `comp == 0` is an equivalence, and equivalent data have equal hashes. -/
structure Lawful {α : Type} (fs : Functions α) : Prop where
  equivalence : Equivalence fun a b => fs.comp a b = 0
  hash_congr : ∀ a b, fs.comp a b = 0 → fs.hash a = fs.hash b

/-- C's `!b` as an `int`. -/
def negation (b : Bool) : Int := if b then 0 else 1

/-- `func_hash_node` and `comp_node`. -/
def nodeFunctions : Functions ReceivedNode where
  hash node := asUnsigned node.ip
  comp node1 node2 := negation (node1.ip == node2.ip)

/-- `func_hash_job` and `comp_job`; the sum of three `int`s wraps around. -/
def jobFunctions : Functions ReceivedJob where
  hash job := asUnsigned (job.id + job.ip + job.port)
  comp job1 job2 :=
    negation (job1.id == job2.id && job1.ip == job2.ip && job1.port == job2.port)

/-- `func_hash_fd` and `comp_fd`. -/
def fdFunctions : Functions FdJobEntry where
  hash e := asUnsigned e.fd
  comp a b := negation (a.fd == b.fd)

/-- `func_hash_localjob` and `comp_localjob`. -/
def localjobFunctions : Functions LocalJob where
  hash job := asUnsigned job.jobId
  comp a b := negation (a.jobId == b.jobId)

variable {α : Type}

/-- The callbacks of a well-formed table are these two functions. -/
structure Matches (fs : Functions α) (cb : Callbacks α) : Prop where
  hash : ∀ a, fs.hash a = cb.hash a
  comp : ∀ a b, fs.comp a b = 0 ↔ cb.same a b = true

theorem Matches.lawful {fs : Functions α} {cb : Callbacks α} (h : Matches fs cb) :
    Lawful fs where
  equivalence := by
    refine ⟨fun a => ?_, fun {a b} hab => ?_, fun {a b c} hab hbc => ?_⟩
    · exact (h.comp a a).mpr (cb.same_refl a)
    · rw [h.comp] at hab ⊢
      rw [cb.same_symm]
      exact hab
    · rw [h.comp] at hab hbc ⊢
      exact cb.same_trans a b c hab hbc
  hash_congr a b hab := by
    rw [h.hash, h.hash]
    exact cb.hash_congr a b ((h.comp a b).mp hab)

theorem negation_eq_zero {b : Bool} : negation b = 0 ↔ b = true := by
  cases b <;> decide

theorem nodeFunctions_matches : Matches nodeFunctions nodeCallbacks where
  hash _ := rfl
  comp a b := by simp [nodeFunctions, negation_eq_zero, nodeCallbacks, Callbacks.ofKey]

theorem jobFunctions_matches : Matches jobFunctions jobCallbacks where
  hash _ := rfl
  comp a b := by simp [jobFunctions, negation_eq_zero, and_assoc]

theorem fdFunctions_matches : Matches fdFunctions fdCallbacks where
  hash _ := rfl
  comp a b := by simp [fdFunctions, negation_eq_zero]

theorem localjobFunctions_matches : Matches localjobFunctions localjobCallbacks where
  hash _ := rfl
  comp a b := by simp [localjobFunctions, negation_eq_zero]

namespace Lawful

variable {fs : Functions α}

/-- The equivalence of the data. -/
def setoid (h : Lawful fs) : Setoid α := ⟨fun a b => fs.comp a b = 0, h.equivalence⟩

/-- Lawful functions as the callbacks of a well-formed table. -/
def callbacks (h : Lawful fs) : Callbacks α where
  hash := fs.hash
  same a b := decide (fs.comp a b = 0)
  same_refl a := by simpa using h.equivalence.refl a
  same_symm a b := by
    rw [decide_eq_decide]
    exact ⟨h.equivalence.symm, h.equivalence.symm⟩
  same_trans a b c := by
    simp only [decide_eq_true_eq]
    exact h.equivalence.trans
  hash_congr a b := by
    simp only [decide_eq_true_eq]
    exact h.hash_congr a b

theorem callbacks_matches (h : Lawful fs) : Matches fs h.callbacks where
  hash _ := rfl
  comp a b := by simp [callbacks]

end Lawful

/-! ## The code -/

/-- `struct _HashTable` as it lies in memory. -/
@[ext]
structure RawTable (α : Type) where
  elems : List (List α)
  numElems : Nat
  deriving DecidableEq, Repr

namespace RawTable

/-- `tablahash_create`. -/
def tablahashCreate : RawTable α := ⟨List.replicate hashSize [], 0⟩

/-- All stored data. -/
def data (t : RawTable α) : List α := t.elems.flatten

/-- `hash(data) % capacity`. -/
def idx (fs : Functions α) (t : RawTable α) (d : α) : Nat := fs.hash d % t.elems.length

/-- `elems[idx].list`. -/
def list (t : RawTable α) (i : Nat) : List α := t.elems[i]?.getD []

/-- `elems[idx].list = list`. -/
def setList (t : RawTable α) (i : Nat) (list : List α) : RawTable α :=
  { t with elems := t.elems.set i list }

end RawTable

/-- `find_in_list`: the position of the node it returns. -/
def findInList (fs : Functions α) (d : α) : List α → Option Nat
  | [] => none
  | e :: rest => if fs.comp e d = 0 then some 0 else (findInList fs d rest).map (· + 1)

/-- The loop of `tablahash_remove`: the list without the node it stops at. -/
def unlinkFirst (fs : Functions α) (d : α) : List α → Option (List α)
  | [] => none
  | current :: rest =>
      if fs.comp current d ≠ 0 then (unlinkFirst fs d rest).map (current :: ·)
      else some rest

/-- The loop `while (*pp != NULL)` over one bucket: unlink the selected nodes,
look at each of them, and count `numElems` down. -/
def walkList {β : Type} (select : α → Bool) (visit : β → α → β) :
    List α → β → Nat → List α × β × Nat
  | [], acc, numElems => ([], acc, numElems)
  | e :: rest, acc, numElems =>
      if select e then walkList select visit rest (visit acc e) (numElems - 1)
      else
        let walked := walkList select visit rest acc numElems
        (e :: walked.1, walked.2)

/-- The loop over all buckets around it. -/
def walkElems {β : Type} (select : α → Bool) (visit : β → α → β) :
    List (List α) → β → Nat → List (List α) × β × Nat
  | [], acc, numElems => ([], acc, numElems)
  | list :: elems, acc, numElems =>
      let here := walkList select visit list acc numElems
      let walked := walkElems select visit elems here.2.1 here.2.2
      (here.1 :: walked.1, walked.2)

namespace RawTable

/-- `tablahash_insert`. -/
def tablahashInsert (fs : Functions α) (t : RawTable α) (d : α) : RawTable α :=
  let i := t.idx fs d
  match findInList fs d (t.list i) with
  | some node => t.setList i ((t.list i).set node d)
  | none => { t.setList i (d :: t.list i) with numElems := t.numElems + 1 }

/-- `tablahash_find`. -/
def tablahashFind (fs : Functions α) (t : RawTable α) (d : α) : Option α :=
  let i := t.idx fs d
  match findInList fs d (t.list i) with
  | some node => (t.list i)[node]?
  | none => none

/-- `tablahash_remove`. -/
def tablahashRemove (fs : Functions α) (t : RawTable α) (d : α) : RawTable α :=
  let i := t.idx fs d
  match unlinkFirst fs d (t.list i) with
  | none => t
  | some rest => { t.setList i rest with numElems := t.numElems - 1 }

/-- A deletion walk: the table it leaves and what it has gathered. -/
def walk {β : Type} (select : α → Bool) (visit : β → α → β) (t : RawTable α) (acc : β) :
    RawTable α × β :=
  let walked := walkElems select visit t.elems acc t.numElems
  (⟨walked.1, walked.2.2⟩, walked.2.1)

end RawTable

/-- `found_any`, `add_cpu`, `add_mem` and `add_gpu`. -/
structure Collected where
  foundAny : Bool
  add : Resource → Int

/-- What `release_client_by_fd` does with a record before it unlinks it. -/
def Collected.visit (c : Collected) (job : ReceivedJob) : Collected where
  foundAny := true
  add r := c.add r + job.granted r

/-- The locked half of `release_client_by_fd`. -/
def collectByFd (t : RawTable ReceivedJob) (fd : Int) : RawTable ReceivedJob × Collected :=
  t.walk (fun job => decide (job.originalSocket = fd)) Collected.visit ⟨false, fun _ => 0⟩

/-- `check_nodes_timeouts`. -/
def expireNodes (t : RawTable ReceivedNode) (now : Int) : RawTable ReceivedNode :=
  (t.walk (fun node => decide (now - node.time ≥ nodeTimeoutSec)) (fun _ _ => ()) ()).1

/-- One operation on a table. -/
def step (fs : Functions α) (t : RawTable α) : Op α → RawTable α
  | .insert d => t.tablahashInsert fs d
  | .find _ => t
  | .remove d => t.tablahashRemove fs d
  | .deleteWhere p => (t.walk p (fun _ _ => ()) ()).1

/-! ## The code on well-formed tables -/

section

variable {fs : Functions α} {cb : Callbacks α}

/-- A well-formed table as it lies in memory. -/
def raw (t : Table cb) : RawTable α := ⟨t.elems, t.numElems⟩

@[simp] theorem data_raw (t : Table cb) : (raw t).data = t.toList := rfl

theorem walkList_eq {β : Type} (select : α → Bool) (visit : β → α → β) (list : List α) :
    ∀ (acc : β) (numElems : Nat), walkList select visit list acc numElems =
      (list.filter (!select ·), (list.filter select).foldl visit acc,
        numElems - list.countP select) := by
  induction list with
  | nil =>
      intro acc numElems
      rfl
  | cons e rest ih =>
      intro acc numElems
      rw [walkList]
      cases hSelect : select e with
      | true =>
          rw [if_pos rfl, ih]
          simp [hSelect, Nat.sub_sub, Nat.add_comm]
      | false =>
          rw [if_neg (by decide), ih]
          simp [hSelect]

theorem walkElems_eq {β : Type} (select : α → Bool) (visit : β → α → β)
    (elems : List (List α)) :
    ∀ (acc : β) (numElems : Nat), walkElems select visit elems acc numElems =
      (elems.map (List.filter (!select ·)), (elems.flatten.filter select).foldl visit acc,
        numElems - elems.flatten.countP select) := by
  induction elems with
  | nil =>
      intro acc numElems
      rfl
  | cons list elems ih =>
      intro acc numElems
      simp only [walkElems, walkList_eq, ih, List.map_cons, List.flatten_cons,
        List.filter_append, List.foldl_append, List.countP_append, Nat.sub_sub]

/-- A deletion walk on a well-formed table, whatever it gathers. -/
theorem raw_walk {β : Type} (t : Table cb) (select : α → Bool)
    (visit : β → α → β) (acc : β) :
    (raw t).walk select visit acc =
      (raw (removeWhere t select), (t.toList.filter select).foldl visit acc) := by
  rw [RawTable.walk, walkElems_eq]
  rfl

/-- The operations of `Ports.HashTable` behind an operation. -/
def tableStep (t : Table cb) : Op α → Table cb
  | .insert d => tablahashInsert t d
  | .find _ => t
  | .remove d => tablahashRemove t d
  | .deleteWhere p => removeWhere t p

variable (hFs : Matches fs cb)

include hFs

theorem list_raw (t : Table cb) (d : α) :
    (raw t).list ((raw t).idx fs d) = t.bucket d := by
  rw [RawTable.idx, hFs.hash]
  rfl

theorem setList_raw (t : Table cb) (d : α) (f : List α → List α) :
    ((raw t).setList ((raw t).idx fs d) (f (t.bucket d))).elems =
      t.elems.modify (t.index d) f := by
  have hLt := t.index_lt d
  have hGet : t.elems[t.index d]? = some (t.bucket d) := by
    simp [Table.bucket, List.getElem?_eq_getElem hLt]
  rw [List.modify_eq_set_getElem?, hGet, RawTable.idx, hFs.hash]
  rfl

theorem findInList_none {d : α} {list : List α} (h : findInList fs d list = none) :
    list.any (cb.same · d) = false ∧
      list.find? (cb.same · d) = none := by
  induction list with
  | nil => exact ⟨rfl, rfl⟩
  | cons e rest ih =>
      rw [findInList] at h
      split at h
      · cases h
      · rename_i hComp
        obtain ⟨hAny, hFind⟩ := ih (Option.map_eq_none_iff.mp h)
        have hSame : cb.same e d = false := by
          rw [← Bool.not_eq_true, ← hFs.comp]
          exact hComp
        exact ⟨by simp [hSame, hAny], by simp [hSame, hFind]⟩

/-- The node `find_in_list` stops at is the first equivalent one. -/
theorem findInList_some {d : α} {list : List α} :
    ∀ {node : Nat}, findInList fs d list = some node →
      list.any (cb.same · d) = true ∧
        list[node]? = list.find? (cb.same · d) ∧
        list.set node d = replaceFirst cb d list := by
  induction list with
  | nil =>
      intro node h
      cases h
  | cons e rest ih =>
      intro node h
      rw [findInList] at h
      split at h
      · rename_i hComp
        cases h
        have hSame : cb.same e d = true := (hFs.comp e d).mp hComp
        exact ⟨by simp [hSame], by simp [hSame], by simp [replaceFirst, hSame]⟩
      · rename_i hComp
        have hSame : cb.same e d = false := by
          rw [← Bool.not_eq_true, ← hFs.comp]
          exact hComp
        obtain ⟨next, hNext, rfl⟩ := Option.map_eq_some_iff.mp h
        obtain ⟨hAny, hGet, hSet⟩ := ih hNext
        exact ⟨by simp [hAny], by simp [hSame, hGet], by simp [replaceFirst, hSame, hSet]⟩

theorem unlinkFirst_eq (d : α) (list : List α) :
    unlinkFirst fs d list =
      if list.any (cb.same · d) then
        some (list.eraseP (cb.same · d)) else none := by
  induction list with
  | nil => rfl
  | cons e rest ih =>
      rw [unlinkFirst, ih]
      by_cases hComp : fs.comp e d = 0
      · have hSame : cb.same e d = true := (hFs.comp e d).mp hComp
        simp [hComp, hSame]
      · have hSame : cb.same e d = false := by
          rw [← Bool.not_eq_true, ← hFs.comp]
          exact hComp
        by_cases hAny : rest.any (cb.same · d) = true
        · simp [hComp, hSame, hAny]
        · simp [hComp, hSame, hAny]

/-- `tablahash_insert` on a well-formed table. -/
theorem raw_insert (t : Table cb) (d : α) :
    (raw t).tablahashInsert fs d = raw (tablahashInsert t d) := by
  rw [RawTable.tablahashInsert, list_raw hFs]
  cases hFind : findInList fs d (t.bucket d) with
  | some node =>
      obtain ⟨hAny, -, hSet⟩ := findInList_some hFs hFind
      have hBucket : (t.bucket d).set node d = insertBucket cb d (t.bucket d) := by
        rw [insertBucket, if_pos hAny, hSet]
      refine RawTable.ext ?_ (if_pos hAny).symm
      simp only [hBucket]
      exact setList_raw hFs t d (insertBucket cb d)
  | none =>
      obtain ⟨hAny, -⟩ := findInList_none hFs hFind
      have hBucket : d :: t.bucket d = insertBucket cb d (t.bucket d) := by
        rw [insertBucket, if_neg (by rw [hAny]; decide)]
      refine RawTable.ext ?_ (if_neg (by rw [hAny]; decide)).symm
      simp only [hBucket]
      exact setList_raw hFs t d (insertBucket cb d)

theorem raw_find (t : Table cb) (d : α) :
    (raw t).tablahashFind fs d = tablahashFind t d := by
  rw [RawTable.tablahashFind, list_raw hFs, tablahashFind]
  cases hFind : findInList fs d (t.bucket d) with
  | some node => exact (findInList_some hFs hFind).2.1
  | none => exact (findInList_none hFs hFind).2.symm

theorem raw_remove (t : Table cb) (d : α) :
    (raw t).tablahashRemove fs d = raw (tablahashRemove t d) := by
  rw [RawTable.tablahashRemove, list_raw hFs, unlinkFirst_eq hFs]
  have hElems := setList_raw hFs t d (List.eraseP (cb.same · d))
  cases hAny : (t.bucket d).any (cb.same · d) with
  | true => exact RawTable.ext hElems (if_pos hAny).symm
  | false =>
      -- nothing is equivalent, so the well-formed removal erases nothing either
      have hKeep : (t.bucket d).eraseP (cb.same · d) = id (t.bucket d) := by
        refine List.eraseP_of_forall_not ?_
        intro e he hSame
        exact List.any_eq_false.mp hAny e he hSame
      have hId := setList_raw hFs t d id
      rw [hKeep, hId, List.modify_id] at hElems
      exact RawTable.ext hElems (if_neg (by rw [hAny]; decide)).symm

theorem raw_step (t : Table cb) (op : Op α) :
    step fs (raw t) op = raw (tableStep t op) := by
  cases op with
  | insert d => exact raw_insert hFs t d
  | find d => rfl
  | remove d => exact raw_remove hFs t d
  | deleteWhere p => simp only [step, raw_walk, tableStep]

/-- Every sequence of operations stays among the well-formed tables. -/
theorem raw_run (ops : List (Op α)) :
    run (step fs) .tablahashCreate ops =
      raw (run tableStep (tablahashCreate cb) ops) := by
  induction ops using List.reverseRecOn with
  | nil => rfl
  | append_singleton ops op ih => rw [run_snoc, run_snoc, ih, raw_step hFs]

/-! ## The map behind a table -/

theorem find_some_iff {t : Table cb} {x d : α} :
    tablahashFind t x = some d ↔ d ∈ t.toList ∧ fs.comp d x = 0 := by
  rw [find_eq_some_iff, hFs.comp]

/-- A table as a finite map: what `tablahash_find` returns. -/
def contents (t : Table cb) : KeyedMap hFs.lawful.setoid where
  lookup x := tablahashFind t x
  congr a b hab := by
    refine Option.ext fun e => ?_
    rw [find_some_iff hFs, find_some_iff hFs]
    have hab' : fs.comp a b = 0 := hab
    constructor
    · intro ⟨he, hea⟩
      exact ⟨he, hFs.lawful.equivalence.trans hea hab'⟩
    · intro ⟨he, heb⟩
      exact ⟨he, hFs.lawful.equivalence.trans heb (hFs.lawful.equivalence.symm hab')⟩
  keyed a d h := ((find_some_iff hFs).mp h).2
  finite := by
    refine t.toList.finite_toSet.subset ?_
    intro d hd
    exact ((find_some_iff hFs).mp hd).1

theorem mem_iff_lookup {t : Table cb} {e : α} :
    e ∈ t.toList ↔ (contents hFs t).lookup e = some e := by
  show e ∈ t.toList ↔ tablahashFind t e = some e
  rw [find_some_iff hFs]
  exact ⟨fun h => ⟨h, hFs.lawful.equivalence.refl e⟩, fun h => h.1⟩

/-- **One operation.**  It does to the map behind the table what it says. -/
theorem contents_step (t : Table cb) (op : Op α) :
    contents hFs (tableStep t op) = (contents hFs t).apply op := by
  refine KeyedMap.ext (funext fun x => Option.ext fun e => ?_)
  show tablahashFind (tableStep t op) x = some e ↔ _
  rw [find_some_iff hFs]
  have hComp : ∀ {a b}, fs.comp a b = 0 → fs.comp b a = 0 := hFs.lawful.equivalence.symm
  have hTrans : ∀ {a b c}, fs.comp a b = 0 → fs.comp b c = 0 → fs.comp a c = 0 :=
    hFs.lawful.equivalence.trans
  have hNot : ∀ {a b}, cb.same a b = false ↔ ¬ fs.comp a b = 0 := by
    intro a b
    rw [hFs.comp, Bool.not_eq_true]
  cases op with
  | find d =>
      show e ∈ t.toList ∧ _ ↔ tablahashFind t x = some e
      rw [find_some_iff hFs]
  | insert d =>
      show e ∈ (tablahashInsert t d).toList ∧ _ ↔
        ((contents hFs t).insert d).lookup x = some e
      rw [KeyedMap.lookup_insert, mem_insert, hNot]
      show (_ ∨ _) ∧ _ ↔ fs.comp d x = 0 ∧ _ ∨ ¬ fs.comp d x = 0 ∧ tablahashFind t x = some e
      rw [find_some_iff hFs]
      constructor
      · intro ⟨hMem, hx⟩
        rcases hMem with rfl | ⟨hMem, hOther⟩
        · exact .inl ⟨hx, rfl⟩
        · exact .inr ⟨fun hd => hOther (hTrans hx (hComp hd)), hMem, hx⟩
      · intro h
        rcases h with ⟨hd, rfl⟩ | ⟨hd, hMem, hx⟩
        · exact ⟨.inl rfl, hd⟩
        · exact ⟨.inr ⟨hMem, fun h => hd (hTrans (hComp h) hx)⟩, hx⟩
  | remove d =>
      show e ∈ (tablahashRemove t d).toList ∧ _ ↔
        ((contents hFs t).remove d).lookup x = some e
      rw [KeyedMap.lookup_remove, mem_remove, hNot]
      show _ ↔ ¬ fs.comp d x = 0 ∧ tablahashFind t x = some e
      rw [find_some_iff hFs]
      constructor
      · intro ⟨⟨hMem, hOther⟩, hx⟩
        exact ⟨fun hd => hOther (hTrans hx (hComp hd)), hMem, hx⟩
      · intro ⟨hd, hMem, hx⟩
        exact ⟨⟨hMem, fun h => hd (hTrans (hComp h) hx)⟩, hx⟩
  | deleteWhere p =>
      show e ∈ (removeWhere t p).toList ∧ _ ↔
        ((contents hFs t).deleteWhere p).lookup x = some e
      rw [KeyedMap.lookup_deleteWhere, toList_removeWhere, List.mem_filter]
      show _ ↔ ¬ p e = true ∧ tablahashFind t x = some e
      rw [find_some_iff hFs]
      constructor
      · intro ⟨⟨hMem, hp⟩, hx⟩
        exact ⟨by simpa using hp, hMem, hx⟩
      · intro ⟨hp, hMem, hx⟩
        exact ⟨⟨hMem, by simpa using hp⟩, hx⟩

/-- **Every sequence.**  The map behind the table is the abstract map after
the same sequence. -/
theorem contents_run (ops : List (Op α)) :
    contents hFs (run tableStep (tablahashCreate cb) ops) =
      run KeyedMap.apply (KeyedMap.empty hFs.lawful.setoid) ops := by
  induction ops using List.reverseRecOn with
  | nil =>
      refine KeyedMap.ext (funext fun x => ?_)
      show tablahashFind (tablahashCreate cb) x = none
      rw [find_eq_none_iff]
      simp
  | append_singleton ops op ih => rw [run_snoc, run_snoc, contents_step, ih]

end

/-! ## The result -/

/-- Every datum lies in the bucket of its hash, no two are equivalent, and
`numElems` counts them. -/
structure WellFormed (fs : Functions α) (t : RawTable α) : Prop where
  placed : ∀ i list, t.elems[i]? = some list → ∀ d ∈ list, fs.hash d % t.elems.length = i
  distinct : t.data.Pairwise fun a b => fs.comp a b ≠ 0
  counted : t.numElems = t.data.length

theorem wellFormed_raw {fs : Functions α} {cb : Callbacks α} (hFs : Matches fs cb)
    (t : Table cb) : WellFormed fs (raw t) where
  placed i list hList d hd := by
    rw [hFs.hash]
    exact t.placed i list hList d hd
  distinct := by
    refine t.distinct.imp fun {a b} hab => ?_
    rw [ne_eq, hFs.comp, hab]
    decide
  counted := t.counted

/-- An operation leaves what it does not override. -/
theorem mem_step_iff {fs : Functions α} {cb : Callbacks α} (hFs : Matches fs cb)
    (t : Table cb) {op : Op α} {e : α} (hKept : ¬ op.Overrides hFs.lawful.setoid e) :
    e ∈ (tableStep t op).toList ↔ e ∈ t.toList := by
  have hSame : ∀ {d}, ¬ fs.comp d e = 0 → cb.same e d = false := by
    intro d hOther
    rw [cb.same_symm, ← Bool.not_eq_true, ← hFs.comp]
    exact hOther
  cases op with
  | find d => rfl
  | insert d =>
      have hNe : e ≠ d := by
        rintro rfl
        exact hKept (hFs.lawful.equivalence.refl e)
      rw [tableStep, mem_insert]
      simp [hNe, hSame hKept]
  | remove d =>
      rw [tableStep, mem_remove]
      simp [hSame hKept]
  | deleteWhere p =>
      have hOther : ¬ p e = true := hKept
      rw [tableStep, toList_removeWhere]
      simp [hOther]

/-- **The hash table refines a finite map.**  The four pairs of callbacks of
`hash.c` are lawful, and the deletions of `release_client_by_fd` and
`check_nodes_timeouts` are deletions of the records they select.  For every
lawful pair of callbacks and every sequence of operations on a new table:

* the table is well formed;
* `tablahash_find` is the lookup of the finite map after the same sequence:
  it returns the equivalent datum that was inserted last, if nothing has
  replaced or removed it since;
* these data are the stored ones, and the next operation leaves every datum
  that it neither replaces nor selects. -/
theorem table_refines_map :
    (Lawful nodeFunctions ∧ Lawful jobFunctions ∧ Lawful fdFunctions ∧
        Lawful localjobFunctions) ∧
      (∀ t fd, (collectByFd t fd).1 =
        step jobFunctions t (.deleteWhere fun job => decide (job.originalSocket = fd))) ∧
      (∀ t now, expireNodes t now = step nodeFunctions t
        (.deleteWhere fun node => decide (now - node.time ≥ nodeTimeoutSec))) ∧
      ∀ {α : Type} (fs : Functions α) (hLaw : Lawful fs) (ops : List (Op α)),
        WellFormed fs (run (step fs) .tablahashCreate ops) ∧
          (∀ x, (run (step fs) .tablahashCreate ops).tablahashFind fs x =
            (run KeyedMap.apply (KeyedMap.empty hLaw.setoid) ops).lookup x) ∧
          (∀ x d, (run (step fs) .tablahashCreate ops).tablahashFind fs x = some d ↔
            fs.comp d x = 0 ∧ LastInserted hLaw.setoid ops d) ∧
          (∀ e, e ∈ (run (step fs) .tablahashCreate ops).data ↔
            LastInserted hLaw.setoid ops e) ∧
          ∀ op e, ¬ op.Overrides hLaw.setoid e →
            (e ∈ (step fs (run (step fs) .tablahashCreate ops) op).data ↔
              e ∈ (run (step fs) .tablahashCreate ops).data) := by
  refine ⟨⟨nodeFunctions_matches.lawful, jobFunctions_matches.lawful,
    fdFunctions_matches.lawful, localjobFunctions_matches.lawful⟩, ?_, fun t now => rfl, ?_⟩
  · intro t fd
    simp only [collectByFd, step, RawTable.walk, walkElems_eq]
  · intro α fs hLaw ops
    have hFs := hLaw.callbacks_matches
    have hRun := raw_run hFs ops
    have hFind : ∀ x, (run (step fs) .tablahashCreate ops).tablahashFind fs x =
        (run KeyedMap.apply (KeyedMap.empty hLaw.setoid) ops).lookup x := by
      intro x
      rw [hRun, raw_find hFs, ← contents_run hFs]
      rfl
    refine ⟨?_, hFind, ?_, ?_, ?_⟩
    · rw [hRun]
      exact wellFormed_raw hFs _
    · intro x d
      rw [hFind, lookup_run]
      rfl
    · intro e
      rw [hRun, data_raw, mem_iff_lookup hFs, contents_run, lookup_run]
      exact ⟨fun h => h.2, fun h => ⟨hLaw.equivalence.refl e, h⟩⟩
    · intro op e hKept
      rw [hRun, raw_step hFs, data_raw, data_raw]
      exact mem_step_iff hFs _ hKept

/-- A record whose `id + ip + port` wraps around. -/
def wrappingJob (cpu : Int) : ReceivedJob := ⟨2147483647, 1, 0, cpu, 0, 0, 7⟩

/-- Another record with the same hash. -/
def collidingJob : ReceivedJob := ⟨-2147483648, 0, 0, 0, 0, 0, 8⟩

/-- Two records share a hash; the first is replaced and the second removed. -/
def collidingOps : List (Op ReceivedJob) :=
  [.insert (wrappingJob 1), .insert collidingJob, .insert (wrappingJob 2), .remove collidingJob]

/-- After these operations the replaced record is found under its key. -/
theorem table_refines_map_collision :
    jobFunctions.hash (wrappingJob 1) = jobFunctions.hash collidingJob ∧
      (run (step jobFunctions) .tablahashCreate collidingOps).tablahashFind jobFunctions
        (wrappingJob 0) = some (wrappingJob 2) := by
  refine ⟨by decide, ?_⟩
  obtain ⟨-, -, hFind, -⟩ :=
    table_refines_map.2.2.2 jobFunctions jobFunctions_matches.lawful collidingOps
  refine (hFind _ _).mpr ⟨by decide, [.insert (wrappingJob 1), .insert collidingJob],
    [.remove collidingJob], rfl, ?_⟩
  intro op hop
  rw [List.mem_singleton.mp hop]
  show ¬ jobFunctions.comp collidingJob (wrappingJob 2) = 0
  decide

end ResourceAgent.Ports.TableMap
