import Mathlib.Algebra.BigOperators.Group.List.Basic
import ResourceAgent.Ports.Discovery
import ResourceAgent.Verified.CBuffer

/-!
# The NODES reply in its buffer

`get_nodes_instance` prints into 8192 bytes.  Every `snprintf` is guarded by an
offset that grows by the length the text would have had, so once a record has
been cut the offset is past the end and nothing more is written.
`writeNodes` is the function on the bytes themselves, with no result if a write
leaves the buffer: it always has one, and what it leaves in the buffer is the
text of `getNodesInstance` (`getNodesBuffer_eq`).

The newline has its own guard, `offset < buffer_size - 1`.  So the reply is
well formed if and only if it fits with its newline (`wellFormed_iff_fits`): a
larger table gives a reply without one, the end of which may be half a record.
-/

namespace ResourceAgent.Ports.NodesReply

open ResourceAgent.Ports.HashTable
open ResourceAgent.Ports.Records
open ResourceAgent.Ports.Client
open ResourceAgent.Ports.Discovery
open ResourceAgent.Verified.CText
open ResourceAgent.Verified.CBuffer
open ResourceAgent.Verified.ErlangText

/-! ## The function on its buffer -/

/-- One guarded `offset += snprintf(result + offset, buffer_size - offset, ..)`. -/
def writePiece (size : Nat) (st : Text × Nat) (piece : Text) : Option (Text × Nat) :=
  if st.2 < size then
    (snprintf st.1 st.2 (size - st.2) piece).map fun mem => (mem, st.2 + piece.length)
  else some st

/-- The loops over buckets and nodes. -/
def writeNodes (size : Nat) : Bool → List ReceivedNode → Text × Nat → Option (Text × Nat)
  | _, [], st => some st
  | first, node :: rest, st =>
      (if first then some st else writePiece size st ";".toList).bind fun separated =>
        (writePiece size separated (nodeText node)).bind (writeNodes size false rest)

/-- `get_nodes_instance()` on the bytes `malloc` returned. -/
def getNodesBuffer (mem : Text) (nodes : Table nodeCallbacks) : Option Text :=
  (writePiece 8192 (mem, 0) "NODES ".toList).bind fun begun =>
    (writeNodes 8192 true nodes.toList begun).bind fun st =>
      if st.2 < 8191 then snprintf st.1 st.2 (8192 - st.2) "\n".toList else some st.1

/-- The buffer and the text of `getNodesInstance` at the same point. -/
structure Written (size : Nat) (st result : Text × Nat) : Prop where
  length : st.1.length = size
  offset : st.2 = result.2
  holds : Holds st.1 result.1
  whole : result.2 < size → result.1.length = result.2

/-- One piece: the write is inside the buffer and says what `appendAt` says. -/
theorem writePiece_written {size : Nat} {st result : Text × Nat} (h : Written size st result)
    {piece : Text} (hPiece : '\x00' ∉ piece) :
    ∃ st', writePiece size st piece = some st' ∧ Written size st' (appendAt size result piece) := by
  by_cases hInside : result.2 < size
  · have hWhole := h.whole hInside
    have hTake : st.1.take st.2 = result.1 := by
      have hStart := congrArg (List.take result.1.length) h.holds.start
      rw [List.take_take, Nat.min_eq_left (Nat.le_succ _), List.take_left] at hStart
      rw [h.offset, ← hWhole]
      exact hStart
    have hPos : st.2 < st.1.length := by
      rw [h.length, h.offset]
      exact hInside
    obtain ⟨mem, hPrint, hLen, hHolds⟩ := snprintf_holds hPos hTake h.holds.nul hPiece
    rw [h.length] at hPrint hHolds hLen
    refine ⟨(mem, st.2 + piece.length), ?_, ?_⟩
    · rw [writePiece, if_pos (by rw [h.offset]; exact hInside), hPrint, Option.map_some]
    · rw [appendAt, if_pos hInside]
      rw [h.offset] at hHolds
      refine ⟨hLen, by simp [h.offset], hHolds, fun hFits => ?_⟩
      simp only [List.length_append, List.length_take] at hFits ⊢
      omega
  · refine ⟨st, ?_, ?_⟩
    · rw [writePiece, if_neg (by rw [h.offset]; exact hInside)]
    · rw [appendAt, if_neg hInside]
      exact h

theorem nul_not_mem_nodeText (node : ReceivedNode) : '\x00' ∉ nodeText node := by
  intro h
  simp only [nodeText, List.mem_append] at h
  rcases h with (((((((h | h) | h) | h) | h) | h) | h) | h) | h
  · rcases mem_inetNtop h with h | h
    · exact absurd h (by decide)
    · exact absurd h (by decide)
  · exact absurd h (by decide)
  · exact Wire.nul_not_mem_itoa _ h
  · exact absurd h (by decide)
  · exact Wire.nul_not_mem_itoa _ h
  · exact absurd h (by decide)
  · exact Wire.nul_not_mem_itoa _ h
  · exact absurd h (by decide)
  · exact Wire.nul_not_mem_itoa _ h

theorem writeNodes_written {size : Nat} (nodes : List ReceivedNode) :
    ∀ (first : Bool) {st result : Text × Nat}, Written size st result →
      ∃ st', writeNodes size first nodes st = some st' ∧
        Written size st' (appendNodes size first nodes result) := by
  induction nodes with
  | nil =>
      intro first st result h
      exact ⟨st, rfl, h⟩
  | cons node rest ih =>
      intro first st result h
      obtain ⟨separated, hSep, hSepWritten⟩ : ∃ separated,
          (if first then some st else writePiece size st ";".toList) = some separated ∧
            Written size separated
              (if first then result else appendAt size result ";".toList) := by
        cases first with
        | true => exact ⟨st, rfl, h⟩
        | false => exact writePiece_written h (by decide)
      obtain ⟨st', hNode, hNodeWritten⟩ :=
        writePiece_written hSepWritten (nul_not_mem_nodeText node)
      obtain ⟨last, hRest, hLast⟩ := ih false hNodeWritten
      refine ⟨last, ?_, hLast⟩
      rw [writeNodes, hSep, Option.bind_some, hNode, Option.bind_some, hRest]

/-- **Every write is inside the buffer**, and the string left in it is the
reply. -/
theorem getNodesBuffer_eq {mem : Text} (hMem : mem.length = 8192) (nodes : Table nodeCallbacks) :
    ∃ mem', getNodesBuffer mem nodes = some mem' ∧ mem'.length = 8192 ∧
      cString mem' = getNodesInstance nodes := by
  obtain ⟨mem₁, hPrint, hLen₁, hHolds₁⟩ :=
    @snprintf_holds mem [] "NODES ".toList 0 (by omega) rfl (by decide) (by decide)
  rw [hMem] at hPrint hLen₁ hHolds₁
  have hBegun : writePiece 8192 (mem, 0) "NODES ".toList = some (mem₁, 6) := by
    rw [writePiece, if_pos (show 0 < 8192 by decide), hPrint]
    rfl
  have hStart : Written 8192 (mem₁, 6) (appendAt 8192 ([], 0) "NODES ".toList) :=
    ⟨hLen₁, rfl, hHolds₁, fun _ => rfl⟩
  obtain ⟨st, hLoop, hWritten⟩ := writeNodes_written nodes.toList true hStart
  rw [getNodesBuffer, hBegun, Option.bind_some, hLoop, Option.bind_some, getNodesInstance]
  rw [hWritten.offset]
  by_cases hRoom : (appendNodes 8192 true nodes.toList
      (appendAt 8192 ([], 0) "NODES ".toList)).2 < 8191
  · obtain ⟨last, hLast, hDone⟩ := writePiece_written hWritten
      (show '\x00' ∉ "\n".toList by decide)
    rw [writePiece, hWritten.offset, if_pos (by omega), Option.map_eq_some_iff] at hLast
    obtain ⟨mem', hMem', rfl⟩ := hLast
    refine ⟨mem', ?_, hDone.length, ?_⟩
    · simp only [hRoom, if_true, hMem']
    · rw [hDone.holds.cString_eq, appendAt, if_pos (by omega)]
      simp only [hRoom, if_true]
      rw [List.take_of_length_le]
      show 1 ≤ _
      omega
  · refine ⟨st.1, ?_, hWritten.length, ?_⟩
    · simp only [hRoom, if_false]
    · simp only [hRoom, if_false]
      exact hWritten.holds.cString_eq

/-! ## When the reply is well formed -/

/-- `NODES `, complete records separated by semicolons, and one newline, at the
end; the scheduler's `parse_nodes` accepts what follows `NODES `. -/
structure WellFormed (reply : Text) : Prop where
  records : ∃ shown : List ReceivedNode, reply =
    "NODES ".toList ++ [';'].intercalate (shown.map nodeText) ++ "\n".toList
  newline : reply.count '\n' = 1
  accepted : ∃ parsed, parseNodes (reply.drop 6) = some parsed

/-- The length of the whole reply: the head, the newline, the records and the
semicolons between them. -/
def replyLength (nodes : Table nodeCallbacks) : Nat :=
  7 + (nodes.toList.map fun node => (nodeText node).length).sum + (nodes.toList.length - 1)

theorem length_rest (nodes : List ReceivedNode) :
    (nodes.flatMap fun node => ';' :: nodeText node).length =
      (nodes.map fun node => (nodeText node).length).sum + nodes.length := by
  induction nodes with
  | nil => rfl
  | cons node nodes ih =>
      rw [List.flatMap_cons, List.length_append, ih]
      simp only [List.length_cons, List.map_cons, List.sum_cons]
      omega

theorem length_nodesReply (nodes : Table nodeCallbacks) :
    (nodesReply nodes).length = replyLength nodes := by
  have hHead : "NODES ".toList.length = 6 := rfl
  have hLast : "\n".toList.length = 1 := rfl
  rw [nodesReply_eq, List.length_append, List.length_append, hHead, hLast, nodesText, replyLength]
  cases nodes.toList with
  | nil => rfl
  | cons node rest =>
      rw [intercalate_cons_eq, List.length_append, length_rest]
      simp only [List.map_cons, List.sum_cons, List.length_cons]
      omega

/-- As long as the offset is inside the buffer it is exact. -/
theorem appendAt_offset {size : Nat} {result : Text × Nat} {piece : Text}
    (h : (appendAt size result piece).2 < size) :
    result.2 < size ∧ (appendAt size result piece).2 = result.2 + piece.length := by
  rw [appendAt] at h ⊢
  by_cases hInside : result.2 < size
  · rw [if_pos hInside]
    exact ⟨hInside, rfl⟩
  · rw [if_neg hInside] at h
    exact absurd h hInside

theorem appendNodes_offset {size : Nat} (nodes : List ReceivedNode) :
    ∀ {result : Text × Nat}, (appendNodes size false nodes result).2 < size →
      (appendNodes size false nodes result).2 =
        result.2 + (nodes.flatMap fun node => ';' :: nodeText node).length := by
  induction nodes with
  | nil =>
      intro result _
      rfl
  | cons node rest ih =>
      intro result h
      simp only [appendNodes, Bool.false_eq_true, if_false] at h ⊢
      have hRest := ih h
      have hNode := @appendAt_offset size (appendAt size result ";".toList) (nodeText node)
        (by omega)
      have hSep := @appendAt_offset size result ";".toList hNode.1
      rw [hRest, hNode.2, hSep.2, List.flatMap_cons, List.length_append, List.length_cons]
      show _ + 1 + _ + _ = _
      omega

/-- A newline is written only when everything has been. -/
theorem fits_of_room {nodes : Table nodeCallbacks}
    (h : (appendNodes 8192 true nodes.toList (appendAt 8192 ([], 0) "NODES ".toList)).2 < 8191) :
    replyLength nodes ≤ 8191 := by
  rw [replyLength]
  cases hNodes : nodes.toList with
  | nil => decide
  | cons node rest =>
      rw [hNodes] at h
      simp only [appendNodes, if_true] at h
      have hRest := appendNodes_offset rest (Nat.lt_of_lt_of_le h (by decide))
      have hNode := @appendAt_offset 8192 (appendAt 8192 ([], 0) "NODES ".toList)
        (nodeText node) (by omega)
      rw [hRest, hNode.2, length_rest] at h
      have hHead : (appendAt 8192 ([], 0) "NODES ".toList).2 = 6 := rfl
      rw [hHead] at h
      simp only [List.map_cons, List.sum_cons, List.length_cons]
      omega

theorem newline_not_mem_nodeText (node : ReceivedNode) : '\n' ∉ nodeText node := by
  intro h
  have := (nodeText_clean node).1 '\n' h
  exact absurd this (by decide)

theorem newline_not_mem_appendAt {size : Nat} {result : Text × Nat} {piece : Text}
    (hResult : '\n' ∉ result.1) (hPiece : '\n' ∉ piece) :
    '\n' ∉ (appendAt size result piece).1 := by
  rw [appendAt]
  split
  · intro h
    rcases List.mem_append.mp h with h | h
    · exact hResult h
    · exact hPiece (List.mem_of_mem_take h)
  · exact hResult

theorem newline_not_mem_appendNodes {size : Nat} (nodes : List ReceivedNode) :
    ∀ (first : Bool) {result : Text × Nat}, '\n' ∉ result.1 →
      '\n' ∉ (appendNodes size first nodes result).1 := by
  induction nodes with
  | nil =>
      intro first result h
      exact h
  | cons node rest ih =>
      intro first result h
      rw [appendNodes]
      refine ih false (newline_not_mem_appendAt ?_ (newline_not_mem_nodeText node))
      cases first with
      | true => exact h
      | false => exact newline_not_mem_appendAt h (by decide)

/-- A table that is too large gives a reply without newline. -/
theorem newline_not_mem_of_large {nodes : Table nodeCallbacks} (h : 8191 < replyLength nodes) :
    '\n' ∉ getNodesInstance nodes := by
  rw [getNodesInstance]
  have hNone : '\n' ∉ (appendNodes 8192 true nodes.toList
      (appendAt 8192 ([], 0) "NODES ".toList)).1 :=
    newline_not_mem_appendNodes nodes.toList true (by decide)
  by_cases hRoom : (appendNodes 8192 true nodes.toList
      (appendAt 8192 ([], 0) "NODES ".toList)).2 < 8191
  · have := fits_of_room hRoom
    omega
  · simp only [hRoom, if_false]
    exact hNone

theorem newline_not_mem_intercalate (nodes : List ReceivedNode) :
    '\n' ∉ [';'].intercalate (nodes.map nodeText) := by
  cases nodes with
  | nil => decide
  | cons node rest =>
      rw [intercalate_cons_eq]
      intro h
      rcases List.mem_append.mp h with h | h
      · exact newline_not_mem_nodeText node h
      · obtain ⟨next, -, hNext⟩ := List.mem_flatMap.mp h
        rcases List.mem_cons.mp hNext with hSep | hText
        · exact absurd hSep (by decide)
        · exact newline_not_mem_nodeText next hText

/-- The reply is well formed if and only if it fits with its newline. -/
theorem wellFormed_iff_fits (nodes : Table nodeCallbacks) :
    WellFormed (getNodesInstance nodes) ↔ replyLength nodes ≤ 8191 := by
  constructor
  · intro hReply
    by_contra hLarge
    have hNone := newline_not_mem_of_large (Nat.not_le.mp hLarge)
    have hOne := hReply.newline
    rw [List.count_eq_zero_of_not_mem hNone] at hOne
    cases hOne
  · intro hFits
    have hLen : (nodesReply nodes).length ≤ 8191 := by
      rw [length_nodesReply]
      exact hFits
    rw [getNodesInstance_eq hLen, nodesReply_eq]
    refine ⟨⟨nodes.toList, rfl⟩, ?_, nodes.toList.map entryOf, ?_⟩
    · have hText : (nodesText nodes).count '\n' = 0 :=
        List.count_eq_zero_of_not_mem (newline_not_mem_intercalate nodes.toList)
      rw [List.count_append, List.count_append, hText]
      decide
    · have hDrop : ("NODES ".toList ++ nodesText nodes ++ "\n".toList).drop 6 =
          nodesText nodes ++ "\n".toList := by
        rw [List.append_assoc]
        exact List.drop_left' rfl
      rw [hDrop]
      exact parseNodes_nodesText nodes

/-! ## The reply, and how many records it holds -/

/-- A peer with the largest amounts. -/
def largeNode (i : Nat) : ReceivedNode := ⟨i, 65535, 2147483647, 2147483647, 2147483647, 0⟩

/-- A table of `n` of them. -/
def largeNodes (n : Nat) : Table nodeCallbacks :=
  ((List.range n).map largeNode).foldl tablahashInsert (tablahashCreate nodeCallbacks)

/-- Inserting nodes with new addresses adds them to those that are there. -/
theorem toList_foldl_insert (ds : List ReceivedNode) :
    ∀ t : Table nodeCallbacks, (∀ d ∈ ds, ∀ e ∈ t.toList, e.ip ≠ d.ip) →
      ds.Pairwise (fun a b => a.ip ≠ b.ip) →
      (ds.foldl tablahashInsert t).toList.Perm (ds ++ t.toList) := by
  induction ds with
  | nil =>
      intro t _ _
      exact List.Perm.refl _
  | cons d ds ih =>
      intro t hNew hDistinct
      obtain ⟨hHead, hTail⟩ := List.pairwise_cons.mp hDistinct
      have hKeep : t.toList.filter (fun e => !nodeCallbacks.same e d) = t.toList := by
        rw [List.filter_eq_self]
        intro e he
        simpa [nodeCallbacks_same] using hNew d (by simp) e he
      have hOne := toList_insert_perm t d
      rw [hKeep] at hOne
      have hRest := ih (tablahashInsert t d) ?_ hTail
      · exact hRest.trans ((hOne.append_left ds).trans List.perm_middle)
      · intro x hx e he
        rcases List.mem_cons.mp (hOne.subset he) with rfl | he
        · exact hHead x hx
        · exact hNew x (by simp [hx]) e he

theorem largeNodes_perm (n : Nat) :
    (largeNodes n).toList.Perm ((List.range n).map largeNode) := by
  have hNew : ∀ d ∈ (List.range n).map largeNode,
      ∀ e ∈ (tablahashCreate nodeCallbacks).toList, e.ip ≠ d.ip := by
    intro d _ e he
    rw [toList_create] at he
    cases he
  have hDistinct : ((List.range n).map largeNode).Pairwise fun a b => a.ip ≠ b.ip := by
    rw [List.pairwise_map]
    refine (List.nodup_range).imp fun {a b} hab hEq => hab ?_
    simpa [largeNode] using hEq
  have hAll := toList_foldl_insert ((List.range n).map largeNode) _ hNew hDistinct
  rw [toList_create, List.append_nil] at hAll
  exact hAll

theorem length_largeNode (i : Nat) :
    (nodeText (largeNode i)).length = (inetNtop i).length + 51 := by
  have hPort : (itoa 65535).length = 5 := by decide
  have hAmount : (itoa 2147483647).length = 10 := by decide
  simp only [nodeText, largeNode, List.length_append, hPort, hAmount]
  rfl

/-- The length of the reply does not depend on the order of the records. -/
theorem replyLength_largeNodes (n : Nat) :
    replyLength (largeNodes n) =
      7 + ((List.range n).map fun i : Nat => (inetNtop i).length + 51).sum + (n - 1) := by
  have hPerm := largeNodes_perm n
  have hSum := (hPerm.map fun node => (nodeText node).length).sum_eq
  have hLen := hPerm.length_eq
  rw [List.map_map] at hSum
  rw [List.length_map, List.length_range] at hLen
  rw [replyLength, hSum, hLen]
  simp only [Function.comp_def, length_largeNode]

/-- **The NODES reply.**  For every table, `get_nodes_instance` writes only
inside its buffer, and the string it returns is well formed if and only if the
records, their separators and the newline fit in 8191 characters. -/
theorem nodes_reply_well_formed_iff (nodes : Table nodeCallbacks) (mem : Text)
    (hMem : mem.length = 8192) :
    ∃ mem', getNodesBuffer mem nodes = some mem' ∧ mem'.length = 8192 ∧
      (WellFormed (cString mem') ↔ replyLength nodes ≤ 8191) := by
  obtain ⟨mem', hWrite, hLen, hReply⟩ := getNodesBuffer_eq hMem nodes
  refine ⟨mem', hWrite, hLen, ?_⟩
  rw [hReply]
  exact wellFormed_iff_fits nodes

/-- The reply for 135 of these peers fits and is well formed; with one more it is one
character too long. -/
theorem nodes_reply_well_formed_full :
    (List.replicate 8192 '\x00').length = 8192 ∧ replyLength (largeNodes 136) = 8192 ∧
      ∃ mem', getNodesBuffer (List.replicate 8192 '\x00') (largeNodes 135) = some mem' ∧
        mem'.length = 8192 ∧ WellFormed (cString mem') := by
  have hMem : (List.replicate 8192 '\x00').length = 8192 := List.length_replicate
  obtain ⟨mem', hWrite, hLen, hIff⟩ := nodes_reply_well_formed_iff (largeNodes 135) _ hMem
  refine ⟨hMem, ?_, mem', hWrite, hLen, hIff.mpr ?_⟩
  · rw [replyLength_largeNodes]
    decide +kernel
  · rw [replyLength_largeNodes]
    decide +kernel

/-- Two hundred of these peers. -/
def crowdedNodes : Table nodeCallbacks := largeNodes 200

theorem crowdedNodes_large : 8191 < replyLength crowdedNodes := by
  rw [crowdedNodes, replyLength_largeNodes]
  decide +kernel

/-- Their reply has no newline at all. -/
theorem crowded_reply_has_no_newline :
    '\n' ∉ getNodesInstance crowdedNodes ∧ ¬ WellFormed (getNodesInstance crowdedNodes) := by
  refine ⟨newline_not_mem_of_large crowdedNodes_large, ?_⟩
  rw [wellFormed_iff_fits]
  exact Nat.not_le.mpr crowdedNodes_large

end ResourceAgent.Ports.NodesReply
