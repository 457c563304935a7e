import ResourceAgent.Verified.CText

/-!
# Character arrays

A `char` array of fixed size is a list of that length.  `memcpy`, `memmove` and
`memset` into it all write a block at an offset; `strchr` looks for a character
before the first NUL.

When the bytes in use are followed by a NUL, `strchr` on the array sees exactly
those bytes (`strchr_terminated`), whatever is left over behind them.
`snprintf` is partial: a write outside the array has no result, so a program
that always has one is in bounds (`snprintf_holds`).  So are `readAt`, `writeAt`,
`setAt` and `findIn`, the same operations at offsets and lengths that may be anything an
`int` can be.
-/

namespace ResourceAgent.Verified.CBuffer

open ResourceAgent.Verified.CText

/-! ## Writing a block -/

/-- `memcpy(&dst[pos], src, n)`, where `src` has `n` characters. -/
def memcpy (dst : Text) (pos : Nat) (src : Text) : Text :=
  dst.take pos ++ src ++ dst.drop (pos + src.length)

/-- `memset(&dst[pos], c, n)`. -/
def memset (dst : Text) (pos : Nat) (c : Char) (n : Nat) : Text :=
  memcpy dst pos (List.replicate n c)

section

variable {dst src : Text} {pos : Nat}

theorem length_memcpy (h : pos + src.length ≤ dst.length) :
    (memcpy dst pos src).length = dst.length := by
  simp only [memcpy, List.length_append, List.length_take, List.length_drop]
  omega

theorem take_memcpy (h : pos ≤ dst.length) :
    (memcpy dst pos src).take (pos + src.length) = dst.take pos ++ src := by
  rw [memcpy, List.take_append_of_le_length, List.take_of_length_le]
  · simp only [List.length_append, List.length_take]
    omega
  · simp only [List.length_append, List.length_take]
    omega

/-- What lies before the block stays. -/
theorem take_memcpy_of_le {n : Nat} (hn : n ≤ pos) (h : pos ≤ dst.length) :
    (memcpy dst pos src).take n = dst.take n := by
  rw [memcpy, List.append_assoc, List.take_append_of_le_length, List.take_take, Nat.min_eq_left hn]
  rw [List.length_take]
  omega

@[simp] theorem memcpy_nil (dst : Text) (pos : Nat) : memcpy dst pos [] = dst := by
  simp [memcpy]

/-- The first character of the block. -/
theorem getElem?_memcpy_pos {c : Char} (h : pos ≤ dst.length) :
    (memcpy dst pos (c :: src))[pos]? = some c := by
  have hLen : (dst.take pos).length = pos := by
    rw [List.length_take]
    omega
  rw [memcpy, List.append_assoc, List.getElem?_append_right hLen.le, hLen, Nat.sub_self]
  rfl

/-- Clearing the array from some offset on. -/
theorem length_memset_rest {c : Char} (h : pos < dst.length) :
    (memset dst pos c (dst.length - pos)).length = dst.length := by
  rw [memset, length_memcpy]
  rw [List.length_replicate]
  omega

theorem getElem?_memset_rest {c : Char} (h : pos < dst.length) :
    (memset dst pos c (dst.length - pos))[pos]? = some c := by
  obtain ⟨n, hn⟩ : ∃ n, dst.length - pos = n + 1 := ⟨dst.length - pos - 1, by omega⟩
  rw [memset, hn, List.replicate_succ]
  exact getElem?_memcpy_pos h.le

end

/-! ## Printing into an array -/

/-- `snprintf(&dst[pos], n, ..)` of a text: at most `n - 1` characters and a
NUL.  `none` when a character would land outside the array. -/
def snprintf (dst : Text) (pos n : Nat) (text : Text) : Option Text :=
  if n = 0 then some dst
  else if pos + (text.take (n - 1)).length < dst.length then
    some (memcpy dst pos (text.take (n - 1) ++ ['\x00']))
  else none

/-- The array holds the text as a C string: its characters, then a NUL. -/
structure Holds (dst text : Text) : Prop where
  nul : '\x00' ∉ text
  start : dst.take (text.length + 1) = text ++ ['\x00']

/-- What the array holds is what is read back. -/
theorem Holds.cString_eq {dst text : Text} (h : Holds dst text) : cString dst = text := by
  have hCut : dst = text ++ '\x00' :: dst.drop (text.length + 1) := by
    conv_lhs => rw [← List.take_append_drop (text.length + 1) dst, h.start]
    simp
  rw [hCut, cString, List.takeWhile_append_of_pos]
  · simp
  · intro c hc
    have hNe : c ≠ '\x00' := by
      rintro rfl
      exact h.nul hc
    simpa using hNe

/-- A text copied to the front of an array, with a NUL behind it. -/
theorem holds_copy {dst text : Text} (hFit : text.length < dst.length) (hNul : '\x00' ∉ text) :
    Holds (memcpy (memcpy dst 0 text) text.length ['\x00']) text := by
  have hLen : (memcpy dst 0 text).length = dst.length := length_memcpy (by omega)
  have hFront := @take_memcpy dst text 0 (Nat.zero_le _)
  rw [Nat.zero_add, List.take_zero, List.nil_append] at hFront
  have hBlock := @take_memcpy (memcpy dst 0 text) ['\x00'] text.length (by omega)
  rw [hFront] at hBlock
  exact ⟨hNul, hBlock⟩

/-- **Printing behind a text.**  With the rest of the array as its bound,
`snprintf` stays inside and the array then holds the text with what fits
behind it. -/
theorem snprintf_holds {dst text piece : Text} {pos : Nat} (hPos : pos < dst.length)
    (hTake : dst.take pos = text) (hNul : '\x00' ∉ text) (hPiece : '\x00' ∉ piece) :
    ∃ dst', snprintf dst pos (dst.length - pos) piece = some dst' ∧
      dst'.length = dst.length ∧ Holds dst' (text ++ piece.take (dst.length - pos - 1)) := by
  have hLen : text.length = pos := by
    rw [← hTake, List.length_take]
    omega
  have hFits : pos + (piece.take (dst.length - pos - 1)).length < dst.length := by
    rw [List.length_take]
    omega
  refine ⟨memcpy dst pos (piece.take (dst.length - pos - 1) ++ ['\x00']), ?_, ?_, ?_, ?_⟩
  · rw [snprintf, if_neg (by omega), if_pos hFits]
  · refine length_memcpy ?_
    rw [List.length_append]
    exact hFits
  · intro h
    rcases List.mem_append.mp h with h | h
    · exact hNul h
    · exact hPiece (List.mem_of_mem_take h)
  · have hBlock := @take_memcpy dst (piece.take (dst.length - pos - 1) ++ ['\x00']) pos hPos.le
    rw [hTake, List.length_append, List.length_singleton] at hBlock
    rw [List.length_append, hLen, Nat.add_assoc, hBlock, List.append_assoc]

/-! ## Searching -/

/-- `strchr(s, c) - s` for a character other than NUL. -/
def strchr (c : Char) : Text → Option Nat
  | [] => none
  | x :: xs =>
      if x = c then some 0
      else if x = '\x00' then none
      else (strchr c xs).map (· + 1)

/-- A hit splits the text before and after the character. -/
theorem strchr_eq_some {c : Char} {s : Text} {i : Nat} (h : strchr c s = some i) :
    ∃ body rest, s = body ++ c :: rest ∧ c ∉ body ∧ body.length = i := by
  induction s generalizing i with
  | nil => simp [strchr] at h
  | cons x xs ih =>
      simp only [strchr] at h
      by_cases hHit : x = c
      · rw [if_pos hHit, Option.some.injEq] at h
        exact ⟨[], xs, by simp [hHit], by simp, h⟩
      · rw [if_neg hHit] at h
        by_cases hNul : x = '\x00'
        · rw [if_pos hNul] at h
          simp at h
        · rw [if_neg hNul, Option.map_eq_some_iff] at h
          obtain ⟨j, hj, rfl⟩ := h
          obtain ⟨body, rest, rfl, hBody, rfl⟩ := ih hj
          refine ⟨x :: body, rest, rfl, ?_, rfl⟩
          simp only [List.mem_cons, not_or]
          exact ⟨fun hc => hHit hc.symm, hBody⟩

/-- Without NULs a miss means that the character is not there. -/
theorem strchr_eq_none {c : Char} {s : Text} (hNul : '\x00' ∉ s) (h : strchr c s = none) :
    c ∉ s := by
  induction s with
  | nil => simp
  | cons x xs ih =>
      simp only [List.mem_cons, not_or] at hNul
      simp only [strchr] at h
      by_cases hHit : x = c
      · simp [hHit] at h
      · rw [if_neg hHit, if_neg (fun hx => hNul.1 hx.symm), Option.map_eq_none_iff] at h
        simp only [List.mem_cons, not_or]
        exact ⟨fun hc => hHit hc.symm, ih hNul.2 h⟩

/-- **Only the bytes before a terminating NUL are searched.** -/
theorem strchr_terminated {c : Char} (hc : c ≠ '\x00') (s rest : Text) :
    strchr c (s ++ '\x00' :: rest) = strchr c s := by
  induction s with
  | nil => simp [strchr, hc.symm]
  | cons x xs ih => simp only [List.cons_append, strchr, ih]

/-- No NUL comes before a hit. -/
theorem nul_not_mem_of_strchr {c : Char} (hc : c ≠ '\x00') {s : Text} {i : Nat}
    (h : strchr c s = some i) : '\x00' ∉ s.take (i + 1) := by
  induction s generalizing i with
  | nil => simp [strchr] at h
  | cons x xs ih =>
      simp only [strchr] at h
      by_cases hHit : x = c
      · rw [if_pos hHit, Option.some.injEq] at h
        subst h hHit
        simpa using hc.symm
      · rw [if_neg hHit] at h
        by_cases hNul : x = '\x00'
        · rw [if_pos hNul] at h
          simp at h
        · rw [if_neg hNul, Option.map_eq_some_iff] at h
          obtain ⟨j, hj, rfl⟩ := h
          simp only [List.take_succ_cons, List.mem_cons, not_or]
          exact ⟨fun hx => hNul hx.symm, ih hj⟩

/-! ## Checked access -/

/-- A block written at `dst[pos]`; `none` when a character would land outside the array. -/
def writeAt (dst : Text) (pos : Int) (src : Text) : Option Text :=
  if 0 ≤ pos ∧ pos + src.length ≤ dst.length then some (memcpy dst pos.toNat src) else none

/-- `n` characters read from `src[pos]` on; `none` when one of them is outside the array.  A
negative `n` is a huge `size_t`. -/
def readAt (src : Text) (pos n : Int) : Option Text :=
  if 0 ≤ pos ∧ 0 ≤ n ∧ pos + n ≤ src.length then some ((src.drop pos.toNat).take n.toNat)
  else none

/-- `memset(&dst[pos], c, n)`. -/
def setAt (dst : Text) (pos : Int) (c : Char) (n : Int) : Option Text :=
  if 0 ≤ n then writeAt dst pos (List.replicate n.toNat c) else none

/-- `strchr(s, c)`; `none` when the search runs off the end of the array. -/
def findIn (c : Char) : Text → Option (Option Nat)
  | [] => none
  | x :: xs =>
      if x = c then some (some 0)
      else if x = '\x00' then some none
      else (findIn c xs).map fun hit => hit.map (· + 1)

theorem writeAt_eq {dst src : Text} {pos : Nat} (h : pos + src.length ≤ dst.length) :
    writeAt dst pos src = some (memcpy dst pos src) := by
  rw [writeAt, if_pos ⟨by omega, by omega⟩, Int.toNat_natCast]

theorem readAt_eq {src : Text} {pos n : Nat} (h : pos + n ≤ src.length) :
    readAt src pos n = some ((src.drop pos).take n) := by
  rw [readAt, if_pos ⟨by omega, by omega, by omega⟩, Int.toNat_natCast, Int.toNat_natCast]

theorem writeAt_zero {dst src : Text} (h : src.length ≤ dst.length) :
    writeAt dst 0 src = some (memcpy dst 0 src) :=
  @writeAt_eq dst src 0 (by omega)

theorem readAt_zero {src : Text} {n : Nat} (h : n ≤ src.length) :
    readAt src 0 n = some (src.take n) :=
  @readAt_eq src 0 n (by omega)

theorem setAt_eq {dst : Text} {pos n : Nat} {c : Char} (h : pos + n ≤ dst.length) :
    setAt dst pos c n = some (memset dst pos c n) := by
  rw [setAt, if_pos (by omega), Int.toNat_natCast, writeAt_eq (by simpa using h), memset]

/-- A NUL somewhere in the array ends the search. -/
theorem findIn_eq {c : Char} {s : Text} (h : '\x00' ∈ s) : findIn c s = some (strchr c s) := by
  induction s with
  | nil => cases h
  | cons x xs ih =>
      by_cases hHit : x = c
      · simp [findIn, strchr, hHit]
      · by_cases hNul : x = '\x00'
        · simp only [findIn, strchr, if_neg hHit, if_pos hNul]
        · have hRest := ih ((List.mem_cons.mp h).resolve_left (Ne.symm hNul))
          simp only [findIn, strchr, if_neg hHit, if_neg hNul, hRest, Option.map_some]

end ResourceAgent.Verified.CBuffer
