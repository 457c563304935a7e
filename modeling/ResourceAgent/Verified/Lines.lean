import Mathlib.Data.List.Basic

/-!
# Terminated segments of a stream

A line protocol sends a stream of characters in which one character ends a
line.  `lines` is the sequence of finished lines of a stream, each with its
terminator; what follows the last terminator belongs to no line yet.

`lines_flatten_append` is the form in which a reader uses it: once some lines
have been taken off the front, the lines of the stream are those, followed by
the lines of the rest.

`Carries` is the view of the two ends together: the lines a writer has written and a reader has
not taken, whatever pieces the stream is received in, and what is left of them when it is cut.
-/

namespace ResourceAgent.Verified.Lines

variable {α : Type _} [DecidableEq α] (nl : α)

/-- The segments of a stream that end with `nl`, in order. -/
def lines : List α → List (List α)
  | [] => []
  | c :: cs =>
      if c = nl then [c] :: lines cs
      else
        match lines cs with
        | [] => []
        | line :: rest => (c :: line) :: rest

/-- A line: its only terminator is its last character. -/
def IsLine (line : List α) : Prop := ∃ body, nl ∉ body ∧ line = body ++ [nl]

variable {nl}

theorem lines_of_not_mem {s : List α} (h : nl ∉ s) : lines nl s = [] := by
  induction s with
  | nil => rfl
  | cons c cs ih =>
      have hHead : c ≠ nl := fun hc => h (by simp [hc])
      have hTail : lines nl cs = [] := ih fun hc => h (by simp [hc])
      simp only [lines, if_neg hHead, hTail]

/-- The first line of a stream. -/
theorem lines_cons {body rest : List α} (h : nl ∉ body) :
    lines nl (body ++ nl :: rest) = (body ++ [nl]) :: lines nl rest := by
  induction body with
  | nil => simp [lines]
  | cons c cs ih =>
      have hHead : c ≠ nl := fun hc => h (by simp [hc])
      have hTail := ih fun hc => h (by simp [hc])
      simp only [List.cons_append, lines, if_neg hHead, hTail]

theorem lines_line_append {line rest : List α} (h : IsLine nl line) :
    lines nl (line ++ rest) = line :: lines nl rest := by
  obtain ⟨body, hBody, rfl⟩ := h
  rw [List.append_assoc]
  exact lines_cons hBody

/-- **Lines taken off the front.** -/
theorem lines_flatten_append {taken : List (List α)} (h : ∀ line ∈ taken, IsLine nl line)
    (rest : List α) : lines nl (taken.flatten ++ rest) = taken ++ lines nl rest := by
  induction taken with
  | nil => rfl
  | cons line more ih =>
      rw [List.flatten_cons, List.append_assoc, lines_line_append (h line (by simp)),
        ih fun l hl => h l (by simp [hl]), List.cons_append]

omit [DecidableEq α] in
/-- A stream with a terminator in it starts with a line. -/
theorem exists_line {s : List α} (h : nl ∈ s) :
    ∃ line rest, IsLine nl line ∧ s = line ++ rest := by
  obtain ⟨body, rest, hs, hBody⟩ := List.eq_append_cons_of_mem h
  refine ⟨body ++ [nl], rest, ⟨body, hBody, rfl⟩, ?_⟩
  rw [hs, List.append_assoc]
  rfl

/-! ## Lines on their way -/

/-- A stream that carries the lines `ls` and then the beginning of one that was cut off.  No
line is longer than `n`. -/
structure Carries (nl : α) (n : Nat) (s : List α) (ls : List (List α)) (part : List α) :
    Prop where
  split : s = ls.flatten ++ part
  isLine : ∀ line ∈ ls, IsLine nl line
  length : ∀ line ∈ ls, line.length ≤ n
  noLine : nl ∉ part
  short : part.length < n

section

variable {n : Nat} {s t body part : List α} {ls : List (List α)}

omit [DecidableEq α]

theorem Carries.nil (hPos : 0 < n) : Carries nl n [] [] [] where
  split := rfl
  isLine := by simp
  length := by simp
  noLine := by simp
  short := hPos

/-- A line is written behind a stream that was not cut. -/
theorem Carries.snoc (h : Carries nl n s ls []) {line : List α} (hLine : IsLine nl line)
    (hLength : line.length ≤ n) : Carries nl n (s ++ line) (ls ++ [line]) [] where
  split := by simp [h.split]
  isLine l hl := by
    rcases List.mem_append.mp hl with hl | hl
    · exact h.isLine l hl
    · exact List.mem_singleton.mp hl ▸ hLine
  length l hl := by
    rcases List.mem_append.mp hl with hl | hl
    · exact h.length l hl
    · exact List.mem_singleton.mp hl ▸ hLength
  noLine := h.noLine
  short := h.short

theorem Carries.cons (h : Carries nl n s ls part) {line : List α} (hLine : IsLine nl line)
    (hLength : line.length ≤ n) : Carries nl n (line ++ s) (line :: ls) part where
  split := by simp [h.split]
  isLine l hl := by
    rcases List.mem_cons.mp hl with rfl | hl
    · exact hLine
    · exact h.isLine l hl
  length l hl := by
    rcases List.mem_cons.mp hl with rfl | hl
    · exact hLength
    · exact h.length l hl
  noLine := h.noLine
  short := h.short

/-- What is carried behind the first line. -/
theorem Carries.tail {line : List α} (h : Carries nl n s (line :: ls) part) :
    Carries nl n (ls.flatten ++ part) ls part where
  split := rfl
  isLine l hl := h.isLine l (List.mem_cons_of_mem _ hl)
  length l hl := h.length l (List.mem_cons_of_mem _ hl)
  noLine := h.noLine
  short := h.short

/-- **The first line is the first that is carried.** -/
theorem Carries.first (h : Carries nl n (body ++ nl :: t) ls part) (hBody : nl ∉ body) :
    ∃ rest, ls = (body ++ [nl]) :: rest ∧ Carries nl n t rest part := by
  classical
  have hLines := lines_flatten_append h.isLine part
  rw [← h.split, lines_cons hBody, lines_of_not_mem h.noLine, List.append_nil] at hLines
  refine ⟨lines nl t, hLines.symm, ?_⟩
  have hSplit := h.split
  rw [← hLines] at h hSplit
  have hRest : t = (lines nl t).flatten ++ part := by simpa using hSplit
  rw [hRest, lines_flatten_append h.tail.isLine, lines_of_not_mem h.noLine, List.append_nil]
  exact h.tail

/-- Without a terminator there is no line. -/
theorem Carries.eq_nil (h : Carries nl n s ls part) (hs : nl ∉ s) : ls = [] := by
  cases ls with
  | nil => rfl
  | cons line rest =>
      obtain ⟨body, -, rfl⟩ := h.isLine line List.mem_cons_self
      exact absurd (by simp [h.split]) hs

/-- The beginning of a line fits with room for its terminator. -/
theorem Carries.length_lt (h : Carries nl n (s ++ t) ls part) (hs : nl ∉ s) : s.length < n := by
  by_cases hMem : nl ∈ t
  · obtain ⟨body, rest, rfl, hBody⟩ := List.eq_append_cons_of_mem hMem
    rw [← List.append_assoc] at h
    obtain ⟨rest', rfl, -⟩ := h.first (by simp [hs, hBody])
    have hLength := h.length _ List.mem_cons_self
    simp only [List.length_append, List.length_singleton] at hLength
    omega
  · obtain rfl := h.eq_nil (by simp [hs, hMem])
    have hLength := congrArg List.length h.split
    have hShort := h.short
    simp only [List.length_append, List.flatten_nil, List.length_nil] at hLength
    omega

end

/-- **Cutting a stream.**  The lines of which the terminator is kept are still carried. -/
theorem Carries.take {n : Nat} {s part : List α} {ls : List (List α)}
    (h : Carries nl n s ls part) (k : Nat) :
    ∃ cut, Carries nl n (s.take k) (ls.take ((s.take k).count nl)) cut := by
  induction ls generalizing s k with
  | nil =>
      refine ⟨s.take k, ?_⟩
      rw [List.take_nil]
      have hs : s = part := h.split
      refine ⟨rfl, by simp, by simp, fun hMem => h.noLine (hs ▸ List.mem_of_mem_take hMem), ?_⟩
      have hShort : s.length < n := hs ▸ h.short
      rw [List.length_take]
      omega
  | cons line ls ih =>
      obtain ⟨body, hBody, rfl⟩ := h.isLine line List.mem_cons_self
      have hLine := h.length _ List.mem_cons_self
      rw [List.length_append, List.length_singleton] at hLine
      have hs : s = body ++ nl :: (ls.flatten ++ part) := by simpa using h.split
      by_cases hIn : k ≤ body.length
      · have hTake : s.take k = body.take k := by rw [hs, List.take_append_of_le_length hIn]
        have hNone : nl ∉ body.take k := fun hMem => hBody (List.mem_of_mem_take hMem)
        rw [hTake, List.count_eq_zero_of_not_mem hNone, List.take_zero]
        refine ⟨body.take k, rfl, by simp, by simp, hNone, ?_⟩
        have hLength := List.length_take_le k body
        omega
      · obtain ⟨m, rfl⟩ : ∃ m, k = body.length + 1 + m := ⟨k - (body.length + 1), by omega⟩
        have hTake : s.take (body.length + 1 + m) =
            (body ++ [nl]) ++ (ls.flatten ++ part).take m := by
          have hAll : s = (body ++ [nl]) ++ (ls.flatten ++ part) := by simp [hs]
          rw [hAll, List.take_append, List.length_append, List.length_singleton,
            Nat.add_sub_cancel_left]
          rw [List.take_of_length_le (by simp)]
        obtain ⟨cut, hCut⟩ := ih h.tail m
        have hCount : (s.take (body.length + 1 + m)).count nl =
            ((ls.flatten ++ part).take m).count nl + 1 := by
          rw [hTake, List.count_append, List.count_append, List.count_eq_zero_of_not_mem hBody,
            List.count_singleton_self]
          omega
        refine ⟨cut, ?_⟩
        rw [hCount, List.take_succ_cons, hTake]
        exact hCut.cons ⟨body, hBody, rfl⟩ (by simpa using hLine)

end ResourceAgent.Verified.Lines
