import ResourceAgent.Verified.CText

/-!
# Erlang strings: `string:trim`, `string:split` and `list_to_integer`

A string is a list of characters.  `string:split(String, [Sep], all)` is the
library's `List.splitOn`; this module adds the other two functions a line decoder
uses, and what they do to text written with `%d`:

* `trim_snoc` — trimming removes the newline behind a text without white space;
* `listToInteger_itoa` — `list_to_integer` inverts `%d`, on all integers.
-/

namespace ResourceAgent.Verified.ErlangText

open ResourceAgent.Verified.CText

/-- `unicode_util:whitespace()`. -/
def isWhitespace (c : Char) : Bool :=
  [9, 10, 11, 12, 13, 32, 133, 8206, 8207, 8232, 8233].contains c.toNat

/-- `string:trim(String)`, on both sides. -/
def trim (s : Text) : Text :=
  ((s.dropWhile isWhitespace).reverse.dropWhile isWhitespace).reverse

/-- A text without white space. -/
def Solid (s : Text) : Prop := ∀ c ∈ s, isWhitespace c = false

theorem solid_of_all {s : Text} (h : (s.all fun c => !isWhitespace c) = true) : Solid s := by
  simpa [Solid] using h

private theorem dropWhile_solid {s : Text} (h : Solid s) : s.dropWhile isWhitespace = s := by
  cases s with
  | nil => rfl
  | cons c cs => rw [List.dropWhile_cons_of_neg]; simp [h c (by simp)]

theorem trim_eq_self {s : Text} (h : Solid s) : trim s = s := by
  have hReverse : Solid s.reverse := fun c hc => h c (List.mem_reverse.mp hc)
  rw [trim, dropWhile_solid h, dropWhile_solid hReverse, List.reverse_reverse]

/-- One white space at the end is removed. -/
theorem trim_snoc {s : Text} {c : Char} (h : Solid s) (hc : isWhitespace c = true) :
    trim (s ++ [c]) = s := by
  cases s with
  | nil => simp [trim, hc]
  | cons d ds =>
      have hHead : (d :: ds ++ [c]).dropWhile isWhitespace = d :: ds ++ [c] := by
        rw [List.cons_append, List.dropWhile_cons_of_neg]
        simp [h d (by simp)]
      have hReverse : Solid (d :: ds).reverse := fun x hx => h x (List.mem_reverse.mp hx)
      rw [trim, hHead, List.reverse_append, List.reverse_singleton, List.singleton_append,
        List.dropWhile_cons_of_pos hc, dropWhile_solid hReverse, List.reverse_reverse]

theorem solid_append {s t : Text} (hs : Solid s) (ht : Solid t) : Solid (s ++ t) := by
  intro c hc
  rcases List.mem_append.mp hc with hc | hc
  · exact hs c hc
  · exact ht c hc

theorem isWhitespace_digit {c : Char} (h : c.isDigit = true) : isWhitespace c = false := by
  have hRange := Char.isDigit_iff_toNat.mp h
  have hLow : 48 ≤ c.toNat := hRange.1
  have hHigh : c.toNat ≤ 57 := hRange.2
  rw [isWhitespace, ← Bool.not_eq_true, List.contains_iff_mem]
  simp only [List.mem_cons, List.not_mem_nil, or_false]
  omega

theorem solid_itoa (n : Int) : Solid (itoa n) := by
  intro c hc
  rcases mem_itoa hc with rfl | hc
  · decide
  · exact isWhitespace_digit hc

theorem solid_inetNtop (addr : Int) : Solid (inetNtop addr) := by
  intro c hc
  rcases mem_inetNtop hc with rfl | hc
  · decide
  · exact isWhitespace_digit hc

/-! ## Integers -/

/-- A nonempty row of digits. -/
def readNatural (s : Text) : Option Nat :=
  if s ≠ [] ∧ s.all Char.isDigit then some (Nat.ofDigitChars 10 s 0) else none

/-- `list_to_integer`; `none` when it raises `badarg`. -/
def listToInteger : Text → Option Int
  | '-' :: s => (readNatural s).map fun n => -(n : Int)
  | '+' :: s => (readNatural s).map fun n => (n : Int)
  | s => (readNatural s).map fun n => (n : Int)

private theorem readNatural_toDigits (n : Nat) : readNatural (Nat.toDigits 10 n) = some n := by
  have hDigits : (Nat.toDigits 10 n).all Char.isDigit = true := by
    rw [List.all_eq_true]
    exact fun c hc => Nat.isDigit_of_mem_toDigits (by decide) (by decide) hc
  rw [readNatural, if_pos ⟨Nat.toDigits_ne_nil, hDigits⟩, Nat.ofDigitChars_ten_toDigits]

/-- **`list_to_integer` inverts `%d`.** -/
theorem listToInteger_itoa (n : Int) : listToInteger (itoa n) = some n := by
  cases n with
  | negSucc k =>
      simp only [itoa, listToInteger, readNatural_toDigits]
      rfl
  | ofNat k =>
      have hValue := readNatural_toDigits k
      show listToInteger (Nat.toDigits 10 k) = _
      cases hText : Nat.toDigits 10 k with
      | nil => exact absurd hText Nat.toDigits_ne_nil
      | cons c cs =>
          have hDigit : c.isDigit = true :=
            Nat.isDigit_of_mem_toDigits (by decide) (by decide) (hText ▸ List.mem_cons_self)
          have hMinus : c ≠ '-' := by
            rintro rfl
            exact absurd hDigit (by decide)
          have hPlus : c ≠ '+' := by
            rintro rfl
            exact absurd hDigit (by decide)
          rw [hText] at hValue
          simp [listToInteger, hMinus, hPlus, hValue]

end ResourceAgent.Verified.ErlangText
