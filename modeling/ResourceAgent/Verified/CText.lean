import Mathlib.Algebra.GroupWithZero.Nat
import Mathlib.Algebra.Ring.Int.Defs
import Mathlib.Data.List.Basic
import Mathlib.Data.List.TakeWhile

/-!
# C strings: tokens and decimal integers

The wire formats of a line protocol written in C are read back with three
library routines — `strtok`, `strncpy` and `atoi` — and written with
`snprintf`.  This module gives those routines on lists of characters and
proves the facts every round trip over such a protocol needs:

* `tokens_unwords` — splitting a line of blank-separated words gives the
  words back, up to the splitter's token limit;
* `Numeral.atoi_eq`, `atoi_itoa` — `atoi` reads decimal integers, in particular
  what `%d` prints, on the 32-bit range;
* `inetAddr_inetNtop` — `inet_addr` inverts `inet_ntop`.

Outside that range `atoi` is the documented glibc composition: `strtol`
saturates at 64 bits and the result is cut to its low 32.  Nothing here knows
about any particular protocol.
-/

namespace ResourceAgent.Verified.CText

/-- A character sequence.  A C string is such a sequence without NUL. -/
abbrev Text := List Char

/-- The contents of a buffer up to its terminating NUL. -/
def cString (s : Text) : Text := s.takeWhile (· != '\x00')

/-- `strncpy(dst, s, n); dst[n] = '\0';` read back as a string. -/
def strncpy (n : Nat) (s : Text) : Text := (cString s).take n

theorem cString_eq_self {s : Text} (h : '\x00' ∉ s) : cString s = s := by
  rw [cString, List.takeWhile_eq_self_iff]
  intro c hc
  have hNe : c ≠ '\x00' := by
    rintro rfl
    exact h hc
  simpa using hNe

theorem strncpy_eq_self {n : Nat} {s : Text} (hLen : s.length ≤ n)
    (hNul : '\x00' ∉ s) : strncpy n s = s := by
  rw [strncpy, cString_eq_self hNul, List.take_of_length_le hLen]

theorem length_strncpy_le (n : Nat) (s : Text) : (strncpy n s).length ≤ n :=
  List.length_take_le n _

/-- `strncpy` only keeps characters of its source. -/
theorem mem_of_mem_strncpy {n : Nat} {s : Text} {c : Char}
    (h : c ∈ strncpy n s) : c ∈ s :=
  (List.takeWhile_prefix _).subset (List.mem_of_mem_take h)

theorem nul_not_mem_strncpy (n : Nat) (s : Text) : '\x00' ∉ strncpy n s := by
  intro h
  have := List.mem_takeWhile_imp (List.mem_of_mem_take h)
  simp at this

/-! ## Tokens -/

/-- One `strtok` call: skip delimiters, take the token, and drop the single
delimiter that `strtok` overwrites with NUL. -/
def strtok (delim : Char → Bool) (s : Text) : Option (Text × Text) :=
  match s.dropWhile delim with
  | [] => none
  | c :: cs =>
      some ((c :: cs).takeWhile (!delim ·), ((c :: cs).dropWhile (!delim ·)).tail)

/-- The first `n` tokens of `s`. -/
def tokens (delim : Char → Bool) : Nat → Text → List Text
  | 0, _ => []
  | n + 1, s =>
      match strtok delim s with
      | none => []
      | some (t, rest) => t :: tokens delim n rest

/-- What a token can be: non-empty and free of delimiters. -/
structure IsWord (delim : Char → Bool) (w : Text) : Prop where
  ne_nil : w ≠ []
  clean : ∀ c ∈ w, delim c = false

/-- For a literal: the check runs over its characters only. -/
theorem isWord_of_all {delim : Char → Bool} {w : Text} (hNe : w ≠ [])
    (hAll : (w.all fun c => !delim c) = true) : IsWord delim w :=
  ⟨hNe, by simpa using hAll⟩

theorem strtok_isWord {delim : Char → Bool} {s t rest : Text}
    (h : strtok delim s = some (t, rest)) : IsWord delim t := by
  unfold strtok at h
  split at h
  · cases h
  · rename_i c cs hDrop
    simp only [Option.some.injEq, Prod.mk.injEq] at h
    have hHead : delim c = false := by
      have := List.head?_dropWhile_not delim s
      rw [hDrop] at this
      simpa using this
    rw [← h.1]
    refine ⟨?_, fun d hd => ?_⟩
    · simp [hHead]
    · simpa using List.mem_takeWhile_imp hd

/-- `strtok` only returns characters of its argument. -/
theorem mem_of_mem_strtok {delim : Char → Bool} {s t rest : Text} {c : Char}
    (h : strtok delim s = some (t, rest)) (hc : c ∈ t ∨ c ∈ rest) : c ∈ s := by
  unfold strtok at h
  split at h
  · cases h
  · rename_i d ds hDrop
    simp only [Option.some.injEq, Prod.mk.injEq] at h
    have hSub : ∀ x ∈ d :: ds, x ∈ s := by
      intro x hx
      rw [← hDrop] at hx
      exact (List.dropWhile_suffix _).subset hx
    apply hSub
    rcases hc with hc | hc
    · rw [← h.1] at hc
      exact (List.takeWhile_prefix _).subset hc
    · rw [← h.2] at hc
      exact (List.dropWhile_suffix _).subset (List.mem_of_mem_tail hc)

theorem tokens_isWord (delim : Char → Bool) (n : Nat) :
    ∀ (s t : Text), t ∈ tokens delim n s → IsWord delim t := by
  induction n with
  | zero => intro s t ht; simp [tokens] at ht
  | succ n ih =>
      intro s t ht
      unfold tokens at ht
      split at ht
      · simp at ht
      · rename_i w rest hTok
        rcases List.mem_cons.mp ht with rfl | hRest
        · exact strtok_isWord hTok
        · exact ih rest t hRest

theorem mem_of_mem_tokens (delim : Char → Bool) (n : Nat) :
    ∀ (s t : Text), t ∈ tokens delim n s → ∀ c ∈ t, c ∈ s := by
  induction n with
  | zero => intro s t ht; simp [tokens] at ht
  | succ n ih =>
      intro s t ht c hc
      unfold tokens at ht
      split at ht
      · simp at ht
      · rename_i w rest hTok
        rcases List.mem_cons.mp ht with rfl | hRest
        · exact mem_of_mem_strtok hTok (.inl hc)
        · exact mem_of_mem_strtok hTok (.inr (ih rest t hRest c hc))

/-- A word followed by a delimiter is the next token. -/
theorem strtok_word {delim : Char → Bool} {w : Text} (hw : IsWord delim w)
    {d : Char} (hd : delim d = true) (rest : Text) :
    strtok delim (w ++ d :: rest) = some (w, rest) := by
  obtain ⟨hNe, hClean⟩ := hw
  have hTake : (w ++ d :: rest).takeWhile (!delim ·) = w := by
    rw [List.takeWhile_append_of_pos (by simpa using hClean)]
    simp [hd]
  have hDrop : (w ++ d :: rest).dropWhile (!delim ·) = d :: rest := by
    rw [List.dropWhile_append_of_pos (by simpa using hClean)]
    simp [hd]
  cases w with
  | nil => exact absurd rfl hNe
  | cons c cs =>
      have hSkip : (c :: cs ++ d :: rest).dropWhile delim = c :: cs ++ d :: rest := by
        simp [hClean c (by simp)]
      simp only [strtok, hSkip]
      simp only [List.cons_append] at hTake hDrop ⊢
      rw [hTake, hDrop, List.tail_cons]

/-- A word at the end of the text is the last token. -/
theorem strtok_last {delim : Char → Bool} {w : Text} (hw : IsWord delim w) :
    strtok delim w = some (w, []) := by
  obtain ⟨hNe, hClean⟩ := hw
  have hTake : w.takeWhile (!delim ·) = w := by
    rw [List.takeWhile_eq_self_iff]
    simpa using hClean
  have hDrop : w.dropWhile (!delim ·) = [] := by
    rw [List.dropWhile_eq_nil_iff]
    simpa using hClean
  cases w with
  | nil => exact absurd rfl hNe
  | cons c cs =>
      have hSkip : (c :: cs).dropWhile delim = c :: cs := by simp [hClean c (by simp)]
      simp only [strtok, hSkip, hTake, hDrop, List.tail_nil]

/-- A line of words: separated by one blank, ended by a newline. -/
def unwords : List Text → Text
  | [] => ['\n']
  | [w] => w ++ ['\n']
  | w :: ws => w ++ ' ' :: unwords ws

/-- **Splitting inverts joining.**  A line of words tokenizes to those words,
as far as the token limit goes. -/
theorem tokens_unwords {delim : Char → Bool} (hBlank : delim ' ' = true)
    (hNewline : delim '\n' = true) (ws : List Text) :
    ∀ (n : Nat), (∀ w ∈ ws, IsWord delim w) →
      tokens delim n (unwords ws) = ws.take n := by
  have hEnd : ∀ n, tokens delim n [] = [] := by
    intro n
    cases n <;> rfl
  induction ws with
  | nil =>
      intro n _
      cases n with
      | zero => rfl
      | succ n => simp [tokens, unwords, strtok, hNewline]
  | cons w ws ih =>
      intro n hWords
      cases n with
      | zero => rfl
      | succ n =>
          have hw := hWords w (by simp)
          cases ws with
          | nil => simp [tokens, unwords, strtok_word hw hNewline, hEnd]
          | cons v vs =>
              have hRest := ih n fun u hu => hWords u (by simp [hu])
              simp only [tokens, unwords, strtok_word hw hBlank,
                List.take_succ_cons, hRest]

private theorem takeWhile_snoc {p : Char → Bool} {d : Char} (hd : p d = false) (s : Text) :
    (s ++ [d]).takeWhile p = s.takeWhile p := by
  induction s with
  | nil => simp [hd]
  | cons c s ih => by_cases hc : p c = true <;> simp [hc, ih]

private theorem dropWhile_snoc {p : Char → Bool} {d : Char} (hd : p d = false) (s : Text) :
    (s ++ [d]).dropWhile p = s.dropWhile p ++ [d] := by
  induction s with
  | nil => simp [hd]
  | cons c s ih => by_cases hc : p c = true <;> simp [hc, ih]

/-- A delimiter at the end of a text adds no token. -/
theorem tokens_snoc {delim : Char → Bool} {d : Char} (hd : delim d = true) (n : Nat) :
    ∀ s : Text, tokens delim n (s ++ [d]) = tokens delim n s := by
  induction n with
  | zero => intro s; rfl
  | succ n ih =>
      intro s
      have hSkip : (s ++ [d]).dropWhile delim =
          if s.dropWhile delim = [] then [] else s.dropWhile delim ++ [d] := by
        rw [List.dropWhile_append]
        simp [hd]
      have hStop : (!delim d) = false := by rw [hd]; rfl
      rw [tokens, tokens, strtok, strtok, hSkip]
      cases s.dropWhile delim with
      | nil => rfl
      | cons c cs =>
          have hTake := takeWhile_snoc (p := (!delim ·)) hStop (c :: cs)
          have hDrop := dropWhile_snoc (p := (!delim ·)) hStop (c :: cs)
          simp only [reduceCtorEq, if_false, List.cons_append] at hTake hDrop ⊢
          rw [hTake, hDrop]
          cases (c :: cs).dropWhile (!delim ·) with
          | nil => rfl
          | cons e es =>
              simp only [List.cons_append, List.tail_cons]
              rw [ih es]

theorem tokens_append_delims {delim : Char → Bool} (n : Nat) (s ds : Text)
    (hds : ∀ d ∈ ds, delim d = true) : tokens delim n (s ++ ds) = tokens delim n s := by
  induction ds generalizing s with
  | nil => rw [List.append_nil]
  | cons d ds ih =>
      rw [List.append_cons, ih (s ++ [d]) fun c hc => hds c (List.mem_cons_of_mem _ hc)]
      exact tokens_snoc (hds d List.mem_cons_self) n s

/-- All tokens of a text: it has no more of them than characters. -/
def allTokens (delim : Char → Bool) (s : Text) : List Text := tokens delim s.length s

theorem length_strtok_lt {delim : Char → Bool} {s t rest : Text}
    (h : strtok delim s = some (t, rest)) : rest.length < s.length := by
  unfold strtok at h
  split at h
  · cases h
  · rename_i c cs hSkip
    have hLe : (c :: cs).length ≤ s.length := by
      rw [← hSkip]
      exact (List.dropWhile_suffix _).length_le
    have hHead : delim c = false := by
      have := List.head_dropWhile_not delim (by rw [hSkip]; exact List.cons_ne_nil c cs)
      simpa [hSkip] using this
    have hRest : rest = (cs.dropWhile (!delim ·)).tail := by
      have hPair := (Prod.mk.inj (Option.some.inj h)).2
      rw [← hPair, List.dropWhile_cons, if_pos (by simpa using hHead)]
    have hDrop : (cs.dropWhile (!delim ·)).length ≤ cs.length :=
      (List.dropWhile_suffix _).length_le
    rw [hRest, List.length_tail]
    rw [List.length_cons] at hLe
    omega

/-- A limit cuts off the tokens behind it. -/
theorem tokens_eq_take {delim : Char → Bool} (n : Nat) : ∀ (m : Nat) (s : Text), s.length ≤ m →
    tokens delim n s = (tokens delim m s).take n := by
  induction n with
  | zero =>
      intro m s _
      rw [List.take_zero]
      rfl
  | succ n ih =>
      intro m s hLen
      cases hTok : strtok delim s with
      | none =>
          cases m with
          | zero => simp [tokens, hTok]
          | succ m => simp [tokens, hTok]
      | some pair =>
          obtain ⟨t, rest⟩ := pair
          have hLt := length_strtok_lt hTok
          obtain ⟨m, rfl⟩ : ∃ k, m = k + 1 := ⟨m - 1, by omega⟩
          simp only [tokens, hTok, List.take_succ_cons]
          rw [ih m rest (by omega)]

theorem tokens_eq_take_all (delim : Char → Bool) (n : Nat) (s : Text) :
    tokens delim n s = (allTokens delim s).take n :=
  tokens_eq_take n s.length s (le_refl _)

theorem length_unwords_le (ws : List Text) :
    (unwords ws).length ≤ (ws.map List.length).sum + ws.length + 1 := by
  induction ws with
  | nil => simp [unwords]
  | cons w ws ih =>
      cases ws with
      | nil => simp [unwords]
      | cons v vs =>
          simp only [unwords, List.length_append, List.length_cons, List.map_cons,
            List.sum_cons] at ih ⊢
          omega

theorem mem_unwords {ws : List Text} {c : Char} (h : c ∈ unwords ws) :
    c = ' ' ∨ c = '\n' ∨ ∃ w ∈ ws, c ∈ w := by
  induction ws with
  | nil => simp_all [unwords]
  | cons w ws ih =>
      cases ws with
      | nil =>
          rcases List.mem_append.mp h with hc | hc
          · exact .inr (.inr ⟨w, by simp, hc⟩)
          · exact .inr (.inl (by simpa using hc))
      | cons v vs =>
          rcases List.mem_append.mp h with hc | hc
          · exact .inr (.inr ⟨w, by simp, hc⟩)
          · rcases List.mem_cons.mp hc with hc | hc
            · exact .inl hc
            · rcases ih hc with hb | hn | ⟨u, hu, hcu⟩
              · exact .inl hb
              · exact .inr (.inl hn)
              · exact .inr (.inr ⟨u, by simp [hu], hcu⟩)

/-! ## Decimal integers -/

/-- `isspace` in the C locale. -/
def isSpace (c : Char) : Bool := c == ' ' || (9 ≤ c.toNat && c.toNat ≤ 13)

/-- The value of the digits a text starts with. -/
def leadingDigits (s : Text) : Int :=
  (Nat.ofDigitChars 10 (s.takeWhile Char.isDigit) 0 : Nat)

/-- `strtol(s, NULL, 10)`, saturating at the 64-bit limits. -/
def strtol (s : Text) : Int :=
  match s.dropWhile isSpace with
  | [] => 0
  | c :: cs =>
      if c = '-' then max (-2 ^ 63) (-leadingDigits cs)
      else if c = '+' then min (2 ^ 63 - 1) (leadingDigits cs)
      else min (2 ^ 63 - 1) (leadingDigits (c :: cs))

/-- glibc's `atoi`: `(int) strtol(s, NULL, 10)`. -/
def atoi (s : Text) : Int := (strtol s).bmod (2 ^ 32)

/-- `printf("%d", n)`. -/
def itoa : Int → Text
  | .ofNat n => Nat.toDigits 10 n
  | .negSucc n => '-' :: Nat.toDigits 10 (n + 1)

/-- The range of the C type `int`. -/
def IsInt (n : Int) : Prop := -2 ^ 31 ≤ n ∧ n < 2 ^ 31

instance (n : Int) : Decidable (IsInt n) := by
  unfold IsInt
  infer_instance

theorem atoi_isInt (s : Text) : IsInt (atoi s) := by
  have hLow := Int.le_bmod (x := strtol s) (m := 2 ^ 32) (by decide)
  have hHigh := Int.bmod_lt (x := strtol s) (m := 2 ^ 32) (by decide)
  simp only [IsInt, atoi]
  omega

private theorem bmod_of_isInt {n : Int} (h : IsInt n) : n.bmod (2 ^ 32) = n := by
  obtain ⟨hLow, hHigh⟩ := h
  exact Int.bmod_eq_of_le (by omega) (by omega)

/-- A decimal integer: digits, and a minus sign before them if it is
negative. -/
inductive Numeral : Text → Int → Prop where
  | nonneg {ds : Text} (hNe : ds ≠ []) (hDigits : ∀ c ∈ ds, c.isDigit = true) :
      Numeral ds (Nat.ofDigitChars 10 ds 0 : Nat)
  | neg {ds : Text} (hNe : ds ≠ []) (hDigits : ∀ c ∈ ds, c.isDigit = true) :
      Numeral ('-' :: ds) (-(Nat.ofDigitChars 10 ds 0 : Nat))

theorem Numeral.ne_nil {w : Text} {n : Int} (h : Numeral w n) : w ≠ [] := by
  cases h with
  | nonneg hNe _ => exact hNe
  | neg _ _ => exact List.cons_ne_nil _ _

theorem Numeral.mem {w : Text} {n : Int} (h : Numeral w n) {c : Char} (hc : c ∈ w) :
    c = '-' ∨ c.isDigit = true := by
  cases h with
  | nonneg _ hDigits => exact .inr (hDigits c hc)
  | neg _ hDigits =>
      rcases List.mem_cons.mp hc with hc | hc
      · exact .inl hc
      · exact .inr (hDigits c hc)

theorem leadingDigits_eq {ds : Text} (hDigits : ∀ c ∈ ds, c.isDigit = true) :
    leadingDigits ds = (Nat.ofDigitChars 10 ds 0 : Nat) := by
  rw [leadingDigits, List.takeWhile_eq_self_iff.mpr hDigits]

theorem leadingDigits_toDigits (n : Nat) : leadingDigits (Nat.toDigits 10 n) = n := by
  rw [leadingDigits_eq, Nat.ofDigitChars_ten_toDigits]
  intro c hc
  exact Nat.isDigit_of_mem_toDigits (by decide) (by decide) hc

/-- A digit is neither a blank nor a sign. -/
private theorem digit_plain {c : Char} (h : c.isDigit = true) :
    isSpace c = false ∧ c ≠ '-' ∧ c ≠ '+' := by
  rw [Char.isDigit_iff_toNat] at h
  have hLow : 48 ≤ c.toNat := h.1
  refine ⟨?_, ?_, ?_⟩
  · have hBlank : c ≠ ' ' := by rintro rfl; exact absurd hLow (by decide)
    have hControl : ¬ c.toNat ≤ 13 := by omega
    simp [isSpace, hBlank, hControl]
  · rintro rfl; exact absurd hLow (by decide)
  · rintro rfl; exact absurd hLow (by decide)

/-- **`atoi` reads numerals** on the range of `int`, leading zeros included. -/
theorem Numeral.atoi_eq {w : Text} {n : Int} (h : Numeral w n) (hInt : IsInt n) :
    atoi w = n := by
  have hWrap := bmod_of_isInt hInt
  obtain ⟨hLow, hHigh⟩ := hInt
  cases h with
  | nonneg hNe hDigits =>
      have hValue := leadingDigits_eq hDigits
      cases w with
      | nil => exact absurd rfl hNe
      | cons c cs =>
          obtain ⟨hSpace, hMinus, hPlus⟩ := digit_plain (hDigits c (by simp))
          have hRead : strtol (c :: cs) = (Nat.ofDigitChars 10 (c :: cs) 0 : Nat) := by
            simp only [strtol, List.dropWhile_cons, hSpace, Bool.false_eq_true, if_false,
              hMinus, hPlus, hValue]
            omega
          rw [atoi, hRead]
          exact hWrap
  | @neg ds hNe hDigits =>
      have hStart : isSpace '-' = false := by decide
      have hRead : strtol ('-' :: ds) = -(Nat.ofDigitChars 10 ds 0 : Nat) := by
        simp only [strtol, List.dropWhile_cons, hStart, Bool.false_eq_true, if_false,
          if_true, leadingDigits_eq hDigits]
        omega
      rw [atoi, hRead]
      exact hWrap

/-- A numeral has one value. -/
theorem Numeral.unique {w : Text} {m n : Int} (hm : Numeral w m) (hn : Numeral w n) :
    m = n := by
  cases hm with
  | nonneg _ hDigits =>
      cases hn with
      | nonneg _ _ => rfl
      | neg _ _ => exact absurd (hDigits '-' List.mem_cons_self) (by decide)
  | neg _ _ =>
      cases hn with
      | nonneg _ hDigits => exact absurd (hDigits '-' List.mem_cons_self) (by decide)
      | neg _ _ => rfl

theorem numeral_itoa (n : Int) : Numeral (itoa n) n := by
  have hDigits : ∀ k, ∀ c ∈ Nat.toDigits 10 k, c.isDigit = true :=
    fun k c hc => Nat.isDigit_of_mem_toDigits (by decide) (by decide) hc
  cases n with
  | ofNat k =>
      have h := Numeral.nonneg Nat.toDigits_ne_nil (hDigits k)
      rw [Nat.ofDigitChars_ten_toDigits] at h
      exact h
  | negSucc k =>
      have h := Numeral.neg Nat.toDigits_ne_nil (hDigits (k + 1))
      rw [Nat.ofDigitChars_ten_toDigits] at h
      exact h

/-- **`atoi` inverts `%d`** on the range of `int`. -/
theorem atoi_itoa {n : Int} (h : IsInt n) : atoi (itoa n) = n :=
  (numeral_itoa n).atoi_eq h

/-- Printed integers are made of digits and at most a sign. -/
theorem mem_itoa {n : Int} {c : Char} (h : c ∈ itoa n) : c = '-' ∨ c.isDigit = true :=
  (numeral_itoa n).mem h

theorem itoa_ne_nil (n : Int) : itoa n ≠ [] :=
  (numeral_itoa n).ne_nil

/-- A printed `int` takes at most eleven characters. -/
theorem length_itoa_le {n : Int} (h : IsInt n) : (itoa n).length ≤ 11 := by
  obtain ⟨hLow, hHigh⟩ := h
  cases n with
  | ofNat k =>
      have hk : k < 10 ^ 10 := by
        have : (Int.ofNat k : Int) = (k : Int) := rfl
        omega
      have := (Nat.length_toDigits_le_iff (b := 10) (n := k) (k := 10)
        (by decide) (by decide)).mpr hk
      simp only [itoa]
      omega
  | negSucc k =>
      have hk : k + 1 < 10 ^ 10 := by
        have : Int.negSucc k = -((k : Int) + 1) := Int.negSucc_eq k
        omega
      have := (Nat.length_toDigits_le_iff (b := 10) (n := k + 1) (k := 10)
        (by decide) (by decide)).mpr hk
      simp only [itoa, List.length_cons]
      omega

theorem itoa_injective {m n : Int} (hm : IsInt m) (hn : IsInt n)
    (h : itoa m = itoa n) : m = n := by
  rw [← atoi_itoa hm, h, atoi_itoa hn]

/-! ## Internet addresses -/

/-- The value of a digit, in bases up to sixteen. -/
def digitVal (c : Char) : Option Nat :=
  if c.isDigit then some (c.toNat - 48)
  else if 'a' ≤ c ∧ c ≤ 'f' then some (c.toNat - 87)
  else if 'A' ≤ c ∧ c ≤ 'F' then some (c.toNat - 55)
  else none

/-- Digits of a base read off the front of a text, and what follows them. -/
def readDigits (base : Nat) : Nat → Text → Nat × Text
  | acc, [] => (acc, [])
  | acc, c :: cs =>
      match (digitVal c).filter (· < base) with
      | some d => readDigits base (acc * base + d) cs
      | none => (acc, c :: cs)

/-- `strtoul(s, &end, 0)` on a text that starts with a digit. -/
def strtoul : Text → Nat × Text
  | '0' :: x :: d :: cs =>
      if (x = 'x' ∨ x = 'X') ∧ (digitVal d).isSome then readDigits 16 0 (d :: cs)
      else readDigits 8 0 (x :: d :: cs)
  | '0' :: cs => readDigits 8 0 cs
  | s => readDigits 10 0 s

/-- The numbers of an address in numbers-and-dots notation, at most `n` of
them; each one that a dot follows is a byte. -/
def inetParts : Nat → Text → Option (List Nat)
  | 0, _ => none
  | n + 1, s =>
      if (s.head?.map Char.isDigit).getD false && (strtoul s).1 ≤ 0xffffffff then
        match (strtoul s).2 with
        | [] => some [(strtoul s).1]
        | '.' :: rest =>
            if (strtoul s).1 ≤ 0xff then (inetParts n rest).map ((strtoul s).1 :: ·) else none
        | c :: _ => if isSpace c then some [(strtoul s).1] else none
      else none

/-- glibc's `inet_addr`, the result read as an `int`: the bytes of the address
in network order, seen as a little-endian word; `-1` for a malformed text. -/
def inetAddr (cp : Text) : Int :=
  match (inetParts 4 (cString cp)).map List.reverse with
  | some (last :: front) =>
      if last < 256 ^ (4 - front.length) then
        let bytes := front.reverse ++
          (List.range (4 - front.length)).map fun i => last / 256 ^ (3 - front.length - i) % 256
        (Int.ofNat (bytes.foldr (fun b word => b + 256 * word) 0)).bmod (2 ^ 32)
      else -1
  | _ => -1

/-- Exactly `n` decimal bytes with dots between them, none written with a leading zero. -/
def decimalBytes : Nat → Text → Option (List Nat)
  | 0, _ => none
  | n + 1, s =>
      let digits := s.takeWhile Char.isDigit
      let byte := (readDigits 10 0 digits).1
      if digits = [] ∨ (digits.head? = some '0' ∧ digits ≠ ['0']) ∨ 255 < byte then none
      else
        match s.dropWhile Char.isDigit with
        | [] => if n = 0 then some [byte] else none
        | c :: rest =>
            if n ≠ 0 ∧ c = '.' then (decimalBytes n rest).map (byte :: ·) else none

/-- `inet_pton(AF_INET, src, ..)`: only the form with four decimal bytes is an address.  The
result is in the form of `inetAddr`. -/
def inetPton (src : Text) : Option Int :=
  (decimalBytes 4 (cString src)).map fun bytes =>
    (Int.ofNat (bytes.foldr (fun b word => b + 256 * word) 0)).bmod (2 ^ 32)

example : inetPton "10.0.0.1".toList = some (inetAddr "10.0.0.1".toList) := by decide +kernel

/-- `inet_ntop` on an address stored as an `int`. -/
def inetNtop (addr : Int) : Text :=
  let byte := fun i : Nat => itoa (addr / 256 ^ i % 256)
  byte 0 ++ '.' :: byte 1 ++ '.' :: byte 2 ++ '.' :: byte 3

private theorem digitVal_of_isDigit {c : Char} (h : c.isDigit = true) :
    (digitVal c).filter (· < 10) = some (c.toNat - 48) := by
  have hRange := (Char.isDigit_iff_toNat).mp h
  have hLow : 48 ≤ c.toNat := hRange.1
  have hHigh : c.toNat ≤ 57 := hRange.2
  have hLt : c.toNat - 48 < 10 := by omega
  rw [digitVal, if_pos h, Option.filter_some, if_pos (by simpa using hLt)]

/-- Decimal digits up to a character that is none. -/
private theorem readDigits_append {ds : Text} (hDigits : ∀ c ∈ ds, c.isDigit = true) (rest : Text)
    (hRest : ∀ c ∈ rest.head?, (digitVal c).filter (· < 10) = none) :
    ∀ acc, readDigits 10 acc (ds ++ rest) = (Nat.ofDigitChars 10 ds acc, rest) := by
  induction ds with
  | nil =>
      intro acc
      cases rest with
      | nil => rfl
      | cons c cs =>
          simp only [List.nil_append, readDigits, hRest c rfl]
          rfl
  | cons d ds ih =>
      intro acc
      have hHead := digitVal_of_isDigit (hDigits d (by simp))
      simp only [List.cons_append, readDigits, hHead]
      rw [ih fun c hc => hDigits c (by simp [hc]), Nat.ofDigitChars_cons]
      rw [Nat.mul_comm acc 10]
      rfl

private theorem head_byte : ∀ b : Fin 256, b ≠ 0 → (Nat.toDigits 10 b).head? ≠ some '0' := by
  decide +kernel

/-- A byte in decimal, at the end or before a dot. -/
private theorem strtoul_byte (b : Fin 256) (rest : Text) (hRest : rest.head?.getD '.' = '.') :
    strtoul (Nat.toDigits 10 b ++ rest) = (b.val, rest) := by
  have hStop : ∀ c ∈ rest.head?, c = '.' := by
    intro c hc
    rw [Option.mem_def] at hc
    rw [hc] at hRest
    exact hRest
  have hDigits : ∀ c ∈ Nat.toDigits 10 b, c.isDigit = true := fun c hc =>
    Nat.isDigit_of_mem_toDigits (by decide) (by decide) hc
  have hRead := readDigits_append hDigits rest
    (fun c hc => by rw [hStop c hc]; decide) 0
  rw [Nat.ofDigitChars_ten_toDigits] at hRead
  by_cases hZero : b = 0
  · subst hZero
    cases rest with
    | nil => rfl
    | cons c cs =>
        obtain rfl := hStop c rfl
        cases cs with
        | nil => rfl
        | cons d ds => rfl
  · have hHead : (Nat.toDigits 10 b).head? ≠ some '0' := head_byte b hZero
    rw [← hRead]
    cases hText : Nat.toDigits 10 b with
    | nil => exact absurd hText Nat.toDigits_ne_nil
    | cons c cs =>
        rw [hText] at hHead
        have hc : c ≠ '0' := fun h => hHead (congrArg some h)
        simp [strtoul, hc]

/-- The dotted quad of four bytes. -/
def dottedQuad (a b c d : Fin 256) : Text :=
  Nat.toDigits 10 a ++ '.' :: Nat.toDigits 10 b ++ '.' :: Nat.toDigits 10 c ++
    '.' :: Nat.toDigits 10 d

private theorem head_digit (b : Fin 256) (rest : Text) :
    ((Nat.toDigits 10 b ++ rest).head?.map Char.isDigit).getD false = true := by
  cases hText : Nat.toDigits 10 b with
  | nil => exact absurd hText Nat.toDigits_ne_nil
  | cons c cs =>
      have hDigit : c.isDigit = true :=
        Nat.isDigit_of_mem_toDigits (by decide) (by decide) (hText ▸ List.mem_cons_self)
      simpa using hDigit

private theorem inetParts_dot (n : Nat) (b : Fin 256) (rest : Text) :
    inetParts (n + 1) (Nat.toDigits 10 b ++ '.' :: rest) =
      (inetParts n rest).map (b.val :: ·) := by
  have hByte := strtoul_byte b ('.' :: rest) rfl
  have hSmall : b.val ≤ 0xff := by omega
  have hWord : b.val ≤ 0xffffffff := by omega
  rw [inetParts, head_digit, hByte]
  simp only [hSmall, hWord, decide_true, Bool.and_true, if_true]

private theorem inetParts_last (n : Nat) (b : Fin 256) :
    inetParts (n + 1) (Nat.toDigits 10 b) = some [b.val] := by
  have hByte := strtoul_byte b [] rfl
  have hHead := head_digit b []
  have hWord : b.val ≤ 0xffffffff := by omega
  rw [List.append_nil] at hByte hHead
  rw [inetParts, hHead, hByte]
  simp only [hWord, decide_true, Bool.and_true, if_true]

theorem mem_dottedQuad {a b c d : Fin 256} {x : Char} (h : x ∈ dottedQuad a b c d) :
    x = '.' ∨ x.isDigit = true := by
  have hDigit : ∀ {n : Nat}, x ∈ Nat.toDigits 10 n → x.isDigit = true := fun hx =>
    Nat.isDigit_of_mem_toDigits (by decide) (by decide) hx
  simp only [dottedQuad, List.mem_append, List.mem_cons] at h
  rcases h with ((h | h | h) | h | h) | h | h
  · exact .inr (hDigit h)
  · exact .inl h
  · exact .inr (hDigit h)
  · exact .inl h
  · exact .inr (hDigit h)
  · exact .inl h
  · exact .inr (hDigit h)

private theorem length_byte : ∀ b : Fin 256, (Nat.toDigits 10 b).length ≤ 3 := by
  decide +kernel

theorem length_dottedQuad_le (a b c d : Fin 256) : (dottedQuad a b c d).length ≤ 15 := by
  have ha := length_byte a
  have hb := length_byte b
  have hc := length_byte c
  have hd := length_byte d
  simp only [dottedQuad, List.length_append, List.length_cons]
  omega

/-- The bytes of a dotted quad, the first one lowest. -/
theorem inetAddr_dottedQuad (a b c d : Fin 256) :
    inetAddr (dottedQuad a b c d) =
      ((a + 256 * (b + 256 * (c + 256 * d)) : Nat) : Int).bmod (2 ^ 32) := by
  have hNul : '\x00' ∉ dottedQuad a b c d := by
    intro h
    rcases mem_dottedQuad h with h | h
    · exact absurd h (by decide)
    · exact absurd h (by decide)
  have hParts : inetParts 4 (dottedQuad a b c d) = some [a.val, b.val, c.val, d.val] := by
    simp only [dottedQuad, List.append_assoc, List.cons_append, inetParts_dot, inetParts_last,
      Option.map_some]
  have hLast : d.val % 256 = d.val := Nat.mod_eq_of_lt d.isLt
  rw [inetAddr, cString_eq_self hNul, hParts]
  simp [hLast]

theorem inetNtop_eq_dottedQuad (addr : Int) :
    ∃ a b c d : Fin 256, inetNtop addr = dottedQuad a b c d ∧
      (a.val : Int) = addr % 256 ∧ (b.val : Int) = addr / 256 % 256 ∧
      (c.val : Int) = addr / 256 ^ 2 % 256 ∧ (d.val : Int) = addr / 256 ^ 3 % 256 := by
  have hByte : ∀ n : Int, ∃ b : Fin 256, (b.val : Int) = n % 256 := by
    intro n
    exact ⟨⟨(n % 256).toNat, by omega⟩, by show ((n % 256).toNat : Int) = _; omega⟩
  obtain ⟨a, ha⟩ := hByte addr
  obtain ⟨b, hb⟩ := hByte (addr / 256)
  obtain ⟨c, hc⟩ := hByte (addr / 256 ^ 2)
  obtain ⟨d, hd⟩ := hByte (addr / 256 ^ 3)
  refine ⟨a, b, c, d, ?_, ha, hb, hc, hd⟩
  show itoa (addr / 1 % 256) ++ '.' :: itoa (addr / 256 % 256) ++
    '.' :: itoa (addr / 256 ^ 2 % 256) ++ '.' :: itoa (addr / 256 ^ 3 % 256) = _
  rw [Int.ediv_one, ← ha, ← hb, ← hc, ← hd]
  rfl

/-- **`inet_addr` inverts `inet_ntop`.** -/
theorem inetAddr_inetNtop {addr : Int} (h : IsInt addr) : inetAddr (inetNtop addr) = addr := by
  obtain ⟨a, b, c, d, hText, ha, hb, hc, hd⟩ := inetNtop_eq_dottedQuad addr
  obtain ⟨hLow, hHigh⟩ := h
  rw [hText, inetAddr_dottedQuad]
  have hWord : ((a + 256 * (b + 256 * (c + 256 * d)) : Nat) : Int) = addr % 4294967296 := by
    rw [Int.natCast_add, Int.natCast_mul, Int.natCast_add, Int.natCast_mul, Int.natCast_add,
      Int.natCast_mul]
    omega
  rw [hWord, Int.bmod_def]
  omega

theorem inetNtop_injective {m n : Int} (hm : IsInt m) (hn : IsInt n)
    (h : inetNtop m = inetNtop n) : m = n := by
  rw [← inetAddr_inetNtop hm, h, inetAddr_inetNtop hn]

theorem mem_inetNtop {addr : Int} {x : Char} (h : x ∈ inetNtop addr) :
    x = '.' ∨ x.isDigit = true := by
  obtain ⟨a, b, c, d, hText, -⟩ := inetNtop_eq_dottedQuad addr
  rw [hText] at h
  exact mem_dottedQuad h

end ResourceAgent.Verified.CText
