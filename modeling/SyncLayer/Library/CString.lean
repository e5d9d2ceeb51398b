import Mathlib.Data.List.Basic
import Mathlib.Data.List.TakeWhile

/-!
# C Strings

The character class and the number reader of the C library that parsers of C strings
share, the characters of a printed integer, and a rule for machines that collect
characters. Characters are those of the C locale.
-/

namespace SyncLayer.CString

/-- `isspace` -/
def isspace (c : Char) : Bool :=
  c = ' ' || c = '\t' || c = '\n' || c = '\x0b' || c = '\x0c' || c = '\r'

/-! ## Reading one character at a time -/

/-- A machine whose state `f s₀` collects the characters of `s` has collected all of them. -/
theorem foldl_collect {σ : Type} {step : σ → Char → σ} {f : List Char → σ} {s : List Char}
    (hstep : ∀ s₀, ∀ c ∈ s, step (f s₀) c = f (s₀ ++ [c])) (s₀ : List Char) :
    s.foldl step (f s₀) = f (s₀ ++ s) := by
  induction s generalizing s₀ with
  | nil => rw [List.append_nil, List.foldl_nil]
  | cons c s ih =>
    have hrest := ih (fun s₁ x hx => hstep s₁ x (List.mem_cons_of_mem _ hx)) (s₀ ++ [c])
    rw [List.foldl_cons, hstep s₀ c (List.mem_cons_self ..), hrest, List.append_assoc,
      List.singleton_append]

/-! ## C strings -/

/-- The characters a `const char*` carries: those before the first NUL. -/
def cStr (s : List Char) : List Char := s.takeWhile (· ≠ '\x00')

theorem cStr_eq_self {s : List Char} (h : '\x00' ∉ s) : cStr s = s := by
  rw [cStr, List.takeWhile_eq_self_iff]
  intro c hc
  have hne : c ≠ '\x00' := fun hnul => h (hnul ▸ hc)
  simpa using hne

/-- A text with a NUL loses characters on its way. -/
theorem length_cStr_lt {s : List Char} (h : '\x00' ∈ s) : (cStr s).length < s.length := by
  have hfront : cStr s <+: s := List.takeWhile_prefix _
  refine Nat.lt_of_le_of_ne hfront.length_le fun hlength => ?_
  have hself := hfront.eq_of_length hlength
  rw [cStr, List.takeWhile_eq_self_iff] at hself
  simpa using hself _ h

/-- The value of a run of decimal digits. -/
def digitsValue (digits : List Char) : Nat :=
  digits.foldl (fun n c => 10 * n + (c.toNat - '0'.toNat)) 0

/-- The number at the front of a text: its longest run of decimal digits, if any. -/
def decimalPrefix (s : List Char) : Option Nat :=
  match s.takeWhile Char.isDigit with
  | [] => none
  | digits => some (digitsValue digits)

/-- The integer `strtol` reads in base 10: blanks, an optional sign, digits. -/
def strtol (s : List Char) : Option Int :=
  match s.dropWhile isspace with
  | '-' :: rest => (decimalPrefix rest).map fun n => -(n : Int)
  | '+' :: rest => (decimalPrefix rest).map fun n => (n : Int)
  | rest => (decimalPrefix rest).map fun n => (n : Int)

example : strtol " -42x".toList = some (-42) := by decide

/-! ## Printed integers -/

/-- The characters of a printed integer. -/
theorem numeral_toString (n : Int) : ∀ c ∈ (toString n).toList, c = '-' ∨ c.isDigit := by
  intro c hc
  rw [Int.toString_eq_repr] at hc
  cases n with
  | ofNat m =>
    rw [Int.repr, Nat.toList_repr] at hc
    exact .inr (Nat.isDigit_of_mem_toDigits (by decide) (by decide) hc)
  | negSucc m =>
    rw [Int.repr, String.toList_append, Nat.toList_repr] at hc
    rcases List.mem_append.1 hc with hc | hc
    · exact .inl (by simpa using hc)
    · exact .inr (Nat.isDigit_of_mem_toDigits (by decide) (by decide) hc)

/-- None of them is any other character. -/
theorem ne_of_numeral {c d : Char} (hc : c = '-' ∨ c.isDigit) (hd : ¬ (d = '-' ∨ d.isDigit)) :
    c ≠ d := by
  rintro rfl
  exact hd hc

/-- The decimal digits of a number do not begin with a superfluous zero. -/
theorem toDigits_head {n : Nat} (h : (Nat.toDigits 10 n).head? = some '0') : n = 0 := by
  induction n using Nat.strongRecOn with
  | ind n ih =>
    rw [Nat.toDigits_eq_if (by decide)] at h
    split at h
    · simpa using h
    · -- the digits begin with those of `n / 10`
      rw [List.head?_append_of_ne_nil _ Nat.toDigits_ne_nil] at h
      have hdiv := ih (n / 10) (by omega) h
      omega

theorem digitsValue_toDigits (n : Nat) : digitsValue (Nat.toDigits 10 n) = n :=
  Nat.ofDigitChars_ten_toDigits

/-! ## Integers without anything behind them -/

/-- `s` is blanks, a sign if there is one, and digits that make `n`. -/
def IntLiteral (s : List Char) (n : Int) : Prop :=
  ∃ blanks digits : List Char, (∀ c ∈ blanks, isspace c) ∧ digits ≠ [] ∧
    (∀ c ∈ digits, c.isDigit) ∧
    (s = blanks ++ digits ∧ n = digitsValue digits ∨
      s = blanks ++ '+' :: digits ∧ n = digitsValue digits ∨
      s = blanks ++ '-' :: digits ∧ n = -digitsValue digits)

theorem decimalPrefix_of_digits {digits : List Char} (hne : digits ≠ [])
    (hdigits : ∀ c ∈ digits, c.isDigit) : decimalPrefix digits = some (digitsValue digits) := by
  have hall : digits.takeWhile Char.isDigit = digits := List.takeWhile_eq_self_iff.2 hdigits
  cases digits with
  | nil => exact absurd rfl hne
  | cons c digits => rw [decimalPrefix, hall]

theorem strtol_blanks {blanks : List Char} (hblanks : ∀ c ∈ blanks, isspace c) (s : List Char) :
    strtol (blanks ++ s) = strtol s := by
  rw [strtol, strtol, List.dropWhile_append_of_pos hblanks]

theorem isspace_of_numeral {c : Char} (hc : c = '-' ∨ c.isDigit) : isspace c = false := by
  simp only [isspace, Bool.or_eq_false_iff, decide_eq_false_iff_not]
  refine ⟨⟨⟨⟨⟨?_, ?_⟩, ?_⟩, ?_⟩, ?_⟩, ?_⟩ <;> exact ne_of_numeral hc (by decide)

theorem strtol_plus (s : List Char) :
    strtol ('+' :: s) = (decimalPrefix s).map Int.ofNat := by
  rw [strtol, List.dropWhile_cons_of_neg (by decide)]
  cases h : decimalPrefix s with
  | none => simp [h]
  | some n => simp [h]

theorem strtol_minus (s : List Char) :
    strtol ('-' :: s) = (decimalPrefix s).map Int.negOfNat := by
  rw [strtol, List.dropWhile_cons_of_neg (by decide)]
  cases h : decimalPrefix s with
  | none => simp [h]
  | some n => simp [h, Int.negOfNat_eq]

/-- A digit is neither a blank nor a sign. -/
theorem strtol_digit {c : Char} (hc : c.isDigit) (s : List Char) :
    strtol (c :: s) = (decimalPrefix (c :: s)).map Int.ofNat := by
  rw [strtol, List.dropWhile_cons_of_neg (by simp [isspace_of_numeral (.inr hc)])]
  split
  · next h =>
    cases h
    exact absurd hc (by decide)
  · next h =>
    cases h
    exact absurd hc (by decide)
  · cases decimalPrefix (c :: s) <;> rfl

theorem strtol_of_literal {s : List Char} {n : Int} (h : IntLiteral s n) : strtol s = some n := by
  obtain ⟨blanks, digits, hblanks, hne, hdigits, hs⟩ := h
  have hvalue := decimalPrefix_of_digits hne hdigits
  obtain ⟨rfl, rfl⟩ | ⟨rfl, rfl⟩ | ⟨rfl, rfl⟩ := hs
  · rw [strtol_blanks hblanks]
    cases digits with
    | nil => exact absurd rfl hne
    | cons c digits =>
      rw [strtol_digit (hdigits c (List.mem_cons_self ..)), hvalue]
      rfl
  · rw [strtol_blanks hblanks, strtol_plus, hvalue]
    rfl
  · rw [strtol_blanks hblanks, strtol_minus, hvalue, Option.map_some, Int.negOfNat_eq]
    rfl

end SyncLayer.CString
