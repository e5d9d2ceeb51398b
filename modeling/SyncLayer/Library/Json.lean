import Mathlib.Data.List.Basic
import SyncLayer.Library.CString

/-!
# Reading JSON

The JSON texts in which strings have no escapes and numbers no fraction and no exponent.
Whatever is read here is a JSON text, and it is read as JSON has it: no leading zeros, no
trailing commas, nothing behind the value.

The lexer takes one character at a time, so that what it has read of a text is the state it
is in (`read_append`), and what was read before stays (`read_blank`).
-/

namespace SyncLayer.Json

open SyncLayer.CString

abbrev Text := List Char

inductive Value where
  | null
  | bool (b : Bool)
  | integer (n : Int)
  | string (s : String)
  | array (values : List Value)
  /-- The members in their order. -/
  | object (members : List (String × Value))

/-! ## The lexer -/

inductive Token where
  /-- A bracket, a brace, a colon or a comma. -/
  | symbol (c : Char)
  | string (s : Text)
  | integer (n : Int)
  | word (w : Text)
  deriving DecidableEq

/-- What the lexer is in the middle of. -/
inductive Mode where
  | blank
  | string (s : Text)
  | numeral (s : Text)
  | word (w : Text)
  | failed
  deriving DecidableEq

structure Lexer where
  mode : Mode
  /-- Newest first. -/
  tokens : List Token
  deriving DecidableEq

def isBlank (c : Char) : Bool := c = ' ' || c = '\t' || c = '\n' || c = '\r'

def isSymbol (c : Char) : Bool :=
  c = '[' || c = ']' || c = '\x7b' || c = '\x7d' || c = ':' || c = ','

/-- The characters of numbers, also of those that are not read. -/
def numeralChar (c : Char) : Bool :=
  c.isDigit || c = '-' || c = '+' || c = '.' || c = 'e' || c = 'E'

/-- A character that stands for itself in a string. -/
def plainChar (c : Char) : Bool := c ≠ '"' && c ≠ '\\' && 32 ≤ c.toNat

/-- Digits without a superfluous zero in front. -/
def readNatural (s : Text) : Option Nat :=
  if s ≠ [] ∧ s.all Char.isDigit ∧ (s.head? = some '0' → s = ['0']) then
    some (Nat.ofDigitChars 10 s 0)
  else none

def readInteger : Text → Option Int
  | '-' :: s => (readNatural s).map fun n => -(n : Int)
  | s => (readNatural s).map Int.ofNat

/-- A character where no token is open. -/
def start (tokens : List Token) (c : Char) : Lexer :=
  if isBlank c then ⟨.blank, tokens⟩
  else if isSymbol c then ⟨.blank, .symbol c :: tokens⟩
  else if c = '"' then ⟨.string [], tokens⟩
  else if c.isDigit || c = '-' then ⟨.numeral [c], tokens⟩
  else if c.isLower then ⟨.word [c], tokens⟩
  else ⟨.failed, tokens⟩

def step : Lexer → Char → Lexer
  | ⟨.blank, ts⟩, c => start ts c
  | ⟨.string s, ts⟩, c =>
    if c = '"' then ⟨.blank, .string s :: ts⟩
    else if plainChar c then ⟨.string (s ++ [c]), ts⟩
    else ⟨.failed, ts⟩
  | ⟨.numeral s, ts⟩, c =>
    if numeralChar c then ⟨.numeral (s ++ [c]), ts⟩
    -- the first character that cannot belong to the number ends it
    else match readInteger s with
      | some n => start (.integer n :: ts) c
      | none => ⟨.failed, ts⟩
  | ⟨.word w, ts⟩, c =>
    -- words are checked by the parser
    if c.isLower then ⟨.word (w ++ [c]), ts⟩ else start (.word w :: ts) c
  | ⟨.failed, ts⟩, _ => ⟨.failed, ts⟩

def read (m : Lexer) (s : Text) : Lexer := s.foldl step m

/-- The tokens at the end of the text. -/
def finish : Lexer → Option (List Token)
  | ⟨.blank, ts⟩ => some ts.reverse
  | ⟨.numeral s, ts⟩ => (readInteger s).map fun n => (Token.integer n :: ts).reverse
  | ⟨.word w, ts⟩ => some (Token.word w :: ts).reverse
  | ⟨.string _, _⟩ => none
  | ⟨.failed, _⟩ => none

def lex (s : Text) : Option (List Token) := finish (read ⟨.blank, []⟩ s)

/-! ## The parser -/

def keyword (w : Text) : Option Value :=
  if w = "null".toList then some .null
  else if w = "true".toList then some (.bool true)
  else if w = "false".toList then some (.bool false)
  else none

mutual

/-- A value, and the tokens behind it. The budget bounds the depth of the recursion. -/
def value : (fuel : Nat) → List Token → Option (Value × List Token)
  | 0, _ => none
  | _ + 1, .string s :: ts => some (.string (String.ofList s), ts)
  | _ + 1, .integer n :: ts => some (.integer n, ts)
  | _ + 1, .word w :: ts => (keyword w).map fun v => (v, ts)
  | _ + 1, .symbol '[' :: .symbol ']' :: ts => some (.array [], ts)
  | fuel + 1, .symbol '[' :: ts => (elements fuel ts).map fun x => (.array x.1, x.2)
  | _ + 1, .symbol '\x7b' :: .symbol '\x7d' :: ts => some (.object [], ts)
  | fuel + 1, .symbol '\x7b' :: ts => (members fuel ts).map fun x => (.object x.1, x.2)
  | _ + 1, _ => none

/-- The rest of an array, from an element on. -/
def elements : (fuel : Nat) → List Token → Option (List Value × List Token)
  | 0, _ => none
  | fuel + 1, ts =>
    match value fuel ts with
    | some (v, .symbol ']' :: ts) => some ([v], ts)
    | some (v, .symbol ',' :: ts) => (elements fuel ts).map fun x => (v :: x.1, x.2)
    | _ => none

/-- The rest of an object, from a member on. -/
def members : (fuel : Nat) → List Token → Option (List (String × Value) × List Token)
  | fuel + 1, .string s :: .symbol ':' :: ts =>
    match value fuel ts with
    | some (v, .symbol '\x7d' :: ts) => some ([(String.ofList s, v)], ts)
    | some (v, .symbol ',' :: ts) =>
      (members fuel ts).map fun x => ((String.ofList s, v) :: x.1, x.2)
    | _ => none
  | _, _ => none

end

/-- The value of a text. Every call but those of an element takes a token, so twice the
    number of tokens is enough. -/
def parse (s : Text) : Option Value := do
  let ts ← lex s
  match value (2 * ts.length) ts with
  | some (v, []) => some v
  | _ => none

/-! ## Objects -/

section Objects

variable {fuel : Nat} {s : Text} {v : Value} {ms : List (String × Value)} {ts ts' ts'' : List Token}

theorem value_string :
    value (fuel + 1) (.string s :: ts) = some (.string (String.ofList s), ts) := by
  simp [value]

theorem value_object (h : members fuel (.string s :: ts) = some (ms, ts')) :
    value (fuel + 1) (.symbol '\x7b' :: .string s :: ts) = some (.object ms, ts') := by
  simp [value, h]

theorem members_last (h : value fuel ts = some (v, .symbol '\x7d' :: ts')) :
    members (fuel + 1) (.string s :: .symbol ':' :: ts) = some ([(String.ofList s, v)], ts') := by
  simp [members, h]

theorem members_cons (h : value fuel ts = some (v, .symbol ',' :: ts'))
    (hrest : members fuel ts' = some (ms, ts'')) :
    members (fuel + 1) (.string s :: .symbol ':' :: ts) =
      some ((String.ofList s, v) :: ms, ts'') := by
  simp [members, h, hrest]

end Objects

example : (parse "[1, \x7b\"a\": [-20, true]\x7d]".toList).isSome = true := by decide +kernel

example : (parse "[01]".toList).isSome = false := by decide +kernel

/-! ## Reading a text piece by piece -/

theorem read_append (m : Lexer) (s s' : Text) : read m (s ++ s') = read (read m s) s' :=
  List.foldl_append ..

@[simp] theorem read_cons (m : Lexer) (c : Char) (s : Text) :
    read m (c :: s) = read (step m c) s := rfl

/-- The same machine, with tokens before its own. -/
def Lexer.after (m : Lexer) (ts : List Token) : Lexer := ⟨m.mode, m.tokens ++ ts⟩

theorem start_after (ts ts' : List Token) (c : Char) :
    start (ts ++ ts') c = (start ts c).after ts' := by
  unfold start
  repeat' split
  all_goals rfl

theorem step_after (m : Lexer) (ts : List Token) (c : Char) :
    step (m.after ts) c = (step m c).after ts := by
  obtain ⟨mode, tokens⟩ := m
  cases mode with
  | blank => exact start_after tokens ts c
  | string s =>
    simp only [Lexer.after, step]
    split
    · rfl
    · split
      · rfl
      · rfl
  | numeral s =>
    simp only [Lexer.after, step]
    split
    · rfl
    · split
      · next n _ => exact start_after (.integer n :: tokens) ts c
      · rfl
  | word w =>
    simp only [Lexer.after, step]
    split
    · rfl
    · exact start_after (.word w :: tokens) ts c
  | failed => rfl

theorem read_after (m : Lexer) (ts : List Token) (s : Text) :
    read (m.after ts) s = (read m s).after ts :=
  List.foldl_hom (Lexer.after · ts) fun m c => step_after m ts c

/-- What was read before stays. -/
theorem read_blank {s : Text} {mode : Mode} {tokens : List Token}
    (h : read ⟨.blank, []⟩ s = ⟨mode, tokens⟩) (ts : List Token) :
    read ⟨.blank, ts⟩ s = ⟨mode, tokens ++ ts⟩ := by
  have hafter := read_after ⟨.blank, []⟩ ts s
  rwa [h] at hafter

/-! ## Strings -/

/-- A text that stands for itself in a string. -/
def Plain (s : Text) : Prop := ∀ c ∈ s, plainChar c = true

theorem read_plain {s : Text} (hs : Plain s) (s' : Text) (ts : List Token) :
    read ⟨.string s', ts⟩ s = ⟨.string (s' ++ s), ts⟩ := by
  apply foldl_collect (f := fun s => Lexer.mk (.string s) ts)
  intro s₁ c hc
  have hplain : plainChar c = true := hs c hc
  have hquote : c ≠ '"' := by
    rintro rfl
    exact absurd hplain (by decide)
  rw [step, if_neg hquote, if_pos hplain]

/-! ## Integers -/

theorem readNatural_toDigits (n : Nat) : readNatural (Nat.toDigits 10 n) = some n := by
  have hdigits : (Nat.toDigits 10 n).all Char.isDigit = true := by
    rw [List.all_eq_true]
    intro c hc
    exact Nat.isDigit_of_mem_toDigits (by decide) (by decide) hc
  have hzero : (Nat.toDigits 10 n).head? = some '0' → Nat.toDigits 10 n = ['0'] := by
    intro h
    rw [toDigits_head h, Nat.toDigits_zero]
  rw [readNatural, if_pos ⟨Nat.toDigits_ne_nil, hdigits, hzero⟩, Nat.ofDigitChars_ten_toDigits]

theorem readInteger_toString (n : Int) : readInteger (toString n).toList = some n := by
  rw [Int.toString_eq_repr]
  cases n with
  | ofNat m =>
    -- the digits have no sign, so the second case of `readInteger` applies
    have hminus : ∀ s, Nat.toDigits 10 m ≠ '-' :: s := by
      intro s hs
      have hdigit : '-'.isDigit = true := by
        apply Nat.isDigit_of_mem_toDigits (b := 10) (n := m) (by decide) (by decide)
        rw [hs]
        exact List.mem_cons_self ..
      exact absurd hdigit (by decide)
    rw [Int.repr, Nat.toList_repr, readInteger, readNatural_toDigits]
    · rfl
    · exact hminus
  | negSucc m =>
    have hsign : "-".toList ++ Nat.toDigits 10 (m + 1) = '-' :: Nat.toDigits 10 (m + 1) := by
      simp
    rw [Int.repr, String.toList_append, Nat.toList_repr, hsign, readInteger,
      readNatural_toDigits]
    rfl

theorem start_numeral {c : Char} (hc : c = '-' ∨ c.isDigit) (ts : List Token) :
    start ts c = ⟨.numeral [c], ts⟩ := by
  -- of the cases of `start`, those before the one of numbers are excluded
  have hblank : ¬ isBlank c = true := by
    simp [isBlank, ne_of_numeral hc]
  have hsymbol : ¬ isSymbol c = true := by
    simp [isSymbol, ne_of_numeral hc]
  have hquote : c ≠ '"' := ne_of_numeral hc (by decide)
  have hnumeral : (c.isDigit || c = '-') = true := by
    obtain rfl | hdigit := hc
    · decide
    · simp [hdigit]
  rw [start, if_neg hblank, if_neg hsymbol, if_neg hquote, if_pos hnumeral]

theorem numeralChar_of_numeral {c : Char} (hc : c = '-' ∨ c.isDigit) : numeralChar c = true := by
  obtain rfl | hdigit := hc
  · decide
  · simp [numeralChar, hdigit]

theorem read_numeralChars {s : Text} (hs : ∀ c ∈ s, numeralChar c = true) (s' : Text)
    (ts : List Token) : read ⟨.numeral s', ts⟩ s = ⟨.numeral (s' ++ s), ts⟩ := by
  apply foldl_collect (f := fun s => Lexer.mk (.numeral s) ts)
  intro s₁ c hc
  rw [step, if_pos (hs c hc)]

theorem read_toString (n : Int) (ts : List Token) :
    read ⟨.blank, ts⟩ (toString n).toList = ⟨.numeral (toString n).toList, ts⟩ := by
  have hchars := numeral_toString n
  cases hs : (toString n).toList with
  | nil =>
    have hread := readInteger_toString n
    rw [hs] at hread
    cases hread
  | cons c s =>
    rw [hs] at hchars
    have hrest : ∀ x ∈ s, numeralChar x = true := fun x hx =>
      numeralChar_of_numeral (hchars x (List.mem_cons_of_mem _ hx))
    rw [read_cons, step, start_numeral (hchars c (List.mem_cons_self ..)),
      read_numeralChars hrest]
    rfl

/-- A number ends where something else begins. -/
theorem read_numeral (n : Int) (ts : List Token) {c : Char} (hc : numeralChar c = false)
    (s : Text) :
    read ⟨.numeral (toString n).toList, ts⟩ (c :: s) =
      read ⟨.blank, .integer n :: ts⟩ (c :: s) := by
  have hmore : ¬ numeralChar c = true := by simp [hc]
  simp only [read_cons, step, if_neg hmore, readInteger_toString]

end SyncLayer.Json
