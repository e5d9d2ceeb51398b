import SyncLayer.Library.CString

/-!
# Reading SQL

The lexical structure of SQL: words, folded to lower case; delimited identifiers and
string literals, which end at the first delimiter that is not doubled; literals of the
form `E'..'`, where a backslash escapes; numbers; and every other character as a symbol.
Blanks and comments to the end of the line separate tokens.

The lexer is a state machine that takes one character at a time, so that what it has read
of a text is the state it is in, and a text may be cut anywhere.
-/

namespace SyncLayer.Sql

open SyncLayer.CString

abbrev Text := List Char

/-! ## The lexer -/

inductive Delimiter where
  | identifier
  | literal
  deriving DecidableEq

def Delimiter.char : Delimiter → Char
  | .identifier => '"'
  | .literal => '\''

inductive Token where
  | word (w : Text)
  | number (digits : Text)
  | delimited (d : Delimiter) (content : Text)
  | escapeString (content : Text)
  | symbol (c : Char)
  deriving DecidableEq

/-- What the lexer is in the middle of. -/
inductive Mode where
  | blank
  | dash
  | comment
  | word (w : Text)
  | number (digits : Text)
  | inside (d : Delimiter) (content : Text)
  /-- Behind a delimiter that may still turn out to be doubled. -/
  | closing (d : Delimiter) (content : Text)
  | escape (content : Text)
  | backslash (content : Text)
  | escapeClosing (content : Text)
  deriving DecidableEq

structure Lexer where
  mode : Mode
  /-- Newest first. -/
  tokens : List Token
  deriving DecidableEq

/-- The first character of a word; bytes above 127 belong to letters. -/
def wordStart (c : Char) : Bool := c.isAlpha || c = '_' || 128 ≤ c.toNat

def wordChar (c : Char) : Bool := wordStart c || c.isDigit || c = '$'

/-- Words are folded to lower case. -/
def fold (w : Text) : Text := w.map Char.toLower

/-- A character where no token is open. -/
def start (tokens : List Token) (c : Char) : Lexer :=
  if isspace c then ⟨.blank, tokens⟩
  else if c = '"' then ⟨.inside .identifier [], tokens⟩
  else if c = '\'' then ⟨.inside .literal [], tokens⟩
  else if c = '-' then ⟨.dash, tokens⟩
  else if wordStart c then ⟨.word [c], tokens⟩
  else if c.isDigit then ⟨.number [c], tokens⟩
  else ⟨.blank, .symbol c :: tokens⟩

/-- The character that a backslash and `c` stand for. -/
def unescape (c : Char) : Char :=
  if c = 'n' then '\n' else if c = 't' then '\t' else if c = 'r' then '\r'
  else if c = 'b' then '\x08' else if c = 'f' then '\x0c' else c

def step : Lexer → Char → Lexer
  | ⟨.blank, ts⟩, c => start ts c
  | ⟨.dash, ts⟩, c => if c = '-' then ⟨.comment, ts⟩ else start (.symbol '-' :: ts) c
  | ⟨.comment, ts⟩, c => if c = '\n' ∨ c = '\r' then ⟨.blank, ts⟩ else ⟨.comment, ts⟩
  | ⟨.word w, ts⟩, c =>
    if wordChar c then ⟨.word (w ++ [c]), ts⟩
    else if c = '\'' ∧ fold w = ['e'] then ⟨.escape [], ts⟩
    else start (.word (fold w) :: ts) c
  | ⟨.number n, ts⟩, c => if c.isDigit then ⟨.number (n ++ [c]), ts⟩ else start (.number n :: ts) c
  | ⟨.inside d s, ts⟩, c => if c = d.char then ⟨.closing d s, ts⟩ else ⟨.inside d (s ++ [c]), ts⟩
  | ⟨.closing d s, ts⟩, c =>
    if c = d.char then ⟨.inside d (s ++ [c]), ts⟩ else start (.delimited d s :: ts) c
  | ⟨.escape s, ts⟩, c =>
    if c = '\\' then ⟨.backslash s, ts⟩
    else if c = '\'' then ⟨.escapeClosing s, ts⟩
    else ⟨.escape (s ++ [c]), ts⟩
  | ⟨.backslash s, ts⟩, c => ⟨.escape (s ++ [unescape c]), ts⟩
  | ⟨.escapeClosing s, ts⟩, c =>
    if c = '\'' then ⟨.escape (s ++ [c]), ts⟩ else start (.escapeString s :: ts) c

def read (m : Lexer) (s : Text) : Lexer := s.foldl step m

/-- The tokens at the end of the text; none when a delimiter is still open. -/
def finish : Lexer → Option (List Token)
  | ⟨.blank, ts⟩ => some ts.reverse
  | ⟨.dash, ts⟩ => some (Token.symbol '-' :: ts).reverse
  | ⟨.comment, ts⟩ => some ts.reverse
  | ⟨.word w, ts⟩ => some (Token.word (fold w) :: ts).reverse
  | ⟨.number n, ts⟩ => some (Token.number n :: ts).reverse
  | ⟨.closing d s, ts⟩ => some (Token.delimited d s :: ts).reverse
  | ⟨.escapeClosing s, ts⟩ => some (Token.escapeString s :: ts).reverse
  | ⟨.inside _ _, _⟩ => none
  | ⟨.escape _, _⟩ => none
  | ⟨.backslash _, _⟩ => none

def lex (s : Text) : Option (List Token) := finish (read ⟨.blank, []⟩ s)

example : lex "SELECT a.\"B\"\"c\" = 'it''s' -- x".toList =
    some [.word "select".toList, .word "a".toList, .symbol '.',
      .delimited .identifier "B\"c".toList, .symbol '=', .delimited .literal "it's".toList] := by
  decide

@[simp] theorem read_nil (m : Lexer) : read m [] = m := rfl

@[simp] theorem read_cons (m : Lexer) (c : Char) (s : Text) :
    read m (c :: s) = read (step m c) s := rfl

theorem read_append (m : Lexer) (s s' : Text) : read m (s ++ s') = read (read m s) s' :=
  List.foldl_append ..

/-! ## Frame

What has been read before is kept, and does not matter for what follows. -/

/-- The same machine, with tokens before its own. -/
def Lexer.after (m : Lexer) (ts : List Token) : Lexer := ⟨m.mode, m.tokens ++ ts⟩

theorem start_after (ts₀ ts : List Token) (c : Char) :
    start (ts₀ ++ ts) c = (start ts₀ c).after ts := by
  unfold start
  split_ifs <;> rfl

theorem step_after (m : Lexer) (ts : List Token) (c : Char) :
    step (m.after ts) c = (step m c).after ts := by
  obtain ⟨mode, ts₀⟩ := m
  have hafter : Lexer.after ⟨mode, ts₀⟩ ts = ⟨mode, ts₀ ++ ts⟩ := rfl
  rw [hafter]
  cases mode with
  | blank => exact start_after ts₀ ts c
  | dash =>
    simp only [step]
    split_ifs
    · rfl
    · exact start_after (.symbol '-' :: ts₀) ts c
  | comment =>
    simp only [step]
    split_ifs <;> rfl
  | word w =>
    simp only [step]
    split_ifs
    · rfl
    · rfl
    · exact start_after (.word (fold w) :: ts₀) ts c
  | number n =>
    simp only [step]
    split_ifs
    · rfl
    · exact start_after (.number n :: ts₀) ts c
  | inside d s =>
    simp only [step]
    split_ifs <;> rfl
  | closing d s =>
    simp only [step]
    split_ifs
    · rfl
    · exact start_after (.delimited d s :: ts₀) ts c
  | escape s =>
    simp only [step]
    split_ifs <;> rfl
  | backslash s => rfl
  | escapeClosing s =>
    simp only [step]
    split_ifs
    · rfl
    · exact start_after (.escapeString s :: ts₀) ts c

theorem read_after (m : Lexer) (ts : List Token) (s : Text) :
    read (m.after ts) s = (read m s).after ts :=
  List.foldl_hom (Lexer.after · ts) fun m c => step_after m ts c

theorem finish_after (m : Lexer) (ts : List Token) :
    finish (m.after ts) = (finish m).map (ts.reverse ++ ·) := by
  obtain ⟨mode, ts₀⟩ := m
  cases mode <;> simp [Lexer.after, finish]

theorem finish_read (ts : List Token) (s : Text) :
    finish (read ⟨.blank, ts⟩ s) = (lex s).map (ts.reverse ++ ·) := by
  rw [lex, ← finish_after, ← read_after]
  rfl

/-! ## Pieces of text

A piece is read on its own when a separator follows it, whatever was read before. -/

def Separator (c : Char) : Prop := c = ' ' ∨ c = ',' ∨ c = ')'

/-- Before a separator the text is read as these tokens. -/
def Reads (s : Text) (ts : List Token) : Prop :=
  ∀ ts₀ c, Separator c → read ⟨.blank, ts₀⟩ (s ++ [c]) = start (ts.reverse ++ ts₀) c

/-- The same, with the rest of the text. -/
theorem Reads.read_append {s : Text} {ts : List Token} (h : Reads s ts) {c : Char}
    (hc : Separator c) (ts₀ : List Token) (rest : Text) :
    read ⟨.blank, ts₀⟩ (s ++ c :: rest) = read (start (ts.reverse ++ ts₀) c) rest := by
  rw [← List.singleton_append, ← List.append_assoc, Sql.read_append, h ts₀ c hc]

theorem start_wordStart {c : Char} (hc : wordStart c = true) (ts : List Token) :
    start ts c = ⟨.word [c], ts⟩ := by
  have hspace : isspace c = false := by
    by_contra hspace
    simp only [isspace, Bool.not_eq_false, Bool.or_eq_true, decide_eq_true_eq] at hspace
    obtain ((((rfl | rfl) | rfl) | rfl) | rfl) | rfl := hspace <;> exact absurd hc (by decide)
  have hne : ∀ x, wordStart x = false → c ≠ x := by
    rintro x hx rfl
    rw [hc] at hx
    cases hx
  rw [start, hspace, if_neg Bool.false_ne_true, if_neg (hne '"' (by decide)),
    if_neg (hne '\'' (by decide)), if_neg (hne '-' (by decide)), if_pos hc]

theorem read_word {w : Text} (hw : ∀ c ∈ w, wordChar c = true) (w₀ : Text) (ts : List Token) :
    read ⟨.word w₀, ts⟩ w = ⟨.word (w₀ ++ w), ts⟩ := by
  apply foldl_collect (f := fun w => Lexer.mk (.word w) ts)
  intro w₁ c hc
  rw [step, if_pos (hw c hc)]

theorem read_inside (d : Delimiter) {s : Text} (hs : d.char ∉ s) (s₀ : Text) (ts : List Token) :
    read ⟨.inside d s₀, ts⟩ s = ⟨.inside d (s₀ ++ s), ts⟩ := by
  apply foldl_collect (f := fun s => Lexer.mk (.inside d s) ts)
  intro s₁ c hc
  have hne : c ≠ d.char := ne_of_mem_of_not_mem hc hs
  rw [step, if_neg hne]

/-- The text with every `c` doubled. -/
def double (c : Char) (s : Text) : Text := s.flatMap fun x => if x = c then [c, c] else [x]

theorem read_double (d : Delimiter) (s s₀ : Text) (ts : List Token) :
    read ⟨.inside d s₀, ts⟩ (double d.char s) = ⟨.inside d (s₀ ++ s), ts⟩ := by
  induction s generalizing s₀ with
  | nil => simp [double]
  | cons c s ih =>
    rw [double, List.flatMap_cons, Sql.read_append, ← double]
    split_ifs with hc
    · simp only [read_cons, read_nil, step, if_true]
      rw [ih, hc, List.append_assoc]
      rfl
    · simp only [read_cons, read_nil, step, if_neg hc]
      rw [ih, List.append_assoc]
      rfl

/-- Behind a closing delimiter a separator ends the token. -/
theorem step_closing (d : Delimiter) (s : Text) (ts : List Token) {c : Char} (hc : Separator c) :
    step ⟨.closing d s, ts⟩ c = start (.delimited d s :: ts) c := by
  rw [step, if_neg]
  obtain rfl | rfl | rfl := hc <;> cases d <;> decide

/-- The delimiter and a blank behind a delimited text: what follows is read afresh. -/
theorem read_delimiter_blank (d : Delimiter) (s : Text) (ts : List Token) (rest : Text) :
    read ⟨.inside d s, ts⟩ (d.char :: ' ' :: rest) =
      (read ⟨.blank, []⟩ rest).after (.delimited d s :: ts) := by
  have hblank : start (.delimited d s :: ts) ' ' = ⟨.blank, .delimited d s :: ts⟩ := rfl
  have hclose : step ⟨.inside d s, ts⟩ d.char = ⟨.closing d s, ts⟩ := if_pos rfl
  rw [read_cons, hclose, read_cons, step_closing d s ts (.inl rfl), hblank, ← read_after]
  rfl

/-- A text between delimiters, when it has none of them itself. -/
theorem reads_delimited (d : Delimiter) {s : Text} (hs : d.char ∉ s) :
    Reads (d.char :: (s ++ [d.char])) [.delimited d s] := by
  intro ts c hc
  have hopen : start ts d.char = ⟨.inside d [], ts⟩ := by cases d <;> rfl
  rw [List.cons_append, read_cons, step, hopen, Sql.read_append, Sql.read_append,
    read_inside d hs, List.nil_append]
  simp only [read_cons, read_nil, step, if_true]
  exact step_closing d s ts hc

/-- A text with the delimiters in it doubled. -/
theorem reads_double (d : Delimiter) (s : Text) :
    Reads (d.char :: (double d.char s ++ [d.char])) [.delimited d s] := by
  intro ts c hc
  have hopen : start ts d.char = ⟨.inside d [], ts⟩ := by cases d <;> rfl
  rw [List.cons_append, read_cons, step, hopen, Sql.read_append, Sql.read_append,
    read_double, List.nil_append]
  simp only [read_cons, read_nil, step, if_true]
  exact step_closing d s ts hc

theorem read_escape (s s₀ : Text) (ts : List Token) :
    read ⟨.escape s₀, ts⟩ (double '\\' (double '\'' s)) = ⟨.escape (s₀ ++ s), ts⟩ := by
  induction s generalizing s₀ with
  | nil => simp [double]
  | cons c s ih =>
    have hcons : double '\\' (double '\'' (c :: s)) =
        double '\\' (double '\'' [c]) ++ double '\\' (double '\'' s) := by
      simp [double]
    have hchar : read ⟨.escape s₀, ts⟩ (double '\\' (double '\'' [c])) =
        ⟨.escape (s₀ ++ [c]), ts⟩ := by
      by_cases hquote : c = '\''
      · subst hquote
        rfl
      · by_cases hback : c = '\\'
        · subst hback
          rfl
        · simp [double, hquote, hback, step]
    rw [hcons, Sql.read_append, hchar, ih, List.append_assoc]
    rfl

/-- A text with quotes and backslashes doubled, in the form `E'..'`. -/
theorem reads_escapeString (s : Text) :
    Reads (' ' :: 'E' :: '\'' :: (double '\\' (double '\'' s) ++ ['\''])) [.escapeString s] := by
  intro ts c hc
  have hopen : read ⟨.blank, ts⟩ [' ', 'E', '\''] = ⟨.escape [], ts⟩ := rfl
  have hsplit : (' ' :: 'E' :: '\'' :: (double '\\' (double '\'' s) ++ ['\''])) ++ [c] =
      [' ', 'E', '\''] ++ (double '\\' (double '\'' s) ++ ['\'', c]) := by simp
  have hend : step ⟨.escapeClosing s, ts⟩ c = start (.escapeString s :: ts) c := by
    rw [step, if_neg]
    obtain rfl | rfl | rfl := hc <;> decide
  rw [hsplit, Sql.read_append, hopen, Sql.read_append, read_escape, List.nil_append]
  exact hend

/-! ## Lists -/

theorem read_gap {gap : Text} (hgap : ∀ c ∈ gap, c = ' ') (ts : List Token) :
    read ⟨.blank, ts⟩ gap = ⟨.blank, ts⟩ := by
  induction gap with
  | nil => rfl
  | cons c gap ih =>
    obtain rfl : c = ' ' := hgap c (List.mem_cons_self ..)
    exact ih fun x hx => hgap x (List.mem_cons_of_mem _ hx)

/-- Pieces with commas between them, and blanks behind the commas or not. -/
theorem reads_intercalate {α : Type} {gap : Text} (hgap : ∀ c ∈ gap, c = ' ') {f : α → Text}
    {g : α → List Token} {l : List α} (h : ∀ a ∈ l, Reads (f a) (g a)) :
    Reads (List.intercalate (',' :: gap) (l.map f))
      (List.intercalate [.symbol ','] (l.map g)) := by
  induction l with
  | nil => exact fun _ _ _ => rfl
  | cons a l ih =>
    have ha : Reads (f a) (g a) := h a (List.mem_cons_self ..)
    cases l with
    | nil => simpa using ha
    | cons b l =>
      have hrest := ih fun x hx => h x (List.mem_cons_of_mem _ hx)
      intro ts c hc
      rw [List.map_cons, List.map_cons, List.intercalate_cons_cons, List.map_cons, List.map_cons,
        List.intercalate_cons_cons, List.append_assoc, List.append_assoc, List.cons_append,
        ha.read_append (.inr (.inl rfl))]
      have hcomma : start ((g a).reverse ++ ts) ',' =
          ⟨.blank, .symbol ',' :: ((g a).reverse ++ ts)⟩ := rfl
      rw [hcomma, Sql.read_append, read_gap hgap]
      rw [List.map_cons, List.map_cons] at hrest
      rw [hrest _ c hc]
      simp

/-- A piece in parentheses. -/
theorem Reads.parens {s : Text} {ts : List Token} (h : Reads s ts) :
    Reads ('(' :: (s ++ [')'])) (.symbol '(' :: (ts ++ [.symbol ')'])) := by
  intro ts₀ c hc
  have hopen : start ts₀ '(' = ⟨.blank, .symbol '(' :: ts₀⟩ := rfl
  have hclose : ∀ ts, start ts ')' = ⟨.blank, .symbol ')' :: ts⟩ := fun _ => rfl
  rw [List.cons_append, read_cons, step, hopen, List.append_assoc, List.singleton_append,
    h.read_append (.inr (.inr rfl)), hclose]
  simp [step]

/-! ## Whole texts -/

/-- Wherever the text stands, followed by a blank, it is read as these tokens and ends
    there. -/
def ReadsAs (s : Text) (ts : List Token) : Prop :=
  ∀ rest, lex (s ++ ' ' :: rest) = (lex rest).map (ts ++ ·)

theorem Reads.readsAs {s : Text} {ts : List Token} (h : Reads s ts) : ReadsAs s ts := by
  intro rest
  have hblank : start (ts.reverse ++ []) ' ' = ⟨.blank, ts.reverse⟩ := by
    rw [List.append_nil]
    rfl
  rw [lex, h.read_append (.inl rfl), hblank, finish_read, List.reverse_reverse]

/-- A blank at the end changes nothing. -/
theorem lex_append_blank (s : Text) : lex (s ++ [' ']) = lex s := by
  rw [lex, lex, read_append]
  obtain ⟨mode, ts⟩ := read ⟨.blank, []⟩ s
  have hblank : ∀ ts, start ts ' ' = ⟨.blank, ts⟩ := fun _ => rfl
  have hword : wordChar ' ' = false := rfl
  cases mode with
  | blank => rfl
  | dash => rfl
  | comment => rfl
  | word w => simp [step, hword, hblank, finish]
  | number n => rfl
  | inside d s => cases d <;> rfl
  | closing d s => cases d <;> rfl
  | escape s => rfl
  | backslash s => rfl
  | escapeClosing s => rfl

theorem ReadsAs.lex {s : Text} {ts : List Token} (h : ReadsAs s ts) : lex s = some ts := by
  rw [← lex_append_blank, h []]
  simp [Sql.lex, finish]

end SyncLayer.Sql
