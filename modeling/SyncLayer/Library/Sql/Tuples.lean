import SyncLayer.Library.Sql.Lexer

/-!
# Lists of Tuples

The grammar of a VALUES list, on tokens: tuples of literals in parentheses, with commas
between them and between their cells.
-/

namespace SyncLayer.Sql

/-! ## The grammar -/

/-- A literal; `none` is NULL. -/
def literal : Token → Option (Option Text)
  | .word w => if w = ['n', 'u', 'l', 'l'] then some none else none
  | .delimited .literal s => some (some s)
  | .escapeString s => some (some s)
  | _ => none

/-- The rest of a list of tuples, with some cells of the current tuple read. -/
def tuples : (cells : List (Option Text)) → List Token → Option (List (List (Option Text)))
  | cells, [t, .symbol ')'] => do
    let c ← literal t
    return [cells ++ [c]]
  | cells, t :: .symbol ',' :: rest => do
    let c ← literal t
    tuples (cells ++ [c]) rest
  | cells, t :: .symbol ')' :: .symbol ',' :: .symbol '(' :: rest => do
    let c ← literal t
    let rows ← tuples [] rest
    return (cells ++ [c]) :: rows
  | _, _ => none

/-- A list of tuples of literals, each in parentheses. -/
def parseTuples : List Token → Option (List (List (Option Text)))
  | .symbol '(' :: rest => tuples [] rest
  | _ => none

/-! ## What is written is read back -/

section Tuples

variable {α : Type} {tok : α → Token} {cell : α → Option Text}

/-- The tokens of the cells, with commas. -/
def cellTokens (tok : α → Token) (row : List α) : List Token :=
  List.intercalate [.symbol ','] (row.map fun a => [tok a])

theorem cellTokens_cons_cons (a b : α) (row : List α) :
    cellTokens tok (a :: b :: row) = tok a :: .symbol ',' :: cellTokens tok (b :: row) := by
  simp only [cellTokens, List.map_cons, List.intercalate_cons_cons]
  rfl

theorem tuples_comma (htok : ∀ a, literal (tok a) = some (cell a)) (cells : List (Option Text))
    (a : α) (rest : List Token) :
    tuples cells (tok a :: .symbol ',' :: rest) = tuples (cells ++ [cell a]) rest := by
  simp [tuples, htok]

/-- The cells of a tuple up to its closing parenthesis, which is the last token. -/
theorem tuples_last (htok : ∀ a, literal (tok a) = some (cell a)) {row : List α} (hne : row ≠ [])
    (cells : List (Option Text)) :
    tuples cells (cellTokens tok row ++ [.symbol ')']) = some [cells ++ row.map cell] := by
  induction row generalizing cells with
  | nil => exact absurd rfl hne
  | cons a row ih =>
    cases row with
    | nil => simp [cellTokens, tuples, htok]
    | cons b row =>
      rw [cellTokens_cons_cons, List.cons_append, List.cons_append, tuples_comma htok,
        ih (List.cons_ne_nil b row), List.map_cons (l := b :: row), List.append_assoc]
      rfl

/-- The cells of a tuple with another tuple behind it. -/
theorem tuples_next (htok : ∀ a, literal (tok a) = some (cell a)) {row : List α} (hne : row ≠ [])
    (cells : List (Option Text)) (rest : List Token) :
    tuples cells (cellTokens tok row ++ .symbol ')' :: .symbol ',' :: .symbol '(' :: rest) =
      (tuples [] rest).map ((cells ++ row.map cell) :: ·) := by
  induction row generalizing cells with
  | nil => exact absurd rfl hne
  | cons a row ih =>
    cases row with
    | nil =>
      have hone : cellTokens tok [a] = [tok a] := List.intercalate_singleton
      rw [hone, List.singleton_append, tuples, htok]
      cases tuples [] rest <;> rfl
    | cons b row =>
      rw [cellTokens_cons_cons, List.cons_append, List.cons_append, tuples_comma htok,
        ih (List.cons_ne_nil b row), List.map_cons (l := b :: row), List.append_assoc]
      rfl

/-- The tokens of one tuple. -/
def tupleTokens (tok : α → Token) (row : List α) : List Token :=
  .symbol '(' :: (cellTokens tok row ++ [.symbol ')'])

/-- **Reading back a list of tuples.** -/
theorem parseTuples_tokens (htok : ∀ a, literal (tok a) = some (cell a)) {rows : List (List α)}
    (hne : rows ≠ []) (hrows : ∀ row ∈ rows, row ≠ []) :
    parseTuples (List.intercalate [.symbol ','] (rows.map (tupleTokens tok))) =
      some (rows.map fun row => row.map cell) := by
  induction rows with
  | nil => exact absurd rfl hne
  | cons row rows ih =>
    have hrow : row ≠ [] := hrows row (List.mem_cons_self ..)
    cases rows with
    | nil =>
      rw [List.map_singleton, List.intercalate_singleton]
      exact tuples_last htok hrow []
    | cons row' rows =>
      have hrest := ih (List.cons_ne_nil row' rows)
        fun r hr => hrows r (List.mem_cons_of_mem _ hr)
      -- the rest of the list opens with the parenthesis of the next tuple
      obtain ⟨ts, hts⟩ : ∃ ts,
          List.intercalate [.symbol ','] ((row' :: rows).map (tupleTokens tok)) =
            .symbol '(' :: ts := by
        rw [List.map_cons, tupleTokens]
        exact ⟨_, List.intercalate_cons_cons_left⟩
      rw [hts] at hrest
      rw [List.map_cons, List.map_cons, List.intercalate_cons_cons, ← List.map_cons, hts,
        tupleTokens, List.map_cons]
      have happend : Token.symbol '(' :: (cellTokens tok row ++ [.symbol ')']) ++ [.symbol ','] ++
          .symbol '(' :: ts =
          .symbol '(' :: (cellTokens tok row ++
            .symbol ')' :: .symbol ',' :: .symbol '(' :: ts) := by simp
      rw [happend]
      refine (tuples_next htok hrow [] ts).trans ?_
      rw [parseTuples] at hrest
      rw [hrest]
      rfl

end Tuples

end SyncLayer.Sql
