import SyncLayer.Library.Sql.Tuples
import SyncLayer.Copy.Statements
import SyncLayer.Wire.Record

/-!
# What an INSERT Says

The VALUES list of an INSERT, read by the grammar of SQL, gives back the rows it was
built from: cell by cell, tuple by tuple, and whatever characters the cells have. That
INSERT is the one the copy hands over when every text of the batch can be escaped.
-/

namespace SyncLayer.Statements

open SyncLayer.Interaction SyncLayer.Model SyncLayer.Copy SyncLayer.Wire

/-! ## The parts of an INSERT -/

/-- The text before the VALUES list. -/
def insertFront (table : String) (columns : List String) : String :=
  "INSERT INTO " ++ table ++ " (" ++ String.intercalate "," (columns.map quoteColumn) ++ ")"

/-- The text between ` VALUES ` and ` ON CONFLICT DO NOTHING`. -/
def valuesList (values : List (List SqlValue)) : String :=
  String.intercalate "," (values.map valuesText)

theorem insert_text (table : String) (columns : List String) (values : List (List SqlValue)) :
    (Stmt.insert table columns values).text =
      insertFront table columns ++ " VALUES " ++ valuesList values ++
        " ON CONFLICT DO NOTHING" := by
  have htext : (Stmt.insert table columns values).text =
      "INSERT INTO " ++ table ++ " (" ++ String.intercalate "," (columns.map quoteColumn) ++
        ") VALUES " ++ valuesList values ++ " ON CONFLICT DO NOTHING" := rfl
  have hfront : insertFront table columns =
      "INSERT INTO " ++ table ++ " (" ++ String.intercalate "," (columns.map quoteColumn) ++
        ")" := rfl
  rw [htext, hfront]
  apply String.toList_inj.1
  simp

/-- The rows that the text of a VALUES list stands for. -/
def readRows (text : String) : Option (List Row) := do
  let tokens ← Sql.lex text.toList
  let rows ← Sql.parseTuples tokens
  return rows.map fun row => row.map fun cell => cell.map String.ofList

/-! ## Cells -/

/-- The literal that the text of a value is. -/
def valueToken : SqlValue → Sql.Token
  | .null => .word ['n', 'u', 'l', 'l']
  | .literal s =>
    if s.toList.contains '\\' then .escapeString s.toList else .delimited .literal s.toList

theorem literal_valueToken (v : SqlValue) :
    Sql.literal (valueToken v) = some (v.toCell.map String.toList) := by
  cases v with
  | null => rfl
  | literal s =>
    simp only [valueToken]
    split <;> rfl

theorem reads_value (v : SqlValue) : Sql.Reads v.text.toList [valueToken v] := by
  cases v with
  | null =>
    intro ts c hc
    obtain rfl | rfl | rfl := hc <;> rfl
  | literal s =>
    simp only [SqlValue.text, escapeLiteral, valueToken]
    split
    · have htext := Sql.reads_escapeString s.toList
      simpa [String.toList_append, Sql.double] using htext
    · have htext : Sql.Reads ('\'' :: (Sql.double '\'' s.toList ++ ['\'']))
          [.delimited .literal s.toList] := Sql.reads_double .literal s.toList
      simpa [String.toList_append, Sql.double] using htext

theorem reads_row (row : List SqlValue) :
    Sql.Reads (valuesText row).toList (Sql.tupleTokens valueToken row) := by
  have hgap : ∀ c ∈ ([] : Sql.Text), c = ' ' := by simp
  have hcells := Sql.reads_intercalate hgap fun v (_ : v ∈ row) => reads_value v
  have htext : (valuesText row).toList =
      '(' :: (List.intercalate [','] (row.map fun v => v.text.toList) ++ [')']) := by
    simp [valuesText, String.toList_append, String.toList_intercalate, Function.comp_def]
  rw [htext]
  exact hcells.parens

theorem lex_valuesList (values : List (List SqlValue)) :
    Sql.lex (valuesList values).toList =
      some (List.intercalate [.symbol ','] (values.map (Sql.tupleTokens valueToken))) := by
  have hgap : ∀ c ∈ ([] : Sql.Text), c = ' ' := by simp
  have hlist := Sql.reads_intercalate hgap fun row (_ : row ∈ values) => reads_row row
  have htext : (valuesList values).toList =
      List.intercalate [','] (values.map fun row => (valuesText row).toList) := by
    simp [valuesList, String.toList_intercalate, Function.comp_def]
  rw [htext]
  exact hlist.readsAs.lex

/-! ## Batches -/

/-- Rows of one positive width. -/
structure Batch where
  width : Nat
  rows : List Row
  width_pos : 0 < width
  rows_ne : rows ≠ []
  length_eq : ∀ row ∈ rows, row.length = width

/-- The VALUES list of a batch. -/
def Batch.text (b : Batch) : String := valuesList (encoded b.rows)

theorem readRows_text (b : Batch) : readRows b.text = some b.rows := by
  have hrows : ∀ row ∈ encoded b.rows, row ≠ [] := by
    intro values hvalues hnil
    obtain ⟨row, hrow, rfl⟩ := List.mem_map.1 hvalues
    have hwidth := b.length_eq row hrow
    rw [List.map_eq_nil_iff.1 hnil] at hwidth
    exact Nat.ne_of_lt b.width_pos hwidth
  have hne : encoded b.rows ≠ [] := fun hnil => b.rows_ne (List.map_eq_nil_iff.1 hnil)
  -- encoding keeps the cells
  have hback : ((encoded b.rows).map fun row => row.map fun v => v.toCell.map String.toList).map
      (fun row => row.map fun cell => cell.map String.ofList) = b.rows := by
    simp [encoded, Function.comp_def]
  have hparse := Sql.parseTuples_tokens literal_valueToken hne hrows
  simp only [readRows, Batch.text, lex_valuesList, Option.bind_eq_bind,
    Option.bind_some, hparse, Option.pure_def, hback]

/-! ## What is handed over -/

section Escaped

variable {E : Surroundings} (hescapes : ∀ k, E.escapes k = true)

include hescapes

theorem encodeCells_escaped (k : Nat) (row : Row) :
    E.encodeCells k row = row.map SqlValue.ofCell := by
  induction row generalizing k with
  | nil => rfl
  | cons cell row ih =>
    cases cell with
    | none => simp [Surroundings.encodeCells, ih, SqlValue.ofCell]
    | some s => simp [Surroundings.encodeCells, ih, hescapes, SqlValue.ofCell]

theorem encodeRows_escaped (k : Nat) (rows : List Row) : E.encodeRows k rows = encoded rows := by
  induction rows generalizing k with
  | nil => rfl
  | cons row rows ih =>
    rw [Surroundings.encodeRows, encodeCells_escaped hescapes, ih]
    rfl

/-- When every text can be escaped, the INSERT of a batch has the cells of its rows. -/
theorem inserts_sendBatch (table : String) (columns : List String) (rows : List Row) {w : Traffic}
    (hw : w.attempt = 0) :
    ((rows.mapM encodeRow >>= sendBatch table columns).run E.handler w).2.inserts =
      w.inserts ++ [.insert table columns (encoded rows)] := by
  have hrun := run_sendChunk E table columns rows hw
  rw [encodeRows_escaped hescapes] at hrun
  rw [← sendChunk, hrun]

end Escaped

/-- **Round trip**: the INSERT that is handed over for a batch is that of its rows, the part
    of its text between ` VALUES ` and ` ON CONFLICT DO NOTHING` reads back as these rows, and
    so two different batches of one width never have the same text. -/
theorem values_round_trip (table : String) (columns : List String) (b : Batch) :
    (∀ (E : Surroundings) (w : Traffic), (∀ k, E.escapes k = true) → w.attempt = 0 →
        ((b.rows.mapM encodeRow >>= sendBatch table columns).run E.handler w).2.inserts =
          w.inserts ++ [.insert table columns (encoded b.rows)]) ∧
      (Stmt.insert table columns (encoded b.rows)).text =
          insertFront table columns ++ " VALUES " ++ b.text ++ " ON CONFLICT DO NOTHING" ∧
      readRows b.text = some b.rows ∧
      ∀ b' : Batch, b'.width = b.width → b'.rows ≠ b.rows →
        (Stmt.insert table columns (encoded b'.rows)).text ≠
          (Stmt.insert table columns (encoded b.rows)).text := by
  refine ⟨fun E w hescapes hw => inserts_sendBatch hescapes table columns b.rows hw,
    insert_text table columns (encoded b.rows), readRows_text b, ?_⟩
  intro b' _ hne htext
  rw [insert_text, insert_text] at htext
  -- the texts around the VALUES lists are the same, so the lists are
  have hlist : b'.text = b.text :=
    (String.append_right_inj _).1 ((String.append_left_inj _).1 htext)
  have hread := readRows_text b'
  rw [hlist, readRows_text b] at hread
  exact hne (Option.some.inj hread).symm

/-- Two columns, and cells with the characters that the text is built of. -/
def awkwardBatch : Batch where
  width := 2
  rows := [[some "it's, (NULL)", none], [some "a\\'b", some ""]]
  width_pos := by decide
  rows_ne := by decide
  length_eq := by decide

/-- The same with the word in place of the missing value. -/
def wordBatch : Batch where
  width := 2
  rows := [[some "it's, (NULL)", some "NULL"], [some "a\\'b", some ""]]
  width_pos := by decide
  rows_ne := by decide
  length_eq := by decide

/-- A hosted database that answers nothing. -/
def unanswered : Surroundings where
  reply _ _ _ _ := none
  escapes _ := true

theorem values_round_trip_awkward :
    ((awkwardBatch.rows.mapM encodeRow >>= sendBatch "t" ["a", "b"]).run unanswered.handler
        {}).2.inserts = [.insert "t" ["a", "b"] (encoded awkwardBatch.rows)] ∧
      readRows awkwardBatch.text = some awkwardBatch.rows ∧
      (Stmt.insert "t" ["a", "b"] (encoded wordBatch.rows)).text ≠
        (Stmt.insert "t" ["a", "b"] (encoded awkwardBatch.rows)).text :=
  ⟨(values_round_trip "t" ["a", "b"] awkwardBatch).1 unanswered {} (fun _ => rfl) rfl,
    (values_round_trip "t" ["a", "b"] awkwardBatch).2.2.1,
    (values_round_trip "t" ["a", "b"] awkwardBatch).2.2.2 wordBatch rfl (by decide)⟩

end SyncLayer.Statements
