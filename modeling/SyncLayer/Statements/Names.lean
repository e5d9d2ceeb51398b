import SyncLayer.Library.Sql.Counting
import SyncLayer.Statements.Values

/-!
# Names in Statements

The service writes the names of columns, and in the primary-key lookup also those of schema
and table, between delimiters and does not double the delimiters in them. A name without
its delimiter is read back; a name with it ends its literal or identifier early, and the
rest of it is read as SQL.

That no delimiter is lost is shown by counting them: a name read back with a delimiter in
it would need that delimiter twice in the text, where it stands once.
-/

namespace SyncLayer.Statements

open SyncLayer.Model SyncLayer.Sql

/-! ## What the statements are meant to say -/

def keyword (w : String) : Token := .word w.toList

/-- `relation.column` -/
def path (relation column : String) : List Token :=
  [keyword relation, .symbol '.', keyword column]

def quotedName (n : String) : Token := .delimited .identifier n.toList

def stringLiteral (s : String) : Token := .delimited .literal s.toList

/-- The primary-key lookup up to the table name. -/
def lookupHead : List Token :=
  [keyword "select"] ++ path "kcu" "column_name" ++
  [keyword "from"] ++ path "information_schema" "table_constraints" ++ [keyword "tc"] ++
  [keyword "join"] ++ path "information_schema" "key_column_usage" ++ [keyword "kcu"] ++
  [keyword "on"] ++ path "tc" "constraint_name" ++ [.symbol '='] ++
  path "kcu" "constraint_name" ++
  [keyword "where"] ++ path "tc" "table_name" ++ [.symbol '=']

/-- From there to the schema name. -/
def lookupLink : List Token := [keyword "and"] ++ path "tc" "table_schema" ++ [.symbol '=']

/-- And to the end. -/
def lookupEnd : List Token :=
  [keyword "and"] ++ path "tc" "constraint_type" ++ [.symbol '=', stringLiteral "PRIMARY KEY"] ++
  [keyword "order", keyword "by"] ++ path "kcu" "ordinal_position"

/-- The tokens of the primary-key lookup. -/
def lookupTokens (schema tableName : String) : List Token :=
  lookupHead ++ stringLiteral tableName :: (lookupLink ++ stringLiteral schema :: lookupEnd)

/-- The names, with commas between them. -/
def nameTokens (names : List String) : List Token :=
  List.intercalate [.symbol ','] (names.map fun n => [quotedName n])

/-- The ORDER BY clause of a page query. -/
def orderByClause (pk : List String) : String :=
  " ORDER BY " ++ String.intercalate ", " (pk.map quoteColumn)

theorem selectPage_text (table : String) (pk : List String) (limit offset : Int32) :
    (Stmt.selectPage table pk limit offset).text =
      "SELECT * FROM " ++ table ++ orderByClause pk ++ " LIMIT " ++ toString limit.toInt ++
        " OFFSET " ++ toString offset.toInt := by
  have htext : (Stmt.selectPage table pk limit offset).text =
      "SELECT * FROM " ++ table ++ " ORDER BY " ++ String.intercalate ", " (pk.map quoteColumn) ++
        " LIMIT " ++ toString limit.toInt ++ " OFFSET " ++ toString offset.toInt := rfl
  rw [htext, orderByClause]
  simp only [String.append_assoc]

/-- The column list of an INSERT. -/
def columnList (columns : List String) : String :=
  "(" ++ String.intercalate "," (columns.map quoteColumn) ++ ")"

theorem insertFront_eq (table : String) (columns : List String) :
    insertFront table columns = "INSERT INTO " ++ table ++ " " ++ columnList columns := by
  have hopen : " (" = " " ++ "(" := by decide +kernel
  have hfront : insertFront table columns =
      "INSERT INTO " ++ table ++ " (" ++ String.intercalate "," (columns.map quoteColumn) ++
        ")" := rfl
  rw [hfront, columnList, hopen]
  simp only [String.append_assoc]

/-! ## Names without delimiters -/

def lookupFront : Text :=
  "SELECT kcu.column_name FROM information_schema.table_constraints tc ".toList ++
    "JOIN information_schema.key_column_usage kcu ".toList ++
    "ON tc.constraint_name = kcu.constraint_name ".toList ++
    "WHERE tc.table_name = '".toList

def lookupMiddle : Text := "' AND tc.table_schema = '".toList

def lookupBack : Text :=
  "' AND tc.constraint_type = 'PRIMARY KEY' ".toList ++ "ORDER BY kcu.ordinal_position".toList

theorem lookup_text (schema tableName : String) :
    (Stmt.primaryKey schema tableName).text.toList =
      lookupFront ++ tableName.toList ++ lookupMiddle ++ schema.toList ++ lookupBack := by
  delta Stmt.text lookupFront lookupMiddle lookupBack
  dsimp only
  rw [String.toList_append, String.toList_append, String.toList_append, String.toList_append,
    String.toList_append, String.toList_append, String.toList_append, String.toList_append]
  exact List.append_assoc ..

theorem read_lookupFront :
    read ⟨.blank, []⟩ lookupFront = ⟨.inside .literal [], lookupHead.reverse⟩ := by
  decide +kernel

theorem read_lookupMiddle (s : Text) (ts : List Token) :
    read ⟨.inside .literal s, ts⟩ lookupMiddle =
      ⟨.inside .literal [], lookupLink.reverse ++ .delimited .literal s :: ts⟩ := by
  have htext : lookupMiddle = '\'' :: ' ' :: "AND tc.table_schema = '".toList := by
    decide +kernel
  have hread : read ⟨.blank, []⟩ "AND tc.table_schema = '".toList =
      ⟨.inside .literal [], lookupLink.reverse⟩ := by decide +kernel
  rw [htext]
  exact (read_delimiter_blank .literal s ts _).trans (by rw [hread]; rfl)

theorem finish_lookupBack (s : Text) (ts : List Token) :
    finish (read ⟨.inside .literal s, ts⟩ lookupBack) =
      some (ts.reverse ++ .delimited .literal s :: lookupEnd) := by
  have htext : lookupBack = '\'' :: ' ' ::
      "AND tc.constraint_type = 'PRIMARY KEY' ORDER BY kcu.ordinal_position".toList := by
    decide +kernel
  have hlex : lex "AND tc.constraint_type = 'PRIMARY KEY' ORDER BY kcu.ordinal_position".toList =
      some lookupEnd := by decide +kernel
  rw [htext]
  -- the quote ends the table name, and the rest is read as a text of its own
  refine (congrArg finish (read_delimiter_blank .literal s ts _)).trans ?_
  rw [finish_after, ← lex, hlex, Option.map_some, List.reverse_cons, List.append_assoc]
  rfl

theorem lex_lookup {schema tableName : String} (hschema : '\'' ∉ schema.toList)
    (htable : '\'' ∉ tableName.toList) :
    lex (Stmt.primaryKey schema tableName).text.toList =
      some (lookupTokens schema tableName) := by
  rw [lookup_text, lex, read_append, read_append, read_append, read_append, read_lookupFront,
    read_inside .literal htable, read_lookupMiddle, read_inside .literal hschema,
    finish_lookupBack]
  simp only [lookupTokens, stringLiteral, List.reverse_append, List.reverse_cons,
    List.reverse_reverse, List.append_assoc, List.nil_append, List.cons_append]

theorem toList_quoteColumn (n : String) :
    (quoteColumn n).toList = '"' :: (n.toList ++ ['"']) := by
  simp [quoteColumn]

theorem reads_names {gap : Text} (hgap : ∀ c ∈ gap, c = ' ') {names : List String}
    (hnames : ∀ n ∈ names, '"' ∉ n.toList) :
    Reads (List.intercalate (',' :: gap) (names.map fun n => (quoteColumn n).toList))
      (nameTokens names) := by
  refine reads_intercalate hgap fun n hn => ?_
  rw [toList_quoteColumn]
  exact reads_delimited .identifier (hnames n hn)

theorem toList_orderByClause (pk : List String) :
    (orderByClause pk).toList = " ORDER BY ".toList ++
      List.intercalate [',', ' '] (pk.map fun n => (quoteColumn n).toList) := by
  rw [orderByClause, String.toList_append, String.toList_intercalate, List.map_map]
  rfl

theorem toList_columnList (columns : List String) :
    (columnList columns).toList =
      '(' :: (List.intercalate [','] (columns.map fun n => (quoteColumn n).toList) ++ [')']) := by
  rw [columnList, String.toList_append, String.toList_append, String.toList_intercalate,
    List.map_map]
  rfl

theorem readsAs_orderBy {pk : List String} (hpk : ∀ n ∈ pk, '"' ∉ n.toList) :
    ReadsAs (orderByClause pk).toList ([keyword "order", keyword "by"] ++ nameTokens pk) := by
  have hgap : ∀ c ∈ ([' '] : Text), c = ' ' := by simp
  have hfront : ∀ ts, read ⟨.blank, ts⟩ " ORDER BY ".toList =
      ⟨.blank, keyword "by" :: keyword "order" :: ts⟩ := by
    intro ts
    have hread : read ⟨.blank, []⟩ " ORDER BY ".toList =
        ⟨.blank, [keyword "by", keyword "order"]⟩ := by decide +kernel
    exact (read_after ⟨.blank, []⟩ ts _).trans (congrArg (Lexer.after · ts) hread)
  have hreads : Reads (orderByClause pk).toList
      ([keyword "order", keyword "by"] ++ nameTokens pk) := by
    intro ts c hc
    rw [toList_orderByClause, List.append_assoc, read_append, hfront, reads_names hgap hpk _ c hc]
    simp
  -- a blank follows, which is a separator
  exact hreads.readsAs

theorem readsAs_columnList {columns : List String} (hcolumns : ∀ n ∈ columns, '"' ∉ n.toList) :
    ReadsAs (columnList columns).toList
      ([.symbol '('] ++ nameTokens columns ++ [.symbol ')']) := by
  have hgap : ∀ c ∈ ([] : Text), c = ' ' := by simp
  rw [toList_columnList]
  exact (reads_names hgap hcolumns).parens.readsAs

/-! ## Names with delimiters -/

/-- Where doubling every delimiter is not more than leaving it, there are none. -/
theorem no_delimiters {names : List String}
    (h : tally (fun n : String => 2 + 2 * n.toList.count '"') names ≤
      tally (fun n : String => 2 + n.toList.count '"') names) :
    ∀ n ∈ names, '"' ∉ n.toList := by
  -- doubling never makes a text shorter
  have hge : ∀ names : List String, tally (fun n : String => 2 + n.toList.count '"') names ≤
      tally (fun n : String => 2 + 2 * n.toList.count '"') names := by
    intro names
    induction names with
    | nil => exact Nat.le_refl 0
    | cons n names ih =>
      simp only [tally]
      omega
  induction names with
  | nil => simp
  | cons n names ih =>
    have hrest := hge names
    simp only [tally] at h
    intro m hm
    obtain rfl | hm := List.mem_cons.1 hm
    · exact List.count_eq_zero.1 (by omega)
    · exact ih (by omega) m hm

theorem tally_nameTokens (names : List String) :
    tally (delimiters .identifier).ofToken (nameTokens names) =
      tally (fun n : String => 2 + 2 * n.toList.count '"') names := by
  induction names with
  | nil => rfl
  | cons n names ih =>
    cases names with
    | nil => rfl
    | cons m names =>
      have hcons : nameTokens (n :: m :: names) =
          [quotedName n, .symbol ','] ++ nameTokens (m :: names) := by
        simp only [nameTokens, List.map_cons, List.intercalate_cons_cons]
        rfl
      rw [hcons, tally_append, ih]
      rfl

theorem count_quoteColumn (n : String) :
    (quoteColumn n).toList.count '"' = 2 + n.toList.count '"' := by
  have hend : ['"'].count '"' = 1 := rfl
  rw [toList_quoteColumn, List.count_cons_self, List.count_append, hend]
  omega

theorem count_names {gap : Text} (hgap : (',' :: gap).count '"' = 0) (names : List String) :
    (List.intercalate (',' :: gap) (names.map fun n => (quoteColumn n).toList)).count '"' =
      tally (fun n : String => 2 + n.toList.count '"') names := by
  induction names with
  | nil => rfl
  | cons n names ih =>
    cases names with
    | nil =>
      rw [List.map_singleton, List.intercalate_singleton, count_quoteColumn]
      rfl
    | cons m names =>
      rw [List.map_cons] at ih
      rw [List.map_cons, List.map_cons, List.intercalate_cons_cons, List.count_append,
        List.count_append, hgap, ih, count_quoteColumn]
      rfl

theorem no_delimiters_of_orderBy {pk : List String}
    (h : ReadsAs (orderByClause pk).toList ([keyword "order", keyword "by"] ++ nameTokens pk)) :
    ∀ n ∈ pk, '"' ∉ n.toList := by
  have hle := lex_delimiters_le .identifier h.lex
  have hfront : " ORDER BY ".toList.count '"' = 0 := by decide +kernel
  have htext : (orderByClause pk).toList.count '"' =
      tally (fun n : String => 2 + n.toList.count '"') pk := by
    rw [toList_orderByClause, List.count_append, hfront, count_names (by decide), Nat.zero_add]
  rw [tally_append, tally_nameTokens] at hle
  refine no_delimiters (Nat.le_trans (Nat.le_add_left ..) (hle.trans ?_))
  exact htext.le

theorem no_delimiters_of_columnList {columns : List String}
    (h : ReadsAs (columnList columns).toList
      ([.symbol '('] ++ nameTokens columns ++ [.symbol ')'])) :
    ∀ n ∈ columns, '"' ∉ n.toList := by
  have hle := lex_delimiters_le .identifier h.lex
  have hend : [')'].count '"' = 0 := rfl
  -- the text has each delimiter of a name once
  have htext : (columnList columns).toList.count '"' =
      tally (fun n : String => 2 + n.toList.count '"') columns := by
    rw [toList_columnList, List.count_cons_of_ne (by decide), List.count_append, hend,
      count_names (by decide), Nat.add_zero]
  rw [tally_append, tally_append, tally_nameTokens] at hle
  refine no_delimiters (Nat.le_trans ?_ (hle.trans htext.le))
  exact Nat.le_trans (Nat.le_add_left ..) (Nat.le_add_right ..)

end SyncLayer.Statements
