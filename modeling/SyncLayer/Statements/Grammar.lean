import SyncLayer.Library.Sql.Grammar
import SyncLayer.Statements.Names

/-!
# Reading Statements Back

A server does not get the statements of the service but their texts. `ofText` reads a text
as one of these statements. For names without delimiters, tables that are plain references
and lists that are not empty (`Readable`) it gives back the statement that was written, with
all its values (`ofText_text`), so the text says everything about it.
-/

namespace SyncLayer.Statements

open SyncLayer.Model SyncLayer.Sql

/-! ## The grammar -/

/-- The statements that are always the same. -/
def fixedStatements : List Stmt :=
  [.selectOne, .countConnections, .databaseSize, .countActiveQueries, .listTables]

def fixedOfTokens (ts : List Token) : Option Stmt :=
  fixedStatements.find? fun q => lex q.text.toList = some ts

/-- A string literal. -/
def literalOf : List Token → Option (String × List Token)
  | .delimited .literal s :: rest => some (String.ofList s, rest)
  | _ => none

def lookupOfTokens (ts : List Token) : Option Stmt := do
  let (tableName, rest) ← behind lookupHead literalOf ts
  let (schema, rest) ← behind lookupLink literalOf rest
  if rest = lookupEnd then some (.primaryKey schema tableName) else none

/-- A number that fits. -/
def toInt32 (n : Int) : Option Int32 :=
  if Int32.minValue.toInt ≤ n ∧ n ≤ Int32.maxValue.toInt then some (Int32.ofInt n) else none

def pageOfTokens (ts : List Token) : Option Stmt := do
  let (table, rest) ← behind [keyword "select", .symbol '*', keyword "from"] reference ts
  let (orderBy, rest) ← behind [keyword "order", keyword "by"] names rest
  let (limit, rest) ← behind [keyword "limit"] integer rest
  let (offset, rest) ← behind [keyword "offset"] integer rest
  let limit ← toInt32 limit
  let offset ← toInt32 offset
  if rest = [] then
    some (.selectPage (String.ofList table) (orderBy.map String.ofList) limit offset)
  else none

/-- A value of a VALUES list. -/
def valueOf : Option Text → SqlValue
  | none => .null
  | some s => .literal (String.ofList s)

/-- What stands behind the VALUES list. -/
def conflictClause : List Token :=
  [keyword "on", keyword "conflict", keyword "do", keyword "nothing"]

def insertOfTokens (ts : List Token) : Option Stmt := do
  let (table, rest) ← behind [keyword "insert", keyword "into"] reference ts
  let (columns, rest) ← behind [.symbol '('] names rest
  let rest ← behind [.symbol ')', keyword "values"] (·.dropSuffix? conflictClause) rest
  let values ← parseTuples rest
  some (.insert (String.ofList table) (columns.map String.ofList)
    (values.map fun row => row.map valueOf))

/-- The first two tokens tell which statement it is. -/
def ofTokens (ts : List Token) : Option Stmt :=
  if ts.head? = some (keyword "insert") then insertOfTokens ts
  else if ts[1]? = some (.symbol '*') then pageOfTokens ts
  else if ts[1]? = some (keyword "kcu") then lookupOfTokens ts
  else fixedOfTokens ts

/-- The statement that a text says. -/
def ofText (text : String) : Option Stmt := (lex text.toList).bind ofTokens

/-! ## Readable statements -/

/-- Names can be delimited as they are, tables are plain references, and lists have
    members. -/
def Readable : Stmt → Prop
  | .primaryKey schema tableName => '\'' ∉ schema.toList ∧ '\'' ∉ tableName.toList
  | .selectPage table orderBy _ _ =>
      PlainTable table.toList ∧ orderBy ≠ [] ∧ ∀ n ∈ orderBy, '"' ∉ n.toList
  | .insert table columns values =>
      PlainTable table.toList ∧ columns ≠ [] ∧ (∀ n ∈ columns, '"' ∉ n.toList) ∧
        values ≠ [] ∧ ∀ row ∈ values, row ≠ []
  | _ => True

/-! ## Lexing -/

/-- A phrase of keywords and symbols. -/
theorem reads_phrase {s : Text} {ts : List Token}
    (h : read ⟨.blank, []⟩ (s ++ [' ']) = start ts.reverse ' ' ∧
      read ⟨.blank, []⟩ (s ++ [',']) = start ts.reverse ',' ∧
      read ⟨.blank, []⟩ (s ++ [')']) = start ts.reverse ')') :
    Reads s ts := by
  obtain ⟨hblank, hcomma, hclose⟩ := h
  apply reads_of_fresh
  intro c hc
  obtain rfl | rfl | rfl := hc
  · exact hblank
  · exact hcomma
  · exact hclose

theorem nameTokens_eq (names : List String) :
    nameTokens names = nameList (names.map String.toList) := by
  rw [nameTokens, nameList, List.map_map]
  rfl

theorem names_nameTokens {ns : List String} (hne : ns ≠ []) {t : Token} (ht : t ≠ .symbol ',')
    (rest : List Token) :
    names (nameTokens ns ++ ([t] ++ rest)) = some (ns.map String.toList, [t] ++ rest) := by
  rw [nameTokens_eq]
  exact names_nameList (by simpa using hne) ht rest

theorem map_ofList_toList (names : List String) :
    (names.map String.toList).map String.ofList = names := by
  simp [Function.comp_def]

theorem toInt32_toInt (n : Int32) : toInt32 n.toInt = some n := by
  have hrange := And.intro n.minValue_le_toInt n.toInt_le
  rw [toInt32, if_pos hrange, Int32.ofInt_toInt]

/-! ## Page queries -/

section Page

variable (table : String) (orderBy : List String) (limit offset : Int32)

theorem toList_selectPage : (Stmt.selectPage table orderBy limit offset).text.toList =
    "SELECT * FROM".toList ++ ' ' :: (table.toList ++ ' ' :: ("ORDER BY".toList ++ ' ' ::
      (List.intercalate [',', ' '] (orderBy.map fun n => (quoteColumn n).toList) ++ ' ' ::
        ("LIMIT".toList ++ ' ' :: ((toString limit.toInt).toList ++ ' ' ::
          ("OFFSET".toList ++ ' ' :: (toString offset.toInt).toList)))))) := by
  rw [selectPage_text, orderByClause]
  simp [String.toList_intercalate, Function.comp_def]

theorem lex_selectPage {table : String} {tableTokens : List Token}
    (htable : Reads table.toList tableTokens) {orderBy : List String}
    (horderBy : ∀ n ∈ orderBy, '"' ∉ n.toList) :
    lex (Stmt.selectPage table orderBy limit offset).text.toList =
      some ([keyword "select", .symbol '*', keyword "from"] ++ (tableTokens ++
        ([keyword "order", keyword "by"] ++ (nameTokens orderBy ++ ([keyword "limit"] ++
          (integerTokens limit.toInt ++ ([keyword "offset"] ++
            integerTokens offset.toInt))))))) := by
  have hselect : Reads "SELECT * FROM".toList
      [keyword "select", .symbol '*', keyword "from"] := reads_phrase (by decide +kernel)
  have horder : Reads "ORDER BY".toList [keyword "order", keyword "by"] :=
    reads_phrase (by decide +kernel)
  have hlimit : Reads "LIMIT".toList [keyword "limit"] := reads_phrase (by decide +kernel)
  have hoffset : Reads "OFFSET".toList [keyword "offset"] := reads_phrase (by decide +kernel)
  have hgap : ∀ c ∈ [' '], c = ' ' := by simp
  have hnames := reads_names hgap horderBy
  rw [toList_selectPage]
  apply (hselect.blank (htable.blank (horder.blank (hnames.blank (hlimit.blank
    ((reads_integer limit.toInt).blank (hoffset.blank (reads_integer offset.toInt)))))))).readsAs.lex

theorem ofText_selectPage {table : String} {orderBy : List String}
    (h : Readable (.selectPage table orderBy limit offset)) :
    ofText (Stmt.selectPage table orderBy limit offset).text =
      some (.selectPage table orderBy limit offset) := by
  obtain ⟨htable, hne, horderBy⟩ := h
  obtain ⟨tableTokens, hreads, hreference⟩ := htable.reads
  have hlast := integer_tokens offset.toInt []
  rw [List.append_nil] at hlast
  rw [ofText, lex_selectPage limit offset hreads horderBy, Option.bind_some, ofTokens,
    if_neg (by simp [keyword]), if_pos (by simp), pageOfTokens, behind_append,
    hreference _ (by simp [keyword])]
  have hnames := names_nameTokens hne (t := keyword "limit") (by simp [keyword])
  simp only [behind_append, hnames, integer_tokens, hlast, toInt32_toInt, Option.bind_eq_bind,
    Option.bind_some, map_ofList_toList, String.ofList_toList, if_true]

end Page

/-! ## INSERT statements -/

section Insert

variable (table : String) (columns : List String) (values : List (List SqlValue))

theorem toList_insert : (Stmt.insert table columns values).text.toList =
    "INSERT INTO".toList ++ ' ' :: (table.toList ++ ' ' :: ((columnList columns).toList ++ ' ' ::
      ("VALUES".toList ++ ' ' :: ((valuesList values).toList ++ ' ' ::
        "ON CONFLICT DO NOTHING".toList)))) := by
  rw [insert_text, insertFront_eq]
  simp

theorem reads_valuesList : Reads (valuesList values).toList
    (List.intercalate [.symbol ','] (values.map (tupleTokens valueToken))) := by
  have hgap : ∀ c ∈ ([] : Text), c = ' ' := by simp
  have htext : (valuesList values).toList =
      List.intercalate [','] (values.map fun row => (valuesText row).toList) := by
    simp [valuesList, String.toList_intercalate, Function.comp_def]
  rw [htext]
  exact reads_intercalate hgap fun row _ => reads_row row

theorem lex_insert {table : String} {tableTokens : List Token}
    (htable : Reads table.toList tableTokens) {columns : List String}
    (hcolumns : ∀ n ∈ columns, '"' ∉ n.toList) :
    lex (Stmt.insert table columns values).text.toList =
      some ([keyword "insert", keyword "into"] ++ (tableTokens ++ ([.symbol '('] ++
        (nameTokens columns ++ ([.symbol ')'] ++ ([keyword "values"] ++
          (List.intercalate [.symbol ','] (values.map (tupleTokens valueToken)) ++
            conflictClause))))))) := by
  have hinsert : Reads "INSERT INTO".toList [keyword "insert", keyword "into"] :=
    reads_phrase (by decide +kernel)
  have hvalues : Reads "VALUES".toList [keyword "values"] := reads_phrase (by decide +kernel)
  have hconflict : Reads "ON CONFLICT DO NOTHING".toList conflictClause :=
    reads_phrase (by decide +kernel)
  have hgap : ∀ c ∈ ([] : Text), c = ' ' := by simp
  have hnames := (reads_names hgap hcolumns).parens
  rw [← toList_columnList] at hnames
  have hreads := hinsert.blank (htable.blank (hnames.blank (hvalues.blank
    ((reads_valuesList values).blank hconflict))))
  rw [toList_insert, hreads.readsAs.lex]
  simp

theorem valueOf_toCell (v : SqlValue) : valueOf (v.toCell.map String.toList) = v := by
  cases v with
  | null => rfl
  | literal s => exact congrArg SqlValue.literal String.ofList_toList

theorem ofText_insert {table : String} {columns : List String} {values : List (List SqlValue)}
    (h : Readable (.insert table columns values)) :
    ofText (Stmt.insert table columns values).text = some (.insert table columns values) := by
  obtain ⟨htable, hne, hcolumns, hvalues, hrows⟩ := h
  obtain ⟨tableTokens, hreads, hreference⟩ := htable.reads
  have hnames := names_nameTokens hne (t := .symbol ')') (by simp)
  have hsuffix : ∀ ts : List Token, (ts ++ conflictClause).dropSuffix? conflictClause = some ts :=
    fun ts => List.dropSuffix?_eq_some_iff.2 ⟨_, rfl, BEq.rfl⟩
  have hparse := parseTuples_tokens literal_valueToken hvalues hrows
  have hback : (values.map fun row => row.map fun v => v.toCell.map String.toList).map
      (fun row => row.map valueOf) = values := by
    simp [Function.comp_def, valueOf_toCell]
  rw [ofText, lex_insert values hreads hcolumns, Option.bind_some, ofTokens, if_pos (by simp),
    insertOfTokens, behind_append, hreference _ (by simp)]
  simp only [behind_append, hnames, Option.bind_eq_bind, Option.bind_some]
  rw [← List.append_assoc, List.singleton_append, behind_append, hsuffix, Option.bind_some, hparse,
    Option.bind_some, map_ofList_toList, hback, String.ofList_toList]

end Insert

/-! ## The other statements -/

theorem ofText_primaryKey {schema tableName : String}
    (h : Readable (.primaryKey schema tableName)) :
    ofText (Stmt.primaryKey schema tableName).text = some (.primaryKey schema tableName) := by
  have hliteral : ∀ (s : String) (rest : List Token),
      literalOf (stringLiteral s :: rest) = some (s, rest) := by
    intro s rest
    rw [stringLiteral, literalOf, String.ofList_toList]
  -- the first two tokens do not depend on the names
  obtain ⟨rest, hhead⟩ : ∃ rest, lookupTokens schema tableName =
      keyword "select" :: keyword "kcu" :: rest := ⟨_, rfl⟩
  have hlookup : ofTokens (lookupTokens schema tableName) =
      lookupOfTokens (lookupTokens schema tableName) := by
    have hinsert : keyword "select" ≠ keyword "insert" := by decide
    rw [hhead, ofTokens, if_neg (by simpa using hinsert), if_neg (by simp [keyword]),
      if_pos (by simp)]
  rw [ofText, lex_lookup h.1 h.2, Option.bind_some, hlookup, lookupOfTokens, lookupTokens,
    behind_append, hliteral]
  simp only [behind_append, hliteral, Option.bind_eq_bind, Option.bind_some, if_true]

theorem ofText_fixed : ∀ q ∈ fixedStatements, ofText q.text = some q := by
  decide +kernel

theorem ofText_text {q : Stmt} (h : Readable q) : ofText q.text = some q := by
  cases q with
  | selectOne => exact ofText_fixed _ (by simp [fixedStatements])
  | countConnections => exact ofText_fixed _ (by simp [fixedStatements])
  | databaseSize => exact ofText_fixed _ (by simp [fixedStatements])
  | countActiveQueries => exact ofText_fixed _ (by simp [fixedStatements])
  | listTables => exact ofText_fixed _ (by simp [fixedStatements])
  | primaryKey schema tableName => exact ofText_primaryKey h
  | selectPage table orderBy limit offset => exact ofText_selectPage limit offset h
  | insert table columns values => exact ofText_insert h

/-- **Reading back**: the text of a readable statement says which statement it is, with all
    its names, numbers and values, and no other readable statement has this text. -/
theorem statement_read_back {q : Stmt} (h : Readable q) :
    ofText q.text = some q ∧ ∀ q', Readable q' → q'.text = q.text → q' = q := by
  refine ⟨ofText_text h, fun q' h' htext => ?_⟩
  have hread := ofText_text h'
  rw [htext, ofText_text h] at hread
  exact (Option.some.inj hread).symm

theorem plainWord_users : PlainWord "users".toList where
  start := ⟨'u', ['s', 'e', 'r', 's'], rfl, rfl⟩
  chars := List.all_eq_true.1 (by decide)
  folded := by decide

/-- Values that look like the statement around them. -/
def awkwardInsert : Stmt :=
  .insert "users" ["id", "name"]
    [[.literal "1", .literal "x') ON CONFLICT DO NOTHING"], [.literal "2", .null]]

theorem readable_awkwardInsert : Readable awkwardInsert :=
  ⟨.single plainWord_users, by decide, by decide, by decide, by decide⟩

theorem statement_read_back_awkward : ofText awkwardInsert.text = some awkwardInsert :=
  (statement_read_back readable_awkwardInsert).1

end SyncLayer.Statements
