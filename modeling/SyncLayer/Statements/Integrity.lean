import SyncLayer.Discovery.Resolution
import SyncLayer.Statements.Grammar

/-!
# Statement Integrity

A table is referred to by its schema and its name with a dot between them and nothing
around them, and the names of columns stand between double quotes. All statements about a
table, the lookup of its key, the pages and the INSERTs, are read as they are meant exactly
when the two names are words and no column name contains a double quote
(`names_intact_iff`). Any other name is read as something else: in the worst case as SQL of
its own.

SQL folds a bare word to lower case. So there are two readings of the law: with the names
of the table as they are (`id`), which leaves words in lower case, and with folded names
(`fold`), which leaves all words.
-/

namespace SyncLayer.Statements

open SyncLayer.Model SyncLayer.Sql

/-! ## What the statements are meant to say -/

/-- A name that PostgreSQL allows. -/
structure Name where
  text : String
  nonempty : text ≠ ""
  noNul : '\x00' ∉ text.toList

/-- The reference by which a table is tracked. -/
def bareReference (schema tableName : String) : String := schema ++ "." ++ tableName

/-- The two names as words, in this spelling. -/
def referenceTokens (spelling : Text → Text) (schema tableName : String) : List Token :=
  [.word (spelling schema.toList), .symbol '.', .word (spelling tableName.toList)]

/-- The tokens of a page query. -/
def pageTokens (table : List Token) (pk : List String) (limit offset : Int32) : List Token :=
  [keyword "select", .symbol '*', keyword "from"] ++ (table ++
    ([keyword "order", keyword "by"] ++ (nameTokens pk ++ ([keyword "limit"] ++
      (integerTokens limit.toInt ++ ([keyword "offset"] ++ integerTokens offset.toInt))))))

/-- The tokens of an INSERT. -/
def insertTokens (table : List Token) (columns : List String)
    (values : List (List SqlValue)) : List Token :=
  [keyword "insert", keyword "into"] ++ (table ++ ([.symbol '('] ++ (nameTokens columns ++
    ([.symbol ')'] ++ ([keyword "values"] ++
      (List.intercalate [.symbol ','] (values.map (tupleTokens valueToken)) ++
        conflictClause))))))

/-- Every statement about the table is one statement, the one that is meant. The lookup has
    the two names as its literals, cut out of the reference; the page queries and the
    INSERTs have them as words. The ORDER BY clause is the list of the key columns and the
    column list that of the columns, wherever they stand. -/
structure Intact (spelling : Text → Text) (schema tableName : String)
    (pk columns : List String) : Prop where
  lookup : lex (Stmt.primaryKey (TableTracker.schemaOf (bareReference schema tableName))
      (TableTracker.tableNameOf (bareReference schema tableName))).text.toList =
    some (lookupTokens schema tableName)
  orderBy : ReadsAs (orderByClause pk).toList
    ([keyword "order", keyword "by"] ++ nameTokens pk)
  intoColumns : ReadsAs (columnList columns).toList
    ([.symbol '('] ++ nameTokens columns ++ [.symbol ')'])
  page : ∀ limit offset : Int32,
    lex (Stmt.selectPage (bareReference schema tableName) pk limit offset).text.toList =
      some (pageTokens (referenceTokens spelling schema tableName) pk limit offset)
  insert : ∀ values : List (List SqlValue),
    lex (Stmt.insert (bareReference schema tableName) columns values).text.toList =
      some (insertTokens (referenceTokens spelling schema tableName) columns values)

/-- The names of the table can stand bare, and no column name contains the delimiter that
    it stands between. -/
def Delimitable (Bare : Text → Prop) (schema tableName : String) (pk columns : List String) :
    Prop :=
  Bare schema.toList ∧ Bare tableName.toList ∧
    (∀ n ∈ pk, '"' ∉ n.toList) ∧ ∀ n ∈ columns, '"' ∉ n.toList

/-! ## Words as names -/

theorem toList_bareReference (schema tableName : String) :
    (bareReference schema tableName).toList = schema.toList ++ '.' :: tableName.toList := by
  simp [bareReference]

/-- The cut at the first dot gives back the names. -/
theorem halves_bareReference {schema tableName : String} (hschema : IsWord schema.toList) :
    Discovery.halves (bareReference schema tableName) = ⟨schema, tableName⟩ := by
  rw [Discovery.halves_of_dot (toList_bareReference schema tableName)
    (hschema.symbol_notMem (by decide)), String.ofList_toList, String.ofList_toList]

theorem reads_bareReference {schema tableName : String} (hschema : IsWord schema.toList)
    (htable : IsWord tableName.toList) :
    Reads (bareReference schema tableName).toList (referenceTokens fold schema tableName) := by
  rw [toList_bareReference]
  exact reads_qualified hschema htable

theorem intact_of_words {schema tableName : String} {pk columns : List String}
    (h : Delimitable IsWord schema tableName pk columns) :
    Intact fold schema tableName pk columns := by
  obtain ⟨hschema, htable, hpk, hcolumns⟩ := h
  have hreference := reads_bareReference hschema htable
  have hlookup := lex_lookup (hschema.symbol_notMem (c := '\'') (by decide))
    (htable.symbol_notMem (c := '\'') (by decide))
  have hcut : Discovery.halves (bareReference schema tableName) = ⟨schema, tableName⟩ :=
    halves_bareReference hschema
  refine ⟨?_, readsAs_orderBy hpk, readsAs_columnList hcolumns,
    fun limit offset => lex_selectPage limit offset hreference hpk,
    fun values => lex_insert values hreference hcolumns⟩
  rw [show TableTracker.schemaOf _ = schema from congrArg Discovery.Relation.schema hcut,
    show TableTracker.tableNameOf _ = tableName from congrArg Discovery.Relation.name hcut]
  exact hlookup

/-! ## The law -/

/-- Words that the lexer returns are plain, so the names that it returns are. -/
theorem plainWords_of_page {spelling : Text → Text} {schema tableName : String}
    {pk columns : List String} (h : Intact spelling schema tableName pk columns) :
    PlainWord (spelling schema.toList) ∧ PlainWord (spelling tableName.toList) := by
  have hpage := h.page pageSize 0
  constructor
  · apply plainWord_of_lex hpage
    simp [pageTokens, referenceTokens]
  · apply plainWord_of_lex hpage
    simp [pageTokens, referenceTokens]

theorem intact_fold_iff {schema tableName : String} {pk columns : List String} :
    Intact fold schema tableName pk columns ↔
      Delimitable IsWord schema tableName pk columns := by
  constructor
  · intro h
    obtain ⟨hschema, htable⟩ := plainWords_of_page h
    exact ⟨.of_fold hschema, .of_fold htable, no_delimiters_of_orderBy h.orderBy,
      no_delimiters_of_columnList h.intoColumns⟩
  · exact intact_of_words

/-- Names in lower case are their own spelling. -/
theorem intact_id_iff {schema tableName : String} {pk columns : List String} :
    Intact id schema tableName pk columns ↔
      Delimitable PlainWord schema tableName pk columns := by
  constructor
  · intro h
    obtain ⟨hschema, htable⟩ := plainWords_of_page h
    exact ⟨hschema, htable, no_delimiters_of_orderBy h.orderBy,
      no_delimiters_of_columnList h.intoColumns⟩
  · rintro ⟨hschema, htable, hcolumns⟩
    have hintact := intact_of_words ⟨hschema.toIsWord, htable.toIsWord, hcolumns⟩
    have htokens : referenceTokens fold schema tableName =
        referenceTokens id schema tableName := by
      rw [referenceTokens, hschema.folded, htable.folded]
      rfl
    refine ⟨hintact.lookup, hintact.orderBy, hintact.intoColumns, ?_, ?_⟩
    · rw [← htokens]
      exact hintact.page
    · rw [← htokens]
      exact hintact.insert

/-- **Statement integrity**: for names that PostgreSQL allows, the statements are read as
    they are meant exactly when the names of the table are words in lower case and no column
    name contains a double quote; or all words, when folding them is no matter. -/
theorem names_intact_iff (schema tableName : Name) (pk columns : List Name) :
    (Intact id schema.text tableName.text (pk.map Name.text) (columns.map Name.text) ↔
      Delimitable PlainWord schema.text tableName.text (pk.map Name.text)
        (columns.map Name.text)) ∧
    (Intact fold schema.text tableName.text (pk.map Name.text) (columns.map Name.text) ↔
      Delimitable IsWord schema.text tableName.text (pk.map Name.text)
        (columns.map Name.text)) :=
  ⟨intact_id_iff, intact_fold_iff⟩

/-! ## Names that are read as SQL -/

/-- A column that ends the INSERT it stands in and begins a statement of its own. -/
def hostileColumn : Name where
  text := "id\") VALUES (1); DROP TABLE users; --"
  nonempty := by decide
  noNul := by decide

/-- A table that does the same with the page query. -/
def hostileTable : Name where
  text := "x; DELETE FROM audit; --"
  nonempty := by decide
  noNul := by decide

/-- What the server reads instead of a page query for that table. -/
theorem lex_page_hostileTable :
    lex (Stmt.selectPage (bareReference "public" hostileTable.text) ["id"] pageSize 0).text.toList =
      some [keyword "select", .symbol '*', keyword "from", keyword "public", .symbol '.',
        keyword "x", .symbol ';', keyword "delete", keyword "from", keyword "audit",
        .symbol ';'] := by
  decide +kernel

theorem hostileNames_not_intact :
    (∀ spelling, ¬ Intact spelling "public" "users" ["id"] [hostileColumn.text]) ∧
      lex (columnList [hostileColumn.text]).toList =
        some [.symbol '(', quotedName "id", .symbol ')', keyword "values", .symbol '(',
          .number ['1'], .symbol ')', .symbol ';', keyword "drop", keyword "table",
          keyword "users", .symbol ';'] ∧
    (∀ spelling, ¬ Intact spelling "public" hostileTable.text ["id"] ["id"]) ∧
      lex (Stmt.selectPage (bareReference "public" hostileTable.text) ["id"]
        pageSize 0).text.toList =
        some [keyword "select", .symbol '*', keyword "from", keyword "public", .symbol '.',
          keyword "x", .symbol ';', keyword "delete", keyword "from", keyword "audit",
          .symbol ';'] := by
  refine ⟨fun _ h => ?_, by decide +kernel, fun _ h => ?_, lex_page_hostileTable⟩
  · exact absurd (no_delimiters_of_columnList h.intoColumns _ (List.mem_cons_self ..)) (by decide)
  · -- a semicolon stands where the ORDER BY clause should
    have hpage := h.page pageSize 0
    rw [lex_page_hostileTable] at hpage
    simp [pageTokens, referenceTokens, keyword] at hpage

end SyncLayer.Statements
