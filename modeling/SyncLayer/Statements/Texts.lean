import SyncLayer.Copy.Interleavings
import SyncLayer.Copy.Start
import SyncLayer.Discovery.Resolution
import SyncLayer.Model.Calls
import SyncLayer.Protocol.Progress
import SyncLayer.Statements.Grammar

/-!
# Runs Over Texts

The model sends statements, the service sends texts. Here a server gets the texts, reads
them, and rejects what it cannot read (`overTexts`). As long as the catalog answers with
plain names, every statement of `start` is readable, and a run over texts is the run over
statements (`start_over_texts`): what is proved of servers that get statements holds of
servers that get the texts.
-/

namespace SyncLayer.Statements

open SyncLayer.Interaction SyncLayer.Model SyncLayer.Database SyncLayer.Sql SyncLayer.Discovery
open SyncLayer.Protocol (obeys_PQexec_bind)

/-! ## Servers that get texts -/

section OverTexts

variable {W : Type} (h : Prog.Handler Call Call.Reply W)

/-- What a server answers that executes the statements it reads. -/
def execText (conn : Conn) (text : String) (w : W) : Option PGresult × W :=
  match ofText text with
  | some query => h (.pqexec conn query) w
  | none => (some failureResult, w)

/-- The same environment, with texts on both connections. -/
def overTexts : Prog.Handler Call Call.Reply W
  | .pqexec conn query, w => execText h conn query.text w
  | .pqescapeLiteral text, w => h (.pqescapeLiteral text) w
  | .sleepFor milliseconds, w => h (.sleepFor milliseconds) w
  | .log line, w => h (.log line) w

theorem execText_text {query : Stmt} (hquery : Readable query) (conn : Conn) (w : W) :
    execText h conn query.text w = h (.pqexec conn query) w := by
  rw [execText, ofText_text hquery]

end OverTexts

/-! ## Plain answers -/

/-- Names that an answer brings into later statements can be written as they are. -/
def PlainAnswer (query : Stmt) (res : Option PGresult) : Prop :=
  PQresultStatus res = .tuplesOk →
    match query with
    | .listTables => ∀ name ∈ TableTracker.firstColumn res, PlainWord name.toList
    | .primaryKey _ _ => ∀ column ∈ TableTracker.firstColumn res, '"' ∉ column.toList
    | .selectPage _ _ _ _ => (∀ column ∈ resultFields res, '"' ∉ column.toList) ∧
        ∀ row ∈ resultRows res, row ≠ [] ∧ resultFields res ≠ []
    | _ => True

theorem plainAnswer_of_failure {query : Stmt} {res : Option PGresult}
    (hres : PQresultStatus res ≠ .tuplesOk) : PlainAnswer query res :=
  fun h => absurd h hres

/-- The statements are readable, when the answers are plain. -/
def readableStatements : Monitor Call Call.Reply Unit where
  may _ e := ∀ conn query, e = .pqexec conn query → Readable query
  expects _ e r := ∀ conn query (he : e = .pqexec conn query),
    PlainAnswer query (cast (congrArg Call.Reply he) r)
  next _ _ _ := ()

section Rules

variable {α : Type} {Q : α → Unit → Prop}

theorem obeys_query {conn : Conn} {query : Stmt} {f : Option PGresult → Code α}
    (hquery : Readable query)
    (hf : ∀ res, PlainAnswer query res → (f res).Obeys readableStatements Q ()) :
    (PQexec conn query >>= f).Obeys readableStatements Q () := by
  refine (obeys_PQexec_bind ..).2 ⟨?_, fun res hres => hf res (hres conn query rfl)⟩
  intro conn' query' he
  cases he
  exact hquery

/-- Calls that are no statements are all permitted. -/
theorem obeys_other {e : Call} {f : e.Reply → Code α} (he : ∀ conn query, e ≠ .pqexec conn query)
    (hf : ∀ r, (f r).Obeys readableStatements Q ()) :
    (Prog.perform e >>= f).Obeys readableStatements Q () :=
  (Prog.obeys_perform_bind e f).2 ⟨fun conn query h => absurd h (he conn query), fun r _ => hf r⟩

theorem obeys_line {line : LogLine} {f : Unit → Code α}
    (hf : ∀ u, (f u).Obeys readableStatements Q ()) :
    (log line >>= f).Obeys readableStatements Q () :=
  obeys_other (by simp) hf

theorem obeys_last_line {line : LogLine} :
    (log line).Obeys readableStatements (fun _ _ => True) () :=
  Prog.obeys_perform (fun conn query h => by cases h) fun _ _ => trivial

end Rules

/-! ## The functions of the model -/

private theorem obeys_executeWithRetry {conn : Conn} {query : Stmt} (hquery : Readable query) :
    (executeWithRetry conn query).Obeys readableStatements (fun res _ => PlainAnswer query res)
      () := by
  have hnull : PlainAnswer query none := plainAnswer_of_failure (by decide)
  have hloop : ∀ (n : Nat) (attempt : Int) (delay : Int64) (res : Option PGresult),
      PlainAnswer query res →
      (backoffLoop (attemptQuery conn query) n attempt delay res).Obeys readableStatements
        (fun res _ => PlainAnswer query res) () := by
    intro n
    induction n with
    | zero => exact fun _ _ _ hres => hres
    | succ n ih =>
      intro attempt delay res _
      apply Prog.Obeys.bind
      apply obeys_query hquery
      intro res hres
      split
      · exact hres
      · apply obeys_line
        intro _
        exact obeys_other (by simp) fun _ => ih _ _ _ hnull
  exact hloop _ _ _ _ hnull

/-- Encoding keeps the number of cells, so no tuple is empty. -/
private theorem obeys_encodeRow {row : Row} (hrow : row ≠ []) :
    (encodeRow row).Obeys readableStatements (fun values _ => values ≠ []) () := by
  -- nothing has to be recorded
  let D (_ : Cell) (_ : List Unit) (_ : SqlValue) : Prop := True
  let P (_ : List Unit) (_ : Unit) : Prop := True
  have hcell : ∀ cell ∈ row, ∀ ts s, P ts s → (encodeCell cell).Obeys readableStatements
      (fun value s' => ∃ added, D cell added value ∧ P (ts ++ added) s') s := by
    intro cell _ _ _ _
    cases cell with
    | none => exact ⟨[], trivial, trivial⟩
    | some val =>
      apply obeys_other (by simp)
      intro escaped
      cases escaped <;> exact ⟨[], trivial, trivial⟩
  apply (Prog.obeys_mapM row hcell [] () trivial).mono
  rintro values _ ⟨added, hvalues, -⟩ rfl
  exact hrow (List.eq_nil_of_length_eq_zero hvalues.length_eq.symm)

section Copy

variable {t : String} {fields : List String}

private theorem obeys_sendBatch {values : List (List SqlValue)}
    (hinsert : Readable (.insert t fields values)) :
    (sendBatch t fields values).Obeys readableStatements (fun _ _ => True) () := by
  apply Prog.Obeys.bind
  apply (obeys_executeWithRetry hinsert).mono
  intro res _ _
  split
  · exact obeys_last_line
  · exact trivial

private theorem obeys_rowLoop (ht : PlainTable t.toList) (hfields : ∀ c ∈ fields, '"' ∉ c.toList)
    {rows : List Row} (hrows : ∀ row ∈ rows, row ≠ [] ∧ fields ≠ [])
    {inserts : List (List SqlValue)} (hinserts : ∀ row ∈ inserts, row ≠ [] ∧ fields ≠ []) :
    (rowLoop t fields rows inserts).Obeys readableStatements (fun _ _ => True) () := by
  -- any rows that have been collected make a readable statement
  have hreadable : ∀ values : List (List SqlValue), values ≠ [] →
      (∀ row ∈ values, row ≠ [] ∧ fields ≠ []) → Readable (.insert t fields values) := by
    intro values hne hvalues
    obtain ⟨row, hrow⟩ := List.exists_mem_of_ne_nil values hne
    exact ⟨ht, (hvalues row hrow).2, hfields, hne, fun row hrow => (hvalues row hrow).1⟩
  induction rows generalizing inserts with
  | nil =>
    rw [rowLoop]
    split
    · next hne =>
      exact obeys_sendBatch (hreadable inserts (by simpa using hne) hinserts)
    · exact trivial
  | cons row rows ih =>
    have hrest : ∀ row ∈ rows, row ≠ [] ∧ fields ≠ [] :=
      fun r hr => hrows r (List.mem_cons_of_mem _ hr)
    obtain ⟨hrow, hne⟩ := hrows row (List.mem_cons_self ..)
    apply Prog.Obeys.bind
    apply (obeys_encodeRow hrow).mono
    intro values _ hvalues
    have hcollected : ∀ row ∈ inserts ++ [values], row ≠ [] ∧ fields ≠ [] := by
      intro r hr
      obtain hr | hr := List.mem_append.1 hr
      · exact hinserts r hr
      · rw [List.mem_singleton.1 hr]
        exact ⟨hvalues, hne⟩
    dsimp only
    split
    · apply Prog.Obeys.bind
      apply (obeys_sendBatch (hreadable _ (by simp) hcollected)).mono
      intro _ _ _
      exact ih hrest (by simp)
    · exact ih hrest hcollected

private theorem obeys_pageLoop (ht : PlainTable t.toList) {pk : List String} (hpk : pk ≠ [])
    (hcolumns : ∀ c ∈ pk, '"' ∉ c.toList) (fuel : Nat) (offset totalRows : Int32) :
    (pageLoop t pk fuel offset totalRows).Obeys readableStatements (fun _ _ => True) () := by
  induction fuel generalizing offset totalRows with
  | zero => trivial
  | succ fuel ih =>
    have hquery : Readable (.selectPage t pk pageSize offset) := ⟨ht, hpk, hcolumns⟩
    apply Prog.Obeys.bind
    apply (obeys_executeWithRetry hquery).mono
    intro res _ hres
    split
    · exact obeys_line fun _ => trivial
    · next hstatus =>
      obtain ⟨hfields, hrows⟩ := hres (not_not.1 hstatus)
      dsimp only
      split
      · exact trivial
      · apply Prog.Obeys.bind
        apply (obeys_rowLoop ht hfields hrows (by simp)).mono
        intro _ _ _
        exact obeys_line fun _ => ih _ _

end Copy

/-- The names that the tracker holds can be written. -/
structure PlainTracker (tracker : TableTracker) : Prop where
  tables : ∀ t ∈ tracker.trackedTables, PlainTable t.toList
  keys : ∀ t, ∀ c ∈ tracker.getPrimaryKeys t, '"' ∉ c.toList

private theorem obeys_initialSync (fuel : Nat) {tracker : TableTracker}
    (htracker : PlainTracker tracker) :
    (initialSync fuel tracker).Obeys readableStatements (fun _ _ => True) () := by
  apply obeys_line
  intro _
  apply Prog.Obeys.bind
  refine (Prog.obeys_forM (P := fun _ => True) _ (fun t ht _ _ => ?_) trivial).mono ?_
  · rw [syncTable]
    split
    · exact obeys_last_line
    · next hpk =>
      apply obeys_line
      intro _
      apply Prog.Obeys.bind
      apply (obeys_pageLoop (htracker.tables t ht) (by simpa using hpk) (htracker.keys t) ..).mono
      intro _ _ _
      exact obeys_last_line
  · intro _ _ _
    exact obeys_last_line

/-! ## Discovery -/

/-- The halves of a string have no characters of their own. -/
private theorem notMem_halves {t : String} {c : Char} (hc : c ∉ t.toList) :
    c ∉ (TableTracker.schemaOf t).toList ∧ c ∉ (TableTracker.tableNameOf t).toList := by
  constructor
  · rw [TableTracker.schemaOf, String.toList_ofList]
    exact fun hmem => hc ((List.takeWhile_sublist _).subset hmem)
  · rw [TableTracker.tableNameOf]
    split
    · exact hc
    · next dot rest hdrop =>
      rw [String.toList_ofList]
      intro hmem
      have hfront : c ∈ dot :: rest := List.mem_cons_of_mem dot hmem
      rw [← hdrop] at hfront
      exact hc ((List.dropWhile_sublist _).subset hfront)

private theorem readable_primaryKey {t : String} (ht : PlainTable t.toList) :
    Readable (.primaryKey (TableTracker.schemaOf t) (TableTracker.tableNameOf t)) :=
  notMem_halves (ht.notMem (by decide) (by decide))

private theorem obeys_listTables {config : Config}
    (hconfig : ∀ t ∈ config.tables, PlainTable t.toList) :
    (TableTracker.listTables config).Obeys readableStatements
      (fun tables _ => ∀ t ∈ tables, PlainTable t.toList) () := by
  rw [TableTracker.listTables]
  split
  · have hquery : Readable .listTables := trivial
    apply obeys_query hquery
    intro res hres
    split
    · next hstatus =>
      intro t ht
      obtain ⟨name, hname, rfl⟩ := List.mem_map.1 ht
      rw [toList_discovered]
      exact .qualified plainWord_public (hres hstatus name hname)
    · exact obeys_line fun _ => by simp
  · exact hconfig

private theorem obeys_lookupPrimaryKeys {tables : List String}
    (htables : ∀ t ∈ tables, PlainTable t.toList) {keys : String → Option (List String)}
    (hkeys : ∀ t columns, keys t = some columns → ∀ c ∈ columns, '"' ∉ c.toList) :
    (TableTracker.lookupPrimaryKeys keys tables).Obeys readableStatements
      (fun keys _ => ∀ t columns, keys t = some columns → ∀ c ∈ columns, '"' ∉ c.toList) () := by
  induction tables generalizing keys with
  | nil => exact hkeys
  | cons t tables ih =>
    have hrest := fun {keys} =>
      @ih (fun t ht => htables t (List.mem_cons_of_mem _ ht)) keys
    apply Prog.Obeys.bind
    apply obeys_query (readable_primaryKey (htables t (List.mem_cons_self ..)))
    intro res hres
    split
    · next hstatus =>
      have hupdate : ∀ t' columns, Function.update keys t
          (some (TableTracker.firstColumn res)) t' = some columns →
          ∀ c ∈ columns, '"' ∉ c.toList := by
        intro t' columns ht'
        by_cases htt' : t' = t
        · subst htt'
          rw [Function.update_self] at ht'
          cases ht'
          exact hres hstatus
        · rw [Function.update_of_ne htt'] at ht'
          exact hkeys t' columns ht'
      dsimp only
      split
      · exact obeys_line fun _ => hrest hupdate
      · exact hrest hupdate
    · exact obeys_line fun _ => hrest hkeys

private theorem obeys_discoverTables {config : Config}
    (hconfig : ∀ t ∈ config.tables, PlainTable t.toList) :
    (TableTracker.discoverTables config).Obeys readableStatements
      (fun tracker _ => PlainTracker tracker) () := by
  apply Prog.Obeys.bind
  apply (obeys_listTables hconfig).mono
  intro tables _ htables
  apply Prog.Obeys.bind
  have hnone : ∀ t columns, (fun _ => none : String → Option (List String)) t = some columns →
      ∀ c ∈ columns, '"' ∉ c.toList := by simp
  apply (obeys_lookupPrimaryKeys htables hnone).mono
  intro keys _ hkeys
  apply obeys_line
  refine fun _ => ⟨htables, fun t c hc => ?_⟩
  rw [TableTracker.getPrimaryKeys] at hc
  cases hkey : keys t with
  | none => simp [hkey] at hc
  | some columns => exact hkeys t columns hkey c (by simpa [hkey] using hc)

/-! ## The runs -/

theorem obeys_healthCheck_texts :
    healthCheck.Obeys readableStatements (fun _ _ => True) () := by
  refine Prog.obeys_of_calls calls_healthCheck (fun e s he _ => ⟨?_, fun _ _ => trivial⟩) trivial
  rintro conn query rfl
  cases he with
  | query hquery =>
    simp only [healthQueries, List.mem_cons, List.not_mem_nil, or_false] at hquery
    obtain rfl | rfl | rfl | rfl := hquery <;> exact trivial

theorem obeys_start_texts (fuel : Nat) {m : ReplicationManager}
    (hconfig : ∀ t ∈ m.config.tables, PlainTable t.toList) :
    (m.start fuel).Obeys readableStatements (fun m' _ => m'.config = m.config) () := by
  have hdrain : ∀ q, (QueueHandler.drainTo q).Obeys readableStatements (fun _ _ => True) () := by
    intro q
    refine Prog.obeys_of_calls (calls_drainTo q) (fun e s he _ => ⟨?_, fun _ _ => trivial⟩) trivial
    rintro conn query rfl
    cases he
  apply obeys_line
  intro _
  apply Prog.Obeys.bind
  apply obeys_healthCheck_texts.mono
  intro health _ _
  split
  · exact obeys_line fun _ => rfl
  · apply Prog.Obeys.bind
    apply (obeys_discoverTables hconfig).mono
    intro tracker _ htracker
    dsimp only
    split
    · apply Prog.Obeys.bind
      apply (obeys_initialSync fuel htracker).mono
      intro _ _ _
      apply Prog.Obeys.bind
      exact (hdrain _).mono fun _ _ _ => rfl
    · apply Prog.Obeys.bind
      exact (hdrain _).mono fun _ _ _ => rfl

/-- Readable statements may as well be sent as texts. -/
theorem run_overTexts {W α : Type} {h : Prog.Handler Call Call.Reply W} {p : Code α}
    {Q : α → Unit → Prop} (hplain : ∀ conn query w, PlainAnswer query (h (.pqexec conn query) w).1)
    (hp : p.Obeys readableStatements Q ()) (w : W) : p.run (overTexts h) w = p.run h w := by
  refine (Prog.Obeys.run_congr (h := h) (J := fun _ _ => True) ?_ hp trivial).1.symm
  intro _ e w hmay _
  refine ⟨?_, ?_, trivial⟩
  · cases e with
    | pqexec conn query => exact (execText_text h (hmay conn query rfl) conn w).symm
    | pqescapeLiteral text => rfl
    | sleepFor milliseconds => rfl
    | log line => rfl
  · rintro conn query rfl
    exact hplain conn query w

/-- A catalog of names that can be written as they are. -/
structure PlainCatalog (C : Catalog) : Prop where
  tables : ∀ name ∈ C.publicTables, PlainWord name.toList
  keys : ∀ schema name, ∀ c ∈ C.keyColumns schema name, '"' ∉ c.toList
  columns : ∀ t, (C.table t).columns ≠ [] ∧ ∀ c ∈ (C.table t).columns, '"' ∉ c.toList

variable {C : Catalog} {L : LocalDb C.table} {H : HostedDb} {conn : Conn} {query : Stmt}

theorem PlainCatalog.plainAnswer_serve (hplain : PlainCatalog C) {res : PGresult} {H' : HostedDb}
    (hserve : serve C L H conn query = some (res, H')) : PlainAnswer query (some res) := by
  intro _
  cases query with
  | selectOne => trivial
  | countConnections => trivial
  | databaseSize => trivial
  | countActiveQueries => trivial
  | listTables =>
    cases conn with
    | local_ =>
      cases hserve
      change ∀ name ∈ TableTracker.firstColumn _, PlainWord name.toList
      rw [Copy.firstColumn_texts]
      exact hplain.tables
    | hosted_ => cases hserve
  | primaryKey schema name =>
    cases conn with
    | local_ =>
      cases hserve
      change ∀ column ∈ TableTracker.firstColumn _, '"' ∉ column.toList
      rw [Copy.firstColumn_texts]
      exact hplain.keys schema name
    | hosted_ => cases hserve
  | selectPage t orderBy limit offset =>
    cases conn with
    | local_ =>
      simp only [serve] at hserve
      split at hserve
      · cases hserve
        refine ⟨(hplain.columns t).2, fun row hrow => ⟨?_, (hplain.columns t).1⟩⟩
        -- a row is as wide as the table
        have hmem : row ∈ (L t).rows := List.mem_of_mem_drop (List.mem_of_mem_take hrow)
        rintro rfl
        have hwidth := (L t).width [] hmem
        exact (hplain.columns t).1 (List.length_eq_zero_iff.1 hwidth.symm)
      · cases hserve
    | hosted_ => cases hserve
  | insert t columns values => trivial

theorem PlainCatalog.plainAnswer (hplain : PlainCatalog C) (outcome : Outcome) :
    PlainAnswer query (respond C L H conn query outcome).1 := by
  have hfailure : PlainAnswer query (some failureResult) := plainAnswer_of_failure (by decide)
  rcases hr : respond C L H conn query outcome with ⟨r, H'⟩
  obtain ⟨rfl, -⟩ | ⟨res, hserve, rfl | rfl⟩ := Copy.respond_cases hr
  · exact hfailure
  · exact hplain.plainAnswer_serve hserve
  · exact hfailure

/-- **Texts suffice**: where names are plain, `start` behaves the same whether the servers get
    statements or texts, whatever becomes of the attempts; and all statements that are sent
    are readable, also those with names that answers have brought. -/
theorem start_over_texts (hplain : PlainCatalog C) (b : Behaviour C) {m : ReplicationManager}
    (hconfig : ∀ t ∈ m.config.tables, PlainTable t.toList) (fuel : Nat) (s : Session) :
    (m.start fuel).run (overTexts b.handler) s = (m.start fuel).run b.handler s ∧
      ∀ conn query res, ⟨.pqexec conn query, res⟩ ∈ (m.start fuel).trace b.handler s →
        Readable query := by
  have hanswers : ∀ conn query s, PlainAnswer query (b.handler (.pqexec conn query) s).1 :=
    fun conn query s => hplain.plainAnswer (b.outcome s conn query)
  have hobeys := obeys_start_texts fuel hconfig
  refine ⟨run_overTexts hanswers hobeys s, fun conn query res hsent => ?_⟩
  have hexpected : ∀ u e w, readableStatements.expects u e (b.handler e w).1 := by
    rintro _ _ w conn query rfl
    exact hanswers conn query w
  obtain ⟨_, hmay⟩ := hobeys.may_of_mem_trace hexpected hsent
  exact hmay conn query rfl

theorem plainCatalog_nodes : PlainCatalog (nodeCatalog ["users"]) where
  tables name hname := by
    obtain rfl := List.mem_singleton.1 hname
    exact plainWord_users
  keys _ _ c hc := by
    obtain rfl := List.mem_singleton.1 hc
    decide
  columns _ := by
    have hcolumns : nodeTable.columns ≠ [] ∧ ∀ c ∈ nodeTable.columns, '"' ∉ c.toList := by decide
    exact hcolumns

/-- A manager that is configured with one table. -/
def usersManager : ReplicationManager where
  config := { localConn := "", hostedConn := "", autoFetch := false, tables := ["public.users"] }

/-- The table has a row, and every attempt succeeds. -/
theorem start_over_texts_users :
    let users : Behaviour (nodeCatalog ["users"]) := Oracle.allAcked.behaviour
      (nodesIn ["users"] "public.users" (.single nodeTable [some "1", none] rfl))
    (usersManager.start 2).run (overTexts users.handler) { hosted := .empty } =
        (usersManager.start 2).run users.handler { hosted := .empty } ∧
      ∀ conn query res, ⟨.pqexec conn query, res⟩ ∈
        (usersManager.start 2).trace users.handler { hosted := .empty } → Readable query := by
  intro users
  refine start_over_texts plainCatalog_nodes users (fun t ht => ?_) 2 _
  obtain rfl := List.mem_singleton.1 ht
  exact .qualified plainWord_public plainWord_users

end SyncLayer.Statements
