import SyncLayer.Configuration.Overrides

/-!
# Which Files Are Loaded

For a document of any shape: either it has a fault, and loading reports the first one, or
every option has the value that the environment, the document and the defaults give it, in
this order (`load_eq_orFault`). The environment has no part in the first: it can neither
repair a document nor break one (`loads_exact`).
-/

namespace SyncLayer.Configuration

open SyncLayer.Yaml SyncLayer.Model

/-! ## What is read of any document -/

/-- The tables of a list; a null is the text null. -/
def listedTables (doc : Tree) : List String :=
  match doc.lookup tablesPath with
  | some (.sequence items) => items.filterMap Tree.text?
  | _ => []

/-- The value of every option of a document without faults. -/
def settings (getenv : Env) (doc : Tree) : Values :=
  { effective getenv doc with tables := listedTables doc }

/-- What is no text in the list of tables. -/
def tablesFault (doc : Tree) : Option Exception :=
  match doc.lookup tablesPath with
  | some (.sequence items) => if items.all (·.text?.isSome) then none else some .badConversion
  | some (.map (_ :: _)) => some (.invalidNode "")
  | _ => none

/-- The faults in the order in which the options are read. The other options of a section
    are read only after its first one. -/
def faults (doc : Tree) : List (Option Exception) :=
  [pathFault (TextOption.conn .local_ .host).path doc,
    pathFault (TextOption.conn .hosted_ .host).path doc,
    pathFault IntOption.intervalSeconds.path doc,
    tablesFault doc,
    pathFault TextOption.logLevel.path doc,
    pathFault IntOption.healthPort.path doc]

def fault (doc : Tree) : Option Exception := (faults doc).findSome? id

section Read

variable (getenv : Env) (doc : Tree)

theorem TextOption.two_le_length (o : TextOption) : 2 ≤ o.path.length := by
  cases o <;> simp [TextOption.path, connPath]

theorem readText_eq_orFault (o : TextOption) : readText getenv (.value doc) o =
    orFault (pathFault o.path doc) ((settings getenv doc).text o) := by
  obtain ⟨n, hn, htree⟩ := path_eq_orFault o.two_le_length doc
  rw [readText, hn]
  cases hfault : pathFault o.path doc with
  | some e => rfl
  | none =>
    rw [orFault, ok_bind, asStringOr_eq, htree hfault]
    rfl

theorem readInt_eq_orFault (o : IntOption) : readInt getenv (.value doc) o =
    orFault (pathFault o.path doc) ((settings getenv doc).int o) := by
  obtain ⟨n, hn, htree⟩ := path_eq_orFault o.two_le_length doc
  rw [readInt, hn]
  cases hfault : pathFault o.path doc with
  | some e => rfl
  | none =>
    rw [orFault, ok_bind, asOr_eq, htree hfault]
    rfl

theorem readAutoFetch_eq_orFault : readAutoFetch getenv (.value doc) =
    orFault (pathFault autoFetchPath doc) (settings getenv doc).autoFetch := by
  obtain ⟨n, hn, htree⟩ := path_eq_orFault (p := autoFetchPath) (Nat.le_refl _) doc
  rw [readAutoFetch, hn]
  cases hfault : pathFault autoFetchPath doc with
  | some e => rfl
  | none =>
    rw [orFault, ok_bind, asOr_eq, htree hfault]
    rfl

/-- The items of a list are read up to the first that is no text. -/
theorem mapM_asString_eq (items : List Tree) :
    (items.map Node.value).mapM Node.asString =
      orFault (if items.all (·.text?.isSome) then none else some .badConversion)
        (items.filterMap Tree.text?) := by
  induction items with
  | nil => rfl
  | cons item items ih =>
    rw [List.map_cons, List.mapM_cons, ih]
    have htext : (Node.value item).asString =
        orFault (if item.text?.isSome then none else some .badConversion)
          (item.text?.getD "") := by
      cases item <;> rfl
    rw [htext, List.all_cons, List.filterMap_cons]
    cases item.text? with
    | none => rfl
    | some text =>
      cases items.all (·.text?.isSome) <;> rfl

theorem readTables_eq_orFault (hpath : pathFault tablesPath doc = none) :
    readTables (.value doc) = orFault (tablesFault doc) (settings getenv doc).tables := by
  obtain ⟨n, hn, htree⟩ := path_eq_orFault (p := tablesPath) (Nat.le_refl _) doc
  have hlookup := htree hpath
  rw [readTables, hn, hpath, orFault, ok_bind]
  change _ = orFault _ (listedTables doc)
  rw [tablesFault, listedTables, ← hlookup, isDefined_eq]
  cases n with
  | invalid key => rfl
  | undefined => rfl
  | value y =>
    cases y with
    | null => rfl
    | scalar text => rfl
    | sequence items => exact mapM_asString_eq items
    | map entries => cases entries <;> rfl

theorem assembleConn_eq_orFault (c : Conn) :
    assembleConn (readText getenv (.value doc)) (readInt getenv (.value doc)) c =
      orFault (pathFault (TextOption.conn c .host).path doc) ((settings getenv doc).conn c).text := by
  -- all options of the connection have the fault of the first one
  have hkey : ∀ k, pathFault (TextOption.conn c .host).path doc = none →
      pathFault (connPath c ++ [k]) doc = none :=
    fun k => (pathFault_concat_iff "databases" [connSection c] "host" k doc).1
  simp only [assembleConn, readText_eq_orFault, readInt_eq_orFault]
  cases hfault : pathFault (TextOption.conn c .host).path doc with
  | some e => rfl
  | none =>
    simp only [TextOption.path, IntOption.path, hkey _ hfault, orFault, ok_bind]
    rfl

/-- **Loading any document**: the first fault, or the value of every option. -/
theorem load_eq_orFault : Config.load getenv (.value doc) =
    orFault (fault doc) (settings getenv doc).config := by
  have hsync : ∀ k, pathFault IntOption.intervalSeconds.path doc = none →
      pathFault ["sync", k] doc = none :=
    fun k => (pathFault_concat_iff "sync" [] "interval_seconds" k doc).1
  have hlog : ∀ k, pathFault TextOption.logLevel.path doc = none →
      pathFault ["logging", k] doc = none :=
    fun k => (pathFault_concat_iff "logging" [] "level" k doc).1
  simp only [load_eq_assemble, assemble, assembleConn_eq_orFault, readInt_eq_orFault,
    readText_eq_orFault, readAutoFetch_eq_orFault, fault, faults]
  cases hlocal : pathFault (TextOption.conn .local_ .host).path doc with
  | some e => rfl
  | none =>
    cases hhosted : pathFault (TextOption.conn .hosted_ .host).path doc with
    | some e => rfl
    | none =>
      cases hinterval : pathFault IntOption.intervalSeconds.path doc with
      | some e => rfl
      | none =>
        have hbatch : pathFault IntOption.batchSize.path doc = none := hsync _ hinterval
        have hauto : pathFault autoFetchPath doc = none := hsync _ hinterval
        rw [readTables_eq_orFault getenv doc (hsync _ hinterval), hbatch, hauto]
        cases tablesFault doc with
        | some e => rfl
        | none =>
          cases hlevel : pathFault TextOption.logLevel.path doc with
          | some e => rfl
          | none =>
            have hfile : pathFault TextOption.logFile.path doc = none := hlog _ hlevel
            rw [hfile]
            cases pathFault IntOption.healthPort.path doc <;> rfl

end Read

/-! ## Documents without faults -/

/-- Both sections of `databases` are there, no section is a scalar, and the tables, if they
    have items, are a list of texts. -/
structure Accepted (doc : Tree) : Prop where
  conns : ∀ c, ∃ y, doc.lookup (connPath c) = some y ∧ y.scalar? = none
  sections : ∀ name ∈ ["sync", "logging", "health"], ∀ y, doc.lookup [name] = some y →
    y.scalar? = none
  list : ∀ items, doc.lookup tablesPath = some (.sequence items) →
    ∀ item ∈ items, item.text? ≠ none
  map : ∀ entries, doc.lookup tablesPath = some (.map entries) → entries = []

section Accepted

variable {doc : Tree}

theorem followFault_single {key : String} {y : Tree} :
    followFault [key] y = none ↔ y.scalar? = none := by
  rw [followFault]
  by_cases hy : y.scalar? = none
  · rw [if_neg (not_not.2 hy)]
    cases y.lookup [key] <;> simp [followFault, hy]
  · rw [if_pos hy]
    simp [hy]

theorem pathFault_two (doc : Tree) (k₁ k₂ : String) : pathFault [k₁, k₂] doc = none ↔
    doc.scalar? = none ∧ ∀ y, doc.lookup [k₁] = some y → y.scalar? = none := by
  rw [pathFault]
  by_cases hdoc : doc.scalar? = none
  · rw [if_neg (not_not.2 hdoc), followFault_single]
    have hnull : Tree.null.scalar? = none := rfl
    cases doc.lookup [k₁] with
    | none => simp [hdoc, hnull]
    | some y => simp [hdoc]
  · rw [if_pos hdoc]
    simp [hdoc]

/-- A section that options are read from without a fault is there. -/
theorem pathFault_three (doc : Tree) (k₁ k₂ k₃ : String) : pathFault [k₁, k₂, k₃] doc = none ↔
    ∃ y, doc.lookup [k₁, k₂] = some y ∧ y.scalar? = none := by
  have hlookup := lookup_cons doc k₁ [k₂]
  rw [pathFault, hlookup]
  by_cases hdoc : doc.scalar? = none
  · rw [if_neg (not_not.2 hdoc), followFault]
    cases hsection : doc.lookup [k₁] with
    | none => simp [Tree.scalar?, Tree.lookup, Tree.entries?, find]
    | some y =>
      by_cases hy : y.scalar? = none
      · rw [Option.getD_some, if_neg (not_not.2 hy), Option.bind_some]
        cases y.lookup [k₂] with
        | none => simp
        | some z => simp [followFault_single]
      · obtain ⟨text, rfl⟩ := exists_scalar hy
        simp [Tree.scalar?, Tree.lookup, Tree.entries?]
  · obtain ⟨text, rfl⟩ := exists_scalar hdoc
    simp [Tree.scalar?, Tree.lookup, Tree.entries?]

theorem tablesFault_eq_none_iff : tablesFault doc = none ↔
    (∀ items, doc.lookup tablesPath = some (.sequence items) →
      ∀ item ∈ items, item.text? ≠ none) ∧
    ∀ entries, doc.lookup tablesPath = some (.map entries) → entries = [] := by
  rw [tablesFault]
  cases doc.lookup tablesPath with
  | none => simp
  | some y =>
    cases y with
    | null => simp
    | scalar text => simp
    | sequence items => simp [Option.isSome_iff_ne_none]
    | map entries => cases entries <;> simp

theorem fault_eq_none_iff : fault doc = none ↔ Accepted doc := by
  have hlocal := pathFault_three doc "databases" "local" "host"
  have hhosted := pathFault_three doc "databases" "hosted" "host"
  have hsync := pathFault_two doc "sync" "interval_seconds"
  have hlog := pathFault_two doc "logging" "level"
  have hhealth := pathFault_two doc "health" "port"
  have hall : fault doc = none ↔ ∀ f ∈ faults doc, f = none := by
    rw [fault, List.findSome?_eq_none_iff]
    rfl
  simp only [hall, faults, TextOption.path, IntOption.path, connPath, connSection, ConnKey.key,
    List.cons_append, List.nil_append, List.forall_mem_cons, hlocal, hhosted, hsync, hlog, hhealth,
    tablesFault_eq_none_iff]
  constructor
  · rintro ⟨hlocal, hhosted, ⟨-, hsync⟩, ⟨hlist, hmap⟩, ⟨-, hlog⟩, ⟨-, hhealth⟩, -⟩
    refine ⟨fun c => ?_, fun name hname => ?_, hlist, hmap⟩
    · cases c with
      | local_ => exact hlocal
      | hosted_ => exact hhosted
    · simp only [List.mem_cons, List.not_mem_nil, or_false] at hname
      obtain rfl | rfl | rfl := hname
      · exact hsync
      · exact hlog
      · exact hhealth
  · intro h
    -- a document with sections is no scalar
    have hdoc : doc.scalar? = none := by
      by_contra hscalar
      obtain ⟨text, rfl⟩ := exists_scalar hscalar
      obtain ⟨y, hy, -⟩ := h.conns .local_
      cases hy
    exact ⟨h.conns .local_, h.conns .hosted_, ⟨hdoc, h.sections _ (by simp)⟩, ⟨h.list, h.map⟩,
      ⟨hdoc, h.sections _ (by simp)⟩, ⟨hdoc, h.sections _ (by simp)⟩, by simp⟩

theorem fault_ne_badFile (doc : Tree) : fault doc ≠ some .badFile := by
  intro h
  obtain ⟨f, hf, hbad⟩ := List.exists_of_findSome?_eq_some h
  obtain rfl : f = some .badFile := hbad
  simp only [faults, List.mem_cons, List.not_mem_nil, or_false] at hf
  obtain h | h | h | h | h | h := hf
  · exact pathFault_ne_badFile _ _ h.symm
  · exact pathFault_ne_badFile _ _ h.symm
  · exact pathFault_ne_badFile _ _ h.symm
  · unfold tablesFault at h
    split at h
    · split at h <;> cases h
    · cases h
    · cases h
  · exact pathFault_ne_badFile _ _ h.symm
  · exact pathFault_ne_badFile _ _ h.symm

end Accepted

/-! ## The whole of `loadFromFile` -/

variable (loadFile : String → Except Exception Tree) (what : Exception → String) (path : String)

/-- What loading reports when nothing is loaded. -/
def report (e : Exception) : String :=
  if e = .badFile then "Config file not found: " ++ path else what e

theorem loadFromFile_eq (getenv : Env) : Config.loadFromFile loadFile what getenv path =
    match loadFile path with
    | .error e => .error (report what path e)
    | .ok doc =>
      match fault doc with
      | some e => .error (what e)
      | none => .ok (settings getenv doc).config := by
  rw [Config.loadFromFile]
  cases loadFile path with
  | error e => cases e <;> rfl
  | ok doc =>
    dsimp only
    rw [ok_bind, load_eq_orFault]
    have hbad := fault_ne_badFile doc
    cases hfault : fault doc with
    | none => rfl
    | some e =>
      rw [hfault] at hbad
      cases e with
      | badFile => exact absurd rfl hbad
      | parser text => rfl
      | invalidNode key => rfl
      | badSubscript key => rfl
      | badConversion => rfl

/-- The values that differ in one option at most, whose variable is `name`. -/
structure SameBut (name : String) (v v' : Values) : Prop where
  text : ∀ o : TextOption, o.envName ≠ name → v'.text o = v.text o
  int : ∀ o : IntOption, o.envName ≠ name → v'.int o = v.int o
  autoFetch : autoFetchEnvName ≠ name → v'.autoFetch = v.autoFetch
  tables : v'.tables = v.tables

theorem sameBut_settings (getenv : Env) (name : String) (s : Option String) (doc : Tree) :
    SameBut name (settings getenv doc) (settings (Function.update getenv name s) doc) where
  text o ho := by simp only [settings, effective, envOr, Function.update_of_ne ho]
  int o ho := by simp only [settings, effective, envOrInt, Function.update_of_ne ho]
  autoFetch ho := by simp only [settings, effective, envOrBool, Function.update_of_ne ho]
  tables := rfl

/-- **Which files are loaded**: those whose documents are accepted. The environment changes
    neither whether a file is loaded nor what is reported when it is not, and a variable
    changes no option but its own. -/
theorem loads_exact :
    (∀ getenv, (∃ config, Config.loadFromFile loadFile what getenv path = .ok config) ↔
      ∃ doc, loadFile path = .ok doc ∧ Accepted doc) ∧
    (∀ getenv getenv' text, Config.loadFromFile loadFile what getenv path = .error text →
      Config.loadFromFile loadFile what getenv' path = .error text) ∧
    ∀ getenv name s doc, loadFile path = .ok doc → Accepted doc →
      Config.loadFromFile loadFile what getenv path = .ok (settings getenv doc).config ∧
      Config.loadFromFile loadFile what (Function.update getenv name s) path =
        .ok (settings (Function.update getenv name s) doc).config ∧
      SameBut name (settings getenv doc) (settings (Function.update getenv name s) doc) := by
  refine ⟨fun getenv => ?_, fun getenv getenv' text => ?_, ?_⟩
  · rw [loadFromFile_eq]
    cases loadFile path with
    | error e => simp
    | ok doc =>
      simp only [Except.ok.injEq, exists_eq_left', ← fault_eq_none_iff]
      cases fault doc <;> simp
  · rw [loadFromFile_eq, loadFromFile_eq]
    cases loadFile path with
    | error e => exact id
    | ok doc =>
      dsimp only
      cases fault doc with
      | some e => exact id
      | none => intro h; cases h
  · intro getenv name s doc hdoc haccepted
    have hok : ∀ getenv, Config.loadFromFile loadFile what getenv path =
        .ok (settings getenv doc).config := by
      intro getenv
      rw [loadFromFile_eq, hdoc]
      dsimp only
      rw [fault_eq_none_iff.2 haccepted]
    exact ⟨hok _, hok _, sameBut_settings getenv name s doc⟩

/-- The sections are there in other shapes than the documented ones. -/
def oddDocument : Tree := .map [
  ("databases", .map [("local", .sequence []), ("hosted", .null)]),
  ("sync", .map [("tables", .sequence [.null, .scalar "users"])]),
  ("logging", .sequence [.scalar "info"])]

theorem accepted_oddDocument : Accepted oddDocument :=
  fault_eq_none_iff.1 rfl

theorem loads_exact_oddDocument :
    Config.loadFromFile (fun _ => .ok oddDocument) (fun _ => "") hosts "config.yaml" =
        .ok (settings hosts oddDocument).config ∧
      (settings hosts oddDocument).tables = ["null", "users"] :=
  ⟨((loads_exact (fun _ => .ok oddDocument) (fun _ => "") "config.yaml").2.2 hosts "HOME" none
    oddDocument rfl accepted_oddDocument).1, rfl⟩

end SyncLayer.Configuration
