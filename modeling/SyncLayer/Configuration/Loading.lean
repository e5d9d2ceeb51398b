import Mathlib.Data.List.Infix
import SyncLayer.Configuration.Options

/-!
# Missing Options

A document of the documented shape may lack any keys and sections. Each missing option then
has its value from the environment, or else its default, unless a whole section of
`databases` is missing: its node is subscripted, and nothing is loaded
(`missing_falls_back_iff`).
-/

namespace SyncLayer.Configuration

open SyncLayer.Yaml SyncLayer.Model

/-! ## What is loaded -/

/-- A value for every option. -/
structure Values where
  text : TextOption → String
  int : IntOption → Int32
  autoFetch : Bool
  tables : List String

namespace Values

def conn (v : Values) (c : Conn) : ConnValues where
  host := v.text (.conn c .host)
  port := v.int (.port c)
  user := v.text (.conn c .user)
  password := v.text (.conn c .password)
  dbname := v.text (.conn c .dbname)
  sslmode := v.text (.conn c .sslmode)

def config (v : Values) : Config where
  localConn := (v.conn .local_).text
  hostedConn := (v.conn .hosted_).text
  intervalSeconds := v.int .intervalSeconds
  batchSize := v.int .batchSize
  autoFetch := v.autoFetch
  tables := v.tables
  logLevel := v.text .logLevel
  logFile := v.text .logFile
  healthPort := v.int .healthPort

end Values

/-- The environment comes first, then the document, then the default. -/
def effective (getenv : Env) (doc : Tree) : Values where
  text o := envOr getenv o.envName (((doc.lookup o.path).bind Tree.text?).getD o.fallback)
  int o := envOrInt getenv o.envName
    ((((doc.lookup o.path).bind Tree.scalar?).bind toInt).getD o.fallback)
  autoFetch := envOrBool getenv autoFetchEnvName
    ((((doc.lookup autoFetchPath).bind Tree.scalar?).bind toBool).getD true)
  tables :=
    match doc.lookup tablesPath with
    | some (.sequence items) => items.filterMap Tree.scalar?
    | _ => []

/-- Every missing option has its value from the environment if it is set there, and else its
    default. -/
structure FallsBack (getenv : Env) (doc : Tree) (v : Values) : Prop where
  text : ∀ o : TextOption, doc.lookup o.path = none → v.text o = envOr getenv o.envName o.fallback
  int : ∀ o : IntOption, doc.lookup o.path = none → v.int o = envOrInt getenv o.envName o.fallback
  autoFetch : doc.lookup autoFetchPath = none →
    v.autoFetch = envOrBool getenv autoFetchEnvName true
  tables : doc.lookup tablesPath = none → v.tables = []

theorem effective_fallsBack (getenv : Env) (doc : Tree) :
    FallsBack getenv doc (effective getenv doc) where
  text o h := by simp [effective, h]
  int o h := by simp [effective, h]
  autoFetch h := by simp [effective, h]
  tables h := by simp [effective, h]

/-! ## Documented shapes -/

/-- The document and its sections. -/
def sectionPaths : List (List String) :=
  [[], ["databases"], connPath .local_, connPath .hosted_, ["sync"], ["logging"], ["health"]]

/-- What is there has the documented shape: sections are maps, or null when they have no keys,
    the tables are a list, and all else are scalars. -/
structure Shaped (doc : Tree) : Prop where
  sections : ∀ p ∈ sectionPaths, ∀ y, doc.lookup p = some y → y.entries? ≠ none
  text : ∀ (o : TextOption) (y), doc.lookup o.path = some y → ∃ t, y = .scalar t
  int : ∀ (o : IntOption) (y), doc.lookup o.path = some y → ∃ t, y = .scalar t
  autoFetch : ∀ y, doc.lookup autoFetchPath = some y → ∃ t, y = .scalar t
  tables : ∀ y, doc.lookup tablesPath = some y → ∃ ts : List String, y = .sequence (ts.map .scalar)

section Shaped

variable {doc : Tree} {p : List String}

/-- The sections on the way to an option. -/
def SectionsOf (p : List String) : Prop := ∀ q, q <+: p → q ≠ p → q ∈ sectionPaths

theorem sectionsOf_concat (hp : ∀ q, q <+: p → q ∈ sectionPaths) (k : String) :
    SectionsOf (p ++ [k]) := by
  intro q hq hne
  exact hp q ((List.prefix_concat_iff.1 hq).resolve_left hne)

theorem sectionsOf_two {k₁ : String} (hk₁ : [k₁] ∈ sectionPaths) (k₂ : String) :
    SectionsOf [k₁, k₂] := by
  refine sectionsOf_concat (p := [k₁]) (fun q hq => ?_) k₂
  obtain rfl | ⟨r, rfl, hr⟩ := List.prefix_cons_iff.1 hq
  · simp [sectionPaths]
  · rwa [List.prefix_nil.1 hr]

theorem sectionsOf_conn (c : Conn) (k : String) : SectionsOf (connPath c ++ [k]) := by
  apply sectionsOf_concat
  intro q hq
  obtain rfl | ⟨r, rfl, hr⟩ := List.prefix_cons_iff.1 hq
  · simp [sectionPaths]
  · obtain rfl | ⟨r', rfl, hr'⟩ := List.prefix_cons_iff.1 hr
    · simp [sectionPaths]
    · rw [List.prefix_nil.1 hr']
      cases c <;> simp [sectionPaths, connPath]

/-- An option of a shaped document is read, unless its section of `databases` is missing. -/
theorem Shaped.path_eq (hshape : Shaped doc) (hp : SectionsOf p) (hlinked : Linked p doc)
    (hlength : 2 ≤ p.length) : ∃ n, (Node.value doc).path p = .ok n ∧ n.tree? = doc.lookup p := by
  have hsections : ∀ q, q <+: p → q ≠ p → ∀ z, doc.lookup q = some z → z.entries? ≠ none :=
    fun q hq hne => hshape.sections q (hp q hq hne)
  obtain ⟨y, hwrite⟩ := exists_write "" hsections
  exact path_of_write hwrite hlinked hlength

theorem Shaped.path_two (hshape : Shaped doc) {k₁ : String} (hk₁ : [k₁] ∈ sectionPaths)
    (k₂ : String) :
    ∃ n, (Node.value doc).path [k₁, k₂] = .ok n ∧ n.tree? = doc.lookup [k₁, k₂] :=
  hshape.path_eq (sectionsOf_two hk₁ k₂) (.inl (Nat.le_refl _)) (Nat.le_refl _)

theorem Shaped.path_conn (hshape : Shaped doc) {c : Conn} (hc : doc.lookup (connPath c) ≠ none)
    (k : String) : ∃ n, (Node.value doc).path (connPath c ++ [k]) = .ok n ∧
      n.tree? = doc.lookup (connPath c ++ [k]) := by
  refine hshape.path_eq (sectionsOf_conn c k) (.inr ?_) (by simp [connPath])
  rwa [List.dropLast_concat]

variable (hshape : Shaped doc) (hpresent : ∀ c, doc.lookup (connPath c) ≠ none)

include hshape hpresent

theorem readText_eq (getenv : Env) (o : TextOption) :
    readText getenv (.value doc) o = .ok ((effective getenv doc).text o) := by
  have hpath : ∃ n, (Node.value doc).path o.path = .ok n ∧ n.tree? = doc.lookup o.path := by
    cases o with
    | conn c key => exact hshape.path_conn (hpresent c) key.key
    | logLevel => exact hshape.path_two (by simp [sectionPaths]) "level"
    | logFile => exact hshape.path_two (by simp [sectionPaths]) "file"
  obtain ⟨n, hn, htree⟩ := hpath
  rw [readText, hn, ok_bind, asStringOr_eq, htree]
  rfl

theorem readInt_eq (getenv : Env) (o : IntOption) :
    readInt getenv (.value doc) o = .ok ((effective getenv doc).int o) := by
  have hpath : ∃ n, (Node.value doc).path o.path = .ok n ∧ n.tree? = doc.lookup o.path := by
    cases o with
    | port c => exact hshape.path_conn (hpresent c) "port"
    | intervalSeconds => exact hshape.path_two (by simp [sectionPaths]) "interval_seconds"
    | batchSize => exact hshape.path_two (by simp [sectionPaths]) "batch_size"
    | healthPort => exact hshape.path_two (by simp [sectionPaths]) "port"
  obtain ⟨n, hn, htree⟩ := hpath
  rw [readInt, hn, ok_bind, asOr_eq, htree]
  rfl

omit hpresent in
theorem readAutoFetch_eq (getenv : Env) :
    readAutoFetch getenv (.value doc) = .ok (effective getenv doc).autoFetch := by
  have hsync : ["sync"] ∈ sectionPaths := by simp [sectionPaths]
  obtain ⟨n, hn, htree⟩ := hshape.path_two hsync "auto_fetch"
  rw [readAutoFetch, autoFetchPath, hn, ok_bind, asOr_eq, htree]
  rfl

omit hpresent in
theorem readTables_eq (getenv : Env) :
    readTables (.value doc) = .ok (effective getenv doc).tables := by
  have hsync : ["sync"] ∈ sectionPaths := by simp [sectionPaths]
  obtain ⟨n, hn, htree⟩ := hshape.path_two hsync "tables"
  rw [readTables, tablesPath, hn, ok_bind]
  cases hlookup : doc.lookup ["sync", "tables"] with
  | none =>
    have hmissing : n.isDefined = false := by
      rw [isDefined_eq, htree, hlookup]
      rfl
    rw [hmissing]
    simp only [Bool.false_eq_true, if_false, effective, tablesPath, hlookup]
    rfl
  | some y =>
    obtain ⟨ts, rfl⟩ := hshape.tables y hlookup
    rw [hlookup] at htree
    obtain rfl := eq_value_of_tree htree
    have heffective : (effective getenv doc).tables = ts := by
      simp [effective, tablesPath, hlookup, Function.comp_def, Tree.scalar?]
    rw [heffective]
    exact mapM_asString ts

/-- A shaped document that has both sections of `databases` is loaded. -/
theorem load_eq (getenv : Env) :
    Config.load getenv (.value doc) = .ok (effective getenv doc).config := by
  rw [load_eq_assemble, funext (readText_eq hshape hpresent getenv),
    funext (readInt_eq hshape hpresent getenv), readAutoFetch_eq hshape getenv,
    readTables_eq hshape getenv]
  rfl

end Shaped

/-! ## A missing section -/

section Missing

variable {doc : Tree} {getenv : Env} {c : Conn}

/-- Where a section of `databases` is missing, its options are asked of an invalid node. -/
theorem Shaped.path_missing (hshape : Shaped doc) (hc : doc.lookup (connPath c) = none)
    (k : String) :
    (Node.value doc).path (connPath c ++ [k]) = .error (.invalidNode (connSection c)) := by
  obtain ⟨entries, hentries⟩ := Option.ne_none_iff_exists'.1
    (hshape.sections [] (by simp [sectionPaths]) doc rfl)
  cases hdbs : find "databases" entries with
  | none =>
    rw [connPath, List.cons_append, Node.path, getMut_of_missing hentries hdbs]
    rfl
  | some dbs =>
    have hlookup : doc.lookup ["databases"] = some dbs := lookup_cons_of_find hentries hdbs
    obtain ⟨entries', hentries'⟩ := Option.ne_none_iff_exists'.1
      (hshape.sections ["databases"] (by simp [sectionPaths]) dbs hlookup)
    have hmissing : find (connSection c) entries' = none := by
      cases hfind : find (connSection c) entries' with
      | none => rfl
      | some y =>
        rw [connPath, lookup_cons_of_find hentries hdbs, lookup_cons_of_find hentries' hfind] at hc
        cases hc
    rw [connPath, List.cons_append, Node.path, getMut_of_find hentries hdbs, ok_bind,
      List.cons_append, Node.follow, get_of_missing hentries' hmissing]
    rfl

/-- What was loaded was read. -/
theorem exists_of_bind_ok {α β : Type} {x : Except Exception α} {f : α → Except Exception β}
    {b : β} (h : (x >>= f) = .ok b) : ∃ a, x = .ok a ∧ f a = .ok b := by
  cases x with
  | error e => cases h
  | ok a => exact ⟨a, rfl, h⟩

theorem host_of_load {root : Node} {config : Config} (h : Config.load getenv root = .ok config)
    (c : Conn) : ∃ n, root.path (connPath c ++ ["host"]) = .ok n := by
  have hhost : ∀ {s : String}, assembleConn (readText getenv root) (readInt getenv root) c = .ok s →
      ∃ n, root.path (connPath c ++ ["host"]) = .ok n := by
    intro s hs
    obtain ⟨host, hread, _⟩ := exists_of_bind_ok hs
    obtain ⟨n, hn, _⟩ := exists_of_bind_ok hread
    exact ⟨n, hn⟩
  rw [load_eq_assemble] at h
  obtain ⟨localConn, hlocal, hrest⟩ := exists_of_bind_ok h
  obtain ⟨hostedConn, hhosted, _⟩ := exists_of_bind_ok hrest
  cases c with
  | local_ => exact hhost hlocal
  | hosted_ => exact hhost hhosted

end Missing

/-! ## The whole of `loadFromFile` -/

variable {loadFile : String → Except Exception Tree} {path : String} {doc : Tree}

theorem loadFromFile_eq_ok (what : Exception → String) (getenv : Env)
    (hload : loadFile path = .ok doc) {config : Config} :
    Config.loadFromFile loadFile what getenv path = .ok config ↔
      Config.load getenv (.value doc) = .ok config := by
  rw [Config.loadFromFile, hload, ok_bind]
  cases Config.load getenv (.value doc) with
  | ok config' => simp
  | error e => cases e <;> simp

/-- **Missing options**: the file is loaded, with a value from the environment or a default
    for every missing option, exactly if both sections of `databases` are there. -/
theorem missing_falls_back_iff (what : Exception → String) (getenv : Env)
    (hload : loadFile path = .ok doc) (hshape : Shaped doc) :
    (∃ v : Values, Config.loadFromFile loadFile what getenv path = .ok v.config ∧
      FallsBack getenv doc v) ↔ ∀ c, doc.lookup (connPath c) ≠ none := by
  constructor
  · rintro ⟨v, hv, _⟩ c hc
    rw [loadFromFile_eq_ok what getenv hload] at hv
    obtain ⟨n, hn⟩ := host_of_load hv c
    rw [hshape.path_missing hc] at hn
    cases hn
  · intro hpresent
    refine ⟨effective getenv doc, ?_, effective_fallsBack getenv doc⟩
    rw [loadFromFile_eq_ok what getenv hload]
    exact load_eq hshape hpresent getenv

/-- Two hosts, from the environment. -/
def hosts : Env := fun name =>
  if name = "SYNC_LOCAL_HOST" then some "db1"
  else if name = "SYNC_HOSTED_HOST" then some "db2" else none

/-- A section without keys, and one with a single key. -/
def sparse : Tree := .map [
  ("databases", .map [("local", .null), ("hosted", .map [("user", .scalar "sync")])]),
  ("sync", .map [("tables", .sequence [.scalar "public.users"])])]

theorem shaped_sparse : Shaped sparse where
  sections := by
    intro p hp y hy
    simp only [sectionPaths, connPath, connSection, List.mem_cons, List.not_mem_nil, or_false] at hp
    obtain rfl | rfl | rfl | rfl | rfl | rfl | rfl := hp <;> cases hy <;>
      simp [Tree.entries?, sparse]
  text o y hy := by
    obtain ⟨(_ | _), (_ | _ | _ | _ | _)⟩ | _ | _ := o <;> cases hy
    exact ⟨_, rfl⟩
  int o y hy := by
    obtain (_ | _) | _ | _ | _ := o <;> cases hy
  autoFetch y hy := by cases hy
  tables y hy := by
    cases hy
    exact ⟨["public.users"], rfl⟩

theorem missing_falls_back_sparse : ∃ v : Values,
    Config.loadFromFile (fun _ => .ok sparse) (fun _ => "") hosts "config.yaml" = .ok v.config ∧
      FallsBack hosts sparse v := by
  refine (missing_falls_back_iff (fun _ => "") hosts rfl shaped_sparse).2 fun c => ?_
  cases c <;> simp [sparse, connPath, connSection, Tree.lookup, Tree.entries?, find]

theorem shaped_null : Shaped .null where
  sections p _ y hy := by
    cases p with
    | nil =>
      cases hy
      simp [Tree.entries?]
    | cons key p =>
      rw [lookup_null (List.cons_ne_nil key p)] at hy
      cases hy
  text o y hy := by
    obtain _ | _ | _ := o <;> cases hy
  int o y hy := by
    obtain _ | _ | _ | _ := o <;> cases hy
  autoFetch y hy := by cases hy
  tables y hy := by cases hy

/-- The text of an invalid node. -/
def describe : Exception → String
  | .invalidNode key => "invalid node; first invalid key: \"" ++ key ++ "\""
  | _ => ""

/-- With an empty file nothing is loaded, although the environment has the hosts. -/
theorem empty_file_throws : Shaped .null ∧
    Config.loadFromFile (fun _ => .ok .null) describe hosts "config.yaml" =
      .error "invalid node; first invalid key: \"local\"" :=
  ⟨shaped_null, rfl⟩

end SyncLayer.Configuration
