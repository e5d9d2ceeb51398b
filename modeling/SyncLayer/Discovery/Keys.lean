import Mathlib.Data.List.Nodup
import Mathlib.Data.List.Perm.Basic
import SyncLayer.Discovery.Resolution

/-!
# Primary Keys from the Catalog

The primary-key lookup joins `table_constraints` with `key_column_usage` on the name of
the constraint alone, and names of constraints are shared: by tables of different
schemas, and by constraints of different kinds. The lookup of a table is exact when no
other key has the name of its primary key, and only then (`answers_exact_iff`); what
`discoverTables` returns follows from the answers to its queries, whatever tracker it
replaces (`discovered_keys_iff`).
-/

namespace SyncLayer.Discovery

open SyncLayer.Interaction SyncLayer.Model SyncLayer.Sql

/-! ## The catalog -/

inductive ConstraintKind where
  | primaryKey
  | unique
  | foreignKey
  | check
  deriving DecidableEq

structure Constraint where
  relation : Relation
  name : String
  kind : ConstraintKind
  /-- In key order. -/
  columns : List String
  deriving DecidableEq

/-- The constraints of a database. -/
structure KeyCatalog where
  constraints : List Constraint
  nodup : constraints.Nodup
  unique_in_table : ∀ c ∈ constraints, ∀ c' ∈ constraints,
    c.relation = c'.relation → c.name = c'.name → c = c'
  primaryKey_name : ∀ c ∈ constraints, ∀ c' ∈ constraints,
    c.kind = .primaryKey → c'.kind = .primaryKey →
    c.relation.schema = c'.relation.schema → c.name = c'.name → c = c'
  one_primaryKey : ∀ c ∈ constraints, ∀ c' ∈ constraints,
    c.kind = .primaryKey → c'.kind = .primaryKey → c.relation = c'.relation → c = c'
  columns_ne : ∀ c ∈ constraints, c.kind ≠ .check → c.columns ≠ []
  columns_nodup : ∀ c ∈ constraints, c.columns.Nodup

/-- A row of `information_schema.key_column_usage`. -/
structure KeyColumn where
  constraintName : String
  column : String
  ordinal : Nat
  deriving DecidableEq

/-- The rows of a constraint; a CHECK has none. -/
def Constraint.usage (c : Constraint) : List KeyColumn :=
  if c.kind = .check then []
  else c.columns.zipIdx.map fun x => ⟨c.name, x.1, x.2 + 1⟩

namespace KeyCatalog

variable (C : KeyCatalog)

def keyColumnUsage : List KeyColumn := C.constraints.flatMap Constraint.usage

/-- The primary keys of a relation: at most one. -/
def primaryKeysOf (r : Relation) : List Constraint :=
  C.constraints.filter fun tc => tc.relation = r ∧ tc.kind = .primaryKey

/-- The rows of the lookup, before they are ordered. -/
def joinRows (r : Relation) : List KeyColumn :=
  (C.primaryKeysOf r).flatMap fun tc =>
    C.keyColumnUsage.filter fun kcu => tc.name = kcu.constraintName

/-- What the server may answer: the order of rows with the same ordinal is open. -/
def Answers (r : Relation) (columns : List String) : Prop :=
  ∃ rows : List KeyColumn, rows.Perm (C.joinRows r) ∧
    rows.Pairwise (fun a b => a.ordinal ≤ b.ordinal) ∧ columns = rows.map KeyColumn.column

/-- The key columns of a relation in key order; none when it has no primary key. -/
def primaryKey (r : Relation) : List String :=
  ((C.primaryKeysOf r).head?.map Constraint.columns).getD []

/-- No other key has the name of the primary key of `r`. -/
def NameUnshared (r : Relation) : Prop :=
  ∀ p ∈ C.primaryKeysOf r, ∀ c ∈ C.constraints, c.kind ≠ .check → c.name = p.name → c = p

instance (r : Relation) : Decidable (C.NameUnshared r) :=
  inferInstanceAs (Decidable (∀ p ∈ C.primaryKeysOf r, ∀ c ∈ C.constraints,
    c.kind ≠ .check → c.name = p.name → c = p))

end KeyCatalog

/-! ## The lookup -/

section Lookup

variable {C : KeyCatalog} {r : Relation}

theorem primaryKeysOf_cases (C : KeyCatalog) (r : Relation) :
    C.primaryKeysOf r = [] ∨
      ∃ p ∈ C.constraints, p.kind = .primaryKey ∧ C.primaryKeysOf r = [p] := by
  have hmem : ∀ c ∈ C.primaryKeysOf r,
      c ∈ C.constraints ∧ c.relation = r ∧ c.kind = .primaryKey := by
    intro c hc
    simpa [KeyCatalog.primaryKeysOf] using hc
  have hnodup : (C.primaryKeysOf r).Nodup := C.nodup.filter _
  cases hkeys : C.primaryKeysOf r with
  | nil => exact .inl rfl
  | cons p rest =>
    rw [hkeys] at hmem hnodup
    obtain ⟨hp, hpr, hpk⟩ := hmem p (List.mem_cons_self ..)
    refine .inr ⟨p, hp, hpk, ?_⟩
    cases rest with
    | nil => rfl
    | cons q rest =>
      -- a second one would be the first
      obtain ⟨hq, hqr, hqk⟩ := hmem q (List.mem_cons_of_mem _ (List.mem_cons_self ..))
      have heq : p = q := C.one_primaryKey p hp q hq hpk hqk (hpr.trans hqr.symm)
      rw [heq] at hnodup
      exact absurd (List.mem_cons_self ..) (List.nodup_cons.1 hnodup).1

theorem usage_key {c : Constraint} (hc : c.kind ≠ .check) :
    c.usage = c.columns.zipIdx.map fun x => ⟨c.name, x.1, x.2 + 1⟩ := if_neg hc

theorem constraintName_of_mem_usage {c : Constraint} {x : KeyColumn} (hx : x ∈ c.usage) :
    x.constraintName = c.name := by
  unfold Constraint.usage at hx
  split at hx
  · cases hx
  · obtain ⟨y, -, rfl⟩ := List.mem_map.1 hx
    rfl

/-- The rows with a given constraint name, constraint by constraint. -/
theorem usage_filter (C : KeyCatalog) (name : String) :
    (C.keyColumnUsage.filter fun kcu => name = kcu.constraintName) =
      (C.constraints.filter fun c => c.name = name).flatMap Constraint.usage := by
  rw [KeyCatalog.keyColumnUsage, List.filter_flatMap]
  -- a constraint has all of its rows under its own name
  induction C.constraints with
  | nil => rfl
  | cons c cs ih =>
    rw [List.flatMap_cons, ih]
    by_cases hname : c.name = name
    · have hall : (c.usage.filter fun kcu => name = kcu.constraintName) = c.usage := by
        rw [List.filter_eq_self]
        intro x hx
        rw [constraintName_of_mem_usage hx, hname]
        exact decide_eq_true rfl
      rw [hall, List.filter_cons, if_pos (decide_eq_true hname), List.flatMap_cons]
    · have hnone : (c.usage.filter fun kcu => name = kcu.constraintName) = [] := by
        rw [List.filter_eq_nil_iff]
        intro x hx
        rw [constraintName_of_mem_usage hx, decide_eq_true_iff]
        exact fun h => hname h.symm
      have hdrop : ¬ decide (c.name = name) = true := fun h => hname (of_decide_eq_true h)
      rw [hnone, List.filter_cons, if_neg hdrop, List.nil_append]

/-- The rows of a constraint have increasing ordinals. -/
theorem usage_increasing (c : Constraint) : c.usage.Pairwise fun a b => a.ordinal < b.ordinal := by
  unfold Constraint.usage
  split
  · exact List.Pairwise.nil
  · rw [List.pairwise_map, List.pairwise_iff_getElem]
    intro i j hi hj hij
    simpa using hij

theorem usage_columns {c : Constraint} (hc : c.kind ≠ .check) :
    c.usage.map KeyColumn.column = c.columns := by
  rw [usage_key hc, List.map_map]
  exact List.zipIdx_map_fst 0 c.columns

/-- The answer to a lookup whose join finds only the key itself. -/
theorem columns_of_usage {p : Constraint} (hp : p.kind ≠ .check) {rows : List KeyColumn}
    (hperm : rows.Perm p.usage) (hsorted : rows.Pairwise fun a b => a.ordinal ≤ b.ordinal) :
    rows.map KeyColumn.column = p.columns := by
  have hkey : p.usage.Pairwise fun a b => a.ordinal ≤ b.ordinal :=
    (usage_increasing p).imp Nat.le_of_lt
  -- rows of the key with the same ordinal are the same row
  have hinj : ∀ a b : KeyColumn, a ∈ rows → b ∈ p.usage → a.ordinal ≤ b.ordinal →
      b.ordinal ≤ a.ordinal → a = b := by
    intro a b ha hb hab hba
    have hdistinct : (p.usage.map KeyColumn.ordinal).Nodup := by
      rw [List.Nodup, List.pairwise_map]
      exact (usage_increasing p).imp Nat.ne_of_lt
    exact List.inj_on_of_nodup_map hdistinct (hperm.mem_iff.1 ha) hb (Nat.le_antisymm hab hba)
  rw [hperm.eq_of_pairwise hinj hsorted hkey, usage_columns hp]

theorem usage_eq_nil_iff {c : Constraint} (hc : c ∈ C.constraints) :
    c.usage = [] ↔ c.kind = .check := by
  constructor
  · intro husage
    by_contra hkind
    have hcolumns := usage_columns hkind
    rw [husage] at hcolumns
    exact C.columns_ne c hc hkind hcolumns.symm
  · exact fun hkind => if_pos hkind

/-- What the join finds besides the primary key: the other keys of its name. -/
theorem joinRows_perm {p : Constraint} (hp : p ∈ C.constraints) (hkeys : C.primaryKeysOf r = [p]) :
    ∃ others : List KeyColumn, (C.joinRows r).Perm (p.usage ++ others) ∧
      (others = [] ↔ C.NameUnshared r) := by
  have hkept : p ∈ C.constraints.filter fun c => c.name = p.name := by simp [hp]
  have hnodup : (C.constraints.filter fun c => c.name = p.name).Nodup := C.nodup.filter _
  refine ⟨((C.constraints.filter fun c => c.name = p.name).erase p).flatMap Constraint.usage,
    ?_, ?_⟩
  · rw [KeyCatalog.joinRows, hkeys, List.flatMap_singleton, usage_filter, ← List.flatMap_cons]
    exact (List.perm_cons_erase hkept).flatMap_right _
  · rw [List.flatMap_eq_nil_iff, KeyCatalog.NameUnshared, hkeys, List.forall_mem_singleton]
    simp only [hnodup.mem_erase_iff, List.mem_filter, decide_eq_true_iff]
    constructor
    · intro hnil c hc hkind hname
      by_contra hne
      exact hkind ((usage_eq_nil_iff hc).1 (hnil c ⟨hne, hc, hname⟩))
    · rintro hshared c ⟨hne, hc, hname⟩
      by_contra hkind
      rw [usage_eq_nil_iff hc] at hkind
      exact hne (hshared c hc hkind hname)

/-- **The lookup is exact** when no other key shares the name of the primary key, and only
    then. -/
theorem answers_exact_iff {columns : List String} (h : C.Answers r columns) :
    columns = C.primaryKey r ↔ C.NameUnshared r := by
  obtain ⟨rows, hperm, hsorted, rfl⟩ := h
  obtain hnone | ⟨p, hp, hpk, hkeys⟩ := primaryKeysOf_cases C r
  · -- without a primary key the join is empty
    rw [KeyCatalog.joinRows, hnone] at hperm
    rw [hperm.eq_nil, KeyCatalog.primaryKey, KeyCatalog.NameUnshared, hnone]
    simp
  · have hkind : p.kind ≠ .check := by simp [hpk]
    have hcolumns : C.primaryKey r = p.columns := by
      rw [KeyCatalog.primaryKey, hkeys]
      rfl
    obtain ⟨others, hjoin, hothers⟩ := joinRows_perm hp hkeys
    have hrows := hperm.trans hjoin
    rw [hcolumns, ← hothers]
    constructor
    · -- more rows than key columns cannot be the key
      intro heq
      have hlen := hrows.length_eq
      rw [List.length_append, ← List.length_map KeyColumn.column, heq, ← usage_columns hkind,
        List.length_map] at hlen
      exact List.length_eq_zero_iff.1 (by omega)
    · rintro rfl
      rw [List.append_nil] at hrows
      exact columns_of_usage hkind hrows hsorted

end Lookup

/-! ## Discovery

The tracker is discovered anew on every start, on top of what an earlier discovery left. -/

/-- `TableTracker::discoverTables`, with the tracker that it is called on. -/
def rediscoverTables (config : Config) (t : TableTracker) : Code TableTracker := do
  let t := { t with trackedTables := [] }
  let t := { t with tablePrimaryKeys := fun _ => none }
  let tables ← TableTracker.listTables config
  let t := { t with
    trackedTables := if config.autoFetch then t.trackedTables ++ tables else tables }
  let keys ← TableTracker.lookupPrimaryKeys t.tablePrimaryKeys t.trackedTables
  let t := { t with tablePrimaryKeys := keys }
  log (.trackingTables t.trackedTables.length (String.intercalate ", " t.trackedTables))
  return t

/-- Nothing of the previous tracker is left. -/
theorem rediscoverTables_eq (config : Config) (t : TableTracker) :
    rediscoverTables config t = TableTracker.discoverTables config := by
  simp only [rediscoverTables, TableTracker.discoverTables, List.nil_append, ite_self]

/-- How the local database fares during a discovery: any outcome of the listing and of the
    lookups, by their number. An acknowledged lookup of two words is answered from the
    catalog. -/
structure Replies (C : KeyCatalog) where
  listing : Option PGresult
  lookup : Nat → Relation → Option PGresult
  honest : ∀ i r, PlainWord r.schema.toList → PlainWord r.name.toList →
    PQresultStatus (lookup i r) = .tuplesOk →
    C.Answers r (TableTracker.firstColumn (lookup i r))

namespace Replies

variable {C : KeyCatalog} (R : Replies C)

/-- The world counts the lookups. -/
def handler : Prog.Handler Call Call.Reply Nat
  | .pqexec .local_ .listTables, n => (R.listing, n)
  | .pqexec .local_ (.primaryKey schema tableName), n => (R.lookup n ⟨schema, tableName⟩, n + 1)
  | .pqexec _ _, n => (none, n)
  | .pqescapeLiteral _, n => (true, n)
  | .sleepFor _, n => ((), n)
  | .log _, n => ((), n)

/-- Lookup number `i`, of table `t`, is acknowledged. -/
def Acknowledged (i : Nat) (t : String) : Prop :=
  PQresultStatus (R.lookup i (halves t)) = .tuplesOk

/-- One of the lookups of `t` is acknowledged: a table may be configured twice. -/
def Succeeded (tables : List String) (t : String) : Prop :=
  ∃ i : Nat, tables[i]? = some t ∧ R.Acknowledged i t

theorem run_listTables (config : Config) (n : Nat) :
    ∃ tables, (TableTracker.listTables config).run R.handler n = (some tables, n) := by
  unfold TableTracker.listTables
  by_cases hfetch : config.autoFetch = true
  · rw [if_pos hfetch, run_PQexec_bind]
    split
    · exact ⟨_, rfl⟩
    · exact ⟨[], rfl⟩
  · rw [if_neg hfetch]
    exact ⟨config.tables, rfl⟩

theorem run_lookupPrimaryKey (keys : String → Option (List String)) (table : String) (n : Nat) :
    (TableTracker.lookupPrimaryKey keys table).run R.handler n =
      (some (if PQresultStatus (R.lookup n (halves table)) = .tuplesOk then
          Function.update keys table
            (some (TableTracker.firstColumn (R.lookup n (halves table))))
        else keys), n + 1) := by
  have hhalves : (⟨TableTracker.schemaOf table, TableTracker.tableNameOf table⟩ : Relation) =
      halves table := rfl
  simp only [TableTracker.lookupPrimaryKey, run_PQexec_bind, handler, hhalves]
  by_cases hack : PQresultStatus (R.lookup n (halves table)) = .tuplesOk
  · rw [if_pos hack, if_pos hack]
    split
    · rfl
    · rfl
  · rw [if_neg hack, if_neg hack]
    rfl

/-- What the loop leaves for a table: the answer to one of its acknowledged lookups, or
    what was there when it has none. The induction is on the tables. -/
theorem run_lookupPrimaryKeys (keys : String → Option (List String)) (tables : List String)
    (n : Nat) :
    ∃ keys', (TableTracker.lookupPrimaryKeys keys tables).run R.handler n =
        (some keys', n + tables.length) ∧
      ∀ t, (keys' t = keys t ∧ ∀ i : Nat, tables[i]? = some t → ¬ R.Acknowledged (n + i) t) ∨
        ∃ i : Nat, tables[i]? = some t ∧ R.Acknowledged (n + i) t ∧
          keys' t = some (TableTracker.firstColumn (R.lookup (n + i) (halves t))) := by
  induction tables generalizing keys n with
  | nil => exact ⟨keys, rfl, fun t => .inl ⟨rfl, fun i hi => by cases hi⟩⟩
  | cons table rest ih =>
    obtain ⟨keys', hrun, hkeys⟩ := ih _ (n + 1)
    refine ⟨keys', ?_, fun t => ?_⟩
    · rw [TableTracker.lookupPrimaryKeys, Prog.run_bind_of_some _ _ (R.run_lookupPrimaryKey ..),
        hrun, List.length_cons, Nat.add_assoc, Nat.add_comm 1]
    -- lookup `i` of the rest is lookup `i + 1`
    have hshift : ∀ i, n + 1 + i = n + (i + 1) := by omega
    simp only [hshift] at hkeys
    obtain ⟨hsame, hrest⟩ | ⟨i, hi, hack, heq⟩ := hkeys t
    · -- nothing in the rest: the first lookup decides, if it is one of `t`
      by_cases hhead : t = table ∧ R.Acknowledged n t
      · obtain ⟨rfl, hack⟩ := hhead
        refine .inr ⟨0, rfl, hack, ?_⟩
        unfold Acknowledged at hack
        rw [hsame, if_pos hack, Function.update_self]
        rfl
      · refine .inl ⟨?_, ?_⟩
        · rw [hsame]
          split
          · next hack =>
            have hne : t ≠ table := fun heq => hhead ⟨heq, heq ▸ hack⟩
            rw [Function.update_of_ne hne]
          · rfl
        · intro i hi hack
          cases i with
          | zero => exact hhead ⟨(Option.some.inj hi).symm, hack⟩
          | succ i => exact hrest i hi hack
    · exact .inr ⟨i + 1, hi, hack, heq⟩

end Replies

theorem nodup_primaryKey (C : KeyCatalog) (r : Relation) : (C.primaryKey r).Nodup := by
  obtain hnone | ⟨p, hp, -, hkeys⟩ := primaryKeysOf_cases C r
  · rw [KeyCatalog.primaryKey, hnone]
    exact List.nodup_nil
  · rw [KeyCatalog.primaryKey, hkeys]
    exact C.columns_nodup p hp

/-- **Discovered keys**, on top of any previous discovery: a table without a successful
    lookup has none, and a table `s.n` with one has the columns of its primary key exactly
    when no other key of the catalog has the name of that one. -/
theorem discovered_keys_iff (C : KeyCatalog) (R : Replies C) (config : Config)
    (previous : TableTracker) :
    ∃ t n, (rediscoverTables config previous).run R.handler 0 = (some t, n) ∧
      (∀ table, ¬ R.Succeeded t.getTrackedTables table → t.getPrimaryKeys table = []) ∧
      ∀ s m : String, PlainWord s.toList → PlainWord m.toList →
        R.Succeeded t.getTrackedTables (s ++ "." ++ m) →
        (t.getPrimaryKeys (s ++ "." ++ m) = C.primaryKey ⟨s, m⟩ ∧
            (t.getPrimaryKeys (s ++ "." ++ m)).Nodup ↔
          C.NameUnshared ⟨s, m⟩) := by
  obtain ⟨tables, hlist⟩ := R.run_listTables config 0
  obtain ⟨keys, hkeys, hanswers⟩ := R.run_lookupPrimaryKeys (fun _ => none) tables 0
  simp only [Nat.zero_add] at hanswers
  refine ⟨{ trackedTables := tables, tablePrimaryKeys := keys }, 0 + tables.length, ?_, ?_, ?_⟩
  · rw [rediscoverTables_eq, TableTracker.discoverTables, Prog.run_bind_of_some _ _ hlist,
      Prog.run_bind_of_some _ _ hkeys]
    rfl
  · intro table hfailed
    obtain ⟨hnone, -⟩ | ⟨i, hi, hack, -⟩ := hanswers table
    · show (keys table).getD [] = []
      rw [hnone]
      rfl
    · exact absurd ⟨i, hi, hack⟩ hfailed
  · intro s m hs hm hsucceeded
    have hdot : (s ++ "." ++ m).toList = s.toList ++ '.' :: m.toList := by simp
    have hhalves : halves (s ++ "." ++ m) = ⟨s, m⟩ := by
      rw [halves_of_dot hdot (hs.symbol_notMem (by decide)), String.ofList_toList,
        String.ofList_toList]
    obtain ⟨-, hnone⟩ | ⟨i, hi, hack, heq⟩ := hanswers (s ++ "." ++ m)
    · -- no lookup was acknowledged, against the assumption
      obtain ⟨i, hi, hack⟩ := hsucceeded
      exact absurd hack (hnone i hi)
    · -- the entry is the answer to an acknowledged lookup
      rw [Replies.Acknowledged, hhalves] at hack
      have hexact := answers_exact_iff (R.honest i ⟨s, m⟩ hs hm hack)
      rw [hhalves] at heq
      have hkey : (keys (s ++ "." ++ m)).getD [] =
          TableTracker.firstColumn (R.lookup i ⟨s, m⟩) := by
        rw [heq]
        rfl
      show (keys (s ++ "." ++ m)).getD [] = C.primaryKey ⟨s, m⟩ ∧
        ((keys (s ++ "." ++ m)).getD []).Nodup ↔ _
      rw [hkey, ← hexact]
      -- a key has no column twice, so the second part follows
      refine and_iff_left_of_imp fun heq => ?_
      rw [heq]
      exact nodup_primaryKey C ⟨s, m⟩

/-! ## A shared name -/

/-- Two tables of one name in two schemas, with the default names of their keys. -/
def sharedName : KeyCatalog where
  constraints :=
    [⟨⟨"archive", "users"⟩, "users_pkey", .primaryKey, ["uid"]⟩,
     ⟨⟨"public", "users"⟩, "users_pkey", .primaryKey, ["id"]⟩]
  nodup := by decide
  unique_in_table := by decide
  primaryKey_name := by decide
  one_primaryKey := by decide
  columns_ne := by decide
  columns_nodup := by decide

/-- The one of schema public is listed, and its lookup finds a column of each. -/
def sharedNameReplies : Replies sharedName where
  listing := some ⟨.tuplesOk, ["table_name"], [[some "users"]]⟩
  lookup _ r :=
    if r = ⟨"public", "users"⟩ then some ⟨.tuplesOk, ["column_name"], [[some "uid"], [some "id"]]⟩
    else none
  honest := by
    intro i r _ _ hack
    by_cases hr : r = ⟨"public", "users"⟩
    · rw [if_pos hr, hr]
      exact ⟨[⟨"users_pkey", "uid", 1⟩, ⟨"users_pkey", "id", 1⟩], by decide, by decide, by decide⟩
    · rw [if_neg hr] at hack
      cases hack

/-- The key column of the other table comes with the answer. -/
theorem discovered_key_sharedName :
    ∃ t n, (rediscoverTables { localConn := "", hostedConn := "" } {}).run
        sharedNameReplies.handler 0 = (some t, n) ∧
      sharedNameReplies.Succeeded t.getTrackedTables ("public" ++ "." ++ "users") ∧
      t.getPrimaryKeys ("public" ++ "." ++ "users") = ["uid", "id"] ∧
      t.getPrimaryKeys ("public" ++ "." ++ "users") ≠
        sharedName.primaryKey ⟨"public", "users"⟩ := by
  refine ⟨_, _, rfl, ⟨0, ?_, ?_⟩, ?_, ?_⟩
  · decide
  · unfold Replies.Acknowledged
    decide
  · decide
  · decide

end SyncLayer.Discovery
