import SyncLayer.Copy.FailureFree

/-!
# Foreign Keys and the Order of the Copy

The hosted tables have the foreign keys of the local ones, and a batch is rejected as a
whole when one of its new rows refers to a row that is not there at the end of the
statement. A rejected batch is retried twice, logged and given up.

So a reference must never point forward in the order of the copy. Since the tables are
listed in any order, the copy is complete in every order exactly when no row refers to
another table, and a row that refers to its own table refers to a row of its own batch
or an earlier one (`orders_agree_iff`).
-/

namespace SyncLayer.Copy

open SyncLayer.Interaction SyncLayer.Model SyncLayer.Database SyncLayer.Chunks
open SyncLayer.PartialMap

/-! ## Foreign keys -/

/-- A foreign key to the primary key of a table: its columns, in the order of that key. One
    that refers to other unique columns is left out. -/
structure ForeignKey where
  columns : List String
  target : String
  deriving DecidableEq

/-- The key a row refers to; a row with a NULL among the columns refers to nothing. -/
def ForeignKey.refersTo (fk : ForeignKey) (d : TableDef) (r : Row) : Option Key :=
  let cells := fk.columns.map (TableDef.cellOf d.columns r)
  if cells.all Option.isSome then some cells else none

variable {C : Catalog}

/-- The references of the rows that an INSERT would add hold at the end of the statement. -/
def ReferencesHold (C : Catalog) (fks : String → List ForeignKey) (t : String)
    (rows : List Row) (H : HostedDb) : Prop :=
  ∀ r ∈ rows, H t ((C.table t).keyOf r) = none → ∀ fk ∈ fks t,
    ∀ k ∈ fk.refersTo (C.table t) r, (insertRows (C.table t) t rows H fk.target k).isSome

instance (fks : String → List ForeignKey) (t : String) (rows : List Row) (H : HostedDb) :
    Decidable (ReferencesHold C fks t rows H) := by
  unfold ReferencesHold
  infer_instance

/-- The environment in which a statement fails only when it violates a foreign key. -/
def constrained (fks : String → List ForeignKey) (L : LocalDb C.table) : Behaviour C where
  localDb _ _ := L
  outcome s _ query := match query with
    | .insert t columns values =>
      if ReferencesHold C fks t (values.map ((C.table t).rowOf columns)) s.hosted then .acked
      else .lost
    | _ => .acked

/-- What the statements achieve there. -/
def constrainedTransfers (fks : String → List ForeignKey) (L : LocalDb C.table) :
    Transfers where
  read _ t p := some (pageOf (L t).rows p)
  store _ t rows H := if ReferencesHold C fks t rows H then insertRows (C.table t) t rows H else H

variable {fks : String → List ForeignKey} {L : LocalDb C.table} {t : String}

theorem constrained_realizes (fks : String → List ForeignKey) (L : LocalDb C.table)
    (t : String) : Realizes (constrained fks L) (constrainedTransfers fks L) t where
  width i p rows hread r hr := by
    obtain rfl : pageOf (L t).rows p = rows := Option.some.inj hread
    exact (L t).width r (mem_of_mem_pageOf hr)
  run_read p hp s hs := by
    have hr := respond_pageQuery (L := L) (H := s.hosted) (t := t) hp
    exact run_executeWithRetry_first (constrained fks L) (retried_selectPage _ _ _ _)
      (Or.inr rfl) hr
  run_store rows hw s hs := by
    -- the check sees the same rows and the same database in every attempt
    have hfate : ∀ a, (constrained fks L).outcome { s with attempt := a } .hosted_
        (batchInsert C t rows) =
          if ReferencesHold C fks t rows s.hosted then .acked else .lost := by
      intro a
      show (if ReferencesHold C fks t
        ((encoded rows).map ((C.table t).rowOf (C.table t).columns)) s.hosted then _ else _) = _
      rw [rows_of_encoded hw]
    show _ = (some (), { s with hosted := if _ then _ else _ })
    by_cases hrefs : ReferencesHold C fks t rows s.hosted
    · rw [if_pos hrefs]
      refine run_sendChunk_acked _ hw hs ?_
      exact (hfate s.attempt).trans (if_pos hrefs)
    · rw [if_neg hrefs]
      exact run_sendChunk_lost _ hs fun a => (hfate a).trans (if_neg hrefs)

/-- A table within the bound is sent in batches of 100 consecutive rows. -/
private theorem batches_eq_chunks (hrows : (L t).rows.length ≤ maxRows) (i : Nat) :
    (constrainedTransfers fks L).batches i t = chunks batchSize (L t).rows := by
  -- the pages are the chunks of 1000 rows; batches of 100 fit into them
  have hpages : ∀ n p, (L t).rows.length ≤ 1000 * (n + p) →
      pagesFrom (fun p => some (pageOf (L t).rows p)) n p =
        chunks 1000 ((L t).rows.drop (1000 * p)) := by
    intro n
    induction n with
    | zero =>
      intro p hp
      rw [List.drop_of_length_le (by omega), chunks_nil]
      rfl
    | succ n ih =>
      intro p hp
      rw [pagesFrom]
      by_cases hempty : pageOf (L t).rows p = []
      · have hlen : (L t).rows.length ≤ 1000 * p := by simpa [pageOf] using hempty
        rw [List.drop_of_length_le hlen, chunks_nil]
        simp only [hempty, if_true]
      · have hne : (L t).rows.drop (1000 * p) ≠ [] := by
          intro hnil
          exact hempty (by rw [pageOf, hnil, List.take_nil])
        rw [chunks_of_ne_nil (by decide) hne, List.drop_drop, ← Nat.mul_succ]
        simp only [if_neg hempty]
        rw [ih (p + 1) (by omega)]
        rfl
  rw [Transfers.batches]
  have hall := hpages maxPages 0 (by unfold maxRows at hrows; unfold maxPages; omega)
  rw [Nat.mul_zero, List.drop_zero] at hall
  show (pagesFrom (fun p => some (pageOf (L t).rows p)) maxPages 0).flatMap _ = _
  rw [hall, flatMap_chunks_chunks (by decide) (by decide) (by decide)]

/-! ## References within the copied prefix -/

/-- Every reference of a row of `t` is to `t` itself, to a row that is copied with it or
    before it: among the rows up to the end of its batch. -/
def RefersBack (C : Catalog) (fks : String → List ForeignKey) (L : LocalDb C.table)
    (t : String) : Prop :=
  ∀ (i : Nat) (r : Row), (L t).rows[i]? = some r → ∀ fk ∈ fks t,
    ∀ k ∈ fk.refersTo (C.table t) r,
      fk.target = t ∧ ∃ r' ∈ (L t).rows.take (100 * (i / 100 + 1)), (C.table t).keyOf r' = k

/-- Where references point back, every batch is accepted. The induction is on the batches
    to come; those before are already inserted. -/
private theorem storeAll_accepted (fks : String → List ForeignKey) (L : LocalDb C.table)
    (t : String) (i : Nat) (done bs : List (List Row)) (H : HostedDb)
    (hback : ∀ pre c post, bs = pre ++ c :: post → ∀ r ∈ c, ∀ fk ∈ fks t,
      ∀ k ∈ fk.refersTo (C.table t) r, fk.target = t ∧
        ∃ r' ∈ (done ++ pre ++ [c]).flatten, (C.table t).keyOf r' = k) :
    (constrainedTransfers fks L).storeAll i t bs (insertRows (C.table t) t done.flatten H) =
      insertRows (C.table t) t (done ++ bs).flatten H := by
  induction bs generalizing done with
  | nil => simp [Transfers.storeAll]
  | cons c bs ih =>
    -- the batches done and this one are one insertion of their rows
    have hsent : insertRows (C.table t) t c (insertRows (C.table t) t done.flatten H) =
        insertRows (C.table t) t (done ++ [c]).flatten H := by
      rw [← insertRows_append]
      simp
    -- a row referred to is among those batches, so it is there at the end
    have hrefs : ReferencesHold C fks t c (insertRows (C.table t) t done.flatten H) := by
      intro r hr _ fk hfk k hk
      obtain ⟨htarget, r', hr', hkey⟩ := hback [] c bs rfl r hr fk hfk k hk
      rw [List.append_nil] at hr'
      rw [hsent, htarget, insertRows_same, ← hkey]
      exact isSome_insertAll_of_mem hr'
    have hrest := ih (done ++ [c]) fun pre c' post hsplit => by
      intro r hr fk hfk k hk
      obtain ⟨htarget, r', hr', hkey⟩ :=
        hback (c :: pre) c' post (by rw [hsplit]; rfl) r hr fk hfk k hk
      exact ⟨htarget, r', by simpa using hr', hkey⟩
    show (constrainedTransfers fks L).storeAll i t bs (if _ then _ else _) = _
    rw [if_pos hrefs, hsent, hrest]
    simp

/-- Where references point back, the table is copied as a whole. -/
theorem copyTable_of_refersBack (hback : RefersBack C fks L t)
    (hrows : (L t).rows.length ≤ maxRows) (i : Nat) (H : HostedDb) :
    (constrainedTransfers fks L).copyTable i t H = insertRows (C.table t) t (L t).rows H := by
  have hall := storeAll_accepted fks L t i [] (chunks batchSize (L t).rows) H ?_
  · rw [List.flatten_nil, insertRows_nil, List.nil_append, flatten_chunks (by decide)] at hall
    rw [Transfers.copyTable, batches_eq_chunks hrows, hall]
  · intro pre c post hsplit r hr fk hfk k hk
    obtain ⟨hinit, hpos⟩ := chunks_split (by decide) hsplit
    obtain ⟨j, hj, hdiv⟩ := hpos r hr
    obtain ⟨htarget, r', hr', hkey⟩ := hback j r hj fk hfk k hk
    refine ⟨htarget, r', ?_, hkey⟩
    rw [List.nil_append, hinit]
    have hdiv' : j / 100 = pre.length := hdiv
    rwa [hdiv'] at hr'

/-! ## A reference that points forward -/

theorem constrainedTransfers_store (i : Nat) (t : String) (rows : List Row) (H : HostedDb) :
    (constrainedTransfers fks L).store i t rows H =
      if ReferencesHold C fks t rows H then insertRows (C.table t) t rows H else H := rfl

/-- Copying batches adds nothing but their rows, under their keys. -/
private theorem storeAll_eq_some {i : Nat} {bs : List (List Row)} {H : HostedDb} {t' : String}
    {k : Key} {r : Row}
    (h : (constrainedTransfers fks L).storeAll i t bs H t' k = some r) :
    H t' k = some r ∨ (t' = t ∧ r ∈ bs.flatten ∧ (C.table t).keyOf r = k) := by
  induction bs generalizing H with
  | nil => exact Or.inl h
  | cons c bs ih =>
    rw [List.flatten_cons, List.mem_append]
    rw [Transfers.storeAll_cons] at h
    -- the entry came with a later batch, with this one, or was there before
    rcases ih h with hstore | ⟨ht, hr, hk⟩
    · rw [constrainedTransfers_store] at hstore
      split_ifs at hstore
      · rcases insertRows_eq_some hstore with hold | ⟨ht, hr, hk⟩
        · exact Or.inl hold
        · exact Or.inr ⟨ht, Or.inl hr, hk⟩
      · exact Or.inl hstore
    · exact Or.inr ⟨ht, Or.inr hr, hk⟩

/-- A free key that no row of the batches has stays free. -/
private theorem storeAll_eq_none (fks : String → List ForeignKey) (L : LocalDb C.table)
    {i : Nat} {bs : List (List Row)} {H : HostedDb} {k : Key}
    (hfree : H t k = none) (hbs : ∀ r ∈ bs.flatten, (C.table t).keyOf r ≠ k) :
    (constrainedTransfers fks L).storeAll i t bs H t k = none := by
  cases hafter : (constrainedTransfers fks L).storeAll i t bs H t k with
  | none => rfl
  | some r =>
    rcases storeAll_eq_some hafter with hold | ⟨-, hr, hk⟩
    · rw [hfree] at hold
      cases hold
    · exact absurd hk (hbs r hr)

/-- The key of a row in one batch is not used in the batches before and behind it. -/
private theorem keys_distinct (hpk : (C.table t).primaryKey ≠ []) {pre post : List (List Row)}
    {c : List Row} (hsplit : chunks batchSize (L t).rows = pre ++ c :: post) {r : Row}
    (hr : r ∈ c) :
    (∀ r' ∈ pre.flatten, (C.table t).keyOf r' ≠ (C.table t).keyOf r) ∧
      ∀ r' ∈ post.flatten, (C.table t).keyOf r' ≠ (C.table t).keyOf r := by
  have hnodup : ((pre ++ c :: post).flatten.map (C.table t).keyOf).Nodup := by
    rw [← hsplit, flatten_chunks (by decide)]
    exact (L t).keys_nodup hpk
  rw [List.flatten_append, List.flatten_cons, List.map_append, List.map_append,
    List.nodup_append, List.nodup_append] at hnodup
  obtain ⟨-, ⟨-, -, hbehind⟩, hbefore⟩ := hnodup
  have hkey : (C.table t).keyOf r ∈ c.map (C.table t).keyOf := List.mem_map_of_mem hr
  constructor
  · intro r' hr'
    exact hbefore _ (List.mem_map_of_mem hr') _ (List.mem_append_left _ hkey)
  · intro r' hr'
    exact (hbehind _ hkey _ (List.mem_map_of_mem hr')).symm

/-- A batch with a dangling reference is rejected after the batches before it were sent
    to an empty hosted database. -/
private theorem not_referencesHold {pre : List (List Row)} {c : List Row} {n : Nat} {r : Row}
    (hr : r ∈ c)
    (hfree : (constrainedTransfers fks L).storeAll n t pre HostedDb.empty t
      ((C.table t).keyOf r) = none)
    {fk : ForeignKey} (hfk : fk ∈ fks t) {k : Key} (hk : k ∈ fk.refersTo (C.table t) r)
    (hdangling : ¬ (fk.target = t ∧ ∃ r' ∈ (pre ++ [c]).flatten, (C.table t).keyOf r' = k)) :
    ¬ ReferencesHold C fks t c
      ((constrainedTransfers fks L).storeAll n t pre HostedDb.empty) := by
  intro hrefs
  obtain ⟨r', hr'⟩ := Option.isSome_iff_exists.1 (hrefs r hr hfree fk hfk k hk)
  apply hdangling
  rw [List.flatten_append, List.flatten_cons, List.flatten_nil, List.append_nil]
  -- the row referred to would be in this batch, or in one before it
  rcases insertRows_eq_some hr' with hold | ⟨ht, hmem, hkey⟩
  · rcases storeAll_eq_some hold with hempty | ⟨ht, hmem, hkey⟩
    · cases hempty
    · exact ⟨ht, r', List.mem_append_left _ hmem, hkey⟩
  · exact ⟨ht, r', List.mem_append_right _ hmem, hkey⟩

/-- Into an empty hosted database a table with a reference that does not point back is
    not copied completely. -/
theorem refersBack_of_copyTable_empty (hpk : (C.table t).primaryKey ≠ [])
    (hrows : (L t).rows.length ≤ maxRows) {n : Nat}
    (hcomplete : ∀ r ∈ (L t).rows, ((constrainedTransfers fks L).copyTable n t HostedDb.empty t
      ((C.table t).keyOf r)).isSome) :
    RefersBack C fks L t := by
  intro i r hr fk hfk k hk
  by_contra hdangling
  -- the batch `c` of the row with the dangling reference, those before it and behind it
  obtain ⟨pre, c, post, hsplit, hrc, hpre⟩ := exists_chunks_split (n := batchSize) (by decide) hr
  have hinit := (chunks_split (by decide) hsplit).1
  rw [hpre, show batchSize = 100 from rfl] at hinit
  rw [← hinit] at hdangling
  obtain ⟨hbefore, hbehind⟩ := keys_distinct hpk hsplit hrc
  have hfree := storeAll_eq_none fks L (i := n) (t := t) (H := HostedDb.empty) rfl hbefore
  have hrejected := not_referencesHold hrc hfree hfk hk hdangling
  -- its batch is rejected, and no other batch has its key
  have hnone : (constrainedTransfers fks L).copyTable n t HostedDb.empty t
      ((C.table t).keyOf r) = none := by
    rw [Transfers.copyTable, batches_eq_chunks hrows, hsplit, Transfers.storeAll_append,
      Transfers.storeAll_cons, constrainedTransfers_store, if_neg hrejected]
    exact storeAll_eq_none fks L hfree hbehind
  have hsome := hcomplete r (List.mem_of_getElem? hr)
  rw [hnone] at hsome
  cases hsome

/-! ## All orders -/

/-- The tracker after a discovery that lists the tables in the order `ts`. -/
def trackerOf (C : Catalog) (ts : List String) : TableTracker where
  trackedTables := ts
  tablePrimaryKeys t := some (C.table t).primaryKey

/-- Every row of the tables `ts` is in the hosted database. -/
def HasAllRows (C : Catalog) (L : LocalDb C.table) (ts : List String) (H : HostedDb) : Prop :=
  ∀ t ∈ ts, ∀ r ∈ (L t).rows, H t ((C.table t).keyOf r) = some r

/-- The hosted database after a copy in the order `ts` into an empty one. -/
def copyInOrder (fks : String → List ForeignKey) (L : LocalDb C.table) (ts : List String) :
    HostedDb :=
  (constrainedTransfers fks L).copyTables (trackerOf C ts) 0 ts HostedDb.empty

theorem run_initialSync_constrained (ts : List String) :
    Prog.Finishes (constrained fks L).handler
      (fun fuel => initialSync fuel (trackerOf C ts)) (newSession HostedDb.empty) ()
      { newSession HostedDb.empty with
        table := ts.length
        hosted := copyInOrder fks L ts } := by
  have hrun := run_initialSync (b := constrained fks L) (E := constrainedTransfers fks L)
    (trackerOf C ts) (s := newSession HostedDb.empty)
    (fun t _ _ => ⟨rfl, constrained_realizes fks L t⟩) rfl
  simp only [Nat.zero_add] at hrun
  exact hrun

/-- A copy that is complete with `t` as its first table shows that the references of `t`
    point back. -/
theorem refersBack_of_first (hpk : (C.table t).primaryKey ≠ [])
    (hrows : (L t).rows.length ≤ maxRows) (ts : List String) (ht : t ∉ ts)
    (hcomplete : HasAllRows C L [t] (copyInOrder fks L (t :: ts))) : RefersBack C fks L t := by
  have hstore : ∀ i t rows H t', t' ≠ t →
      (constrainedTransfers fks L).store i t rows H t' = H t' := by
    intro i t rows H t' hne
    rw [constrainedTransfers_store]
    split_ifs
    · exact insertRows_other hne
    · rfl
  apply refersBack_of_copyTable_empty hpk hrows (n := 0)
  intro r hr
  have hfirst := hcomplete t (List.mem_singleton_self t) r hr
  have hne : ¬ ((trackerOf C (t :: ts)).getPrimaryKeys t).isEmpty = true := by
    simpa [trackerOf, TableTracker.getPrimaryKeys] using hpk
  rw [copyInOrder, Transfers.copyTables, if_neg hne, Transfers.copyTables_other hstore ht]
    at hfirst
  rw [hfirst]
  rfl

/-- Where all references point back, every listed table receives all of its rows. -/
private theorem copyTables_of_refersBack {tracker : TableTracker} (ts : List String)
    (hts : ∀ t ∈ ts, tracker.getPrimaryKeys t ≠ [] ∧ (L t).rows.length ≤ maxRows ∧
      RefersBack C fks L t) (i : Nat) (H : HostedDb) (t : String) :
    (constrainedTransfers fks L).copyTables tracker i ts H t =
      if t ∈ ts then insertAll (C.table t).keyOf (H t) (L t).rows else H t := by
  induction ts generalizing i H with
  | nil => simp [Transfers.copyTables]
  | cons t' ts ih =>
    obtain ⟨hpk, hrows, hback⟩ := hts t' (List.mem_cons_self ..)
    have hne : ¬ (tracker.getPrimaryKeys t').isEmpty = true := by simpa using hpk
    rw [Transfers.copyTables, if_neg hne, copyTable_of_refersBack hback hrows,
      ih fun t ht => hts t (List.mem_cons_of_mem _ ht)]
    by_cases ht : t = t'
    · subst ht
      rw [if_pos (List.mem_cons_self ..), insertRows_same, insertAll_idem, ite_self]
    · rw [insertRows_other ht]
      simp [ht]

/-- **When the order does not matter**: in any two orders of the listed tables the copy
    into an empty hosted database gives the same result, with every local row in it,
    exactly when the references of every table point back. -/
theorem orders_agree_iff (C : Catalog) (fks : String → List ForeignKey) (L : LocalDb C.table)
    (ts : List String) (hnodup : ts.Nodup) (hpk : ∀ t ∈ ts, (C.table t).primaryKey ≠ [])
    (hrows : ∀ t ∈ ts, (L t).rows.length ≤ maxRows) :
    (∀ ts₁ ts₂, ts₁.Perm ts → ts₂.Perm ts → ∃ w₁ w₂ : Session,
        Prog.Finishes (constrained fks L).handler
          (fun fuel => initialSync fuel (trackerOf C ts₁)) (newSession HostedDb.empty) () w₁ ∧
        Prog.Finishes (constrained fks L).handler
          (fun fuel => initialSync fuel (trackerOf C ts₂)) (newSession HostedDb.empty) () w₂ ∧
        w₁.hosted = w₂.hosted ∧ HasAllRows C L ts w₁.hosted) ↔
      ∀ t ∈ ts, RefersBack C fks L t := by
  constructor
  · intro h t ht
    -- put `t` first: nothing is there yet that its rows could refer to
    have hperm : (t :: ts.erase t).Perm ts := (List.perm_cons_erase ht).symm
    obtain ⟨w₁, w₂, hrun, -, -, hall⟩ := h _ _ hperm hperm
    obtain ⟨-, rfl⟩ := hrun.unique (run_initialSync_constrained (t :: ts.erase t))
    apply refersBack_of_first (hpk t ht) (hrows t ht) (ts.erase t) hnodup.not_mem_erase
    intro t' ht' r hr
    obtain rfl := List.mem_singleton.1 ht'
    exact hall t' ht r hr
  · intro hback ts₁ ts₂ hperm₁ hperm₂
    -- the result of a copy depends on which tables are listed, not on their order
    have hresult : ∀ ts', ts'.Perm ts → ∀ t, copyInOrder fks L ts' t =
        if t ∈ ts then insertAll (C.table t).keyOf (HostedDb.empty t) (L t).rows
        else HostedDb.empty t := by
      intro ts' hperm t
      rw [copyInOrder, copyTables_of_refersBack ts' ?_ 0 HostedDb.empty t]
      · simp only [hperm.mem_iff]
      · intro t ht
        have ht' : t ∈ ts := hperm.mem_iff.1 ht
        exact ⟨hpk t ht', hrows t ht', hback t ht'⟩
    refine ⟨_, _, run_initialSync_constrained ts₁, run_initialSync_constrained ts₂, ?_, ?_⟩
    · funext t
      exact (hresult ts₁ hperm₁ t).trans (hresult ts₂ hperm₂ t).symm
    · intro t ht r hr
      have hcopied := hresult ts₁ hperm₁ t
      rw [if_pos ht] at hcopied
      show copyInOrder fks L ts₁ t _ = some r
      rw [hcopied, insertAll_eq_some ((L t).key_injective (hpk t ht))]
      exact Or.inr ⟨rfl, hr, rfl⟩

/-- The foreign key by which nodes of any table refer to their parent among `target`. -/
def parentIn (target : String) : ForeignKey := { columns := ["parent"], target }

/-- A parent and its child. -/
def parentWithChild : TableState nodeTable where
  rows := [[some "1", none], [some "2", some "1"]]
  width := by decide
  inKeyOrder _ := by
    apply List.pairwise_pair.2
    show (["1"] : List String) < ["2"]
    decide

theorem refersBack_parentWithChild (names : List String) (t : String) :
    RefersBack (nodeCatalog names) (fun t => [parentIn t]) (fun _ => parentWithChild) t := by
  intro i r hr fk hfk k hk
  obtain rfl := List.mem_singleton.1 hfk
  refine ⟨rfl, [some "1", none], ?_, ?_⟩
  · rw [List.take_of_length_le (by simp [parentWithChild]; omega)]
    exact List.mem_cons_self ..
  · -- only the child refers to a row
    rcases List.mem_pair.1 (List.mem_of_getElem? hr) with rfl | rfl
    · have hnone : (none : Option Key) = some k := hk
      cases hnone
    · exact Option.some.inj hk

/-- Two tables with references in themselves. -/
theorem orders_agree_iff_own_parent :
    ∃ w₁ w₂ : Session,
      Prog.Finishes (constrained (C := nodeCatalog ["staff", "areas"]) (fun t => [parentIn t])
          (fun _ => parentWithChild)).handler
        (fun fuel => initialSync fuel (trackerOf (nodeCatalog ["staff", "areas"])
          ["public.staff", "public.areas"])) (newSession HostedDb.empty) () w₁ ∧
      Prog.Finishes (constrained (C := nodeCatalog ["staff", "areas"]) (fun t => [parentIn t])
          (fun _ => parentWithChild)).handler
        (fun fuel => initialSync fuel (trackerOf (nodeCatalog ["staff", "areas"])
          ["public.areas", "public.staff"])) (newSession HostedDb.empty) () w₂ ∧
      w₁.hosted = w₂.hosted ∧
      HasAllRows (nodeCatalog ["staff", "areas"]) (fun _ => parentWithChild)
        ["public.staff", "public.areas"] w₁.hosted :=
  (orders_agree_iff (nodeCatalog ["staff", "areas"]) _ _ ["public.staff", "public.areas"]
    (by decide) (by decide) (by decide)).2
    (fun t _ => refersBack_parentWithChild _ t) _ _ (.refl _) (.swap _ _ _)

/-- One parent in its table, and one child that refers to it in another. -/
def parentAndChild : LocalDb (nodeCatalog ["parents", "children"]).table := fun t =>
  if t = "public.parents" then .single nodeTable [some "1", none] rfl
  else if t = "public.children" then .single nodeTable [some "2", some "1"] rfl
  else .empty nodeTable

/-- The foreign key of the children. -/
def childKeys (t : String) : List ForeignKey :=
  if t = "public.children" then [parentIn "public.parents"] else []

/-- When the children are listed before their parents, the child is not copied. -/
theorem orders_disagree_children_first :
    ¬ ∀ ts₁ ts₂, ts₁.Perm ["public.parents", "public.children"] →
      ts₂.Perm ["public.parents", "public.children"] → ∃ w₁ w₂ : Session,
        Prog.Finishes (constrained childKeys parentAndChild).handler
          (fun fuel => initialSync fuel (trackerOf (nodeCatalog ["parents", "children"]) ts₁))
          (newSession HostedDb.empty) () w₁ ∧
        Prog.Finishes (constrained childKeys parentAndChild).handler
          (fun fuel => initialSync fuel (trackerOf (nodeCatalog ["parents", "children"]) ts₂))
          (newSession HostedDb.empty) () w₂ ∧
        w₁.hosted = w₂.hosted ∧
        HasAllRows (nodeCatalog ["parents", "children"]) parentAndChild
          ["public.parents", "public.children"] w₁.hosted := by
  intro h
  have hperm : ["public.children", "public.parents"].Perm ["public.parents", "public.children"] :=
    List.Perm.swap _ _ _
  obtain ⟨w₁, w₂, hrun, -, -, hall⟩ := h _ _ hperm hperm
  obtain ⟨-, rfl⟩ := hrun.unique (run_initialSync_constrained _)
  have hback : RefersBack (nodeCatalog ["parents", "children"]) childKeys parentAndChild
      "public.children" := by
    apply refersBack_of_first (by decide) (by decide) ["public.parents"] (by decide)
    intro t ht r hr
    obtain rfl := List.mem_singleton.1 ht
    exact hall _ (by decide) r hr
  -- the child refers to another table
  have hself := hback 0 [some "2", some "1"] rfl (parentIn "public.parents") (by decide)
    [some "1"] (by decide)
  exact absurd hself.1 (by decide)

end SyncLayer.Copy
