import SyncLayer.Copy.Statements
import SyncLayer.Model.Calls
import SyncLayer.Interaction.Interference

/-!
# The Service Among Other Clients

Here the environment is a relation: every attempt may fare in any way, and between two
calls of the service other clients may change the local database. `changes` says which
changes are possible.

The invariant of the copy (`Safe`) speaks about row versions `V` and tables `T`: while
the local database holds only rows in `V`, the hosted database keeps what it had and
gains only rows in `V`, in tables of `T` and each under its own key. It is a triple for
every part of the code (`spec_initialSync`, `spec_start`), so it holds at every point at
which a run is looked at or cut off.
-/

namespace SyncLayer.Copy

open SyncLayer.Interaction SyncLayer.Model SyncLayer.Database SyncLayer.Chunks
open SyncLayer.PartialMap Relation

variable {C : Catalog}

/-! ## The world of the two databases -/

/-- The two databases at some moment. -/
structure Databases (C : Catalog) where
  hosted : HostedDb
  localDb : LocalDb C.table

/-- Calls to the two databases, with any outcome of every attempt, while other clients
    change the local database as `changes` permits. Nobody else writes to hosted. -/
def databases (C : Catalog) (changes : LocalDb C.table → LocalDb C.table → Prop) :
    World Call Call.Reply (Databases C) where
  step
    | w, .pqexec conn query, r, w' => ∃ outcome,
        respond C w.localDb w.hosted conn query outcome = (r, w'.hosted) ∧
          w'.localDb = w.localDb
    | w, .pqescapeLiteral _, r, w' => r = true ∧ w' = w
    | w, .sleepFor _, _, w' => w' = w
    | w, .log _, _, w' => w' = w
  drift w w' := w'.hosted = w.hosted ∧ changes w.localDb w'.localDb

/-- A statement is executed as a whole or not at all. -/
theorem respond_cases {L : LocalDb C.table} {H H' : HostedDb} {conn : Conn} {query : Stmt}
    {outcome : Outcome} {r : Option PGresult}
    (h : respond C L H conn query outcome = (r, H')) :
    (r = some failureResult ∧ H' = H) ∨
      ∃ res, serve C L H conn query = some (res, H') ∧ (r = some res ∨ r = some failureResult) := by
  cases hserve : serve C L H conn query with
  | none =>
    rw [respond_of_serve_none hserve] at h
    obtain ⟨rfl, rfl⟩ := Prod.mk.inj h
    exact Or.inl ⟨rfl, rfl⟩
  | some answer =>
    obtain ⟨res, H₁⟩ := answer
    cases outcome with
    | acked =>
      simp only [respond, hserve] at h
      obtain ⟨rfl, rfl⟩ := Prod.mk.inj h
      exact Or.inr ⟨res, rfl, Or.inl rfl⟩
    | lost =>
      obtain ⟨rfl, rfl⟩ := Prod.mk.inj h
      exact Or.inl ⟨rfl, rfl⟩
    | unacked =>
      simp only [respond, hserve] at h
      obtain ⟨rfl, rfl⟩ := Prod.mk.inj h
      exact Or.inr ⟨res, rfl, Or.inr rfl⟩

/-- The effect of an executed statement: an INSERT, or none. -/
theorem serve_cases {L : LocalDb C.table} {H H' : HostedDb} {conn : Conn} {query : Stmt}
    {res : PGresult} (h : serve C L H conn query = some (res, H')) :
    H' = H ∨ ∃ t columns values, query = .insert t columns values ∧
      H' = insertRows (C.table t) t (values.map ((C.table t).rowOf columns)) H := by
  cases query with
  | insert t columns values =>
    cases conn with
    | local_ => cases h
    | hosted_ =>
      obtain ⟨-, rfl⟩ := Prod.mk.inj (Option.some.inj h)
      exact Or.inr ⟨t, columns, values, rfl, rfl⟩
  | selectPage t orderBy limit offset =>
    cases conn with
    | local_ =>
      rw [serve] at h
      split_ifs at h
      obtain ⟨-, rfl⟩ := Prod.mk.inj (Option.some.inj h)
      exact Or.inl rfl
    | hosted_ => cases h
  | listTables =>
    cases conn with
    | local_ =>
      obtain ⟨-, rfl⟩ := Prod.mk.inj (Option.some.inj h)
      exact Or.inl rfl
    | hosted_ => cases h
  | primaryKey schema tableName =>
    cases conn with
    | local_ =>
      obtain ⟨-, rfl⟩ := Prod.mk.inj (Option.some.inj h)
      exact Or.inl rfl
    | hosted_ => cases h
  | selectOne | countConnections | databaseSize | countActiveQueries =>
    obtain ⟨-, rfl⟩ := Prod.mk.inj (Option.some.inj h)
    exact Or.inl rfl

/-- Whatever becomes of a statement, it takes nothing away from the hosted database. -/
theorem extends_respond {L : LocalDb C.table} {H H' : HostedDb} {conn : Conn} {query : Stmt}
    {outcome : Outcome} {r : Option PGresult}
    (h : respond C L H conn query outcome = (r, H')) (t : String) : Extends (H t) (H' t) := by
  rcases respond_cases h with ⟨-, rfl⟩ | ⟨res, hserve, -⟩
  · exact Extends.refl _
  · rcases serve_cases hserve with rfl | ⟨t', columns, values, -, rfl⟩
    · exact Extends.refl _
    · exact extends_insertRows t

/-! ## The invariant -/

/-- The local database has only rows among the versions `V`, and hosted has `H` and
    besides, in the tables `T`, only rows among `V`, under their keys. -/
structure Safe (H : HostedDb) (V : String → Set Row) (T : Set String) (w : Databases C) :
    Prop where
  versions : ∀ t, ∀ r ∈ (w.localDb t).rows, r ∈ V t
  kept : ∀ t, Extends (H t) (w.hosted t)
  gained : ∀ t k r, w.hosted t k = some r →
    H t k = some r ∨ (t ∈ T ∧ r ∈ V t ∧ (C.table t).keyOf r = k)

/-- Local changes after which all rows are among the versions `V`. -/
def Within (C : Catalog) (V : String → Set Row) (_ L' : LocalDb C.table) : Prop :=
  ∀ t, ∀ r ∈ (L' t).rows, r ∈ V t

/-- Calls other than an INSERT. -/
def NoInsert (e : Call) : Prop :=
  ∀ conn t columns values, e ≠ .pqexec conn (.insert t columns values)

section Invariant

variable {H : HostedDb} {V : String → Set Row} {T : Set String}
  {changes : LocalDb C.table → LocalDb C.table → Prop}
  (hchanges : ∀ L L', changes L L' → Within C V L L')

include hchanges

theorem stable_safe : (databases C changes).Stable (Safe H V T) := by
  rintro w w' ⟨hhosted, hlocal⟩ hw
  constructor
  · exact hchanges _ _ hlocal
  · rw [hhosted]
    exact hw.kept
  · rw [hhosted]
    exact hw.gained

omit hchanges in
/-- A call that is not an INSERT keeps the invariant. -/
theorem safe_of_step {w w' : Databases C} {e : Call} {r : Call.Reply e} (hw : Safe H V T w)
    (he : NoInsert e) (hs : (databases C changes).step w e r w') : Safe H V T w' := by
  cases e with
  | pqexec conn query =>
    obtain ⟨outcome, hr, hlocal⟩ := hs
    have hhosted : w'.hosted = w.hosted := by
      rcases respond_cases hr with ⟨-, h⟩ | ⟨res, hserve, -⟩
      · exact h
      · rcases serve_cases hserve with h | ⟨t, columns, values, rfl, -⟩
        · exact h
        · exact absurd rfl (he conn t columns values)
    obtain ⟨hosted, localDb⟩ := w'
    obtain rfl : hosted = w.hosted := hhosted
    obtain rfl : localDb = w.localDb := hlocal
    exact hw
  | pqescapeLiteral text =>
    obtain ⟨-, rfl⟩ := hs
    exact hw
  | sleepFor milliseconds =>
    obtain rfl : w' = w := hs
    exact hw
  | log line =>
    obtain rfl : w' = w := hs
    exact hw

omit hchanges in
/-- An INSERT of row versions under the columns of their table keeps the invariant. -/
theorem safe_of_insert {w w' : Databases C} {conn : Conn} {t : String} {rows : List Row}
    {r : Option PGresult} (hw : Safe H V T w) (ht : t ∈ T)
    (hrows : ∀ r ∈ rows, r ∈ V t ∧ r.length = (C.table t).columns.length)
    (hs : (databases C changes).step w (.pqexec conn (batchInsert C t rows)) r w') :
    Safe H V T w' := by
  obtain ⟨outcome, hr, hlocal⟩ := hs
  obtain ⟨hosted, localDb⟩ := w'
  obtain rfl : localDb = w.localDb := hlocal
  rcases respond_cases hr with ⟨-, h⟩ | ⟨res, hserve, -⟩
  · -- rejected or lost: nothing has changed
    obtain rfl : hosted = w.hosted := h
    exact hw
  · -- executed: free keys have gained rows of the batch
    have hinsert : hosted = insertRows (C.table t) t rows w.hosted := by
      cases conn with
      | local_ => cases hserve
      | hosted_ =>
        rw [batchInsert, (serves_insert t fun r hr => (hrows r hr).2).serve_eq] at hserve
        exact (Prod.mk.inj (Option.some.inj hserve)).2.symm
    subst hinsert
    constructor
    · exact hw.versions
    · intro t'
      exact (hw.kept t').trans (extends_insertRows t')
    · intro t' k r' hr'
      rcases insertRows_eq_some hr' with hold | ⟨rfl, hmem, hkey⟩
      · exact hw.gained t' k r' hold
      · exact Or.inr ⟨ht, (hrows r' hmem).1, hkey⟩

/-! ## The code that sends no INSERT -/

/-- Code without INSERTs keeps the invariant. -/
theorem spec_of_noInsert {α : Type} {p : Code α} (hp : p.Calls NoInsert)
    {P : Databases C → Prop} :
    (databases C changes).Spec (Safe H V T) P p fun _ _ => True :=
  World.Spec.of_calls (stable_safe hchanges) (fun _ _ _ _ he hw hs => safe_of_step hw he hs) hp

end Invariant

private theorem noInsert_log (line : LogLine) : (log line).Calls NoInsert :=
  (Prog.calls_perform _).2 fun _ _ _ _ h => by cases h

private theorem noInsert_sleepFor (milliseconds : Int64) :
    (sleepFor milliseconds).Calls NoInsert :=
  (Prog.calls_perform _).2 fun _ _ _ _ h => by cases h

theorem noInsert_healthCheck : healthCheck.Calls NoInsert :=
  calls_healthCheck.mono fun e he => by
    rintro conn t columns values rfl
    cases he with
    | query h => simp [healthQueries] at h

theorem noInsert_discoverTables (config : Config) :
    (TableTracker.discoverTables config).Calls NoInsert :=
  (calls_discoverTables config).mono fun e he => by
    rintro conn t columns values rfl
    cases he

/-- Draining the queue only writes to the log. -/
theorem noInsert_drainTo (q : List ChangeEvent) : (QueueHandler.drainTo q).Calls NoInsert :=
  (calls_drainTo q).mono fun e he => by
    rintro conn t columns values rfl
    cases he

/-! ## The copy -/

section Specs

variable {H : HostedDb} {V : String → Set Row} {T : Set String}
  {changes : LocalDb C.table → LocalDb C.table → Prop}
  (hchanges : ∀ L L', changes L L' → Within C V L L')

include hchanges

/-- A program that has returned. -/
private theorem spec_pure {α : Type} {a : α} {c : α → Prop} (hc : c a) :
    (databases C changes).Spec (Safe H V T) (fun _ => True) (pure a : Code α) fun a _ => c a :=
  (World.Spec.ret (stable_safe hchanges) (World.stable_const (c a))).pre fun _ _ _ => hc

/-- A retried statement: what a call leaves and answers, the loop leaves and returns. -/
private theorem spec_executeWithRetry (conn : Conn) (query : Stmt) (good : PGresult → Prop)
    (hcall : ∀ w r w', Safe H V T w → (databases C changes).step w (.pqexec conn query) r w' →
      Safe H V T w' ∧ ∀ res, r = some res →
        res.status = .commandOk ∨ res.status = .tuplesOk → good res) :
    (databases C changes).Spec (Safe H V T) (fun _ => True) (executeWithRetry conn query)
      fun res _ => ∀ r, res = some r → good r := by
  -- an attempt hands on a good result, or none
  have hattempt : ∀ a res, (databases C changes).Spec (Safe H V T) (fun _ => True)
      (attemptQuery conn query a res)
      fun x _ => (∀ r, x.2 = some r → good r) ∧ (x.1 = false → x.2 = none) := by
    intro a res
    refine World.Spec.bind (Q := fun r _ => ∀ res, r = some res →
      res.status = .commandOk ∨ res.status = .tuplesOk → good res) ?_ fun r => ?_
    · exact World.Spec.perform (stable_safe hchanges) (World.stable_const _)
        (fun _ => World.stable_const _) fun w r w' hw _ hs => hcall w r w' hw hs
    · apply World.Spec.of_fact
      intro hr
      split
      · -- good status: the result is handed on, success
        rename_i hok
        refine spec_pure hchanges ⟨?_, by simp⟩
        intro res hres
        obtain rfl : r = some res := hres
        exact hr res rfl hok
      · -- failure: a log line, then null
        refine World.Spec.bind (spec_of_noInsert hchanges (noInsert_log _)) fun _ => ?_
        exact spec_pure hchanges ⟨by simp, by simp⟩
  have hloop : ∀ n a delay, (databases C changes).Spec (Safe H V T) (fun _ => True)
      (backoffLoop (attemptQuery conn query) n a delay none)
      fun res _ => ∀ r, res = some r → good r := by
    intro n
    induction n with
    | zero =>
      intro a delay
      exact spec_pure hchanges (by simp)
    | succ n ih =>
      intro a delay
      refine World.Spec.bind (hattempt _ _) fun x => ?_
      apply World.Spec.of_fact
      rintro ⟨hgood, hnone⟩
      obtain ⟨success, res⟩ := x
      cases success with
      | true => exact spec_pure hchanges hgood
      | false =>
        -- a failed attempt leaves no result, so the next one starts as the first did
        obtain rfl : res = none := hnone rfl
        exact World.Spec.bind (spec_of_noInsert hchanges (noInsert_sleepFor _)) fun _ => ih _ _
  exact hloop 3 0 100

/-- Encoding gives the rows as an INSERT carries them. -/
private theorem spec_encode (rows : List Row) :
    (databases C changes).Spec (Safe H V T) (fun _ => True) (rows.mapM encodeRow)
      fun inserts _ => inserts = encoded rows := by
  have hmapM : ∀ {α β : Type} (f : α → Code β) (g : α → β)
      (_ : ∀ a, (databases C changes).Spec (Safe H V T) (fun _ => True) (f a)
        fun b _ => b = g a) (l : List α),
      (databases C changes).Spec (Safe H V T) (fun _ => True) (l.mapM f)
        fun bs _ => bs = l.map g := by
    intro α β f g hf l
    induction l with
    | nil => exact spec_pure hchanges rfl
    | cons a l ih =>
      rw [List.mapM_cons]
      refine World.Spec.bind (hf a) fun b => ?_
      apply World.Spec.of_fact
      rintro rfl
      refine World.Spec.bind ih fun bs => ?_
      apply World.Spec.of_fact
      rintro rfl
      exact spec_pure hchanges rfl
  have hcell : ∀ c : Cell, (databases C changes).Spec (Safe H V T) (fun _ => True)
      (encodeCell c) fun v _ => v = SqlValue.ofCell c := by
    intro c
    cases c with
    | none => exact spec_pure hchanges rfl
    | some val =>
      refine World.Spec.bind (Q := fun escaped _ => escaped = true) ?_ fun escaped => ?_
      · refine World.Spec.perform (stable_safe hchanges) (World.stable_const _)
          (fun _ => World.stable_const _) ?_
        intro w r w' hw _ hs
        exact ⟨safe_of_step hw (fun _ _ _ _ h => by cases h) hs, hs.1⟩
      · apply World.Spec.of_fact
        rintro rfl
        exact spec_pure hchanges rfl
  exact hmapM encodeRow _ (fun r => hmapM encodeCell _ hcell r) rows

/-- A batch of row versions keeps the invariant. -/
private theorem spec_sendChunk {t : String} (ht : t ∈ T) {rows : List Row}
    (hrows : ∀ r ∈ rows, r ∈ V t ∧ r.length = (C.table t).columns.length) :
    (databases C changes).Spec (Safe H V T) (fun _ => True)
      (sendChunk t (C.table t).columns rows) fun _ _ => True := by
  refine World.Spec.bind (spec_encode hchanges rows) fun inserts => ?_
  apply World.Spec.of_fact
  rintro rfl
  have hsend := spec_executeWithRetry (H := H) hchanges .hosted_ (batchInsert C t rows)
    (fun _ => True) fun w r w' hw hs => ⟨safe_of_insert hw ht hrows hs, fun _ _ _ => trivial⟩
  -- a batch that failed three times is logged and given up
  refine World.Spec.bind hsend fun res => ?_
  apply World.Spec.of_fact
  intro _
  split
  · exact spec_of_noInsert hchanges (noInsert_log _)
  · exact spec_pure hchanges trivial

/-- The rows of a page are versions of rows of its table. -/
private theorem spec_readPage (t : String) (pk : List String) (offset : Int32) :
    (databases C changes).Spec (Safe H V T) (fun _ => True)
      (executeWithRetry .local_ (.selectPage t pk pageSize offset))
      fun res _ => ∀ r, res = some r → ∃ rows, r = tuplesResult (C.table t).columns rows ∧
        ∀ row ∈ rows, row ∈ V t ∧ row.length = (C.table t).columns.length := by
  apply spec_executeWithRetry hchanges
  intro w r w' hw hs
  refine ⟨safe_of_step hw (fun _ _ _ _ h => by cases h) hs, ?_⟩
  rintro res rfl hok
  obtain ⟨outcome, hr, -⟩ := hs
  -- the answer is a reported failure, or the page itself
  have hpage : res = failureResult ∨
      ∃ H', serve C w.localDb w.hosted .local_ (.selectPage t pk pageSize offset) =
        some (res, H') := by
    rcases respond_cases hr with ⟨hfailed, -⟩ | ⟨res', hserve, hres | hfailed⟩
    · exact Or.inl (Option.some.inj hfailed)
    · exact Or.inr ⟨_, Option.some.inj hres ▸ hserve⟩
    · exact Or.inl (Option.some.inj hfailed)
  rcases hpage with rfl | ⟨H', hserve⟩
  · exact absurd hok (by decide)
  · rw [serve] at hserve
    split_ifs at hserve
    obtain ⟨rfl, -⟩ := Prod.mk.inj (Option.some.inj hserve)
    -- the rows are versions now; later changes of the table do not matter
    refine ⟨_, rfl, fun row hrow => ?_⟩
    have hmem := List.mem_of_mem_drop (List.mem_of_mem_take hrow)
    exact ⟨hw.versions t row hmem, (w.localDb t).width row hmem⟩

/-- The page loop keeps the invariant. The induction is on the page budget. -/
private theorem spec_pageLoop {t : String} (ht : t ∈ T) (pk : List String) (fuel : Nat)
    (offset totalRows : Int32) :
    (databases C changes).Spec (Safe H V T) (fun _ => True)
      (pageLoop t pk fuel offset totalRows) fun _ _ => True := by
  induction fuel generalizing offset totalRows with
  | zero => exact World.Spec.cut (stable_safe hchanges)
  | succ fuel ih =>
    refine World.Spec.bind (spec_readPage hchanges t pk offset) fun res => ?_
    apply World.Spec.of_fact
    intro hpage
    split
    · -- the page could not be read
      refine World.Spec.bind (spec_of_noInsert hchanges (noInsert_log _)) fun _ => ?_
      exact spec_pure hchanges trivial
    · rename_i hok
      cases res with
      | none => exact absurd (by decide) hok
      | some res =>
        obtain ⟨rows, rfl, hrows⟩ := hpage res rfl
        dsimp only
        split
        · exact spec_pure hchanges trivial
        · -- a page with rows: its batches, then the next page
          have hloop : (databases C changes).Spec (Safe H V T) (fun _ => True)
              (rowLoop t (C.table t).columns rows []) fun _ _ => True := by
            rw [rowLoop_eq_sendChunks]
            refine World.Spec.forM _ (stable_safe hchanges) (World.stable_const _)
              fun chunk hchunk => ?_
            obtain ⟨b, rfl, -⟩ := (mem_chunks (by decide)).1 hchunk
            exact spec_sendChunk hchanges ht fun r hr =>
              hrows r (List.mem_of_mem_drop (List.mem_of_mem_take hr))
          refine World.Spec.bind hloop fun _ => ?_
          refine World.Spec.bind (spec_of_noInsert hchanges (noInsert_log _)) fun _ => ?_
          exact ih _ _

/-- **The copy keeps the invariant** at every point, when `T` has the tables with keys. -/
theorem spec_initialSync (fuel : Nat) {tracker : TableTracker}
    (hT : ∀ t ∈ tracker.trackedTables, tracker.getPrimaryKeys t ≠ [] → t ∈ T) :
    (databases C changes).Spec (Safe H V T) (fun _ => True) (initialSync fuel tracker)
      fun _ _ => True := by
  have htable : ∀ t ∈ tracker.trackedTables,
      (databases C changes).Spec (Safe H V T) (fun _ => True) (syncTable fuel tracker t)
        fun _ _ => True := by
    intro t ht
    unfold syncTable
    dsimp only
    split
    · exact spec_of_noInsert hchanges (noInsert_log _)
    · rename_i hpk
      have htT : t ∈ T := hT t ht (by simpa using hpk)
      refine World.Spec.bind (spec_of_noInsert hchanges (noInsert_log _)) fun _ => ?_
      refine World.Spec.bind (spec_pageLoop hchanges htT _ _ _ _) fun _ => ?_
      exact spec_of_noInsert hchanges (noInsert_log _)
  refine World.Spec.bind (spec_of_noInsert hchanges (noInsert_log _)) fun _ => ?_
  refine World.Spec.bind (World.Spec.forM _ (stable_safe hchanges) (World.stable_const _) htable)
    fun _ => ?_
  exact spec_of_noInsert hchanges (noInsert_log _)

/-- **A call of `start` keeps the invariant**, with any tables. -/
theorem spec_start (fuel : Nat) (m : ReplicationManager) :
    (databases C changes).Spec (Safe H V Set.univ) (fun _ => True) (m.start fuel)
      fun _ _ => True := by
  refine World.Spec.bind (spec_of_noInsert hchanges (noInsert_log _)) fun _ => ?_
  refine World.Spec.bind (spec_of_noInsert hchanges noInsert_healthCheck) fun health => ?_
  split
  · refine World.Spec.bind (spec_of_noInsert hchanges (noInsert_log _)) fun _ => ?_
    exact spec_pure hchanges trivial
  · refine World.Spec.bind (spec_of_noInsert hchanges (noInsert_discoverTables _))
      fun tracker => ?_
    -- after the copy, or without it, only the queue is drained
    have hrest : (databases C changes).Spec (Safe H V Set.univ) (fun _ => True)
        (do
          let queue ← QueueHandler.drainTo ((tracker.fetchChanges m.config.batchSize).foldl
            QueueHandler.enqueue m.queue)
          return { m with tracker, queue, initialSyncDone := true } : Code ReplicationManager)
        fun _ _ => True :=
      World.Spec.bind (spec_of_noInsert hchanges (noInsert_drainTo _)) fun _ =>
        spec_pure hchanges trivial
    dsimp only
    split
    · exact World.Spec.bind
        (spec_initialSync hchanges fuel fun _ _ _ => Set.mem_univ _) fun _ => hrest
    · exact hrest

end Specs

end SyncLayer.Copy
