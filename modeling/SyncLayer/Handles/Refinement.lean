import SyncLayer.Handles.Erasure
import SyncLayer.Statements.Texts

/-!
# The Code as It Is Written

Two things stand between the code and `SyncLayer.Model`: its results are pointers that have
to be given back, and its statements are texts. Here both are put together. Against servers
that get texts and hand out pointers, any sequence of calls of the manager does what the
model does with statements and data, and gives every pointer back once
(`serve_refines`). So the results about the model are results about the code.
-/

namespace SyncLayer.Handles

open SyncLayer.Interaction SyncLayer.Model SyncLayer.Database SyncLayer.HandleTrace
open SyncLayer.Statements
open SyncLayer.Discovery (plainWord_public)
open SyncLayer.Sql (PlainTable)

/-! ## Calls of the manager on plain data -/

/-- The calls that `serve` makes, in the model. -/
def serveData : List Request → ReplicationManager → Model.Code ReplicationManager
  | [], m => return m
  | .start fuel :: requests, m => do
    let m ← m.start fuel
    serveData requests m
  | .healthCheck :: requests, m => do
    let _ ← Model.healthCheck
    serveData requests m

theorem sim_serve {W : Type} {h : Prog.Handler Call Call.Reply W} (hh : Tabular h)
    (requests : List Request) (m : ReplicationManager) (w : W) (l : Ledger) :
    Sim h Same (serve requests m) (serveData requests m) w l := by
  induction requests generalizing m w l with
  | nil => exact Sim.pure rfl
  | cons request requests ih =>
    cases request with
    | start fuel =>
      apply (sim_start hh fuel m).bind
      rintro m' _ w' l' - rfl
      exact ih m' w' l'
    | healthCheck =>
      apply (sim_healthCheck hh).bind
      intro _ _ w' l' _ _
      exact ih m w' l'

/-- The configuration stays what it was, and with it the tables that are to be tracked. -/
theorem obeys_serveData (requests : List Request) {m : ReplicationManager}
    (hconfig : ∀ t ∈ m.config.tables, PlainTable t.toList) :
    (serveData requests m).Obeys readableStatements (fun _ _ => True) () := by
  induction requests generalizing m with
  | nil => trivial
  | cons request requests ih =>
    cases request with
    | start fuel =>
      apply Prog.Obeys.bind
      apply (obeys_start_texts fuel hconfig).mono
      intro m' _ hsame
      apply ih
      rw [hsame]
      exact hconfig
    | healthCheck =>
      apply Prog.Obeys.bind
      apply obeys_healthCheck_texts.mono
      intro _ _ _
      exact ih hconfig

/-! ## Rectangular answers -/

/-- What a server cannot read it answers with a failure, which has no rows. -/
theorem tabular_overTexts {W : Type} {h : Prog.Handler Call Call.Reply W} (hh : Tabular h) :
    Tabular (overTexts h) := by
  intro conn query w
  change Rectangular (execText h conn query.text w).1
  rw [execText]
  cases ofText query.text with
  | none => simp [Rectangular, resultRows, failureResult]
  | some query' => exact hh conn query' w

section Databases

variable {C : Catalog} {L : LocalDb C.table} {H : HostedDb} {conn : Conn} {query : Stmt}

/-- A result with one column. -/
private theorem rectangular_column (name : String) (texts : List String) :
    Rectangular (some (tuplesResult [name] (texts.map fun text => [some text]))) := by
  intro row hrow
  obtain ⟨text, -, rfl⟩ := List.mem_map.1 hrow
  rfl

theorem rectangular_serve {res : PGresult} {H' : HostedDb}
    (hserve : Database.serve C L H conn query = some (res, H')) : Rectangular (some res) := by
  cases query with
  | selectOne =>
    cases hserve
    exact rectangular_column "?column?" ["1"]
  | countConnections =>
    cases hserve
    exact rectangular_column "count" [C.metric conn .countConnections]
  | databaseSize =>
    cases hserve
    exact rectangular_column "?column?" [C.metric conn .databaseSize]
  | countActiveQueries =>
    cases hserve
    exact rectangular_column "count" [C.metric conn .countActiveQueries]
  | listTables =>
    cases conn with
    | local_ =>
      cases hserve
      exact rectangular_column "table_name" C.publicTables
    | hosted_ => cases hserve
  | primaryKey schema name =>
    cases conn with
    | local_ =>
      cases hserve
      exact rectangular_column "column_name" (C.keyColumns schema name)
    | hosted_ => cases hserve
  | selectPage t orderBy limit offset =>
    cases conn with
    | local_ =>
      simp only [Database.serve] at hserve
      split at hserve
      · cases hserve
        intro row hrow
        exact (L t).width row (List.mem_of_mem_drop (List.mem_of_mem_take hrow))
      · cases hserve
    | hosted_ => cases hserve
  | insert t columns values =>
    cases conn with
    | local_ => cases hserve
    | hosted_ =>
      cases hserve
      simp [Rectangular, resultRows, commandResult]

theorem tabular_handler (b : Behaviour C) : Tabular b.handler := by
  intro conn query s
  have hfailure : Rectangular (some failureResult) := by
    simp [Rectangular, resultRows, failureResult]
  change Rectangular (respond C (b.localDb s query) s.hosted conn query _).1
  rcases hr : respond C (b.localDb s query) s.hosted conn query _ with ⟨r, H'⟩
  obtain ⟨rfl, -⟩ | ⟨res, hserve, rfl | rfl⟩ := Copy.respond_cases hr
  · exact hfailure
  · exact rectangular_serve hserve
  · exact hfailure

end Databases

/-! ## Both layers -/

/-- **Refinement**: over servers that read texts, with pointers for their results, the calls
    of the manager have the runs of the model over the same servers with statements and
    data. When they have returned, every pointer that was handed out has been given back
    once, and none has been used after that. -/
theorem serve_refines {W : Type} {h : Prog.Handler Call Call.Reply W} (hh : Tabular h)
    (hplain : ∀ conn query w, PlainAnswer query (h (.pqexec conn query) w).1)
    {m : ReplicationManager} (hconfig : ∀ t ∈ m.config.tables, PlainTable t.toList)
    (requests : List Request) (w : W) :
    ∃ l : Ledger,
      (serve requests m).run (lift (overTexts h)) (w, {}) =
        (((serveData requests m).run h w).1, ((serveData requests m).run h w).2, l) ∧
      (((serveData requests m).run h w).1.isSome →
        Sound l.trace ∧ ∀ x, .got x ∈ l.trace → l.trace.count (.released x) = 1) := by
  obtain ⟨l, hrun⟩ := (sim_serve (tabular_overTexts hh) requests m w {}).run_eq
  rw [run_overTexts hplain (obeys_serveData requests hconfig)] at hrun
  refine ⟨l, hrun, fun hreturns => ?_⟩
  obtain ⟨m', hm'⟩ := Option.isSome_iff_exists.1 hreturns
  rw [hm'] at hrun
  -- what has returned holds nothing any more
  have hwp : (Prog.ret m' : Code ReplicationManager).wp ledger Ok (fun _ => Owns []) l :=
    Prog.wp_reach (reach_of_run_lift hrun) (spec_serve requests m {} trivial holds_nil)
  have hsound : Sound l.trace := Prog.wp_now (I := Ok) hwp
  exact ⟨hsound, fun x hgot => hsound.count_released (hwp l .refl).2 hgot⟩

/-- A call of `start` that copies a row, and a health check after it. -/
theorem serve_refines_users :
    let users : Behaviour (nodeCatalog ["users"]) := Oracle.allAcked.behaviour
      (nodesIn ["users"] "public.users" (.single nodeTable [some "1", none] rfl))
    ∃ m' s l, (serve [.start 2, .healthCheck] usersManager).run (lift (overTexts users.handler))
        ({ hosted := .empty }, {}) = (some m', s, l) ∧
      s.hosted "public.users" [some "1"] = some [some "1", none] ∧
      ∀ x, .got x ∈ l.trace → l.trace.count (.released x) = 1 := by
  intro users
  have hreturns : ((serveData [.start 2, .healthCheck] usersManager).run users.handler
      { hosted := .empty }).1.isSome = true := by decide +kernel
  have hrow : ((serveData [.start 2, .healthCheck] usersManager).run users.handler
      { hosted := .empty }).2.hosted "public.users" [some "1"] = some [some "1", none] := by
    decide +kernel
  have hplain : ∀ conn query s, PlainAnswer query (users.handler (.pqexec conn query) s).1 :=
    fun conn query s => plainCatalog_nodes.plainAnswer (users.outcome s conn query)
  have hconfig : ∀ t ∈ usersManager.config.tables, PlainTable t.toList := by
    intro t ht
    obtain rfl := List.mem_singleton.1 ht
    exact .qualified plainWord_public plainWord_users
  obtain ⟨l, hrun, hreleased⟩ := serve_refines (tabular_handler users) hplain hconfig
    [.start 2, .healthCheck] { hosted := .empty }
  obtain ⟨m', hm'⟩ := Option.isSome_iff_exists.1 hreturns
  rw [hm'] at hrun
  exact ⟨m', _, l, hrun, hrow, (hreleased hreturns).2⟩

end SyncLayer.Handles
