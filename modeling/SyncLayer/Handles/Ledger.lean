import SyncLayer.Handles.Program
import SyncLayer.Library.HandleTrace

/-!
# Every Handle Is Released Exactly Once

The handles of libpq under an arbitrary server: a query or an escape returns null or a
fresh handle, and a result holds any data at all. The ledger keeps the trace of what the
code does with the handles it gets.

A function is specified by the handles that are held before and after it. For
`executeWithRetry` that is one more, unless the result is null; for everything above it
the balance is zero.
-/

namespace SyncLayer.Handles

open Relation SyncLayer.Interaction SyncLayer.Model SyncLayer.HandleTrace

/-! ## libpq -/

structure Ledger where
  /-- Newest first. -/
  trace : List (Event Nat) := []
  /-- The data of the results. -/
  content : Nat → Option PGresult := fun _ => none

/-- The handle is used; null leaves no trace. -/
def Ledger.note (w : Ledger) (ev : Nat → Event Nat) : Ptr → Ledger
  | none => w
  | some h => { w with trace := ev h :: w.trace }

/-- The pointer is null, or a fresh handle for `data`. -/
def Ledger.HandsOut (w : Ledger) (data : Option PGresult) : Ptr → Ledger → Prop
  | none, w' => w' = w
  | some h, w' => .got h ∉ w.trace ∧
      w' = { trace := .got h :: w.trace, content := Function.update w.content h data }

/-- libpq and a server that replies in any way. -/
def ledger : World Op Op.Reply Ledger where
  step w
    | .pqexec _ _, res, w' => ∃ data, w.HandsOut (some data) res w'
    | .read res f, r, w' => r = f.get (res.bind w.content) ∧ w' = w.note .read res
    | .clear res, _, w' => w' = w.note .released res
    | .escapeLiteral source _, buffer, w' => (w.note .read source).HandsOut none buffer w'
    | .readBuffer buffer, _, w' => w' = w.note .read buffer
    | .freemem buffer, _, w' => w' = w.note .released buffer
    | .sleepFor _, _, w' => w' = w
    | .log _, _, w' => w' = w
  drift _ _ := False

theorem ledger_stable (P : Ledger → Prop) : ledger.Stable P := fun _ _ hd => hd.elim

/-- Nothing has been used that was not held. -/
def Ok (w : Ledger) : Prop := Sound w.trace

/-- The handles in `L` are held. -/
def Owns (L : List Nat) (w : Ledger) : Prop := Holds w.trace L

/-- In `L`, unless it is null. -/
def Ptr.In (res : Ptr) (L : List Nat) : Prop := ∀ h ∈ res, h ∈ L

theorem Ptr.in_self (res : Ptr) (L : List Nat) : Ptr.In res (res.toList ++ L) :=
  fun _ hh => List.mem_append_left _ (Option.mem_toList.2 hh)

theorem Ptr.In.append {res : Ptr} {L : List Nat} (hres : Ptr.In res L) (L' : List Nat) :
    Ptr.In res (L' ++ L) :=
  fun h hh => List.mem_append_right _ (hres h hh)

/-! ## Ledger entries -/

section Entries

variable {w w' : Ledger} {L : List Nat} {ptr : Ptr} {data : Option PGresult}

theorem ok_handsOut (hw : Ok w) (hL : Owns L w) (h : w.HandsOut data ptr w') :
    Ok w' ∧ Owns (ptr.toList ++ L) w' := by
  cases ptr with
  | none =>
    cases h
    exact ⟨hw, hL⟩
  | some handle =>
    obtain ⟨hfresh, rfl⟩ := h
    exact ⟨⟨hfresh, hw⟩, hL.got hw hfresh⟩

theorem ok_read (hw : Ok w) (hL : Owns L w) (hptr : ptr.In L) :
    Ok (w.note .read ptr) ∧ Owns L (w.note .read ptr) := by
  cases ptr with
  | none => exact ⟨hw, hL⟩
  | some handle => exact ⟨⟨(hL.mem_iff handle).1 (hptr handle rfl), hw⟩, hL.read⟩

theorem ok_released (hw : Ok w) (hL : Owns (ptr.toList ++ L) w) :
    Ok (w.note .released ptr) ∧ Owns L (w.note .released ptr) := by
  cases ptr with
  | none => exact ⟨hw, hL⟩
  | some handle => exact ⟨⟨(hL.mem_iff handle).1 (List.mem_cons_self ..), hw⟩, hL.released⟩

end Entries

/-! ## Triples for the calls -/

section Calls

variable {L : List Nat} {res buffer : Ptr}

theorem spec_PQexec (conn : Conn) (query : Stmt) :
    ledger.Spec Ok (Owns L) (PQexec conn query) fun res => Owns (res.toList ++ L) :=
  World.Spec.perform (ledger_stable _) (ledger_stable _) (fun _ => ledger_stable _)
    fun _ _ _ hw hL hstep => ok_handsOut hw hL hstep.choose_spec

theorem spec_read (hres : res.In L) (f : Field) :
    ledger.Spec Ok (Owns L) (.perform (Op.read res f)) fun _ => Owns L :=
  World.Spec.perform (ledger_stable _) (ledger_stable _) (fun _ => ledger_stable _)
    fun _ _ _ hw hL hstep => hstep.2 ▸ ok_read hw hL hres

theorem spec_PQclear :
    ledger.Spec Ok (Owns (res.toList ++ L)) (PQclear res) fun _ => Owns L :=
  World.Spec.perform (ledger_stable _) (ledger_stable _) (fun _ => ledger_stable _)
    fun w _ w' hw hL (hstep : w' = w.note .released res) => hstep ▸ ok_released hw hL

theorem spec_PQescapeLiteral (hres : res.In L) (text : String) :
    ledger.Spec Ok (Owns L) (PQescapeLiteral res text) fun buffer => Owns (buffer.toList ++ L) :=
  World.Spec.perform (ledger_stable _) (ledger_stable _) (fun _ => ledger_stable _)
    fun _ _ _ hw hL hstep =>
      ok_handsOut (ok_read hw hL hres).1 (ok_read hw hL hres).2 hstep

theorem spec_append (hbuffer : buffer.In L) :
    ledger.Spec Ok (Owns L) (append buffer) fun _ => Owns L :=
  World.Spec.perform (ledger_stable _) (ledger_stable _) (fun _ => ledger_stable _)
    fun w _ w' hw hL (hstep : w' = w.note .read buffer) => hstep ▸ ok_read hw hL hbuffer

theorem spec_PQfreemem :
    ledger.Spec Ok (Owns (buffer.toList ++ L)) (PQfreemem buffer) fun _ => Owns L :=
  World.Spec.perform (ledger_stable _) (ledger_stable _) (fun _ => ledger_stable _)
    fun w _ w' hw hL (hstep : w' = w.note .released buffer) => hstep ▸ ok_released hw hL

theorem spec_sleepFor (milliseconds : Int64) :
    ledger.Spec Ok (Owns L) (sleepFor milliseconds) fun _ => Owns L :=
  World.Spec.perform (ledger_stable _) (ledger_stable _) (fun _ => ledger_stable _)
    fun w _ w' hw hL (hstep : w' = w) => hstep ▸ ⟨hw, hL⟩

theorem spec_log (line : LogLine) : ledger.Spec Ok (Owns L) (log line) fun _ => Owns L :=
  World.Spec.perform (ledger_stable _) (ledger_stable _) (fun _ => ledger_stable _)
    fun w _ w' hw hL (hstep : w' = w) => hstep ▸ ⟨hw, hL⟩

theorem spec_pure {α : Type} (a : α) :
    ledger.Spec Ok (Owns L) (pure a : Code α) fun _ => Owns L :=
  World.Spec.ret (Q := fun _ => Owns L) (ledger_stable _) (ledger_stable _)

end Calls

/-! ## Statements with retry -/

section Functions

variable {L : List Nat} {res : Ptr}

theorem spec_succeeded (hres : res.In L) :
    ledger.Spec Ok (Owns L) (succeeded res) fun _ => Owns L := by
  refine (spec_read hres .status).bind fun status => ?_
  split
  · exact spec_pure true
  · refine (spec_read hres .status).bind fun status => ?_
    exact spec_pure _

/-- An attempt that succeeds hands its result on, one that fails has cleared it. -/
theorem spec_attemptQuery (conn : Conn) (query : Stmt) (attempt : Int) (res : Ptr) :
    ledger.Spec Ok (fun w => res = none ∧ Owns L w) (attemptQuery conn query attempt res)
      fun x => if x.1 then Owns (x.2.toList ++ L) else fun w => x.2 = none ∧ Owns L w := by
  refine ((spec_PQexec conn query).pre fun _ _ hL => hL.2).bind fun res => ?_
  refine (spec_succeeded (res.in_self L)).bind fun success => ?_
  cases success with
  | true => exact World.Spec.ret (ledger_stable _) (ledger_stable _)
  | false =>
    refine (spec_log _).bind fun _ => spec_PQclear.bind fun _ => ?_
    refine World.Spec.pre (World.Spec.ret (ledger_stable _) (ledger_stable _)) ?_
    exact fun _ _ hL => ⟨rfl, hL⟩

theorem spec_executeWithRetry (conn : Conn) (query : Stmt) (maxAttempts : Int) :
    ledger.Spec Ok (Owns L) (executeWithRetry conn query maxAttempts)
      fun res => Owns (res.toList ++ L) := by
  have hwait : ∀ (d : Int64) (res : Ptr), ledger.Spec Ok (fun w => res = none ∧ Owns L w)
      (sleepFor d) fun _ w => res = none ∧ Owns L w := by
    intro d res
    refine World.Spec.of_fact_and fun hnull => ?_
    exact (spec_sleepFor d).conseq (fun _ _ hL => hL) fun _ _ _ hL => ⟨hnull, hL⟩
  have hend : ∀ (res : Ptr) w, Ok w → (res = none ∧ Owns L w) → Owns (res.toList ++ L) w := by
    rintro res w - ⟨rfl, hL⟩
    exact hL
  have hloop : ledger.Spec Ok (fun w => (none : Ptr) = none ∧ Owns L w)
      (executeWithRetry conn query maxAttempts) fun res => Owns (res.toList ++ L) :=
    World.Spec.backoff (ledger_stable Ok) (fun _ => ledger_stable _)
      (spec_attemptQuery conn query) hwait hend maxAttempts.toNat 0 100 none
  -- the loop starts with a null result
  exact hloop.pre fun _ _ hL => ⟨rfl, hL⟩

/-! ## The initial copy -/

theorem spec_encodeCell (hres : res.In L) (i j : Nat) :
    ledger.Spec Ok (Owns L) (encodeCell res i j) fun _ => Owns L := by
  refine (spec_read hres (.isnull i j)).bind fun isnull => ?_
  split
  · exact spec_pure _
  · refine (spec_read hres (.value i j)).bind fun val => ?_
    refine (spec_PQescapeLiteral hres val).bind fun escaped => ?_
    -- a buffer is held only until it has been appended
    cases escaped with
    | none => exact spec_pure _
    | some buffer =>
      refine (spec_append (Ptr.in_self (some buffer) L)).bind fun _ => ?_
      exact spec_PQfreemem.bind fun _ => spec_pure _

theorem spec_encodeRow (hres : res.In L) (nFields i : Nat) :
    ledger.Spec Ok (Owns L) (encodeRow res nFields i) fun _ => Owns L :=
  World.Spec.mapM _ (ledger_stable _) (ledger_stable _) fun j _ => spec_encodeCell hres i j

theorem spec_failed (hres : res.In L) (status : ExecStatus) :
    ledger.Spec Ok (Owns L) (failed res status) fun _ => Owns L := by
  unfold failed
  split
  · exact spec_pure _
  · exact (spec_read hres .status).bind fun _ => spec_pure _

/-- `if (res) PQclear(res)` -/
theorem spec_clearUnlessNull :
    ledger.Spec Ok (Owns (res.toList ++ L)) (if res.isSome then PQclear res else pure ())
      fun _ => Owns L := by
  cases res with
  | none => exact spec_pure _
  | some handle => exact spec_PQclear

theorem spec_sendBatch (hres : res.In L) (table : String) (nFields : Nat)
    (inserts : List (List SqlValue)) :
    ledger.Spec Ok (Owns L) (sendBatch table res nFields inserts) fun _ => Owns L := by
  refine (World.Spec.mapM _ (ledger_stable _) (ledger_stable _)
    fun j _ => spec_read hres (.fname j)).bind fun columns => ?_
  -- both results are held from here to the last line
  refine (spec_executeWithRetry _ _ _).bind fun insRes => ?_
  refine (spec_failed (insRes.in_self L) .commandOk).bind fun isFailed => ?_
  cases isFailed with
  | true => exact (spec_log _).bind fun _ => spec_clearUnlessNull
  | false => exact spec_clearUnlessNull

theorem spec_rowLoop (hres : res.In L) (table : String) (nFields : Nat) (rows : List Nat)
    (inserts : List (List SqlValue)) :
    ledger.Spec Ok (Owns L) (rowLoop table res nFields rows inserts) fun _ => Owns L := by
  induction rows generalizing inserts with
  | nil =>
    rw [rowLoop]
    split
    · exact spec_sendBatch hres table nFields _
    · exact spec_pure _
  | cons i rows ih =>
    refine (spec_encodeRow hres nFields i).bind fun values => ?_
    dsimp only
    split
    · exact (spec_sendBatch hres table nFields _).bind fun _ => ih _
    · exact ih _

/-- The loop leaves by its three exits, or goes on, with the page's result cleared. -/
theorem spec_pageLoop (table : String) (pk : List String) (fuel : Nat)
    (offset totalRows : Int32) :
    ledger.Spec Ok (Owns L) (pageLoop table pk fuel offset totalRows) fun _ => Owns L := by
  induction fuel generalizing offset totalRows with
  | zero => exact World.Spec.cut (ledger_stable _)
  | succ fuel ih =>
    refine (spec_executeWithRetry _ _ _).bind fun res => ?_
    have hres : res.In (res.toList ++ L) := res.in_self L
    refine (spec_failed hres .tuplesOk).bind fun isFailed => ?_
    cases isFailed with
    | true =>
      -- a failed page is cleared unless it is null
      refine (spec_log _).bind fun _ => ?_
      cases res with
      | none => exact spec_pure _
      | some handle => exact spec_PQclear.bind fun _ => spec_pure _
    | false =>
      refine (spec_read hres .ntuples).bind fun nRows => ?_
      dsimp only
      split
      · exact spec_PQclear.bind fun _ => spec_pure _
      · -- the rows are read from the result, which is still held
        refine (spec_read hres .nfields).bind fun nFields => ?_
        refine (spec_rowLoop hres table nFields _ []).bind fun _ => ?_
        exact spec_PQclear.bind fun _ => (spec_log _).bind fun _ => ih _ _

theorem spec_syncTable (fuel : Nat) (tracker : TableTracker) (table : String) :
    ledger.Spec Ok (Owns L) (syncTable fuel tracker table) fun _ => Owns L := by
  unfold syncTable
  dsimp only
  split
  · exact spec_log _
  · exact (spec_log _).bind fun _ => (spec_pageLoop table _ fuel 0 0).bind fun _ => spec_log _

theorem spec_initialSync (fuel : Nat) (tracker : TableTracker) :
    ledger.Spec Ok (Owns L) (initialSync fuel tracker) fun _ => Owns L := by
  refine (spec_log _).bind fun _ => ?_
  refine (World.Spec.forM _ (ledger_stable _) (ledger_stable _)
    fun table _ => spec_syncTable fuel tracker table).bind fun _ => ?_
  exact spec_log _

/-! ## Table discovery -/

theorem spec_firstColumn (hres : res.In L) :
    ledger.Spec Ok (Owns L) (firstColumn res) fun _ => Owns L :=
  (spec_read hres .ntuples).bind fun _ =>
    World.Spec.mapM _ (ledger_stable _) (ledger_stable _) fun i _ => spec_read hres (.value i 0)

theorem spec_listTables (config : Config) :
    ledger.Spec Ok (Owns L) (listTables config) fun _ => Owns L := by
  unfold listTables
  split
  · refine (spec_PQexec _ _).bind fun res => ?_
    have hres : res.In (res.toList ++ L) := res.in_self L
    refine (spec_read hres .status).bind fun status => ?_
    dsimp only
    split
    · refine (spec_firstColumn hres).bind fun names => ?_
      exact spec_PQclear.bind fun _ => spec_pure _
    · exact (spec_log _).bind fun _ => spec_PQclear.bind fun _ => spec_pure _
  · exact spec_pure _

theorem spec_lookupPrimaryKey (keys : String → Option (List String)) (table : String) :
    ledger.Spec Ok (Owns L) (lookupPrimaryKey keys table) fun _ => Owns L := by
  refine (spec_PQexec _ _).bind fun pkRes => ?_
  have hres : pkRes.In (pkRes.toList ++ L) := pkRes.in_self L
  refine (spec_read hres .status).bind fun status => ?_
  dsimp only
  split
  · refine (spec_firstColumn hres).bind fun pkColumns => ?_
    split
    · exact (spec_log _).bind fun _ => spec_PQclear.bind fun _ => spec_pure _
    · exact spec_PQclear.bind fun _ => spec_pure _
  · exact (spec_log _).bind fun _ => spec_PQclear.bind fun _ => spec_pure _

theorem spec_lookupPrimaryKeys (keys : String → Option (List String)) (tables : List String) :
    ledger.Spec Ok (Owns L) (lookupPrimaryKeys keys tables) fun _ => Owns L := by
  induction tables generalizing keys with
  | nil => exact spec_pure _
  | cons table tables ih => exact (spec_lookupPrimaryKey keys table).bind fun keys => ih keys

theorem spec_discoverTables (config : Config) :
    ledger.Spec Ok (Owns L) (discoverTables config) fun _ => Owns L := by
  refine (spec_listTables config).bind fun tables => ?_
  refine (spec_lookupPrimaryKeys _ tables).bind fun keys => ?_
  exact (spec_log _).bind fun _ => spec_pure _

/-! ## Health check -/

theorem spec_metric (hres : res.In L) :
    ledger.Spec Ok (Owns L) (metric res) fun _ => Owns L := by
  refine (spec_read hres .status).bind fun status => ?_
  split
  · refine (spec_read hres .ntuples).bind fun nRows => ?_
    split
    · exact (spec_read hres (.value 0 0)).bind fun _ => spec_pure _
    · exact spec_pure _
  · exact spec_pure _

/-- Between two queries the variable `res` holds nothing. -/
theorem spec_checkConnection (conn : Conn) :
    ledger.Spec Ok (Owns L) (checkConnection conn) fun _ => Owns L := by
  refine (spec_PQexec _ _).bind fun res => ?_
  refine (spec_read (res.in_self L) .status).bind fun status => ?_
  split
  · refine spec_PQclear.bind fun _ => (spec_PQexec _ _).bind fun res => ?_
    refine (spec_metric (res.in_self L)).bind fun connections => ?_
    refine spec_PQclear.bind fun _ => (spec_PQexec _ _).bind fun res => ?_
    refine (spec_metric (res.in_self L)).bind fun sizeMB => ?_
    refine spec_PQclear.bind fun _ => (spec_PQexec _ _).bind fun res => ?_
    refine (spec_metric (res.in_self L)).bind fun activeQueries => ?_
    exact spec_PQclear.bind fun _ => spec_pure _
  · exact (spec_log _).bind fun _ => spec_PQclear.bind fun _ => spec_pure _

theorem spec_healthCheck : ledger.Spec Ok (Owns L) healthCheck fun _ => Owns L := by
  refine (spec_log _).bind fun _ => ?_
  refine (spec_checkConnection .local_).bind fun localReport => ?_
  refine (spec_checkConnection .hosted_).bind fun hostedReport => ?_
  dsimp only
  split
  · exact (spec_log _).bind fun _ => spec_pure _
  · exact (spec_log _).bind fun _ => spec_pure _

/-! ## start -/

theorem spec_drainTo (q : List ChangeEvent) :
    ledger.Spec Ok (Owns L) (drainTo q) fun _ => Owns L := by
  have hloop : ∀ n, ledger.Spec Ok (Owns L) (drainLoop q n) fun _ => Owns L := by
    induction q with
    | nil => exact fun n => spec_pure _
    | cons ev q ih => exact fun n => (spec_log _).bind fun _ => ih (n + 1)
  exact (hloop 0).bind fun count => (spec_log _).bind fun _ => spec_pure _

theorem spec_start (fuel : Nat) (m : ReplicationManager) :
    ledger.Spec Ok (Owns L) (start fuel m) fun _ => Owns L := by
  refine (spec_log _).bind fun _ => spec_healthCheck.bind fun health => ?_
  split
  · exact (spec_log _).bind fun _ => spec_pure _
  · refine (spec_discoverTables m.config).bind fun tracker => ?_
    dsimp only
    split
    · refine (spec_initialSync fuel tracker).bind fun _ => ?_
      exact (spec_drainTo _).bind fun queue => spec_pure _
    · exact (spec_drainTo _).bind fun queue => spec_pure _

theorem spec_serve (requests : List Request) (m : ReplicationManager) :
    ledger.Spec Ok (Owns L) (serve requests m) fun _ => Owns L := by
  induction requests generalizing m with
  | nil => exact spec_pure _
  | cons request requests ih =>
    cases request with
    | start fuel => exact (spec_start fuel m).bind fun m => ih m
    | healthCheck => exact spec_healthCheck.bind fun _ => ih m

end Functions

/-! ## Whole runs -/

/-- **Ownership**: in every run of calls of the manager, under any replies, no handle is
    used that is not held; and when the outermost call has returned, every handle that
    was handed out has been released exactly once. -/
theorem handles_released_once (requests : List Request) (m : ReplicationManager)
    {p : Code ReplicationManager} {w : Ledger}
    (hrun : ReflTransGen ledger.Step (serve requests m, {}) (p, w)) :
    Sound w.trace ∧ ∀ m', p = .ret m' →
      ∀ h, .got h ∈ w.trace → w.trace.count (.released h) = 1 := by
  -- what is left of the program is still specified, at every point of the run
  have hwp : p.wp ledger Ok (fun _ => Owns []) w :=
    Prog.wp_reach hrun (spec_serve requests m {} trivial holds_nil)
  have hsound : Sound w.trace := Prog.wp_now (I := Ok) hwp
  refine ⟨hsound, ?_⟩
  rintro m' rfl h hgot
  have hnone : Owns [] w := (hwp w .refl).2
  exact hsound.count_released hnone hgot

/-! ## Servers that answer with data -/

section Lift

variable {W : Type}

def Ledger.handOut (l : Ledger) (data : Option PGresult) : Ledger where
  trace := .got (next l.trace) :: l.trace
  content := Function.update l.content (next l.trace) data

/-- An environment for the code of `SyncLayer.Model`, with libpq in between: it hands out
    handles for the data that the environment returns. -/
def lift (h : Prog.Handler Call Call.Reply W) : Prog.Handler Op Op.Reply (W × Ledger)
  | .pqexec conn query, (w, l) =>
    match h (.pqexec conn query) w with
    | (none, w) => (none, w, l)
    | (some res, w) => (some (next l.trace), w, l.handOut (some res))
  | .read res f, (w, l) => (f.get (res.bind l.content), w, l.note .read res)
  | .clear res, (w, l) => ((), w, l.note .released res)
  | .escapeLiteral source text, (w, l) =>
    match h (.pqescapeLiteral text) w with
    | (false, w) => (none, w, l.note .read source)
    | (true, w) => (some (next (l.note .read source).trace), w,
        (l.note .read source).handOut none)
  | .readBuffer buffer, (w, l) => ((), w, l.note .read buffer)
  | .freemem buffer, (w, l) => ((), w, l.note .released buffer)
  | .sleepFor milliseconds, (w, l) => ((), (h (.sleepFor milliseconds) w).2, l)
  | .log line, (w, l) => ((), (h (.log line) w).2, l)

theorem ledger_lift (h : Prog.Handler Call Call.Reply W) (x : W × Ledger) (e : Op) :
    ledger.step x.2 e (lift h e x).1 (lift h e x).2.2 := by
  obtain ⟨w, l⟩ := x
  cases e with
  | pqexec conn query =>
    simp only [lift]
    split
    · exact ⟨⟨.fatalError, [], []⟩, rfl⟩
    · next res w' _ => exact ⟨res, got_next_notMem _, rfl⟩
  | read res f => exact ⟨rfl, rfl⟩
  | clear res => exact rfl
  | escapeLiteral source text =>
    simp only [lift]
    split
    · exact rfl
    · exact ⟨got_next_notMem _, rfl⟩
  | readBuffer buffer => exact rfl
  | freemem buffer => exact rfl
  | sleepFor milliseconds => exact rfl
  | log line => exact rfl

/-- A run against such a server is one of the runs of the ledger. -/
theorem reach_of_run_lift {h : Prog.Handler Call Call.Reply W} {α : Type} {p : Code α} {a : α}
    {w w' : W} {l l' : Ledger} (hrun : p.run (lift h) (w, l) = (some a, w', l')) :
    ReflTransGen ledger.Step (p, l) (.ret a, l') :=
  World.reach_of_run (fun x : W × Ledger => x.2) (ledger_lift h) hrun

end Lift

/-- A server with one table of one row, and a destination that answers INSERT with null. -/
def oneRow : Prog.Handler Call Call.Reply Unit
  | .pqexec _ (.insert ..), _ => (none, ())
  | .pqexec _ (.selectPage _ _ _ offset), _ =>
    (some ⟨.tuplesOk, ["id"], if offset = 0 then [[some "1"]] else []⟩, ())
  | .pqexec _ .listTables, _ => (some ⟨.tuplesOk, ["table_name"], [[some "t"]]⟩, ())
  | .pqexec _ (.primaryKey ..), _ => (some ⟨.tuplesOk, ["column_name"], [[some "id"]]⟩, ())
  | .pqexec _ _, _ => (some ⟨.tuplesOk, ["count"], [[some "7"]]⟩, ())
  | .pqescapeLiteral _, _ => (true, ())
  | .sleepFor _, _ => ((), ())
  | .log _, _ => ((), ())

def oneRowRun : Option ReplicationManager × Unit × Ledger :=
  (serve [.start 2, .healthCheck] { config := { localConn := "", hostedConn := "" } }).run
    (lift oneRow) ((), {})

theorem handles_released_once_oneRow : ∃ m' l,
    ReflTransGen ledger.Step
      (serve [.start 2, .healthCheck] { config := { localConn := "", hostedConn := "" } }, {})
      (.ret m', l) ∧
    next l.trace = 21 ∧ Sound l.trace ∧ l.trace.count (.released 12) = 1 := by
  have hsome : oneRowRun.1.isSome = true := by decide +kernel
  obtain ⟨m', hm⟩ := Option.isSome_iff_exists.1 hsome
  have hrun : oneRowRun = (some m', (), oneRowRun.2.2) := Prod.ext hm rfl
  have hreach := reach_of_run_lift hrun
  have hrelease := handles_released_once _ _ hreach
  exact ⟨m', _, hreach, by decide +kernel, hrelease.1, hrelease.2 m' rfl 12 (by decide +kernel)⟩

end SyncLayer.Handles
