import SyncLayer.Handles.Ledger

/-!
# Forgetting the Handles

Against a server that answers with data, the code with its pointers does what the code of
`SyncLayer.Model` does: it leaves the same world and returns the same value. So what
is proved about `SyncLayer.Model`, where results are plain data, holds of the code as it
is written.

The simulation relates a program with handles to one without. Reading a result or giving
it back is a step of the left side only (`Yields`); queries, escapes, waits and log lines
are steps of both.
-/

namespace SyncLayer.Handles

open SyncLayer.Interaction SyncLayer.Model SyncLayer.HandleTrace

variable {W : Type} {α β γ δ : Type}

/-! ## What a handle stands for -/

/-- Everything handed out in `l` is known in `l'`, with the same data. -/
def Ledger.Extends (l l' : Ledger) : Prop :=
  ∀ x, .got x ∈ l.trace → .got x ∈ l'.trace ∧ l'.content x = l.content x

theorem Ledger.Extends.refl (l : Ledger) : l.Extends l := fun _ hx => ⟨hx, rfl⟩

theorem Ledger.Extends.trans {l l' l'' : Ledger} (h : l.Extends l') (h' : l'.Extends l'') :
    l.Extends l'' := by
  intro x hx
  obtain ⟨hx', hcontent⟩ := h x hx
  obtain ⟨hx'', hcontent'⟩ := h' x hx'
  exact ⟨hx'', hcontent'.trans hcontent⟩

theorem extends_note (l : Ledger) (ev : Nat → Event Nat) (ptr : Ptr) :
    l.Extends (l.note ev ptr) := by
  cases ptr with
  | none => exact .refl l
  | some h => exact fun x hx => ⟨List.mem_cons_of_mem _ hx, rfl⟩

theorem extends_handOut (l : Ledger) (data : Option PGresult) : l.Extends (l.handOut data) := by
  intro x hx
  refine ⟨List.mem_cons_of_mem _ hx, Function.update_of_ne ?_ _ _⟩
  -- the handle that is handed out is a new one
  rintro rfl
  exact got_next_notMem _ hx

/-- All rows have one cell for each column. -/
def Rectangular (data : Option PGresult) : Prop :=
  ∀ row ∈ resultRows data, row.length = (resultFields data).length

/-- The pointer is null for null and else the handle of the data. -/
structure Stands (l : Ledger) (res : Ptr) (data : Option PGresult) : Prop where
  content : res.bind l.content = data
  got : ∀ x ∈ res, .got x ∈ l.trace
  isNone : res.isNone = data.isNone
  rectangular : Rectangular data

theorem Stands.mono {l l' : Ledger} {res : Ptr} {data : Option PGresult}
    (hs : Stands l res data) (hl : l.Extends l') : Stands l' res data where
  content := by
    rw [← hs.content]
    cases res with
    | none => rfl
    | some x => exact (hl x (hs.got x rfl)).2
  got x hx := (hl x (hs.got x hx)).1
  isNone := hs.isNone
  rectangular := hs.rectangular

/-- An environment whose results are rectangular, as those of libpq are. -/
def Tabular (h : Prog.Handler Call Call.Reply W) : Prop :=
  ∀ conn query w, Rectangular (h (.pqexec conn query) w).1

/-! ## Steps of one side -/

section Yields

variable (h : Prog.Handler Call Call.Reply W)

/-- The program only looks at results, or gives them back, and returns `a`. -/
def Yields (p : Code α) (l : Ledger) (a : α) : Prop :=
  ∀ w, ∃ l', l.Extends l' ∧ p.run (lift h) (w, l) = (some a, w, l')

variable {h} {l : Ledger} {res : Ptr} {data : Option PGresult}

theorem Yields.pure (a : α) : Yields h (pure a) l a := fun _ => ⟨l, .refl l, rfl⟩

theorem Yields.bind {p : Code α} {f : α → Code β} {a : α} {b : β} (hp : Yields h p l a)
    (hf : ∀ l', l.Extends l' → Yields h (f a) l' b) : Yields h (p >>= f) l b := by
  intro w
  obtain ⟨l', hl', hrun⟩ := hp w
  obtain ⟨l'', hl'', hrun'⟩ := hf l' hl' w
  exact ⟨l'', hl'.trans hl'', by rw [Prog.run_bind_of_some _ _ hrun, hrun']⟩

theorem Yields.mapM {ι : Type} {f : ι → Code α} {g : ι → α} (is : List ι)
    (hf : ∀ i ∈ is, ∀ l', l.Extends l' → Yields h (f i) l' (g i)) :
    Yields h (is.mapM f) l (is.map g) := by
  induction is generalizing l with
  | nil => exact Yields.pure []
  | cons i is ih =>
    rw [List.mapM_cons]
    refine (hf i (List.mem_cons_self ..) l (.refl l)).bind fun l' hl' => ?_
    refine (ih fun j hj l'' hl'' => ?_).bind fun l'' _ => Yields.pure _
    exact hf j (List.mem_cons_of_mem _ hj) l'' (hl'.trans hl'')

theorem yields_read (hs : Stands l res data) (f : Field) :
    Yields h (.perform (Op.read res f)) l (f.get data) := by
  intro w
  refine ⟨l.note .read res, extends_note l _ res, ?_⟩
  rw [← hs.content]
  rfl

theorem yields_PQclear : Yields h (PQclear res) l () :=
  fun _ => ⟨l.note .released res, extends_note l _ res, rfl⟩

theorem yields_clearUnlessNull :
    Yields h (if res.isSome then PQclear res else pure ()) l () := by
  split
  · exact yields_PQclear
  · exact Yields.pure ()

theorem yields_append (buffer : Ptr) : Yields h (append buffer) l () :=
  fun _ => ⟨l.note .read buffer, extends_note l _ buffer, rfl⟩

theorem yields_PQfreemem (buffer : Ptr) : Yields h (PQfreemem buffer) l () :=
  fun _ => ⟨l.note .released buffer, extends_note l _ buffer, rfl⟩

theorem yields_succeeded (hs : Stands l res data) :
    Yields h (succeeded res) l
      (decide (Model.PQresultStatus data = .commandOk ∨
        Model.PQresultStatus data = .tuplesOk)) := by
  refine (yields_read hs .status).bind fun l' hl' => ?_
  by_cases hcommand : Model.PQresultStatus data = .commandOk
  · simp only [Field.get, hcommand, if_true, true_or, decide_true]
    exact Yields.pure true
  · simp only [Field.get, hcommand, if_false, false_or]
    exact (yields_read (hs.mono hl') .status).bind fun _ _ => Yields.pure _

theorem yields_failed (hs : Stands l res data) {status : ExecStatus} (hne : status ≠ .fatalError) :
    Yields h (failed res status) l (decide (Model.PQresultStatus data ≠ status)) := by
  unfold failed
  rw [hs.isNone]
  cases data with
  -- the status of null, which only the right side asks for, is a fatal error
  | none =>
    have hnull : Model.PQresultStatus none ≠ status := hne.symm
    simp only [hnull, Option.isNone_none, if_true, ne_eq, not_false_eq_true, decide_true]
    exact Yields.pure true
  | some d => exact (yields_read hs .status).bind fun _ _ => Yields.pure _

theorem yields_firstColumn (hs : Stands l res data) :
    Yields h (firstColumn res) l (TableTracker.firstColumn data) :=
  (yields_read hs .ntuples).bind fun _ hl' =>
    Yields.mapM _ fun i _ _ hl'' => yields_read ((hs.mono hl').mono hl'') (.value i 0)

theorem yields_fnames (hs : Stands l res data) :
    Yields h ((List.range (resultFields data).length).mapM (PQfname res)) l
      (resultFields data) := by
  -- the names are read one by one, up to the number of columns
  have hnames : (List.range (resultFields data).length).map
      (fun j => (resultFields data).getD j "") = resultFields data := by
    refine List.ext_getElem (by simp) fun j hj hj' => ?_
    simp [List.getElem?_eq_getElem hj']
  have hmap := Yields.mapM (h := h) (List.range (resultFields data).length)
    fun j _ _ hl' => yields_read (hs.mono hl') (.fname j)
  simp only [Field.get, hnames] at hmap
  exact hmap

theorem yields_metric (hs : Stands l res data) :
    Yields h (metric res) l
      (if Model.PQresultStatus data = .tuplesOk ∧ Model.PQntuples data > 0
        then atol (Model.PQgetvalue data 0 0) else 0) := by
  refine (yields_read hs .status).bind fun l' hl' => ?_
  by_cases hstatus : Model.PQresultStatus data = .tuplesOk
  · simp only [Field.get, hstatus, if_true, true_and]
    refine (yields_read (hs.mono hl') .ntuples).bind fun l'' hl'' => ?_
    by_cases hrows : Model.PQntuples data > 0
    · simp only [Field.get, hrows, if_true]
      exact (yields_read ((hs.mono hl').mono hl'') (.value 0 0)).bind fun _ _ => Yields.pure _
    · simp only [Field.get, hrows, if_false]
      exact Yields.pure 0
  · simp only [Field.get, hstatus, if_false, false_and]
    exact Yields.pure 0

end Yields

/-! ## Steps of both sides -/

section Sim

variable (h : Prog.Handler Call Call.Reply W)

/-- Run on the same world, the two programs leave the same world, and values that are
    related by `V` if any. -/
def Sim (V : α → β → Ledger → Prop) (p : Code α) (q : Model.Code β) (w : W) (l : Ledger) : Prop :=
  ∃ l', l.Extends l' ∧ (p.run (lift h) (w, l)).2 = ((q.run h w).2, l') ∧
    Option.Rel (fun a b => V a b l') (p.run (lift h) (w, l)).1 (q.run h w).1

/-- The two sides return the same value. -/
def Same : α → α → Ledger → Prop := fun a b _ => a = b

variable {h} {V : α → β → Ledger → Prop} {w : W} {l : Ledger}

theorem Sim.pure {a : α} {b : β} (hV : V a b l) : Sim h V (pure a) (pure b) w l :=
  ⟨l, .refl l, rfl, .some hV⟩

theorem Sim.cut : Sim h V (.cut : Code α) (.cut : Model.Code β) w l := ⟨l, .refl l, rfl, .none⟩

theorem Sim.bind {U : γ → δ → Ledger → Prop} {p : Code γ} {q : Model.Code δ} {f : γ → Code α}
    {g : δ → Model.Code β} (hp : Sim h U p q w l)
    (hf : ∀ a b w' l', l.Extends l' → U a b l' → Sim h V (f a) (g b) w' l') :
    Sim h V (p >>= f) (q >>= g) w l := by
  obtain ⟨l', hl', hworld, hvalue⟩ := hp
  rcases hpr : p.run (lift h) (w, l) with ⟨ra, v⟩
  rcases hqr : q.run h w with ⟨rb, w'⟩
  rw [hpr, hqr] at hvalue hworld
  obtain rfl : v = (w', l') := hworld
  cases hvalue with
  | none =>
    rw [Sim, Prog.run_bind_of_none _ _ hpr, Prog.run_bind_of_none _ _ hqr]
    exact ⟨l', hl', rfl, .none⟩
  | some hab =>
    rw [Sim, Prog.run_bind_of_some _ _ hpr, Prog.run_bind_of_some _ _ hqr]
    obtain ⟨l'', hl'', hrest⟩ := hf _ _ w' l' hl' hab
    exact ⟨l'', hl'.trans hl'', hrest⟩

/-- A part of the left side that only looks at results is passed over. -/
theorem Sim.yields {p : Code γ} {c : γ} {f : γ → Code α} {q : Model.Code β}
    (hp : Yields h p l c) (hf : ∀ l', l.Extends l' → Sim h V (f c) q w l') :
    Sim h V (p >>= f) q w l := by
  obtain ⟨l', hl', hrun⟩ := hp w
  rw [Sim, Prog.run_bind_of_some _ _ hrun]
  obtain ⟨l'', hl'', hrest⟩ := hf l' hl'
  exact ⟨l'', hl'.trans hl'', hrest⟩

theorem Sim.of_yields {p : Code α} {a : α} {b : β} (hp : Yields h p l a)
    (hV : ∀ l', l.Extends l' → V a b l') : Sim h V p (Pure.pure b) w l := by
  obtain ⟨l', hl', hrun⟩ := hp w
  rw [Sim, hrun]
  exact ⟨l', hl', rfl, .some (hV l' hl')⟩

theorem Sim.mapM {ι : Type} {f : ι → Code α} {g : ι → Model.Code α} (is : List ι)
    (hf : ∀ i ∈ is, ∀ w' l', l.Extends l' → Sim h Same (f i) (g i) w' l') :
    Sim h Same (is.mapM f) (is.mapM g) w l := by
  induction is generalizing w l with
  | nil => exact Sim.pure rfl
  | cons i is ih =>
    rw [List.mapM_cons, List.mapM_cons]
    refine (hf i (List.mem_cons_self ..) w l (.refl l)).bind ?_
    rintro a _ w' l' hl' rfl
    refine (ih fun j hj w'' l'' hl'' => ?_).bind ?_
    · exact hf j (List.mem_cons_of_mem _ hj) w'' l'' (hl'.trans hl'')
    · rintro as _ w'' l'' - rfl
      exact Sim.pure rfl

theorem Sim.forM {ι : Type} {f : ι → Code PUnit} {g : ι → Model.Code PUnit} (is : List ι)
    (hf : ∀ i ∈ is, ∀ w' l', Sim h Same (f i) (g i) w' l') :
    Sim h Same (forM is f) (forM is g) w l := by
  induction is generalizing w l with
  | nil => exact Sim.pure rfl
  | cons i is ih =>
    rw [List.forM_cons, List.forM_cons]
    refine (hf i (List.mem_cons_self ..) w l).bind fun _ _ w' l' _ _ => ?_
    exact ih fun j hj => hf j (List.mem_cons_of_mem _ hj)

theorem sim_PQexec (hh : Tabular h) (conn : Conn) (query : Stmt) :
    Sim h (fun res data l' => Stands l' res data) (PQexec conn query) (Model.PQexec conn query)
      w l := by
  have hrect := hh conn query w
  rcases hreply : h (.pqexec conn query) w with ⟨reply, w'⟩
  rw [hreply] at hrect
  cases reply with
  | none =>
    have hrun : (PQexec conn query).run (lift h) (w, l) = (some none, w', l) := by
      simp only [PQexec, Prog.perform, Prog.run, lift, hreply]
    have hrun' : (Model.PQexec conn query).run h w = (some none, w') := by
      simp only [Model.PQexec, Prog.perform, Prog.run, hreply]
    rw [Sim, hrun, hrun']
    exact ⟨l, .refl l, rfl, .some ⟨rfl, by simp, rfl, hrect⟩⟩
  | some data =>
    have hrun : (PQexec conn query).run (lift h) (w, l) =
        (some (some (next l.trace)), w', l.handOut (some data)) := by
      simp only [PQexec, Prog.perform, Prog.run, lift, hreply]
    have hrun' : (Model.PQexec conn query).run h w = (some (some data), w') := by
      simp only [Model.PQexec, Prog.perform, Prog.run, hreply]
    rw [Sim, hrun, hrun']
    refine ⟨_, extends_handOut l _, rfl, .some ⟨Function.update_self .., ?_, rfl, hrect⟩⟩
    intro x hx
    cases hx
    exact List.mem_cons_self ..

theorem sim_PQescapeLiteral (source : Ptr) (text : String) :
    Sim h (fun buffer escaped _ => buffer.isSome = escaped) (PQescapeLiteral source text)
      (Model.PQescapeLiteral text) w l := by
  rcases hreply : h (.pqescapeLiteral text) w with ⟨escaped, w'⟩
  have hrun' : (Model.PQescapeLiteral text).run h w = (some escaped, w') := by
    refine (Prog.run_perform h _ w).trans ?_
    rw [hreply]
  cases escaped with
  | false =>
    have hrun : (PQescapeLiteral source text).run (lift h) (w, l) =
        (some none, w', l.note .read source) := by
      simp only [PQescapeLiteral, Prog.perform, Prog.run, lift, hreply]
    rw [Sim, hrun, hrun']
    exact ⟨_, extends_note l _ source, rfl, .some rfl⟩
  | true =>
    have hrun : (PQescapeLiteral source text).run (lift h) (w, l) =
        (some (some (next (l.note .read source).trace)), w',
          (l.note .read source).handOut none) := by
      simp only [PQescapeLiteral, Prog.perform, Prog.run, lift, hreply]
    rw [Sim, hrun, hrun']
    exact ⟨_, (extends_note l _ source).trans (extends_handOut _ _), rfl, .some rfl⟩

theorem sim_sleepFor (milliseconds : Int64) :
    Sim h Same (sleepFor milliseconds) (Model.sleepFor milliseconds) w l :=
  ⟨l, .refl l, rfl, .some rfl⟩

theorem sim_log (line : LogLine) : Sim h Same (log line) (Model.log line) w l :=
  ⟨l, .refl l, rfl, .some rfl⟩

end Sim

/-! ## The functions -/

section Functions

variable {h : Prog.Handler Call Call.Reply W} {w : W} {l : Ledger} {res : Ptr}
  {data : Option PGresult}

/-- The result of a retried query, on both sides. -/
def Result : Ptr → Option PGresult → Ledger → Prop := fun res data l' => Stands l' res data

theorem sim_attemptQuery (hh : Tabular h) (conn : Conn) (query : Stmt) (attempt : Int)
    (res : Ptr) (data : Option PGresult) :
    Sim h (fun x y l' => x.1 = y.1 ∧ Stands l' x.2 y.2) (attemptQuery conn query attempt res)
      (Model.attemptQuery conn query attempt data) w l := by
  refine (sim_PQexec hh conn query).bind fun res data w' l' _ hs => ?_
  refine Sim.yields (yields_succeeded hs) fun l'' hl'' => ?_
  by_cases hok : Model.PQresultStatus data = .commandOk ∨ Model.PQresultStatus data = .tuplesOk
  · simp only [hok, decide_true, if_true]
    exact Sim.pure ⟨rfl, hs.mono hl''⟩
  · simp only [hok, decide_false, if_false, Bool.false_eq_true]
    refine (sim_log _).bind fun _ _ w₁ l₁ _ _ => Sim.yields yields_PQclear fun l₂ _ => ?_
    exact Sim.pure ⟨rfl, rfl, by simp, rfl, by simp [Rectangular, resultRows]⟩

theorem sim_executeWithRetry (hh : Tabular h) (conn : Conn) (query : Stmt) (maxAttempts : Int) :
    Sim h Result (executeWithRetry conn query maxAttempts)
      (Model.executeWithRetry conn query maxAttempts) w l := by
  have hloop : ∀ (n : Nat) (attempt : Int) (delay : Int64) (res : Ptr) (data : Option PGresult)
      (w : W) (l : Ledger), Stands l res data →
      Sim h Result (backoff sleepFor (· * 2) (attemptQuery conn query) n attempt delay res)
        (backoff Model.sleepFor (· * 2) (Model.attemptQuery conn query) n attempt delay data) w l := by
    intro n
    induction n with
    | zero => exact fun _ _ _ _ _ _ hs => Sim.pure hs
    | succ n ih =>
      intro attempt delay res data w l _
      refine (sim_attemptQuery hh conn query _ res data).bind ?_
      rintro ⟨success, res⟩ ⟨_, data⟩ w' l' - ⟨rfl, hs⟩
      cases success with
      | true => exact Sim.pure hs
      | false =>
        refine (sim_sleepFor delay).bind fun _ _ w'' l'' hl'' _ => ?_
        exact ih _ _ res data w'' l'' (hs.mono hl'')
  unfold Model.executeWithRetry
  rw [withExponentialBackoff_eq]
  exact hloop _ _ _ none none w l ⟨rfl, by simp, rfl, by simp [Rectangular, resultRows]⟩

theorem sim_encodeCell (hs : Stands l res data) (i j : Nat) :
    Sim h Same (encodeCell res i j)
      (Model.encodeCell (((resultRows data).getD i []).getD j none)) w l := by
  refine Sim.yields (yields_read hs (.isnull i j)) fun l' hl' => ?_
  cases hcell : ((resultRows data).getD i []).getD j none with
  | none =>
    simp only [Field.get, hcell, Option.isNone_none, if_true]
    exact Sim.pure rfl
  | some val =>
    simp only [Field.get, hcell, Option.isNone_some, Bool.false_eq_true, if_false]
    refine Sim.yields (yields_read (hs.mono hl') (.value i j)) fun l'' hl'' => ?_
    have hval : Field.get (.value i j) data = val := by
      show Model.PQgetvalue data i j = val
      rw [Model.PQgetvalue, hcell, Option.getD_some]
    rw [hval]
    refine (sim_PQescapeLiteral res val).bind ?_
    rintro buffer _ w₁ l₁ - rfl
    cases buffer with
    | none => exact Sim.pure rfl
    | some x =>
      refine Sim.yields (yields_append _) fun l₂ _ => ?_
      exact Sim.yields (yields_PQfreemem _) fun l₃ _ => Sim.pure rfl

theorem sim_encodeRow (hs : Stands l res data) {i : Nat} (hi : i < (resultRows data).length) :
    Sim h Same (encodeRow res (resultFields data).length i)
      (Model.encodeRow ((resultRows data).getD i [])) w l := by
  have hrow : (resultRows data).getD i [] = (resultRows data)[i] := by simp [hi]
  have hcells : ((List.range (resultFields data).length).map
      fun j => ((resultRows data).getD i []).getD j none) = (resultRows data).getD i [] := by
    have hlength := hs.rectangular _ (List.getElem_mem hi)
    rw [hrow]
    refine List.ext_getElem (by simp [hlength]) fun j hj hj' => ?_
    simp [List.getElem?_eq_getElem hj']
  have hmap : Model.encodeRow ((resultRows data).getD i []) =
      (List.range (resultFields data).length).mapM
        fun j => Model.encodeCell (((resultRows data).getD i []).getD j none) := by
    unfold Model.encodeRow
    nth_rewrite 1 [← hcells]
    exact List.mapM_map
  rw [hmap]
  exact Sim.mapM _ fun j _ w' l' hl' => sim_encodeCell (hs.mono hl') i j

theorem sim_sendBatch (hh : Tabular h) (hs : Stands l res data) (table : String)
    (inserts : List (List SqlValue)) :
    Sim h Same (sendBatch table res (resultFields data).length inserts)
      (Model.sendBatch table (resultFields data) inserts) w l := by
  refine Sim.yields (yields_fnames hs) fun l' _ => ?_
  refine (sim_executeWithRetry hh _ _ _).bind fun insRes insData w₁ l₁ _ hins => ?_
  refine Sim.yields (yields_failed hins (by decide)) fun l₂ _ => ?_
  by_cases hfailed : Model.PQresultStatus insData = .commandOk
  · simp only [hfailed, ne_eq, not_true_eq_false, decide_false, if_false, Bool.false_eq_true]
    exact Sim.of_yields yields_clearUnlessNull fun _ _ => rfl
  · simp only [hfailed, ne_eq, not_false_eq_true, decide_true, if_true]
    refine (sim_log _).bind fun _ _ w₃ l₃ _ _ => ?_
    exact Sim.of_yields yields_clearUnlessNull fun _ _ => rfl

theorem sim_rowLoop (hh : Tabular h) (hs : Stands l res data) (table : String) (is : List Nat)
    (his : ∀ i ∈ is, i < (resultRows data).length) (inserts : List (List SqlValue)) :
    Sim h Same (rowLoop table res (resultFields data).length is inserts)
      (Model.rowLoop table (resultFields data) (is.map fun i => (resultRows data).getD i [])
        inserts) w l := by
  induction is generalizing inserts w l with
  | nil =>
    rw [rowLoop, List.map_nil, Model.rowLoop]
    split
    · exact sim_sendBatch hh hs table inserts
    · exact Sim.pure rfl
  | cons i is ih =>
    have htail : ∀ i ∈ is, i < (resultRows data).length :=
      fun j hj => his j (List.mem_cons_of_mem _ hj)
    rw [rowLoop, List.map_cons, Model.rowLoop]
    refine (sim_encodeRow hs (his i (List.mem_cons_self ..))).bind ?_
    rintro values _ w' l' hl' rfl
    have hs' : Stands l' res data := hs.mono hl'
    dsimp only
    split
    · refine (sim_sendBatch hh hs' table _).bind fun _ _ w'' l'' hl'' _ => ?_
      exact ih (hs'.mono hl'') htail []
    · exact ih hs' htail _

theorem sim_pageLoop (hh : Tabular h) (table : String) (pk : List String) (fuel : Nat)
    (offset totalRows : Int32) :
    Sim h Same (pageLoop table pk fuel offset totalRows)
      (Model.pageLoop table pk fuel offset totalRows) w l := by
  induction fuel generalizing offset totalRows w l with
  | zero => exact Sim.cut
  | succ fuel ih =>
    rw [pageLoop, Model.pageLoop]
    refine (sim_executeWithRetry hh _ _ _).bind fun res data w₁ l₁ _ hs => ?_
    refine Sim.yields (yields_failed hs (by decide)) fun l₂ hl₂ => ?_
    by_cases htuples : Model.PQresultStatus data = .tuplesOk
    · simp only [htuples, ne_eq, not_true_eq_false, decide_false, if_false, Bool.false_eq_true]
      refine Sim.yields (yields_read (hs.mono hl₂) .ntuples) fun l₃ hl₃ => ?_
      have hs₃ : Stands l₃ res data := (hs.mono hl₂).mono hl₃
      by_cases hempty : Model.PQntuples data = 0
      · simp only [Field.get, hempty, if_true]
        exact Sim.of_yields (yields_PQclear.bind fun _ _ => Yields.pure _) fun _ _ => rfl
      · simp only [Field.get, hempty, if_false]
        refine Sim.yields (yields_read hs₃ .nfields) fun l₄ hl₄ => ?_
        -- the left side goes over the row numbers, the right side over the rows
        have hrows : (List.range (Model.PQntuples data)).map
            (fun i => (resultRows data).getD i []) = resultRows data := by
          refine List.ext_getElem (by simp [Model.PQntuples]) fun i hi hi' => ?_
          simp [List.getElem?_eq_getElem hi']
        have hloop := sim_rowLoop (w := w₁) hh (hs₃.mono hl₄) table
          (List.range (Model.PQntuples data)) (fun i hi => List.mem_range.1 hi) []
        rw [hrows] at hloop
        refine hloop.bind fun _ _ w₅ l₅ _ _ => Sim.yields yields_PQclear fun l₆ _ => ?_
        exact (sim_log _).bind fun _ _ w₇ l₇ _ _ => ih _ _
    · simp only [htuples, ne_eq, not_false_eq_true, decide_true, if_true]
      refine (sim_log _).bind fun _ _ w₃ l₃ _ _ => ?_
      cases res with
      | none => exact Sim.pure rfl
      | some x =>
        exact Sim.of_yields (yields_PQclear.bind fun _ _ => Yields.pure _) fun _ _ => rfl

theorem sim_syncTable (hh : Tabular h) (fuel : Nat) (tracker : TableTracker) (table : String) :
    Sim h Same (syncTable fuel tracker table) (Model.syncTable fuel tracker table) w l := by
  unfold syncTable Model.syncTable
  dsimp only
  split
  · exact sim_log _
  · refine (sim_log _).bind fun _ _ w₁ l₁ _ _ => ?_
    refine (sim_pageLoop hh table _ fuel 0 0).bind ?_
    rintro totalRows _ w₂ l₂ - rfl
    exact sim_log _

theorem sim_initialSync (hh : Tabular h) (fuel : Nat) (tracker : TableTracker) :
    Sim h Same (initialSync fuel tracker) (Model.initialSync fuel tracker) w l := by
  refine (sim_log _).bind fun _ _ w₁ l₁ _ _ => ?_
  refine (Sim.forM _ fun table _ w₂ l₂ => sim_syncTable hh fuel tracker table).bind ?_
  exact fun _ _ w₃ l₃ _ _ => sim_log _

theorem sim_listTables (hh : Tabular h) (config : Config) :
    Sim h Same (listTables config) (TableTracker.listTables config) w l := by
  unfold listTables TableTracker.listTables
  split
  · refine (sim_PQexec hh _ _).bind fun res data w₁ l₁ _ hs => ?_
    refine Sim.yields (yields_read hs .status) fun l₂ hl₂ => ?_
    by_cases hstatus : Model.PQresultStatus data = .tuplesOk
    · simp only [Field.get, hstatus, if_true]
      refine Sim.yields (yields_firstColumn (hs.mono hl₂)) fun l₃ _ => ?_
      exact Sim.of_yields (yields_PQclear.bind fun _ _ => Yields.pure _) fun _ _ => rfl
    · simp only [Field.get, hstatus, if_false]
      refine (sim_log _).bind fun _ _ w₃ l₃ _ _ => ?_
      exact Sim.of_yields (yields_PQclear.bind fun _ _ => Yields.pure _) fun _ _ => rfl
  · exact Sim.pure rfl

theorem sim_lookupPrimaryKey (hh : Tabular h) (keys : String → Option (List String))
    (table : String) :
    Sim h Same (lookupPrimaryKey keys table) (TableTracker.lookupPrimaryKey keys table) w l := by
  refine (sim_PQexec hh _ _).bind fun res data w₁ l₁ _ hs => ?_
  refine Sim.yields (yields_read hs .status) fun l₂ hl₂ => ?_
  simp only [Field.get]
  split
  · refine Sim.yields (yields_firstColumn (hs.mono hl₂)) fun l₃ _ => ?_
    split
    · refine (sim_log _).bind fun _ _ w₃ l₃ _ _ => ?_
      exact Sim.of_yields (yields_PQclear.bind fun _ _ => Yields.pure _) fun _ _ => rfl
    · exact Sim.of_yields (yields_PQclear.bind fun _ _ => Yields.pure _) fun _ _ => rfl
  · refine (sim_log _).bind fun _ _ w₃ l₃ _ _ => ?_
    exact Sim.of_yields (yields_PQclear.bind fun _ _ => Yields.pure _) fun _ _ => rfl

theorem sim_discoverTables (hh : Tabular h) (config : Config) :
    Sim h Same (discoverTables config) (TableTracker.discoverTables config) w l := by
  have hloop : ∀ (tables : List String) (keys : String → Option (List String)) (w : W)
      (l : Ledger), Sim h Same (lookupPrimaryKeys keys tables)
        (TableTracker.lookupPrimaryKeys keys tables) w l := by
    intro tables
    induction tables with
    | nil => exact fun keys w l => Sim.pure rfl
    | cons table tables ih =>
      intro keys w l
      refine (sim_lookupPrimaryKey hh keys table).bind ?_
      rintro keys _ w' l' - rfl
      exact ih keys w' l'
  refine (sim_listTables hh config).bind ?_
  rintro tables _ w₁ l₁ - rfl
  refine (hloop tables _ w₁ l₁).bind ?_
  rintro keys _ w₂ l₂ - rfl
  exact (sim_log _).bind fun _ _ w₃ l₃ _ _ => Sim.pure rfl

theorem sim_checkConnection (hh : Tabular h) (conn : Conn) :
    Sim h Same (checkConnection conn) (Model.checkConnection conn) w l := by
  -- a metric query, with the `PQclear` that follows it
  have hmetric : ∀ (query : Stmt) (w : W) (l : Ledger) (f : Int → Code (Bool × Int × Int × Int))
      (g : Int → Model.Code (Bool × Int × Int × Int)),
      (∀ n w' l', Sim h Same (f n) (g n) w' l') →
      Sim h Same (do let res ← PQexec conn query; let n ← metric res; PQclear res; f n)
        (queryMetric conn query >>= g) w l := by
    intro query w l f g hfg
    unfold queryMetric
    rw [bind_assoc]
    refine (sim_PQexec hh _ _).bind fun res data w₁ l₁ _ hs => ?_
    refine Sim.yields (yields_metric hs) fun l₂ _ => Sim.yields yields_PQclear fun l₃ _ => ?_
    split
    · exact hfg _ _ _
    · exact hfg _ _ _
  unfold checkConnection Model.checkConnection
  refine (sim_PQexec hh _ _).bind fun res data w₁ l₁ _ hs => ?_
  refine Sim.yields (yields_read hs .status) fun l₂ _ => ?_
  by_cases hstatus : Model.PQresultStatus data = .tuplesOk
  · simp only [Field.get, hstatus, if_true]
    refine Sim.yields yields_PQclear fun l₃ _ => ?_
    refine hmetric _ _ _ _ _ fun connections w₄ l₄ => ?_
    refine hmetric _ _ _ _ _ fun sizeMB w₅ l₅ => ?_
    exact hmetric _ _ _ _ _ fun activeQueries w₆ l₆ => Sim.pure rfl
  · simp only [Field.get, hstatus, if_false]
    refine (sim_log _).bind fun _ _ w₃ l₃ _ _ => ?_
    exact Sim.of_yields (yields_PQclear.bind fun _ _ => Yields.pure _) fun _ _ => rfl

theorem sim_healthCheck (hh : Tabular h) : Sim h Same healthCheck Model.healthCheck w l := by
  refine (sim_log _).bind fun _ _ w₁ l₁ _ _ => (sim_checkConnection hh .local_).bind ?_
  rintro localReport _ w₂ l₂ - rfl
  refine (sim_checkConnection hh .hosted_).bind ?_
  rintro hostedReport _ w₃ l₃ - rfl
  dsimp only
  split
  · exact (sim_log _).bind fun _ _ _ _ _ _ => Sim.pure rfl
  · exact (sim_log _).bind fun _ _ _ _ _ _ => Sim.pure rfl

theorem sim_drainTo (q : List ChangeEvent) :
    Sim h Same (drainTo q) (QueueHandler.drainTo q) w l := by
  have hloop : ∀ (n : Nat) (w : W) (l : Ledger),
      Sim h Same (drainLoop q n) (QueueHandler.drainLoop q n) w l := by
    induction q with
    | nil => exact fun n w l => Sim.pure rfl
    | cons ev q ih =>
      exact fun n w l => (sim_log _).bind fun _ _ w' l' _ _ => ih (n + 1) w' l'
  refine (hloop 0 w l).bind ?_
  rintro count _ w₁ l₁ - rfl
  exact (sim_log _).bind fun _ _ _ _ _ _ => Sim.pure rfl

theorem sim_start (hh : Tabular h) (fuel : Nat) (m : ReplicationManager) :
    Sim h Same (start fuel m) (m.start fuel) w l := by
  unfold start ReplicationManager.start
  refine (sim_log _).bind fun _ _ w₁ l₁ _ _ => (sim_healthCheck hh).bind ?_
  rintro health _ w₂ l₂ - rfl
  split
  · exact (sim_log _).bind fun _ _ _ _ _ _ => Sim.pure rfl
  · refine (sim_discoverTables hh m.config).bind ?_
    rintro tracker _ w₃ l₃ - rfl
    have hdrain : ∀ (w : W) (l : Ledger), Sim h Same
        (do let queue ← drainTo ((tracker.fetchChanges m.config.batchSize).foldl
              QueueHandler.enqueue m.queue)
            return { m with tracker, queue, initialSyncDone := true })
        (do let queue ← QueueHandler.drainTo ((tracker.fetchChanges m.config.batchSize).foldl
              QueueHandler.enqueue m.queue)
            return { m with tracker, queue, initialSyncDone := true }) w l := by
      intro w l
      refine (sim_drainTo _).bind ?_
      rintro queue _ w' l' - rfl
      exact Sim.pure rfl
    dsimp only
    split
    · exact (sim_initialSync hh fuel tracker).bind fun _ _ w' l' _ _ => hdrain w' l'
    · exact hdrain _ _

end Functions

/-! ## Erasure -/

section Erasure

variable {h : Prog.Handler Call Call.Reply W}

/-- Programs that are related in `Same` have the same runs. -/
theorem Sim.run_eq {p : Code α} {q : Model.Code α} {w : W} {l : Ledger}
    (hsim : Sim h Same p q w l) :
    ∃ l', p.run (lift h) (w, l) = ((q.run h w).1, (q.run h w).2, l') := by
  obtain ⟨l', -, hworld, hvalue⟩ := hsim
  refine ⟨l', Prod.ext ?_ hworld⟩
  cases hp : (p.run (lift h) (w, l)).1 with
  | none =>
    rw [hp] at hvalue
    generalize (q.run h w).1 = b at hvalue
    cases hvalue
    rfl
  | some a =>
    rw [hp] at hvalue
    generalize (q.run h w).1 = b at hvalue
    cases hvalue with
    | some hab => exact congrArg some hab

/-- **Erasure**: `start` as it is written, pointers and all, has the runs of `start` on
    plain data. -/
theorem start_erasure (hh : Tabular h) (fuel : Nat) (m : ReplicationManager) (w : W)
    (l : Ledger) : ∃ l', (start fuel m).run (lift h) (w, l) =
      (((m.start fuel).run h w).1, ((m.start fuel).run h w).2, l') :=
  (sim_start hh fuel m).run_eq

/-- The same for `healthCheck`. -/
theorem healthCheck_erasure (hh : Tabular h) (w : W) (l : Ledger) :
    ∃ l', healthCheck.run (lift h) (w, l) =
      ((Model.healthCheck.run h w).1, (Model.healthCheck.run h w).2, l') :=
  (sim_healthCheck hh).run_eq

end Erasure

end SyncLayer.Handles
