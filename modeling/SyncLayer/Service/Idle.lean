import SyncLayer.Interaction.Silence
import SyncLayer.Service.Startup

/-!
# Idle Options

The interval, the batch size, the options of the log and the port of the health server are
loaded, and then no statement depends on them, nor the waiting between two rounds. Unless
the log cannot be opened, the process starts whatever these options are, and with the log
lines left out its whole life is the same program, round by round (`idle_variables`). In
auto-fetch mode the list of tables is idle as well.
-/

namespace SyncLayer.Service

open SyncLayer.Interaction SyncLayer.Model SyncLayer.Configuration SyncLayer.Yaml

/-! ## The log lines -/

/-- The log lines of the engine. -/
def engineLine : (e : Call) → Option e.Reply
  | .log _ => some ()
  | .pqexec _ _ => none
  | .pqescapeLiteral _ => none
  | .sleepFor _ => none

/-- The log lines of the process. -/
def line : (e : MainCall) → Option e.Reply
  | .engine e => engineLine e
  | .info _ => some ()
  | .sleepFor _ => none

theorem quiet_log_bind {α : Type} (l : LogLine) (f : Unit → Code α) :
    (log l >>= f).quiet engineLine = (f ()).quiet engineLine :=
  Prog.quiet_call_of_some (s := engineLine) (e := .log l) rfl f

theorem quiet_engineCode {α : Type} (p : Code α) :
    (engineCode p).quiet line = engineCode (p.quiet engineLine) := by
  apply Prog.quiet_translate
  · intro e r h
    exact Prog.quiet_call_of_some (s := line) (e := .engine e) h _
  · intro e h
    exact Prog.quiet_call_of_none (s := line) (e := .engine e) h _

/-! ## What the options are used for -/

/-- The same tables are to be tracked. -/
def TracksAlike (config config' : Config) : Prop :=
  config'.autoFetch = config.autoFetch ∧
    (config.autoFetch = false → config'.tables = config.tables)

theorem listTables_eq {config config' : Config} (h : TracksAlike config config') :
    TableTracker.listTables config' = TableTracker.listTables config := by
  rw [TableTracker.listTables, TableTracker.listTables, h.1]
  cases hauto : config.autoFetch with
  | true => rfl
  | false => rw [h.2 hauto]

theorem discoverTables_eq {config config' : Config} (h : TracksAlike config config') :
    TableTracker.discoverTables config' = TableTracker.discoverTables config := by
  rw [TableTracker.discoverTables, TableTracker.discoverTables, listTables_eq h]

/-- Draining the queue is writing log lines. -/
theorem quiet_drainLoop (q : List ChangeEvent) (drained : Nat) :
    (QueueHandler.drainLoop q drained).quiet engineLine = pure (drained + q.length) := by
  induction q generalizing drained with
  | nil => rfl
  | cons ev q ih =>
    rw [QueueHandler.drainLoop, quiet_log_bind, ih, List.length_cons]
    congr 1
    omega

theorem quiet_drainTo (q : List ChangeEvent) :
    (QueueHandler.drainTo q).quiet engineLine = pure [] := by
  rw [QueueHandler.drainTo, Prog.quiet_bind, quiet_drainLoop]
  rfl

/-! ## The process -/

/-- The managers have the same work before them. -/
def SameWork (m m' : ReplicationManager) : Prop :=
  TracksAlike m.config m'.config ∧ m'.initialSyncDone = m.initialSyncDone

def SameEngine (e e' : Engine) : Prop :=
  Option.Rel SameWork e.replicationManager e'.replicationManager

theorem alike_start {m m' : ReplicationManager} (h : SameWork m m') (fuel : Nat) :
    Prog.Alike engineLine SameWork (m.start fuel) (m'.start fuel) := by
  have hrfl : ∀ {α : Type} (a : α), a = a := fun _ => rfl
  unfold ReplicationManager.start
  rw [Prog.Alike, quiet_log_bind, quiet_log_bind]
  -- the health check is that of the other manager
  apply Prog.Alike.bind (Prog.Alike.refl hrfl healthCheck)
  rintro health _ rfl
  dsimp only
  split
  · rw [Prog.Alike, quiet_log_bind, quiet_log_bind]
    exact Prog.Alike.pure h
  · rw [discoverTables_eq h.1, h.2]
    apply Prog.Alike.bind (Prog.Alike.refl hrfl _)
    rintro tracker _ rfl
    -- the batch size decides how many events are drained, which only the log shows
    have hdrain : ∀ batchSize batchSize' : Int32, Prog.Alike engineLine SameWork
        (do let queue ← QueueHandler.drainTo
              ((tracker.fetchChanges batchSize).foldl QueueHandler.enqueue m.queue)
            return { m with tracker, queue, initialSyncDone := true })
        (do let queue ← QueueHandler.drainTo
              ((tracker.fetchChanges batchSize').foldl QueueHandler.enqueue m'.queue)
            return { m' with tracker, queue, initialSyncDone := true }) := by
      intro batchSize batchSize'
      rw [Prog.Alike, Prog.quiet_bind, Prog.quiet_bind, quiet_drainTo, quiet_drainTo]
      exact .ret ⟨h.1, rfl⟩
    split
    · apply Prog.Alike.bind (Prog.Alike.refl hrfl (initialSync fuel tracker))
      intro _ _ _
      exact hdrain _ _
    · exact hdrain _ _

theorem alike_run {e e' : Engine} (h : SameEngine e e') (fuel : Nat) :
    Prog.Alike engineLine SameEngine (e.run fuel) (e'.run fuel) := by
  obtain ⟨manager⟩ := e
  obtain ⟨manager'⟩ := e'
  unfold Engine.run
  rw [Prog.Alike, quiet_log_bind, quiet_log_bind]
  obtain hwork | _ := h
  · apply Prog.Alike.bind (alike_start hwork fuel)
    intro m m' hm
    exact Prog.Alike.pure (.some hm)
  · dsimp only
    rw [quiet_log_bind]
    exact .ret .none

/-- A round that has come to its end: one line, the sleep, and the next round. -/
theorem quiet_round_end (text : String) (p : MainCode Empty) :
    (do Prog.perform (MainCall.info text)
        Prog.perform (MainCall.sleepFor hour)
        p : MainCode Empty).quiet line =
      .call (.sleepFor hour) fun _ => p.quiet line := by
  have hinfo := Prog.quiet_call_of_some (s := line) (e := .info text) rfl
    fun _ => (do Prog.perform (MainCall.sleepFor hour)
                 p : MainCode Empty)
  exact hinfo.trans (Prog.quiet_call_of_none (s := line) (e := .sleepFor hour) rfl fun _ => p)

/-- The rounds of the process. -/
theorem quiet_mainLoop_eq {e e' : Engine} (h : SameEngine e e') (fuel rounds : Nat) :
    (mainLoop fuel rounds e').quiet line = (mainLoop fuel rounds e).quiet line := by
  suffices hmatches : Prog.Matches Eq ((mainLoop fuel rounds e).quiet line)
      ((mainLoop fuel rounds e').quiet line) from hmatches.eq.symm
  induction rounds generalizing e e' with
  | zero => exact .cut
  | succ rounds ih =>
    rw [mainLoop, mainLoop, Prog.quiet_bind, Prog.quiet_bind, quiet_engineCode, quiet_engineCode]
    apply Prog.Matches.bind ((alike_run h fuel).translate _)
    intro e e' h
    rw [quiet_round_end, quiet_round_end]
    exact .call _ fun _ => ih h

/-- Both connections are opened with the same texts. -/
theorem construct_alike {config config' : Config} (h : TracksAlike config config')
    (hlocal : config'.localConn = config.localConn)
    (hhosted : config'.hostedConn = config.hostedConn) {W : Type} (connect : Connect W) (w : W) :
    ∃ engine engine' w', Engine.construct connect config w = (engine, w') ∧
      Engine.construct connect config' w = (engine', w') ∧ SameEngine engine engine' := by
  have hnone : SameEngine { replicationManager := none } { replicationManager := none } := .none
  have hsome : SameEngine { replicationManager := some { config } }
      { replicationManager := some { config := config' } } := .some ⟨h, rfl⟩
  simp only [Engine.construct, ReplicationManager.construct, hlocal, hhosted]
  obtain ⟨up, w₁⟩ := connect .local_ config.localConn w
  cases up with
  | false => exact ⟨_, _, _, rfl, rfl, hnone⟩
  | true =>
    dsimp only
    obtain ⟨up, w₂⟩ := connect .hosted_ config.hostedConn w₁
    cases up with
    | false => exact ⟨_, _, _, rfl, rfl, hnone⟩
    | true => exact ⟨_, _, _, rfl, rfl, hsome⟩

/-! ## The variables -/

/-- The variable belongs neither to a connection nor to the choice of the tables, and does
    not name the file. -/
structure Idle (name : String) : Prop where
  text : ∀ c key, (TextOption.conn c key).envName ≠ name
  port : ∀ c, (IntOption.port c).envName ≠ name
  autoFetch : autoFetchEnvName ≠ name
  configPath : "SYNC_CONFIG_PATH" ≠ name

theorem Idle.getConfigPath_update {name : String} (hname : Idle name) (getenv : Env)
    (s : Option String) : getConfigPath (Function.update getenv name s) = getConfigPath getenv := by
  rw [getConfigPath, Function.update_of_ne hname.configPath]
  rfl

/-- The configurations say the same of the connections and of the tables. -/
theorem Idle.settings_update {name : String} (hname : Idle name) (getenv : Env)
    (s : Option String) (doc : Tree) :
    TracksAlike (settings getenv doc).config
        (settings (Function.update getenv name s) doc).config ∧
      ∀ c, ((settings (Function.update getenv name s) doc).conn c).text =
        ((settings getenv doc).conn c).text := by
  have hsame := sameBut_settings getenv name s doc
  refine ⟨⟨hsame.autoFetch hname.autoFetch, fun _ => hsame.tables⟩, fun c => ?_⟩
  simp only [Values.conn, hsame.text _ (hname.text c _), hsame.int _ (hname.port c)]

/-- **Options without effect**: a process that starts with one value of an idle variable
    starts with any other, provided the log opens with it. It has opened the same connections
    with the same texts, and makes the same calls with the same arguments in every round,
    the log lines apart. -/
theorem idle_variables {W : Type} (host : Host W) {name : String} (hname : Idle name)
    (s : Option String)
    (hlog : ∀ doc, host.loadFile (getConfigPath host.getenv) = .ok doc →
      host.openLogger ((settings (Function.update host.getenv name s) doc).text .logLevel)
        ((settings (Function.update host.getenv name s) doc).text .logFile) = .ok ())
    {w w' : W} {engine : Engine} (hup : startUp host w = (.ok engine, w')) :
    ∃ engine',
      startUp { host with getenv := Function.update host.getenv name s } w = (.ok engine', w') ∧
      ∀ fuel rounds,
        (mainLoop fuel rounds engine').quiet line = (mainLoop fuel rounds engine).quiet line ∧
        ∀ {V : Type} (h : Prog.Handler MainCall MainCall.Reply V), h.Ignores line → ∀ v,
          (mainLoop fuel rounds engine').run h v = (mainLoop fuel rounds engine).run h v := by
  obtain ⟨doc, hdoc, hthread, rfl⟩ := configured_of_startUp (congrArg Prod.fst hup)
  -- the other process reads the same file
  have hdoc' : Configured { host with getenv := Function.update host.getenv name s } doc := by
    refine ⟨?_, hdoc.accepted, hlog doc hdoc.loaded⟩
    rw [hname.getConfigPath_update]
    exact hdoc.loaded
  rw [startUp_of_configured hdoc, hthread] at hup
  obtain rfl : _ = w' := congrArg Prod.snd hup
  obtain ⟨htracks, hconn⟩ := hname.settings_update host.getenv s doc
  obtain ⟨engine, engine', w', hfirst, hsecond, hengine⟩ :=
    construct_alike htracks (hconn _) (hconn _) host.connect w
  refine ⟨engine', ?_, fun fuel rounds => ?_⟩
  · rw [startUp_of_configured hdoc', hthread]
    simp only [configOf, hfirst, hsecond]
  · have hquiet := quiet_mainLoop_eq hengine fuel rounds
    simp only [configOf, hfirst]
    refine ⟨hquiet, fun h hline v => ?_⟩
    rw [← Prog.run_quiet hline, hquiet, Prog.run_quiet hline]

theorem idle_batchSize : Idle "SYNC_BATCH_SIZE" where
  text c key := by cases c <;> cases key <;> decide
  port c := by cases c <;> decide
  autoFetch := by decide
  configPath := by decide

/-- A host where everything succeeds; the world is the list of the connections opened. -/
def oddHost : Host (List (Conn × String)) where
  getenv := hosts
  loadFile _ := .ok oddDocument
  what _ := ""
  openLogger _ _ := .ok ()
  connect conn conninfo opened := (true, opened ++ [(conn, conninfo)])
  startThread := .ok ()

/-- With a batch size of 1 instead of 50 the process does the same. -/
theorem idle_variables_batchSize : ∃ engine engine' opened,
    startUp oddHost [] = (.ok engine, opened) ∧
      startUp { oddHost with getenv := Function.update hosts "SYNC_BATCH_SIZE" (some "1") } [] =
        (.ok engine', opened) ∧
      (engine.replicationManager.map fun m => m.config.batchSize) = some 50 ∧
      (engine'.replicationManager.map fun m => m.config.batchSize) = some 1 ∧
      ∀ fuel rounds,
        (mainLoop fuel rounds engine').quiet line = (mainLoop fuel rounds engine).quiet line := by
  obtain ⟨engine, opened, hup⟩ : ∃ engine opened, startUp oddHost [] = (.ok engine, opened) :=
    ⟨_, _, rfl⟩
  obtain ⟨engine', hup', hsame⟩ := idle_variables oddHost idle_batchSize (some "1")
    (fun _ _ => rfl) hup
  refine ⟨engine, engine', opened, hup, hup', ?_, ?_, fun fuel rounds => (hsame fuel rounds).1⟩
  · cases hup
    decide
  · cases hup'
    decide

end SyncLayer.Service
