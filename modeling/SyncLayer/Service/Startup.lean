import SyncLayer.Configuration.Exactness
import SyncLayer.Copy.Lifetimes

/-!
# From the File to the Hosted Database

A deployment from its start: the configuration file and the environment, the log file, the
two connections, the thread of the health server, and then the rounds of the main loop.

Whether the process starts has nothing to do with the databases. When it starts, what the
hosted database holds after any number of rounds follows from the file, the environment and
the fate of the connections and of the statements (`deployment_effect`).
-/

namespace SyncLayer.Service

open SyncLayer.Interaction SyncLayer.Model SyncLayer.Database SyncLayer.Configuration
open SyncLayer.Copy SyncLayer.PartialMap SyncLayer.Yaml

variable {W : Type}

/-- The process gets to the point where it opens its connections. -/
structure Configured (host : Host W) (doc : Tree) : Prop where
  loaded : host.loadFile (getConfigPath host.getenv) = .ok doc
  accepted : Accepted doc
  logged : host.openLogger ((settings host.getenv doc).text .logLevel)
    ((settings host.getenv doc).text .logFile) = .ok ()

/-- The configuration of the process. -/
abbrev configOf (host : Host W) (doc : Tree) : Config := (settings host.getenv doc).config

/-- A configured process starts if its thread does. -/
theorem startUp_of_configured {host : Host W} {doc : Tree} (h : Configured host doc) (w : W) :
    startUp host w =
      match host.startThread with
      | .error what => (.error (Thrown.standard what).critical,
          (Engine.construct host.connect (configOf host doc) w).2)
      | .ok _ => (.ok (Engine.construct host.connect (configOf host doc) w).1,
          (Engine.construct host.connect (configOf host doc) w).2) := by
  have hlogged : host.openLogger (configOf host doc).logLevel (configOf host doc).logFile =
      .ok () := h.logged
  simp only [startUp, Engine.create, loadFromFile_eq, h.loaded, fault_eq_none_iff.2 h.accepted,
    hlogged]
  cases host.startThread <;> rfl

/-- What fails before the connections are opened leaves everything as it is. -/
theorem startUp_of_not_configured {host : Host W} (h : ∀ doc, ¬ Configured host doc) :
    ∃ line, ∀ w, startUp host w = (.error line, w) := by
  simp only [startUp, Engine.create, loadFromFile_eq]
  cases hload : host.loadFile (getConfigPath host.getenv) with
  | error e => exact ⟨_, fun w => rfl⟩
  | ok doc =>
    dsimp only
    cases hfault : fault doc with
    | some e => exact ⟨_, fun w => rfl⟩
    | none =>
      dsimp only
      cases hlog : host.openLogger (configOf host doc).logLevel (configOf host doc).logFile with
      | error what => exact ⟨_, fun w => rfl⟩
      | ok u => exact absurd ⟨hload, fault_eq_none_iff.1 hfault, hlog⟩ (h doc)

/-- A process that has started was configured, and its thread came up. -/
theorem configured_of_startUp {host : Host W} {w : W} {engine : Engine}
    (hup : (startUp host w).1 = .ok engine) :
    ∃ doc, Configured host doc ∧ host.startThread = .ok () ∧
      engine = (Engine.construct host.connect (configOf host doc) w).1 := by
  by_cases hconfigured : ∃ doc, Configured host doc
  · obtain ⟨doc, hdoc⟩ := hconfigured
    rw [startUp_of_configured hdoc] at hup
    cases hthread : host.startThread with
    | error what =>
      rw [hthread] at hup
      cases hup
    | ok u =>
      rw [hthread] at hup
      exact ⟨doc, hdoc, rfl, (Except.ok.inj hup).symm⟩
  · obtain ⟨line, hline⟩ := startUp_of_not_configured fun doc h => hconfigured ⟨doc, h⟩
    rw [hline] at hup
    cases hup

/-- **The effect of a deployment.** The process starts exactly if the file is accepted, the
    log file opens and the thread starts; if it cannot be configured it writes one line and
    touches nothing. A process that has started adds to the hosted database, under free keys,
    the rows that its first healthy round copies, if both connections came up at the start,
    and nothing otherwise; the two databases are those of the module on the servers, without
    further constraints and without failing escapes. -/
theorem deployment_effect (host : Host W) (C : Catalog) (L : LocalDb C.table) :
    (∀ w, (∃ engine, (startUp host w).1 = .ok engine) ↔
      (∃ doc, Configured host doc) ∧ host.startThread = .ok ()) ∧
    ((∀ doc, ¬ Configured host doc) → ∃ line, ∀ w, startUp host w = (.error line, w)) ∧
    ∀ w engine, (startUp host w).1 = .ok engine → ∃ doc, Configured host doc ∧
      ∀ (os : List Oracle) (H : HostedDb),
        ∃ H', (∀ᶠ fuel in Filter.atTop,
            (mainLoop fuel os.length engine).run (surroundings L) (os, newSession H) =
              (none, ([], newSession H'))) ∧
          ∀ t k r, H' t k = some r ↔
            H t k = some r ∨
              (H t k = none ∧ (C.table t).keyOf r = k ∧
                Connects host.connect (configOf host doc) w ∧
                ∃ o, firstHealthy os = some o ∧ StartCopies o L (configOf host doc) t r) := by
  refine ⟨fun w => ⟨?_, ?_⟩, startUp_of_not_configured, fun w engine hup => ?_⟩
  · rintro ⟨engine, hup⟩
    obtain ⟨doc, hdoc, hthread, -⟩ := configured_of_startUp hup
    exact ⟨⟨doc, hdoc⟩, hthread⟩
  · rintro ⟨⟨doc, hdoc⟩, hthread⟩
    rw [startUp_of_configured hdoc, hthread]
    exact ⟨_, rfl⟩
  · obtain ⟨doc, hdoc, -, rfl⟩ := configured_of_startUp hup
    refine ⟨doc, hdoc, fun os H => ?_⟩
    by_cases hconnects : Connects host.connect (configOf host doc) w
    · rw [construct_of_connects hconnects]
      obtain ⟨H', hrun, hfills⟩ := exists_rounds L (configOf host doc) os H
      refine ⟨H', hrun, fun t k r => ?_⟩
      rw [hfills t k r, and_iff_right hconnects]
      rfl
    · rw [construct_of_not_connects hconnects]
      refine ⟨H, Filter.Eventually.of_forall fun fuel => run_mainLoop_none fuel os H, ?_⟩
      intro t k r
      simp [hconnects]

end SyncLayer.Service
