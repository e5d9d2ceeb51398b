import SyncLayer.Model.Config
import SyncLayer.Model.Engine

/-!
# The Main Program

`main.cpp`, the constructor of `core/Engine.cpp` and the texts of `exceptions.hpp`. What is
thrown while the engine is constructed ends the process; after that the loop has no end.
-/

namespace SyncLayer.Model

open SyncLayer.Interaction SyncLayer.Yaml

/-! ## Exceptions -/

/-- The text of a `BaseException`. -/
def baseException (msg : String) : String := "SyncLayer Error: " ++ msg

def configurationError (msg : String) : String := baseException ("Configuration Error: " ++ msg)

/-- The two kinds of exception that `main` tells apart, with their texts. -/
inductive Thrown where
  | baseException (what : String)
  | standard (what : String)
  deriving DecidableEq

/-- The line that `main` writes before it returns `EXIT_FAILURE`. -/
def Thrown.critical : Thrown → String
  | .baseException what => "SyncLayer Critical Error: " ++ what
  | .standard what => "An unexpected standard exception occurred: " ++ what

/-! ## Start-up -/

def getConfigPath (getenv : Env) : String :=
  match getenv "SYNC_CONFIG_PATH" with
  | some envPath => if envPath ≠ "" then envPath else "./config/sync-config.yaml"
  | none => "./config/sync-config.yaml"

/-- What the process finds when it starts. -/
structure Host (W : Type) where
  getenv : Env
  loadFile : String → Except Exception Tree
  /-- The texts of the exceptions of the YAML library. -/
  what : Exception → String
  /-- `Logger::Logger`, which opens the log file. -/
  openLogger : (level filePath : String) → Except String Unit
  connect : Connect W
  /-- The thread of the health server. -/
  startThread : Except String Unit

variable {W : Type}

/-- `Engine::Engine`. Only the exceptions of the replication manager are caught. -/
def Engine.create (host : Host W) (configPath : String) (w : W) : Except Thrown Engine × W :=
  match Config.loadFromFile host.loadFile host.what host.getenv configPath with
  | .error msg => (.error (.baseException (configurationError msg)), w)
  | .ok config =>
    match host.openLogger config.logLevel config.logFile with
    | .error what => (.error (.standard what), w)
    | .ok _ =>
      let (e, w) := Engine.construct host.connect config w
      match host.startThread with
      | .error what => (.error (.standard what), w)
      | .ok _ => (.ok e, w)

/-- `main` up to its loop; an exception is the line it writes before `EXIT_FAILURE`. -/
def startUp (host : Host W) (w : W) : Except String Engine × W :=
  match Engine.create host (getConfigPath host.getenv) w with
  | (.ok engine, w) => (.ok engine, w)
  | (.error e, w) => (.error e.critical, w)

/-! ## The loop -/

/-- The calls of `main`, and those of the engine. -/
inductive MainCall where
  | engine (e : Call)
  | info (line : String)
  | sleepFor (milliseconds : Nat)

def MainCall.Reply : MainCall → Type
  | .engine e => e.Reply
  | .info _ => Unit
  | .sleepFor _ => Unit

abbrev MainCode := Prog MainCall MainCall.Reply

/-- Code of the engine, run by `main`. -/
def engineCode {α : Type} (p : Code α) : MainCode α :=
  p.translate fun e => Prog.perform (MainCall.engine e)

/-- One hour. -/
def hour : Nat := 60 * 60 * 1000

/-- `while (true)`, with a budget of rounds; `fuel` is that of the page loops. -/
def mainLoop (fuel : Nat) : (rounds : Nat) → Engine → MainCode Empty
  | 0, _ => .cut
  | rounds + 1, engine => do
    let engine ← engineCode (engine.run fuel)
    Prog.perform (MainCall.info "Sync completed. Sleeping for 1 hour...")
    Prog.perform (MainCall.sleepFor hour)
    mainLoop fuel rounds engine

end SyncLayer.Model
