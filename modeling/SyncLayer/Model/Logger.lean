import SyncLayer.Model.Libpq

/-!
# The Log

`logging/Logger.cpp`: the level of the configuration decides which lines are written. The
level of each line is that of the call of `spdlog` that writes it.
-/

namespace SyncLayer.Model

/-- `spdlog::level` -/
inductive Level where
  | trace
  | debug
  | info
  | warn
  | err
  | critical
  deriving DecidableEq

/-- The order of the levels. -/
def Level.toNat : Level → Nat
  | .trace => 0
  | .debug => 1
  | .info => 2
  | .warn => 3
  | .err => 4
  | .critical => 5

/-- The level at which a line is written. -/
def LogLine.level : LogLine → Level
  | .queryFailed _ => .warn
  | .startingSync _ => .info
  | .skippingTable _ => .warn
  | .syncingTable _ => .info
  | .selectFailed _ => .err
  | .insertFailed _ => .err
  | .syncedRows _ _ _ => .info
  | .completedTable _ _ => .info
  | .syncCompleted => .info
  | .managerStarted _ _ => .info
  | .syncAborted => .err
  | .healthCheckBegins => .info
  | .healthCheckFailed _ => .err
  | .healthCheckPassed => .info
  | .healthCheckNotPassed => .warn
  | .discoveryFailed => .err
  | .noPrimaryKey _ => .warn
  | .primaryKeyFailed _ => .err
  | .trackingTables _ _ => .info
  | .replicating _ _ _ => .info
  | .drained _ => .info
  | .engineRunStart => .info
  | .managerNotAvailable => .warn

end SyncLayer.Model
