import Mathlib.Logic.Function.Basic

/-!
# Partial Maps Filled Without Overwriting

Partial maps `K → Option V` under the left-biased union `overlay m s`: the entries of
`m`, and those of `s` where `m` has none. It is associative and idempotent, and `m`
always survives in it (`extends_overlay`). The one fact that makes interrupted copies
repeatable is `overlay_absorb`: a map between `m` and `overlay m s` gives the same
result as `m` when `s` is laid under it.

`insertAll key m vs` inserts values one by one under their keys, never over an
existing entry. It is an overlay (`insertAll_eq_overlay`), so these laws apply to it.
-/

namespace SyncLayer.PartialMap

variable {K V : Type}

/-- The entries of `m`, and those of `s` where `m` has none. -/
def overlay (m s : K → Option V) : K → Option V := fun k => (m k).or (s k)

/-- Every entry of `m` is an entry of `m'`. -/
def Extends (m m' : K → Option V) : Prop := ∀ k v, m k = some v → m' k = some v

theorem Extends.refl (m : K → Option V) : Extends m m := fun _ _ h => h

theorem Extends.trans {m m' m'' : K → Option V} (h : Extends m m') (h' : Extends m' m'') :
    Extends m m'' := fun k v hm => h' k v (h k v hm)

/-! ## The left-biased union -/

theorem overlay_eq_some {m s : K → Option V} {k : K} {v : V} :
    overlay m s k = some v ↔ m k = some v ∨ (m k = none ∧ s k = some v) :=
  Option.or_eq_some_iff

theorem overlay_assoc (m s s' : K → Option V) :
    overlay (overlay m s) s' = overlay m (overlay s s') :=
  funext fun _ => Option.or_assoc

theorem overlay_self (m : K → Option V) : overlay m m = m :=
  funext fun _ => Option.or_self

theorem extends_overlay (m s : K → Option V) : Extends m (overlay m s) :=
  fun _ _ h => overlay_eq_some.2 (Or.inl h)

/-- A map between `m` and `overlay m s` is completed by `s` to the same map as `m`. -/
theorem overlay_absorb {m m' s : K → Option V} (h : Extends m m')
    (h' : Extends m' (overlay m s)) : overlay m' s = overlay m s := by
  funext k
  cases hm' : m' k with
  | some v =>
    -- an entry of `m'` is one of `m`, or one that `s` would give
    have hs : overlay m s k = some v := h' k v hm'
    rw [hs]
    simp [overlay, hm']
  | none =>
    -- no entry in `m'`, so none in `m`: both take what `s` has
    have hm : m k = none := by
      cases hm : m k with
      | none => rfl
      | some v => rw [h k v hm] at hm'; cases hm'
    simp [overlay, hm, hm']

/-! ## Free keys filled from a set -/

section Fills

variable {S S' : Set V} {m m' m'' : K → Option V}

/-- `m'` has the entries of `m`, and the values in `S` under keys that `m` does not have. -/
def Fills (key : V → K) (S : Set V) (m m' : K → Option V) : Prop :=
  ∀ k v, m' k = some v ↔ m k = some v ∨ (m k = none ∧ key v = k ∧ v ∈ S)

theorem Fills.refl (key : V → K) (m : K → Option V) : Fills key ∅ m m := by
  intro k v
  constructor
  · intro h
    exact .inl h
  · rintro (h | ⟨-, -, hv⟩)
    · exact h
    · exact hv.elim

/-- The set, and not more, determines the result. -/
theorem Fills.unique (h : Fills key S m m') (h' : Fills key S m m'') : m' = m'' := by
  funext k
  apply Option.ext
  intro v
  rw [h k v, h' k v]

/-- Where keys identify the values, filling from two sets is filling from both. -/
theorem Fills.trans (hkey : ∀ v ∈ S, ∀ v' ∈ S', key v = key v' → v = v') (h : Fills key S m m')
    (h' : Fills key S' m' m'') : Fills key (S ∪ S') m m'' := by
  intro k v
  rw [h' k v, h k v]
  constructor
  · rintro ((hold | ⟨hfree, hk, hv⟩) | ⟨hfree, hk, hv⟩)
    · exact .inl hold
    · exact .inr ⟨hfree, hk, .inl hv⟩
    · -- a key that is free after the first step was free before
      refine .inr ⟨?_, hk, .inr hv⟩
      cases hm : m k with
      | none => rfl
      | some u => rw [(h k u).2 (.inl hm)] at hfree; cases hfree
  · rintro (hold | ⟨hfree, hk, hv | hv⟩)
    · exact .inl (.inl hold)
    · exact .inl (.inr ⟨hfree, hk, hv⟩)
    · cases hm' : m' k with
      | none => exact .inr ⟨rfl, hk, hv⟩
      | some u =>
        -- the key has been taken in the first step, by the same value
        obtain hold | ⟨-, hu, hmem⟩ := (h k u).1 hm'
        · rw [hfree] at hold
          cases hold
        · obtain rfl : u = v := hkey u hmem v hv (hu.trans hk.symm)
          exact .inl (.inr ⟨hfree, hk, hmem⟩)

end Fills

/-! ## Insertion under a key -/

variable [DecidableEq K] (key : V → K)

/-- Insert `v` under its key, unless the key is taken. -/
def insertAbsent (m : K → Option V) (v : V) : K → Option V :=
  if (m (key v)).isSome then m else Function.update m (key v) (some v)

/-- Insert the values in order, each unless its key is taken by then. -/
def insertAll (m : K → Option V) (vs : List V) : K → Option V :=
  vs.foldl (insertAbsent key) m

/-- The first of the values under each key. -/
def firstWith (vs : List V) : K → Option V := fun k => vs.find? fun v => key v = k

variable {key}

theorem insertAbsent_eq_overlay (m : K → Option V) (v : V) :
    insertAbsent key m v = overlay m (firstWith key [v]) := by
  funext k
  by_cases hk : key v = k
  · -- under its own key the value counts only where `m` has none
    subst hk
    cases hm : m (key v) <;> simp [insertAbsent, overlay, firstWith, hm]
  · cases hm : m (key v) <;>
      simp [insertAbsent, overlay, firstWith, hm, hk, Function.update_of_ne (Ne.symm hk)]

theorem firstWith_cons (v : V) (vs : List V) :
    firstWith key (v :: vs) = overlay (firstWith key [v]) (firstWith key vs) := by
  funext k
  by_cases hk : key v = k <;> simp [firstWith, overlay, hk]

theorem insertAll_eq_overlay (m : K → Option V) (vs : List V) :
    insertAll key m vs = overlay m (firstWith key vs) := by
  induction vs generalizing m with
  | nil => funext k; simp [insertAll, overlay, firstWith]
  | cons v vs ih =>
    calc insertAll key m (v :: vs)
        = insertAll key (insertAbsent key m v) vs := rfl
      _ = overlay (overlay m (firstWith key [v])) (firstWith key vs) := by
          rw [ih, insertAbsent_eq_overlay]
      _ = overlay m (firstWith key (v :: vs)) := by rw [overlay_assoc, ← firstWith_cons]

theorem insertAll_nil (m : K → Option V) : insertAll key m [] = m := rfl

theorem insertAll_append (m : K → Option V) (vs vs' : List V) :
    insertAll key m (vs ++ vs') = insertAll key (insertAll key m vs) vs' :=
  List.foldl_append

/-- Inserting the same values again changes nothing. -/
theorem insertAll_idem (m : K → Option V) (vs : List V) :
    insertAll key (insertAll key m vs) vs = insertAll key m vs := by
  simp only [insertAll_eq_overlay, overlay_assoc, overlay_self]

theorem extends_insertAll (m : K → Option V) (vs : List V) :
    Extends m (insertAll key m vs) := by
  rw [insertAll_eq_overlay]
  exact extends_overlay _ _

/-- An inserted entry is one of the values, under its own key. -/
theorem firstWith_eq_some {vs : List V} {k : K} {v : V} (h : firstWith key vs k = some v) :
    v ∈ vs ∧ key v = k :=
  ⟨List.mem_of_find?_eq_some h, by simpa using List.find?_some h⟩

/-- Where keys identify the values, the values are exactly the entries. -/
theorem firstWith_of_mem {vs : List V} (hkey : ∀ v ∈ vs, ∀ v' ∈ vs, key v = key v' → v = v')
    {v : V} (hv : v ∈ vs) : firstWith key vs (key v) = some v := by
  cases hf : firstWith key vs (key v) with
  | none => simpa using List.find?_eq_none.1 hf v hv
  | some v' =>
    obtain ⟨hv', heq⟩ := firstWith_eq_some hf
    rw [hkey v' hv' v hv heq]

/-- After the insertion every inserted key is taken. -/
theorem isSome_insertAll_of_mem {m : K → Option V} {vs : List V} {v : V} (hv : v ∈ vs) :
    (insertAll key m vs (key v)).isSome := by
  rw [insertAll_eq_overlay, overlay, Option.isSome_or, Bool.or_eq_true]
  right
  rw [firstWith, List.find?_isSome]
  exact ⟨v, hv, decide_eq_true rfl⟩

theorem insertAll_eq_some {m : K → Option V} {vs : List V}
    (hkey : ∀ v ∈ vs, ∀ v' ∈ vs, key v = key v' → v = v') {k : K} {v : V} :
    insertAll key m vs k = some v ↔ m k = some v ∨ (m k = none ∧ v ∈ vs ∧ key v = k) := by
  rw [insertAll_eq_overlay, overlay_eq_some]
  refine or_congr_right (and_congr_right fun _ => ⟨firstWith_eq_some, ?_⟩)
  rintro ⟨hv, rfl⟩
  exact firstWith_of_mem hkey hv

end SyncLayer.PartialMap
