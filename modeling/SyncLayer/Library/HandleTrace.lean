import Mathlib.Data.List.Nodup
import Mathlib.Logic.Equiv.Basic

/-!
# Traces of Handles

What happens to handles that are handed out, read and given back, as a list of events,
newest first. `Sound` says that nothing is used that is not held at that moment, `Holds`
lists what is held at the end. Releasing what is held until nothing is left releases
every handle exactly once (`Sound.count_released`). `Owned` says who holds what: every live
handle has one owner, and keeps having one when it is handed on (`Owned.transfer`).
-/

namespace SyncLayer.HandleTrace

variable {H : Type} {h : H}

inductive Event (H : Type) where
  | got (h : H)
  | read (h : H)
  | released (h : H)
  deriving DecidableEq

/-- Handed out and not yet released. -/
def Live (h : H) (t : List (Event H)) : Prop := .got h ∈ t ∧ .released h ∉ t

/-- A handle that is handed out is fresh; one that is read or released was handed out
    before and not released since. -/
def Sound : List (Event H) → Prop
  | [] => True
  | .got h :: t => .got h ∉ t ∧ Sound t
  | .read h :: t => Live h t ∧ Sound t
  | .released h :: t => Live h t ∧ Sound t

variable {t : List (Event H)} {L : List H}

theorem Sound.tail {ev : Event H} (hs : Sound (ev :: t)) : Sound t := by
  cases ev with
  | got h => exact hs.2
  | read h => exact hs.2
  | released h => exact hs.2

/-- What was released had been handed out. -/
theorem Sound.got_of_released (hs : Sound t) (hr : .released h ∈ t) : .got h ∈ t := by
  induction t with
  | nil => exact absurd hr List.not_mem_nil
  | cons ev t ih =>
    apply List.mem_cons_of_mem
    cases List.mem_cons.1 hr with
    | inl heq =>
      subst heq
      exact hs.1.1
    | inr hmem => exact ih hs.tail hmem

/-! ## What an event changes -/

theorem live_got (hs : Sound t) (hfresh : .got h ∉ t) {h' : H} :
    Live h' (.got h :: t) ↔ h' = h ∨ Live h' t := by
  have hreleased : h' = h → .released h' ∉ t := by
    rintro rfl hmem
    exact hfresh (hs.got_of_released hmem)
  simp only [Live, List.mem_cons, reduceCtorEq, false_or, Event.got.injEq]
  constructor
  · rintro ⟨heq | hgot, hnot⟩
    · exact .inl heq
    · exact .inr ⟨hgot, hnot⟩
  · rintro (heq | hlive)
    · exact ⟨.inl heq, hreleased heq⟩
    · exact ⟨.inr hlive.1, hlive.2⟩

theorem live_read {h' : H} : Live h' (.read h :: t) ↔ Live h' t := by
  simp [Live]

theorem live_released {h' : H} : Live h' (.released h :: t) ↔ Live h' t ∧ h' ≠ h := by
  simp only [Live, List.mem_cons, reduceCtorEq, false_or, Event.released.injEq, not_or]
  tauto

/-! ## Fresh handles -/

/-- A number above all that were handed out. -/
def next : List (Event Nat) → Nat
  | [] => 0
  | .got h :: t => max (h + 1) (next t)
  | .read _ :: t => next t
  | .released _ :: t => next t

theorem lt_next {t : List (Event Nat)} {h : Nat} (hgot : .got h ∈ t) : h < next t := by
  induction t with
  | nil => exact absurd hgot List.not_mem_nil
  | cons ev t ih =>
    cases ev with
    | got h' =>
      obtain heq | hmem := List.mem_cons.1 hgot
      · cases heq
        exact Nat.lt_of_lt_of_le (Nat.lt_succ_self h) (Nat.le_max_left ..)
      · exact Nat.lt_of_lt_of_le (ih hmem) (Nat.le_max_right ..)
    | read h' => exact ih ((List.mem_cons.1 hgot).resolve_left (by simp))
    | released h' => exact ih ((List.mem_cons.1 hgot).resolve_left (by simp))

theorem got_next_notMem (t : List (Event Nat)) : .got (next t) ∉ t :=
  fun hmem => Nat.lt_irrefl _ (lt_next hmem)

/-! ## What is held -/

/-- `L` lists the live handles. -/
structure Holds (t : List (Event H)) (L : List H) : Prop where
  nodup : L.Nodup
  mem_iff : ∀ h, h ∈ L ↔ Live h t

theorem holds_nil : Holds ([] : List (Event H)) [] :=
  ⟨List.nodup_nil, fun _ => ⟨fun hmem => absurd hmem List.not_mem_nil,
    fun hlive => absurd hlive.1 List.not_mem_nil⟩⟩

theorem Holds.got (hs : Sound t) (hL : Holds t L) (hfresh : .got h ∉ t) :
    Holds (.got h :: t) (h :: L) where
  nodup := List.nodup_cons.2 ⟨fun hmem => hfresh ((hL.mem_iff h).1 hmem).1, hL.nodup⟩
  mem_iff h' := by
    rw [List.mem_cons, live_got hs hfresh, hL.mem_iff]

theorem Holds.read (hL : Holds t L) : Holds (.read h :: t) L where
  nodup := hL.nodup
  mem_iff h' := by
    rw [live_read, hL.mem_iff]

theorem Holds.released (hL : Holds t (h :: L)) : Holds (.released h :: t) L where
  nodup := (List.nodup_cons.1 hL.nodup).2
  mem_iff h' := by
    have hmem : h' ∈ L ↔ h' ∈ h :: L ∧ h' ≠ h := by
      constructor
      · intro hL'
        refine ⟨List.mem_cons_of_mem _ hL', ?_⟩
        rintro rfl
        exact (List.nodup_cons.1 hL.nodup).1 hL'
      · rintro ⟨hcons, hne⟩
        exact (List.mem_cons.1 hcons).resolve_left hne
    rw [live_released, hmem, hL.mem_iff]

/-! ## Owners -/

section Owners

variable {O : Type} {held : O → Option H} {o o' : O}

/-- `held o` is the handle that `o` holds, if any: every live handle is held, by one owner. -/
structure Owned (t : List (Event H)) (held : O → Option H) : Prop where
  sound : Sound t
  holder : ∀ h, Live h t ↔ ∃ o, held o = some h
  unique : ∀ o o' h, held o = some h → held o' = some h → o = o'

theorem owned_nil : Owned ([] : List (Event H)) fun _ : O => none where
  sound := trivial
  holder h := by simp [Live]
  unique o o' h hh _ := by cases hh

theorem Owned.read (ho : Owned t held) (hheld : held o = some h) : Owned (.read h :: t) held where
  sound := ⟨(ho.holder h).2 ⟨o, hheld⟩, ho.sound⟩
  holder h' := by
    rw [live_read, ho.holder]
  unique := ho.unique

/-- Owners may exchange what they hold. -/
theorem Owned.exchange (ho : Owned t held) (e : Equiv.Perm O) : Owned t (held ∘ e) where
  sound := ho.sound
  holder h := by
    rw [ho.holder, e.surjective.exists]
    rfl
  unique x x' h hx hx' := e.injective (ho.unique _ _ h hx hx')

variable [DecidableEq O]

/-- A fresh handle goes to an owner that holds nothing. -/
theorem Owned.acquire (ho : Owned t held) (hfree : held o = none) (hfresh : .got h ∉ t) :
    Owned (.got h :: t) (Function.update held o (some h)) where
  sound := ⟨hfresh, ho.sound⟩
  holder h' := by
    rw [live_got ho.sound hfresh, ho.holder]
    constructor
    · rintro (rfl | ⟨x, hx⟩)
      · exact ⟨o, Function.update_self ..⟩
      · -- who holds something is not `o`
        have hne : x ≠ o := by
          rintro rfl
          rw [hfree] at hx
          cases hx
        exact ⟨x, by rwa [Function.update_of_ne hne]⟩
    · rintro ⟨x, hx⟩
      by_cases hxo : x = o
      · rw [hxo, Function.update_self] at hx
        exact .inl (Option.some.inj hx).symm
      · rw [Function.update_of_ne hxo] at hx
        exact .inr ⟨x, hx⟩
  unique x x' h' hx hx' := by
    -- nobody else holds the fresh handle
    have hother : ∀ y, held y ≠ some h := fun y hy => hfresh ((ho.holder h).2 ⟨y, hy⟩).1
    simp only [Function.update_apply] at hx hx'
    split at hx
    · next hxo =>
      split at hx'
      · next hxo' => rw [hxo, hxo']
      · rw [← Option.some.inj hx] at hx'
        exact absurd hx' (hother x')
    · split at hx'
      · rw [← Option.some.inj hx'] at hx
        exact absurd hx (hother x)
      · exact ho.unique x x' h' hx hx'

theorem Owned.release (ho : Owned t held) (hheld : held o = some h) :
    Owned (.released h :: t) (Function.update held o none) where
  sound := ⟨(ho.holder h).2 ⟨o, hheld⟩, ho.sound⟩
  holder h' := by
    rw [live_released, ho.holder]
    constructor
    · rintro ⟨⟨x, hx⟩, hne⟩
      have hxo : x ≠ o := by
        rintro rfl
        rw [hheld] at hx
        exact hne (Option.some.inj hx).symm
      exact ⟨x, by rwa [Function.update_of_ne hxo]⟩
    · rintro ⟨x, hx⟩
      have hxo : x ≠ o := by
        rintro rfl
        rw [Function.update_self] at hx
        cases hx
      rw [Function.update_of_ne hxo] at hx
      refine ⟨⟨x, hx⟩, ?_⟩
      rintro rfl
      exact hxo (ho.unique x o h' hx hheld)
  unique x x' h' hx hx' := by
    simp only [Function.update_apply] at hx hx'
    split at hx
    · cases hx
    · split at hx'
      · cases hx'
      · exact ho.unique x x' h' hx hx'

/-- `o` hands what it holds to `o'`, which holds nothing. -/
theorem Owned.transfer (ho : Owned t held) (hne : o' ≠ o) (hfree : held o' = none) :
    Owned t (Function.update (Function.update held o' (held o)) o none) := by
  have hswap : Function.update (Function.update held o' (held o)) o none =
      held ∘ Equiv.swap o o' := by
    funext x
    by_cases hxo : x = o
    · simp [hxo, hfree]
    · by_cases hxo' : x = o'
      · simp [hxo', hne]
      · simp [hxo, hxo', Equiv.swap_apply_of_ne_of_ne hxo hxo']
  rw [hswap]
  exact ho.exchange _

end Owners

/-! ## Balance -/

section Count

variable [DecidableEq H]

theorem Sound.count_released_le (hs : Sound t) : t.count (.released h) ≤ 1 := by
  induction t with
  | nil => exact Nat.zero_le 1
  | cons ev t ih =>
    have ht := ih hs.tail
    rw [List.count_cons]
    split
    · next heq =>
      -- the handle was live, so there is no earlier release
      obtain rfl := eq_of_beq heq
      have hzero : t.count (.released h) = 0 := List.count_eq_zero.2 hs.1.2
      omega
    · exact ht

/-- **Balance**: when nothing is held any more, every handle that was handed out has been
    released exactly once. -/
theorem Sound.count_released (hs : Sound t) (hL : Holds t []) (hgot : .got h ∈ t) :
    t.count (.released h) = 1 := by
  have hreleased : .released h ∈ t := by
    by_contra hnot
    exact List.not_mem_nil ((hL.mem_iff h).2 ⟨hgot, hnot⟩)
  exact Nat.le_antisymm hs.count_released_le (List.count_pos_iff.2 hreleased)

end Count

end SyncLayer.HandleTrace
