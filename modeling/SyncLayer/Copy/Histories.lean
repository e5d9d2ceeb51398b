import SyncLayer.Copy.Interleavings

/-!
# Histories of the Service

A history is a run of the whole service: `start` is called again and again, the process
may be restarted at any point with any configuration, statements fare in any way, and
other clients change the local database in any way between two statements.

Nothing that is in the hosted database ever changes or disappears, and everything that
appears there was a row of the local table of the same name at some earlier moment of
the history (`hosted_never_clobbered`).
-/

namespace SyncLayer.Copy

open SyncLayer.Interaction SyncLayer.Model SyncLayer.Database SyncLayer.PartialMap

/-- One step of the service or of its surroundings. -/
inductive ServiceStep (C : Catalog) :
    Code ReplicationManager × Databases C → Code ReplicationManager × Databases C → Prop
  /-- The call of `start` goes on, or other clients change the local database. -/
  | proceed {c c' : Code ReplicationManager × Databases C}
      (h : (databases C fun _ _ => True).Step c c') : ServiceStep C c c'
  /-- The call has returned, and the main loop makes the next one. -/
  | again (m : ReplicationManager) (fuel : Nat) (w : Databases C) :
      ServiceStep C (.ret m, w) (m.start fuel, w)
  /-- The process dies and a fresh one makes its first call. -/
  | restart (p : Code ReplicationManager) (config : Config) (fuel : Nat) (w : Databases C) :
      ServiceStep C (p, w) (ReplicationManager.start fuel { config }, w)

/-- A run of the service, moment by moment; at some moments nothing may happen. -/
structure History (C : Catalog) where
  moment : Nat → Code ReplicationManager × Databases C
  begins : ∃ config fuel, (moment 0).1 = ReplicationManager.start fuel { config }
  step : ∀ n, moment (n + 1) = moment n ∨ ServiceStep C (moment n) (moment (n + 1))

namespace History

variable {C : Catalog} (σ : History C)

def hosted (n : Nat) : HostedDb := (σ.moment n).2.hosted

def localDb (n : Nat) : LocalDb C.table := (σ.moment n).2.localDb

/-- One step takes nothing away from the hosted database. -/
theorem extends_step (n : Nat) (t : String) : Extends (σ.hosted n t) (σ.hosted (n + 1) t) := by
  unfold hosted
  rcases σ.step n with heq | hstep
  · rw [heq]
    exact Extends.refl _
  · generalize σ.moment n = c at hstep ⊢
    generalize σ.moment (n + 1) = c' at hstep ⊢
    cases hstep with
    | proceed h =>
      cases h with
      -- a call of the service: only an INSERT changes the hosted database
      | @call e k w w' r hcall =>
        cases e with
        | pqexec conn query =>
          obtain ⟨outcome, hr, -⟩ := hcall
          exact extends_respond hr t
        | pqescapeLiteral text =>
          obtain ⟨-, rfl⟩ := hcall
          exact Extends.refl _
        | sleepFor milliseconds =>
          obtain rfl : w' = w := hcall
          exact Extends.refl _
        | log line =>
          obtain rfl : w' = w := hcall
          exact Extends.refl _
      -- other clients change the local database only
      | @drift p w w' hdrift =>
        show Extends (w.hosted t) (w'.hosted t)
        rw [hdrift.1]
        exact Extends.refl _
    | again m fuel w => exact Extends.refl _
    | restart p config fuel w => exact Extends.refl _

/-- The row versions that the local tables have had up to moment `j`. -/
def versions (j : Nat) (t : String) : Set Row := { r | ∃ i ≤ j, r ∈ (σ.localDb i t).rows }

/-- Up to moment `j` the service keeps the invariant for the versions up to then. The
    induction is on the moments; what is left of the call keeps its precondition. -/
theorem safe (j n : Nat) (hn : n ≤ j) :
    (σ.moment n).1.wp (databases C (Within C (σ.versions j)))
      (Safe (σ.hosted 0) (σ.versions j) Set.univ) (fun _ _ => True) (σ.moment n).2 := by
  have hstart := fun fuel m => spec_start (C := C) (H := σ.hosted 0) (V := σ.versions j)
    (fun _ _ h => h) fuel m
  induction n with
  | zero =>
    obtain ⟨config, fuel, hprogram⟩ := σ.begins
    rw [hprogram]
    apply hstart fuel { config } _ _ trivial
    constructor
    · exact fun t r hr => ⟨0, hn, hr⟩
    · exact fun t => Extends.refl _
    · exact fun t k r hr => Or.inl hr
  | succ n ih =>
    have hwp := ih (by omega)
    -- rows that the local tables have at this moment are versions, by definition
    have hlocal : ∀ t, ∀ r ∈ ((σ.moment (n + 1)).2.localDb t).rows, r ∈ σ.versions j t :=
      fun t r hr => ⟨n + 1, hn, hr⟩
    rcases σ.step n with heq | hstep
    · rw [heq]
      exact hwp
    · generalize σ.moment n = c at hstep hwp
      generalize σ.moment (n + 1) = c' at hstep hlocal ⊢
      cases hstep with
      | proceed h =>
        cases h with
        | call hcall => exact Prog.wp_step (World.Step.call hcall) hwp
        | drift hdrift => exact Prog.wp_drift ⟨hdrift.1, hlocal⟩ hwp
      | again m fuel w => exact hstart fuel m w (Prog.wp_now hwp) trivial
      | restart p config fuel w => exact hstart fuel { config } w (Prog.wp_now hwp) trivial

end History

/-- **The hosted side is never clobbered and receives no invented row**: along every
    history, what is in a hosted table stays as it is, and what appears there was a row of
    the local table of that name at some moment. -/
theorem hosted_never_clobbered {C : Catalog} (σ : History C) :
    (∀ i j, i ≤ j → ∀ t k r, σ.hosted i t k = some r → σ.hosted j t k = some r) ∧
      ∀ j t k r, σ.hosted j t k = some r →
        σ.hosted 0 t k = some r ∨
          ∃ i ≤ j, r ∈ (σ.localDb i t).rows ∧ (C.table t).keyOf r = k := by
  constructor
  · intro i j hij t
    induction j, hij using Nat.le_induction with
    | base => exact Extends.refl _
    | succ j _ ih => exact Extends.trans ih (σ.extends_step j t)
  · intro j t k r hr
    rcases (Prog.wp_now (σ.safe j j (Nat.le_refl j))).gained t k r hr with
      hold | ⟨-, ⟨i, hi, hmem⟩, hkey⟩
    · exact Or.inl hold
    · exact Or.inr ⟨i, hi, hmem, hkey⟩

end SyncLayer.Copy
