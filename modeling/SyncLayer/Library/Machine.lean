/-!
# Machines

A machine takes a step for each label of a list; a label that it cannot take ends the run.
`Along` looks at every state on the way and `EachStep` at every step. When a step from a good
state leads to a good state exactly if it meets a condition, all states of a run are good
exactly if all its steps meet the condition (`along_iff_eachStep`).
-/

namespace SyncLayer.Machine

variable {S A : Type} (step : S → A → Option S)

/-- The state after the labels. -/
def run : S → List A → Option S
  | s, [] => some s
  | s, a :: as => (step s a).bind fun s' => run s' as

/-- `P` holds in every state that the labels lead through. -/
def Along (P : S → Prop) : S → List A → Prop
  | s, [] => P s
  | s, a :: as => P s ∧ ∀ s', step s a = some s' → Along P s' as

/-- `Q` holds of every step that is taken, and of the state it is taken in. -/
def EachStep (Q : S → A → Prop) : S → List A → Prop
  | _, [] => True
  | s, a :: as => ∀ s', step s a = some s' → Q s a ∧ EachStep Q s' as

/-- No label can be taken. -/
def Stuck (s : S) : Prop := ∀ a, step s a = none

variable {step} {P W : S → Prop} {Q : S → A → Prop} {s s' : S} {a : A} {as : List A}

theorem run_cons_eq_some {t : S} (hrun : run step s (a :: as) = some t) :
    ∃ s', step s a = some s' ∧ run step s' as = some t := by
  rw [run] at hrun
  exact Option.bind_eq_some_iff.1 hrun

/-- What every step keeps holds at the end of every run. -/
theorem run_induction (hW : ∀ s a s', W s → step s a = some s' → W s') (hs : W s) {t : S}
    (hrun : run step s as = some t) : W t := by
  induction as generalizing s with
  | nil =>
    cases hrun
    exact hs
  | cons a as ih =>
    obtain ⟨s', hstep, hrest⟩ := run_cons_eq_some hrun
    exact ih (hW s a s' hs hstep) hrest

/-- A machine that is stuck stays where it is. -/
theorem Stuck.run_eq (hstuck : Stuck step s) {t : S} (hrun : run step s as = some t) : t = s := by
  cases as with
  | nil =>
    cases hrun
    rfl
  | cons a as =>
    obtain ⟨s', hstep, _⟩ := run_cons_eq_some hrun
    rw [hstuck a] at hstep
    cases hstep

theorem Along.head (h : Along step P s as) : P s := by
  cases as with
  | nil => exact h
  | cons a as => exact h.1

theorem Along.run_end (h : Along step P s as) {t : S} (hrun : run step s as = some t) : P t := by
  induction as generalizing s with
  | nil =>
    cases hrun
    exact h
  | cons a as ih =>
    obtain ⟨s', hstep, hrest⟩ := run_cons_eq_some hrun
    exact ih (h.2 s' hstep) hrest

/-- `W` holds in all states anyway; from a state with `P`, a step leads to `P` exactly if
    it meets `Q`. -/
theorem along_iff_eachStep (hW : ∀ s a s', W s → step s a = some s' → W s')
    (hPQ : ∀ s a s', W s → P s → step s a = some s' → (P s' ↔ Q s a)) (hs : W s) (hP : P s) :
    Along step P s as ↔ EachStep step Q s as := by
  induction as generalizing s with
  | nil => exact ⟨fun _ => trivial, fun _ => hP⟩
  | cons a as ih =>
    constructor
    · intro halong s' hstep
      have hrest := halong.2 s' hstep
      have hQ := (hPQ s a s' hs hP hstep).1 hrest.head
      exact ⟨hQ, (ih (hW s a s' hs hstep) hrest.head).1 hrest⟩
    · intro heach
      refine ⟨hP, fun s' hstep => ?_⟩
      obtain ⟨hQ, hrest⟩ := heach s' hstep
      have hP' := (hPQ s a s' hs hP hstep).2 hQ
      exact (ih (hW s a s' hs hstep) hP').2 hrest

end SyncLayer.Machine
