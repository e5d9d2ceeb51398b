import SyncLayer.Interaction.Program

/-!
# Programs Under Interference

A `World` says which answers a call may get and how it may change the world, and what
other parties may do between two calls (`drift`). A program in a world takes small
steps (`World.Step`), so that a run may be looked at, or cut off, after any of them.

`Prog.wp I Q` is the usual weakest precondition, read over every point of the run: `I`
holds now and at every later point, and `Q` holds whenever the program has returned.
`wp_reach` is its soundness for the small steps.

`World.Spec I P p Q` packages it as a triple. Its rules ask for assertions that the
drift keeps (`Stable`).
-/

namespace SyncLayer.Interaction

open Relation

variable {E : Type} {R : E → Type} {α β W : Type}

/-- An environment given by its possible moves. -/
structure World (E : Type) (R : E → Type) (W : Type) where
  /-- `step w e r w'`: the call `e` made in `w` may be answered by `r`, leaving `w'`. -/
  step : W → (e : E) → R e → W → Prop
  /-- What other parties may do between two calls. -/
  drift : W → W → Prop

namespace World

variable (S : World E R W)

/-- One step of a program in its world. -/
inductive Step : Prog E R α × W → Prog E R α × W → Prop
  | call {e : E} {k : R e → Prog E R α} {w w' : W} {r : R e} (h : S.step w e r w') :
      Step (.call e k, w) (k r, w')
  | drift {p : Prog E R α} {w w' : W} (h : S.drift w w') : Step (p, w) (p, w')

/-- A run against a handler whose answers the world allows is a run in the world, which
    sees the handler's own world through `view`. -/
theorem reach_of_run {V : Type} {S : World E R W} {h : Prog.Handler E R V} (view : V → W)
    (hh : ∀ v e, S.step (view v) e (h e v).1 (view (h e v).2)) {p : Prog E R α} {v v' : V}
    {a : α} (hrun : p.run h v = (some a, v')) :
    ReflTransGen S.Step (p, view v) (.ret a, view v') := by
  induction p generalizing v with
  | ret b =>
    obtain ⟨hb, rfl⟩ := Prod.mk.inj hrun
    cases hb
    exact .refl
  | call e k ih => exact .head (.call (hh v e)) (ih _ hrun)
  | cut => cases hrun

/-- From `w` on the program comes through the world `w'`, where it may be cut off. -/
def Visits (p : Prog E R α) (w w' : W) : Prop := ∃ q, ReflTransGen S.Step (p, w) (q, w')

section Visits

variable {S : World E R W} {V : Type} {h : Prog.Handler E R V} {p : Prog E R α}
  {f : α → Prog E R β} {v v' : V} {w w' : W} {a : α}

theorem visits_of_run (view : V → W)
    (hh : ∀ v e, S.step (view v) e (h e v).1 (view (h e v).2)) (hrun : p.run h v = (some a, v')) :
    S.Visits p (view v) (view v') := ⟨_, reach_of_run view hh hrun⟩

/-- The whole comes through the worlds of its first part. -/
theorem reach_bind {q : Prog E R α} (h : ReflTransGen S.Step (p, w) (q, w')) :
    ReflTransGen S.Step (p >>= f, w) (q >>= f, w') := by
  apply h.lift fun s => (s.1 >>= f, s.2)
  intro s s' hs
  cases hs with
  | call h => exact .call h
  | drift h => exact .drift h

theorem Visits.bind (hp : S.Visits p w w') : S.Visits (p >>= f) w w' := by
  obtain ⟨q, hq⟩ := hp
  exact ⟨_, reach_bind hq⟩

/-- When the first part has returned, the whole comes through the worlds of the second. -/
theorem visits_bind (view : V → W)
    (hh : ∀ v e, S.step (view v) e (h e v).1 (view (h e v).2)) (hrun : p.run h v = (some a, v'))
    (hf : S.Visits (f a) (view v') w') : S.Visits (p >>= f) (view v) w' := by
  obtain ⟨q, hq⟩ := hf
  exact ⟨q, (reach_bind (reach_of_run view hh hrun)).trans hq⟩

end Visits

/-- The drift keeps `P`. -/
def Stable (P : W → Prop) : Prop :=
  ∀ ⦃w w'⦄, S.drift w w' → P w → P w'

variable {S}

theorem Stable.star {P : W → Prop} (hP : S.Stable P) {w w' : W}
    (h : ReflTransGen S.drift w w') (hw : P w) : P w' := by
  induction h with
  | refl => exact hw
  | tail _ hstep ih => exact hP hstep ih

theorem stable_const (p : Prop) : S.Stable fun _ => p := fun _ _ _ h => h

end World

/-! ## Weakest preconditions -/

namespace Prog

variable (S : World E R W)

/-- `I` holds from now on at every point of the run, `Q` whenever the program has returned. -/
def wp (I : W → Prop) (Q : α → W → Prop) : Prog E R α → W → Prop
  | .ret a, w => ∀ w', ReflTransGen S.drift w w' → I w' ∧ Q a w'
  | .call e k, w => ∀ w', ReflTransGen S.drift w w' →
      I w' ∧ ∀ r w'', S.step w' e r w'' → (k r).wp I Q w''
  | .cut, w => ∀ w', ReflTransGen S.drift w w' → I w'

variable {S} {I : W → Prop} {Q Q' : α → W → Prop} {p : Prog E R α} {w w' : W}

theorem wp_now (h : p.wp S I Q w) : I w := by
  cases p with
  | ret a => exact (h w .refl).1
  | call e k => exact (h w .refl).1
  | cut => exact h w .refl

theorem wp_drift (hd : S.drift w w') (h : p.wp S I Q w) : p.wp S I Q w' := by
  cases p with
  | ret a => exact fun v hv => h v (.head hd hv)
  | call e k => exact fun v hv => h v (.head hd hv)
  | cut => exact fun v hv => h v (.head hd hv)

theorem wp_mono (hQ : ∀ a v, I v → Q a v → Q' a v) (h : p.wp S I Q w) : p.wp S I Q' w := by
  induction p generalizing w with
  | ret a => exact fun v hv => ⟨(h v hv).1, hQ a v (h v hv).1 (h v hv).2⟩
  | call e k ih => exact fun v hv => ⟨(h v hv).1, fun r v' hs => ih r ((h v hv).2 r v' hs)⟩
  | cut => exact h

theorem wp_bind {f : α → Prog E R β} {Q : β → W → Prop}
    (h : p.wp S I (fun a v => (f a).wp S I Q v) w) : (p >>= f).wp S I Q w := by
  induction p generalizing w with
  | ret a => exact (h w .refl).2
  | call e k ih => exact fun v hv => ⟨(h v hv).1, fun r v' hs => ih r ((h v hv).2 r v' hs)⟩
  | cut => exact h

/-- One small step keeps the weakest precondition of what is left to run. -/
theorem wp_step {c c' : Prog E R α × W} (hs : S.Step c c') (h : c.1.wp S I Q c.2) :
    c'.1.wp S I Q c'.2 := by
  cases hs with
  | @call e k v v' r hstep => exact (h v .refl).2 r v' hstep
  | drift hd => exact wp_drift hd h

/-- Soundness: along a run the weakest precondition of what is left to run holds. -/
theorem wp_reach {c c' : Prog E R α × W} (hr : ReflTransGen S.Step c c')
    (h : c.1.wp S I Q c.2) : c'.1.wp S I Q c'.2 := by
  induction hr with
  | refl => exact h
  | tail _ hs ih => exact wp_step hs ih

end Prog

/-! ## Triples -/

namespace World

variable (S : World E R W)

/-- From every world in `I` and `P` the program keeps `I` throughout and returns in `Q`. -/
def Spec (I P : W → Prop) (p : Prog E R α) (Q : α → W → Prop) : Prop :=
  ∀ w, I w → P w → p.wp S I Q w

variable {S} {I P P' : W → Prop} {p : Prog E R α} {Q Q' : α → W → Prop}

theorem Spec.ret {a : α} (hI : S.Stable I) (hQ : S.Stable (Q a)) :
    S.Spec I (Q a) (.ret a) Q :=
  fun _ hi hq _ hd => ⟨hI.star hd hi, hQ.star hd hq⟩

theorem Spec.cut (hI : S.Stable I) : S.Spec I P (.cut : Prog E R α) Q :=
  fun _ hi _ _ hd => hI.star hd hi

theorem Spec.bind {f : α → Prog E R β} {Q' : β → W → Prop} (hp : S.Spec I P p Q)
    (hf : ∀ a, S.Spec I (Q a) (f a) Q') : S.Spec I P (p >>= f) Q' :=
  fun w hi hP => Prog.wp_bind (Prog.wp_mono (fun a v hv hq => hf a v hv hq) (hp w hi hP))

theorem Spec.conseq (h : S.Spec I P p Q) (hP : ∀ w, I w → P' w → P w)
    (hQ : ∀ a w, I w → Q a w → Q' a w) : S.Spec I P' p Q' :=
  fun w hi hP' => Prog.wp_mono hQ (h w hi (hP w hi hP'))

theorem Spec.pre (h : S.Spec I P p Q) (hP : ∀ w, I w → P' w → P w) : S.Spec I P' p Q :=
  h.conseq hP fun _ _ _ hq => hq

theorem Spec.perform {e : E} {Q : R e → W → Prop} (hI : S.Stable I) (hP : S.Stable P)
    (hQ : ∀ r, S.Stable (Q r))
    (h : ∀ w r w', I w → P w → S.step w e r w' → I w' ∧ Q r w') :
    S.Spec I P (.perform e) Q := by
  intro w hi hp v hd
  refine ⟨hI.star hd hi, fun r v' hs => ?_⟩
  obtain ⟨hi', hq⟩ := h v r v' (hI.star hd hi) (hP.star hd hp) hs
  exact Spec.ret hI (hQ r) v' hi' hq

/-- A known fact may be used in a proof of a triple. -/
theorem Spec.of_fact {c : Prop} (h : c → S.Spec I (fun _ => True) p Q) :
    S.Spec I (fun _ => c) p Q :=
  fun w hi hc => h hc w hi trivial

theorem Spec.of_fact_and {c : Prop} (h : c → S.Spec I P p Q) :
    S.Spec I (fun w => c ∧ P w) p Q :=
  fun w hi hP => h hP.1 w hi hP.2

/-- A program whose calls all keep the invariant keeps it throughout. -/
theorem Spec.of_calls {A : E → Prop} (hI : S.Stable I)
    (hA : ∀ w e r w', A e → I w → S.step w e r w' → I w') (hp : p.Calls A) :
    S.Spec I P p fun _ _ => True := by
  intro w hi hP
  -- the precondition is not needed, and would stand in the way of the induction
  clear hP
  induction p generalizing w with
  | ret a => exact fun v hd => ⟨hI.star hd hi, trivial⟩
  -- what drifts before the call, then the call, then the rest by induction
  | call e k ih =>
    intro v hd
    have hv : I v := hI.star hd hi
    exact ⟨hv, fun r v' hs => ih r (hp.2 r) v' (hA v e r v' hp.1 hv hs)⟩
  | cut => exact fun v hd => hI.star hd hi

/-- Loop rule for a list: an assertion that every pass keeps holds after the loop. -/
theorem Spec.forM {f : α → Prog E R PUnit} (l : List α) (hI : S.Stable I) (hP : S.Stable P)
    (hf : ∀ a ∈ l, S.Spec I P (f a) fun _ => P) :
    S.Spec I P (forM l f) fun _ => P := by
  induction l with
  | nil => exact Spec.ret (Q := fun _ => P) hI hP
  | cons a l ih =>
    rw [List.forM_cons]
    exact (hf a (List.mem_cons_self ..)).bind fun _ =>
      ih fun b hb => hf b (List.mem_cons_of_mem _ hb)

/-- The same for a loop that collects the results of its passes. -/
theorem Spec.mapM {f : α → Prog E R β} (l : List α) (hI : S.Stable I) (hP : S.Stable P)
    (hf : ∀ a ∈ l, S.Spec I P (f a) fun _ => P) :
    S.Spec I P (l.mapM f) fun _ => P := by
  induction l with
  | nil => exact Spec.ret (Q := fun _ => P) hI hP
  | cons a l ih =>
    rw [List.mapM_cons]
    refine (hf a (List.mem_cons_self ..)).bind fun b => ?_
    refine (ih fun c hc => hf c (List.mem_cons_of_mem _ hc)).bind fun bs => ?_
    exact Spec.ret (Q := fun _ => P) hI hP

end World

end SyncLayer.Interaction
