import SyncLayer.Interaction.Program

/-!
# Silent Calls

Calls whose answer is known beforehand, such as log lines, can be left out of a program
(`quiet`). Nothing changes in an environment that takes no notice of them (`run_quiet`).

Two programs are `Alike` if, with the silent calls left out, they make the same calls and
return related values. Since the answers are not restricted, no environment can tell such
programs apart, save by the calls that were left out.
-/

namespace SyncLayer.Interaction.Prog

variable {E F : Type} {R : E → Type} {S : F → Type} {α β γ δ W : Type}

/-! ## Leaving calls out -/

/-- Leave out the calls that `s` answers. -/
def quiet (s : (e : E) → Option (R e)) : Prog E R α → Prog E R α
  | .ret a => .ret a
  | .call e k =>
    match s e with
    | some r => (k r).quiet s
    | none => .call e fun r => (k r).quiet s
  | .cut => .cut

variable {s : (e : E) → Option (R e)}

theorem quiet_call_of_some {e : E} {r : R e} (h : s e = some r) (k : R e → Prog E R α) :
    (Prog.call e k).quiet s = (k r).quiet s := by
  rw [quiet, h]

theorem quiet_call_of_none {e : E} (h : s e = none) (k : R e → Prog E R α) :
    (Prog.call e k).quiet s = .call e fun r => (k r).quiet s := by
  rw [quiet, h]

theorem quiet_bind (p : Prog E R α) (f : α → Prog E R β) :
    (p >>= f).quiet s = p.quiet s >>= fun a => (f a).quiet s := by
  induction p with
  | ret a => rfl
  | call e k ih =>
    rw [call_bind]
    cases h : s e with
    | some r => rw [quiet_call_of_some h, quiet_call_of_some h, ih]
    | none =>
      rw [quiet_call_of_none h, quiet_call_of_none h, call_bind]
      exact congrArg (Prog.call e) (funext ih)
  | cut => rfl

/-- The environment takes no notice of the silent calls. -/
def Handler.Ignores (h : Handler E R W) (s : (e : E) → Option (R e)) : Prop :=
  ∀ e r w, s e = some r → h e w = (r, w)

theorem run_quiet {h : Handler E R W} (hs : h.Ignores s) (p : Prog E R α) (w : W) :
    (p.quiet s).run h w = p.run h w := by
  induction p generalizing w with
  | ret a => rfl
  | call e k ih =>
    cases he : s e with
    | some r => rw [quiet_call_of_some he, ih, run_call, hs e r w he]
    | none =>
      rw [quiet_call_of_none he]
      exact ih _ _
  | cut => rfl

/-- Inside another program the silent calls are left out in the same way. -/
theorem quiet_translate {s' : (f : F) → Option (S f)} {g : (e : E) → Prog F S (R e)}
    (hsome : ∀ e r, s e = some r → (g e).quiet s' = pure r)
    (hnone : ∀ e, s e = none → (g e).quiet s' = g e) (p : Prog E R α) :
    (p.translate g).quiet s' = (p.quiet s).translate g := by
  induction p with
  | ret a => rfl
  | call e k ih =>
    rw [translate, quiet_bind, funext ih]
    cases he : s e with
    | some r =>
      rw [hsome e r he, quiet_call_of_some he]
      rfl
    | none =>
      rw [hnone e he, quiet_call_of_none he, translate]
  | cut => rfl

/-! ## The same calls -/

/-- The same calls, and related values at the end. -/
inductive Matches (Q : α → β → Prop) : Prog E R α → Prog E R β → Prop
  | ret {a : α} {b : β} (h : Q a b) : Matches Q (.ret a) (.ret b)
  | call (e : E) {k : R e → Prog E R α} {k' : R e → Prog E R β}
      (h : ∀ r, Matches Q (k r) (k' r)) : Matches Q (.call e k) (.call e k')
  | cut : Matches Q .cut .cut

variable {Q : α → β → Prop} {T : γ → δ → Prop}

theorem Matches.refl {Q : α → α → Prop} (hQ : ∀ a, Q a a) (p : Prog E R α) : Matches Q p p := by
  induction p with
  | ret a => exact .ret (hQ a)
  | call e k ih => exact .call e ih
  | cut => exact .cut

theorem Matches.bind {p : Prog E R α} {p' : Prog E R β} {f : α → Prog E R γ}
    {f' : β → Prog E R δ} (hp : Matches Q p p') (hf : ∀ a b, Q a b → Matches T (f a) (f' b)) :
    Matches T (p >>= f) (p' >>= f') := by
  induction hp with
  | ret h => exact hf _ _ h
  | call e _ ih => exact .call e ih
  | cut => exact .cut

theorem Matches.translate {p : Prog E R α} {p' : Prog E R β} (hp : Matches Q p p')
    (g : (e : E) → Prog F S (R e)) : Matches Q (p.translate g) (p'.translate g) := by
  induction hp with
  | ret h => exact .ret h
  | call e _ ih =>
    apply Matches.bind (Matches.refl (Q := Eq) (fun _ => rfl) (g e))
    rintro r _ rfl
    exact ih r
  | cut => exact .cut

/-- Programs that return nothing, or the same, are equal. -/
theorem Matches.eq {p p' : Prog E R α} (h : Matches Eq p p') : p = p' := by
  induction h with
  | ret h => rw [h]
  | call e _ ih => exact congrArg (Prog.call e) (funext ih)
  | cut => rfl

/-- The same calls, save silent ones, and related values at the end. -/
def Alike (s : (e : E) → Option (R e)) (Q : α → β → Prop) (p : Prog E R α)
    (p' : Prog E R β) : Prop :=
  Matches Q (p.quiet s) (p'.quiet s)

theorem Alike.pure {a : α} {b : β} (h : Q a b) :
    Alike s Q (Pure.pure a : Prog E R α) (Pure.pure b) :=
  .ret h

theorem Alike.refl {Q : α → α → Prop} (hQ : ∀ a, Q a a) (p : Prog E R α) : Alike s Q p p :=
  Matches.refl hQ _

theorem Alike.bind {p : Prog E R α} {p' : Prog E R β} {f : α → Prog E R γ}
    {f' : β → Prog E R δ} (hp : Alike s Q p p') (hf : ∀ a b, Q a b → Alike s T (f a) (f' b)) :
    Alike s T (p >>= f) (p' >>= f') := by
  rw [Alike, quiet_bind, quiet_bind]
  exact Matches.bind hp hf

end SyncLayer.Interaction.Prog
