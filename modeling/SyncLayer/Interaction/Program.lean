import Mathlib.Logic.Relation
import Mathlib.Order.Filter.AtTopBot.Basic

/-!
# Programs That Call an Environment

A program is a well-founded tree of calls: each call is answered by the environment,
and the rest of the program depends on the answer. Nothing is said here about what a
call does. That is the business of

- a `Handler`, which answers every call and changes a world `W` (`Prog.run`);
- a `World`, which only restricts the possible answers and lets other parties change
  the world between two calls (`SyncLayer.Interaction.Interference`).

An unbounded loop is written with a budget of iterations. Where the budget is used up
the tree ends in `cut`, so that `run` returns no value. `Finishes` says that every
large enough budget gives the same value: the loop ends.
-/

namespace SyncLayer.Interaction

/-- A program over calls `e : E` answered in `R e`. -/
inductive Prog (E : Type) (R : E → Type) (α : Type) : Type where
  /-- The program has returned. -/
  | ret (a : α)
  /-- The program waits for the answer to `e`. -/
  | call (e : E) (k : R e → Prog E R α)
  /-- The iteration budget of a loop is used up. -/
  | cut

namespace Prog

variable {E : Type} {R : E → Type} {α β γ W : Type}

/-- Sequential composition. -/
def bind : Prog E R α → (α → Prog E R β) → Prog E R β
  | .ret a, f => f a
  | .call e k, f => .call e (fun r => (k r).bind f)
  | .cut, _ => .cut

instance : Monad (Prog E R) where
  pure := .ret
  bind := bind

/-- The program that makes one call and returns its answer. -/
def perform (e : E) : Prog E R (R e) := .call e .ret

@[simp] theorem ret_bind (a : α) (f : α → Prog E R β) : (Prog.ret a >>= f) = f a := rfl

@[simp] theorem call_bind (e : E) (k : R e → Prog E R α) (f : α → Prog E R β) :
    (Prog.call e k >>= f) = .call e (fun r => k r >>= f) := rfl

@[simp] theorem cut_bind (f : α → Prog E R β) : ((Prog.cut : Prog E R α) >>= f) = .cut := rfl

theorem bind_ret (p : Prog E R α) : (p >>= Prog.ret) = p := by
  induction p with
  | ret a => rfl
  | call e k ih => exact congrArg (Prog.call e) (funext ih)
  | cut => rfl

theorem bind_bind (p : Prog E R α) (f : α → Prog E R β) (g : β → Prog E R γ) :
    (p >>= f >>= g) = p >>= fun a => f a >>= g := by
  induction p with
  | ret a => rfl
  | call e k ih => exact congrArg (Prog.call e) (funext ih)
  | cut => rfl

instance : LawfulMonad (Prog E R) :=
  LawfulMonad.mk' _ bind_ret (fun _ _ => rfl) bind_bind

/-- What the program has returned, if it has. -/
def value : Prog E R α → Option α
  | .ret a => some a
  | _ => none

/-- Every call that the program can make is in `A`. -/
def Calls (A : E → Prop) : Prog E R α → Prop
  | .ret _ => True
  | .call e k => A e ∧ ∀ r, (k r).Calls A
  | .cut => True

variable {A : E → Prop}

@[simp] theorem calls_pure (a : α) : (pure a : Prog E R α).Calls A := trivial

@[simp] theorem calls_perform (e : E) : (perform e : Prog E R (R e)).Calls A ↔ A e :=
  and_iff_left fun _ => trivial

theorem calls_true (p : Prog E R α) : p.Calls fun _ => True := by
  induction p with
  | ret a => trivial
  | call e k ih => exact ⟨trivial, ih⟩
  | cut => trivial

theorem Calls.mono {B : E → Prop} {p : Prog E R α} (hp : p.Calls A) (h : ∀ e, A e → B e) :
    p.Calls B := by
  induction p with
  | ret a => trivial
  | call e k ih => exact ⟨h e hp.1, fun r => ih r (hp.2 r)⟩
  | cut => trivial

theorem calls_bind {p : Prog E R α} {f : α → Prog E R β} (hp : p.Calls A)
    (hf : ∀ a, (f a).Calls A) : (p >>= f).Calls A := by
  induction p with
  | ret a => exact hf a
  | call e k ih => exact ⟨hp.1, fun r => ih r (hp.2 r)⟩
  | cut => trivial

theorem calls_forM {f : α → Prog E R PUnit} (l : List α) (hf : ∀ a ∈ l, (f a).Calls A) :
    (forM l f).Calls A := by
  induction l with
  | nil => exact trivial
  | cons a l ih =>
    rw [List.forM_cons]
    apply calls_bind (hf a (List.mem_cons_self ..))
    intro _
    exact ih fun b hb => hf b (List.mem_cons_of_mem _ hb)

/-! ## Deterministic environments -/

/-- An environment that answers every call and updates its world. -/
abbrev Handler (E : Type) (R : E → Type) (W : Type) := (e : E) → W → R e × W

/-- Run a program against a handler; `none` when a loop budget was used up. -/
def run (h : Handler E R W) : Prog E R α → W → Option α × W
  | .ret a, w => (some a, w)
  | .call e k, w => (k (h e w).1).run h (h e w).2
  | .cut, w => (none, w)

variable (h : Handler E R W)

@[simp] theorem run_ret (a : α) (w : W) : (Prog.ret a : Prog E R α).run h w = (some a, w) := rfl

@[simp] theorem run_pure (a : α) (w : W) :
    (pure a : Prog E R α).run h w = (some a, w) := rfl

@[simp] theorem run_cut (w : W) : (Prog.cut : Prog E R α).run h w = (none, w) := rfl

@[simp] theorem run_call (e : E) (k : R e → Prog E R α) (w : W) :
    (Prog.call e k).run h w = (k (h e w).1).run h (h e w).2 := rfl

@[simp] theorem run_perform (e : E) (w : W) :
    (perform e : Prog E R (R e)).run h w = (some (h e w).1, (h e w).2) := rfl

/-- A first part that finishes hands its value and world to the second. -/
theorem run_bind_of_some {p : Prog E R α} {w w' : W} {a : α} (f : α → Prog E R β)
    (hp : p.run h w = (some a, w')) : (p >>= f).run h w = (f a).run h w' := by
  induction p generalizing w with
  | ret b =>
    obtain ⟨hb, rfl⟩ := Prod.mk.inj hp
    cases hb
    rfl
  | call e k ih => exact ih _ hp
  | cut => cases hp

/-- A first part that does not finish is all there is. -/
theorem run_bind_of_none {p : Prog E R α} {w w' : W} (f : α → Prog E R β)
    (hp : p.run h w = (none, w')) : (p >>= f).run h w = (none, w') := by
  induction p generalizing w with
  | ret b => cases hp
  | call e k ih => exact ih _ hp
  | cut =>
    obtain ⟨-, rfl⟩ := Prod.mk.inj hp
    rfl

/-- Changing the value at the end does not change the world. -/
theorem run_bind_pure_snd (p : Prog E R α) (f : α → β) (w : W) :
    ((p >>= fun a => pure (f a)).run h w).2 = (p.run h w).2 := by
  induction p generalizing w with
  | ret a => rfl
  | call e k ih => exact ih _ _
  | cut => rfl

@[simp] theorem run_perform_bind (e : E) (f : R e → Prog E R β) (w : W) :
    (perform e >>= f).run h w = (f (h e w).1).run h (h e w).2 := rfl

/-- What every call keeps, a run keeps. -/
theorem run_invariant {A : E → Prop} {P : W → Prop}
    (hP : ∀ e w, A e → P w → P (h e w).2) {p : Prog E R α} (hp : p.Calls A) {w : W} (hw : P w) :
    P (p.run h w).2 := by
  induction p generalizing w with
  | ret a => exact hw
  | call e k ih => exact ih _ (hp.2 _) (hP e w hp.1 hw)
  | cut => exact hw

/-- Loop rule for a list: when the body finishes from every world in `P` with effect `g`,
    the loop folds `g` over the list. -/
theorem run_forM {f : α → Prog E R PUnit} {g : W → α → W} {P : W → Prop} (l : List α)
    (hf : ∀ a ∈ l, ∀ w, P w → (f a).run h w = (some ⟨⟩, g w a) ∧ P (g w a)) :
    ∀ {w : W}, P w → (forM l f).run h w = (some ⟨⟩, l.foldl g w) ∧ P (l.foldl g w) := by
  induction l with
  | nil => exact fun hw => ⟨rfl, hw⟩
  | cons a l ih =>
    intro w hw
    obtain ⟨hrun, hP⟩ := hf a (List.mem_cons_self ..) w hw
    rw [List.forM_cons, run_bind_of_some h _ hrun]
    exact ih (fun b hb => hf b (List.mem_cons_of_mem _ hb)) hP

/-- An assertion on worlds holds where a composition ends, or is cut, when both parts keep
    it. -/
theorem run_bind_keeps {P : W → Prop} {p : Prog E R α} {f : α → Prog E R β} {w : W}
    (hp : P (p.run h w).2) (hf : ∀ a w', P w' → P ((f a).run h w').2) :
    P ((p >>= f).run h w).2 := by
  induction p generalizing w with
  | ret a => exact hf a w hp
  | call e k ih => exact ih _ hp
  | cut => exact hp

/-- Likewise for a loop over a list. -/
theorem run_forM_keeps {P : W → Prop} {f : α → Prog E R PUnit} (l : List α)
    (hf : ∀ a w, P w → P ((f a).run h w).2) {w : W} (hw : P w) : P ((forM l f).run h w).2 := by
  induction l generalizing w with
  | nil => exact hw
  | cons a l ih =>
    rw [List.forM_cons]
    exact run_bind_keeps h (hf a w hw) fun _ _ hw' => ih hw'

/-! ## Budgets -/

/-- With every large enough budget the program returns `a` and leaves the world `w'`. -/
def Finishes (p : Nat → Prog E R α) (w : W) (a : α) (w' : W) : Prop :=
  ∀ᶠ n in Filter.atTop, (p n).run h w = (some a, w')

variable {h}

/-- The outcome of a finishing loop is unique. -/
theorem Finishes.unique {p : Nat → Prog E R α} {w w₁ w₂ : W} {a₁ a₂ : α}
    (h₁ : Finishes h p w a₁ w₁) (h₂ : Finishes h p w a₂ w₂) : a₁ = a₂ ∧ w₁ = w₂ := by
  obtain ⟨n, hn₁, hn₂⟩ := (h₁.and h₂).exists
  rw [hn₁] at hn₂
  obtain ⟨ha, hw⟩ := Prod.mk.inj hn₂
  exact ⟨Option.some.inj ha, hw⟩

/-- Finishing programs compose. -/
theorem Finishes.bind {p : Nat → Prog E R α} {f : Nat → α → Prog E R β} {w w' w'' : W}
    {a : α} {b : β} (hp : Finishes h p w a w') (hf : Finishes h (fun n => f n a) w' b w'') :
    Finishes h (fun n => p n >>= f n) w b w'' :=
  (hp.and hf).mono fun n ⟨h₁, h₂⟩ => by rw [run_bind_of_some h (f n) h₁, h₂]

/-! ## Programs inside programs -/

variable {F : Type} {S : F → Type} {V : Type}

/-- Replace each call by a program over another kind of calls. -/
def translate (g : (e : E) → Prog F S (R e)) : Prog E R α → Prog F S α
  | .ret a => .ret a
  | .call e k => g e >>= fun r => (k r).translate g
  | .cut => .cut

/-- **Simulation**: if the outer environment answers the programs as an inner one answers the
    calls, the runs are the same. `φ` takes the inner worlds to the outer ones. -/
theorem run_translate {g : (e : E) → Prog F S (R e)} {h : Handler F S W} {h' : Handler E R V}
    (φ : V → W) (hg : ∀ e v, (g e).run h (φ v) = (some (h' e v).1, φ (h' e v).2))
    (p : Prog E R α) (v : V) :
    (p.translate g).run h (φ v) = ((p.run h' v).1, φ (p.run h' v).2) := by
  induction p generalizing v with
  | ret a => rfl
  | call e k ih =>
    rw [translate, run_bind_of_some h _ (hg e v), ih]
    rfl
  | cut => rfl

end Prog

end SyncLayer.Interaction
