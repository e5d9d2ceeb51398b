import Mathlib.Logic.Function.Basic
import SyncLayer.Interaction.Program

/-!
# Threads

Threads run programs side by side. A call has a begin and an end, and the other threads
may move in between. An idle thread may start one of its jobs when it is admitted.

Calls in a set `A` exclude each other (`Exclusive`) when a thread is admitted only while
no other thread has a call in `A` open or ahead (`Alone`). The invariant is that at most
one thread is `Busy`: it holds in every state of every run (`exclusive_of_alone`). No
weaker rule for admission will do, since two busy threads can be led into a collision
(`exists_collision`), so `start_exclusive_iff` is an equivalence.
-/

namespace SyncLayer.Interaction

open Relation

/-! ## Calls that a program may still make -/

namespace Prog

variable {E : Type} {R : E → Type} {α β : Type} (A : E → Prop)

/-- With some answers the program comes to a call in `A`. -/
def MayCall : Prog E R α → Prop
  | .ret _ => False
  | .call e k => A e ∨ ∃ r, (k r).MayCall
  | .cut => False

variable {A}

theorem MayCall.bind {p : Prog E R α} (hp : p.MayCall A) (f : α → Prog E R β) :
    (p >>= f).MayCall A := by
  induction p with
  | ret a => exact hp.elim
  | call e k ih => exact hp.imp_right fun ⟨r, hr⟩ => ⟨r, ih r hr⟩
  | cut => exact hp.elim

end Prog

/-! ## Threads -/

/-- What a thread is doing. -/
inductive Thread (E : Type) (R : E → Type) (α : Type) : Type where
  /-- Its last program has returned `a`. -/
  | idle (a : α)
  /-- It is between two calls. -/
  | ready (p : Prog E R α)
  /-- The call `e` has begun and not ended. -/
  | inside (e : E) (k : R e → Prog E R α)

namespace Thread

variable {E : Type} {R : E → Type} {α : Type} (A : E → Prop)

/-- A call in `A` is open. -/
def Open : Thread E R α → Prop
  | .idle _ => False
  | .ready _ => False
  | .inside e _ => A e

/-- A call in `A` is open or may still come. -/
def Busy : Thread E R α → Prop
  | .idle _ => False
  | .ready p => p.MayCall A
  | .inside e k => A e ∨ ∃ r, (k r).MayCall A

variable {A}

theorem Open.busy {t : Thread E R α} (h : t.Open A) : t.Busy A := by
  cases t with
  | idle a => exact h
  | ready p => exact h.elim
  | inside e k => exact .inl h

end Thread

/-- What each thread is doing. -/
abbrev Pool (E : Type) (R : E → Type) {ι : Type} (α : ι → Type) :=
  (i : ι) → Thread E R (α i)

namespace Pool

variable {E : Type} {R : E → Type} {ι : Type} {α : ι → Type} [DecidableEq ι]

/-- One step of one thread. `jobs i a` are the programs that a thread may start after its
    last one has returned `a`; `allow` says when it may. -/
inductive Step (jobs : (i : ι) → α i → Prog E R (α i) → Prop) (allow : Pool E R α → ι → Prop) :
    Pool E R α → Pool E R α → Prop
  | start {s : Pool E R α} {i : ι} {a : α i} {p : Prog E R (α i)} (hi : s i = .idle a)
      (hp : jobs i a p) (hallow : allow s i) : Step jobs allow s (Function.update s i (.ready p))
  | begins {s : Pool E R α} {i : ι} {e : E} {k : R e → Prog E R (α i)}
      (hi : s i = .ready (.call e k)) : Step jobs allow s (Function.update s i (.inside e k))
  | ends {s : Pool E R α} {i : ι} {e : E} {k : R e → Prog E R (α i)} (r : R e)
      (hi : s i = .inside e k) : Step jobs allow s (Function.update s i (.ready (k r)))
  | stop {s : Pool E R α} {i : ι} {a : α i} (hi : s i = .ready (.ret a)) :
      Step jobs allow s (Function.update s i (.idle a))

/-- At most one call in `A` is open. -/
def Exclusive (A : E → Prop) (s : Pool E R α) : Prop :=
  ∀ i j, (s i).Open A → (s j).Open A → i = j

/-- At most one thread has a call in `A` open or ahead. -/
def OneBusy (A : E → Prop) (s : Pool E R α) : Prop :=
  ∀ i j, (s i).Busy A → (s j).Busy A → i = j

/-- No other thread has a call in `A` open or ahead. -/
def Alone (A : E → Prop) (s : Pool E R α) (i : ι) : Prop :=
  ∀ j, j ≠ i → ¬ (s j).Busy A

variable {jobs : (i : ι) → α i → Prog E R (α i) → Prop} {allow allow' : Pool E R α → ι → Prop}
  {A : E → Prop} {s s' : Pool E R α} {i j : ι}

theorem Step.mono (h : Step jobs allow s s') (hallow : ∀ i, allow s i → allow' s i) :
    Step jobs allow' s s' := by
  cases h with
  | start hi hp ha => exact .start hi hp (hallow _ ha)
  | begins hi => exact .begins hi
  | ends r hi => exact .ends r hi
  | stop hi => exact .stop hi

/-! ## Safety -/

omit [DecidableEq ι] in
theorem OneBusy.exclusive (h : OneBusy A s) : Exclusive A s :=
  fun i j hi hj => h i j hi.busy hj.busy

/-- A thread that goes on in its program does not become busy by that. -/
private theorem OneBusy.update (h : OneBusy A s) {t : Thread E R (α i)}
    (ht : t.Busy A → (s i).Busy A) : OneBusy A (Function.update s i t) := by
  -- nobody is busy now who was not busy before
  have hbusy : ∀ j, (Function.update s i t j).Busy A → (s j).Busy A := by
    intro j hj
    by_cases hij : j = i
    · subst hij
      rw [Function.update_self] at hj
      exact ht hj
    · rwa [Function.update_of_ne hij] at hj
  exact fun j j' hj hj' => h j j' (hbusy j hj) (hbusy j' hj')

theorem Alone.oneBusy (h : Alone A s i) (t : Thread E R (α i)) :
    OneBusy A (Function.update s i t) := by
  have hbusy : ∀ j, (Function.update s i t j).Busy A → j = i := by
    intro j hj
    by_contra hij
    rw [Function.update_of_ne hij] at hj
    exact h j hij hj
  exact fun j j' hj hj' => (hbusy j hj).trans (hbusy j' hj').symm

/-- Every step keeps the invariant. -/
theorem OneBusy.step (h : OneBusy A s) (hs : Step jobs allow s s')
    (hallow : ∀ i, allow s i → Alone A s i) : OneBusy A s' := by
  cases hs with
  -- only a start can make a thread busy, and then no other one is
  | start hi hp ha => exact (hallow _ ha).oneBusy _
  | begins hi =>
    refine h.update fun hbusy => ?_
    rw [hi]
    exact hbusy
  | ends r hi =>
    refine h.update fun hbusy => ?_
    rw [hi]
    exact .inr ⟨r, hbusy⟩
  | stop hi => exact h.update fun hbusy => hbusy.elim

/-- **Mutual exclusion**: in every state of a run that admits a thread only while it is
    alone, at most one call in `A` is open. -/
theorem exclusive_of_alone (h : OneBusy A s) (hr : ReflTransGen (Step jobs allow) s s')
    (hallow : ∀ s i, allow s i → Alone A s i) : Exclusive A s' := by
  have hbusy : OneBusy A s' := by
    induction hr with
    | refl => exact h
    | tail _ hstep ih => exact ih.step hstep (hallow _)
  exact hbusy.exclusive

/-! ## Collisions -/

variable (jobs allow)

private theorem reach_open_of_mayCall {p : Prog E R (α i)} (hp : p.MayCall A)
    (hi : s i = .ready p) : ∃ s', ReflTransGen (Step jobs allow) s s' ∧ (s' i).Open A ∧
      ∀ j, j ≠ i → s' j = s j := by
  induction p generalizing s with
  | ret a => exact hp.elim
  | cut => exact hp.elim
  | call e k ih =>
    have hbegins : Step jobs allow s (Function.update s i (.inside e k)) := .begins hi
    rcases hp with he | ⟨r, hr⟩
    · refine ⟨_, .single hbegins, ?_, fun j hj => Function.update_of_ne hj ..⟩
      rw [Function.update_self]
      exact he
    · -- the call is passed through with the answer that leads on
      have hends : Step jobs allow (Function.update s i (.inside e k)) _ :=
        .ends r (Function.update_self ..)
      obtain ⟨s', hreach, hopen, hother⟩ := ih r hr (Function.update_self ..)
      refine ⟨s', .head hbegins (.head hends hreach), hopen, fun j hj => ?_⟩
      rw [hother j hj, Function.update_of_ne hj, Function.update_of_ne hj]

/-- A busy thread comes to an open call in `A` while the others stand still. -/
theorem reach_open (hi : (s i).Busy A) : ∃ s', ReflTransGen (Step jobs allow) s s' ∧
    (s' i).Open A ∧ ∀ j, j ≠ i → s' j = s j := by
  cases ht : s i with
  | idle a =>
    rw [ht] at hi
    exact hi.elim
  | ready p =>
    rw [ht] at hi
    exact reach_open_of_mayCall jobs allow hi ht
  | inside e k =>
    rw [ht] at hi
    rcases hi with he | ⟨r, hr⟩
    · refine ⟨s, .refl, ?_, fun _ _ => rfl⟩
      rw [ht]
      exact he
    · -- the open call is another one: it ends, and the program goes on
      have hends : Step jobs allow s (Function.update s i (.ready (k r))) := .ends r ht
      obtain ⟨s', hreach, hopen, hother⟩ :=
        reach_open_of_mayCall jobs allow hr (Function.update_self i (.ready (k r)) s)
      refine ⟨s', .head hends hreach, hopen, fun j hj => ?_⟩
      rw [hother j hj, Function.update_of_ne hj]

/-- A thread comes to the end of its program while the others stand still. -/
theorem reach_idle {W : Type} (h : Prog.Handler E R W) {p : Prog E R (α i)} {w w' : W} {a : α i}
    (hrun : p.run h w = (some a, w')) (hi : s i = .ready p) :
    ∃ s', ReflTransGen (Step jobs allow) s s' ∧ s' i = .idle a ∧ ∀ j, j ≠ i → s' j = s j := by
  induction p generalizing s w with
  | ret b =>
    obtain ⟨hb, -⟩ := Prod.mk.inj hrun
    obtain rfl := Option.some.inj hb
    exact ⟨_, .single (.stop hi), Function.update_self .., fun j hj => Function.update_of_ne hj ..⟩
  | cut => cases hrun
  | call e k ih =>
    have hbegins : Step jobs allow s (Function.update s i (.inside e k)) := .begins hi
    have hends : Step jobs allow (Function.update s i (.inside e k)) _ :=
      .ends (h e w).1 (Function.update_self ..)
    obtain ⟨s', hreach, hidle, hother⟩ := ih _ hrun (Function.update_self ..)
    refine ⟨s', .head hbegins (.head hends hreach), hidle, fun j hj => ?_⟩
    rw [hother j hj, Function.update_of_ne hj, Function.update_of_ne hj]

/-- Two busy threads can be led into a collision, without any further start. -/
theorem exists_collision (hij : i ≠ j) (hi : (s i).Busy A) (hj : (s j).Busy A) :
    ∃ s', ReflTransGen (Step jobs allow) s s' ∧ (s' i).Open A ∧ (s' j).Open A := by
  -- first one thread moves to its open call, then the other; neither moves its partner
  obtain ⟨s₁, hreach₁, hopen₁, hother₁⟩ := reach_open jobs allow hi
  rw [← hother₁ j hij.symm] at hj
  obtain ⟨s₂, hreach₂, hopen₂, hother₂⟩ := reach_open jobs allow hj
  refine ⟨s₂, hreach₁.trans hreach₂, ?_, hopen₂⟩
  rw [hother₂ i hij]
  exact hopen₁

/-- Admission is exact: after the start of a program that may come to a call in `A`, all
    ways of going on are exclusive exactly when the thread started alone. -/
theorem start_exclusive_iff {p : Prog E R (α i)} (hp : p.MayCall A) :
    (∀ s', ReflTransGen (Step jobs fun _ _ => False) (Function.update s i (.ready p)) s' →
      Exclusive A s') ↔ Alone A s i := by
  constructor
  · intro h j hji hj
    -- a thread that is still busy collides with the one that has started
    have hj' : (Function.update s i (.ready p) j).Busy A := by
      rwa [Function.update_of_ne hji]
    have hi' : (Function.update s i (.ready p) i).Busy A := by
      rwa [Function.update_self]
    obtain ⟨s', hreach, hopen, hopen'⟩ := exists_collision jobs (fun _ _ => False) hji hj' hi'
    exact hji (h s' hreach j i hopen hopen')
  · exact fun h s' hreach => exclusive_of_alone (h.oneBusy _) hreach fun _ _ hf => hf.elim

end Pool

end SyncLayer.Interaction
