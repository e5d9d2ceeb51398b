import Mathlib.Data.List.Basic
import SyncLayer.Interaction.Threads

/-!
# Protocols

A `Monitor` watches the calls of a program together with their answers. In each of its
states it says which calls may be made and which answers are reckoned with, and every
answer leads to a next state. `Prog.Obeys M Q p s` says that `p`, started in state `s`,
makes permitted calls only, as long as the answers are the expected ones, and returns in
`Q`. Its rules are those of a Hoare logic.

What a program obeys can be read off its runs in two ways. In a pool of threads, whatever
the other threads do, the events of a thread are accepted by its monitor
(`History.follows`). And two handlers that agree on permitted calls cannot be told apart
by the program (`Obeys.run_congr`).
-/

namespace SyncLayer.Interaction

/-- A call with the answer it got. -/
abbrev Event (E : Type) (R : E → Type) : Type := Sigma R

/-- An observer of calls and answers. -/
structure Monitor (E : Type) (R : E → Type) (σ : Type) where
  /-- The calls that may be made. -/
  may : σ → E → Prop
  /-- The answers that are reckoned with. -/
  expects : σ → (e : E) → R e → Prop := fun _ _ _ => True
  /-- The state after an answer. -/
  next : σ → (e : E) → R e → σ

variable {E : Type} {R : E → Type} {α β σ τ W : Type}

/-- A list, the results of its elements, and the record that was written on the way: one
    piece for each element, in order. -/
inductive Collected (D : α → List τ → β → Prop) : List α → List τ → List β → Prop
  | nil : Collected D [] [] []
  | cons {a : α} {added : List τ} {b : β} {as : List α} {rest : List τ} {bs : List β}
      (h : D a added b) (hrest : Collected D as rest bs) :
      Collected D (a :: as) (added ++ rest) (b :: bs)

theorem Collected.length_eq {D : α → List τ → β → Prop} {as : List α} {ts : List τ} {bs : List β}
    (h : Collected D as ts bs) : bs.length = as.length := by
  induction h with
  | nil => rfl
  | cons _ _ ih => rw [List.length_cons, List.length_cons, ih]

/-- The monitor that permits only the calls in `A` among those of `M`. -/
def Monitor.restrict (M : Monitor E R σ) (A : E → Prop) : Monitor E R σ :=
  { M with may := fun s e => A e ∧ M.may s e }

/-! ## Programs -/

namespace Prog

variable (M : Monitor E R σ)

/-- The program makes permitted calls only, and `Q` holds where it returns. -/
def Obeys (Q : α → σ → Prop) : Prog E R α → σ → Prop
  | .ret a, s => Q a s
  | .call e k, s => M.may s e ∧ ∀ r, M.expects s e r → (k r).Obeys Q (M.next s e r)
  | .cut, _ => True

variable {M} {Q Q' : α → σ → Prop} {p : Prog E R α} {s : σ}

@[simp] theorem obeys_pure (a : α) : (pure a : Prog E R α).Obeys M Q s ↔ Q a s := Iff.rfl

@[simp] theorem obeys_perform_bind (e : E) (f : R e → Prog E R α) :
    (perform e >>= f).Obeys M Q s ↔
      M.may s e ∧ ∀ r, M.expects s e r → (f r).Obeys M Q (M.next s e r) := Iff.rfl

theorem Obeys.mono (h : p.Obeys M Q s) (hQ : ∀ a s, Q a s → Q' a s) : p.Obeys M Q' s := by
  induction p generalizing s with
  | ret a => exact hQ a s h
  | call e k ih => exact ⟨h.1, fun r hr => ih r (h.2 r hr)⟩
  | cut => trivial

/-- Sequential composition. -/
theorem Obeys.bind {f : α → Prog E R β} {Q : β → σ → Prop}
    (h : p.Obeys M (fun a s => (f a).Obeys M Q s) s) : (p >>= f).Obeys M Q s := by
  induction p generalizing s with
  | ret a => exact h
  | call e k ih => exact ⟨h.1, fun r hr => ih r (h.2 r hr)⟩
  | cut => trivial

/-- The rule for a call after which nothing happens. -/
theorem obeys_perform {e : E} {Q : R e → σ → Prop} (hmay : M.may s e)
    (hQ : ∀ r, M.expects s e r → Q r (M.next s e r)) : (perform e).Obeys M Q s :=
  ⟨hmay, hQ⟩

/-- Loop rule for a list: an assertion that every pass keeps holds after the loop. -/
theorem obeys_forM {f : α → Prog E R PUnit} {P : σ → Prop} (l : List α)
    (hf : ∀ a ∈ l, ∀ s, P s → (f a).Obeys M (fun _ => P) s) :
    ∀ {s : σ}, P s → (forM l f).Obeys M (fun _ => P) s := by
  induction l with
  | nil => exact fun hs => hs
  | cons a l ih =>
    intro s hs
    rw [List.forM_cons]
    apply Obeys.bind
    apply (hf a (List.mem_cons_self ..) s hs).mono
    intro _ s' hs'
    exact ih (fun b hb => hf b (List.mem_cons_of_mem _ hb)) hs'

/-- The same for a loop that collects its results. Every pass adds to a record, and `D`
    relates an element, what its pass has added, and its result. -/
theorem obeys_mapM {f : α → Prog E R β} {D : α → List τ → β → Prop} {P : List τ → σ → Prop}
    (l : List α)
    (hf : ∀ a ∈ l, ∀ ts s, P ts s →
      (f a).Obeys M (fun b s' => ∃ added, D a added b ∧ P (ts ++ added) s') s) :
    ∀ (ts : List τ) (s : σ), P ts s →
      (l.mapM f).Obeys M (fun bs s' => ∃ added, Collected D l added bs ∧ P (ts ++ added) s') s := by
  induction l with
  | nil =>
    intro ts s hs
    refine ⟨[], .nil, ?_⟩
    rwa [List.append_nil]
  | cons a l ih =>
    intro ts s hs
    rw [List.mapM_cons]
    apply Obeys.bind
    apply (hf a (List.mem_cons_self ..) ts s hs).mono
    rintro b s' ⟨added, hb, hs'⟩
    apply Obeys.bind
    apply (ih (fun b hb => hf b (List.mem_cons_of_mem _ hb)) _ _ hs').mono
    rintro bs s'' ⟨rest, hbs, hs''⟩
    refine ⟨added ++ rest, .cons hb hbs, ?_⟩
    rwa [← List.append_assoc]

/-- Calls that are permitted in all states in `P` and do not lead out of `P`. -/
theorem obeys_of_calls {A : E → Prop} {P : σ → Prop} (hp : p.Calls A)
    (hA : ∀ e s, A e → P s → M.may s e ∧ ∀ r, M.expects s e r → P (M.next s e r))
    (hs : P s) : p.Obeys M (fun _ => P) s := by
  induction p generalizing s with
  | ret a => exact hs
  | call e k ih =>
    obtain ⟨hmay, hnext⟩ := hA e s hp.1 hs
    exact ⟨hmay, fun r hr => ih r (hp.2 r) (hnext r hr)⟩
  | cut => trivial

theorem Obeys.restrict {A : E → Prop} (h : p.Obeys M Q s) (hp : p.Calls A) :
    p.Obeys (M.restrict A) Q s := by
  induction p generalizing s with
  | ret a => exact h
  | call e k ih => exact ⟨⟨hp.1, h.1⟩, fun r hr => ih r (h.2 r hr) (hp.2 r)⟩
  | cut => trivial

/-- Two handlers that agree on the permitted calls, and give expected answers to them, give
    the same run. `J` is what relates the state of the monitor to the world. -/
theorem Obeys.run_congr {h h' : Handler E R W} {J : σ → W → Prop}
    (hstep : ∀ s e w, M.may s e → J s w → h e w = h' e w ∧ M.expects s e (h e w).1 ∧
      J (M.next s e (h e w).1) (h e w).2)
    (hp : p.Obeys M Q s) {w : W} (hw : J s w) :
    p.run h w = p.run h' w ∧
      ∀ a w', p.run h w = (some a, w') → ∃ s', Q a s' ∧ J s' w' := by
  induction p generalizing s w with
  | ret a =>
    refine ⟨rfl, fun b w' hrun => ?_⟩
    obtain ⟨hb, rfl⟩ := Prod.mk.inj hrun
    cases hb
    exact ⟨s, hp, hw⟩
  | call e k ih =>
    obtain ⟨hsame, hexp, hJ⟩ := hstep s e w hp.1 hw
    rw [run_call, run_call, ← hsame]
    exact ih _ (hp.2 _ hexp) hJ
  | cut => exact ⟨rfl, fun a w' hrun => by cases hrun⟩

/-- The calls of a run against a handler, with their answers. -/
def trace (h : Handler E R W) : Prog E R α → W → List (Event E R)
  | .ret _, _ => []
  | .call e k, w => ⟨e, (h e w).1⟩ :: (k (h e w).1).trace h (h e w).2
  | .cut, _ => []

/-- Along a run with expected answers all calls are permitted. -/
theorem Obeys.may_of_mem_trace {h : Handler E R W} (hexp : ∀ s e w, M.expects s e (h e w).1)
    (hp : p.Obeys M Q s) {w : W} {x : Event E R} (hx : x ∈ p.trace h w) :
    ∃ s', M.may s' x.1 := by
  induction p generalizing s w with
  | ret a => cases hx
  | cut => cases hx
  | call e k ih =>
    rcases List.mem_cons.1 hx with rfl | hrest
    · exact ⟨s, hp.1⟩
    · exact ih _ (hp.2 _ (hexp s e w)) hrest

end Prog

/-! ## Sequences of events -/

namespace Monitor

variable (M : Monitor E R σ)

/-- The state after a sequence of events. -/
def after (s : σ) (l : List (Event E R)) : σ := l.foldl (fun s x => M.next s x.1 x.2) s

/-- All answers are expected. -/
def Expected : σ → List (Event E R) → Prop
  | _, [] => True
  | s, x :: l => M.expects s x.1 x.2 ∧ Expected (M.next s x.1 x.2) l

/-- All calls are permitted, up to the first answer that is not expected. -/
def Accepts : σ → List (Event E R) → Prop
  | _, [] => True
  | s, x :: l => M.may s x.1 ∧ (M.expects s x.1 x.2 → Accepts (M.next s x.1 x.2) l)

variable {M} {s : σ}

@[simp] theorem after_cons (x : Event E R) (l : List (Event E R)) :
    M.after s (x :: l) = M.after (M.next s x.1 x.2) l := rfl

theorem after_concat (l : List (Event E R)) (x : Event E R) :
    M.after s (l ++ [x]) = M.next (M.after s l) x.1 x.2 := by
  rw [after, List.foldl_append]
  rfl

theorem expected_concat {l : List (Event E R)} {x : Event E R} :
    M.Expected s (l ++ [x]) ↔ M.Expected s l ∧ M.expects (M.after s l) x.1 x.2 := by
  induction l generalizing s with
  | nil => exact and_comm
  | cons y l ih =>
    rw [List.cons_append, Expected, ih, Expected, after_cons, and_assoc]

theorem accepts_concat {l : List (Event E R)} {x : Event E R} (hl : M.Accepts s l)
    (hx : M.Expected s l → M.may (M.after s l) x.1) : M.Accepts s (l ++ [x]) := by
  induction l generalizing s with
  | nil => exact ⟨hx trivial, fun _ => trivial⟩
  | cons y l ih => exact ⟨hl.1, fun hy => ih (hl.2 hy) fun he => hx ⟨hy, he⟩⟩

theorem Accepts.of_restrict {A : E → Prop} {l : List (Event E R)}
    (h : (M.restrict A).Accepts s l) : M.Accepts s l := by
  induction l generalizing s with
  | nil => trivial
  | cons x l ih => exact ⟨h.1.2, fun hx => ih (h.2 hx)⟩

/-- What acceptance says about an event in the middle. -/
theorem Accepts.may {l₁ l₂ : List (Event E R)} {x : Event E R}
    (h : M.Accepts s (l₁ ++ x :: l₂)) (he : M.Expected s l₁) : M.may (M.after s l₁) x.1 := by
  induction l₁ generalizing s with
  | nil => exact h.1
  | cons y l₁ ih => exact ih (h.2 he.1) he.2

/-- What every permitted call keeps holds after an accepted sequence. The assertion may
    speak of the events so far. -/
theorem Accepts.invariant {P : List (Event E R) → σ → Prop} {l : List (Event E R)}
    (h : M.Accepts s l) (he : M.Expected s l) (h₀ : P [] s)
    (hstep : ∀ l s e r, P l s → M.may s e → M.expects s e r → P (l ++ [⟨e, r⟩]) (M.next s e r)) :
    P l (M.after s l) := by
  -- the induction is on the events to come; `l₀` are those before
  have hrest : ∀ (l l₀ : List (Event E R)) (s : σ), M.Accepts s l → M.Expected s l → P l₀ s →
      P (l₀ ++ l) (M.after s l) := by
    intro l
    induction l with
    | nil =>
      intro l₀ s _ _ hP
      rwa [List.append_nil]
    | cons x l ih =>
      intro l₀ s hl he hP
      have hx : P (l₀ ++ [x]) (M.next s x.1 x.2) := hstep l₀ s x.1 x.2 hP hl.1 he.1
      have hall := ih (l₀ ++ [x]) _ (hl.2 he.1) he.2 hx
      rwa [List.append_assoc] at hall
  exact hrest l [] s h he h₀

/-- A prefix of an accepted sequence is accepted. -/
theorem Accepts.of_append {l₁ l₂ : List (Event E R)} (h : M.Accepts s (l₁ ++ l₂)) :
    M.Accepts s l₁ := by
  induction l₁ generalizing s with
  | nil => trivial
  | cons x l₁ ih => exact ⟨h.1, fun hx => ih (h.2 hx)⟩

end Monitor

/-! ## Threads -/

namespace Thread

/-- What is left of a thread obeys the monitor; `Q` holds of an idle thread. -/
def Follows (M : Monitor E R σ) (Q : α → σ → Prop) : Thread E R α → σ → Prop
  | .idle a, s => Q a s
  | .ready p, s => p.Obeys M Q s
  | .inside e k, s => M.may s e ∧ ∀ r, M.expects s e r → (k r).Obeys M Q (M.next s e r)

end Thread

namespace Pool

variable {ι : Type} {α : ι → Type} [DecidableEq ι]

/-- A run from `s₀`, with the answered calls of all threads in the order of the answers. -/
inductive History (jobs : (i : ι) → α i → Prog E R (α i) → Prop)
    (allow : Pool E R α → ι → Prop) (s₀ : Pool E R α) :
    List (ι × Event E R) → Pool E R α → Prop
  | nil : History jobs allow s₀ [] s₀
  | start {l : List (ι × Event E R)} {s : Pool E R α} {i : ι} {a : α i} {p : Prog E R (α i)}
      (h : History jobs allow s₀ l s) (hi : s i = .idle a) (hp : jobs i a p)
      (hallow : allow s i) : History jobs allow s₀ l (Function.update s i (.ready p))
  | begins {l : List (ι × Event E R)} {s : Pool E R α} {i : ι} {e : E}
      {k : R e → Prog E R (α i)} (h : History jobs allow s₀ l s)
      (hi : s i = .ready (.call e k)) :
      History jobs allow s₀ l (Function.update s i (.inside e k))
  | ends {l : List (ι × Event E R)} {s : Pool E R α} {i : ι} {e : E}
      {k : R e → Prog E R (α i)} (h : History jobs allow s₀ l s) (hi : s i = .inside e k)
      (r : R e) :
      History jobs allow s₀ (l ++ [(i, ⟨e, r⟩)]) (Function.update s i (.ready (k r)))
  | stop {l : List (ι × Event E R)} {s : Pool E R α} {i : ι} {a : α i}
      (h : History jobs allow s₀ l s) (hi : s i = .ready (.ret a)) :
      History jobs allow s₀ l (Function.update s i (.idle a))

variable {jobs : (i : ι) → α i → Prog E R (α i) → Prop} {allow : Pool E R α → ι → Prop}
  {s₀ s : Pool E R α} {l : List (ι × Event E R)}

/-- The events of one thread. -/
def own (i : ι) (l : List (ι × Event E R)) : List (Event E R) :=
  l.filterMap fun x => if x.1 = i then some x.2 else none

theorem own_concat_self (i : ι) (l : List (ι × Event E R)) (x : Event E R) :
    own i (l ++ [(i, x)]) = own i l ++ [x] := by
  simp [own]

theorem own_concat_of_ne {i j : ι} (hij : j ≠ i) (l : List (ι × Event E R)) (x : Event E R) :
    own i (l ++ [(j, x)]) = own i l := by
  simp [own, hij]

theorem own_map_self (i : ι) (l : List (Event E R)) : own i (l.map fun x => (i, x)) = l := by
  simp [own]

/-- A thread may run on while the others stand still, with the answers of a handler. -/
theorem History.run (h : Prog.Handler E R W) {i : ι} {p : Prog E R (α i)} {w : W}
    (hl : History jobs allow s₀ l s) (hi : s i = .ready p) :
    ∃ s', History jobs allow s₀ (l ++ (p.trace h w).map fun x => (i, x)) s' := by
  induction p generalizing l s w with
  | ret a =>
    rw [Prog.trace, List.map_nil, List.append_nil]
    exact ⟨s, hl⟩
  | cut =>
    rw [Prog.trace, List.map_nil, List.append_nil]
    exact ⟨s, hl⟩
  | call e k ih =>
    have hends := (hl.begins hi).ends (Function.update_self ..) (h e w).1
    obtain ⟨s', hs'⟩ := @ih (h e w).1 _ _ (h e w).2 hends (Function.update_self ..)
    rw [List.append_assoc] at hs'
    exact ⟨s', hs'⟩

variable {σ : ι → Type} {M : (i : ι) → Monitor E R (σ i)} {Q : (i : ι) → α i → σ i → Prop}
  {m₀ : (i : ι) → σ i}

/-- What the events of a thread have led to. -/
private def Led (M : Monitor E R β) (m₀ : β) {γ : Type} (Q : γ → β → Prop)
    (l : List (Event E R)) (t : Thread E R γ) : Prop :=
  M.Accepts m₀ l ∧ (M.Expected m₀ l → t.Follows M Q (M.after m₀ l))

private theorem Led.update {i : ι} {l : ι → List (Event E R)}
    (h : ∀ j, Led (M j) (m₀ j) (Q j) (l j) (s j)) {t : Thread E R (α i)}
    (ht : ∀ m, (s i).Follows (M i) (Q i) m → t.Follows (M i) (Q i) m) (j : ι) :
    Led (M j) (m₀ j) (Q j) (l j) (Function.update s i t j) := by
  refine ⟨(h j).1, fun he => ?_⟩
  by_cases hij : j = i
  · subst hij
    rw [Function.update_self]
    exact ht _ ((h j).2 he)
  · rw [Function.update_of_ne hij]
    exact (h j).2 he

/-- **Soundness**: when the jobs obey the monitors of their threads, the events of every
    thread are accepted, and what is left of it obeys its monitor. -/
theorem History.follows (h : History jobs allow s₀ l s)
    (hjobs : ∀ i a m p, Q i a m → jobs i a p → p.Obeys (M i) (Q i) m)
    (h₀ : ∀ i, (s₀ i).Follows (M i) (Q i) (m₀ i)) (i : ι) :
    (M i).Accepts (m₀ i) (own i l) ∧
      ((M i).Expected (m₀ i) (own i l) →
        (s i).Follows (M i) (Q i) ((M i).after (m₀ i) (own i l))) := by
  suffices hall : ∀ j, Led (M j) (m₀ j) (Q j) (own j l) (s j) from hall i
  clear i
  induction h with
  | nil => exact fun j => ⟨trivial, fun _ => h₀ j⟩
  | start _ hi hp _ ih =>
    refine Led.update (l := fun j => own j _) ih fun m hm => ?_
    rw [hi] at hm
    exact hjobs _ _ m _ hm hp
  | begins _ hi ih =>
    refine Led.update (l := fun j => own j _) ih fun m hm => ?_
    rw [hi] at hm
    exact hm
  | stop _ hi ih =>
    refine Led.update (l := fun j => own j _) ih fun m hm => ?_
    rw [hi] at hm
    exact hm
  | @ends l s i e k _ hi r ih =>
    intro j
    by_cases hij : j = i
    · subst hij
      -- the thread itself: its open call is permitted, and it goes on from the answer
      obtain ⟨haccepts, hfollows⟩ := ih j
      rw [hi] at hfollows
      rw [own_concat_self, Function.update_self]
      refine ⟨Monitor.accepts_concat haccepts fun he => (hfollows he).1, fun he => ?_⟩
      rw [Monitor.after_concat]
      obtain ⟨hl, hr⟩ := Monitor.expected_concat.1 he
      exact (hfollows hl).2 r hr
    · rw [own_concat_of_ne (Ne.symm hij), Function.update_of_ne hij]
      exact ih j

end Pool

end SyncLayer.Interaction
