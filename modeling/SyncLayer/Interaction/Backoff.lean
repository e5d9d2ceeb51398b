import Mathlib.Logic.Function.Iterate
import SyncLayer.Interaction.Interference

/-!
# Retry Loops

A loop that makes attempts until one succeeds or a number of rounds is used up, and
waits after every failure; each wait makes the next one (`next`). What happens depends on
the sequence of outcomes only: `firstSuccess` finds the attempt that ends the loop,
`callCount` and `failures` count attempts and failures. `Attempts.run_backoff` is the rule
for a run, with attempts of any kind, and `World.Spec.backoff` the rule for triples.
-/

namespace SyncLayer.Interaction

variable {E : Type} {R : E → Type} {σ W D : Type}

/-- The loop, with `remaining` rounds to go, `number` attempts made, and the next wait. -/
def backoff (wait : D → Prog E R Unit) (next : D → D)
    (attemptFn : Int → σ → Prog E R (Bool × σ)) :
    (remaining : Nat) → (number : Int) → (delay : D) → σ → Prog E R σ
  | 0, _, _, s => pure s
  | remaining + 1, number, delay, s => do
    let (success, s) ← attemptFn (number + 1) s
    if success then
      return s
    wait delay
    backoff wait next attemptFn remaining (number + 1) (next delay) s

/-! ## Outcomes -/

/-- The first of the `n` outcomes from number `a` on that is a success. -/
def firstSuccessFrom (outcome : Nat → Bool) (a n : Nat) : Option Nat :=
  (List.range' a n).find? outcome

/-- The first success among `n` outcomes, counted from 0. -/
def firstSuccess (outcome : Nat → Bool) (n : Nat) : Option Nat := firstSuccessFrom outcome 0 n

/-- The attempts that are made when `n` are allowed. -/
def callCount (outcome : Nat → Bool) (n : Nat) : Nat :=
  ((firstSuccess outcome n).map (· + 1)).getD n

/-- Those of them that fail. -/
def failures (outcome : Nat → Bool) (n : Nat) : Nat := (firstSuccess outcome n).getD n

section Outcomes

variable {outcome : Nat → Bool} {a n i : Nat}

theorem firstSuccessFrom_succ :
    firstSuccessFrom outcome a (n + 1) =
      if outcome a then some a else firstSuccessFrom outcome (a + 1) n := by
  rw [firstSuccessFrom, List.range'_succ, List.find?_cons]
  cases outcome a <;> rfl

/-- What the first success is. -/
theorem firstSuccess_eq_some :
    firstSuccess outcome n = some i ↔ i < n ∧ outcome i = true ∧ ∀ j < i, outcome j = false := by
  rw [firstSuccess, firstSuccessFrom, ← List.range_eq_range', List.find?_range_eq_some]
  simp only [Bool.not_eq_true', List.mem_range]
  constructor
  · rintro ⟨hi, hn, hbefore⟩
    exact ⟨hn, hi, hbefore⟩
  · rintro ⟨hn, hi, hbefore⟩
    exact ⟨hi, hn, hbefore⟩

theorem firstSuccess_eq_none : firstSuccess outcome n = none ↔ ∀ j < n, outcome j = false := by
  simp [firstSuccess, firstSuccessFrom, List.mem_range']

theorem callCount_of_some (h : firstSuccess outcome n = some i) : callCount outcome n = i + 1 := by
  rw [callCount, h]
  rfl

theorem callCount_of_none (h : firstSuccess outcome n = none) : callCount outcome n = n := by
  rw [callCount, h]
  rfl

/-- The failures are the calls without success. -/
theorem failures_eq_countP :
    failures outcome n = (List.range (callCount outcome n)).countP fun i => !outcome i := by
  -- before the first success there are failures only
  have hall : ∀ m, (∀ j < m, outcome j = false) →
      (List.range m).countP (fun i => !outcome i) = m := by
    intro m hm
    rw [List.countP_eq_length.2 fun j hj => by rw [hm j (List.mem_range.1 hj)]; rfl]
    exact List.length_range
  cases h : firstSuccess outcome n with
  | none =>
    rw [callCount_of_none h, hall n (firstSuccess_eq_none.1 h), failures, h]
    rfl
  | some i =>
    obtain ⟨-, hi, hbefore⟩ := firstSuccess_eq_some.1 h
    have hlast : [i].countP (fun i => !outcome i) = 0 := by simp [hi]
    rw [callCount_of_some h, List.range_succ, List.countP_append, hall i hbefore, hlast, failures,
      h]
    rfl

end Outcomes

/-! ## Runs -/

/-- Attempt `i + 1`, made with `state i` in the world `before i`, fares as `outcome i` says
    and leaves `state (i + 1)` and the world `after i`; a wait leads on from there. -/
structure Attempts (h : Prog.Handler E R W) (wait : D → Prog E R Unit) (next : D → D)
    (attemptFn : Int → σ → Prog E R (Bool × σ)) (outcome : Nat → Bool) (delay : D)
    (state : Nat → σ) (before after : Nat → W) : Prop where
  attempt_run : ∀ i : Nat, (attemptFn (i + 1) (state i)).run h (before i) =
    (some (outcome i, state (i + 1)), after i)
  wait_run : ∀ i : Nat, outcome i = false →
    (wait (next^[i] delay)).run h (after i) = (some (), before (i + 1))

variable {h : Prog.Handler E R W} {wait : D → Prog E R Unit} {next : D → D}
  {attemptFn : Int → σ → Prog E R (Bool × σ)} {outcome : Nat → Bool} {delay : D}
  {state : Nat → σ} {before after : Nat → W}

/-- The loop from attempt `a` on. The induction is on the rounds to go. -/
private theorem Attempts.run_from
    (H : Attempts h wait next attemptFn outcome delay state before after) (n a : Nat) :
    (backoff wait next attemptFn n a (next^[a] delay) (state a)).run h (before a) =
      match firstSuccessFrom outcome a n with
      | some i => (some (state (i + 1)), after i)
      | none => (some (state (a + n)), before (a + n)) := by
  induction n generalizing a with
  | zero => rfl
  | succ n ih =>
    -- one attempt; the loop goes on only if it is a failure
    rw [backoff, Prog.run_bind_of_some _ _ (H.attempt_run a), firstSuccessFrom_succ]
    cases hsuccess : outcome a with
    | true => rfl
    | false =>
      simp only [Bool.false_eq_true, if_false]
      rw [Prog.run_bind_of_some _ _ (H.wait_run a hsuccess)]
      have hrest := ih (a + 1)
      -- the next delay is the one of attempt `a + 1`
      rw [Function.iterate_succ_apply', Nat.add_assoc a 1 n, Nat.add_comm 1 n] at hrest
      exact hrest

/-- **The rule for a retry loop**: it ends with the first success, or when the rounds are
    used up, in the state and the world that the attempts up to there lead to. -/
theorem Attempts.run_backoff
    (H : Attempts h wait next attemptFn outcome delay state before after) (n : Nat) :
    (backoff wait next attemptFn n 0 delay (state 0)).run h (before 0) =
      match firstSuccess outcome n with
      | some i => (some (state (i + 1)), after i)
      | none => (some (state n), before n) := by
  have hrun := H.run_from n 0
  rwa [Function.iterate_zero_apply, Nat.zero_add] at hrun

/-! ## Triples -/

/-- Rule for triples: an attempt that succeeds establishes `Q`, one that fails restores the
    assertion `P` of the loop, which also has to imply `Q` where the rounds are used up. -/
theorem World.Spec.backoff {S : World E R W} {I : W → Prop} {P Q : σ → W → Prop}
    (hI : S.Stable I) (hQ : ∀ s, S.Stable (Q s))
    (hattempt : ∀ a s, S.Spec I (P s) (attemptFn a s)
      fun x => if x.1 then Q x.2 else P x.2)
    (hwait : ∀ d s, S.Spec I (P s) (wait d) fun _ => P s)
    (hend : ∀ s w, I w → P s w → Q s w) (n : Nat) (a : Int) (d : D) (s : σ) :
    S.Spec I (P s) (Interaction.backoff wait next attemptFn n a d s) Q := by
  induction n generalizing a d s with
  | zero => exact (World.Spec.ret hI (hQ s)).pre (hend s)
  | succ n ih =>
    refine World.Spec.bind (hattempt (a + 1) s) fun x => ?_
    obtain ⟨success, s'⟩ := x
    cases success with
    | true => exact World.Spec.ret hI (hQ s')
    | false => exact World.Spec.bind (hwait d s') fun _ => ih _ _ _

/-! ## Waits -/

/-- The waits after the first `n` failures. -/
def waits (next : D → D) (delay : D) (n : Nat) : List D :=
  (List.range n).map fun i => next^[i] delay

theorem waits_succ (n : Nat) : waits next delay (n + 1) = waits next delay n ++ [next^[n] delay] := by
  rw [waits, List.range_succ, List.map_append]
  rfl

end SyncLayer.Interaction
