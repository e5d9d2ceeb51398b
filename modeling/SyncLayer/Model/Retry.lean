import SyncLayer.Interaction.Backoff
import SyncLayer.Model.Libpq

/-!
# Retry with Exponential Backoff

`Retry::withExponentialBackoff` of `utils/Retry.cpp`. The attempt function captures
variables of its caller by reference, so it is given their value and returns the new
one (`σ`). `std::chrono::milliseconds` is a signed 64-bit count; a doubling that leaves its
range, which C++ leaves undefined, wraps around.
-/

namespace SyncLayer.Model

variable {σ : Type}

/-- The `while (attempt < maxAttempts)` loop with `remaining` rounds to go. -/
def backoffLoop (attemptFn : Int → σ → Code (Bool × σ)) :
    (remaining : Nat) → (attempt : Int) → (delay : Int64) → σ → Code σ
  | 0, _, _, s => pure s
  | remaining + 1, attempt, delay, s => do
    let (success, s) ← attemptFn (attempt + 1) s
    if success then
      return s
    sleepFor delay
    backoffLoop attemptFn remaining (attempt + 1) (delay * 2) s

/-- `Retry::withExponentialBackoff`, starting with a delay of 100 ms. -/
def withExponentialBackoff (maxAttempts : Int) (attemptFn : Int → σ → Code (Bool × σ))
    (s : σ) : Code σ :=
  backoffLoop attemptFn maxAttempts.toNat 0 100 s

/-- The loop of the model is the loop of the library. -/
theorem withExponentialBackoff_eq (maxAttempts : Int)
    (attemptFn : Int → σ → Code (Bool × σ)) (s : σ) :
    withExponentialBackoff maxAttempts attemptFn s =
      Interaction.backoff sleepFor (· * 2) attemptFn maxAttempts.toNat 0 100 s := by
  have hloop : ∀ (n : Nat) (attempt : Int) (delay : Int64) (s : σ),
      backoffLoop attemptFn n attempt delay s =
        Interaction.backoff sleepFor (· * 2) attemptFn n attempt delay s := by
    intro n
    induction n with
    | zero => exact fun _ _ _ => rfl
    | succ n ih =>
      intro attempt delay s
      simp only [backoffLoop, Interaction.backoff, ih]
  exact hloop ..

end SyncLayer.Model
