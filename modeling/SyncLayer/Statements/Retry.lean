import Mathlib.Algebra.Order.Ring.Nat
import SyncLayer.Handles.Program
import SyncLayer.Library.HandleTrace

/-!
# The Law of the Retry Loop

How many attempts `withExponentialBackoff` makes, with which arguments, and how long it
waits, for every bound and every sequence of outcomes; and what `executeWithRetry` does
with its results. Both are runs of the loop of `SyncLayer.Interaction.Backoff`.

The delay is a signed 64-bit count of milliseconds. Its doubling after the 57th failure
leaves the range, so the waits are those of the law as long as at most 57 calls fail
(`retry_law_iff`). The wait after the 58th failure is negative, and takes no time.
-/

namespace SyncLayer.Statements

open SyncLayer.Interaction SyncLayer.Model SyncLayer.HandleTrace

/-- The position of the first success, when it is within the bound; the bound otherwise. -/
def IsCallCount (maxAttempts : Int) (outcome : Nat → Bool) (k : Nat) : Prop :=
  (∃ i : Nat, outcome i = true ∧ (∀ j < i, outcome j = false) ∧ (i : Int) + 1 ≤ maxAttempts ∧
    k = i + 1) ∨
  ((∀ i : Nat, (i : Int) + 1 ≤ maxAttempts → outcome i = false) ∧ (k : Int) = max maxAttempts 0)

theorem isCallCount (maxAttempts : Int) (outcome : Nat → Bool) :
    IsCallCount maxAttempts outcome (callCount outcome maxAttempts.toNat) := by
  cases h : firstSuccess outcome maxAttempts.toNat with
  | none =>
    refine .inr ⟨fun i hi => firstSuccess_eq_none.1 h i (by omega), ?_⟩
    rw [callCount_of_none h]
    omega
  | some i =>
    obtain ⟨hbound, hi, hbefore⟩ := firstSuccess_eq_some.1 h
    exact .inl ⟨i, hi, hbefore, by omega, callCount_of_some h⟩

/-- The failures among the first `k` attempts. -/
def failedCalls (outcome : Nat → Bool) (k : Nat) : Nat :=
  (List.range k).countP fun i => !outcome i

/-! ## withExponentialBackoff -/

/-- An attempt function that writes down the arguments it is called with, and fares as
    `outcome` says. -/
def recordAttempt (outcome : Nat → Bool) (attempt : Int) (calls : List Int) :
    Code (Bool × List Int) :=
  return (outcome calls.length, calls ++ [attempt])

/-- The world is the list of the waits. -/
def stopwatch : Prog.Handler Call Call.Reply (List Int64)
  | .sleepFor milliseconds, waits => ((), waits ++ [milliseconds])
  | .log _, waits => ((), waits)
  | .pqexec _ _, waits => (none, waits)
  | .pqescapeLiteral _, waits => (false, waits)

/-- The arguments `1, 2, .., k`. -/
def arguments (k : Nat) : List Int := (List.range k).map fun i : Nat => (i : Int) + 1

theorem arguments_succ (k : Nat) : arguments (k + 1) = arguments k ++ [(k : Int) + 1] := by
  rw [arguments, List.range_succ, List.map_append]
  rfl

theorem length_arguments (k : Nat) : (arguments k).length = k := by
  rw [arguments, List.length_map, List.length_range]

theorem attempts_record (outcome : Nat → Bool) :
    Attempts stopwatch sleepFor (· * 2) (recordAttempt outcome) outcome 100 arguments
      (waits (· * 2) 100) (waits (· * 2) 100) where
  attempt_run i := by
    rw [recordAttempt, length_arguments, arguments_succ]
    rfl
  wait_run i _ := by
    rw [waits_succ]
    rfl

theorem run_record (maxAttempts : Int) (outcome : Nat → Bool) :
    (withExponentialBackoff maxAttempts (recordAttempt outcome) []).run stopwatch [] =
      (some (arguments (callCount outcome maxAttempts.toNat)),
        waits (· * 2) 100 (failures outcome maxAttempts.toNat)) := by
  rw [withExponentialBackoff_eq]
  refine ((attempts_record outcome).run_backoff maxAttempts.toNat).trans ?_
  unfold callCount failures
  cases firstSuccess outcome maxAttempts.toNat with
  | none => rfl
  | some i => rfl

/-! ## How long the waits are -/

/-- How long `std::this_thread::sleep_for` blocks; for a negative duration not at all. -/
def blocked (milliseconds : Int64) : Nat := milliseconds.toInt.toNat

/-- The time of all waits together. -/
def totalBlocked (delays : List Int64) : Nat := (delays.map blocked).sum

theorem totalBlocked_waits_succ (n : Nat) :
    totalBlocked (waits (· * 2) 100 (n + 1)) =
      totalBlocked (waits (· * 2) 100 n) + blocked ((· * 2)^[n] 100) := by
  simp [totalBlocked, waits_succ]

/-- The delay is doubled in 64 bits: it is the exact one, reduced once. -/
theorem delay_eq (i : Nat) : (· * 2)^[i] (100 : Int64) = Int64.ofNat (100 * 2 ^ i) := by
  induction i with
  | zero => rfl
  | succ i ih =>
    rw [Function.iterate_succ_apply', ih, Nat.pow_succ, ← Nat.mul_assoc, Int64.ofNat_mul _ 2]
    rfl

theorem blocked_ofNat_of_lt {n : Nat} (h : n < 2 ^ 63) : blocked (Int64.ofNat n) = n := by
  rw [blocked, Int64.toInt_ofNat_of_lt h, Int.toNat_natCast]

theorem blocked_ofNat_le (n : Nat) : blocked (Int64.ofNat n) ≤ n := by
  have hsize : Int64.size = 2 ^ 64 := rfl
  rw [blocked, Int64.toInt_ofNat', Int.bmod_def, hsize]
  split <;> omega

/-- While the delay is in the range, the waits add up to the exact total. -/
theorem totalBlocked_waits_of_le {n : Nat} (hn : n ≤ 57) :
    totalBlocked (waits (· * 2) 100 n) = 100 * (2 ^ n - 1) := by
  induction n with
  | zero => rfl
  | succ n ih =>
    have hpos : 0 < 2 ^ n := Nat.two_pow_pos n
    have hbound : 2 ^ n ≤ 2 ^ 56 := Nat.pow_le_pow_right (by decide) (by omega)
    have hlast : blocked ((· * 2)^[n] 100) = 100 * 2 ^ n := by
      rw [delay_eq]
      exact blocked_ofNat_of_lt (by omega)
    rw [totalBlocked_waits_succ, ih (by omega), hlast, Nat.pow_succ]
    omega

/-- The 58th wait is none, and no later one makes up for it. The induction starts there. -/
theorem totalBlocked_waits_lt {n : Nat} (hn : 58 ≤ n) :
    totalBlocked (waits (· * 2) 100 n) < 100 * (2 ^ n - 1) := by
  induction n, hn using Nat.le_induction with
  | base =>
    have hnone : blocked ((· * 2)^[57] 100) = 0 := by
      rw [delay_eq]
      rfl
    rw [totalBlocked_waits_succ, totalBlocked_waits_of_le (by decide), hnone]
    decide
  | succ n hn ih =>
    have hpos : 0 < 2 ^ n := Nat.two_pow_pos n
    have hlast : blocked ((· * 2)^[n] 100) ≤ 100 * 2 ^ n := by
      rw [delay_eq]
      exact blocked_ofNat_le _
    rw [totalBlocked_waits_succ, Nat.pow_succ]
    omega

/-! ## executeWithRetry -/

/-- Whether a reply makes an attempt a success. -/
def acknowledges (reply : Option PGresult) : Bool :=
  PQresultStatus reply = .commandOk ∨ PQresultStatus reply = .tuplesOk

structure Wire where
  sent : List (Conn × Stmt) := []
  /-- Newest first. -/
  trace : List (Event Nat) := []

def Wire.note (w : Wire) (ev : Nat → Event Nat) : Handles.Ptr → Wire
  | none => w
  | some h => { w with trace := ev h :: w.trace }

/-- A libpq that gives attempt number `i` the reply `replies i`, whose handle is `i`. -/
def answering (replies : Nat → Option PGresult) :
    Prog.Handler Handles.Op Handles.Op.Reply Wire
  | .pqexec conn query, w =>
    let res : Handles.Ptr := (replies w.sent.length).map fun _ => w.sent.length
    (res, { w.note .got res with sent := w.sent ++ [(conn, query)] })
  | .read res f, w => (f.get (res.bind replies), w.note .read res)
  | .clear res, w => ((), w.note .released res)
  | .escapeLiteral source _, w => (none, w.note .read source)
  | .readBuffer buffer, w => ((), w.note .read buffer)
  | .freemem buffer, w => ((), w.note .released buffer)
  | .sleepFor _, w => ((), w)
  | .log _, w => ((), w)

section Execute

variable (conn : Conn) (query : Stmt) (replies : Nat → Option PGresult)

/-- What one attempt does to the result it gets, newest event first. -/
def attemptTrace (i : Nat) : List (Event Nat) :=
  match replies i with
  | none => []
  | some res =>
    if res.status = .commandOk then [.read i, .got i]
    else if res.status = .tuplesOk then [.read i, .read i, .got i]
    else [.released i, .read i, .read i, .got i]

def Wire.attempted (w : Wire) : Wire where
  sent := w.sent ++ [(conn, query)]
  trace := attemptTrace replies w.sent.length ++ w.trace

/-- The wire after `i` attempts. -/
def wireAfter : Nat → Wire
  | 0 => {}
  | i + 1 => (wireAfter i).attempted conn query replies

theorem sent_wireAfter (i : Nat) :
    (wireAfter conn query replies i).sent = List.replicate i (conn, query) := by
  induction i with
  | zero => rfl
  | succ i ih => rw [wireAfter, Wire.attempted, ih, List.replicate_succ']

/-- The result of attempt number `i`: its own handle, or null. -/
def attemptResult (i : Nat) : Handles.Ptr := if acknowledges (replies i) then some i else none

theorem run_attemptQuery (attempt : Int) (res : Handles.Ptr) (w : Wire) :
    (Handles.attemptQuery conn query attempt res).run (answering replies) w =
      (some (acknowledges (replies w.sent.length), attemptResult replies w.sent.length),
        w.attempted conn query replies) := by
  unfold attemptResult Wire.attempted attemptTrace acknowledges
  unfold Handles.attemptQuery Handles.succeeded
  cases hreply : replies w.sent.length with
  -- null is asked for its status twice and leaves no trace
  | none =>
    simp [answering, hreply, Wire.note, Handles.Field.get, PQresultStatus, -bind_pure_comp]
  | some r =>
    by_cases hcommand : r.status = .commandOk
    · simp [answering, hreply, hcommand, Wire.note, Handles.Field.get, PQresultStatus]
    · by_cases htuples : r.status = .tuplesOk
      · simp [answering, hreply, htuples, Wire.note, Handles.Field.get, PQresultStatus]
      · simp [answering, hreply, hcommand, htuples, Wire.note, Handles.Field.get, PQresultStatus,
          -bind_pure_comp]

/-- The result before attempt number `i`. -/
def resultBefore : Nat → Handles.Ptr
  | 0 => none
  | i + 1 => attemptResult replies i

theorem attempts_query :
    Attempts (answering replies) Handles.sleepFor (· * 2) (Handles.attemptQuery conn query)
      (fun i => acknowledges (replies i)) 100 (resultBefore replies) (wireAfter conn query replies)
      (fun i => wireAfter conn query replies (i + 1)) where
  attempt_run i := by
    have hlength : (wireAfter conn query replies i).sent.length = i := by
      rw [sent_wireAfter, List.length_replicate]
    rw [run_attemptQuery, hlength]
    rfl
  wait_run _ _ := rfl

/-- Only failed attempts have released a result, each its own. -/
theorem released_wireAfter {n h : Nat}
    (hmem : .released h ∈ (wireAfter conn query replies n).trace) :
    h < n ∧ acknowledges (replies h) = false := by
  induction n with
  | zero => exact absurd hmem List.not_mem_nil
  | succ n ih =>
    have hlength : (wireAfter conn query replies n).sent.length = n := by
      rw [sent_wireAfter, List.length_replicate]
    rw [wireAfter, Wire.attempted, hlength] at hmem
    obtain hnew | hold := List.mem_append.1 hmem
    · unfold attemptTrace at hnew
      unfold acknowledges
      split at hnew
      · exact absurd hnew List.not_mem_nil
      · next r hreply =>
        split at hnew
        · simp at hnew
        · split at hnew
          · simp at hnew
          · obtain rfl : h = n := by simpa using hnew
            simp_all [PQresultStatus]
    · exact ⟨Nat.lt_succ_of_lt (ih hold).1, (ih hold).2⟩

theorem run_executeWithRetry (maxAttempts : Int) :
    (Handles.executeWithRetry conn query maxAttempts).run (answering replies) {} =
      (some (firstSuccess (fun i => acknowledges (replies i)) maxAttempts.toNat),
        wireAfter conn query replies
          (callCount (fun i => acknowledges (replies i)) maxAttempts.toNat)) := by
  refine ((attempts_query conn query replies).run_backoff maxAttempts.toNat).trans ?_
  cases h : firstSuccess (fun i => acknowledges (replies i)) maxAttempts.toNat with
  | none =>
    have hnull : resultBefore replies maxAttempts.toNat = none := by
      cases hn : maxAttempts.toNat with
      | zero => rfl
      | succ n =>
        -- the last attempt has failed too and left null
        have hlast : acknowledges (replies n) = false := firstSuccess_eq_none.1 h n (by omega)
        simp [resultBefore, attemptResult, hlast]
    rw [callCount_of_none h]
    simp only [hnull]
  | some i =>
    have hself : resultBefore replies (i + 1) = some i := if_pos (firstSuccess_eq_some.1 h).2.1
    rw [callCount_of_some h]
    simp only [hself]

theorem executeWithRetry_law (maxAttempts : Int) :
    ∃ (k : Nat) (res : Handles.Ptr) (w : Wire),
      IsCallCount maxAttempts (fun i => acknowledges (replies i)) k ∧
      (Handles.executeWithRetry conn query maxAttempts).run (answering replies) {} =
        (some res, w) ∧
      w.sent = List.replicate k (conn, query) ∧
      (res.isSome ↔ ∃ i < k, acknowledges (replies i) = true) ∧
      ∀ h, res = some h →
        h + 1 = k ∧ acknowledges (replies h) = true ∧ .released h ∉ w.trace := by
  refine ⟨_, _, _, isCallCount maxAttempts _,
    run_executeWithRetry conn query replies maxAttempts, sent_wireAfter .., ?_, ?_⟩
  · cases hfirst : firstSuccess (fun i => acknowledges (replies i)) maxAttempts.toNat with
    | none =>
      rw [callCount_of_none hfirst]
      have hnever := firstSuccess_eq_none.1 hfirst
      simpa using hnever
    -- the success is the last of the calls
    | some i =>
      rw [callCount_of_some hfirst]
      exact iff_of_true rfl ⟨i, Nat.lt_succ_self i, (firstSuccess_eq_some.1 hfirst).2.1⟩
  · intro h hfirst
    have hsuccess : acknowledges (replies h) = true := (firstSuccess_eq_some.1 hfirst).2.1
    refine ⟨(callCount_of_some hfirst).symm, hsuccess, fun hmem => ?_⟩
    -- only failed attempts release their results
    have hfailed := (released_wireAfter conn query replies hmem).2
    rw [hsuccess] at hfailed
    cases hfailed

end Execute

/-! ## The law -/

/-- The retry law for a bound and a sequence of outcomes. -/
structure RetryLaw (maxAttempts : Int) (outcome : Nat → Bool) : Prop where
  /-- `k` calls with the arguments 1, 2, .., k, and a wait after each failure. -/
  backoff : ∃ (k : Nat) (delays : List Int64), IsCallCount maxAttempts outcome k ∧
    (withExponentialBackoff maxAttempts (recordAttempt outcome) []).run stopwatch [] =
      (some (arguments k), delays) ∧
    delays.length = failedCalls outcome k ∧
    totalBlocked delays = 100 * (2 ^ failedCalls outcome k - 1)
  /-- The query text is sent `k` times; the result is the one of the attempt that succeeded,
      and has not been cleared. -/
  execute : ∀ (conn : Conn) (query : Stmt) (replies : Nat → Option PGresult),
    (∀ i, acknowledges (replies i) = outcome i) →
      ∃ (k : Nat) (res : Handles.Ptr) (w : Wire), IsCallCount maxAttempts outcome k ∧
        (Handles.executeWithRetry conn query maxAttempts).run (answering replies) {} =
          (some res, w) ∧
        w.sent = List.replicate k (conn, query) ∧
        (res.isSome ↔ ∃ i < k, outcome i = true) ∧
        ∀ h, res = some h → h + 1 = k ∧ outcome h = true ∧ .released h ∉ w.trace

theorem arguments_injective : Function.Injective arguments := by
  intro k k' h
  rw [← length_arguments k, h, length_arguments]

/-- The law in terms of the calls that fail. -/
theorem retryLaw_iff_failures (maxAttempts : Int) (outcome : Nat → Bool) :
    RetryLaw maxAttempts outcome ↔ failures outcome maxAttempts.toNat ≤ 57 := by
  have hfailed : failedCalls outcome (callCount outcome maxAttempts.toNat) =
      failures outcome maxAttempts.toNat := failures_eq_countP.symm
  constructor
  · rintro ⟨⟨k, delays, -, hrun, -, htotal⟩, -⟩
    rw [run_record] at hrun
    obtain ⟨hk, rfl⟩ := Prod.mk.inj hrun
    obtain rfl := arguments_injective (Option.some.inj hk)
    rw [hfailed] at htotal
    by_contra hmany
    have hless := totalBlocked_waits_lt (Nat.lt_of_not_le hmany)
    exact absurd htotal hless.ne
  · intro hfew
    refine ⟨⟨_, _, isCallCount maxAttempts outcome, run_record maxAttempts outcome, ?_, ?_⟩, ?_⟩
    · rw [waits, List.length_map, List.length_range, hfailed]
    · rw [hfailed]
      exact totalBlocked_waits_of_le hfew
    · intro conn query replies houtcome
      obtain rfl : (fun i => acknowledges (replies i)) = outcome := funext houtcome
      exact executeWithRetry_law conn query replies maxAttempts

theorem failures_le_iff {maxAttempts : Int} {outcome : Nat → Bool} {m : Nat} :
    failures outcome maxAttempts.toNat ≤ m ↔ maxAttempts ≤ m ∨ ∃ i ≤ m, outcome i = true := by
  rw [failures]
  cases h : firstSuccess outcome maxAttempts.toNat with
  | none =>
    have hnever := firstSuccess_eq_none.1 h
    constructor
    · intro hle
      exact .inl (by simp only [Option.getD_none] at hle; omega)
    · rintro (hle | ⟨i, hi, hsuccess⟩)
      · simp only [Option.getD_none]
        omega
      · -- a success that is not reached lies beyond the bound
        by_contra hgt
        simp only [Option.getD_none] at hgt
        rw [hnever i (by omega)] at hsuccess
        cases hsuccess
  | some i =>
    obtain ⟨hbound, hi, hbefore⟩ := firstSuccess_eq_some.1 h
    constructor
    · intro hle
      exact .inr ⟨i, hle, hi⟩
    · rintro (hle | ⟨j, hj, hsuccess⟩)
      · simp only [Option.getD_some]
        omega
      · by_contra hgt
        simp only [Option.getD_some] at hgt
        rw [hbefore j (by omega)] at hsuccess
        cases hsuccess

/-- **The retry law holds exactly if at most 57 calls fail**: the bound is at most 57, or one
    of the first 58 outcomes is a success. -/
theorem retry_law_iff (maxAttempts : Int) (outcome : Nat → Bool) :
    RetryLaw maxAttempts outcome ↔ maxAttempts ≤ 57 ∨ ∃ i ≤ 57, outcome i = true := by
  rw [retryLaw_iff_failures]
  exact failures_le_iff

/-- 58 attempts that all fail. -/
theorem retry_delay_overflows : ¬ RetryLaw 58 fun _ => false := by
  rw [retryLaw_iff_failures, failures_le_iff]
  simp

end SyncLayer.Statements
