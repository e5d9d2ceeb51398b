import Mathlib.Logic.Relation
import SyncLayer.Model.DBConnection

/-!
# Who Holds a Connection

Objects are constructed, moved, assigned and destroyed in any order. Every open handle is
held by one live object all the time, so it is finished once, and when the last object is
gone nothing is open (`connections_owned`). A constructor that throws leaves nothing behind,
and neither does the one of the replication manager when only its second connection fails.
-/

namespace SyncLayer.Connection

open Relation SyncLayer.HandleTrace SyncLayer.Model

variable {O H : Type} {m m' : Connections O H} {this other : O} {conn : Option H}
  {reply : ConnectReply H}

/-- Every open handle is the `conn_` of one live object. -/
def Sole (m : Connections O H) : Prop := Owned m.trace m.raw

/-- A handle that is returned now was not returned before. -/
def Fresh (reply : ConnectReply H) (m : Connections O H) : Prop :=
  ∀ h, reply.conn = some h → .got h ∉ m.trace

/-- The same objects are alive and hold the same handles, and no other handle is open. -/
def Unchanged (m m' : Connections O H) : Prop :=
  m'.conn_ = m.conn_ ∧ ∀ h, Live h m'.trace ↔ Live h m.trace

@[simp] theorem raw_note (ev : H → Event H) : (m.note ev conn).raw = m.raw := by
  cases conn <;> rfl

@[simp] theorem conn_note (ev : H → Event H) : (m.note ev conn).conn_ = m.conn_ := by
  cases conn <;> rfl

theorem raw_of_dead (hthis : m.conn_ this = none) : m.raw this = none := by
  simp [Connections.raw, hthis]

@[simp] theorem raw_finishOwn : (m.finishOwn this).raw = m.raw := by
  unfold Connections.finishOwn Connections.PQfinish
  split
  · exact raw_note _
  · rfl

@[simp] theorem conn_finishOwn : (m.finishOwn this).conn_ = m.conn_ := by
  unfold Connections.finishOwn Connections.PQfinish
  split
  · exact conn_note _
  · rfl

/-- Who holds what decides which handles are open. -/
theorem Sole.unchanged (hm : Sole m) (hm' : Sole m') (hconn : m'.conn_ = m.conn_) :
    Unchanged m m' := by
  refine ⟨hconn, fun h => ?_⟩
  have hraw : m'.raw = m.raw := by
    unfold Connections.raw
    rw [hconn]
  rw [hm'.holder, hm.holder, hraw]

variable [DecidableEq O]

@[simp] theorem raw_set : (m.set this conn).raw = Function.update m.raw this conn := by
  funext o
  by_cases ho : o = this
  · simp [Connections.raw, Connections.set, ho]
  · simp [Connections.raw, Connections.set, ho]

@[simp] theorem trace_set : (m.set this conn).trace = m.trace := rfl

@[simp] theorem raw_free : (m.free this).raw = Function.update m.raw this none := by
  funext o
  by_cases ho : o = this
  · simp [Connections.raw, Connections.free, ho]
  · simp [Connections.raw, Connections.free, ho]

@[simp] theorem trace_free : (m.free this).trace = m.trace := rfl

/-! ## The operations -/

/-- The object holds nothing open any more. -/
theorem owned_finishOwn (hm : Sole m) (this : O) :
    Owned (m.finishOwn this).trace (Function.update m.raw this none) := by
  unfold Connections.finishOwn
  cases hheld : m.raw this with
  | none =>
    have hself : Function.update m.raw this none = m.raw := by
      rw [← hheld, Function.update_eq_self]
    rw [hself]
    exact hm
  | some h => exact Owned.release hm hheld

theorem Sole.destruct (hm : Sole m) (this : O) : Sole (DBConnection.destruct this m) := by
  simpa [Sole, DBConnection.destruct] using owned_finishOwn hm this

theorem Sole.moveConstruct (hm : Sole m) (hthis : m.conn_ this = none)
    (hother : m.conn_ other ≠ none) : Sole (DBConnection.moveConstruct this other m) := by
  have hne : this ≠ other := by
    rintro rfl
    exact hother hthis
  have hmoved := Owned.transfer hm hne (raw_of_dead hthis)
  simpa [Sole, DBConnection.moveConstruct] using hmoved

theorem Sole.moveAssign (hm : Sole m) (this other : O) :
    Sole (DBConnection.moveAssign this other m) := by
  unfold DBConnection.moveAssign
  split
  · next hne =>
    -- the handle of `this` is finished, then it takes the one of `other`
    have hmoved := (owned_finishOwn hm this).transfer hne (Function.update_self ..)
    rw [Function.update_of_ne (Ne.symm hne), Function.update_idem] at hmoved
    simpa [Sole] using hmoved
  · exact hm

/-- A connection that came up belongs to the new object, one that did not is finished. -/
theorem Sole.construct (hm : Sole m) (hthis : m.conn_ this = none) (hfresh : Fresh reply m) :
    Sole (DBConnection.construct this reply m).2 := by
  cases reply with
  | null => exact hm
  | handle h up =>
    have hgot := Owned.acquire hm (raw_of_dead hthis) (hfresh h rfl)
    have hread := hgot.read (Function.update_self ..)
    cases up with
    | true =>
      rw [← raw_set] at hread
      exact hread
    | false =>
      have hfinished := (hread.read (Function.update_self ..)).release (Function.update_self ..)
      -- the object never came to be, so its address is as empty as before
      rw [Function.update_idem, ← raw_of_dead hthis, Function.update_eq_self] at hfinished
      exact hfinished

@[simp] theorem construct_fst : (DBConnection.construct this reply m).1 = reply.ok := by
  unfold DBConnection.construct
  cases reply.ok <;> rfl

theorem conn_construct : (DBConnection.construct this reply m).2.conn_ =
    if reply.ok then Function.update m.conn_ this (some reply.conn) else m.conn_ := by
  unfold DBConnection.construct
  cases reply.ok with
  | true => simp [Connections.set]
  | false => simp [Connections.PQfinish]

/-- A constructor that throws leaves no open handle. -/
theorem Sole.construct_unchanged (hm : Sole m) (hthis : m.conn_ this = none)
    (hfresh : Fresh reply m) (hfail : (DBConnection.construct this reply m).1 = false) :
    Unchanged m (DBConnection.construct this reply m).2 := by
  apply hm.unchanged (hm.construct hthis hfresh)
  rw [construct_fst] at hfail
  simp [conn_construct, hfail]

/-! ## Runs -/

/-- The next thing that happens to an object: addresses of dead objects may be used again,
    and an object may be assigned to itself. -/
inductive Step : Connections O H → Connections O H → Prop where
  | construct {m : Connections O H} {this : O} {reply : ConnectReply H}
      (hthis : m.conn_ this = none) (hfresh : Fresh reply m) :
      Step m (DBConnection.construct this reply m).2
  | moveConstruct {m : Connections O H} {this other : O}
      (hthis : m.conn_ this = none) (hother : m.conn_ other ≠ none) :
      Step m (DBConnection.moveConstruct this other m)
  | moveAssign {m : Connections O H} {this other : O}
      (hthis : m.conn_ this ≠ none) (hother : m.conn_ other ≠ none) :
      Step m (DBConnection.moveAssign this other m)
  | destruct {m : Connections O H} {this : O} (hthis : m.conn_ this ≠ none) :
      Step m (DBConnection.destruct this m)

theorem Sole.step (hm : Sole m) (hstep : Step m m') : Sole m' := by
  cases hstep with
  | construct hthis hfresh => exact hm.construct hthis hfresh
  | moveConstruct hthis hother => exact hm.moveConstruct hthis hother
  | moveAssign => exact hm.moveAssign ..
  | destruct => exact hm.destruct _

theorem sole_of_run (hrun : ReflTransGen Step {} m) : Sole m := by
  induction hrun with
  | refl => exact owned_nil
  | tail _ hstep ih => exact ih.step hstep

/-! ## The replication manager -/

section OpenConnections

variable {address : Conn → O} {reply : Conn → ConnectReply H}

/-- The constructor succeeds when both connections come up. -/
theorem openConnections_fst : (ReplicationManager.openConnections address reply m).1 =
    ((reply .local_).ok && (reply .hosted_).ok) := by
  simp only [ReplicationManager.openConnections, construct_fst]
  cases (reply .local_).ok <;> cases (reply .hosted_).ok <;> rfl

/-- The constructor of the engine's model, with these connections. -/
theorem construct_isSome (config : Config) :
    (ReplicationManager.construct
      (fun conn _ => DBConnection.construct (address conn) (reply conn)) config m).1.isSome =
    (ReplicationManager.openConnections address reply m).1 := by
  rw [openConnections_fst]
  simp only [ReplicationManager.construct, construct_fst]
  cases (reply .local_).ok <;> cases (reply .hosted_).ok <;> rfl

/-- The first connection is opened, then the second one, or the first is destroyed. -/
theorem run_openConnections (hne : address .local_ ≠ address .hosted_)
    (hfree : ∀ conn, m.conn_ (address conn) = none) (hlocal : Fresh (reply .local_) m)
    (hhosted : Fresh (reply .hosted_)
      (DBConnection.construct (address .local_) (reply .local_) m).2) :
    ReflTransGen Step m (ReplicationManager.openConnections address reply m).2 := by
  have hfirst := Step.construct (hfree .local_) hlocal
  simp only [ReplicationManager.openConnections, construct_fst]
  cases hl : (reply .local_).ok with
  | false => exact .single hfirst
  | true =>
    have hstill : (DBConnection.construct (address .local_) (reply .local_) m).2.conn_
        (address .hosted_) = none := by
      rw [conn_construct, hl, if_pos rfl, Function.update_of_ne (Ne.symm hne)]
      exact hfree .hosted_
    have hsecond := Step.construct hstill hhosted
    cases hh : (reply .hosted_).ok with
    | true => exact .tail (.single hfirst) hsecond
    | false =>
      refine .tail (.tail (.single hfirst) hsecond) (.destruct ?_)
      simp [conn_construct, hl, hh]

/-- When the second connection fails, no object is left either. -/
theorem conn_openConnections (hfree : m.conn_ (address .local_) = none)
    (hfail : (ReplicationManager.openConnections address reply m).1 = false) :
    (ReplicationManager.openConnections address reply m).2.conn_ = m.conn_ := by
  rw [openConnections_fst] at hfail
  simp only [ReplicationManager.openConnections, construct_fst]
  cases hl : (reply .local_).ok with
  | false => simp [conn_construct, hl]
  | true =>
    have hh : (reply .hosted_).ok = false := by
      rw [hl] at hfail
      exact hfail
    have hfirst : Function.update m.conn_ (address .local_) none = m.conn_ := by
      rw [← hfree, Function.update_eq_self]
    simp [hh, DBConnection.destruct, Connections.free, conn_construct, hl, hfirst]

end OpenConnections

/-! ## What holds in every reachable state -/

variable [DecidableEq H]

/-- What the handles and the live objects have to do with each other. -/
structure UniquelyOwned (m : Connections O H) : Prop where
  /-- No handle is used that is not open. -/
  sound : Sound m.trace
  held_once : ∀ h, .got h ∈ m.trace → .released h ∉ m.trace → ∃! o, m.conn_ o = some (some h)
  finished_once : ∀ h, m.trace.count (.released h) ≤ 1
  isOpen_iff : ∀ o, m.conn_ o ≠ none → (DBConnection.isOpen o m = true ↔
    ∃ h, m.conn_ o = some (some h) ∧ Live h m.trace)
  all_finished : (∀ o, m.conn_ o = none) → ∀ h, .got h ∈ m.trace →
    m.trace.count (.released h) = 1

omit [DecidableEq O] [DecidableEq H] in
theorem raw_eq_some {o : O} {h : H} : m.raw o = some h ↔ m.conn_ o = some (some h) := by
  simp [Connections.raw, Option.join_eq_some_iff]

omit [DecidableEq O] in
theorem Sole.uniquelyOwned (hm : Sole m) : UniquelyOwned m where
  sound := hm.sound
  held_once h hgot hnot := by
    obtain ⟨o, ho⟩ := (hm.holder h).1 ⟨hgot, hnot⟩
    exact ⟨o, raw_eq_some.1 ho, fun o' ho' => hm.unique o' o h (raw_eq_some.2 ho') ho⟩
  finished_once _ := hm.sound.count_released_le
  isOpen_iff o _ := by
    rw [DBConnection.isOpen, Option.isSome_iff_exists]
    constructor
    · rintro ⟨h, hraw⟩
      exact ⟨h, raw_eq_some.1 hraw, (hm.holder h).2 ⟨o, hraw⟩⟩
    · rintro ⟨h, hconn, _⟩
      exact ⟨h, raw_eq_some.2 hconn⟩
  all_finished hdead h hgot := by
    have hnone : Holds m.trace [] := by
      refine ⟨List.nodup_nil, fun h' => ?_⟩
      rw [hm.holder]
      simp [raw_of_dead (hdead _)]
    exact hm.sound.count_released hnone hgot

/-- **Unique ownership**: in every state that constructions, moves, assignments and
    destructions lead to, each open handle is held by one object, none is finished twice, and
    none is left when the last object is gone. Neither a constructor that throws nor the one
    of the replication manager leaves a handle behind. -/
theorem connections_owned (hrun : ReflTransGen Step {} m) :
    UniquelyOwned m ∧
    (∀ (this : O) (reply : ConnectReply H), m.conn_ this = none → Fresh reply m →
      (DBConnection.construct this reply m).1 = false →
      Unchanged m (DBConnection.construct this reply m).2) ∧
    ∀ (address : Conn → O) (reply : Conn → ConnectReply H), address .local_ ≠ address .hosted_ →
      (∀ conn, m.conn_ (address conn) = none) → Fresh (reply .local_) m →
      Fresh (reply .hosted_) (DBConnection.construct (address .local_) (reply .local_) m).2 →
      UniquelyOwned (ReplicationManager.openConnections address reply m).2 ∧
      ((ReplicationManager.openConnections address reply m).1 = false →
        Unchanged m (ReplicationManager.openConnections address reply m).2) := by
  have hm := sole_of_run hrun
  refine ⟨hm.uniquelyOwned, fun this reply => hm.construct_unchanged, ?_⟩
  intro address reply hne hfree hlocal hhosted
  have hopened := sole_of_run (hrun.trans (run_openConnections hne hfree hlocal hhosted))
  exact ⟨hopened.uniquelyOwned,
    fun hfail => hm.unchanged hopened (conn_openConnections (hfree .local_) hfail)⟩

/-- Two connections: the first is moved to a second object, assigned to itself there, and
    then to the object that holds the other. -/
def moved : Connections Nat Nat :=
  let m := (DBConnection.construct 0 (.handle 7 true) {}).2
  let m := DBConnection.moveConstruct 1 0 m
  let m := DBConnection.moveAssign 1 1 m
  let m := (DBConnection.construct 2 (.handle 8 true) m).2
  DBConnection.moveAssign 2 1 m

theorem run_moved : ReflTransGen Step {} moved := by
  have hfirst : Fresh (.handle 7 true) ({} : Connections Nat Nat) := by
    rintro h ⟨⟩
    decide
  refine .tail (.tail (.tail (.tail (.single (.construct rfl hfirst))
    (.moveConstruct rfl (by decide))) (.moveAssign (by decide) (by decide)))
    (.construct rfl ?_)) (.moveAssign (by decide) (by decide))
  rintro h ⟨⟩
  decide

/-- A manager whose second connection does not come up finishes its first one. -/
theorem connections_owned_moved : UniquelyOwned moved ∧
    Unchanged moved (ReplicationManager.openConnections
      (fun conn => if conn = .local_ then 3 else 4)
      (fun conn => if conn = .local_ then .handle 9 true else .handle 10 false) moved).2 := by
  have howned := connections_owned run_moved
  refine ⟨howned.1, (howned.2.2 _ _ (by decide) ?_ ?_ ?_).2 (by decide)⟩
  · rintro (_ | _) <;> rfl
  · rintro h ⟨⟩
    decide
  · rintro h ⟨⟩
    decide

end SyncLayer.Connection
