import SyncLayer.Interaction.Threads
import SyncLayer.Model.Engine

/-!
# The Main Thread and the Health Requests

The main thread calls `Engine::run` again and again, and the health server handles any
number of `GET /health` at the same time. Both send queries on the two connections of the
one replication manager, and nothing keeps them apart: a request that begins while a run
or another request still has a query to make may meet it on a connection
(`separate_iff`). As long as none does, every connection is used by one thread at a time
(`connections_exclusive`).
-/

namespace SyncLayer.Service

open SyncLayer.Interaction SyncLayer.Model Relation

/-! ## The threads -/

/-- Who calls the replication manager; the requests are numbered by the threads of the
    HTTP server's pool. -/
inductive Caller where
  | main
  | request (n : Nat)
  deriving DecidableEq

/-- What a caller keeps of its last call. -/
abbrev Kept : Caller → Type
  | .main => Engine
  | .request _ => Option HttpResponse

/-- A request runs the handler on the manager of the engine `e₀`, which no call replaces. -/
def handleRequest (e₀ : Engine) : Code (Option HttpResponse) := do
  let res ← getHealth e₀.replicationManager
  return some res

/-- The main thread runs the engine as its last run has left it. -/
def jobs (e₀ : Engine) : (i : Caller) → Kept i → Code (Kept i) → Prop
  | .main, e, p => ∃ fuel, p = e.run fuel
  | .request _, _, p => p = handleRequest e₀

/-- After the construction of the engine. -/
def initial (e₀ : Engine) : Pool Call Call.Reply Kept
  | .main => .idle e₀
  | .request _ => .idle none

section Start

variable {e₀ : Engine} {allow : Pool Call Call.Reply Kept → Caller → Prop}
  {s : Pool Call Call.Reply Kept}

theorem step_run {e : Engine} (hmain : s .main = .idle e) (fuel : Nat) (h : allow s .main) :
    Pool.Step (jobs e₀) allow s (Function.update s .main (.ready (e.run fuel))) :=
  .start hmain ⟨fuel, rfl⟩ h

theorem step_request {n : Nat} {kept : Option HttpResponse} (hn : s (.request n) = .idle kept)
    (h : allow s (.request n)) :
    Pool.Step (jobs e₀) allow s (Function.update s (.request n) (.ready (handleRequest e₀))) :=
  .start hn rfl h

end Start

/-- The calls of `PQexec` on a connection. -/
def QueryOn (conn : Conn) (e : Call) : Prop := ∃ q, e = .pqexec conn q

/-- No other run or request has a query open or ahead. -/
def Separate (s : Pool Call Call.Reply Kept) (i : Caller) : Prop :=
  ∀ conn, Pool.Alone (QueryOn conn) s i

/-- At the beginning nobody has a query ahead. -/
theorem separate_initial (e₀ : Engine) (i : Caller) : Separate (initial e₀) i := by
  intro conn j _ hj
  cases j <;> exact hj.elim

/-- **Exclusive use of the connections**: when runs and requests begin only while no other
    one has a query open or ahead, at most one query is open on each connection. -/
theorem connections_exclusive {e₀ : Engine} {s : Pool Call Call.Reply Kept}
    (h : ReflTransGen (Pool.Step (jobs e₀) Separate) (initial e₀) s) (conn : Conn) :
    Pool.Exclusive (QueryOn conn) s := by
  have hinitial : Pool.OneBusy (QueryOn conn) (initial e₀) := by
    intro i j hi _
    cases i <;> exact hi.elim
  exact Pool.exclusive_of_alone hinitial h fun _ _ hseparate => hseparate conn

/-- An engine with both connections. -/
def connected : Engine := { replicationManager := some { config := {
  localConn := "host=localhost", hostedConn := "host=localhost" } } }

/-! ## What the callers may come to -/

private theorem mayCall_checkConnection (conn : Conn) :
    (checkConnection conn).MayCall (QueryOn conn) :=
  .inl ⟨.selectOne, rfl⟩

/-- A health check queries both connections, whatever it finds. -/
theorem mayCall_healthCheck (conn : Conn) : healthCheck.MayCall (QueryOn conn) := by
  refine .inr ⟨(), ?_⟩
  cases conn with
  | local_ => exact (mayCall_checkConnection .local_).bind _
  | hosted_ =>
    -- the local query gets no result
    refine .inr ⟨none, .inr ⟨(), ?_⟩⟩
    exact (mayCall_checkConnection .hosted_).bind _

theorem mayCall_handleRequest {e₀ : Engine} {m : ReplicationManager}
    (he : e₀.replicationManager = some m) (conn : Conn) :
    (handleRequest e₀).MayCall (QueryOn conn) := by
  -- the handler begins with a health check
  have hget : (getHealth (some m)).MayCall (QueryOn conn) := (mayCall_healthCheck conn).bind _
  rw [handleRequest, he]
  exact hget.bind _

theorem mayCall_run {e : Engine} {m : ReplicationManager} (he : e.replicationManager = some m)
    (fuel : Nat) (conn : Conn) : (e.run fuel).MayCall (QueryOn conn) := by
  have hstart : (m.start fuel).MayCall (QueryOn conn) :=
    .inr ⟨(), (mayCall_healthCheck conn).bind _⟩
  refine .inr ⟨(), ?_⟩
  rw [he]
  exact hstart.bind _

/-- Two databases that answer every query with the number 1. -/
def responding : Prog.Handler Call Call.Reply Unit
  | .pqexec _ _, _ => (some { status := .tuplesOk, fnames := ["n"], tuples := [[some "1"]] }, ())
  | .pqescapeLiteral _, _ => (true, ())
  | .sleepFor _, _ => ((), ())
  | .log _, _ => ((), ())

/-- A request has made its queries and is answered; then the main thread has begun a run
    and stands inside its first query. -/
theorem connections_exclusive_after_request : ∃ s,
    ReflTransGen (Pool.Step (jobs connected) Separate) (initial connected) s ∧
      (∃ response, s (.request 0) = .idle (some response)) ∧
      (s .main).Open (QueryOn .local_) ∧ Pool.Exclusive (QueryOn .local_) s := by
  have hrequest : Pool.Step (jobs connected) Separate (initial connected) _ :=
    step_request rfl (separate_initial connected (.request 0))
  -- the request runs to its end
  obtain ⟨response, hresponse⟩ : ∃ response,
      (handleRequest connected).run responding () = (some (some response), ()) := ⟨_, rfl⟩
  obtain ⟨s₁, hreach₁, hidle, hother₁⟩ := Pool.reach_idle (jobs connected) Separate responding
    hresponse (Function.update_self (.request 0) _ (initial connected))
  have hmain : s₁ .main = .idle connected := hother₁ .main (by decide)
  have hseparate : Separate s₁ .main := by
    intro conn j hj hbusy
    cases j with
    | main => exact hj rfl
    | request n =>
      by_cases hn : n = 0
      · subst hn
        rw [hidle] at hbusy
        exact hbusy
      · rw [hother₁ _ (by simpa using hn), Function.update_of_ne (by simpa using hn)] at hbusy
        exact hbusy
  -- now the main thread begins, and comes to its first query
  have hrun : Pool.Step (jobs connected) Separate s₁ _ := step_run hmain 1 hseparate
  have hbusy : (Function.update s₁ .main (.ready (connected.run 1)) .main).Busy
      (QueryOn .local_) := mayCall_run rfl 1 .local_
  obtain ⟨s₂, hreach₂, hopen, hother₂⟩ := Pool.reach_open (jobs connected) Separate hbusy
  have hreach := (ReflTransGen.head hrequest hreach₁).trans (.head hrun hreach₂)
  refine ⟨s₂, hreach, ⟨response, ?_⟩, hopen, connections_exclusive hreach .local_⟩
  rw [hother₂ _ (by decide), Function.update_of_ne (by decide), hidle]

/-! ## Collisions -/

/-- The condition is exact: when a run or a request begins that may query both
    connections, all ways to go on are exclusive exactly when it begins separately. -/
theorem separate_iff (e₀ : Engine) {s : Pool Call Call.Reply Kept} {i : Caller}
    {p : Code (Kept i)} (hp : ∀ conn, p.MayCall (QueryOn conn)) :
    (∀ s', ReflTransGen (Pool.Step (jobs e₀) fun _ _ => False)
        (Function.update s i (.ready p)) s' → ∀ conn, Pool.Exclusive (QueryOn conn) s') ↔
      Separate s i := by
  constructor
  · exact fun h conn => (Pool.start_exclusive_iff (jobs e₀) (hp conn)).1 fun s' hs' => h s' hs' conn
  · exact fun h s' hs' conn => (Pool.start_exclusive_iff (jobs e₀) (hp conn)).2 (h conn) s' hs'

/-- A request that comes in while the main thread has just begun a run: both may stand
    inside a query on the local connection. -/
theorem request_meets_run : ∃ s,
    ReflTransGen (Pool.Step (jobs connected) fun _ _ => True) (initial connected) s ∧
      (s .main).Open (QueryOn .local_) ∧ (s (.request 0)).Open (QueryOn .local_) ∧
      ¬ Pool.Exclusive (QueryOn .local_) s := by
  -- first the run begins, then the request; both have the local connection ahead
  let s₁ := Function.update (initial connected) .main (.ready (connected.run 1))
  let s₂ := Function.update s₁ (.request 0) (.ready (handleRequest connected))
  have hrun : Pool.Step (jobs connected) (fun _ _ => True) (initial connected) s₁ :=
    step_run rfl 1 trivial
  have hrequest : Pool.Step (jobs connected) (fun _ _ => True) s₁ s₂ := step_request rfl trivial
  have hmain : (s₂ .main).Busy (QueryOn .local_) := mayCall_run rfl 1 .local_
  have hcalls : (handleRequest connected).MayCall (QueryOn .local_) :=
    mayCall_handleRequest rfl .local_
  have hhandler : (s₂ (.request 0)).Busy (QueryOn .local_) := hcalls
  obtain ⟨s, hreach, hopen, hopen'⟩ :=
    Pool.exists_collision (jobs connected) (fun _ _ => True) (by decide) hmain hhandler
  refine ⟨s, .head hrun (.head hrequest hreach), hopen, hopen', fun hexclusive => ?_⟩
  exact absurd (hexclusive _ _ hopen hopen') (by decide)

end SyncLayer.Service
