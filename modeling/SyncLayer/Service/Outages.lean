import SyncLayer.Model.Calls
import SyncLayer.Model.Engine

/-!
# Health Reports and Outages

A run of the service against two servers that are up at some instants and down at
others. The connections are opened when the engine is constructed and never again, and a
session is lost when its server goes down. So a report compares the present with the
whole time since the connection was opened: a check finds a database healthy exactly when
its server has been up throughout (`run_healthCheck`).
-/

namespace SyncLayer.Service

open SyncLayer.Interaction SyncLayer.Model

/-! ## Two servers over time -/

/-- What the two servers do during a run. -/
structure Site where
  /-- Whether a server is up at an instant. -/
  up : Nat → Conn → Bool
  /-- The instants that pass after an instant before the next call is made. -/
  pause : Nat → Nat
  /-- The result of a query on a live session. -/
  answer : Nat → Conn → Stmt → PGresult
  answer_selectOne : ∀ t conn, (answer t conn .selectOne).status = .tuplesOk
  /-- The result of a query on a lost session. -/
  refusal : Nat → Conn → Stmt → Option PGresult
  refusal_status : ∀ t conn q, PQresultStatus (refusal t conn q) ≠ .tuplesOk ∧
    PQresultStatus (refusal t conn q) ≠ .commandOk
  escapes : Nat → String → Bool

/-- What there is at an instant. -/
structure Moment where
  now : Nat := 0
  /-- When a connection was opened. -/
  opened : Conn → Nat := fun _ => 0
  /-- Whether its session is still there. -/
  alive : Conn → Bool := fun _ => false
  /-- When `SELECT 1` was sent for the last time. -/
  probed : Conn → Nat := fun _ => 0
  log : List LogLine := []

namespace Site

variable (S : Site)

/-- One instant passes: the session of a server that is down is lost. -/
def tick (m : Moment) : Moment :=
  { m with
    now := m.now + 1
    alive := fun conn => m.alive conn && S.up (m.now + 1) conn }

def elapse : Nat → Moment → Moment
  | 0, m => m
  | n + 1, m => elapse n (S.tick m)

/-- The time until the next call. -/
def next (m : Moment) : Moment := S.elapse (S.pause m.now + 1) m

/-- A connection comes up when its server is up. -/
def connect : Connect Moment := fun conn _ m =>
  let m := S.next m
  let ok := S.up m.now conn
  (ok, { m with
    opened := Function.update m.opened conn m.now
    alive := Function.update m.alive conn ok })

/-- A query succeeds when its session is alive. No call opens a session again. -/
def handle : Prog.Handler Call Call.Reply Moment
  | .pqexec conn q, m =>
    let m := S.next m
    let res := if m.alive conn then some (S.answer m.now conn q) else S.refusal m.now conn q
    (res, if q = .selectOne then { m with probed := Function.update m.probed conn m.now } else m)
  | .pqescapeLiteral text, m => (S.escapes (S.next m).now text, S.next m)
  | .sleepFor _, m => ((), S.next m)
  | .log line, m => ((), { S.next m with log := m.log ++ [line] })

/-- The engine and the moment after some runs and requests. -/
inductive Reaches (config : Config) : Engine → Moment → Prop
  | construct : Reaches config (Engine.construct S.connect config {}).1
      (Engine.construct S.connect config {}).2
  | run {e e' : Engine} {m m' : Moment} (fuel : Nat) (h : Reaches config e m)
      (hrun : (e.run fuel).run S.handle m = (some e', m')) : Reaches config e' m'
  | get {e : Engine} {m m' : Moment} {res : HttpResponse} (h : Reaches config e m)
      (hget : (getHealth e.replicationManager).run S.handle m = (some res, m')) :
      Reaches config e m'

/-! ## Sessions remember outages -/

/-- The server has been up from the opening of its connection to the last `SELECT 1`. -/
def UpSince (conn : Conn) (m : Moment) : Prop :=
  ∀ t, m.opened conn ≤ t → t ≤ m.probed conn → S.up t conn = true

/-- A session is there exactly when its server has been up since it was opened. -/
structure Remembers (conn : Conn) (m : Moment) : Prop where
  opened_le : m.opened conn ≤ m.now
  alive_iff : m.alive conn = true ↔ ∀ t, m.opened conn ≤ t → t ≤ m.now → S.up t conn = true

variable {S} {conn : Conn} {m : Moment}

theorem Remembers.tick (hm : S.Remembers conn m) : S.Remembers conn (S.tick m) := by
  constructor
  · exact Nat.le_succ_of_le hm.opened_le
  · show (m.alive conn && S.up (m.now + 1) conn) = true ↔
      ∀ t, m.opened conn ≤ t → t ≤ m.now + 1 → S.up t conn = true
    rw [Bool.and_eq_true, hm.alive_iff]
    constructor
    · rintro ⟨hup, hnow⟩ t ht ht'
      -- up to now the session has remembered, and the last instant is checked by `tick`
      rcases Nat.le_succ_iff.1 ht' with ht' | rfl
      · exact hup t ht ht'
      · exact hnow
    · intro hup
      exact ⟨fun t ht ht' => hup t ht (Nat.le_succ_of_le ht'),
        hup _ (Nat.le_succ_of_le hm.opened_le) (Nat.le_refl _)⟩

theorem Remembers.elapse (hm : S.Remembers conn m) (n : Nat) :
    S.Remembers conn (S.elapse n m) := by
  induction n generalizing m with
  | zero => exact hm
  | succ n ih => exact ih hm.tick

theorem Remembers.next (hm : S.Remembers conn m) : S.Remembers conn (S.next m) :=
  hm.elapse _

/-- Opening a connection makes its session remember. -/
theorem remembers_connect (conn : Conn) (conninfo : String) (m : Moment) :
    S.Remembers conn (S.connect conn conninfo m).2 := by
  constructor
  · show Function.update (S.next m).opened conn (S.next m).now conn ≤ (S.next m).now
    rw [Function.update_self]
  · show Function.update (S.next m).alive conn (S.up (S.next m).now conn) conn = true ↔
      ∀ t, Function.update (S.next m).opened conn (S.next m).now conn ≤ t →
        t ≤ (S.next m).now → S.up t conn = true
    rw [Function.update_self, Function.update_self]
    exact ⟨fun h t ht ht' => Nat.le_antisymm ht ht' ▸ h,
      fun h => h _ (Nat.le_refl _) (Nat.le_refl _)⟩

/-- Opening the other connection takes time, and nothing else. -/
theorem Remembers.connect (hm : S.Remembers conn m) {other : Conn} (hne : conn ≠ other)
    (conninfo : String) : S.Remembers conn (S.connect other conninfo m).2 := by
  have hopened : (S.connect other conninfo m).2.opened conn = (S.next m).opened conn :=
    Function.update_of_ne hne ..
  have halive : (S.connect other conninfo m).2.alive conn = (S.next m).alive conn :=
    Function.update_of_ne hne ..
  constructor
  · rw [hopened]
    exact hm.next.opened_le
  · rw [hopened, halive]
    exact hm.next.alive_iff

/-- No call opens or loses a session but by the time it takes. -/
theorem Remembers.handle (hm : S.Remembers conn m) (e : Call) :
    S.Remembers conn (S.handle e m).2 := by
  cases e with
  | pqexec other q =>
    simp only [Site.handle]
    split
    · exact ⟨hm.next.opened_le, hm.next.alive_iff⟩
    · exact hm.next
  | pqescapeLiteral text => exact hm.next
  | sleepFor milliseconds => exact hm.next
  | log line => exact ⟨hm.next.opened_le, hm.next.alive_iff⟩

theorem Remembers.run {α : Type} (hm : S.Remembers conn m) (p : Code α) :
    S.Remembers conn (p.run S.handle m).2 :=
  Prog.run_invariant S.handle (fun e _ _ hw => hw.handle e) (Prog.calls_true p) hm

/-! ## What the time until the next call leaves -/

variable (S)

theorem elapse_eq (n : Nat) (m : Moment) :
    (S.elapse n m).now = m.now + n ∧ (S.elapse n m).opened = m.opened ∧
      (S.elapse n m).probed = m.probed ∧ (S.elapse n m).log = m.log := by
  induction n generalizing m with
  | zero => exact ⟨rfl, rfl, rfl, rfl⟩
  | succ n ih =>
    obtain ⟨hnow, hopened, hprobed, hlog⟩ := ih (S.tick m)
    refine ⟨?_, hopened, hprobed, hlog⟩
    rw [elapse, hnow]
    simp only [tick]
    omega

theorem now_lt_next (m : Moment) : m.now < (S.next m).now := by
  rw [next, (S.elapse_eq _ m).1]
  omega

@[simp] theorem next_opened (m : Moment) : (S.next m).opened = m.opened :=
  (S.elapse_eq _ m).2.1

@[simp] theorem next_probed (m : Moment) : (S.next m).probed = m.probed :=
  (S.elapse_eq _ m).2.2.1

@[simp] theorem next_log (m : Moment) : (S.next m).log = m.log :=
  (S.elapse_eq _ m).2.2.2

/-- A part of a run that sends no `SELECT 1` and writes `lines`. -/
structure Passes (m m' : Moment) (lines : List LogLine) : Prop where
  now_le : m.now ≤ m'.now
  opened_eq : m'.opened = m.opened
  probed_eq : m'.probed = m.probed
  log_eq : m'.log = m.log ++ lines

end Site

namespace Site.Passes

variable {S : Site} {m m' m'' : Moment} {lines lines' : List LogLine}

theorem refl (m : Moment) : Passes m m [] :=
  ⟨Nat.le_refl _, rfl, rfl, (List.append_nil _).symm⟩

theorem trans (h : Passes m m' lines) (h' : Passes m' m'' lines') :
    Passes m m'' (lines ++ lines') := by
  constructor
  · exact Nat.le_trans h.now_le h'.now_le
  · rw [h'.opened_eq, h.opened_eq]
  · rw [h'.probed_eq, h.probed_eq]
  · rw [h'.log_eq, h.log_eq, List.append_assoc]

theorem upSince_iff (h : Passes m m' lines) (conn : Conn) :
    S.UpSince conn m' ↔ S.UpSince conn m := by
  unfold UpSince
  rw [h.opened_eq, h.probed_eq]

theorem log (S : Site) (m : Moment) (line : LogLine) :
    Passes m (S.handle (.log line) m).2 [line] :=
  ⟨Nat.le_of_lt (S.now_lt_next m), S.next_opened m, S.next_probed m, rfl⟩

theorem query (S : Site) (m : Moment) (conn : Conn) {q : Stmt} (hq : q ≠ .selectOne) :
    Passes m (S.handle (.pqexec conn q) m).2 [] := by
  simp only [handle, if_neg hq]
  exact ⟨Nat.le_of_lt (S.now_lt_next m), S.next_opened m, S.next_probed m, by simp⟩

end Site.Passes

/-! ## One health check -/

variable {S : Site}

open Site

private theorem run_queryMetric (conn : Conn) {q : Stmt} (hq : q ≠ .selectOne) (m : Moment) :
    ∃ v m', (queryMetric conn q).run S.handle m = (some v, m') ∧ Passes m m' [] := by
  have hpasses := Passes.query S m conn hq
  rw [queryMetric, run_PQexec_bind]
  split
  · exact ⟨_, _, rfl, hpasses⟩
  · exact ⟨_, _, rfl, hpasses⟩

/-- The moment of a `SELECT 1`. -/
def probe (S : Site) (conn : Conn) (m : Moment) : Moment :=
  { S.next m with probed := Function.update m.probed conn (S.next m).now }

/-- The probe succeeds exactly when the session is alive. -/
private theorem handle_selectOne (conn : Conn) (m : Moment) :
    (S.handle (.pqexec conn .selectOne) m).2 = probe S conn m ∧
      (PQresultStatus (S.handle (.pqexec conn .selectOne) m).1 = .tuplesOk ↔
        (S.next m).alive conn = true) := by
  constructor
  · simp only [handle, if_true, probe, next_probed]
  · simp only [handle, if_true]
    by_cases halive : (S.next m).alive conn = true
    · rw [if_pos halive]
      exact iff_of_true (S.answer_selectOne _ conn) halive
    · rw [if_neg halive]
      exact iff_of_false (S.refusal_status _ conn _).1 halive

/-- The check of one connection from `m` to `m'`: what it finds and what it leaves. -/
structure Checked (S : Site) (conn : Conn) (m m' : Moment) (healthy : Bool) : Prop where
  now_le : m.now ≤ m'.now
  opened_eq : m'.opened = m.opened
  probed_after : m.now < m'.probed conn
  probed_before : m'.probed conn ≤ m'.now
  probed_other : ∀ other, other ≠ conn → m'.probed other = m.probed other
  log_eq : m'.log = m.log ++ if healthy then [] else [.healthCheckFailed conn]
  healthy_iff : healthy = true ↔ S.UpSince conn m'

/-- A probe and what follows it without another one. -/
private theorem checked_of_passes {m m' : Moment} {conn : Conn} (hm : S.Remembers conn m)
    {healthy : Bool} (halive : healthy = (S.next m).alive conn)
    (h : Passes (probe S conn m) m' (if healthy then [] else [.healthCheckFailed conn])) :
    Checked S conn m m' healthy := by
  have hprobed : (probe S conn m).probed conn = (S.next m).now := Function.update_self ..
  have hnow : (probe S conn m).now = (S.next m).now := rfl
  have hopened : (probe S conn m).opened = m.opened := S.next_opened m
  have hlater := S.now_lt_next m
  have hrest := h.now_le
  constructor
  · -- the probe takes time, and the metrics behind it take more
    omega
  · rw [h.opened_eq, hopened]
  · rw [h.probed_eq, hprobed]
    exact hlater
  · rw [h.probed_eq, hprobed]
    exact hrest
  · intro other hne
    rw [h.probed_eq]
    exact Function.update_of_ne hne ..
  · rw [h.log_eq]
    exact congrArg (· ++ _) (S.next_log m)
  · rw [halive, hm.next.alive_iff, h.upSince_iff, UpSince, hprobed, hopened, next_opened]

/-- The session decides, and the session remembers. -/
private theorem run_checkConnection {m : Moment} {conn : Conn} (hm : S.Remembers conn m) :
    ∃ healthy x y z m',
      (checkConnection conn).run S.handle m = (some (healthy, x, y, z), m') ∧
        Checked S conn m m' healthy := by
  obtain ⟨hmoment, hstatus⟩ := handle_selectOne (S := S) conn m
  rw [checkConnection, run_PQexec_bind, hmoment]
  by_cases halive : (S.next m).alive conn = true
  · rw [if_pos (hstatus.2 halive)]
    -- the session is there: the metrics follow, and none of them probes
    obtain ⟨x, m₁, hx, h₁⟩ := run_queryMetric (S := S) conn (q := .countConnections)
      (by decide) (probe S conn m)
    obtain ⟨y, m₂, hy, h₂⟩ := run_queryMetric (S := S) conn (q := .databaseSize) (by decide) m₁
    obtain ⟨z, m₃, hz, h₃⟩ := run_queryMetric (S := S) conn (q := .countActiveQueries)
      (by decide) m₂
    refine ⟨true, x, y, z, m₃, ?_, checked_of_passes hm halive.symm ((h₁.trans h₂).trans h₃)⟩
    rw [Prog.run_bind_of_some _ _ hx, Prog.run_bind_of_some _ _ hy,
      Prog.run_bind_of_some _ _ hz, Prog.run_pure]
  · -- the session is lost: one log line says so
    rw [if_neg fun h => halive (hstatus.1 h), run_log_bind, Prog.run_pure]
    exact ⟨false, 0, 0, 0, _, rfl,
      checked_of_passes hm (Bool.eq_false_iff.2 halive).symm (Passes.log S _ _)⟩

/-! ## What a check leaves in the log -/

/-- The lines that report a result. -/
def Verdict (line : LogLine) : Prop :=
  line = .syncAborted ∨ ∃ conn, line = .healthCheckFailed conn

/-- A part of a run, from `m` to `m'`, with one health check in it: what the check finds,
    and the `lines` that are written. -/
structure Examined (S : Site) (m m' : Moment) (healthy : Conn → Bool)
    (lines : List LogLine) : Prop where
  now_le : m.now ≤ m'.now
  opened_eq : m'.opened = m.opened
  probed_after : ∀ conn, m.now < m'.probed conn
  probed_before : ∀ conn, m'.probed conn ≤ m'.now
  log_eq : m'.log = m.log ++ lines
  healthy_iff : ∀ conn, healthy conn = true ↔ S.UpSince conn m'
  failed_iff : ∀ conn, .healthCheckFailed conn ∈ lines ↔ healthy conn = false

namespace Examined

variable {m₀ m m' m'' : Moment} {healthy : Conn → Bool} {lines lines' : List LogLine}

theorem before (hp : Passes m₀ m lines') (hlines : ∀ line ∈ lines', ¬ Verdict line)
    (h : Examined S m m' healthy lines) : Examined S m₀ m' healthy (lines' ++ lines) := by
  constructor
  · exact Nat.le_trans hp.now_le h.now_le
  · rw [h.opened_eq, hp.opened_eq]
  · exact fun conn => Nat.lt_of_le_of_lt hp.now_le (h.probed_after conn)
  · exact h.probed_before
  · rw [h.log_eq, hp.log_eq, List.append_assoc]
  · exact h.healthy_iff
  · intro conn
    rw [List.mem_append, h.failed_iff]
    exact or_iff_right fun hmem => hlines _ hmem (.inr ⟨conn, rfl⟩)

theorem after (h : Examined S m m' healthy lines) (hp : Passes m' m'' lines')
    (hlines : ∀ conn, .healthCheckFailed conn ∉ lines') :
    Examined S m m'' healthy (lines ++ lines') := by
  constructor
  · exact Nat.le_trans h.now_le hp.now_le
  · rw [hp.opened_eq, h.opened_eq]
  · rw [hp.probed_eq]
    exact h.probed_after
  · rw [hp.probed_eq]
    exact fun conn => Nat.le_trans (h.probed_before conn) hp.now_le
  · rw [hp.log_eq, h.log_eq, List.append_assoc]
  · exact fun conn => (h.healthy_iff conn).trans (hp.upSince_iff conn).symm
  · intro conn
    rw [List.mem_append, h.failed_iff]
    exact or_iff_left (hlines conn)

end Examined

/-- What a status says about a database. -/
def healthOf (st : HealthStatus) : Conn → Bool
  | .local_ => st.localDb
  | .hosted_ => st.hostedDb

/-- The two connections are checked one after the other. -/
private theorem examined_of_checked {m m₁ m₂ : Moment} (healthy : Conn → Bool)
    (h₁ : Checked S .local_ m m₁ (healthy .local_))
    (h₂ : Checked S .hosted_ m₁ m₂ (healthy .hosted_)) :
    Examined S m m₂ healthy ((if healthy .local_ then [] else [.healthCheckFailed .local_]) ++
      if healthy .hosted_ then [] else [.healthCheckFailed .hosted_]) := by
  have hlocal : m₂.probed .local_ = m₁.probed .local_ := h₂.probed_other _ (by decide)
  have hle₁ := h₁.now_le
  have hle₂ := h₂.now_le
  constructor
  · omega
  · rw [h₂.opened_eq, h₁.opened_eq]
  · intro conn
    cases conn with
    | local_ =>
      rw [hlocal]
      exact h₁.probed_after
    | hosted_ => exact Nat.lt_of_le_of_lt hle₁ h₂.probed_after
  · intro conn
    cases conn with
    | local_ =>
      rw [hlocal]
      exact Nat.le_trans h₁.probed_before hle₂
    | hosted_ => exact h₂.probed_before
  · rw [h₂.log_eq, h₁.log_eq, List.append_assoc]
  · intro conn
    cases conn with
    | local_ =>
      rw [h₁.healthy_iff, UpSince, UpSince, hlocal, h₂.opened_eq]
    | hosted_ => exact h₂.healthy_iff
  · intro conn
    cases conn <;> cases healthy .local_ <;> cases healthy .hosted_ <;> simp

/-- A lost session, or a server that is down, is found unhealthy, and nothing else is. -/
theorem run_healthCheck {m : Moment} (hm : ∀ conn, S.Remembers conn m) :
    ∃ st m' lines, healthCheck.run S.handle m = (some st, m') ∧
      Examined S m m' (healthOf st) lines ∧ .syncAborted ∉ lines ∧
      (st.overall = true ↔ ∀ conn, healthOf st conn = true) := by
  have hm₀ : ∀ conn, S.Remembers conn (S.handle (.log .healthCheckBegins) m).2 :=
    fun conn => (hm conn).handle _
  obtain ⟨up, x, y, z, m₁, hlocal, h₁⟩ := run_checkConnection (hm₀ .local_)
  have hm₁ : S.Remembers .hosted_ m₁ := by
    have := (hm₀ .hosted_).run (checkConnection .local_)
    rwa [hlocal] at this
  obtain ⟨up', x', y', z', m₂, hhosted, h₂⟩ := run_checkConnection hm₁
  let st : HealthStatus := .ofChecks (up, x, y, z) (up', x', y', z')
  -- the overall verdict has a line of its own, which names no database
  let last : LogLine := verdictLine (up && up')
  have hlast : ∀ conn, .healthCheckFailed conn ∉ [last] ∧ .syncAborted ∉ [last] := by
    intro conn
    simp only [last, verdictLine, List.mem_singleton]
    cases up && up' <;> simp
  have hfailed := examined_of_checked (healthOf st) h₁ h₂
  refine ⟨st, _, _, ?_, ((hfailed.after (Passes.log S m₂ last) fun conn => (hlast conn).1).before
    (Passes.log S m .healthCheckBegins) ?_), ?_, ?_⟩
  · exact run_healthCheck_of_checks hlocal hhosted
  · simp [Verdict]
  · simp only [List.mem_append, not_or]
    refine ⟨by simp, ⟨?_, ?_⟩, (hlast .local_).2⟩
    · cases up <;> simp [healthOf, st, HealthStatus.ofChecks]
    · cases up' <;> simp [healthOf, st, HealthStatus.ofChecks]
  · show (up && up') = true ↔ _
    rw [Bool.and_eq_true]
    constructor
    · rintro ⟨hl, hh⟩ conn
      cases conn with
      | local_ => exact hl
      | hosted_ => exact hh
    · exact fun h => ⟨h .local_, h .hosted_⟩

/-! ## Engine::run -/

/-- The calls of `start` behind a passed health check. -/
def SyncCall (e : Call) : Prop := DiscoveryCall e ∨ CopyCall e ∨ DrainCall e

/-- They probe nothing and report nothing about the databases. -/
private theorem passes_of_syncCall {e : Call} (he : SyncCall e) (m : Moment) :
    ∃ lines, Passes m (S.handle e m).2 lines ∧ ∀ line ∈ lines, ¬ Verdict line := by
  cases e with
  | pqexec conn q =>
    -- `SELECT 1` is sent by the health check only
    refine ⟨[], Passes.query S m conn ?_, by simp⟩
    rintro rfl
    rcases he with he | he | he <;> cases he
  | pqescapeLiteral text =>
    exact ⟨[], ⟨Nat.le_of_lt (S.now_lt_next m), S.next_opened m, S.next_probed m,
      by simp [handle]⟩, by simp⟩
  | sleepFor milliseconds =>
    exact ⟨[], ⟨Nat.le_of_lt (S.now_lt_next m), S.next_opened m, S.next_probed m,
      by simp [handle]⟩, by simp⟩
  | log line =>
    refine ⟨[line], Passes.log S m line, fun l hl => ?_⟩
    obtain rfl := List.mem_singleton.1 hl
    rintro (rfl | ⟨conn, rfl⟩)
    · rcases he with he | he | he <;> cases he
    · rcases he with he | he | he <;> cases he

private theorem passes_of_calls {α : Type} {p : Code α} (hp : p.Calls SyncCall) (m : Moment) :
    ∃ lines, Passes m (p.run S.handle m).2 lines ∧ ∀ line ∈ lines, ¬ Verdict line := by
  refine Prog.run_invariant S.handle
    (P := fun m' => ∃ lines, Passes m m' lines ∧ ∀ line ∈ lines, ¬ Verdict line)
    ?_ hp ⟨[], Passes.refl m, by simp⟩
  rintro e m' he ⟨lines, hpasses, hlines⟩
  obtain ⟨lines', hpasses', hlines'⟩ := passes_of_syncCall (S := S) he m'
  refine ⟨lines ++ lines', hpasses.trans hpasses', fun line hline => ?_⟩
  rcases List.mem_append.1 hline with hline | hline
  · exact hlines line hline
  · exact hlines' line hline

/-- Discovery comes to its end whatever is answered, and says what is tracked. -/
private theorem run_discoverTables (config : Config) (m : Moment) :
    ∃ tracker m' lines, (TableTracker.discoverTables config).run S.handle m = (some tracker, m') ∧
      Passes m m' lines ∧ (∀ line ∈ lines, ¬ Verdict line) ∧
      ∃ count joined, .trackingTables count joined ∈ lines := by
  have hlist : ∃ tables m', (TableTracker.listTables config).run S.handle m = (some tables, m') := by
    unfold TableTracker.listTables
    split
    · rw [run_PQexec_bind]
      split <;> exact ⟨_, _, rfl⟩
    · exact ⟨_, _, rfl⟩
  have hlookups : ∀ (ts : List String) (keys : String → Option (List String)) (m : Moment),
      ∃ keys' m', (TableTracker.lookupPrimaryKeys keys ts).run S.handle m = (some keys', m') := by
    intro ts
    induction ts with
    | nil => exact fun keys m => ⟨_, _, rfl⟩
    | cons t ts ih =>
      intro keys m
      have hlookup : ∃ keys' m', (TableTracker.lookupPrimaryKey keys t).run S.handle m =
          (some keys', m') := by
        rw [TableTracker.lookupPrimaryKey, run_PQexec_bind]
        split
        · dsimp only
          split <;> exact ⟨_, _, rfl⟩
        · exact ⟨_, _, rfl⟩
      obtain ⟨keys', m', hlookup⟩ := hlookup
      rw [TableTracker.lookupPrimaryKeys, Prog.run_bind_of_some _ _ hlookup]
      exact ih keys' m'
  obtain ⟨tables, m₁, hlist⟩ := hlist
  obtain ⟨keys, m₂, hkeys⟩ := hlookups tables (fun _ => none) m₁
  obtain ⟨lines₁, hpasses₁, hquiet₁⟩ :=
    passes_of_calls (S := S) ((calls_listTables config).mono fun _ => .inl) m
  obtain ⟨lines₂, hpasses₂, hquiet₂⟩ := passes_of_calls (S := S)
    ((calls_lookupPrimaryKeys (fun _ => none) tables).mono fun _ => .inl) m₁
  rw [hlist] at hpasses₁
  rw [hkeys] at hpasses₂
  let last : LogLine := .trackingTables tables.length (String.intercalate ", " tables)
  refine ⟨{ trackedTables := tables, tablePrimaryKeys := keys }, _, _, ?_,
    (hpasses₁.trans hpasses₂).trans (Passes.log S m₂ last), fun line hline => ?_,
    tables.length, String.intercalate ", " tables, by simp [last]⟩
  · rw [TableTracker.discoverTables, Prog.run_bind_of_some _ _ hlist,
      Prog.run_bind_of_some _ _ hkeys]
    rfl
  · simp only [List.mem_append, List.mem_singleton] at hline
    rcases hline with (hline | hline) | rfl
    · exact hquiet₁ line hline
    · exact hquiet₂ line hline
    · simp [last, Verdict]

/-- What `start` does behind a passed health check and the discovery. -/
private def copyPart (fuel : Nat) (mgr : ReplicationManager) (tracker : TableTracker) :
    Code ReplicationManager := do
  if !mgr.initialSyncDone then
    initialSync fuel tracker
  let changes := tracker.fetchChanges mgr.config.batchSize
  let queue ← QueueHandler.drainTo (changes.foldl QueueHandler.enqueue mgr.queue)
  return { mgr with tracker, queue, initialSyncDone := true }

private theorem calls_copyPart (fuel : Nat) (mgr : ReplicationManager) (tracker : TableTracker) :
    (copyPart fuel mgr tracker).Calls SyncCall := by
  have hdrain : ∀ q, (QueueHandler.drainTo q).Calls SyncCall := fun q =>
    (calls_drainTo q).mono fun _ h => .inr (.inr h)
  unfold copyPart
  dsimp only
  split
  · refine Prog.calls_bind ((calls_initialSync fuel tracker).mono fun _ h => .inr (.inl h))
      fun _ => ?_
    exact Prog.calls_bind (hdrain _) fun _ => trivial
  · exact Prog.calls_bind (hdrain _) fun _ => trivial

/-- `start` aborts exactly when its health check finds a database unhealthy; otherwise it
    goes on to the discovery. -/
theorem run_start {m : Moment} (hm : ∀ conn, S.Remembers conn m) (fuel : Nat)
    (mgr : ReplicationManager) :
    ∃ healthy lines, Examined S m ((mgr.start fuel).run S.handle m).2 healthy lines ∧
      (.syncAborted ∈ lines ↔ ∃ conn, healthy conn = false) ∧
      ((∀ conn, healthy conn = true) → ∃ count joined, .trackingTables count joined ∈ lines) := by
  have hm₀ := fun conn =>
    (hm conn).handle (.log (.managerStarted mgr.config.intervalSeconds mgr.config.batchSize))
  obtain ⟨st, m₁, lines, hrun, hexamined, habort, hoverall⟩ := run_healthCheck hm₀
  have hstart := hexamined.before (Passes.log S m _) (by simp [Verdict])
  have habort' : .syncAborted ∉ [.managerStarted mgr.config.intervalSeconds
      mgr.config.batchSize] ++ lines := by simpa using habort
  have hrun' : ((mgr.start fuel).run S.handle m).2 =
      (Prog.run S.handle (if !st.overall then do log .syncAborted; return mgr
        else TableTracker.discoverTables mgr.config >>= copyPart fuel mgr) m₁).2 := by
    rw [ReplicationManager.start, run_log_bind, Prog.run_bind_of_some _ _ hrun]
    rfl
  rw [hrun']
  by_cases hpass : st.overall = true
  · -- the sync begins, and it makes no further verdict
    obtain ⟨tracker, m₂, tracking, hdiscover, hpasses, hquiet₁, count, joined, htracking⟩ :=
      run_discoverTables (S := S) mgr.config m₁
    rw [hpass, Bool.not_true, if_neg Bool.false_ne_true, Prog.run_bind_of_some _ _ hdiscover]
    obtain ⟨rest, hrest, hquiet₂⟩ := passes_of_calls (S := S) (calls_copyPart fuel mgr tracker) m₂
    have hquiet : ∀ line ∈ tracking ++ rest, ¬ Verdict line := by
      intro line hline
      rcases List.mem_append.1 hline with hline | hline
      · exact hquiet₁ line hline
      · exact hquiet₂ line hline
    refine ⟨healthOf st, _, hstart.after (hpasses.trans hrest)
      fun conn h => hquiet _ h (.inr ⟨conn, rfl⟩), ?_, fun _ => ⟨count, joined, ?_⟩⟩
    · refine iff_of_false (fun h => ?_) fun ⟨conn, h⟩ => ?_
      · rcases List.mem_append.1 h with h | h
        · exact habort' h
        · exact hquiet _ h (.inl rfl)
      · rw [hoverall.1 hpass conn] at h
        cases h
    · exact List.mem_append_right _ (List.mem_append_left _ htracking)
  · rw [Bool.eq_false_iff.2 hpass, Bool.not_false, if_pos rfl, run_log_bind, Prog.run_pure]
    refine ⟨healthOf st, _, hstart.after (Passes.log S m₁ .syncAborted) (by simp), ?_,
      fun hhealthy => absurd (hoverall.2 hhealthy) hpass⟩
    refine iff_of_true (by simp) ?_
    by_contra hnone
    exact hpass (hoverall.2 fun conn =>
      by_contra fun h => hnone ⟨conn, Bool.eq_false_iff.2 h⟩)

/-! ## Every run -/

theorem run_of_unavailable {e : Engine} (he : e.replicationManager = none) (fuel : Nat)
    (m : Moment) : ∃ m', (e.run fuel).run S.handle m = (some e, m') ∧
      m'.log = m.log ++ [.engineRunStart, .managerNotAvailable] := by
  have hpasses := (Passes.log S m .engineRunStart).trans (Passes.log S _ .managerNotAvailable)
  rw [Engine.run, run_log_bind, he]
  exact ⟨_, rfl, hpasses.log_eq⟩

/-- The connections of a constructed engine remember every outage. -/
theorem remembers_of_reaches {config : Config} {e : Engine} {m : Moment}
    (h : S.Reaches config e m) (he : e.replicationManager ≠ none) (conn : Conn) :
    S.Remembers conn m := by
  induction h with
  | construct =>
    -- both connections came up, the local one first
    have hlocal := remembers_connect (S := S) .local_ config.localConn {}
    have hhosted := remembers_connect (S := S) .hosted_ config.hostedConn
      (S.connect .local_ config.localConn {}).2
    revert he
    simp only [Engine.construct, ReplicationManager.construct]
    split
    · exact fun he => absurd rfl he
    · split
      · exact fun he => absurd rfl he
      · intro _
        cases conn with
        | local_ => exact hlocal.connect (by decide) config.hostedConn
        | hosted_ => exact hhosted
  | @run e e' m m' fuel _ hrun ih =>
    -- a run does not make a manager where there was none
    have he' : e.replicationManager ≠ none := by
      intro hnone
      obtain ⟨m'', hrun', -⟩ := run_of_unavailable (S := S) hnone fuel m
      rw [hrun'] at hrun
      obtain rfl : e = e' := Option.some.inj (Prod.mk.inj hrun).1
      exact he hnone
    have := (ih he').run (e.run fuel)
    rwa [hrun] at this
  | @get e m m' res _ hget ih =>
    have := (ih he).run (getHealth e.replicationManager)
    rwa [hget] at this

/-- What a check between `m` and `m'` may be relied on for. -/
structure Truthful (S : Site) (m m' : Moment) (healthy : Conn → Bool) : Prop where
  probed_after : ∀ conn, m.now < m'.probed conn
  probed_before : ∀ conn, m'.probed conn ≤ m'.now
  of_down : ∀ conn, S.up (m'.probed conn) conn = false → healthy conn = false
  of_upSince : ∀ conn, S.UpSince conn m' → healthy conn = true

theorem Examined.truthful {m m' : Moment} (hm : ∀ conn, S.Remembers conn m)
    {healthy : Conn → Bool} {lines : List LogLine} (h : Examined S m m' healthy lines) :
    Truthful S m m' healthy := by
  refine ⟨h.probed_after, h.probed_before, fun conn hdown => ?_,
    fun conn => (h.healthy_iff conn).2⟩
  by_contra hhealthy
  have hup := (h.healthy_iff conn).1 (by simpa using hhealthy)
  -- the probe lies in the time that the session remembers
  have hopened : m'.opened conn ≤ m'.probed conn := by
    rw [h.opened_eq]
    exact Nat.le_trans (hm conn).opened_le (Nat.le_of_lt (h.probed_after conn))
  rw [hup _ hopened (Nat.le_refl _)] at hdown
  cases hdown

private theorem report_status (st : HealthStatus) (conn : Conn) :
    (st.report.databases conn).status = statusText (healthOf st conn) := by
  cases conn <;> rfl

/-- A request to a constructed engine reports what a health check finds. -/
theorem run_getHealth {m : Moment} (hm : ∀ conn, S.Remembers conn m) (mgr : ReplicationManager) :
    ∃ res m' healthy lines, (getHealth (some mgr)).run S.handle m = (some res, m') ∧
      (∀ conn, (res.report.databases conn).status = statusText (healthy conn)) ∧
      Examined S m m' healthy lines := by
  obtain ⟨st, m', lines, hrun, hexamined, -, -⟩ := run_healthCheck hm
  rw [getHealth, Prog.run_bind_of_some _ _ hrun]
  split
  · exact ⟨_, m', healthOf st, lines, rfl, report_status st, hexamined⟩
  · exact ⟨_, m', healthOf st, lines, rfl, report_status st, hexamined⟩

/-- `Engine::run` of a constructed engine: one health check decides. -/
theorem run_of_available {m : Moment} (hm : ∀ conn, S.Remembers conn m) {e : Engine}
    {mgr : ReplicationManager} (he : e.replicationManager = some mgr) (fuel : Nat) :
    ∃ healthy lines, Examined S m ((e.run fuel).run S.handle m).2 healthy lines ∧
      (.syncAborted ∈ lines ↔ ∃ conn, healthy conn = false) ∧
      ((∀ conn, healthy conn = true) → ∃ count joined, .trackingTables count joined ∈ lines) := by
  obtain ⟨healthy, lines, hexamined, habort, htracking⟩ :=
    run_start (fun conn => (hm conn).handle (.log .engineRunStart)) fuel mgr
  refine ⟨healthy, [.engineRunStart] ++ lines, ?_, ?_, fun hhealthy => ?_⟩
  · rw [Engine.run, run_log_bind, he]
    show Examined S m ((mgr.start fuel >>= fun mgr => pure (Engine.mk (some mgr))).run S.handle
      (S.handle (.log .engineRunStart) m).2).2 healthy _
    rw [Prog.run_bind_pure_snd]
    exact hexamined.before (Passes.log S m _) (by simp [Verdict])
  · rw [List.mem_append, or_iff_right (by simp), habort]
  · obtain ⟨count, joined, hmem⟩ := htracking hhealthy
    exact ⟨count, joined, List.mem_append_right _ hmem⟩

/-- **Health reports in every run**: a check that is made while a server is down reports
    it unhealthy, and one that is made while a server has been up ever since its
    connection was opened reports it healthy. In the latter case a run of the engine does
    not skip the sync but goes on to the discovery. An engine whose construction failed
    serves health checks only. -/
theorem health_reports {config : Config} {e : Engine} {m : Moment} (h : S.Reaches config e m)
    (fuel : Nat) :
    (∃ res m', (getHealth e.replicationManager).run S.handle m = (some res, m') ∧
      match e.replicationManager with
      | none => res.status = 503 ∧ ∀ conn, (res.report.databases conn).status = "unhealthy"
      | some _ => ∃ healthy, Truthful S m m' healthy ∧
          ∀ conn, (res.report.databases conn).status = statusText (healthy conn)) ∧
    ∃ m' lines, ((e.run fuel).run S.handle m).2 = m' ∧ m'.log = m.log ++ lines ∧
      match e.replicationManager with
      | none => lines = [.engineRunStart, .managerNotAvailable]
      | some _ => ∃ healthy, Truthful S m m' healthy ∧
          (∀ conn, .healthCheckFailed conn ∈ lines ↔ healthy conn = false) ∧
          ((∀ conn, S.UpSince conn m') → .syncAborted ∉ lines ∧
            ∃ count joined, .trackingTables count joined ∈ lines) := by
  cases he : e.replicationManager with
  | none =>
    obtain ⟨m', hrun, hlog⟩ := run_of_unavailable (S := S) he fuel m
    refine ⟨⟨_, m, rfl, rfl, fun _ => rfl⟩, m', _, ?_, hlog, rfl⟩
    rw [hrun]
  | some mgr =>
    have hm : ∀ conn, S.Remembers conn m := remembers_of_reaches h (by simp [he])
    obtain ⟨res, m₁, healthy₁, lines₁, hget, hstatus, hexamined₁⟩ := run_getHealth hm mgr
    obtain ⟨healthy, lines, hexamined, habort, htracking⟩ := run_of_available hm he fuel
    refine ⟨⟨res, m₁, hget, healthy₁, hexamined₁.truthful hm, hstatus⟩, _, lines, rfl,
      hexamined.log_eq, healthy, hexamined.truthful hm, hexamined.failed_iff, fun hup => ?_⟩
    have hhealthy : ∀ conn, healthy conn = true :=
      fun conn => (hexamined.healthy_iff conn).2 (hup conn)
    refine ⟨fun h => ?_, htracking hhealthy⟩
    obtain ⟨conn, hdown⟩ := habort.1 h
    rw [hhealthy conn] at hdown
    cases hdown

/-- Two servers that answer, with an instant between two calls; `up` says when. -/
def siteOf (up : Nat → Conn → Bool) : Site where
  up := up
  pause _ := 0
  answer _ _ _ := { status := .tuplesOk, fnames := ["?column?"], tuples := [[some "1"]] }
  answer_selectOne _ _ := rfl
  refusal _ _ _ := none
  refusal_status _ _ _ := by decide
  escapes _ _ := true

def someConfig : Config := { localConn := "dbname=a", hostedConn := "dbname=b" }

/-- The hosted server goes down at instant 4, before a request probes it. -/
theorem health_reports_hosted_down :
    ∃ e m, (siteOf fun t conn => conn = .local_ || t < 4).Reaches someConfig e m ∧
      ∃ res m', (getHealth e.replicationManager).run
          (siteOf fun t conn => conn = .local_ || t < 4).handle m = (some res, m') ∧
        ∃ healthy, Truthful (siteOf fun t conn => conn = .local_ || t < 4) m m' healthy ∧
          ∀ conn, (res.report.databases conn).status = statusText (healthy conn) :=
  ⟨(Engine.construct (siteOf fun t conn => conn = .local_ || t < 4).connect someConfig {}).1,
    (Engine.construct (siteOf fun t conn => conn = .local_ || t < 4).connect someConfig {}).2,
    .construct, (health_reports .construct 0).1⟩

/-- Both servers are down at instant 3, after the construction, and up again before
    anything is checked. A request reports the local database unhealthy all the same, and
    a run of the engine skips the sync. Where they are down during the construction
    instead, at instant 1, a request after a first run reports it unhealthy as well. -/
theorem report_untruthful_after_outage :
    (∃ e m, (siteOf fun t _ => t ≠ 3).Reaches someConfig e m ∧
      (∃ res m', (getHealth e.replicationManager).run (siteOf fun t _ => t ≠ 3).handle m =
          (some res, m') ∧
        (siteOf fun t _ => t ≠ 3).up (m'.probed .local_) .local_ = true ∧
        (res.report.databases .local_).status = "unhealthy") ∧
      ∃ m', (e.run 0).run (siteOf fun t _ => t ≠ 3).handle m = (some e, m') ∧
        (∀ conn, (siteOf fun t _ => t ≠ 3).up (m'.probed conn) conn = true) ∧
        .syncAborted ∈ m'.log) ∧
    ∃ e m, (siteOf fun t _ => t ≠ 1).Reaches someConfig e m ∧
      (∀ conn, (siteOf fun t _ => t ≠ 1).up m.now conn = true) ∧
      ∃ res m', (getHealth e.replicationManager).run (siteOf fun t _ => t ≠ 1).handle m =
          (some res, m') ∧
        (res.report.databases .local_).status = "unhealthy" := by
  constructor
  · refine ⟨_, _, .construct, ⟨_, _, rfl, by decide, by decide⟩, _, rfl, ?_, by decide⟩
    intro conn
    cases conn <;> decide
  · refine ⟨_, _, .run 0 .construct rfl, ?_, _, _, rfl, by decide⟩
    intro conn
    cases conn <;> decide

/-- No session is opened again: after an outage that a constructed engine has lived
    through, every later request reports the database unhealthy, and every later run skips
    the sync. -/
theorem outage_outlasts {config : Config} {e : Engine} {m : Moment} (h : S.Reaches config e m)
    (he : e.replicationManager ≠ none) {conn : Conn} {t : Nat} (ht : m.opened conn ≤ t)
    (ht' : t ≤ m.now) (hdown : S.up t conn = false) (fuel : Nat) :
    (∃ res m', (getHealth e.replicationManager).run S.handle m = (some res, m') ∧
      (res.report.databases conn).status = "unhealthy") ∧
    ∃ lines, ((e.run fuel).run S.handle m).2.log = m.log ++ lines ∧ .syncAborted ∈ lines := by
  have hm : ∀ conn, S.Remembers conn m := remembers_of_reaches h he
  -- a check that begins now looks back beyond the outage
  have hlost : ∀ {m' : Moment} {healthy : Conn → Bool} {lines : List LogLine},
      Examined S m m' healthy lines → healthy conn = false := by
    intro m' healthy lines hexamined
    rw [Bool.eq_false_iff]
    intro hhealthy
    have hup := (hexamined.healthy_iff conn).1 hhealthy t (by rwa [hexamined.opened_eq])
      (Nat.le_trans ht' (Nat.le_of_lt (hexamined.probed_after conn)))
    rw [hup] at hdown
    cases hdown
  obtain ⟨mgr, hmgr⟩ := Option.ne_none_iff_exists'.1 he
  constructor
  · obtain ⟨res, m', healthy, lines, hget, hstatus, hexamined⟩ := run_getHealth hm mgr
    refine ⟨res, m', hmgr ▸ hget, ?_⟩
    rw [hstatus, hlost hexamined]
    rfl
  · obtain ⟨healthy, lines, hexamined, habort, -⟩ := run_of_available hm hmgr fuel
    exact ⟨lines, hexamined.log_eq, habort.2 ⟨conn, hlost hexamined⟩⟩

end SyncLayer.Service
