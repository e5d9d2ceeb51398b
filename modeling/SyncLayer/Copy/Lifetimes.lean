import SyncLayer.Copy.Flag
import SyncLayer.Model.Main

/-!
# Lifetimes of the Process

The main program, seen over days: the process starts, calls the engine once an hour, dies,
and is started again, with any configuration. In each of its lifetimes a connection may not
come up, and every statement of every round may fail in every way.

Over a local database that does not change, only the first healthy round of a lifetime
copies anything, and what a lifetime copies does not depend on the lifetimes before it. So
the hosted database is determined by which lifetimes there have been, in whatever order and
however often, and it is known exactly (`lifetimes_effect`).
-/

namespace SyncLayer.Copy

open SyncLayer.Interaction SyncLayer.Model SyncLayer.Database SyncLayer.PartialMap

variable {C : Catalog}

/-! ## The engine -/

/-- Both connections come up. -/
def Connects {W : Type} (connect : Connect W) (config : Config) (w : W) : Prop :=
  (connect .local_ config.localConn w).1 = true ∧
    (connect .hosted_ config.hostedConn (connect .local_ config.localConn w).2).1 = true

theorem construct_of_connects {W : Type} {connect : Connect W} {config : Config} {w : W}
    (h : Connects connect config w) :
    (Engine.construct connect config w).1 = { replicationManager := some { config } } := by
  simp [Engine.construct, ReplicationManager.construct, h.1, h.2]

theorem construct_of_not_connects {W : Type} {connect : Connect W} {config : Config} {w : W}
    (h : ¬ Connects connect config w) :
    (Engine.construct connect config w).1 = { replicationManager := none } := by
  cases hlocal : (connect .local_ config.localConn w).1 with
  | false => simp [Engine.construct, ReplicationManager.construct, hlocal]
  | true =>
    have hhosted : (connect .hosted_ config.hostedConn
        (connect .local_ config.localConn w).2).1 = false := by
      apply Bool.eq_false_iff.2
      exact fun hup => h ⟨hlocal, hup⟩
    simp [Engine.construct, ReplicationManager.construct, hlocal, hhosted]

/-! ## One lifetime -/

/-- What the process meets from its start to its end. A process that dies in the middle of
    a round has that round as its last one, in which its later statements are lost. -/
structure Lifetime where
  config : Config
  /-- The connections that come up. -/
  opens : Conn → Bool
  /-- The fate of the statements, round by round. -/
  rounds : List Oracle

namespace Lifetime

def connect (l : Lifetime) : Connect Unit := fun conn _ w => (l.opens conn, w)

def engine (l : Lifetime) : Engine := (Engine.construct l.connect l.config ()).1

/-- Both connections come up. -/
def Connected (l : Lifetime) : Prop := Connects l.connect l.config ()

/-- The first healthy round copies row `r` of `t`. -/
def Copies (l : Lifetime) (L : LocalDb C.table) (t : String) (r : Row) : Prop :=
  l.Connected ∧ ∃ o, firstHealthy l.rounds = some o ∧ StartCopies o L l.config t r

end Lifetime

/-- The surroundings of the main loop: the statements of a round fare as the first oracle
    says, and the next round begins after the sleep. -/
def surroundings (L : LocalDb C.table) :
    Prog.Handler MainCall MainCall.Reply (List Oracle × Session)
  | .engine e, (os, s) =>
      let answer := ((os.headD Oracle.allAcked).behaviour L).handler e s
      (answer.1, (os, answer.2))
  | .info _, w => ((), w)
  | .sleepFor _, (os, s) => ((), (os.tail, newSession s.hosted))

/-- In all its rounds the process takes the hosted database from `H` to `H'`. -/
def Lives (L : LocalDb C.table) (l : Lifetime) (H H' : HostedDb) : Prop :=
  ∀ᶠ fuel in Filter.atTop,
    (mainLoop fuel l.rounds.length l.engine).run (surroundings L) (l.rounds, newSession H) =
      (none, ([], newSession H'))

/-- One lifetime after the other. -/
inductive LivesAll (L : LocalDb C.table) : List Lifetime → HostedDb → HostedDb → Prop
  | nil (H : HostedDb) : LivesAll L [] H H
  | cons {l : Lifetime} {ls : List Lifetime} {H H' H'' : HostedDb} (first : Lives L l H H')
      (rest : LivesAll L ls H' H'') : LivesAll L (l :: ls) H H''

variable {L : LocalDb C.table}

theorem Lives.unique {l : Lifetime} {H H' H'' : HostedDb} (h : Lives L l H H')
    (h' : Lives L l H H'') : H' = H'' := by
  obtain ⟨fuel, hrun, hrun'⟩ := (h.and h').exists
  rw [hrun] at hrun'
  obtain ⟨-, hw⟩ := Prod.mk.inj hrun'
  exact congrArg Session.hosted (Prod.mk.inj hw).2

theorem LivesAll.unique {ls : List Lifetime} {H H' H'' : HostedDb} (h : LivesAll L ls H H')
    (h' : LivesAll L ls H H'') : H' = H'' := by
  induction h with
  | nil H =>
    cases h'
    rfl
  | cons first rest ih =>
    obtain _ | ⟨first', rest'⟩ := h'
    obtain rfl := first.unique first'
    exact ih rest'

/-! ## The rounds of a lifetime -/

/-- Code of the engine runs under the first oracle. -/
theorem run_engineCode {α : Type} (o : Oracle) (os : List Oracle) (p : Code α) (s : Session) :
    (engineCode p).run (surroundings L) (o :: os, s) =
      ((p.run (o.behaviour L).handler s).1, (o :: os, (p.run (o.behaviour L).handler s).2)) :=
  Prog.run_translate (fun s => (o :: os, s)) (fun _ _ => rfl) p s

/-- A round begins where the engine has left the hosted database. -/
theorem run_mainLoop_succ {o : Oracle} {fuel : Nat} {e e' : Engine} {s s' : Session}
    (h : (e.run fuel).run (o.behaviour L).handler s = (some e', s')) (rounds : Nat)
    (os : List Oracle) :
    (mainLoop fuel (rounds + 1) e).run (surroundings L) (o :: os, s) =
      (mainLoop fuel rounds e').run (surroundings L) (os, newSession s'.hosted) := by
  have hround : (engineCode (e.run fuel)).run (surroundings L) (o :: os, s) =
      (some e', (o :: os, s')) := by
    rw [run_engineCode, h]
  rw [mainLoop, Prog.run_bind_of_some _ _ hround]
  rfl

/-- The engine without connections does nothing. -/
theorem run_mainLoop_none (fuel : Nat) (os : List Oracle) (H : HostedDb) :
    (mainLoop fuel os.length { replicationManager := none }).run (surroundings L)
      (os, newSession H) = (none, ([], newSession H)) := by
  induction os with
  | nil => rfl
  | cons o os ih =>
    have hengine : (Engine.run fuel { replicationManager := none }).run (o.behaviour L).handler
        (newSession H) = (some { replicationManager := none }, newSession H) := rfl
    rw [List.length_cons, run_mainLoop_succ hengine]
    exact ih

/-- The rounds of the main loop are the calls of `start`. -/
theorem run_mainLoop {os : List Oracle} {x z : ReplicationManager × HostedDb}
    (hrun : StartRun L os x z) :
    ∀ᶠ fuel in Filter.atTop,
      (mainLoop fuel os.length { replicationManager := some x.1 }).run (surroundings L)
        (os, newSession x.2) = (none, ([], newSession z.2)) := by
  induction hrun with
  | nil x => exact Filter.Eventually.of_forall fun fuel => rfl
  | @cons o os x y z first rest ih =>
    obtain ⟨w, hw, hstart⟩ := first
    filter_upwards [hstart, ih] with fuel hstart ih
    -- the log line before the call leaves the session as it is
    have hengine : (Engine.run fuel { replicationManager := some x.1 }).run
        (o.behaviour L).handler (newSession x.2) =
          (some { replicationManager := some y.1 }, w) := by
      change ((x.1.start fuel >>= fun m =>
        pure { replicationManager := some m } : Code Engine)).run _ (newSession x.2) = _
      rw [Prog.run_bind_of_some _ _ hstart, Prog.run_pure]
    rw [List.length_cons, run_mainLoop_succ hengine, hw]
    exact ih

/-- The rounds of a connected engine: what the first healthy one copies goes under free
    keys. -/
theorem exists_rounds (L : LocalDb C.table) (config : Config) (os : List Oracle)
    (H : HostedDb) :
    ∃ H', (∀ᶠ fuel in Filter.atTop,
        (mainLoop fuel os.length { replicationManager := some { config } }).run (surroundings L)
          (os, newSession H) = (none, ([], newSession H'))) ∧
      ∀ t, Fills (C.table t).keyOf
        { r | ∃ o, firstHealthy os = some o ∧ StartCopies o L config t r } (H t) (H' t) := by
  obtain ⟨z, hrun⟩ := exists_startRun (L := L) os ({ config }, H)
  refine ⟨z.2, run_mainLoop hrun, fun t => ?_⟩
  obtain ⟨hnone, rfl⟩ | ⟨o, ho, -, hafter⟩ := startRun_fresh hrun rfl
  · -- no round is healthy
    have hempty : { r | ∃ o, firstHealthy os = some o ∧ StartCopies o L config t r } = ∅ := by
      simp [hnone]
    rw [hempty]
    exact Fills.refl _ _
  · intro k r
    rw [hafter t k r]
    simp [ho]

/-- What a lifetime copies goes under free keys. -/
theorem exists_lives (l : Lifetime) (H : HostedDb) :
    ∃ H', Lives L l H H' ∧
      ∀ t, Fills (C.table t).keyOf { r | l.Copies L t r } (H t) (H' t) := by
  by_cases hup : l.Connected
  · obtain ⟨H', hrun, hfills⟩ := exists_rounds L l.config l.rounds H
    refine ⟨H', ?_, fun t => ?_⟩
    · rw [Lives, Lifetime.engine, construct_of_connects hup]
      exact hrun
    · simp only [Lifetime.Copies, hup, true_and]
      exact hfills t
  · refine ⟨H, ?_, fun t => ?_⟩
    · rw [Lives, Lifetime.engine, construct_of_not_connects hup]
      exact Filter.Eventually.of_forall fun fuel => run_mainLoop_none fuel l.rounds H
    · have hempty : { r | l.Copies L t r } = ∅ := by
        simp [Lifetime.Copies, hup]
      rw [hempty]
      exact Fills.refl _ _

/-! ## Many lifetimes -/

/-- Copied rows with one key are one row. -/
theorem Lifetime.Copies.key_injective {l l' : Lifetime} {t : String} {r r' : Row}
    (h : l.Copies L t r) (h' : l'.Copies L t r')
    (hkey : (C.table t).keyOf r = (C.table t).keyOf r') : r = r' := by
  obtain ⟨-, o, -, hcopy⟩ := h
  obtain ⟨-, o', -, hcopy'⟩ := h'
  have hpk : (C.table t).primaryKey ≠ [] := by
    rw [← (foundKey_sound C t).resolve_left hcopy.2.1]
    exact hcopy.2.1
  exact (L t).key_injective hpk r hcopy.mem_rows r' hcopy'.mem_rows hkey

/-- What is copied in a list of lifetimes. -/
def copiedIn (L : LocalDb C.table) (ls : List Lifetime) (t : String) : Set Row :=
  { r | ∃ l ∈ ls, l.Copies L t r }

theorem copiedIn_cons (l : Lifetime) (ls : List Lifetime) (t : String) :
    copiedIn L (l :: ls) t = { r | l.Copies L t r } ∪ copiedIn L ls t := by
  ext r
  simp [copiedIn]

theorem exists_livesAll (ls : List Lifetime) (H : HostedDb) :
    ∃ H', LivesAll L ls H H' ∧
      ∀ t, Fills (C.table t).keyOf (copiedIn L ls t) (H t) (H' t) := by
  induction ls generalizing H with
  | nil =>
    refine ⟨H, .nil H, fun t => ?_⟩
    have hempty : copiedIn L [] t = ∅ := by simp [copiedIn]
    rw [hempty]
    exact Fills.refl _ _
  | cons l ls ih =>
    obtain ⟨H', hfirst, hfills⟩ := exists_lives (L := L) l H
    obtain ⟨H'', hrest, hfills'⟩ := ih H'
    refine ⟨H'', .cons hfirst hrest, fun t => ?_⟩
    rw [copiedIn_cons]
    apply (hfills t).trans ?_ (hfills' t)
    rintro r hr r' ⟨l', -, hr'⟩ hkey
    exact Lifetime.Copies.key_injective hr hr' hkey

/-- **The effect of all lifetimes**: the hosted database keeps what it has and gains, under
    free keys, the rows that some lifetime copies. Neither the order of the lifetimes nor
    their repetition makes a difference. Every text can be escaped, and no key but the
    primary key decides whether a row is skipped. -/
theorem lifetimes_effect (C : Catalog) (L : LocalDb C.table) (H : HostedDb)
    (ls : List Lifetime) :
    ∃ H', (∀ ls', (∀ l, l ∈ ls' ↔ l ∈ ls) → ∀ H'', LivesAll L ls' H H'' ↔ H'' = H') ∧
      ∀ t k r, H' t k = some r ↔
        H t k = some r ∨
          (H t k = none ∧ (C.table t).keyOf r = k ∧ ∃ l ∈ ls, l.Copies L t r) := by
  obtain ⟨H', -, hfills⟩ := exists_livesAll (L := L) ls H
  refine ⟨H', fun ls' hsame H'' => ?_, fun t k r => hfills t k r⟩
  obtain ⟨G, hlives, hfills'⟩ := exists_livesAll (L := L) ls' H
  -- the same lifetimes fill the same keys
  have hG : G = H' := by
    funext t
    have hset : copiedIn L ls' t = copiedIn L ls t := by
      ext r
      simp [copiedIn, hsame]
    apply Fills.unique (hfills' t)
    rw [hset]
    exact hfills t
  subst hG
  constructor
  · intro h
    exact h.unique hlives
  · rintro rfl
    exact hlives

end SyncLayer.Copy
