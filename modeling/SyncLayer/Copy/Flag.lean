import SyncLayer.Copy.Start

/-!
# What the Once-Only Flag Promises

`initialSyncDone_` is set after the first healthy call of `start`, and from then on the
copy is not repeated. So the flag means that the hosted database is complete exactly
when that one call made it complete (`flag_sound_iff`): discovery, key lookups, page
reads and batches that failed in it are not made up for.
-/

namespace SyncLayer.Copy

open SyncLayer.Interaction SyncLayer.Model SyncLayer.Database

variable {C : Catalog}

/-! ## Present rows -/

/-- What has to agree when a row is looked for under its key. -/
inductive Agreement where
  /-- The whole row. -/
  | row
  /-- The key alone: any row under it counts. -/
  | key

/-- `r'` passes for `r`. -/
def Agreement.holds : Agreement → (r' r : Row) → Prop
  | .row, r', r => r' = r
  | .key, _, _ => True

theorem Agreement.refl (a : Agreement) (r : Row) : a.holds r r := by
  cases a with
  | row => rfl
  | key => trivial

/-- `r` is in the hosted table `t` under its key. -/
def Present (C : Catalog) (a : Agreement) (H : HostedDb) (t : String) (r : Row) : Prop :=
  ∃ r', H t ((C.table t).keyOf r) = some r' ∧ a.holds r' r

/-- Presence after rows of the local table, those in `copied`, were added under free keys. -/
theorem present_iff (a : Agreement) {H H' : HostedDb} {t : String} {S : TableState (C.table t)}
    {copied : Row → Prop} (hpk : (C.table t).primaryKey ≠ [])
    (hcopied : ∀ r, copied r → r ∈ S.rows)
    (hH' : ∀ k r, H' t k = some r ↔
      H t k = some r ∨ (H t k = none ∧ (C.table t).keyOf r = k ∧ copied r))
    {r : Row} (hr : r ∈ S.rows) :
    Present C a H' t r ↔
      Present C a H t r ∨ (H t ((C.table t).keyOf r) = none ∧ copied r) := by
  constructor
  · rintro ⟨r', hr', hagree⟩
    rcases (hH' _ r').1 hr' with hold | ⟨hfree, hkey, hc⟩
    · exact Or.inl ⟨r', hold, hagree⟩
    · -- what was added under the key of `r` is `r` itself
      have heq : r' = r := S.key_injective hpk r' (hcopied r' hc) r hr hkey
      subst heq
      exact Or.inr ⟨hfree, hc⟩
  · rintro (⟨r', hold, hagree⟩ | ⟨hfree, hc⟩)
    · exact ⟨r', (hH' _ r').2 (Or.inl hold), hagree⟩
    · exact ⟨r, (hH' _ r).2 (Or.inr ⟨hfree, rfl, hc⟩), a.refl r⟩

/-- Every row of every table to be tracked that has a primary key is present. -/
def Complete (C : Catalog) (a : Agreement) (config : Config) (L : LocalDb C.table)
    (H : HostedDb) : Prop :=
  ∀ t ∈ C.tablesToTrack config, (C.table t).primaryKey ≠ [] →
    ∀ r ∈ (L t).rows, Present C a H t r

/-! ## Runs of `start` -/

/-- One call of `start`, which takes the manager and the hosted database from `x` to `y`. -/
def StartStep (L : LocalDb C.table) (o : Oracle) (x y : ReplicationManager × HostedDb) :
    Prop :=
  ∃ w : Session, w.hosted = y.2 ∧
    Prog.Finishes (o.behaviour L).handler (fun fuel => x.1.start fuel) (newSession x.2) y.1 w

/-- Calls of `start`, one for each oracle. -/
inductive StartRun (L : LocalDb C.table) :
    List Oracle → ReplicationManager × HostedDb → ReplicationManager × HostedDb → Prop
  | nil (x : ReplicationManager × HostedDb) : StartRun L [] x x
  | cons {o : Oracle} {os : List Oracle} {x y z : ReplicationManager × HostedDb}
      (first : StartStep L o x y) (rest : StartRun L os y z) : StartRun L (o :: os) x z

variable {L : LocalDb C.table}

theorem StartStep.unique {o : Oracle} {x y y' : ReplicationManager × HostedDb}
    (h : StartStep L o x y) (h' : StartStep L o x y') : y = y' := by
  obtain ⟨w, hw, hrun⟩ := h
  obtain ⟨w', hw', hrun'⟩ := h'
  obtain ⟨hm, rfl⟩ := hrun.unique hrun'
  exact Prod.ext hm (hw.symm.trans hw')

/-- A call whose health check fails. -/
theorem startStep_unhealthy {o : Oracle} (hdown : ¬ Healthy o)
    (x : ReplicationManager × HostedDb) : StartStep L o x x :=
  ⟨newSession x.2, rfl, Filter.Eventually.of_forall (run_start_unhealthy hdown x.1 x.2)⟩

/-- A healthy call once the flag is set. -/
theorem exists_startStep_done {o : Oracle} (hup : Healthy o)
    {x : ReplicationManager × HostedDb} (hdone : x.1.initialSyncDone = true) :
    ∃ y, StartStep L o x y ∧ y.1.initialSyncDone = true ∧ y.2 = x.2 := by
  obtain ⟨m', w, hdone', hw, hrun⟩ := run_start_done (L := L) hup hdone x.2
  exact ⟨(m', x.2), ⟨w, hw, hrun⟩, hdone', rfl⟩

/-- Once the flag is set, no later call changes the hosted database. -/
theorem startRun_done {os : List Oracle} {x z : ReplicationManager × HostedDb}
    (hrun : StartRun L os x z) (hdone : x.1.initialSyncDone = true) :
    z.1.initialSyncDone = true ∧ z.2 = x.2 := by
  induction hrun with
  | nil x => exact ⟨hdone, rfl⟩
  -- calls are deterministic, so the step taken is the one the lemmas describe
  | @cons o os x y z first rest ih =>
    by_cases hup : Healthy o
    · obtain ⟨y', hstep, hy, hhosted⟩ := exists_startStep_done (L := L) hup hdone
      obtain rfl := first.unique hstep
      obtain ⟨hz, heq⟩ := ih hy
      exact ⟨hz, heq.trans hhosted⟩
    · obtain rfl := first.unique (startStep_unhealthy hup x)
      exact ih hdone

/-- The calls can always be made, one after the other. -/
theorem exists_startRun (os : List Oracle) (x : ReplicationManager × HostedDb) :
    ∃ z, StartRun L os x z := by
  induction os generalizing x with
  | nil => exact ⟨x, .nil x⟩
  | cons o os ih =>
    have hstep : ∃ y, StartStep L o x y := by
      by_cases hup : Healthy o
      · cases hdone : x.1.initialSyncDone with
        | true =>
          obtain ⟨y, hy, -⟩ := exists_startStep_done (L := L) hup hdone
          exact ⟨y, hy⟩
        | false =>
          obtain ⟨m', w, -, hrun, -⟩ := run_start_copies (L := L) hup hdone x.2
          exact ⟨(m', w.hosted), w, rfl, hrun⟩
      · exact ⟨x, startStep_unhealthy hup x⟩
    obtain ⟨y, hy⟩ := hstep
    obtain ⟨z, hz⟩ := ih y
    exact ⟨z, .cons hy hz⟩

/-- The first oracle of a run under which a call is healthy. -/
def firstHealthy (os : List Oracle) : Option Oracle := os.find? fun o => decide (Healthy o)

/-- What the first healthy call leaves behind: the flag is set, and the hosted database
    has gained what that call copied. -/
def AfterCopy (L : LocalDb C.table) (config : Config) (H : HostedDb) (o : Oracle)
    (z : ReplicationManager × HostedDb) : Prop :=
  z.1.initialSyncDone = true ∧
    ∀ t k r, z.2 t k = some r ↔
      H t k = some r ∨
        (H t k = none ∧ (C.table t).keyOf r = k ∧ StartCopies o L config t r)

/-- A run before which the flag is not set: its first healthy call decides. -/
theorem startRun_fresh {os : List Oracle} {x z : ReplicationManager × HostedDb}
    (hrun : StartRun L os x z) (hdone : x.1.initialSyncDone = false) :
    (firstHealthy os = none ∧ z = x) ∨
      ∃ o, firstHealthy os = some o ∧ AfterCopy L x.1.config x.2 o z := by
  induction hrun with
  | nil x => exact Or.inl ⟨rfl, rfl⟩
  | @cons o os x y z first rest ih =>
    by_cases hup : Healthy o
    · -- this call makes the copy; the later ones find the flag set
      refine Or.inr ⟨o, by simp [firstHealthy, hup], ?_⟩
      obtain ⟨m', w, hdone', hstep, heffect⟩ := run_start_copies (L := L) hup hdone x.2
      obtain rfl : y = (m', w.hosted) := first.unique ⟨w, rfl, hstep⟩
      obtain ⟨hz, hhosted⟩ := startRun_done rest hdone'
      refine ⟨hz, fun t k r => ?_⟩
      rw [hhosted]
      exact heffect t k r
    · -- the health check fails: the next call begins where this one did
      obtain rfl := first.unique (startStep_unhealthy hup x)
      have hskip : firstHealthy (o :: os) = firstHealthy os := by simp [firstHealthy, hup]
      rw [hskip]
      exact ih hdone

/-! ## The flag and completeness -/

theorem StartCopies.mem_rows {o : Oracle} {config : Config} {t : String} {r : Row}
    (h : StartCopies o L config t r) : r ∈ (L t).rows := by
  obtain ⟨-, -, i, -, p, b, hat⟩ := h
  exact hat.mem_rows

/-- The first healthy call of a run finds, or copies, every row that is to be tracked. -/
def FirstCopySucceeds (C : Catalog) (a : Agreement) (config : Config) (L : LocalDb C.table)
    (H : HostedDb) (o : Oracle) : Prop :=
  ∀ t ∈ C.tablesToTrack config, (C.table t).primaryKey ≠ [] → ∀ r ∈ (L t).rows,
    Present C a H t r ∨
      (H t ((C.table t).keyOf r) = none ∧ StartCopies o L config t r)

private theorem complete_iff (a : Agreement) {config : Config} {H : HostedDb} {o : Oracle}
    {z : ReplicationManager × HostedDb} (h : AfterCopy L config H o z) :
    Complete C a config L z.2 ↔ FirstCopySucceeds C a config L H o := by
  refine forall_congr' fun t => forall_congr' fun _ => forall_congr' fun hpk =>
    forall_congr' fun r => forall_congr' fun hr => ?_
  exact present_iff a hpk (fun r hc => hc.mem_rows) (h.2 t) hr

/-- **When the flag is sound**: in every run of calls of a fresh manager, the flag implies
    completeness after every call exactly when the first healthy call of the run finds
    every row present or copies it. That is so for hosted tables whose only constraint is
    the primary key, and as long as every text can be escaped. -/
theorem flag_sound_iff (C : Catalog) (a : Agreement) (config : Config) (L : LocalDb C.table)
    (H : HostedDb) (os : List Oracle) :
    (∀ n z, StartRun L (os.take n) ({ config }, H) z → z.1.initialSyncDone = true →
        Complete C a config L z.2) ↔
      ∀ o, firstHealthy os = some o → FirstCopySucceeds C a config L H o := by
  constructor
  · intro h o ho
    -- look at the whole run: after its first healthy call the flag is set
    obtain ⟨z, hrun⟩ := exists_startRun (L := L) os ({ config }, H)
    rcases startRun_fresh hrun rfl with ⟨hnone, -⟩ | ⟨o', ho', hafter⟩
    · rw [hnone] at ho
      cases ho
    · obtain rfl : o' = o := Option.some.inj (ho'.symm.trans ho)
      rw [← complete_iff a hafter]
      exact h os.length z (by rwa [List.take_length]) hafter.1
  · intro h n z hrun hflag
    rcases startRun_fresh hrun rfl with ⟨-, rfl⟩ | ⟨o, ho, hafter⟩
    · -- no healthy call yet, so the flag is not set
      cases hflag
    · rw [complete_iff a hafter]
      apply h
      -- the first healthy call of a beginning of the run is that of the run
      have hinit : os = os.take n ++ os.drop n := (List.take_append_drop n os).symm
      rw [hinit, firstHealthy, List.find?_append]
      rw [firstHealthy] at ho
      rw [ho]
      rfl

/-- Everything works except that no INSERT reaches the server. -/
def insertsLost : Oracle := fun _ _ query _ =>
  match query with
  | .insert _ _ _ => .lost
  | _ => .acked

/-- One call during which the INSERTs are lost sets the flag over an empty hosted table. -/
theorem flag_unsound_insertsLost :
    ¬ ∀ n z, StartRun
        (nodesIn ["nodes"] "public.nodes"
          (.single nodeTable [some "1", none] rfl))
        ([insertsLost].take n)
        ({ config := { localConn := "", hostedConn := "" } }, HostedDb.empty) z →
      z.1.initialSyncDone = true →
      Complete (nodeCatalog ["nodes"]) .key { localConn := "", hostedConn := "" }
        (nodesIn ["nodes"] "public.nodes" (.single nodeTable [some "1", none] rfl)) z.2 := by
  intro h
  obtain ⟨z, hrun⟩ := exists_startRun (L := nodesIn ["nodes"] "public.nodes"
    (.single nodeTable [some "1", none] rfl)) [insertsLost]
    ({ config := { localConn := "", hostedConn := "" } }, HostedDb.empty)
  rcases startRun_fresh hrun rfl with ⟨hnone, -⟩ | ⟨o, ho, hafter⟩
  · cases hnone
  · obtain rfl : insertsLost = o := Option.some.inj ho
    -- the only row would have to be there before, or its batch executed
    have hcomplete := h 1 z hrun hafter.1
    rw [complete_iff .key hafter] at hcomplete
    rcases hcomplete "public.nodes" (by decide) (by decide) [some "1", none] (by decide) with
      ⟨r', hr', -⟩ | ⟨-, -, -, i, -, p, b, hat⟩
    · cases hr'
    · obtain ⟨attempt, -, hne⟩ := hat.stored
      exact hne rfl

end SyncLayer.Copy
