import SyncLayer.Library.Machine
import SyncLayer.Model.HealthServer

/-!
# The Life of the Health Server

Nobody ever asks the listener to stop. A caller that finds the flag set in `stop()` clears
it and joins a thread that stays in `listen`, and no state of the program follows
(`stuck_of_joining`). Nor does anybody clear the flag when `listen` returns because the port
could not be bound, and `start()` then refuses to start again. The invariant holds in exactly
those runs that avoid both (`lifecycle_iff`).
-/

namespace SyncLayer.Service

open SyncLayer.Machine SyncLayer.Model SyncLayer.Model.HealthServer

variable {s s' : HealthServer} {a : Action}

/-! ## What a step does -/

/-- One case for each way through the source. -/
inductive Takes : HealthServer → Action → HealthServer → Prop where
  | startRunning {s : HealthServer} {created : Bool} (hjoin : s.joining = false)
      (hrun : s.running_ = true) : Takes s (.start created) s
  | startThrows {s : HealthServer} (hjoin : s.joining = false) (hrun : s.running_ = false) :
      Takes s (.start false) { s with running_ := true }
  | start {s : HealthServer} (hjoin : s.joining = false) (hrun : s.running_ = false)
      (hthread : s.serverThread_ = none) :
      Takes s (.start true) { s with running_ := true, serverThread_ := some {} }
  | stopIdle {s : HealthServer} (hjoin : s.joining = false) (hrun : s.running_ = false) :
      Takes s .stop s
  | stopNoThread {s : HealthServer} (hjoin : s.joining = false) (hrun : s.running_ = true)
      (hthread : s.serverThread_ = none) : Takes s .stop { s with running_ := false }
  | stopJoin {s : HealthServer} {t : ServerThread} (hjoin : s.joining = false)
      (hrun : s.running_ = true) (hthread : s.serverThread_ = some t) :
      Takes s .stop { s with running_ := false, joining := true }
  | joined {s : HealthServer} {t : ServerThread} (hjoin : s.joining = true)
      (hthread : s.serverThread_ = some t) (hphase : t.phase = .left) :
      Takes s .joined { s with serverThread_ := none, joining := false }
  | bind {s : HealthServer} {t : ServerThread} {ok : Bool} (hthread : s.serverThread_ = some t)
      (hphase : t.phase = .starting) :
      Takes s (.bind ok)
        { s with serverThread_ := some { t with phase := if ok then .serving else .left } }
  | leave {s : HealthServer} {t : ServerThread} (hthread : s.serverThread_ = some t)
      (hphase : t.phase = .serving) (hasked : t.stopRequested = true) :
      Takes s .leave { s with serverThread_ := some { t with phase := .left } }

theorem takes_start {created : Bool} (hjoin : s.joining = false)
    (hstart : s.start created = some s') : Takes s (.start created) s' := by
  obtain ⟨running, thread, joining⟩ := s
  cases running with
  | true =>
    cases hstart
    exact .startRunning hjoin rfl
  | false =>
    cases created with
    | false =>
      cases hstart
      exact .startThrows hjoin rfl
    | true =>
      cases thread with
      | none =>
        cases hstart
        exact .start hjoin rfl rfl
      | some t => cases hstart

theorem takes_stop (hjoin : s.joining = false) : Takes s .stop s.stop := by
  obtain ⟨running, thread, joining⟩ := s
  cases running with
  | false => exact .stopIdle hjoin rfl
  | true =>
    cases thread with
    | none => exact .stopNoThread hjoin rfl rfl
    | some t => exact .stopJoin hjoin rfl rfl

theorem takes_join (hstep : s.join = some s') : Takes s .joined s' := by
  obtain ⟨running, thread, joining⟩ := s
  cases thread with
  | none => cases hstep
  | some t =>
    simp only [join] at hstep
    split at hstep
    · next hleft =>
      cases hstep
      exact .joined hleft.1 rfl hleft.2
    · cases hstep

theorem takes_bind {ok : Bool} (hstep : s.inThread (HealthServer.listen ok) = some s') :
    Takes s (.bind ok) s' := by
  obtain ⟨running, thread, joining⟩ := s
  cases thread with
  | none => cases hstep
  | some t =>
    simp only [inThread, HealthServer.listen] at hstep
    split at hstep
    · next hphase =>
      cases hstep
      exact .bind rfl hphase
    · cases hstep

theorem takes_leave (hstep : s.inThread HealthServer.leave = some s') : Takes s .leave s' := by
  obtain ⟨running, thread, joining⟩ := s
  cases thread with
  | none => cases hstep
  | some t =>
    simp only [inThread, HealthServer.leave] at hstep
    split at hstep
    · next hasked =>
      cases hstep
      exact .leave rfl hasked.1 hasked.2
    · cases hstep

theorem takes_of_step (hstep : step s a = some s') : Takes s a s' := by
  cases a with
  | start created =>
    simp only [step] at hstep
    split at hstep
    · cases hstep
    · next hjoin => exact takes_start (eq_false_of_ne_true hjoin) hstep
  | stop =>
    simp only [step] at hstep
    split at hstep
    · cases hstep
    · next hjoin =>
      cases hstep
      exact takes_stop (eq_false_of_ne_true hjoin)
  | joined => exact takes_join hstep
  | bind ok => exact takes_bind hstep
  | leave => exact takes_leave hstep

/-! ## What holds in every run -/

/-- The thread that there is was not asked to stop. A caller waits with the flag cleared, and
    while no caller waits the flag is set as long as there is a thread. -/
structure Paired (s : HealthServer) : Prop where
  not_asked : ∀ t, s.serverThread_ = some t → t.stopRequested = false
  joining : s.joining = true → s.running_ = false
  idle : s.joining = false → s.running_ = false → s.serverThread_ = none

theorem paired_initial : Paired {} where
  not_asked t ht := by cases ht
  joining h := by cases h
  idle _ _ := rfl

theorem Paired.step (hs : Paired s) (hstep : step s a = some s') : Paired s' := by
  cases takes_of_step hstep with
  | startRunning => exact hs
  | startThrows hjoin =>
    refine ⟨hs.not_asked, fun hjoining => ?_, fun _ hrunning => ?_⟩
    · exact absurd hjoining (by simp [hjoin])
    · cases hrunning
  | start hjoin =>
    refine ⟨fun t ht => ?_, fun hjoining => ?_, fun _ hrunning => ?_⟩
    · -- the new thread has just begun
      cases ht
      rfl
    · exact absurd hjoining (by simp [hjoin])
    · cases hrunning
  | stopIdle => exact hs
  | stopNoThread _ _ hthread => exact ⟨hs.not_asked, fun _ => rfl, fun _ _ => hthread⟩
  | stopJoin => exact ⟨hs.not_asked, fun _ => rfl, fun hjoining => by cases hjoining⟩
  | joined hjoin =>
    refine ⟨fun t ht => ?_, fun hjoining => ?_, fun _ _ => rfl⟩
    · cases ht
    · cases hjoining
  | bind hthread =>
    refine ⟨fun t ht => ?_, hs.joining, fun hjoining hrunning => ?_⟩
    · have hbefore := hs.not_asked _ hthread
      cases ht
      exact hbefore
    · exact absurd (hs.idle hjoining hrunning) (by simp [hthread])
  | leave hthread _ hasked =>
    -- the thread would have been asked to stop
    exact absurd (hs.not_asked _ hthread) (by simp [hasked])

theorem paired_of_run {actions : List Action} (hrun : run step {} actions = some s) : Paired s :=
  run_induction (fun _ _ _ => Paired.step) paired_initial hrun

/-- No thread is left when a server is to be started, so `start()` never calls
    `std::terminate`. -/
theorem start_takes_step {actions : List Action} (hrun : run step {} actions = some s)
    (hjoin : s.joining = false) (created : Bool) : ∃ s', step s (.start created) = some s' := by
  have hs := paired_of_run hrun
  obtain ⟨running, thread, joining⟩ := s
  obtain rfl : joining = false := hjoin
  cases running with
  | true => exact ⟨_, rfl⟩
  | false =>
    obtain rfl : thread = none := hs.idle rfl rfl
    cases created with
    | false => exact ⟨_, rfl⟩
    | true => exact ⟨_, rfl⟩

/-! ## The invariant -/

/-- The flag is set only while a thread serves or is about to, and who waits for the thread
    waits for one that has left or that was asked to. -/
structure Invariant (s : HealthServer) : Prop where
  serves : s.running_ = true → ∃ t, s.serverThread_ = some t ∧ t.phase ≠ .left
  returns : s.joining = true →
    ∃ t, s.serverThread_ = some t ∧ (t.phase = .left ∨ t.stopRequested = true)

/-- With the invariant, whoever waits in `stop()` can return. -/
theorem Invariant.can_return (hs : Invariant s) (hjoin : s.joining = true) :
    ∃ actions s', run step s actions = some s' ∧ s'.joining = false := by
  obtain ⟨t, hthread, hleaves⟩ := hs.returns hjoin
  obtain ⟨running, thread, joining⟩ := s
  obtain rfl : thread = some t := hthread
  obtain rfl : joining = true := hjoin
  obtain ⟨phase, asked⟩ := t
  cases phase with
  | left => exact ⟨[.joined], _, rfl, rfl⟩
  | starting =>
    obtain rfl : asked = true := hleaves.resolve_left (by simp)
    exact ⟨[.bind true, .leave, .joined], _, rfl, rfl⟩
  | serving =>
    obtain rfl : asked = true := hleaves.resolve_left (by simp)
    exact ⟨[.leave, .joined], _, rfl, rfl⟩

/-- With the invariant, `start()` refuses only while a thread serves or is about to. -/
theorem Invariant.start (hs : Invariant s) (hstep : step s (.start true) = some s') :
    ∃ t, s'.serverThread_ = some t ∧ t.phase ≠ .left := by
  cases takes_of_step hstep with
  | startRunning _ hrun => exact hs.serves hrun
  | start => exact ⟨_, rfl, by simp⟩

/-- A step that keeps the invariant: `stop()` has nothing to do, the port can be bound, and
    so can the thread be created. -/
def Permitted (s : HealthServer) : Action → Prop
  | .start created => s.running_ = true ∨ created = true
  | .stop => s.running_ = false
  | .joined => True
  | .bind ok => ok = true
  | .leave => True

theorem invariant_step_iff (hpaired : Paired s) (hs : Invariant s) (hstep : step s a = some s') :
    Invariant s' ↔ Permitted s a := by
  cases takes_of_step hstep with
  | startRunning _ hrun => exact iff_of_true hs (.inl hrun)
  | startThrows hjoin hrun =>
    refine iff_of_false (fun h => ?_) (by simp [Permitted, hrun])
    -- the flag is set, and there is no thread
    obtain ⟨t, hthread, _⟩ := h.serves rfl
    exact absurd hthread (by simp [hpaired.idle hjoin hrun])
  | start hjoin =>
    refine iff_of_true ⟨fun _ => ⟨_, rfl, by simp⟩, fun hjoining => ?_⟩ (.inr rfl)
    exact absurd hjoining (by simp [hjoin])
  | stopIdle _ hrun => exact iff_of_true hs hrun
  | stopNoThread _ hrun hthread =>
    obtain ⟨t, ht, _⟩ := hs.serves hrun
    exact absurd ht (by simp [hthread])
  | stopJoin _ hrun hthread =>
    refine iff_of_false (fun h => ?_) (by simp [Permitted, hrun])
    -- the thread has not left, and nobody asks it to
    obtain ⟨t, ht, hphase⟩ := hs.serves hrun
    obtain ⟨t', ht', hleaves⟩ := h.returns rfl
    obtain rfl : t = t' := Option.some.inj (ht.symm.trans ht')
    exact absurd (hleaves.resolve_left hphase) (by simp [hpaired.not_asked t ht])
  | joined hjoin =>
    refine iff_of_true ⟨fun hrunning => ?_, fun hjoining => by cases hjoining⟩ trivial
    exact absurd hrunning (by simp [hpaired.joining hjoin])
  | @bind t ok hthread hphase =>
    -- while a caller waits, the thread is not on its way any more
    have hidle : s.joining = false := by
      apply eq_false_of_ne_true
      intro hjoining
      obtain ⟨t', ht', hleaves⟩ := hs.returns hjoining
      obtain rfl : t = t' := Option.some.inj (hthread.symm.trans ht')
      simp [hphase, hpaired.not_asked t hthread] at hleaves
    cases ok with
    | true =>
      refine iff_of_true ⟨fun _ => ⟨_, rfl, by simp⟩, fun hjoining => ?_⟩ rfl
      exact absurd hjoining (by simp [hidle])
    | false =>
      refine iff_of_false (fun h => ?_) (by simp [Permitted])
      have hrunning : s.running_ = true := by
        apply eq_true_of_ne_false
        intro hrunning
        exact absurd (hpaired.idle hidle hrunning) (by simp [hthread])
      obtain ⟨t', ht', hphase'⟩ := h.serves hrunning
      cases ht'
      exact hphase' rfl
  | leave hthread _ hasked => exact absurd (hpaired.not_asked _ hthread) (by simp [hasked])

/-- **The lifecycle**: the invariant holds in every state of a run exactly if every step of
    the run is permitted. -/
theorem lifecycle_iff (actions : List Action) :
    Along step Invariant {} actions ↔ EachStep step Permitted {} actions := by
  have hinitial : Invariant {} := ⟨by simp, by simp⟩
  exact along_iff_eachStep (fun _ _ _ => Paired.step) (fun _ _ _ => invariant_step_iff)
    paired_initial hinitial

/-! ## Where it goes wrong -/

/-- A caller that waits for a thread in `listen` waits forever. -/
theorem stuck_of_joining {actions : List Action} (hrun : run step {} actions = some s)
    (hjoin : s.joining = true) {t : ServerThread} (hthread : s.serverThread_ = some t)
    (hserving : t.phase = .serving) : Stuck step s := by
  have hasked := (paired_of_run hrun).not_asked t hthread
  intro a
  cases a with
  | start created => simp [step, hjoin]
  | stop => simp [step, hjoin]
  | joined => simp [step, join, hthread, hserving]
  | bind ok => simp [step, inThread, hthread, HealthServer.listen, hserving]
  | leave => simp [step, inThread, hthread, HealthServer.leave, hasked]

/-- The engine starts a server that binds its port, and stops it in the end: the destructor
    never returns. Where the port is taken, the flag stays set, and a second start does
    nothing. -/
theorem lifecycle_fails :
    ¬ Along step Invariant {} [.start true, .bind true, .stop] ∧
    (∃ s, run step {} [.start true, .bind true, .stop] = some s ∧ s.joining = true ∧
      Stuck step s) ∧
    ¬ Along step Invariant {} [.start true, .bind false] ∧
    ∃ s, run step {} [.start true, .bind false] = some s ∧ s.running_ = true ∧
      run step s [.start true] = some s := by
  have hstopped : run step {} [.start true, .bind true, .stop] =
      some { serverThread_ := some { phase := .serving }, joining := true } := rfl
  refine ⟨fun h => ?_, ⟨_, hstopped, rfl, stuck_of_joining hstopped rfl rfl rfl⟩, fun h => ?_,
    _, rfl, rfl, rfl⟩
  · obtain ⟨t, ht, hleaves⟩ := (h.run_end hstopped).returns rfl
    cases ht
    simp at hleaves
  · obtain ⟨t, ht, hphase⟩ := (h.run_end rfl).serves rfl
    cases ht
    exact hphase rfl

end SyncLayer.Service
