import SyncLayer.Protocol.Conformance
import SyncLayer.Protocol.Totals
import SyncLayer.Service.Exclusion

/-!
# The Calls of the Running Service

The main thread runs the engine again and again, any number of health requests are handled
at the same time, and the databases may answer whatever they like. In every such history
the calls of the main thread follow the protocol, and a request only makes calls of a
health check, which follow it too (`protocol_followed`).

Three consequences are stated without the observer: where the rows of an INSERT come from
(`inserts_come_from_last_page`), that the failure lines of the log are the failures
(`failures_logged`), and that the numbers of rows in the log are true (`totals_logged`).
-/

namespace SyncLayer.Service

open SyncLayer.Interaction SyncLayer.Model SyncLayer.Protocol

/-! ## The protocol in every history -/

/-- What is watched of a caller: a request may only make the calls of a health check. -/
def watch : Caller → Monitor Call Call.Reply Progress
  | .main => protocol
  | .request _ => protocol.restrict HealthCall

/-- Where the observers begin. -/
def begins (e₀ : Engine) : Caller → Progress
  | .main => { copied := hasCopied e₀ }
  | .request _ => {}

/-- The observer of a caller that has come to rest. -/
private def AtRest : (i : Caller) → Kept i → Progress → Prop
  | .main, e, s => ∃ found, s = calm found (hasCopied e) .idle
  | .request _, _, s => s = calm [] false .idle

private theorem obeys_jobs (e₀ : Engine) (i : Caller) (a : Kept i) (s : Progress)
    (p : Code (Kept i)) (hs : AtRest i a s) (hp : jobs e₀ i a p) :
    p.Obeys (watch i) (AtRest i) s := by
  cases i with
  | main =>
    obtain ⟨fuel, rfl⟩ := hp
    obtain ⟨found, rfl⟩ := hs
    exact obeys_run fuel a
  | request n =>
    obtain rfl := hp
    obtain rfl := hs
    have hcalls : (handleRequest e₀).Calls HealthCall := by
      cases hm : e₀.replicationManager with
      | none =>
        rw [handleRequest, hm]
        trivial
      | some m =>
        rw [handleRequest, hm]
        refine Prog.calls_bind (Prog.calls_bind calls_healthCheck fun health => ?_) fun _ => trivial
        split <;> trivial
    refine Prog.Obeys.restrict ?_ hcalls
    apply Prog.Obeys.bind
    exact (obeys_getHealth e₀.replicationManager).mono fun res s hs => hs

variable {e₀ : Engine} {allow : Pool Call Call.Reply Kept → Caller → Prop}
  {l : List (Caller × Event Call Call.Reply)} {s : Pool Call Call.Reply Kept}

private theorem watch_expected (i : Caller) (s : Progress) (l : List (Event Call Call.Reply)) :
    (watch i).Expected s l := by
  induction l generalizing s with
  | nil => trivial
  | cons x l ih =>
    refine ⟨?_, ih _⟩
    cases i <;> trivial

/-- What is left of every caller follows the protocol, too. -/
private theorem follows_watch (h : Pool.History (jobs e₀) allow (initial e₀) l s) (i : Caller) :
    (watch i).Accepts (begins e₀ i) (Pool.own i l) ∧
      (s i).Follows (watch i) (AtRest i) ((watch i).after (begins e₀ i) (Pool.own i l)) := by
  have hinitial : ∀ i, (initial e₀ i).Follows (watch i) (AtRest i) (begins e₀ i) := by
    intro i
    cases i with
    | main => exact ⟨[], rfl⟩
    | request n => exact rfl
  obtain ⟨haccepts, hfollows⟩ := h.follows (obeys_jobs e₀) hinitial i
  exact ⟨haccepts, hfollows (watch_expected i _ _)⟩

/-- **The protocol is followed**: in every history the calls of every caller, also one that
    is not yet answered, are in order. -/
theorem protocol_followed (h : Pool.History (jobs e₀) allow (initial e₀) l s) (i : Caller) :
    (watch i).Accepts (begins e₀ i) (Pool.own i l) ∧
      ∀ e k, s i = .inside e k →
        (watch i).may ((watch i).after (begins e₀ i) (Pool.own i l)) e := by
  obtain ⟨haccepts, hfollows⟩ := follows_watch h i
  refine ⟨haccepts, fun e k hinside => ?_⟩
  rw [hinside] at hfollows
  exact hfollows.1

/-- Two databases with one page of one row, whose second cell cannot be escaped. Statements
    that write are acknowledged, or else the connection is lost (`stored`). -/
def onePage (stored : Bool) : Prog.Handler Call Call.Reply Unit
  | .pqexec _ (.insert _ _ _), _ =>
    (if stored then some { status := .commandOk, fnames := [], tuples := [] } else none, ())
  | .pqexec _ (.selectPage _ _ _ offset), _ =>
    (some {
      status := .tuplesOk
      fnames := ["id", "note", "until"]
      tuples := if offset = 0 then [[some "1", some "note", none]] else [] }, ())
  | .pqexec _ _, _ => (some { status := .tuplesOk, fnames := ["id"], tuples := [[some "id"]] }, ())
  | .pqescapeLiteral text, _ => (text != "note", ())
  | .sleepFor _, _ => ((), ())
  | .log _, _ => ((), ())

/-- An engine for one table. -/
def oneTable : Engine := { replicationManager := some { config := {
  localConn := "host=localhost", hostedConn := "host=localhost"
  autoFetch := false, tables := ["public.users"] } } }

/-- The events of the main thread in its first run. -/
def firstRun (stored : Bool) : List (Event Call Call.Reply) :=
  (oneTable.run 2).trace (onePage stored) ()

private theorem firstRun_history (stored : Bool) : ∃ s, Pool.History (jobs oneTable)
    (fun _ _ => True) (initial oneTable) ((firstRun stored).map fun x => (.main, x)) s := by
  have hstart : Pool.History (jobs oneTable) (fun _ _ => True) (initial oneTable) []
      (Function.update (initial oneTable) .main (.ready (oneTable.run 2))) :=
    .start .nil rfl ⟨2, rfl⟩ trivial
  exact hstart.run (onePage stored) (Function.update_self ..)

/-- A run in which the batch is tried three times and given up. -/
theorem protocol_followed_first_run :
    (watch .main).Accepts (begins oneTable .main) (firstRun false) := by
  obtain ⟨s, hs⟩ := firstRun_history false
  have haccepts := (protocol_followed hs .main).1
  rwa [Pool.own_map_self] at haccepts

/-! ## Consequences -/

/-- The events of every caller are accepted by the protocol. -/
private theorem accepts_own (h : Pool.History (jobs e₀) allow (initial e₀) l s) (i : Caller) :
    protocol.Accepts (begins e₀ i) (Pool.own i l) := by
  have haccepts := (follows_watch h i).1
  cases i with
  | main => exact haccepts
  | request n => exact haccepts.of_restrict

private theorem begins_calm (e₀ : Engine) (i : Caller) :
    (begins e₀ i).phase = .idle ∧ (begins e₀ i).owed = [] := by
  cases i <;> exact ⟨rfl, rfl⟩

/-- **The rows of an INSERT come from the page read last**: only the main thread sends one,
    to the hosted database, with the columns of the last page that the thread has read, and
    it carries at most 100 successive rows of that page, cell by cell; a text is sent as
    NULL only if the answer to its escape, among the last ones, was a failure. -/
theorem inserts_come_from_last_page (h : Pool.History (jobs e₀) allow (initial e₀) l s)
    {i : Caller} {l₁ l₂ : List (Event Call Call.Reply)} {conn : Conn} {t : String}
    {columns : List String} {values : List (List SqlValue)} {res : Option PGresult}
    (hl : Pool.own i l = l₁ ++ ⟨.pqexec conn (.insert t columns values), res⟩ :: l₂) :
    i = .main ∧ conn = .hosted_ ∧ ∃ page rows escapes, LastPage l₁ t page ∧
      PQresultStatus page = .tuplesOk ∧ columns = resultFields page ∧
      rows <:+: resultRows page ∧ rows ≠ [] ∧ rows.length ≤ 100 ∧
      escapes <:+ l₁.filterMap escapeOf ∧ CarriesRows rows escapes values := by
  have haccepts := accepts_own h i
  rw [hl] at haccepts
  have hmain : i = .main := by
    cases i with
    | main => rfl
    | request n =>
      -- a request makes the calls of a health check only
      have hwatched := (follows_watch h (.request n)).1
      rw [hl] at hwatched
      have hmay := hwatched.may (watch_expected _ _ _)
      rcases hmay.1 with ⟨hq⟩
      simp [healthQueries] at hq
  exact ⟨hmain, insert_of_accepts (begins_calm e₀ i).1 (begins_calm e₀ i).2 haccepts⟩

/-- The INSERT of the one row: one escape has failed, one cell is NULL. -/
theorem inserts_come_from_last_page_first_run : Caller.main = .main ∧ Conn.hosted_ = .hosted_ ∧
    ∃ page rows escapes, LastPage ((firstRun true).take 19) "public.users" page ∧
      PQresultStatus page = .tuplesOk ∧ ["id", "note", "until"] = resultFields page ∧
      rows <:+: resultRows page ∧ rows ≠ [] ∧ rows.length ≤ 100 ∧
      escapes <:+ ((firstRun true).take 19).filterMap escapeOf ∧
      CarriesRows rows escapes [[.literal "1", .null, .null]] := by
  obtain ⟨s, hs⟩ := firstRun_history true
  let acknowledged : PGresult := { status := .commandOk, fnames := [], tuples := [] }
  have hl : Pool.own .main ((firstRun true).map fun x => (Caller.main, x)) =
      (firstRun true).take 19 ++
        ⟨.pqexec .hosted_ (.insert "public.users" ["id", "note", "until"]
          [[.literal "1", .null, .null]]), some acknowledged⟩ :: (firstRun true).drop 20 := by
    rw [Pool.own_map_self]
    rfl
  exact inserts_come_from_last_page hs hl

/-- **The failure lines of the log are the failures**: every caller reports a failing answer
    with its next call, and every failure line of a caller reports an answer that it has
    just got, with at most two other reports of it and waits in between. -/
theorem failures_logged (h : Pool.History (jobs e₀) allow (initial e₀) l s) (i : Caller) :
    (∀ l₁ e r x l₂, Pool.own i l = l₁ ++ ⟨e, r⟩ :: x :: l₂ → Failing e r →
      ∃ line, x.1 = .log line ∧ Reported e r line) ∧
    ∀ l₁ line u l₂, Pool.own i l = l₁ ++ ⟨.log line, u⟩ :: l₂ → IsFailure line →
      ∃ l₀ e r between, l₁ = l₀ ++ ⟨e, r⟩ :: between ∧ between.length ≤ 2 ∧
        (∀ x ∈ between, ReportOrWait e r x.1) ∧ Reported e r line := by
  have haccepts := accepts_own h i
  constructor
  · intro l₁ e r x l₂ hl hfailing
    rw [hl] at haccepts
    exact report_of_accepts (begins_calm e₀ i).2 haccepts hfailing
  · intro l₁ line u l₂ hl hline
    rw [hl] at haccepts
    exact reported_of_accepts (begins_calm e₀ i).2 haccepts hline

/-- The last attempt of a batch fails, and then the batch is given up. -/
theorem failures_logged_lost_batch :
    (∃ line, Call.log (.queryFailed 3) = .log line ∧
      Reported (.pqexec .hosted_ (.insert "public.users" ["id", "note", "until"]
        [[.literal "1", .null, .null]])) none line) ∧
    ∃ l₀ e r between, (firstRun false).take 28 = l₀ ++ ⟨e, r⟩ :: between ∧ between.length ≤ 2 ∧
      (∀ x ∈ between, ReportOrWait e r x.1) ∧ Reported e r (.insertFailed "public.users") := by
  obtain ⟨s, hs⟩ := firstRun_history false
  have hattempt : Pool.own .main ((firstRun false).map fun x => (Caller.main, x)) =
      (firstRun false).take 25 ++
        ⟨.pqexec .hosted_ (.insert "public.users" ["id", "note", "until"]
          [[.literal "1", .null, .null]]), none⟩ ::
        ⟨.log (.queryFailed 3), ()⟩ :: (firstRun false).drop 27 := by
    rw [Pool.own_map_self]
    rfl
  have hline : Pool.own .main ((firstRun false).map fun x => (Caller.main, x)) =
      (firstRun false).take 28 ++
        ⟨.log (.insertFailed "public.users"), ()⟩ :: (firstRun false).drop 29 := by
    rw [Pool.own_map_self]
    rfl
  have hfailing : Failing (.pqexec .hosted_ (.insert "public.users" ["id", "note", "until"]
      [[.literal "1", .null, .null]])) none := by
    intro h
    cases h
  constructor
  · exact (failures_logged hs .main).1 _ _ _ _ _ hattempt hfailing
  · exact (failures_logged hs .main).2 _ _ _ _ hline trivial

/-- **The numbers of rows in the log are true**: the line about a page has the number of rows
    of the page read last and the offset behind it, and the line at the end of a table has
    the number of rows that the SELECTs have returned since the copy of the table began,
    which is also the sum of the lines about its pages. -/
theorem totals_logged (h : Pool.History (jobs e₀) allow (initial e₀) l s) (i : Caller) :
    (∀ l₁ n t offset u l₂, Pool.own i l = l₁ ++ ⟨.log (.syncedRows n t offset), u⟩ :: l₂ →
      ∃ pageOffset page, LastPageAt l₁ t pageOffset page ∧ PQresultStatus page = .tuplesOk ∧
        n = Int32.ofNat (PQntuples page) ∧ offset = pageOffset + pageSize) ∧
    ∀ l₁ n t u l₂, Pool.own i l = l₁ ++ ⟨.log (.completedTable n t), u⟩ :: l₂ →
      Tally l₁ t n n := by
  have haccepts := accepts_own h i
  constructor
  · intro l₁ n t offset u l₂ hl
    rw [hl] at haccepts
    exact (totals_of_accepts (begins_calm e₀ i).1 (begins_calm e₀ i).2 haccepts).1 n t offset rfl
  · intro l₁ n t u l₂ hl
    rw [hl] at haccepts
    exact (totals_of_accepts (begins_calm e₀ i).1 (begins_calm e₀ i).2 haccepts).2 n t rfl

/-- The line about the one row, and the line at the end of its table. -/
theorem totals_logged_first_run :
    (∃ pageOffset page, LastPageAt ((firstRun true).take 20) "public.users" pageOffset page ∧
      PQresultStatus page = .tuplesOk ∧ 1 = Int32.ofNat (PQntuples page) ∧
      1000 = pageOffset + pageSize) ∧
    Tally ((firstRun true).take 22) "public.users" 1 1 := by
  obtain ⟨s, hs⟩ := firstRun_history true
  have hpage : Pool.own .main ((firstRun true).map fun x => (Caller.main, x)) =
      (firstRun true).take 20 ++
        ⟨.log (.syncedRows 1 "public.users" 1000), ()⟩ :: (firstRun true).drop 21 := by
    rw [Pool.own_map_self]
    rfl
  have hend : Pool.own .main ((firstRun true).map fun x => (Caller.main, x)) =
      (firstRun true).take 22 ++
        ⟨.log (.completedTable 1 "public.users"), ()⟩ :: (firstRun true).drop 23 := by
    rw [Pool.own_map_self]
    rfl
  constructor
  · exact (totals_logged hs .main).1 _ _ _ _ _ _ hpage
  · exact (totals_logged hs .main).2 _ _ _ _ _ hend

end SyncLayer.Service
