import SyncLayer.Protocol.Progress

/-!
# What the Protocol Implies

Two readings of an accepted sequence of events that do without the observer. Every row of
an INSERT comes from the page that was read last before it (`insert_of_accepts`). And the
failure lines of the log are what the answers call for: a failing answer is reported by
the next call (`report_of_accepts`), and each failure line follows a failing answer that
calls for it, with at most the other reports of that answer in between
(`reported_of_accepts`).
-/

namespace SyncLayer.Protocol

open SyncLayer.Interaction SyncLayer.Model

/-- The monitor reckons with every answer. -/
theorem expected (s : Progress) (l : List (Event Call Call.Reply)) : protocol.Expected s l := by
  induction l generalizing s with
  | nil => trivial
  | cons x l ih => exact ⟨trivial, ih _⟩

/-! ## Failures and their reports -/

/-- The answers that the log has to report. The queries for the metrics are not among
    them. -/
def Failing : (e : Call) → Call.Reply e → Prop
  | .pqexec _ (.selectPage _ _ _ _), res => PQresultStatus res ≠ .tuplesOk
  | .pqexec _ (.insert _ _ _), res => PQresultStatus res ≠ .commandOk
  | .pqexec _ .selectOne, res => PQresultStatus res ≠ .tuplesOk
  | .pqexec _ .listTables, res => PQresultStatus res ≠ .tuplesOk
  | .pqexec _ (.primaryKey _ _), res =>
    PQresultStatus res ≠ .tuplesOk ∨ TableTracker.firstColumn res = []
  | _, _ => False

/-- The retry loop does not end with this answer. -/
def Inconclusive (res : Option PGresult) : Prop :=
  PQresultStatus res ≠ .tuplesOk ∧ PQresultStatus res ≠ .commandOk

/-- The lines that report a failing answer. -/
inductive Reported : (e : Call) → Call.Reply e → LogLine → Prop
  | pageAttempt {conn : Conn} {t : String} {pk : List String} {limit offset : Int32}
      {res : Option PGresult} (h : Inconclusive res) (n : Nat) :
      Reported (.pqexec conn (.selectPage t pk limit offset)) res (.queryFailed n)
  | page {conn : Conn} {t : String} {pk : List String} {limit offset : Int32}
      {res : Option PGresult} (h : PQresultStatus res ≠ .tuplesOk) :
      Reported (.pqexec conn (.selectPage t pk limit offset)) res (.selectFailed t)
  | insertAttempt {conn : Conn} {t : String} {columns : List String}
      {values : List (List SqlValue)} {res : Option PGresult} (h : Inconclusive res) (n : Nat) :
      Reported (.pqexec conn (.insert t columns values)) res (.queryFailed n)
  | insert {conn : Conn} {t : String} {columns : List String} {values : List (List SqlValue)}
      {res : Option PGresult} (h : PQresultStatus res ≠ .commandOk) :
      Reported (.pqexec conn (.insert t columns values)) res (.insertFailed t)
  | healthCheck {conn : Conn} {res : Option PGresult} (h : PQresultStatus res ≠ .tuplesOk) :
      Reported (.pqexec conn .selectOne) res (.healthCheckFailed conn)
  | discovery {conn : Conn} {res : Option PGresult} (h : PQresultStatus res ≠ .tuplesOk) :
      Reported (.pqexec conn .listTables) res .discoveryFailed
  | lookup {conn : Conn} {t : String} {res : Option PGresult}
      (h : PQresultStatus res ≠ .tuplesOk) :
      Reported (.pqexec conn (.primaryKey (TableTracker.schemaOf t) (TableTracker.tableNameOf t)))
        res (.primaryKeyFailed t)
  | noKey {conn : Conn} {t : String} {res : Option PGresult}
      (h : PQresultStatus res = .tuplesOk) (hempty : TableTracker.firstColumn res = []) :
      Reported (.pqexec conn (.primaryKey (TableTracker.schemaOf t) (TableTracker.tableNameOf t)))
        res (.noPrimaryKey t)

/-- The lines that tell of a failure. -/
def IsFailure : LogLine → Prop
  | .queryFailed _ => True
  | .selectFailed _ => True
  | .insertFailed _ => True
  | .healthCheckFailed _ => True
  | .discoveryFailed => True
  | .noPrimaryKey _ => True
  | .primaryKeyFailed _ => True
  | _ => False

/-! ## Debts -/

/-- A line that reports this answer, or a wait. -/
def ReportOrWait (e : Call) (r : Call.Reply e) (e' : Call) : Prop :=
  (∃ line, e' = .log line ∧ Reported e r line) ∨ ∃ milliseconds, e' = .sleepFor milliseconds

/-- A debt that is settled by such a call only. -/
def Settles (e : Call) (r : Call.Reply e) (debt : Call → Prop) : Prop :=
  ∀ e', debt e' → ReportOrWait e r e'

/-- What is owed after an answer: nothing, unless it is a failing one; then its reports, at
    most three calls, the first of them a line. -/
private structure Debts (e : Call) (r : Call.Reply e) (owed : List (Call → Prop)) : Prop where
  settles : ∀ debt ∈ owed, Settles e r debt
  length : owed.length ≤ 3
  first : Failing e r → ∃ debt debts, owed = debt :: debts ∧
    ∀ e', debt e' → ∃ line, e' = .log line ∧ Reported e r line

private theorem debts_nil {e : Call} {r : Call.Reply e} (h : ¬ Failing e r) : Debts e r [] where
  settles := fun _ hdebt => by cases hdebt
  length := Nat.zero_le _
  first := fun hfailing => absurd hfailing h

private theorem debts_single {e : Call} {r : Call.Reply e} {debt : Call → Prop}
    (h : ∀ e', debt e' → ∃ line, e' = .log line ∧ Reported e r line) : Debts e r [debt] where
  settles := by
    intro debt' hmem e' he'
    obtain rfl := List.mem_singleton.1 hmem
    exact .inl (h e' he')
  length := by simp
  first := fun _ => ⟨debt, [], rfl, h⟩

private theorem debts_failed {e : Call} {r : Call.Reply e} (s : Progress) (q : Stmt)
    (after : Phase) {line : LogLine} (hattempt : ∀ n : Nat, Reported e r (.queryFailed n))
    (hline : Reported e r line) : Debts e r (s.failed q after line).owed where
  settles := by
    intro debt hdebt e' he'
    rcases List.mem_append.1 hdebt with hfirst | hlast
    · simp only [List.mem_cons, List.not_mem_nil, or_false] at hfirst
      rcases hfirst with rfl | rfl
      · exact .inl ⟨_, he', hattempt _⟩
      · exact .inr ⟨_, he'⟩
    · split at hlast
      · cases hlast
      · obtain rfl := List.mem_singleton.1 hlast
        exact .inl ⟨line, he', hline⟩
  length := by
    rw [Progress.failed]
    dsimp only
    split <;> simp
  first := fun _ => ⟨_, _, rfl, fun e' he' => ⟨_, he', hattempt _⟩⟩

private theorem debts_page {s : Progress} (hs : s.owed = []) (conn : Conn) (table : String)
    (orderBy : List String) (limit offset : Int32) (res : Option PGresult) :
    Debts (.pqexec conn (.selectPage table orderBy limit offset)) res
      (s.pageAnswered table (.selectPage table orderBy limit offset) offset res).owed := by
  rw [Progress.pageAnswered]
  split
  · rename_i hres
    change Debts _ _ s.owed
    rw [hs]
    exact debts_nil fun h => h hres
  · rename_i hres
    refine debts_single fun e' he' => ⟨_, he', .page ?_⟩
    rw [hres]
    decide
  · rename_i htuples hcommand
    exact debts_failed s _ _ (fun n => .pageAttempt ⟨htuples, hcommand⟩ n) (.page htuples)

private theorem debts_insert {s : Progress} (hs : s.owed = []) (conn : Conn) (table : String)
    (columns : List String) (values : List (List SqlValue)) (res : Option PGresult) :
    Debts (.pqexec conn (.insert table columns values)) res
      (s.insertAnswered table (.insert table columns values) res).owed := by
  rw [Progress.insertAnswered]
  split
  · rename_i hres
    change Debts _ _ s.owed
    rw [hs]
    exact debts_nil fun h => h hres
  · rename_i hres
    refine debts_single fun e' he' => ⟨_, he', .insert ?_⟩
    rw [hres]
    decide
  · rename_i hcommand htuples
    exact debts_failed s _ _ (fun n => .insertAttempt ⟨htuples, hcommand⟩ n) (.insert hcommand)

/-- The debts that an answer leaves, by cases on the call. -/
private theorem debts_answered {s : Progress} (hs : s.owed = []) (e : Call) (r : Call.Reply e) :
    Debts e r (s.answered e r).owed := by
  cases e with
  | pqescapeLiteral text =>
    change Debts _ r s.owed
    rw [hs]
    exact debts_nil id
  | sleepFor milliseconds =>
    change Debts _ r s.owed
    rw [hs]
    exact debts_nil id
  | log line =>
    have howed : (s.answered (.log line) r).owed = [] := by
      rw [← hs]
      cases line <;> rfl
    rw [howed]
    exact debts_nil id
  | pqexec conn q =>
    -- a query whose answer is not reported
    have hquiet : ¬ Failing (.pqexec conn q) r → (s.answered (.pqexec conn q) r).owed = s.owed →
        Debts (.pqexec conn q) r (s.answered (.pqexec conn q) r).owed := by
      intro hnot howed
      rw [howed, hs]
      exact debts_nil hnot
    cases q with
    | countConnections => exact hquiet id rfl
    | databaseSize => exact hquiet id rfl
    | countActiveQueries => exact hquiet id rfl
    | selectOne =>
      change Debts _ _ (if _ then s else _ : Progress).owed
      by_cases hres : PQresultStatus r = .tuplesOk
      · rw [if_pos hres, hs]
        exact debts_nil fun h => h hres
      · rw [if_neg hres]
        exact debts_single fun e' he' => ⟨_, he', .healthCheck hres⟩
    | listTables =>
      change Debts _ _ (if _ then s else _ : Progress).owed
      by_cases hres : PQresultStatus r = .tuplesOk
      · rw [if_pos hres, hs]
        exact debts_nil fun h => h hres
      · rw [if_neg hres]
        exact debts_single fun e' he' => ⟨_, he', .discovery hres⟩
    | primaryKey schema name =>
      change Debts _ _ (if _ then _ else _ : Progress).owed
      by_cases hres : PQresultStatus r = .tuplesOk
      · rw [if_pos hres]
        dsimp only
        by_cases hempty : TableTracker.firstColumn r = []
        · rw [if_pos hempty]
          refine debts_single fun e' he' => ?_
          obtain ⟨table, rfl, rfl, rfl⟩ := he'
          exact ⟨_, rfl, .noKey hres hempty⟩
        · rw [if_neg hempty]
          exact debts_nil fun h => h.elim (fun h => h hres) hempty
      · rw [if_neg hres]
        refine debts_single fun e' he' => ?_
        obtain ⟨table, rfl, rfl, rfl⟩ := he'
        exact ⟨_, rfl, .lookup hres⟩
    | selectPage table orderBy limit offset => exact debts_page hs conn table orderBy limit offset r
    | insert table columns values => exact debts_insert hs conn table columns values r

/-! ## The failure lines are the failures -/

/-- Nothing is owed, or the reports of an answer that came at most three events ago. -/
def Owing (l : List (Event Call Call.Reply)) (s : Progress) : Prop :=
  s.owed = [] ∨ ∃ l₀ e r paid, l = l₀ ++ ⟨e, r⟩ :: paid ∧ paid.length + s.owed.length ≤ 3 ∧
    (∀ x ∈ paid, ReportOrWait e r x.1) ∧ ∀ debt ∈ s.owed, Settles e r debt

theorem owing_next {l : List (Event Call Call.Reply)} {s : Progress} {e : Call}
    {r : Call.Reply e} (h : Owing l s) (hmay : protocol.may s e) :
    Owing (l ++ [⟨e, r⟩]) (protocol.next s e r) := by
  cases howed : s.owed with
  | nil =>
    rw [next_of_nil howed]
    have hdebts := debts_answered howed e r
    exact .inr ⟨l, e, r, [], rfl, (Nat.zero_add _).trans_le hdebts.length,
      (fun _ hx => by cases hx), hdebts.settles⟩
  | cons debt debts =>
    rw [next_of_cons howed]
    obtain hnil | ⟨l₀, e₀, r₀, paid, rfl, hlen, hpaid, hsettles⟩ := h
    · rw [hnil] at howed
      cases howed
    · rw [howed] at hlen hsettles
      refine .inr ⟨l₀, e₀, r₀, paid ++ [⟨e, r⟩], by simp, ?_, fun x hx => ?_, ?_⟩
      · simp only [List.length_append, List.length_cons, List.length_nil] at hlen ⊢
        omega
      · rcases List.mem_append.1 hx with hx | hx
        · exact hpaid x hx
        · rw [List.mem_singleton.1 hx]
          exact hsettles debt (List.mem_cons_self ..) e ((may_of_cons howed e).1 hmay)
      · exact fun debt' hdebt' => hsettles debt' (List.mem_cons_of_mem _ hdebt')

private theorem owing_after {s₀ : Progress} (h₀ : s₀.owed = [])
    {l : List (Event Call Call.Reply)} (h : protocol.Accepts s₀ l) :
    Owing l (protocol.after s₀ l) :=
  h.invariant (expected s₀ l) (.inl h₀) fun _ _ _ _ hl hmay _ => owing_next hl hmay

/-- What is owed is a report or a wait. -/
theorem Owing.paid {l : List (Event Call Call.Reply)} {s : Progress} (h : Owing l s)
    {debt : Call → Prop} {debts : List (Call → Prop)} (howed : s.owed = debt :: debts) {e : Call}
    (he : debt e) : ∃ e₀ r₀, ReportOrWait e₀ r₀ e := by
  obtain hnil | ⟨l₀, e₀, r₀, paid, rfl, -, -, hsettles⟩ := h
  · rw [hnil] at howed
    cases howed
  · rw [howed] at hsettles
    exact ⟨e₀, r₀, hsettles debt (List.mem_cons_self ..) e he⟩

/-- A query is never owed. -/
theorem owed_eq_nil {l : List (Event Call Call.Reply)} {s : Progress} (h : Owing l s)
    {conn : Conn} {q : Stmt} (hmay : protocol.may s (.pqexec conn q)) : s.owed = [] := by
  cases howed : s.owed with
  | nil => rfl
  | cons debt debts =>
    obtain ⟨e₀, r₀, ⟨line, hline, -⟩ | ⟨milliseconds, hwait⟩⟩ :=
      h.paid howed ((may_of_cons howed _).1 hmay)
    · cases hline
    · cases hwait

/-- **Every failing answer is reported by the next call.** -/
theorem report_of_accepts {s₀ : Progress} (h₀ : s₀.owed = [])
    {l₁ l₂ : List (Event Call Call.Reply)} {e : Call} {r : Call.Reply e}
    {x : Event Call Call.Reply} (h : protocol.Accepts s₀ (l₁ ++ ⟨e, r⟩ :: x :: l₂))
    (hfailing : Failing e r) : ∃ line, x.1 = .log line ∧ Reported e r line := by
  have hmay : protocol.may (protocol.after s₀ l₁) e := h.may (expected s₀ l₁)
  have hnil : (protocol.after s₀ l₁).owed = [] := by
    cases e with
    | pqexec conn q => exact owed_eq_nil (owing_after h₀ h.of_append) hmay
    | pqescapeLiteral text => exact hfailing.elim
    | sleepFor milliseconds => exact hfailing.elim
    | log line => exact hfailing.elim
  -- the first debt is what has to come next
  obtain ⟨debt, debts, howed, hdebt⟩ := (debts_answered hnil e r).first hfailing
  have hnext : protocol.after s₀ (l₁ ++ [⟨e, r⟩]) = (protocol.after s₀ l₁).answered e r := by
    rw [Monitor.after_concat]
    exact next_of_nil hnil e r
  have hsplit : l₁ ++ ⟨e, r⟩ :: x :: l₂ = (l₁ ++ [⟨e, r⟩]) ++ x :: l₂ := by simp
  rw [hsplit] at h
  have hx : protocol.may _ x.1 := h.may (expected s₀ _)
  rw [hnext] at hx
  exact hdebt x.1 ((may_of_cons howed _).1 hx)

/-- **Every failure line reports an answer**: the one before it, but for at most two calls
    that are other reports of it and waits. -/
theorem reported_of_accepts {s₀ : Progress} (h₀ : s₀.owed = [])
    {l₁ l₂ : List (Event Call Call.Reply)} {line : LogLine} {u : Call.Reply (.log line)}
    (h : protocol.Accepts s₀ (l₁ ++ ⟨.log line, u⟩ :: l₂)) (hline : IsFailure line) :
    ∃ l₀ e r between, l₁ = l₀ ++ ⟨e, r⟩ :: between ∧ between.length ≤ 2 ∧
      (∀ x ∈ between, ReportOrWait e r x.1) ∧ Reported e r line := by
  have hmay : protocol.may (protocol.after s₀ l₁) (.log line) := h.may (expected s₀ l₁)
  cases howed : (protocol.after s₀ l₁).owed with
  | nil =>
    -- no failure line may be logged freely
    have hfree : (protocol.after s₀ l₁).MayLog line := (may_of_nil howed _).1 hmay
    cases line
    case queryFailed => exact hfree.elim
    case selectFailed => exact hfree.elim
    case insertFailed => exact hfree.elim
    case healthCheckFailed => exact hfree.elim
    case discoveryFailed => exact hfree.elim
    case noPrimaryKey => exact hfree.elim
    case primaryKeyFailed => exact hfree.elim
    all_goals exact hline.elim
  | cons debt debts =>
    have hdebt : debt (.log line) := (may_of_cons howed _).1 hmay
    obtain hnil | ⟨l₀, e, r, paid, rfl, hlen, hpaid, hsettles⟩ := owing_after h₀ h.of_append
    · rw [hnil] at howed
      cases howed
    · rw [howed] at hlen hsettles
      refine ⟨l₀, e, r, paid, rfl, ?_, hpaid, ?_⟩
      · simp only [List.length_cons] at hlen
        omega
      · rcases hsettles debt (List.mem_cons_self ..) _ hdebt with ⟨line', h, hrep⟩ | ⟨ms, h⟩
        · cases h
          exact hrep
        · cases h

/-! ## Where the rows of an INSERT come from -/

/-- A SELECT of a page. -/
def IsPageQuery : Call → Prop
  | .pqexec _ (.selectPage _ _ _ _) => True
  | _ => False

/-- The last page that was asked for is the one of `t` at `offset`, and `res` came back. -/
def LastPageAt (l : List (Event Call Call.Reply)) (t : String) (offset : Int32)
    (res : Option PGresult) : Prop :=
  ∃ l₁ pk l₂, l = l₁ ++ ⟨.pqexec .local_ (.selectPage t pk pageSize offset), res⟩ :: l₂ ∧
    ∀ x ∈ l₂, ¬ IsPageQuery x.1

/-- The last page that was asked for is one of `t`, and `res` came back. -/
def LastPage (l : List (Event Call Call.Reply)) (t : String) (res : Option PGresult) : Prop :=
  ∃ offset, LastPageAt l t offset res

theorem LastPageAt.concat {l : List (Event Call Call.Reply)} {t : String} {offset : Int32}
    {res : Option PGresult} (h : LastPageAt l t offset res) {x : Event Call Call.Reply}
    (hx : ¬ IsPageQuery x.1) : LastPageAt (l ++ [x]) t offset res := by
  obtain ⟨l₁, pk, l₂, rfl, hl₂⟩ := h
  refine ⟨l₁, pk, l₂ ++ [x], by simp, fun y hy => ?_⟩
  rcases List.mem_append.1 hy with hy | hy
  · exact hl₂ y hy
  · rw [List.mem_singleton.1 hy]
    exact hx

/-- The text that an event escapes, and whether it could be escaped. -/
def escapeOf : Event Call Call.Reply → Option (String × Bool)
  | ⟨.pqescapeLiteral text, escaped⟩ => some (text, escaped)
  | _ => none

/-- The rows still to be sent are the last ones of the page read last, and the escapes are
    the last ones that were made. -/
private def Sourced (l : List (Event Call Call.Reply)) (s : Progress) : Prop :=
  ∀ t offset total count fields rows escapes,
    s.phase = .sending t offset total count fields rows escapes →
      (∃ res, LastPage l t res ∧ PQresultStatus res = .tuplesOk ∧ fields = resultFields res ∧
        rows <:+ resultRows res) ∧ escapes <:+ l.filterMap escapeOf

private theorem LastPage.concat {l : List (Event Call Call.Reply)} {t : String}
    {res : Option PGresult} (h : LastPage l t res) {x : Event Call Call.Reply}
    (hx : ¬ IsPageQuery x.1) : LastPage (l ++ [x]) t res := by
  obtain ⟨offset, hlast⟩ := h
  exact ⟨offset, hlast.concat hx⟩

/-- An event that leaves the rows as they are, or takes the first ones away. -/
private theorem Sourced.concat {l : List (Event Call Call.Reply)} {s s' : Progress}
    (h : Sourced l s) {x : Event Call Call.Reply} (hx : ¬ IsPageQuery x.1)
    (hescape : escapeOf x = none)
    (hphase : s'.phase = s.phase ∨ s'.phase = s.phase.sent ∨
      ∀ t offset total count fields rows escapes,
        s'.phase ≠ .sending t offset total count fields rows escapes) :
    Sourced (l ++ [x]) s' := by
  intro t offset total count fields rows escapes hs'
  rw [List.filterMap_append, List.filterMap_cons_none hescape, List.filterMap_nil,
    List.append_nil]
  rcases hphase with hsame | hsent | hnone
  · rw [hsame] at hs'
    obtain ⟨⟨res, hlast, hrest⟩, hescapes⟩ := h _ _ _ _ _ _ _ hs'
    exact ⟨⟨res, hlast.concat hx, hrest⟩, hescapes⟩
  · rw [hsent] at hs'
    cases hp : s.phase with
    | sending t' offset' total' count' fields' rows' escapes' =>
      rw [hp] at hs'
      injection hs' with h₁ h₂ h₃ h₄ h₅ h₆ h₇
      subst h₁ h₂ h₃ h₄ h₅ h₆ h₇
      obtain ⟨⟨res, hlast, hok, hfields, hsuffix⟩, -⟩ := h _ _ _ _ _ _ _ hp
      exact ⟨⟨res, hlast.concat hx, hok, hfields, (List.drop_suffix _ _).trans hsuffix⟩,
        List.nil_suffix⟩
    | idle =>
      rw [hp] at hs'
      cases hs'
    | reading t' offset' total' =>
      rw [hp] at hs'
      cases hs'
    | ended t' total' =>
      rw [hp] at hs'
      cases hs'
  · exact (hnone _ _ _ _ _ _ _ hs').elim

/-- A text of the next batch is escaped. -/
private theorem Sourced.escape {l : List (Event Call Call.Reply)} {s : Progress}
    (h : Sourced l s) (text : String) (escaped : Bool) :
    Sourced (l ++ [⟨.pqescapeLiteral text, escaped⟩])
      (s.answered (.pqescapeLiteral text) escaped) := by
  intro t offset total count fields rows escapes hs'
  change s.phase.escape text escaped = _ at hs'
  cases hp : s.phase with
  | sending t' offset' total' count' fields' rows' escapes' =>
    rw [hp] at hs'
    injection hs' with h₁ h₂ h₃ h₄ h₅ h₆ h₇
    subst h₁ h₂ h₃ h₄ h₅ h₆ h₇
    obtain ⟨⟨res, hlast, hrest⟩, hescapes⟩ := h _ _ _ _ _ _ _ hp
    refine ⟨⟨res, hlast.concat id, hrest⟩, ?_⟩
    rw [List.filterMap_append]
    exact List.suffix_append_self_iff.2 hescapes
  | idle =>
    rw [hp] at hs'
    cases hs'
  | reading t' offset' total' =>
    rw [hp] at hs'
    cases hs'
  | ended t' total' =>
    rw [hp] at hs'
    cases hs'

/-- After a failure the phase is the one before or the one given. -/
theorem phase_failed (s : Progress) (q : Stmt) (after : Phase) (line : LogLine) :
    (s.failed q after line).phase = s.phase ∨ (s.failed q after line).phase = after := by
  rw [Progress.failed]
  dsimp only
  split
  · exact .inl rfl
  · exact .inr rfl

private theorem sourced_page {l : List (Event Call Call.Reply)} {s : Progress} {t : String}
    {pk : List String} {limit offset : Int32} {conn : Conn} (res : Option PGresult)
    (hfree : s.Free (.pqexec conn (.selectPage t pk limit offset))) :
    Sourced (l ++ [⟨.pqexec conn (.selectPage t pk limit offset), res⟩])
      (s.pageAnswered t (.selectPage t pk limit offset) offset res) := by
  obtain ⟨rfl, -, rfl, -, -, ⟨total, hreading⟩, -⟩ := hfree
  intro t' offset' total' count' fields' rows' escapes' hphase
  rw [Progress.pageAnswered] at hphase
  split at hphase
  · rename_i hok
    dsimp only at hphase
    by_cases hempty : PQntuples res = 0
    · rw [if_pos hempty] at hphase
      cases hphase
    · rw [if_neg hempty] at hphase
      injection hphase with h₁ h₂ h₃ h₄ h₅ h₆ h₇
      subst h₁ h₂ h₃ h₄ h₅ h₆ h₇
      exact ⟨⟨res, ⟨offset, l, pk, [], rfl, fun _ hx => by cases hx⟩, hok, rfl,
        List.suffix_refl _⟩, List.nil_suffix⟩
  · cases hphase
  · -- the SELECT has failed: the table is still being read, or has ended
    rcases phase_failed s (.selectPage t pk pageSize offset) (.ended t s.phase.total)
      (.selectFailed t) with hsame | hended
    · rw [hsame, hreading] at hphase
      cases hphase
    · rw [hended] at hphase
      cases hphase

theorem phase_insertAnswered (s : Progress) (t : String) (q : Stmt)
    (res : Option PGresult) :
    (s.insertAnswered t q res).phase = s.phase ∨
      (s.insertAnswered t q res).phase = s.phase.sent := by
  rw [Progress.insertAnswered]
  split
  · exact .inr rfl
  · exact .inr rfl
  · exact phase_failed ..

private theorem sourced_answered {l : List (Event Call Call.Reply)} {s : Progress} {e : Call}
    {r : Call.Reply e} (h : Sourced l s) (hfree : s.Free e) :
    Sourced (l ++ [⟨e, r⟩]) (s.answered e r) := by
  cases e with
  | pqescapeLiteral text => exact h.escape text r
  | sleepFor milliseconds => exact h.concat id rfl (.inl rfl)
  | log line =>
    refine h.concat id rfl ?_
    cases line
    case syncingTable => exact .inr (.inr fun _ _ _ _ _ _ _ h => by cases h)
    case completedTable => exact .inr (.inr fun _ _ _ _ _ _ _ h => by cases h)
    case syncedRows =>
      refine .inr (.inr fun _ _ _ _ _ _ _ h => ?_)
      change s.phase.resume = _ at h
      cases hp : s.phase <;> rw [hp] at h <;> cases h
    all_goals exact .inl rfl
  | pqexec conn q =>
    -- a query that is none for a page and does not touch the phase
    have hquiet : ¬ IsPageQuery (.pqexec conn q) →
        (s.answered (.pqexec conn q) r).phase = s.phase →
        Sourced (l ++ [⟨.pqexec conn q, r⟩]) (s.answered (.pqexec conn q) r) :=
      fun hq hphase => h.concat hq rfl (.inl hphase)
    cases q with
    | countConnections => exact hquiet id rfl
    | databaseSize => exact hquiet id rfl
    | countActiveQueries => exact hquiet id rfl
    | selectOne =>
      refine hquiet id ?_
      change (if _ then s else _ : Progress).phase = _
      split <;> rfl
    | listTables =>
      refine hquiet id ?_
      change (if _ then s else _ : Progress).phase = _
      split <;> rfl
    | primaryKey schema name =>
      refine hquiet id ?_
      change (if _ then _ else _ : Progress).phase = _
      split <;> rfl
    | selectPage t pk limit offset => exact sourced_page r hfree
    | insert t columns values =>
      refine h.concat id rfl ?_
      rcases phase_insertAnswered s t (.insert t columns values) r with hsame | hsent
      · exact .inl hsame
      · exact .inr (.inl hsent)

private theorem sourced_after {s₀ : Progress} (hphase : s₀.phase = .idle) (h₀ : s₀.owed = [])
    {l : List (Event Call Call.Reply)} (h : protocol.Accepts s₀ l) :
    Sourced l (protocol.after s₀ l) := by
  have hboth : Owing l (protocol.after s₀ l) ∧ Sourced l (protocol.after s₀ l) := by
    refine h.invariant (P := fun l s => Owing l s ∧ Sourced l s) (expected s₀ l)
      ⟨.inl h₀, fun _ _ _ _ _ _ _ h => ?_⟩ fun l s e r hl hmay _ => ⟨owing_next hl.1 hmay, ?_⟩
    · rw [hphase] at h
      cases h
    · cases howed : s.owed with
      | nil =>
        rw [next_of_nil howed]
        exact sourced_answered hl.2 ((may_of_nil howed e).1 hmay)
      | cons debt debts =>
        rw [next_of_cons howed]
        -- what is owed is no query
        obtain ⟨e₀, r₀, ⟨line, rfl, -⟩ | ⟨milliseconds, rfl⟩⟩ :=
          hl.1.paid howed ((may_of_cons howed e).1 hmay)
        · exact hl.2.concat id rfl (.inl rfl)
        · exact hl.2.concat id rfl (.inl rfl)
  exact hboth.2

/-- **The rows of an INSERT come from the page read last**: it goes to the hosted database,
    its columns are those of that page, and it carries at most 100 successive rows of it,
    with the answers to the last escapes. -/
theorem insert_of_accepts {s₀ : Progress} (hphase : s₀.phase = .idle) (h₀ : s₀.owed = [])
    {l₁ l₂ : List (Event Call Call.Reply)} {conn : Conn} {t : String} {columns : List String}
    {values : List (List SqlValue)} {res : Option PGresult}
    (h : protocol.Accepts s₀ (l₁ ++ ⟨.pqexec conn (.insert t columns values), res⟩ :: l₂)) :
    conn = .hosted_ ∧ ∃ page rows escapes, LastPage l₁ t page ∧
      PQresultStatus page = .tuplesOk ∧ columns = resultFields page ∧
      rows <:+: resultRows page ∧ rows ≠ [] ∧ rows.length ≤ 100 ∧
      escapes <:+ l₁.filterMap escapeOf ∧ CarriesRows rows escapes values := by
  have hmay : protocol.may (protocol.after s₀ l₁) (.pqexec conn (.insert t columns values)) :=
    h.may (expected s₀ l₁)
  have hnil := owed_eq_nil (owing_after h₀ h.of_append) hmay
  obtain ⟨rfl, -, ⟨offset, total, count, rows, escapes, hsending, hne, hvalues⟩, -⟩ :=
    (may_of_nil hnil _).1 hmay
  obtain ⟨⟨page, hlast, hok, hfields, hsuffix⟩, hescapes⟩ :=
    sourced_after hphase h₀ h.of_append _ _ _ _ _ _ _ hsending
  refine ⟨rfl, page, rows.take batchSize, escapes, hlast, hok, hfields, ?_, ?_,
    List.length_take_le _ _, hescapes, hvalues⟩
  · exact (List.take_prefix _ _).isInfix.trans hsuffix.isInfix
  · intro hempty
    rw [List.take_eq_nil_iff] at hempty
    exact hempty.elim (by decide) hne

end SyncLayer.Protocol
