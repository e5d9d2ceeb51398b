import SyncLayer.Protocol.Consequences

/-!
# The Numbers in the Log

The copy of a table counts the rows that it has read. It logs the count of every page, and
the total at the end of the table. In an accepted sequence of events these numbers are true:
they are what the answers have brought since the copy of the table began
(`totals_of_accepts`). They count rows that were read, stored or not, and they count modulo
2^32.
-/

namespace SyncLayer.Protocol

open SyncLayer.Interaction SyncLayer.Model

/-! ## What is counted -/

/-- The rows of a page that could be read. -/
def rowsRead : Event Call Call.Reply → Nat
  | ⟨.pqexec _ (.selectPage _ _ _ _), res⟩ =>
    if PQresultStatus res = .tuplesOk then PQntuples res else 0
  | _ => 0

/-- The number in the line about a page. -/
def rowsLogged : Event Call Call.Reply → Int32
  | ⟨.log (.syncedRows rows _ _), _⟩ => rows
  | _ => 0

def totalRead (l : List (Event Call Call.Reply)) : Nat := l.foldl (fun n x => n + rowsRead x) 0

def totalLogged (l : List (Event Call Call.Reply)) : Int32 :=
  l.foldl (fun n x => n + rowsLogged x) 0

theorem totalRead_concat (l : List (Event Call Call.Reply)) (x : Event Call Call.Reply) :
    totalRead (l ++ [x]) = totalRead l + rowsRead x := by
  simp [totalRead]

theorem totalLogged_concat (l : List (Event Call Call.Reply)) (x : Event Call Call.Reply) :
    totalLogged (l ++ [x]) = totalLogged l + rowsLogged x := by
  simp [totalLogged]

/-- No copy begins, and a page that is asked for is one of `t`. -/
def Within (t : String) (e : Call) : Prop :=
  (∀ t', e ≠ .log (.syncingTable t')) ∧
    ∀ conn t' pk limit offset, e = .pqexec conn (.selectPage t' pk limit offset) → t' = t

/-- Since the copy of `t` began, so many rows have been read and so many been logged. -/
def Tally (l : List (Event Call Call.Reply)) (t : String) (read logged : Int32) : Prop :=
  ∃ l₀ u between, l = l₀ ++ ⟨.log (.syncingTable t), u⟩ :: between ∧
    (∀ x ∈ between, Within t x.1) ∧ read = Int32.ofNat (totalRead between) ∧
    logged = totalLogged between

section Tally

variable {l : List (Event Call Call.Reply)} {t : String} {read logged : Int32}

theorem Tally.concat (h : Tally l t read logged) {x : Event Call Call.Reply}
    (hx : Within t x.1) :
    Tally (l ++ [x]) t (read + Int32.ofNat (rowsRead x)) (logged + rowsLogged x) := by
  obtain ⟨l₀, u, between, rfl, hwithin, rfl, rfl⟩ := h
  refine ⟨l₀, u, between ++ [x], by simp, fun y hy => ?_, ?_, ?_⟩
  · rcases List.mem_append.1 hy with hy | hy
    · exact hwithin y hy
    · rw [List.mem_singleton.1 hy]
      exact hx
  · rw [totalRead_concat, Int32.ofNat_add]
  · rw [totalLogged_concat]

/-- An event without rows. -/
theorem Tally.idle (h : Tally l t read logged) {x : Event Call Call.Reply}
    (hx : Within t x.1) (hread : rowsRead x = 0) (hlogged : rowsLogged x = 0) :
    Tally (l ++ [x]) t read logged := by
  have hnext := h.concat hx
  have hzero : Int32.ofNat 0 = 0 := rfl
  rwa [hread, hlogged, hzero, Int32.add_zero, Int32.add_zero] at hnext

end Tally

/-! ## The invariant -/

/-- The total of a phase is the tally; while a page is sent, its rows have not been logged
    yet. -/
private def Tallied (l : List (Event Call Call.Reply)) : Phase → Prop
  | .idle => True
  | .reading t _ total => Tally l t total total
  | .sending t offset total count _ _ _ =>
    (∃ logged, Tally l t total logged ∧ logged + count = total) ∧
      ∃ pageOffset res, LastPageAt l t pageOffset res ∧ offset = pageOffset + pageSize ∧
        PQresultStatus res = .tuplesOk ∧ count = Int32.ofNat (PQntuples res)
  | .ended t total => Tally l t total total

section Tallied

variable {l : List (Event Call Call.Reply)} {p : Phase} {s : Progress}

/-- An event without rows leaves the phase as it is, or a batch has been sent. -/
private theorem Tallied.idle (h : Tallied l p) {x : Event Call Call.Reply}
    (hpage : ¬ IsPageQuery x.1) (hbegin : ∀ t, x.1 ≠ .log (.syncingTable t))
    (hread : rowsRead x = 0) (hlogged : rowsLogged x = 0) {p' : Phase}
    (hp' : p' = p ∨ p' = p.sent) : Tallied (l ++ [x]) p' := by
  have hwithin : ∀ t, Within t x.1 :=
    fun t => ⟨hbegin, fun conn t' pk limit offset he => absurd (he ▸ trivial) hpage⟩
  cases p with
  | idle =>
    rcases hp' with rfl | rfl
    · trivial
    · trivial
  | reading t offset total =>
    rcases hp' with rfl | rfl
    · exact Tally.idle h (hwithin t) hread hlogged
    · exact Tally.idle h (hwithin t) hread hlogged
  | sending t offset total count fields rows escapes =>
    obtain ⟨⟨logged, htally, hsum⟩, pageOffset, res, hlast, hrest⟩ := h
    have hnext : Tallied (l ++ [x]) (.sending t offset total count fields rows escapes) :=
      ⟨⟨logged, htally.idle (hwithin t) hread hlogged, hsum⟩, pageOffset, res,
        hlast.concat hpage, hrest⟩
    rcases hp' with rfl | rfl
    · exact hnext
    · exact hnext
  | ended t total =>
    rcases hp' with rfl | rfl
    · exact Tally.idle h (hwithin t) hread hlogged
    · exact Tally.idle h (hwithin t) hread hlogged

/-- Escapes are not counted. -/
private theorem Tallied.escape (h : Tallied l p) (text : String) (escaped : Bool) :
    Tallied l (p.escape text escaped) := by
  cases p <;> exact h

/-- The answer to a page. -/
private theorem tallied_page {t : String} {pk : List String} {limit offset : Int32} {conn : Conn}
    (res : Option PGresult) (h : Tallied l s.phase)
    (hfree : s.Free (.pqexec conn (.selectPage t pk limit offset))) :
    Tallied (l ++ [⟨.pqexec conn (.selectPage t pk limit offset), res⟩])
      (s.pageAnswered t (.selectPage t pk limit offset) offset res).phase := by
  obtain ⟨rfl, -, rfl, -, -, ⟨total, hreading⟩, -⟩ := hfree
  rw [hreading] at h
  have hwithin : Within t (.pqexec .local_ (.selectPage t pk pageSize offset)) := by
    refine ⟨fun t' he => (by cases he), fun conn t' pk' limit' offset' he => ?_⟩
    injection he with _ hquery
    injection hquery with htable
    exact htable.symm
  have hcount := Tally.concat (x := ⟨.pqexec .local_ (.selectPage t pk pageSize offset), res⟩) h
    hwithin
  -- a page that could not be read, or is empty, brings no rows
  have hsame : (PQresultStatus res = .tuplesOk → PQntuples res = 0) →
      Tally (l ++ [⟨.pqexec .local_ (.selectPage t pk pageSize offset), res⟩]) t total total := by
    intro hnone
    apply Tally.idle h hwithin _ rfl
    change (if PQresultStatus res = .tuplesOk then PQntuples res else 0) = 0
    split
    · next hok => exact hnone hok
    · rfl
  rw [Progress.pageAnswered, hreading]
  split
  · next hok =>
    dsimp only
    split
    · next hempty => exact hsame fun _ => hempty
    · have hrows : rowsRead ⟨.pqexec .local_ (.selectPage t pk pageSize offset), res⟩ =
          PQntuples res := if_pos hok
      rw [hrows] at hcount
      refine ⟨⟨total, ?_, rfl⟩, offset, res, ⟨l, pk, [], rfl, fun _ hx => by cases hx⟩, rfl, hok,
        rfl⟩
      rwa [show rowsLogged ⟨.pqexec .local_ (.selectPage t pk pageSize offset), res⟩ = 0 from rfl,
        Int32.add_zero] at hcount
  · next hok => exact hsame fun h => by rw [hok] at h; cases h
  · next hno _ =>
    rcases phase_failed s (.selectPage t pk pageSize offset) (.ended t total) (.selectFailed t)
      with hphase | hphase
    · change Tallied _ (s.failed _ (.ended t total) _).phase
      rw [hphase, hreading]
      exact hsame fun h => absurd h hno
    · change Tallied _ (s.failed _ (.ended t total) _).phase
      rw [hphase]
      exact hsame fun h => absurd h hno

/-- The answer to a call that was not owed. -/
private theorem tallied_answered {e : Call} {r : Call.Reply e} (h : Tallied l s.phase)
    (hfree : s.Free e) : Tallied (l ++ [⟨e, r⟩]) (s.answered e r).phase := by
  cases e with
  | pqescapeLiteral text =>
    have hsame : Tallied (l ++ [⟨.pqescapeLiteral text, r⟩]) s.phase :=
      h.idle id (fun _ h => by cases h) rfl rfl (.inl rfl)
    exact hsame.escape text r
  | sleepFor milliseconds =>
    exact h.idle id (fun _ h => by cases h) rfl rfl (.inl rfl)
  | log line =>
    have hpage : ¬ IsPageQuery (.log line) := id
    cases line
    case syncingTable t => exact ⟨l, r, [], rfl, fun _ hx => (by cases hx), rfl, rfl⟩
    case completedTable => trivial
    case syncedRows rows t offset =>
      -- the rows of the page are logged now, and the next page is read
      obtain ⟨total, fields, hphase⟩ := hfree
      rw [hphase] at h
      obtain ⟨⟨logged, htally, hsum⟩, -⟩ := h
      have hwithin : Within t (.log (.syncedRows rows t offset)) :=
        ⟨fun _ he => (by cases he), fun _ _ _ _ _ he => by cases he⟩
      have hnext := htally.concat (x := ⟨.log (.syncedRows rows t offset), r⟩) hwithin
      have hread : Int32.ofNat (rowsRead ⟨.log (.syncedRows rows t offset), r⟩) = 0 := rfl
      have hlogged : logged + rowsLogged ⟨.log (.syncedRows rows t offset), r⟩ = total := hsum
      rw [hread, Int32.add_zero, hlogged] at hnext
      change Tallied _ s.phase.resume
      rw [hphase]
      exact hnext
    all_goals exact h.idle hpage (fun _ h => by cases h) rfl rfl (.inl rfl)
  | pqexec conn q =>
    -- a query that is none for a page
    have hquiet : ¬ IsPageQuery (.pqexec conn q) → rowsRead ⟨.pqexec conn q, r⟩ = 0 →
        ((s.answered (.pqexec conn q) r).phase = s.phase ∨
          (s.answered (.pqexec conn q) r).phase = s.phase.sent) →
        Tallied (l ++ [⟨.pqexec conn q, r⟩]) (s.answered (.pqexec conn q) r).phase :=
      fun hq hread hphase => h.idle hq (fun _ h => by cases h) hread rfl hphase
    cases q with
    | countConnections => exact hquiet id rfl (.inl rfl)
    | databaseSize => exact hquiet id rfl (.inl rfl)
    | countActiveQueries => exact hquiet id rfl (.inl rfl)
    | selectOne =>
      refine hquiet id rfl (.inl ?_)
      change (if _ then s else _ : Progress).phase = _
      split <;> rfl
    | listTables =>
      refine hquiet id rfl (.inl ?_)
      change (if _ then s else _ : Progress).phase = _
      split <;> rfl
    | primaryKey schema name =>
      refine hquiet id rfl (.inl ?_)
      change (if _ then _ else _ : Progress).phase = _
      split <;> rfl
    | selectPage t pk limit offset => exact tallied_page r h hfree
    | insert t columns values =>
      exact hquiet id rfl (phase_insertAnswered ..)

end Tallied

private theorem tallied_after {s₀ : Progress} (hphase : s₀.phase = .idle) (h₀ : s₀.owed = [])
    {l : List (Event Call Call.Reply)} (h : protocol.Accepts s₀ l) :
    Owing l (protocol.after s₀ l) ∧ Tallied l (protocol.after s₀ l).phase := by
  refine h.invariant (P := fun l s => Owing l s ∧ Tallied l s.phase) (expected s₀ l)
    ⟨.inl h₀, hphase ▸ trivial⟩ fun l s e r hl hmay _ => ⟨owing_next hl.1 hmay, ?_⟩
  cases howed : s.owed with
  | nil =>
    rw [next_of_nil howed]
    exact tallied_answered hl.2 ((may_of_nil howed e).1 hmay)
  | cons debt debts =>
    rw [next_of_cons howed]
    -- a report of a failure, or a wait, has nothing to do with the numbers
    obtain ⟨e₀, r₀, ⟨line, rfl, hline⟩ | ⟨milliseconds, rfl⟩⟩ :=
      hl.1.paid howed ((may_of_cons howed e).1 hmay)
    · refine hl.2.idle id (fun t h => ?_) rfl ?_ (.inl rfl)
      · cases h
        cases hline
      · cases hline <;> rfl
    · exact hl.2.idle id (fun _ h => by cases h) rfl rfl
        (.inl rfl)

/-! ## The numbers are true -/

/-- **The numbers in the log**: the line about a page has the number of its rows and the
    offset of the next page, and the line at the end of a table has the number of rows that
    have been read since its copy began, which is what the lines about its pages add up
    to. -/
theorem totals_of_accepts {s₀ : Progress} (hphase : s₀.phase = .idle) (h₀ : s₀.owed = [])
    {l₁ l₂ : List (Event Call Call.Reply)} {line : LogLine} {u : Call.Reply (.log line)}
    (h : protocol.Accepts s₀ (l₁ ++ ⟨.log line, u⟩ :: l₂)) :
    (∀ n t offset, line = .syncedRows n t offset → ∃ pageOffset page,
      LastPageAt l₁ t pageOffset page ∧ PQresultStatus page = .tuplesOk ∧
        n = Int32.ofNat (PQntuples page) ∧ offset = pageOffset + pageSize) ∧
    ∀ n t, line = .completedTable n t → Tally l₁ t n n := by
  have hmay : protocol.may (protocol.after s₀ l₁) (.log line) := h.may (expected s₀ l₁)
  obtain ⟨howing, htallied⟩ := tallied_after hphase h₀ h.of_append
  -- these lines are no reports of failures, so they were not owed
  have hfree : (∀ e r, ¬ Reported e r line) → (protocol.after s₀ l₁).MayLog line := by
    intro hnot
    cases howed : (protocol.after s₀ l₁).owed with
    | nil => exact (may_of_nil howed _).1 hmay
    | cons debt debts =>
      obtain ⟨e₀, r₀, ⟨line', hline', hreport⟩ | ⟨milliseconds, hwait⟩⟩ :=
        howing.paid howed ((may_of_cons howed _).1 hmay)
      · cases hline'
        exact absurd hreport (hnot e₀ r₀)
      · cases hwait
  constructor
  · rintro n t offset rfl
    obtain ⟨total, fields, hsending⟩ := hfree fun e r h => by cases h
    rw [hsending] at htallied
    obtain ⟨-, pageOffset, page, hlast, hoffset, hok, hcount⟩ := htallied
    exact ⟨pageOffset, page, hlast, hok, hcount, hoffset⟩
  · rintro n t rfl
    have hended : (protocol.after s₀ l₁).phase = .ended t n := hfree fun e r h => by cases h
    rw [hended] at htallied
    exact htallied

end SyncLayer.Protocol
