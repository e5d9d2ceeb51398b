import SyncLayer.Copy.Site

/-!
# What a Clean Log Promises

One call of `start`, part by part, among other instances. Wherever the code goes on after a
failure it writes an error first. So as long as its log has no error (`Fine`), everything the
part was there for has been achieved: a batch has been stored, a page has been read, the
tables and their keys have been found (`spec_start`). The same holds, without a look at the
log, when no attempt can fail.
-/

namespace SyncLayer.Copy

open SyncLayer.Interaction SyncLayer.Model SyncLayer.Database SyncLayer.Chunks
open SyncLayer.PartialMap

variable {C : Catalog} {ι : Type} [DecidableEq ι]
variable {H₀ : HostedDb} {L : LocalDb C.table} {ok : Outcome → Prop} {i : ι}

/-! ## The parts of the code -/

namespace CleanLog

variable {α : Type} {P : Site ι → Prop}

private theorem spec_pure {a : α} {Q : α → Site ι → Prop} (hQ : Lasting i (Q a))
    (h : ∀ w, Grown H₀ L w.hosted → P w → Q a w) : Triple H₀ L ok i P (pure a : Code α) Q :=
  (World.Spec.ret stable_grown hQ.stable).pre h

/-- Code without INSERTs. -/
private theorem spec_of_noInsert {p : Code α} (hp : p.Calls NoInsert) :
    Triple H₀ L ok i P p fun _ _ => True := by
  refine World.Spec.of_calls stable_grown ?_ hp
  intro w e r w' he hw hs
  cases e with
  | pqexec conn query =>
    obtain ⟨-, outcome, -, hr⟩ := hs
    rcases respond_cases hr with ⟨-, hsame⟩ | ⟨res, hserve, -⟩
    · rwa [hsame]
    · rcases serve_cases hserve with hsame | ⟨t, columns, values, rfl, -⟩
      · rwa [hsame]
      · exact absurd rfl (he conn t columns values)
  | pqescapeLiteral text =>
    obtain ⟨-, rfl⟩ := hs
    exact hw
  | sleepFor milliseconds =>
    obtain rfl : w' = w := hs
    exact hw
  | log line =>
    obtain rfl : w' = { w with log := Function.update w.log i (w.log i ++ [line]) } := hs
    exact hw

/-- A line of the log; an error leaves it not clean. -/
private theorem spec_log (line : LogLine) (hP : Lasting i P) :
    Triple H₀ L ok i P (log line) fun _ w => P w ∧ (line.level = .err → ¬ Clean (w.log i)) := by
  have hpost : Lasting i fun w => P w ∧ (line.level = .err → ¬ Clean (w.log i)) :=
    fun w w' hl h => ⟨hP w w' hl h.1, fun herr => lasting_notClean w w' hl (h.2 herr)⟩
  refine World.Spec.perform stable_grown hP.stable (fun _ => hpost.stable) ?_
  intro w u w' hw hP' hs
  have hstep : serverStep L ok i w (.log line) u w' := hs
  have hlater : Later i w w' := later_serverStep hstep
  obtain rfl : w' = { w with log := Function.update w.log i (w.log i ++ [line]) } := hs
  refine ⟨hw, hP _ _ hlater hP', fun herr hclean => ?_⟩
  have hmem : line ∈ Function.update w.log i (w.log i ++ [line]) i := by simp
  exact hclean line hmem herr

private theorem spec_note (line : LogLine) (hP : Lasting i P) :
    Triple H₀ L ok i P (log line) fun _ => P :=
  (spec_log line hP).conseq (fun _ _ h => h) fun _ _ _ h => h.1

/-- An error after a failed attempt: nothing is fine any more. -/
private theorem spec_error (line : LogLine) (hline : line.level = .err) (hlost : ¬ Sure ok) :
    Triple H₀ L ok i (fun _ => True) (log line) fun _ w => ¬ Fine ok i w := by
  refine (spec_log line (lasting_const True)).conseq (fun _ _ h => h) fun _ w _ h hfine => ?_
  exact hfine.elim hlost (h.2 hline)

private theorem spec_sleepFor (milliseconds : Int64) (hP : Lasting i P) :
    Triple H₀ L ok i P (sleepFor milliseconds) fun _ => P := by
  refine World.Spec.perform stable_grown hP.stable (fun _ => hP.stable) ?_
  intro w u w' hw hP hs
  obtain rfl : w' = w := hs
  exact ⟨hw, hP⟩

/-- One attempt at a statement that the server executes: the answer comes, or a failure
    instead of it, which then is among the outcomes. -/
private theorem step_of_serve {conn : Conn} {query : Stmt} {res : PGresult} {H' : HostedDb}
    {w w' : Site ι} {r : Option PGresult}
    (hserve : serve C L w.hosted conn query = some (res, H'))
    (hs : serverStep L ok i w (.pqexec conn query) r w') :
    (r = some res ∧ w'.hosted = H') ∨
      (r = some failureResult ∧ ¬ Sure ok ∧ (w'.hosted = w.hosted ∨ w'.hosted = H')) := by
  obtain ⟨-, outcome, hok, hr⟩ := hs
  cases outcome with
  | acked =>
    simp only [respond, hserve] at hr
    obtain ⟨rfl, rfl⟩ := Prod.mk.inj hr
    exact .inl ⟨rfl, rfl⟩
  | lost =>
    obtain ⟨rfl, hhosted⟩ := Prod.mk.inj hr
    exact .inr ⟨rfl, fun hsure => (by cases hsure _ hok), .inl hhosted.symm⟩
  | unacked =>
    simp only [respond, hserve] at hr
    obtain ⟨rfl, hhosted⟩ := Prod.mk.inj hr
    exact .inr ⟨rfl, fun hsure => (by cases hsure _ hok), .inr hhosted.symm⟩

/-- A result that ends the attempts. -/
abbrev Succeeded (res : Option PGresult) : Prop :=
  PQresultStatus res = .commandOk ∨ PQresultStatus res = .tuplesOk

/-- A retried statement. `F` is what a failed attempt tells. -/
private theorem spec_executeWithRetry {conn : Conn} {query : Stmt}
    {Q : PGresult → Site ι → Prop} {F : Prop} (hQ : ∀ res, Lasting i (Q res))
    (hcall : ∀ w r w', Grown H₀ L w.hosted → serverStep L ok i w (.pqexec conn query) r w' →
      Grown H₀ L w'.hosted ∧ (∀ res, r = some res → Succeeded r → Q res w') ∧
        (¬ Succeeded r → F)) :
    Triple H₀ L ok i (fun _ => True) (executeWithRetry conn query)
      fun res w => (∀ r, res = some r → Q r w) ∧ (res = none → F) := by
  have hpost : ∀ res : Option PGresult, Lasting i
      fun w => (∀ r, res = some r → Q r w) ∧ (res = none → F) :=
    fun res w w' hl h => ⟨fun r hr => hQ r w w' hl (h.1 r hr), h.2⟩
  have hattempt : ∀ a, Triple H₀ L ok i (fun _ => True) (attemptQuery conn query a none)
      fun x w => (x.1 = true → ∀ r, x.2 = some r → Q r w) ∧
        (x.1 = true → x.2 = none → F) ∧ (x.1 = false → x.2 = none ∧ F) := by
    intro a
    refine World.Spec.bind (Q := fun (r : Option PGresult) w =>
      (∀ res, r = some res → Succeeded r → Q res w) ∧ (¬ Succeeded r → F)) ?_ fun r => ?_
    · refine World.Spec.perform stable_grown (World.stable_const _) (fun r => ?_) ?_
      · apply Lasting.stable
        exact fun w w' hl h => ⟨fun res hres hok => hQ res w w' hl (h.1 res hres hok), h.2⟩
      · intro w r w' hw _ hs
        exact hcall w r w' hw hs
    · split
      · rename_i hok
        refine spec_pure (fun w w' hl h => ?_) fun w _ h => ?_
        · exact ⟨fun ht res hres => hQ res w w' hl (h.1 ht res hres), h.2⟩
        · refine ⟨fun _ res hres => h.1 res hres hok, fun _ hnone => ?_, fun h => by cases h⟩
          -- a null result is no success
          obtain rfl : r = none := hnone
          exact absurd hok (by decide)
      · rename_i hok
        refine World.Spec.bind (Q := fun _ _ => F) ?_ fun _ => ?_
        · exact (spec_note _ (lasting_const F)).pre fun w _ h => h.2 hok
        · refine spec_pure (fun w w' hl h => ?_) fun w _ hF => ?_
          · exact ⟨fun h => (by cases h), h.2.1, h.2.2⟩
          · exact ⟨fun h => (by cases h), fun h => (by cases h), fun _ => ⟨rfl, hF⟩⟩
  -- before the first attempt nothing is known, afterwards `F`
  have hloop : ∀ n a delay, Triple H₀ L ok i (fun _ => n = 0 → F)
      (backoffLoop (attemptQuery conn query) n a delay none)
      fun res w => (∀ r, res = some r → Q r w) ∧ (res = none → F) := by
    intro n
    induction n with
    | zero =>
      intro a delay
      exact spec_pure (hpost none) fun w _ hF => ⟨fun r hr => (by cases hr), fun _ => hF rfl⟩
    | succ n ih =>
      intro a delay
      refine World.Spec.bind ((hattempt (a + 1)).pre fun _ _ _ => trivial) fun x => ?_
      obtain ⟨success, res⟩ := x
      cases success with
      | true =>
        exact spec_pure (hpost res) fun w _ h => ⟨h.1 rfl, h.2.1 rfl⟩
      | false =>
        refine (World.Spec.of_fact (c := res = none ∧ F) ?_).pre fun w _ h => h.2.2 rfl
        rintro ⟨rfl, hF⟩
        refine World.Spec.bind (spec_sleepFor _ (lasting_const True)) fun _ => ?_
        exact (ih _ _).pre fun _ _ _ _ => hF
  exact (hloop 3 0 100).pre fun _ _ _ h => by cases h

/-! ## Batches -/

variable {t : String} {rows : List Row}

/-- What becomes of one attempt at an INSERT of local rows. -/
private theorem insert_step (hpk : (C.table t).primaryKey ≠ [])
    (hrows : ∀ r ∈ rows, r ∈ (L t).rows) {w w' : Site ι} {r : Option PGresult}
    (hw : Grown H₀ L w.hosted)
    (hs : serverStep L ok i w (.pqexec .hosted_ (batchInsert C t rows)) r w') :
    Grown H₀ L w'.hosted ∧
      (∀ res, r = some res → Succeeded r → Taken (C := C) t rows w'.hosted) ∧
      (¬ Succeeded r → ¬ Sure ok) := by
  have hserve : serve C L w.hosted .hosted_ (batchInsert C t rows) =
      some (commandResult, insertRows (C.table t) t rows w.hosted) :=
    (serves_insert t fun r hr => (L t).width r (hrows r hr)).serve_eq w.hosted
  have hgrown : Grown H₀ L (insertRows (C.table t) t rows w.hosted) :=
    grown_insertRows hw hpk hrows
  have htaken : Taken (C := C) t rows (insertRows (C.table t) t rows w.hosted) := by
    intro r hr
    rw [insertRows_same]
    exact isSome_insertAll_of_mem hr
  obtain ⟨rfl, hhosted⟩ | ⟨rfl, hlost, hhosted⟩ := step_of_serve hserve hs
  · rw [hhosted]
    exact ⟨hgrown, fun _ _ _ => htaken, fun h => absurd (.inl rfl) h⟩
  · refine ⟨?_, fun _ _ h => absurd h (by decide), fun _ => hlost⟩
    -- it may have been executed all the same
    rcases hhosted with hhosted | hhosted
    · rw [hhosted]
      exact hw
    · rw [hhosted]
      exact hgrown

/-- Encoding gives the rows as an INSERT carries them. -/
private theorem spec_encode (rows : List Row) :
    Triple H₀ L ok i (fun _ => True) (rows.mapM encodeRow)
      fun inserts _ => inserts = encoded rows := by
  have hmapM : ∀ {α β : Type} (f : α → Code β) (g : α → β)
      (_ : ∀ a, Triple H₀ L ok i (fun _ => True) (f a) fun b _ => b = g a) (l : List α),
      Triple H₀ L ok i (fun _ => True) (l.mapM f) fun bs _ => bs = l.map g := by
    intro α β f g hf l
    induction l with
    | nil => exact spec_pure (lasting_const _) fun _ _ _ => rfl
    | cons a l ih =>
      rw [List.mapM_cons]
      refine World.Spec.bind (hf a) fun b => World.Spec.of_fact ?_
      rintro rfl
      refine World.Spec.bind ih fun bs => World.Spec.of_fact ?_
      rintro rfl
      exact spec_pure (lasting_const _) fun _ _ _ => rfl
  have hcell : ∀ c : Cell, Triple H₀ L ok i (fun _ => True) (encodeCell c)
      fun v _ => v = SqlValue.ofCell c := by
    intro c
    cases c with
    | none => exact spec_pure (lasting_const _) fun _ _ _ => rfl
    | some val =>
      refine World.Spec.bind (Q := fun escaped _ => escaped = true) ?_ fun escaped => ?_
      · refine World.Spec.perform stable_grown (World.stable_const _)
          (fun _ => World.stable_const _) ?_
        rintro w r w' hw - ⟨rfl, rfl⟩
        exact ⟨hw, rfl⟩
      · apply World.Spec.of_fact
        rintro rfl
        exact spec_pure (lasting_const _) fun _ _ _ => rfl
  exact hmapM encodeRow _ (fun r => hmapM encodeCell _ hcell r) rows

/-- As long as all is fine, the keys of a batch are taken after it. -/
private theorem spec_sendChunk (hpk : (C.table t).primaryKey ≠ [])
    (hrows : ∀ r ∈ rows, r ∈ (L t).rows) :
    Triple H₀ L ok i (fun _ => True) (sendChunk t (C.table t).columns rows)
      fun _ w => Fine ok i w → Taken (C := C) t rows w.hosted := by
  refine World.Spec.bind (spec_encode rows) fun inserts => World.Spec.of_fact ?_
  rintro rfl
  refine World.Spec.bind (spec_executeWithRetry (Q := fun _ w => Taken (C := C) t rows w.hosted)
    (F := ¬ Sure ok) (fun _ => lasting_taken t rows) fun w r w' => insert_step hpk hrows)
    fun res => ?_
  have hpost : Lasting i fun w => Fine ok i w → Taken (C := C) t rows w.hosted :=
    (lasting_taken t rows).of_fine
  cases res with
  | none =>
    rw [if_pos (by decide)]
    refine (World.Spec.of_fact fun hlost => spec_error (.insertFailed t) rfl hlost).conseq
      (fun _ _ h => h.2 rfl) fun _ _ _ h hfine => absurd hfine h
  | some res =>
    have htaken : ∀ w : Site ι, Grown H₀ L w.hosted →
        (∀ r, some res = some r → Taken (C := C) t rows w.hosted) ∧
          (some res = none → ¬ Sure ok) → Fine ok i w → Taken (C := C) t rows w.hosted :=
      fun w _ h _ => h.1 res rfl
    split
    · exact (spec_note _ hpost).pre htaken
    · exact spec_pure hpost htaken

/-- So are the keys of all batches of a loop. -/
private theorem spec_sendChunks (hpk : (C.table t).primaryKey ≠ []) (batches : List (List Row))
    (hrows : ∀ rows ∈ batches, ∀ r ∈ rows, r ∈ (L t).rows) :
    Triple H₀ L ok i (fun _ => True) (forM batches (sendChunk t (C.table t).columns))
      fun _ w => Fine ok i w → Taken (C := C) t batches.flatten w.hosted := by
  induction batches with
  | nil =>
    refine spec_pure (lasting_taken t _).of_fine fun w _ _ _ => ?_
    exact fun r hr => by cases hr
  | cons rows batches ih =>
    rw [List.forM_cons]
    refine World.Spec.bind (spec_sendChunk hpk (hrows rows (List.mem_cons_self ..))) fun _ => ?_
    -- the batches to come do not undo this one
    have hfirst : Lasting i fun w => Fine ok i w → Taken (C := C) t rows w.hosted :=
      (lasting_taken t rows).of_fine
    have hrest := frame_lasting hfirst
      (ih fun rows hmem => hrows rows (List.mem_cons_of_mem _ hmem))
    refine hrest.conseq (fun _ _ h => ⟨trivial, h⟩) fun _ w _ h hfine r hr => ?_
    rw [List.flatten_cons, List.mem_append] at hr
    rcases hr with hr | hr
    · exact h.2 hfine r hr
    · exact h.1 hfine r hr

/-! ## Pages -/

/-- A page that could be read is the slice of the table, and its OFFSET is in range; a page
    of the right order with an OFFSET in range can be read when no attempt can fail. -/
private theorem spec_readPage (t : String) (pk : List String) (offset : Int32) :
    Triple H₀ L ok i (fun _ => True)
      (executeWithRetry .local_ (.selectPage t pk pageSize offset))
      fun res _ => (∀ r, res = some r → pk = (C.table t).primaryKey ∧ 0 ≤ offset.toInt ∧
          r = tuplesResult (C.table t).columns
            (((L t).rows.drop offset.toInt.toNat).take 1000)) ∧
        (res = none → pk = (C.table t).primaryKey ∧ 0 ≤ offset.toInt → ¬ Sure ok) := by
  have hlimit : pageSize.toInt.toNat = 1000 := by decide
  refine spec_executeWithRetry (fun _ => lasting_const _) fun w r w' hw hs => ?_
  by_cases hcond : 0 ≤ offset.toInt ∧ pk = (C.table t).primaryKey
  · have hserve : serve C L w.hosted .local_ (.selectPage t pk pageSize offset) =
        some (tuplesResult (C.table t).columns
          (((L t).rows.drop offset.toInt.toNat).take 1000), w.hosted) := by
      rw [serve, if_pos hcond, hlimit]
    obtain ⟨rfl, hhosted⟩ | ⟨rfl, hlost, hhosted⟩ := step_of_serve hserve hs
    · rw [hhosted]
      refine ⟨hw, fun res hres _ => ?_, fun h => absurd (.inr rfl) h⟩
      exact ⟨hcond.2, hcond.1, (Option.some.inj hres).symm⟩
    · rw [hhosted.elim id id]
      exact ⟨hw, fun _ _ h => absurd h (by decide), fun _ _ => hlost⟩
  · -- the server rejects the statement
    obtain ⟨-, outcome, -, hr⟩ := hs
    have hserve : serve C L w.hosted .local_ (.selectPage t pk pageSize offset) = none := by
      rw [serve, if_neg hcond]
    rw [respond_of_serve_none hserve] at hr
    obtain ⟨rfl, hhosted⟩ := Prod.mk.inj hr
    rw [← hhosted]
    exact ⟨hw, fun _ _ h => absurd h (by decide), fun _ h => absurd ⟨h.2, h.1⟩ hcond⟩

/-- What can be said of a table with the right key columns while all is fine for it. -/
private def WhenFine (L : LocalDb C.table) (ok : Outcome → Prop) (i : ι) (t : String)
    (pk : List String) (K : Site ι → Prop) (w : Site ι) : Prop :=
  FineFor L ok i t w → pk = (C.table t).primaryKey → K w

/-- The rows before the page at `offset` are taken. -/
private def Reached (L : LocalDb C.table) (ok : Outcome → Prop) (i : ι) (t : String)
    (pk : List String) (offset : Int32) : Site ι → Prop :=
  WhenFine L ok i t pk fun w => ∃ p ≤ maxPages, offset = Int32.ofNat (1000 * p) ∧
    1000 * p < (L t).rows.length + 1000 ∧
      Taken (C := C) t ((L t).rows.take (1000 * p)) w.hosted

/-- All rows of the table are taken. -/
private def Complete (L : LocalDb C.table) (ok : Outcome → Prop) (i : ι) (t : String)
    (pk : List String) : Site ι → Prop :=
  WhenFine L ok i t pk fun w => Taken (C := C) t (L t).rows w.hosted

omit [DecidableEq ι] in
private theorem lasting_whenFine {pk : List String} {K : Site ι → Prop} (hK : Lasting i K) :
    Lasting i (WhenFine L ok i t pk K) :=
  fun w w' hl h hfine hkey => hK w w' hl (h (hfine.earlier hl) hkey)

omit [DecidableEq ι] in
private theorem lasting_reached (t : String) (pk : List String) (offset : Int32) :
    Lasting i (Reached L ok i t pk offset) := by
  apply lasting_whenFine
  rintro w w' hl ⟨p, hp, hoffset, hlen, htaken⟩
  exact ⟨p, hp, hoffset, hlen, htaken.mono (hl.1 t)⟩

omit [DecidableEq ι] in
private theorem lasting_complete (t : String) (pk : List String) :
    Lasting i (Complete L ok i t pk) :=
  lasting_whenFine (lasting_taken t _)

/-- The page counter stays in range as long as the table is not too long. -/
private theorem lt_maxPages {n p : Nat} (hn : n ≤ maxRows) (hp : 1000 * p < n + 1000) :
    p < maxPages := by
  unfold maxRows at hn
  unfold maxPages
  omega

/-- The last page counter is out of range. -/
private theorem lt_maxPages_of_offset {p : Nat} (hp : p ≤ maxPages)
    (hoffset : 0 ≤ (Int32.ofNat (1000 * p)).toInt) : p < maxPages := by
  apply Nat.lt_of_le_of_ne hp
  rintro rfl
  exact absurd hoffset (by decide)

/-- The page loop. The induction is on the page budget; `Reached` is the invariant. -/
private theorem spec_pageLoop {pk : List String} (hpk : pk ≠ []) (fuel : Nat)
    (offset totalRows : Int32) :
    Triple H₀ L ok i (Reached L ok i t pk offset) (pageLoop t pk fuel offset totalRows)
      fun _ => Complete L ok i t pk := by
  induction fuel generalizing offset totalRows with
  | zero => exact World.Spec.cut stable_grown
  | succ fuel ih =>
    refine World.Spec.bind ((frame_lasting (lasting_reached t pk offset)
      (spec_readPage t pk offset)).pre fun _ _ h => ⟨trivial, h⟩) fun res => ?_
    refine World.Spec.of_fact_and ?_
    rintro ⟨hpage, hlost⟩
    cases res with
    | none =>
      rw [if_pos (by decide)]
      -- the error is written, so attempts can fail, and the page was out of range
      have hcomplete : ∀ w, Reached L ok i t pk offset w ∧
          (LogLine.level (.selectFailed t) = .err → ¬ Clean (w.log i)) →
          Complete L ok i t pk w := by
        rintro w ⟨hreached, herr⟩ hfine hkey
        obtain ⟨hsure, hlen⟩ := hfine.resolve_left (herr rfl)
        obtain ⟨p, -, rfl, hp, -⟩ := hreached hfine hkey
        refine absurd hsure (hlost rfl ⟨hkey, ?_⟩)
        rw [toInt_offset (lt_maxPages hlen hp)]
        exact Int.natCast_nonneg _
      refine World.Spec.bind ((spec_log (.selectFailed t) (lasting_reached t pk offset)).conseq
        (fun _ _ h => h) fun _ w _ h => hcomplete w h) fun _ => ?_
      exact spec_pure (lasting_complete t pk) fun _ _ h => h
    | some res =>
      obtain ⟨hkey, hrange, rfl⟩ := hpage res rfl
      rw [if_neg (by simp [PQresultStatus, tuplesResult])]
      dsimp only
      generalize hrows : ((L t).rows.drop offset.toInt.toNat).take 1000 = rows
      have hcount : PQntuples (some (tuplesResult (C.table t).columns rows)) = rows.length := rfl
      rw [hcount]
      by_cases hempty : rows.length = 0
      · -- the table is at its end
        rw [if_pos hempty]
        refine spec_pure (lasting_complete t pk) fun w _ h hfine hkey => ?_
        obtain ⟨p, hle, rfl, hp, htaken⟩ := h hfine hkey
        rw [toInt_offset (lt_maxPages_of_offset hle hrange), Int.toNat_natCast] at hrows
        rw [← hrows, List.length_take, List.length_drop] at hempty
        rwa [List.take_of_length_le (by omega)] at htaken
      · rw [if_neg hempty]
        have hmem : ∀ chunk ∈ chunks batchSize rows, ∀ r ∈ chunk, r ∈ (L t).rows := by
          intro chunk hchunk r hr
          have hflat : r ∈ (chunks batchSize rows).flatten :=
            List.mem_flatten.2 ⟨chunk, hchunk, hr⟩
          rw [flatten_chunks (by decide), ← hrows] at hflat
          exact List.mem_of_mem_drop (List.mem_of_mem_take hflat)
        have hloop : Triple H₀ L ok i (fun _ => True) (rowLoop t (C.table t).columns rows [])
            fun _ w => Fine ok i w → Taken (C := C) t rows w.hosted := by
          rw [rowLoop_eq_sendChunks]
          refine (spec_sendChunks (hkey ▸ hpk) _ hmem).conseq (fun _ _ h => h) ?_
          intro _ w _ h
          rwa [flatten_chunks (by decide)] at h
        refine World.Spec.bind ((frame_lasting (lasting_reached t pk offset) hloop).pre
          fun _ _ h => ⟨trivial, h⟩) fun _ => ?_
        -- the rows of this page are taken, so the next page is reached
        have hnext : ∀ w : Site ι, (Fine ok i w → Taken (C := C) t rows w.hosted) ∧
            Reached L ok i t pk offset w → Reached L ok i t pk (offset + pageSize) w := by
          rintro w ⟨hsent, hreached⟩ hfine hkey
          obtain ⟨p, hle, rfl, hp, htaken⟩ := hreached hfine hkey
          have hlt := lt_maxPages_of_offset hle hrange
          rw [toInt_offset hlt, Int.toNat_natCast] at hrows
          refine ⟨p + 1, hlt, ?_, ?_, ?_⟩
          · rw [Nat.mul_succ, Int32.ofNat_add]
            rfl
          · rw [← hrows, List.length_take, List.length_drop] at hempty
            omega
          · intro r hr
            rw [Nat.mul_succ, List.take_add, hrows, List.mem_append] at hr
            exact hr.elim (htaken r) (hsent hfine.fine r)
        refine World.Spec.bind ((spec_note _ (lasting_reached t pk _)).pre
          fun w _ h => hnext w h) fun _ => ?_
        exact ih _ _

/-! ## The copy -/

private theorem spec_syncTable (fuel : Nat) (tracker : TableTracker) (t : String) :
    Triple H₀ L ok i (fun _ => True) (syncTable fuel tracker t)
      fun _ w => tracker.getPrimaryKeys t ≠ [] →
        Complete L ok i t (tracker.getPrimaryKeys t) w := by
  have hpost : Lasting i fun w => tracker.getPrimaryKeys t ≠ [] →
      Complete L ok i t (tracker.getPrimaryKeys t) w :=
    fun w w' hl h hne => lasting_complete t _ w w' hl (h hne)
  rw [syncTable]
  by_cases hpk : tracker.getPrimaryKeys t = []
  · rw [hpk]
    refine (spec_note (.skippingTable t) (lasting_const True)).conseq (fun _ _ h => h) ?_
    exact fun _ _ _ _ hne => absurd rfl hne
  · have hne : (tracker.getPrimaryKeys t).isEmpty = false := by
      rw [← Bool.not_eq_true, List.isEmpty_iff]
      exact hpk
    rw [hne]
    refine World.Spec.bind (spec_note _ (lasting_const True)) fun _ => ?_
    -- before the first page nothing has to be taken
    have hbegin : ∀ w : Site ι, Reached L ok i t (tracker.getPrimaryKeys t) 0 w := by
      intro w _ _
      refine ⟨0, Nat.zero_le _, rfl, by omega, fun r hr => ?_⟩
      rw [Nat.mul_zero, List.take_zero] at hr
      cases hr
    refine World.Spec.bind ((spec_pageLoop hpk fuel 0 0).pre fun w _ _ => hbegin w)
      fun totalRows => ?_
    exact (spec_note _ hpost).pre fun _ _ h _ => h

/-- The tables with key columns are complete. -/
private def AllComplete (L : LocalDb C.table) (ok : Outcome → Prop) (i : ι)
    (tracker : TableTracker) (ts : List String) (w : Site ι) : Prop :=
  ∀ t ∈ ts, tracker.getPrimaryKeys t ≠ [] → Complete L ok i t (tracker.getPrimaryKeys t) w

omit [DecidableEq ι] in
private theorem lasting_allComplete (tracker : TableTracker) (ts : List String) :
    Lasting i (AllComplete L ok i tracker ts) :=
  fun w w' hl h t ht hne => lasting_complete t _ w w' hl (h t ht hne)

/-- The tables of a list are complete after the loop over it. -/
private theorem spec_tables (fuel : Nat) (tracker : TableTracker) (ts : List String) :
    Triple H₀ L ok i (fun _ => True) (forM ts (syncTable fuel tracker))
      fun _ => AllComplete L ok i tracker ts := by
  induction ts with
  | nil => exact spec_pure (lasting_allComplete tracker []) fun _ _ _ t ht => by cases ht
  | cons t ts ih =>
    rw [List.forM_cons]
    refine World.Spec.bind (spec_syncTable fuel tracker t) fun _ => ?_
    have hfirst : Lasting i fun w => tracker.getPrimaryKeys t ≠ [] →
        Complete L ok i t (tracker.getPrimaryKeys t) w :=
      fun w w' hl h hne => lasting_complete t _ w w' hl (h hne)
    refine (frame_lasting hfirst ih).conseq (fun _ _ h => ⟨trivial, h⟩) fun _ w _ h t' ht' => ?_
    rcases List.mem_cons.1 ht' with rfl | ht'
    · exact h.2
    · exact h.1 t' ht'

private theorem spec_initialSync (fuel : Nat) (tracker : TableTracker) :
    Triple H₀ L ok i (fun _ => True) (initialSync fuel tracker)
      fun _ => AllComplete L ok i tracker tracker.trackedTables := by
  refine World.Spec.bind (spec_note _ (lasting_const True)) fun _ => ?_
  refine World.Spec.bind (spec_tables fuel tracker tracker.trackedTables) fun _ => ?_
  exact spec_note _ (lasting_allComplete tracker _)

/-! ## Health check and discovery -/

/-- A query other than an INSERT leaves the hosted database as it is, and gets its answer,
    or a failure. -/
private theorem spec_PQexec {conn : Conn} {query : Stmt} {res : PGresult}
    (hserve : ∀ H, serve C L H conn query = some (res, H)) :
    Triple H₀ L ok i (fun _ => True) (PQexec conn query)
      fun r _ => r = some res ∨ (r = some failureResult ∧ ¬ Sure ok) := by
  refine World.Spec.perform stable_grown (World.stable_const _) (fun _ => World.stable_const _) ?_
  intro w r w' hw _ hs
  have hstep : serverStep L ok i w (.pqexec conn query) r w' := hs
  obtain ⟨rfl, hhosted⟩ | ⟨rfl, hlost, hhosted⟩ := step_of_serve (hserve w.hosted) hstep
  · rw [hhosted]
    exact ⟨hw, .inl rfl⟩
  · rw [hhosted.elim id id]
    exact ⟨hw, .inr ⟨rfl, hlost⟩⟩

private theorem spec_queryMetric (conn : Conn) {query : Stmt}
    (hquery : query ∈ [.countConnections, .databaseSize, .countActiveQueries]) :
    Triple H₀ L ok i (fun _ => True) (queryMetric conn query) fun _ _ => True := by
  apply spec_of_noInsert
  refine (calls_PQexec_bind ..).2 ⟨?_, fun res => ?_⟩
  · rintro conn' t columns values heq
    injection heq with _ hinsert
    rw [hinsert] at hquery
    simp at hquery
  · split <;> trivial

/-- As long as all is fine, both databases are healthy. -/
private theorem spec_checkConnection (conn : Conn) :
    Triple H₀ L ok i (fun _ => True) (checkConnection conn)
      fun x w => Fine ok i w → x.1 = true := by
  have hserve : ∀ H, serve C L H conn .selectOne =
      some (tuplesResult ["?column?"] [[some "1"]], H) := by
    intro H
    cases conn <;> rfl
  refine World.Spec.bind (spec_PQexec hserve) fun res => World.Spec.of_fact ?_
  intro hres
  split
  · refine World.Spec.bind (spec_queryMetric conn (by simp)) fun _ => ?_
    refine World.Spec.bind (spec_queryMetric conn (by simp)) fun _ => ?_
    refine World.Spec.bind (spec_queryMetric conn (by simp)) fun _ => ?_
    exact spec_pure (lasting_const _).of_fine fun _ _ _ _ => rfl
  · rename_i hstatus
    have hlost : ¬ Sure ok := by
      rcases hres with rfl | ⟨-, hlost⟩
      · exact absurd rfl hstatus
      · exact hlost
    refine World.Spec.bind (spec_error (.healthCheckFailed conn) rfl hlost) fun _ => ?_
    exact spec_pure (lasting_const _).of_fine fun _ _ h hfine => absurd hfine h

private theorem spec_healthCheck :
    Triple H₀ L ok i (fun _ => True) healthCheck
      fun health w => Fine ok i w → health.overall = true := by
  refine World.Spec.bind (spec_note _ (lasting_const True)) fun _ => ?_
  refine World.Spec.bind (spec_checkConnection .local_) fun onLocal => ?_
  have hlocal : Lasting i fun w => Fine ok i w → onLocal.1 = true := (lasting_const _).of_fine
  refine World.Spec.bind ((frame_lasting hlocal (spec_checkConnection .hosted_)).pre
    fun _ _ h => ⟨trivial, h⟩) fun onHosted => ?_
  have hoverall : Lasting i fun w => Fine ok i w → (onLocal.1 && onHosted.1) = true :=
    (lasting_const _).of_fine
  have hboth : ∀ w : Site ι, Grown H₀ L w.hosted →
      (Fine ok i w → onHosted.1 = true) ∧ (Fine ok i w → onLocal.1 = true) →
      Fine ok i w → (onLocal.1 && onHosted.1) = true := by
    intro w _ h hfine
    rw [h.1 hfine, h.2 hfine]
    rfl
  dsimp only
  split
  · refine World.Spec.bind ((spec_note _ hoverall).pre hboth) fun _ => ?_
    exact spec_pure hoverall fun _ _ h => h
  · refine World.Spec.bind ((spec_note _ hoverall).pre hboth) fun _ => ?_
    exact spec_pure hoverall fun _ _ h => h

private theorem spec_listTables (config : Config) :
    Triple H₀ L ok i (fun _ => True) (TableTracker.listTables config)
      fun tables w => Fine ok i w → tables = C.tablesToTrack config := by
  rw [TableTracker.listTables, Catalog.tablesToTrack]
  split
  · have hserve : ∀ H, serve C L H .local_ .listTables =
        some (tuplesResult ["table_name"] (C.publicTables.map fun n => [some n]), H) :=
      fun _ => rfl
    refine World.Spec.bind (spec_PQexec hserve) fun res => World.Spec.of_fact ?_
    have hok : PQresultStatus (some (tuplesResult ["table_name"]
        (C.publicTables.map fun n => [some n]))) = .tuplesOk := rfl
    rintro (rfl | ⟨rfl, hlost⟩)
    · rw [if_pos hok]
      refine spec_pure (lasting_const _).of_fine fun _ _ _ _ => ?_
      rw [firstColumn_texts]
    · rw [if_neg (by decide)]
      refine World.Spec.bind (spec_error .discoveryFailed rfl hlost) fun _ => ?_
      exact spec_pure (lasting_const _).of_fine fun _ _ h hfine => absurd hfine h
  · exact spec_pure (lasting_const _).of_fine fun _ _ _ _ => rfl

private theorem spec_lookupPrimaryKey (keys : String → Option (List String)) (t : String) :
    Triple H₀ L ok i (fun _ => True) (TableTracker.lookupPrimaryKey keys t)
      fun keys' w => Fine ok i w → keys' = Function.update keys t (some (C.foundKey t)) := by
  have hserve : ∀ H, serve C L H .local_ (keyQuery t) =
      some (tuplesResult ["column_name"] ((C.foundKey t).map fun c => [some c]), H) :=
    fun _ => rfl
  refine World.Spec.bind (spec_PQexec hserve) fun res => World.Spec.of_fact ?_
  have hok : PQresultStatus (some (tuplesResult ["column_name"]
      ((C.foundKey t).map fun c => [some c]))) = .tuplesOk := rfl
  rintro (rfl | ⟨rfl, hlost⟩)
  · rw [if_pos hok, firstColumn_texts]
    dsimp only
    split
    · refine World.Spec.bind (spec_note _ (lasting_const True)) fun _ => ?_
      exact spec_pure (lasting_const _).of_fine fun _ _ _ _ => rfl
    · exact spec_pure (lasting_const _).of_fine fun _ _ _ _ => rfl
  · rw [if_neg (by decide)]
    refine World.Spec.bind (spec_error (.primaryKeyFailed t) rfl hlost) fun _ => ?_
    exact spec_pure (lasting_const _).of_fine fun _ _ h hfine => absurd hfine h

/-- The keys that the lookups of a list leave. -/
private def keysAfter (C : Catalog) (keys : String → Option (List String)) (ts : List String) :
    String → Option (List String) :=
  ts.foldl (fun keys t => Function.update keys t (some (C.foundKey t))) keys

private theorem keysAfter_of_mem {keys : String → Option (List String)} {ts : List String}
    {t : String} (h : t ∈ ts ∨ keys t = some (C.foundKey t)) :
    keysAfter C keys ts t = some (C.foundKey t) := by
  induction ts generalizing keys with
  | nil => exact h.resolve_left (by simp)
  | cons t' ts ih =>
    apply ih
    by_cases ht : t = t'
    · subst ht
      exact .inr (Function.update_self ..)
    · rcases h with h | h
      · exact .inl ((List.mem_cons.1 h).resolve_left ht)
      · exact .inr ((Function.update_of_ne ht ..).trans h)

private theorem spec_lookupPrimaryKeys (ts : List String)
    (keys : String → Option (List String)) :
    Triple H₀ L ok i (fun _ => True) (TableTracker.lookupPrimaryKeys keys ts)
      fun keys' w => Fine ok i w → keys' = keysAfter C keys ts := by
  induction ts generalizing keys with
  | nil => exact spec_pure (lasting_const _).of_fine fun _ _ _ _ => rfl
  | cons t ts ih =>
    refine World.Spec.bind (spec_lookupPrimaryKey keys t) fun keys' => ?_
    have hfirst : Lasting i fun w => Fine ok i w →
        keys' = Function.update keys t (some (C.foundKey t)) := (lasting_const _).of_fine
    refine (frame_lasting hfirst (ih keys')).conseq (fun _ _ h => ⟨trivial, h⟩) ?_
    intro keys'' w _ h hfine
    rw [h.1 hfine, h.2 hfine]
    rfl

/-- The tracker has the tables to track and their keys. -/
private def Discovered (C : Catalog) (config : Config) (tracker : TableTracker) : Prop :=
  tracker.trackedTables = C.tablesToTrack config ∧
    ∀ t ∈ C.tablesToTrack config, tracker.getPrimaryKeys t = C.foundKey t

private theorem spec_discoverTables (config : Config) :
    Triple H₀ L ok i (fun _ => True) (TableTracker.discoverTables config)
      fun tracker w => Fine ok i w → Discovered C config tracker := by
  refine World.Spec.bind (spec_listTables config) fun tables => ?_
  have htables : Lasting i fun w => Fine ok i w → tables = C.tablesToTrack config :=
    (lasting_const _).of_fine
  refine World.Spec.bind ((frame_lasting htables (spec_lookupPrimaryKeys tables _)).pre
    fun _ _ h => ⟨trivial, h⟩) fun keys => ?_
  have hkeys : Lasting i fun w => (Fine ok i w → keys = keysAfter C (fun _ => none) tables) ∧
      (Fine ok i w → tables = C.tablesToTrack config) :=
    (lasting_const _).of_fine.and htables
  refine World.Spec.bind (spec_note _ hkeys) fun _ => ?_
  refine spec_pure (lasting_const _).of_fine fun w _ h hfine => ⟨h.2 hfine, fun t ht => ?_⟩
  rw [← h.2 hfine] at ht
  have hkey : keys t = some (C.foundKey t) := by
    rw [h.1 hfine]
    exact keysAfter_of_mem (.inl ht)
  show (keys t).getD [] = C.foundKey t
  rw [hkey]
  rfl

/-! ## The call -/

/-- What a first call achieves as long as all is fine: the tables are complete that are to be
    tracked and whose keys are found. -/
def Achieved (L : LocalDb C.table) (ok : Outcome → Prop) (i : ι) (m : ReplicationManager)
    (w : Site ι) : Prop :=
  m.initialSyncDone = false → ∀ t ∈ C.tablesToTrack m.config, C.foundKey t ≠ [] →
    FineFor L ok i t w → Taken (C := C) t (L t).rows w.hosted

omit [DecidableEq ι] in
private theorem lasting_achieved (m : ReplicationManager) :
    Lasting i (Achieved (C := C) L ok i m) :=
  fun _ _ hl h hdone t ht hkey hfine => (h hdone t ht hkey (hfine.earlier hl)).mono (hl.1 t)

theorem spec_start (fuel : Nat) (m : ReplicationManager) :
    Triple H₀ L ok i (fun _ => True) (m.start fuel)
      fun _ => Achieved (C := C) L ok i m := by
  have hpost : Lasting i (Achieved (C := C) L ok i m) := lasting_achieved m
  refine World.Spec.bind (spec_note _ (lasting_const True)) fun _ => ?_
  refine World.Spec.bind spec_healthCheck fun health => ?_
  have hhealth : Lasting i fun w => Fine ok i w → health.overall = true :=
    (lasting_const _).of_fine
  split
  · rename_i hdown
    refine World.Spec.bind (spec_note _ hhealth) fun _ => ?_
    refine spec_pure hpost fun _ _ h _ t _ _ hfine => ?_
    rw [h hfine.fine] at hdown
    exact absurd hdown (by decide)
  · refine World.Spec.bind ((spec_discoverTables m.config).pre fun _ _ _ => trivial)
      fun tracker => ?_
    have htracker : Lasting i fun w => Fine ok i w → Discovered C m.config tracker :=
      (lasting_const _).of_fine
    -- what is left after the copy takes nothing away
    have hdone : Lasting i fun w =>
        (m.initialSyncDone = false → AllComplete L ok i tracker tracker.trackedTables w) ∧
          (Fine ok i w → Discovered C m.config tracker) :=
      Lasting.and (fun w w' hl h hdone => lasting_allComplete tracker _ w w' hl (h hdone)) htracker
    have hrest : Triple H₀ L ok i
        (fun w => (m.initialSyncDone = false →
            AllComplete L ok i tracker tracker.trackedTables w) ∧
          (Fine ok i w → Discovered C m.config tracker))
        (do
          let queue ← QueueHandler.drainTo ((tracker.fetchChanges m.config.batchSize).foldl
            QueueHandler.enqueue m.queue)
          return { m with tracker, queue, initialSyncDone := true } : Code ReplicationManager)
        fun _ => Achieved (C := C) L ok i m := by
      have hdrain : ∀ q, Triple H₀ L ok i (fun _ => True) (QueueHandler.drainTo q)
          fun _ _ => True := fun q => spec_of_noInsert (noInsert_drainTo q)
      refine World.Spec.bind ((frame_lasting hdone (hdrain _)).pre fun _ _ h => ⟨trivial, h⟩)
        fun queue => ?_
      refine spec_pure hpost fun w _ h hfresh t ht hkey hfine => ?_
      obtain ⟨htables, hkeys⟩ := h.2.2 hfine.fine
      have hfound := hkeys t ht
      have hsound := (foundKey_sound C t).resolve_left hkey
      rw [← htables] at ht
      exact h.2.1 hfresh t ht (hfound ▸ hkey) hfine (hfound.trans hsound)
    dsimp only
    split
    · refine World.Spec.bind ((frame_lasting htracker (spec_initialSync fuel tracker)).pre
        fun _ _ h => ⟨trivial, h⟩) fun _ => ?_
      exact hrest.pre fun _ _ h => ⟨fun _ => h.1, h.2⟩
    · rename_i hflag
      refine hrest.pre fun _ _ h => ⟨fun hfresh => ?_, h⟩
      rw [hfresh] at hflag
      exact absurd rfl hflag

end CleanLog

end SyncLayer.Copy
