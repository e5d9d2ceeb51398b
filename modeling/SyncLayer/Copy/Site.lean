import SyncLayer.Copy.FailureFree
import SyncLayer.Copy.Interleavings
import SyncLayer.Interaction.Parallel
import SyncLayer.Model.Logger

/-!
# An Instance Among Others

Any number of instances of the service work on the same two databases, statement by
statement. What they share is the hosted database; each has a log of its own, and the log of
an instance is what its operator knows about it.

The others only add local rows under free keys, and they do not write to this log. So an
assertion lasts when more rows and more lines do not undo it (`Lasting`), and then it may be
carried along a program of the instance (`frame_lasting`).
-/

namespace SyncLayer.Copy

open SyncLayer.Interaction SyncLayer.Model SyncLayer.Database SyncLayer.PartialMap

variable {C : Catalog} {ι : Type} [DecidableEq ι]

/-! ## The world of an instance -/

/-- The hosted database, and the log of every instance. -/
structure Site (ι : Type) where
  hosted : HostedDb
  log : ι → List LogLine

/-- The calls of instance `i` when its attempts have outcomes in `ok`. -/
def serverStep (L : LocalDb C.table) (ok : Outcome → Prop) (i : ι) :
    Site ι → (e : Call) → Call.Reply e → Site ι → Prop
  | w, .pqexec conn query, r, w' =>
    w'.log = w.log ∧
      ∃ outcome, ok outcome ∧ respond C L w.hosted conn query outcome = (r, w'.hosted)
  | w, .pqescapeLiteral _, r, w' => r = true ∧ w' = w
  | w, .sleepFor _, _, w' => w' = w
  | w, .log line, _, w' => w' = { w with log := Function.update w.log i (w.log i ++ [line]) }

/-- The hosted database has what it had, and besides only local rows, under their keys. -/
def Grown (H₀ : HostedDb) (L : LocalDb C.table) (H : HostedDb) : Prop :=
  ∀ t, Extends (H₀ t) (H t) ∧
    Extends (H t) (overlay (H₀ t) (firstWith (C.table t).keyOf (L t).rows))

/-- What the others may do: they add local rows, and they write to their own logs. -/
def Growth (H₀ : HostedDb) (L : LocalDb C.table) (i : ι) (w w' : Site ι) : Prop :=
  Grown H₀ L w'.hosted ∧ (∀ t, Extends (w.hosted t) (w'.hosted t)) ∧ w'.log i = w.log i

/-- Instance `i` among the others. -/
def instanceWorld (H₀ : HostedDb) (L : LocalDb C.table) (ok : Outcome → Prop) (i : ι) :
    World Call Call.Reply (Site ι) where
  step := serverStep L ok i
  drift := Growth H₀ L i

/-- Every attempt is executed and acknowledged. -/
def Sure (ok : Outcome → Prop) : Prop := ∀ outcome, ok outcome → outcome = .acked

/-- No error is in the log. -/
def Clean (lines : List LogLine) : Prop := ∀ line ∈ lines, line.level ≠ .err

/-- No attempt of instance `i` can fail, or its log has no error so far. -/
def Fine (ok : Outcome → Prop) (i : ι) (w : Site ι) : Prop := Sure ok ∨ Clean (w.log i)

/-- The same for the copy of a table: without errors there is no need to know its length. -/
def FineFor (L : LocalDb C.table) (ok : Outcome → Prop) (i : ι) (t : String) (w : Site ι) :
    Prop :=
  Clean (w.log i) ∨ (Sure ok ∧ (L t).rows.length ≤ maxRows)

/-- The keys of these rows are taken. -/
def Taken (t : String) (rows : List Row) (H : HostedDb) : Prop :=
  ∀ r ∈ rows, (H t ((C.table t).keyOf r)).isSome

theorem Taken.mono {t : String} {rows : List Row} {H H' : HostedDb}
    (h : Taken (C := C) t rows H) (hext : Extends (H t) (H' t)) : Taken (C := C) t rows H' := by
  intro r hr
  obtain ⟨v, hv⟩ := Option.isSome_iff_exists.1 (h r hr)
  rw [hext _ v hv]
  rfl

/-! ## What lasts -/

/-- Rows have been added, and lines of instance `i`. -/
def Later (i : ι) (w w' : Site ι) : Prop :=
  (∀ t, Extends (w.hosted t) (w'.hosted t)) ∧ w.log i <+: w'.log i

/-- More rows and more lines of instance `i` do not undo `K`. -/
def Lasting (i : ι) (K : Site ι → Prop) : Prop := ∀ w w', Later i w w' → K w → K w'

variable {H₀ : HostedDb} {L : LocalDb C.table} {ok : Outcome → Prop} {i : ι}

omit [DecidableEq ι] in
theorem Fine.earlier {w w' : Site ι} (h : Fine ok i w') (hl : Later i w w') : Fine ok i w :=
  h.imp_right fun hclean line hline => hclean line (hl.2.subset hline)

omit [DecidableEq ι] in
theorem FineFor.earlier {t : String} {w w' : Site ι} (h : FineFor L ok i t w')
    (hl : Later i w w') : FineFor L ok i t w :=
  h.imp_left fun hclean line hline => hclean line (hl.2.subset hline)

omit [DecidableEq ι] in
theorem FineFor.fine {t : String} {w : Site ι} (h : FineFor L ok i t w) : Fine ok i w :=
  h.elim .inr fun h => .inl h.1

omit [DecidableEq ι] in
theorem lasting_const (p : Prop) : Lasting i fun _ => p := fun _ _ _ h => h

omit [DecidableEq ι] in
theorem Lasting.of_fine {K : Site ι → Prop} (hK : Lasting i K) :
    Lasting i fun w => Fine ok i w → K w :=
  fun w w' hl h hfine => hK w w' hl (h (hfine.earlier hl))

omit [DecidableEq ι] in
theorem Lasting.and {K K' : Site ι → Prop} (hK : Lasting i K) (hK' : Lasting i K') :
    Lasting i fun w => K w ∧ K' w :=
  fun w w' hl h => ⟨hK w w' hl h.1, hK' w w' hl h.2⟩

omit [DecidableEq ι] in
theorem lasting_notClean : Lasting i fun w => ¬ Clean (w.log i) :=
  fun _ _ hl h hclean => h fun line hline => hclean line (hl.2.subset hline)

omit [DecidableEq ι] in
theorem lasting_taken (t : String) (rows : List Row) :
    Lasting i fun w => Taken (C := C) t rows w.hosted :=
  fun _ _ hl h => h.mono (hl.1 t)

/-- A call adds rows or lines, or does nothing. -/
theorem later_serverStep {w w' : Site ι} {e : Call} {r : Call.Reply e}
    (h : serverStep L ok i w e r w') : Later i w w' := by
  cases e with
  | pqexec conn query =>
    obtain ⟨hlog, outcome, -, hr⟩ := h
    exact ⟨fun t => extends_respond hr t, hlog ▸ List.prefix_rfl⟩
  | pqescapeLiteral text =>
    obtain ⟨-, rfl⟩ := h
    exact ⟨fun t => Extends.refl _, List.prefix_rfl⟩
  | sleepFor milliseconds =>
    obtain rfl : w' = w := h
    exact ⟨fun t => Extends.refl _, List.prefix_rfl⟩
  | log line =>
    obtain rfl : w' = { w with log := Function.update w.log i (w.log i ++ [line]) } := h
    refine ⟨fun t => Extends.refl _, ?_⟩
    change w.log i <+: Function.update w.log i (w.log i ++ [line]) i
    rw [Function.update_self]
    exact List.prefix_append _ _

theorem Lasting.stable {K : Site ι → Prop} (hK : Lasting i K) :
    (instanceWorld H₀ L ok i).Stable K :=
  fun w w' hd => hK w w' ⟨hd.2.1, hd.2.2 ▸ List.prefix_rfl⟩

theorem stable_grown : (instanceWorld H₀ L ok i).Stable fun w => Grown H₀ L w.hosted :=
  fun _ _ hd _ => hd.1

/-- A triple for code of instance `i`. -/
abbrev Triple {α : Type} (H₀ : HostedDb) (L : LocalDb C.table) (ok : Outcome → Prop) (i : ι)
    (P : Site ι → Prop) (p : Code α) (Q : α → Site ι → Prop) : Prop :=
  (instanceWorld H₀ L ok i).Spec (fun w => Grown H₀ L w.hosted) P p Q

/-- What lasts may be carried along. -/
theorem frame_lasting {α : Type} {p : Code α} {P K : Site ι → Prop} {Q : α → Site ι → Prop}
    (hK : Lasting i K) (h : Triple H₀ L ok i P p Q) :
    Triple H₀ L ok i (fun w => P w ∧ K w) p fun a w => Q a w ∧ K w :=
  World.Spec.frame hK.stable (fun w _ _ w' _ hw hs => hK w w' (later_serverStep hs) hw) h

/-- An INSERT of local rows. -/
theorem grown_insertRows {H : HostedDb} (h : Grown H₀ L H) {t : String} {rows : List Row}
    (hpk : (C.table t).primaryKey ≠ []) (hrows : ∀ r ∈ rows, r ∈ (L t).rows) :
    Grown H₀ L (insertRows (C.table t) t rows H) := by
  intro t'
  obtain ⟨hkept, hbound⟩ := h t'
  refine ⟨hkept.trans (extends_insertRows t'), fun k r hr => ?_⟩
  rcases insertRows_eq_some hr with hold | ⟨rfl, hmem, hkey⟩
  · exact hbound k r hold
  · rw [overlay_eq_some]
    have hfirst : firstWith (C.table t').keyOf (L t').rows k = some r := by
      rw [← hkey]
      exact firstWith_of_mem ((L t').key_injective hpk) (hrows r hmem)
    cases hold : H₀ t' k with
    | none => exact .inr ⟨rfl, hfirst⟩
    | some r' =>
      -- the key was taken from the beginning, so the row has been there
      have hsame : insertRows (C.table t') t' rows H t' k = some r' :=
        extends_insertRows t' k r' (hkept k r' hold)
      rw [hr] at hsame
      exact .inl hsame.symm

end SyncLayer.Copy
