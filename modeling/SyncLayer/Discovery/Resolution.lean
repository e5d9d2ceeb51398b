import SyncLayer.Library.Sql.Counting
import SyncLayer.Library.Sql.Words
import SyncLayer.Model.TableTracker

/-!
# Two Readings of a Tracked Table

A tracked table is a string that the program reads twice: `discoverTables` cuts it at its
first dot and compares the two halves with the catalog as they are, and `SELECT * FROM`
has it read by the server, as a name in SQL. The two agree exactly on strings `s.n` of
two words in lower case (`lookedUp_eq_read_iff`).
-/

namespace SyncLayer.Discovery

open SyncLayer.Model SyncLayer.Sql

/-! ## The two readings -/

/-- A table of a database. -/
structure Relation where
  schema : String
  name : String
  deriving DecidableEq

/-- The name that a token stands for: words are folded, delimited identifiers are not. -/
def namePart : Token → Option String
  | .word w => some (String.ofList w)
  | .delimited .identifier n => some (String.ofList n)
  | _ => none

/-- The relation that a reference in FROM names. -/
def resolve (t : String) : Option Relation :=
  match lex t.toList with
  | some [a] => do
    let name ← namePart a
    return ⟨"public", name⟩
  | some [a, .symbol '.', b] => do
    let schema ← namePart a
    let name ← namePart b
    return ⟨schema, name⟩
  | _ => none

variable (C : List Relation)

/-- The relation that `SELECT * FROM t` reads. -/
def readFrom (t : String) : Option Relation := (resolve t).filter fun r => decide (r ∈ C)

/-- The halves that the primary-key lookup compares with the catalog. -/
def halves (t : String) : Relation :=
  ⟨TableTracker.schemaOf t, TableTracker.tableNameOf t⟩

/-- The relation whose primary key is looked up. -/
def lookedUp (t : String) : Option Relation := if halves t ∈ C then some (halves t) else none

/-- A string that may be tracked: a discovered table, or a configured reference to a table. -/
inductive Tracked : String → Prop
  | discovered {n : String} (h : ⟨"public", n⟩ ∈ C) : Tracked ("public." ++ n)
  | configured {t : String} {r : Relation} (hr : resolve t = some r) (h : r ∈ C) : Tracked t

/-- Two words in lower case with a dot between them; or the one word that is cut into
    itself and itself. -/
def PlainReference (t : String) : Prop :=
  (∃ s n, PlainWord s ∧ PlainWord n ∧ t.toList = s ++ '.' :: n) ∨ t = "public"

/-! ## The cut at the first dot -/

theorem halves_of_dot {t : String} {s n : Text} (ht : t.toList = s ++ '.' :: n) (hs : '.' ∉ s) :
    halves t = ⟨String.ofList s, String.ofList n⟩ := by
  have hall : ∀ c ∈ s, (decide (c ≠ '.')) = true := by
    intro c hc
    have hne : c ≠ '.' := fun heq => hs (heq ▸ hc)
    simpa using hne
  have htake : t.toList.takeWhile (· ≠ '.') = s := by
    rw [ht, List.takeWhile_append_of_pos hall]
    simp
  have hdrop : t.toList.dropWhile (· ≠ '.') = '.' :: n := by
    rw [ht, List.dropWhile_append_of_pos hall]
    simp
  simp only [halves, TableTracker.schemaOf, TableTracker.tableNameOf, htake, hdrop]

theorem halves_of_notMem {t : String} (ht : '.' ∉ t.toList) : halves t = ⟨t, t⟩ := by
  have hall : ∀ c ∈ t.toList, (decide (c ≠ '.')) = true := by
    intro c hc
    have hne : c ≠ '.' := fun heq => ht (heq ▸ hc)
    simpa using hne
  have htake : t.toList.takeWhile (· ≠ '.') = t.toList := List.takeWhile_eq_self_iff.2 hall
  have hdrop : t.toList.dropWhile (· ≠ '.') = [] := List.dropWhile_eq_nil_iff.2 hall
  simp only [halves, TableTracker.schemaOf, TableTracker.tableNameOf, htake, hdrop,
    String.ofList_toList]

/-! ## Where the readings agree -/

theorem plainWord_public : PlainWord "public".toList where
  start := ⟨'p', ['u', 'b', 'l', 'i', 'c'], rfl, rfl⟩
  chars := List.all_eq_true.1 (by decide)
  folded := by decide

theorem resolve_plainReference {t : String} (ht : PlainReference t) :
    resolve t = some (halves t) := by
  obtain ⟨s, n, hs, hn, htext⟩ | rfl := ht
  · have hlex : lex t.toList = some [.word s, .symbol '.', .word n] := by
      rw [htext, lex_isWord_dot hs.toIsWord, lex_isWord hn.toIsWord, hs.folded, hn.folded]
      rfl
    rw [halves_of_dot htext (hs.symbol_notMem (by decide)), resolve, hlex]
    rfl
  · have hlex : lex "public".toList = some [.word "public".toList] := by decide
    rw [halves_of_notMem (by decide), resolve, hlex]
    decide

/-- What a name weighs in the text: its characters, and its delimiters if it has any. -/
theorem characters_namePart {a : Token} {x : String} (ha : namePart a = some x) :
    x.toList.length ≤ characters.ofToken a ∧
      (characters.ofToken a ≤ x.toList.length → a = .word x.toList) := by
  cases a with
  | word w =>
    obtain rfl := Option.some.inj ha
    simp [characters]
  | delimited d n =>
    cases d with
    | identifier =>
      obtain rfl := Option.some.inj ha
      simp [characters]
    | literal => cases ha
  | number n => cases ha
  | escapeString s => cases ha
  | symbol c => cases ha

/-- The two forms of a reference. -/
theorem resolve_eq_some {t : String} {r : Relation} (h : resolve t = some r) :
    (∃ a, lex t.toList = some [a] ∧ namePart a = some r.name ∧ r.schema = "public") ∨
    ∃ a b, lex t.toList = some [a, .symbol '.', b] ∧ namePart a = some r.schema ∧
      namePart b = some r.name := by
  unfold resolve at h
  split at h
  · next a hlex =>
    obtain ⟨name, hname, hr⟩ := Option.bind_eq_some_iff.1 h
    cases hr
    exact .inl ⟨a, hlex, hname, rfl⟩
  · next a b hlex =>
    obtain ⟨schema, hschema, h⟩ := Option.bind_eq_some_iff.1 h
    obtain ⟨name, hname, hr⟩ := Option.bind_eq_some_iff.1 h
    cases hr
    exact .inr ⟨a, b, hlex, hschema, hname⟩
  · cases h

theorem plainReference_of_resolve {t : String} (h : resolve t = some (halves t)) :
    PlainReference t := by
  by_cases hdot : '.' ∈ t.toList
  · obtain ⟨s, n, htext, hs⟩ := List.eq_append_cons_of_mem hdot
    rw [halves_of_dot htext hs] at h
    obtain ⟨a, hlex, -, hschema⟩ | ⟨a, b, hlex, ha, hb⟩ := resolve_eq_some h
    · -- an unqualified name has no dot behind `public`
      have hpublic : s = "public".toList := by rw [← hschema, String.toList_ofList]
      rw [htext, hpublic, lex_isWord_dot plainWord_public.toIsWord] at hlex
      obtain ⟨ts, -, hts⟩ := Option.map_eq_some_iff.1 hlex
      cases hts
    · -- all characters are accounted for, so there are no delimiters
      have hle := lex_characters_le hlex
      obtain ⟨hsle, hsword⟩ := characters_namePart ha
      obtain ⟨hnle, hnword⟩ := characters_namePart hb
      have hdots : characters.ofToken (.symbol '.') = 1 := rfl
      simp only [tally, hdots, htext, List.length_append, List.length_cons,
        String.toList_ofList] at hle hsle hnle hsword hnword
      obtain rfl := hsword (by omega)
      obtain rfl := hnword (by omega)
      exact .inl ⟨s, n, plainWord_of_lex hlex (by simp), plainWord_of_lex hlex (by simp), htext⟩
  · rw [halves_of_notMem hdot] at h
    obtain ⟨a, hlex, -, hschema⟩ | ⟨a, b, hlex, ha, hb⟩ := resolve_eq_some h
    · exact .inr hschema
    · -- both halves are the whole string, which is too short for that
      have hle := lex_characters_le hlex
      have hsle := (characters_namePart ha).1
      have hnle := (characters_namePart hb).1
      have hdots : characters.ofToken (.symbol '.') = 1 := rfl
      simp only [tally, hdots] at hle hsle hnle
      omega

/-! ## The law -/

theorem toList_discovered (n : String) :
    ("public." ++ n).toList = "public".toList ++ '.' :: n.toList := by
  simp

theorem halves_discovered (n : String) : halves ("public." ++ n) = ⟨"public", n⟩ := by
  have hdot : '.' ∉ "public".toList := by decide
  rw [halves_of_dot (toList_discovered n) hdot, String.ofList_toList, String.ofList_toList]

/-- **The looked-up table is the copied table**, of every catalog, exactly for plain
    references. -/
theorem lookedUp_eq_read_iff {t : String} (ht : Tracked C t) :
    lookedUp C t = readFrom C t ↔ PlainReference t := by
  constructor
  · intro heq
    -- the string is tracked, so one of the two relations exists
    refine plainReference_of_resolve ?_
    cases ht with
    | @discovered n hn =>
      have hlooked : lookedUp C ("public." ++ n) = some (halves ("public." ++ n)) := by
        rw [lookedUp, if_pos]
        rwa [halves_discovered]
      rw [hlooked] at heq
      exact (Option.filter_eq_some_iff.1 heq.symm).1
    | @configured _ r hr hmem =>
      -- what is read exists, so what is looked up has to be the same
      have hread : readFrom C t = some r := by simp [readFrom, hr, hmem]
      rw [hread] at heq
      unfold lookedUp at heq
      split at heq
      · rw [heq, hr]
      · cases heq
  · intro hplain
    unfold lookedUp readFrom
    rw [resolve_plainReference hplain]
    by_cases hmem : halves t ∈ C
    · simp [hmem, Option.filter]
    · simp [hmem, Option.filter]

theorem lookedUp_eq_read_users :
    lookedUp [⟨"public", "users"⟩] ("public." ++ "users") =
      readFrom [⟨"public", "users"⟩] ("public." ++ "users") := by
  have htracked : Tracked [⟨"public", "users"⟩] ("public." ++ "users") :=
    .discovered (List.mem_singleton.2 rfl)
  refine (lookedUp_eq_read_iff _ htracked).2 (.inl ⟨"public".toList, "users".toList, ?_, ?_, ?_⟩)
  · exact plainWord_public
  · exact ⟨⟨⟨'u', ['s', 'e', 'r', 's'], rfl, rfl⟩, List.all_eq_true.1 (by decide)⟩, by decide⟩
  · exact toList_discovered "users"

/-- Two tables whose names differ in case. -/
def mixedCase : List Relation := [⟨"public", "Users"⟩, ⟨"public", "users"⟩]

/-- The key of the one is looked up, and the other is read. -/
theorem lookedUp_ne_read_mixedCase :
    Tracked mixedCase ("public." ++ "Users") ∧
      lookedUp mixedCase ("public." ++ "Users") ≠ readFrom mixedCase ("public." ++ "Users") ∧
      readFrom mixedCase ("public." ++ "Users") = some ⟨"public", "users"⟩ :=
  ⟨.discovered (List.mem_cons_self ..), by decide, by decide⟩

end SyncLayer.Discovery
