import SyncLayer.Library.Sql.Words

/-!
# Phrases

A statement is a sequence of phrases with blanks between them: keywords, a reference to a
table, numbers, and lists of names. For each kind of phrase there is a text that is read as
its tokens (`Reads`), and a parser that takes its tokens off the front of a list.
-/

namespace SyncLayer.Sql

open SyncLayer.CString

/-! ## Texts of phrases -/

/-- What is read on its own is read so behind other tokens. -/
theorem reads_of_fresh {s : Text} {ts : List Token}
    (h : ∀ c, Separator c → read ⟨.blank, []⟩ (s ++ [c]) = start ts.reverse c) : Reads s ts := by
  intro ts₀ c hc
  have hafter : (⟨.blank, ts₀⟩ : Lexer) = Lexer.after ⟨.blank, []⟩ ts₀ := rfl
  rw [hafter, read_after, h c hc, ← start_after]

/-- Two phrases with a blank between them. -/
theorem Reads.blank {s s' : Text} {ts ts' : List Token} (h : Reads s ts) (h' : Reads s' ts') :
    Reads (s ++ ' ' :: s') (ts ++ ts') := by
  intro ts₀ c hc
  have hblank : start (ts.reverse ++ ts₀) ' ' = ⟨.blank, ts.reverse ++ ts₀⟩ := rfl
  rw [List.append_assoc, List.cons_append, h.read_append (.inl rfl), hblank, h' _ c hc,
    List.reverse_append, List.append_assoc]

/-- A separator is no part of a word, and does not open a string. -/
theorem step_word {w : Text} {c : Char} (hc : Separator c) (ts : List Token) :
    step ⟨.word w, ts⟩ c = start (.word (fold w) :: ts) c := by
  have hend : wordChar c = false := by obtain rfl | rfl | rfl := hc <;> rfl
  have hquote : c ≠ '\'' := by obtain rfl | rfl | rfl := hc <;> decide
  rw [step, hend, if_neg Bool.false_ne_true, if_neg fun h => hquote h.1]

theorem reads_word {w : Text} (h : IsWord w) : Reads w [.word (fold w)] := by
  intro ts c hc
  rw [read_append, read_isWord h, read_cons, read_nil, step_word hc]
  rfl

/-- A word behind another one, with a dot between them. -/
theorem reads_qualified {w w' : Text} (h : IsWord w) (h' : IsWord w') :
    Reads (w ++ '.' :: w') [.word (fold w), .symbol '.', .word (fold w')] := by
  intro ts c hc
  have hdot : step ⟨.word w, ts⟩ '.' = ⟨.blank, .symbol '.' :: .word (fold w) :: ts⟩ := rfl
  rw [List.append_assoc, List.cons_append, read_append, read_isWord h, read_cons, hdot,
    reads_word h' _ c hc]
  rfl

theorem start_digit {c : Char} (hc : c.isDigit) (ts : List Token) :
    start ts c = ⟨.number [c], ts⟩ := by
  have hword : wordStart c = false := by
    refine forall_char (P := fun c => c.isDigit = true → wordStart c = false)
      (by decide) ?_ c hc
    intro c hhigh hdigit
    have hle : c.toNat ≤ 57 := UInt32.le_iff_toNat_le.1 (of_decide_eq_true
      (Bool.and_eq_true_iff.1 hdigit).2)
    omega
  have hne : ∀ d, ¬ (d = '-' ∨ d.isDigit) → c ≠ d := fun d => ne_of_numeral (.inr hc)
  rw [start, isspace_of_numeral (.inr hc), if_neg Bool.false_ne_true,
    if_neg (hne '"' (by decide)), if_neg (hne '\'' (by decide)), if_neg, hword,
    if_neg Bool.false_ne_true, if_pos hc]
  rintro rfl
  exact absurd hc (by decide)

theorem read_digits {digits : Text} (h : ∀ c ∈ digits, c.isDigit) (n₀ : Text)
    (ts : List Token) : read ⟨.number n₀, ts⟩ digits = ⟨.number (n₀ ++ digits), ts⟩ := by
  apply foldl_collect (f := fun n => Lexer.mk (.number n) ts)
  intro n c hc
  rw [step, if_pos (h c hc)]

theorem reads_number {digits : Text} (hne : digits ≠ []) (h : ∀ c ∈ digits, c.isDigit) :
    Reads digits [.number digits] := by
  intro ts c hc
  cases digits with
  | nil => exact absurd rfl hne
  | cons d digits =>
    have hrest : ∀ x ∈ digits, x.isDigit := fun x hx => h x (List.mem_cons_of_mem _ hx)
    have hend : c.isDigit = false := by obtain rfl | rfl | rfl := hc <;> rfl
    rw [List.cons_append, read_cons, step, start_digit (h d (List.mem_cons_self ..)),
      read_append, read_digits hrest, read_cons, read_nil, step, hend]
    rfl

/-- The tokens of a printed integer. -/
def integerTokens : Int → List Token
  | .ofNat n => [.number (Nat.toDigits 10 n)]
  | .negSucc n => [.symbol '-', .number (Nat.toDigits 10 (n + 1))]

theorem reads_integer (n : Int) : Reads (toString n).toList (integerTokens n) := by
  have hdigits : ∀ m, Reads (Nat.toDigits 10 m) [.number (Nat.toDigits 10 m)] := by
    intro m
    refine reads_number Nat.toDigits_ne_nil fun c hc => ?_
    exact Nat.isDigit_of_mem_toDigits (by decide) (by decide) hc
  cases n with
  | ofNat m =>
    rw [Int.toString_eq_repr, Int.repr, Nat.toList_repr]
    exact hdigits m
  | negSucc m =>
    rw [Int.toString_eq_repr, Int.repr, String.toList_append, Nat.toList_repr]
    intro ts c hc
    -- the sign is followed by a digit, so it does not begin a comment
    obtain ⟨d, digits, hd⟩ := List.exists_cons_of_ne_nil (Nat.toDigits_ne_nil (b := 10) (n := m + 1))
    have hdigit : d.isDigit := by
      have hmem : d ∈ Nat.toDigits 10 (m + 1) := hd ▸ List.mem_cons_self ..
      exact Nat.isDigit_of_mem_toDigits (by decide) (by decide) hmem
    have hdash : d ≠ '-' := by
      rintro rfl
      exact absurd hdigit (by decide)
    have hsign : "-".toList = ['-'] := rfl
    have hopen : step ⟨.blank, ts⟩ '-' = ⟨.dash, ts⟩ := rfl
    have hread := hdigits (m + 1) (.symbol '-' :: ts) c hc
    rw [hd, List.cons_append, read_cons, step] at hread
    rw [integerTokens, hsign, List.append_assoc, List.singleton_append, read_cons, hopen, hd,
      List.cons_append, read_cons, step, if_neg hdash, hread]
    rfl

/-! ## Parsers -/

/-- Take a phrase off the front, and go on with a parser. -/
def behind {α : Type} (phrase : List Token) (p : List Token → Option α) (ts : List Token) :
    Option α :=
  (ts.dropPrefix? phrase).bind p

@[simp] theorem behind_append {α : Type} (phrase : List Token) (p : List Token → Option α)
    (ts : List Token) : behind phrase p (phrase ++ ts) = p ts := by
  rw [behind, List.dropPrefix?_append_of_beq ts BEq.rfl, Option.bind_some]

/-- The words of a table reference, with their dot. -/
def reference : List Token → Option (Text × List Token)
  | .word s :: .symbol '.' :: .word n :: rest => some (s ++ '.' :: n, rest)
  | .word n :: rest => some (n, rest)
  | _ => none

/-- A list of delimited identifiers. -/
def names : List Token → Option (List Text × List Token)
  | .delimited .identifier n :: .symbol ',' :: rest => do
    let (ns, rest) ← names rest
    return (n :: ns, rest)
  | .delimited .identifier n :: rest => some ([n], rest)
  | _ => none

/-- An integer, with a sign if it is negative. -/
def integer : List Token → Option (Int × List Token)
  | .number digits :: rest => some (digitsValue digits, rest)
  | .symbol '-' :: .number digits :: rest => some (-digitsValue digits, rest)
  | _ => none

theorem integer_tokens (n : Int) (rest : List Token) :
    integer (integerTokens n ++ rest) = some (n, rest) := by
  cases n with
  | ofNat m =>
    simp only [integerTokens, List.cons_append, List.nil_append, integer, digitsValue_toDigits]
    rfl
  | negSucc m =>
    simp only [integerTokens, List.cons_append, List.nil_append, integer, digitsValue_toDigits]
    rfl

/-- The tokens of a list of names. -/
def nameList (ns : List Text) : List Token :=
  List.intercalate [.symbol ','] (ns.map fun n => [.delimited .identifier n])

/-- Names are read up to the first token that is no comma. -/
theorem names_nameList {ns : List Text} (hne : ns ≠ []) {t : Token} (ht : t ≠ .symbol ',')
    (rest : List Token) : names (nameList ns ++ t :: rest) = some (ns, t :: rest) := by
  induction ns with
  | nil => exact absurd rfl hne
  | cons n ns ih =>
    cases ns with
    | nil =>
      have hone : nameList [n] = [.delimited .identifier n] := List.intercalate_singleton
      rw [hone, List.singleton_append]
      cases t with
      | symbol c =>
        have hc : c ≠ ',' := fun h => ht (h ▸ rfl)
        simp [names, hc]
      | word w => rfl
      | number d => rfl
      | delimited d s => rfl
      | escapeString s => rfl
    | cons m ns =>
      have hcons : nameList (n :: m :: ns) =
          .delimited .identifier n :: .symbol ',' :: nameList (m :: ns) := by
        simp only [nameList, List.map_cons, List.intercalate_cons_cons]
        rfl
      rw [hcons, List.cons_append, List.cons_append, names, ih (List.cons_ne_nil m ns)]
      rfl

/-! ## Table references -/

/-- A reference of one or two plain words. -/
inductive PlainTable : Text → Prop
  | single {n : Text} (hn : PlainWord n) : PlainTable n
  | qualified {s n : Text} (hs : PlainWord s) (hn : PlainWord n) : PlainTable (s ++ '.' :: n)

/-- A plain reference is read as tokens from which the parser restores it. -/
theorem PlainTable.reads {t : Text} (ht : PlainTable t) :
    ∃ ts, Reads t ts ∧ ∀ rest, rest.head? ≠ some (.symbol '.') →
      reference (ts ++ rest) = some (t, rest) := by
  cases ht with
  | single hn =>
    refine ⟨[.word t], ?_, fun rest hrest => ?_⟩
    · have hread := reads_word hn.toIsWord
      rwa [hn.folded] at hread
    · rw [List.singleton_append, reference]
      rintro n rest' rfl
      exact hrest rfl
  | @qualified s n hs hn =>
    refine ⟨[.word s, .symbol '.', .word n], ?_, fun rest _ => rfl⟩
    have hread := reads_qualified hs.toIsWord hn.toIsWord
    rwa [hs.folded, hn.folded] at hread

/-- No character that is neither in words nor a dot occurs in it. -/
theorem PlainTable.notMem {t : Text} (ht : PlainTable t) {c : Char} (hc : wordChar c = false)
    (hdot : c ≠ '.') : c ∉ t := by
  cases ht with
  | single hn => exact hn.symbol_notMem hc
  | qualified hs hn =>
    simp only [List.mem_append, List.mem_cons, not_or]
    exact ⟨hs.symbol_notMem hc, hdot, hn.symbol_notMem hc⟩

end SyncLayer.Sql
