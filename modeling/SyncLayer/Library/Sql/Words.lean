import SyncLayer.Library.Sql.Lexer

/-!
# Words

A word that folding leaves as it is stands for itself, and every word that the lexer
returns is one of these.
-/

namespace SyncLayer.Sql

/-! ## Folding -/

/-- To know something of all characters, look at the ASCII characters and at the rest. -/
theorem forall_char {P : Char → Prop} (hascii : ∀ n < 128, P (Char.ofNat n))
    (hhigh : ∀ c : Char, 128 ≤ c.toNat → P c) (c : Char) : P c := by
  by_cases hc : c.toNat < 128
  · exact Char.ofNat_toNat c ▸ hascii c.toNat hc
  · exact hhigh c (Nat.le_of_not_lt hc)

theorem toLower_of_high {c : Char} (hc : 128 ≤ c.toNat) : c.toLower = c := by
  refine dif_neg fun hupper => ?_
  have hle : c.toNat ≤ 90 := UInt32.le_iff_toNat_le.1 hupper.2
  omega

theorem toLower_toLower (c : Char) : c.toLower.toLower = c.toLower := by
  refine forall_char (P := fun c => c.toLower.toLower = c.toLower) (by decide) ?_ c
  intro c hc
  rw [toLower_of_high hc, toLower_of_high hc]

theorem wordStart_toLower {c : Char} (hc : wordStart c = true) : wordStart c.toLower = true := by
  refine forall_char (P := fun c => wordStart c = true → wordStart c.toLower = true)
    (by decide) ?_ c hc
  intro c hhigh hstart
  rwa [toLower_of_high hhigh]

theorem wordChar_toLower {c : Char} (hc : wordChar c = true) : wordChar c.toLower = true := by
  refine forall_char (P := fun c => wordChar c = true → wordChar c.toLower = true)
    (by decide) ?_ c hc
  intro c hhigh hchar
  rwa [toLower_of_high hhigh]

/-- Folding makes no word of what is none. -/
theorem wordStart_of_toLower {c : Char} (hc : wordStart c.toLower = true) :
    wordStart c = true := by
  refine forall_char (P := fun c => wordStart c.toLower = true → wordStart c = true)
    (by decide) ?_ c hc
  intro c hhigh hstart
  rwa [toLower_of_high hhigh] at hstart

theorem wordChar_of_toLower {c : Char} (hc : wordChar c.toLower = true) : wordChar c = true := by
  refine forall_char (P := fun c => wordChar c.toLower = true → wordChar c = true)
    (by decide) ?_ c hc
  intro c hhigh hchar
  rwa [toLower_of_high hhigh] at hchar

theorem fold_fold (w : Text) : fold (fold w) = fold w := by
  rw [fold, fold, List.map_map]
  exact List.map_congr_left fun c _ => toLower_toLower c

/-! ## Plain words -/

/-- The characters make a word. -/
structure IsWord (w : Text) : Prop where
  start : ∃ c r, w = c :: r ∧ wordStart c = true
  chars : ∀ c ∈ w, wordChar c = true

/-- A word in lower case, in the sense of folding. -/
structure PlainWord (w : Text) : Prop extends IsWord w where
  folded : fold w = w

theorem IsWord.fold {w : Text} (h : IsWord w) : PlainWord (fold w) where
  start := by
    obtain ⟨c, r, rfl, hc⟩ := h.start
    exact ⟨c.toLower, Sql.fold r, rfl, wordStart_toLower hc⟩
  chars c hc := by
    obtain ⟨c', hc', rfl⟩ := List.mem_map.1 hc
    exact wordChar_toLower (h.chars c' hc')
  folded := fold_fold w

theorem IsWord.of_fold {w : Text} (h : PlainWord (Sql.fold w)) : IsWord w where
  start := by
    obtain ⟨c, r, hw, hc⟩ := h.start
    obtain ⟨c, r, rfl, rfl, -⟩ := List.map_eq_cons_iff.1 hw
    exact ⟨c, r, rfl, wordStart_of_toLower hc⟩
  chars c hc := wordChar_of_toLower (h.chars _ (List.mem_map_of_mem hc))

theorem read_isWord {w : Text} (h : IsWord w) (ts : List Token) :
    read ⟨.blank, ts⟩ w = ⟨.word w, ts⟩ := by
  obtain ⟨c, r, rfl, hc⟩ := h.start
  rw [read_cons, step, start_wordStart hc,
    read_word fun x hx => h.chars x (List.mem_cons_of_mem _ hx)]
  rfl

theorem lex_isWord {w : Text} (h : IsWord w) : lex w = some [.word (fold w)] := by
  rw [lex, read_isWord h]
  rfl

/-- A word with a dot behind it is read on its own. -/
theorem lex_isWord_dot {w : Text} (h : IsWord w) (rest : Text) :
    lex (w ++ '.' :: rest) = (lex rest).map ([.word (fold w), .symbol '.'] ++ ·) := by
  have hdot : step ⟨.word w, []⟩ '.' = ⟨.blank, [.symbol '.', .word (fold w)]⟩ := rfl
  rw [lex, read_append, read_isWord h, read_cons, hdot, finish_read]
  rfl

theorem IsWord.symbol_notMem {w : Text} (h : IsWord w) {c : Char} (hc : wordChar c = false) :
    c ∉ w := by
  intro hmem
  rw [h.chars c hmem] at hc
  cases hc

/-! ## What the lexer returns -/

/-- The words among the tokens are plain, and the open one is a word. -/
structure WordsPlain (m : Lexer) : Prop where
  tokens : ∀ w, .word w ∈ m.tokens → PlainWord w
  mode : ∀ w, m.mode = .word w → IsWord w

theorem wordsPlain_start {ts : List Token} (hts : ∀ w, .word w ∈ ts → PlainWord w) (c : Char) :
    WordsPlain (start ts c) := by
  unfold start
  split_ifs with _ _ _ _ hword
  · exact ⟨hts, by simp⟩
  · exact ⟨hts, by simp⟩
  · exact ⟨hts, by simp⟩
  · exact ⟨hts, by simp⟩
  · refine ⟨hts, fun w hw => ?_⟩
    cases hw
    refine ⟨⟨c, [], rfl, hword⟩, fun x hx => ?_⟩
    obtain rfl := List.mem_singleton.1 hx
    simp [wordChar, hword]
  · exact ⟨hts, by simp⟩
  · exact ⟨by simpa using hts, by simp⟩

theorem wordsPlain_step {m : Lexer} (h : WordsPlain m) (c : Char) : WordsPlain (step m c) := by
  obtain ⟨mode, ts⟩ := m
  have hts : ∀ w, .word w ∈ ts → PlainWord w := h.tokens
  -- a token that is no word ends
  have hend : ∀ t, (∀ w, t ≠ .word w) → WordsPlain (start (t :: ts) c) := by
    intro t ht
    refine wordsPlain_start (fun w hw => ?_) c
    exact hts w ((List.mem_cons.1 hw).resolve_left fun heq => ht w heq.symm)
  cases mode with
  | blank => exact wordsPlain_start hts c
  | dash =>
    simp only [step]
    split_ifs
    · exact ⟨hts, by simp⟩
    · exact hend _ (by simp)
  | comment =>
    simp only [step]
    split_ifs <;> exact ⟨hts, by simp⟩
  | word w =>
    have hw : IsWord w := h.mode w rfl
    simp only [step]
    split_ifs with hc
    · refine ⟨hts, fun w' hw' => ?_⟩
      cases hw'
      obtain ⟨x, r, rfl, hx⟩ := hw.start
      refine ⟨⟨x, r ++ [c], rfl, hx⟩, fun y hy => ?_⟩
      obtain hy | hy := List.mem_append.1 hy
      · exact hw.chars y hy
      · rw [List.mem_singleton.1 hy]
        exact hc
    · exact ⟨hts, by simp⟩
    · refine wordsPlain_start (fun w' hw' => ?_) c
      obtain heq | hmem := List.mem_cons.1 hw'
      · cases heq
        exact hw.fold
      · exact hts w' hmem
  | number n =>
    simp only [step]
    split_ifs
    · exact ⟨hts, by simp⟩
    · exact hend _ (by simp)
  | inside d s =>
    simp only [step]
    split_ifs <;> exact ⟨hts, by simp⟩
  | closing d s =>
    simp only [step]
    split_ifs
    · exact ⟨hts, by simp⟩
    · exact hend _ (by simp)
  | escape s =>
    simp only [step]
    split_ifs <;> exact ⟨hts, by simp⟩
  | backslash s => exact ⟨hts, by simp [step]⟩
  | escapeClosing s =>
    simp only [step]
    split_ifs
    · exact ⟨hts, by simp⟩
    · exact hend _ (by simp)

theorem wordsPlain_read {m : Lexer} (h : WordsPlain m) (s : Text) : WordsPlain (read m s) := by
  induction s generalizing m with
  | nil => exact h
  | cons c s ih => exact ih (wordsPlain_step h c)

theorem wordsPlain_finish {m : Lexer} (h : WordsPlain m) {ts : List Token}
    (hfinish : finish m = some ts) {w : Text} (hw : .word w ∈ ts) : PlainWord w := by
  obtain ⟨mode, ts₀⟩ := m
  have hts : .word w ∈ ts₀ → PlainWord w := h.tokens w
  have hend : ∀ t, t ≠ .word w → .word w ∈ (t :: ts₀).reverse → PlainWord w := by
    intro t ht hmem
    exact hts ((List.mem_cons.1 (List.mem_reverse.1 hmem)).resolve_left ht.symm)
  cases mode with
  | blank => exact hts (List.mem_reverse.1 (Option.some.inj hfinish ▸ hw))
  | dash => exact hend (.symbol '-') (by simp) (Option.some.inj hfinish ▸ hw)
  | comment => exact hts (List.mem_reverse.1 (Option.some.inj hfinish ▸ hw))
  | word w₀ =>
    have hmem : .word w ∈ (.word (fold w₀) :: ts₀).reverse := Option.some.inj hfinish ▸ hw
    obtain heq | hmem := List.mem_cons.1 (List.mem_reverse.1 hmem)
    · cases heq
      exact (h.mode w₀ rfl).fold
    · exact hts hmem
  | number n => exact hend (.number n) (by simp) (Option.some.inj hfinish ▸ hw)
  | inside d s => cases hfinish
  | closing d s => exact hend (.delimited d s) (by simp) (Option.some.inj hfinish ▸ hw)
  | escape s => cases hfinish
  | backslash s => cases hfinish
  | escapeClosing s => exact hend (.escapeString s) (by simp) (Option.some.inj hfinish ▸ hw)

/-- Every word that the lexer returns is plain. -/
theorem plainWord_of_lex {s : Text} {ts : List Token} (hlex : lex s = some ts) {w : Text}
    (hw : .word w ∈ ts) : PlainWord w :=
  wordsPlain_finish (wordsPlain_read ⟨by simp, by simp⟩ s) hlex hw

end SyncLayer.Sql
