import SyncLayer.Library.Sql.Lexer

/-!
# Counting What Was Read

A measure of what the lexer has read that no character raises by more than its weight
bounds what the tokens can account for. Two such measures: the delimiters of one kind,
of which a token has two of its own and two for each that it contains, and the
characters.
-/

namespace SyncLayer.Sql

/-! ## Measures -/

/-- The sum of a weight over a list. -/
def tally {α : Type} (f : α → Nat) : List α → Nat
  | [] => 0
  | a :: l => f a + tally f l

theorem tally_append {α : Type} (f : α → Nat) (l l' : List α) :
    tally f (l ++ l') = tally f l + tally f l' := by
  induction l with
  | nil => exact (Nat.zero_add _).symm
  | cons a l ih => rw [List.cons_append, tally, ih, tally, Nat.add_assoc]

theorem tally_reverse {α : Type} (f : α → Nat) (l : List α) : tally f l.reverse = tally f l := by
  induction l with
  | nil => rfl
  | cons a l ih => rw [List.reverse_cons, tally_append, ih, Nat.add_comm]; rfl

structure Measure where
  ofMode : Mode → Nat
  ofToken : Token → Nat
  weight : Char → Nat

def Measure.of (μ : Measure) (m : Lexer) : Nat := μ.ofMode m.mode + tally μ.ofToken m.tokens

/-- No step gains more than the weight of its character, and nothing is gained at the
    end. -/
structure Measure.Bounded (μ : Measure) : Prop where
  blank : μ.ofMode .blank = 0
  step_le : ∀ m c, μ.of (step m c) ≤ μ.of m + μ.weight c
  finish_le : ∀ m ts, finish m = some ts → tally μ.ofToken ts ≤ μ.of m

theorem Measure.Bounded.read_le {μ : Measure} (h : μ.Bounded) (m : Lexer) (s : Text) :
    μ.of (read m s) ≤ μ.of m + tally μ.weight s := by
  induction s generalizing m with
  | nil => exact Nat.le_refl _
  | cons c s ih =>
    have hrest := ih (step m c)
    have hstep := h.step_le m c
    rw [read_cons, tally]
    omega

theorem Measure.Bounded.lex_le {μ : Measure} (h : μ.Bounded) {s : Text} {ts : List Token}
    (hlex : lex s = some ts) : tally μ.ofToken ts ≤ tally μ.weight s := by
  have hread := h.read_le ⟨.blank, []⟩ s
  have hfinish := h.finish_le _ _ hlex
  have hblank : μ.of ⟨.blank, []⟩ = 0 := h.blank
  omega

/-! ## Delimiters -/

/-- The delimiters of one kind: a token has two of its own, and two for each that it
    contains. -/
def delimiters (d : Delimiter) : Measure where
  ofMode
    | .inside d' s => if d' = d then 1 + 2 * s.count d.char else 0
    | .closing d' s => if d' = d then 2 + 2 * s.count d.char else 0
    | _ => 0
  ofToken
    | .delimited d' s => if d' = d then 2 + 2 * s.count d.char else 0
    | _ => 0
  weight c := if c = d.char then 1 else 0

theorem delimiters_start_le (d : Delimiter) (ts : List Token) (c : Char) :
    (delimiters d).of (start ts c) ≤ tally (delimiters d).ofToken ts + (delimiters d).weight c := by
  unfold start Measure.of
  split_ifs with _ hidentifier hliteral
  · exact Nat.zero_add _ ▸ Nat.le_add_right ..
  · subst hidentifier
    cases d <;> simp [delimiters, Delimiter.char, Nat.add_comm]
  · subst hliteral
    cases d <;> simp [delimiters, Delimiter.char, Nat.add_comm]
  · exact Nat.zero_add _ ▸ Nat.le_add_right ..
  · exact Nat.zero_add _ ▸ Nat.le_add_right ..
  · exact Nat.zero_add _ ▸ Nat.le_add_right ..
  · simp [delimiters, tally]

theorem delimiters_bounded (d : Delimiter) : (delimiters d).Bounded where
  blank := rfl
  step_le m c := by
    obtain ⟨mode, ts⟩ := m
    -- where a token that is no delimited text ends, nothing is gained or lost
    have hstart : ∀ t, (delimiters d).ofToken t = 0 →
        (delimiters d).of (start (t :: ts) c) ≤
          tally (delimiters d).ofToken ts + (delimiters d).weight c := by
      intro t ht
      have hle := delimiters_start_le d (t :: ts) c
      rwa [tally, ht, Nat.zero_add] at hle
    have hzero : ∀ mode, (delimiters d).ofMode mode = 0 →
        (delimiters d).of ⟨mode, ts⟩ = tally (delimiters d).ofToken ts := by
      intro mode hmode
      rw [Measure.of, hmode, Nat.zero_add]
    cases mode with
    | blank =>
      rw [hzero _ rfl]
      exact delimiters_start_le d ts c
    | dash =>
      rw [hzero _ rfl, step]
      split_ifs
      · exact (hzero .comment rfl).trans_le (Nat.le_add_right ..)
      · exact hstart _ rfl
    | comment =>
      rw [hzero _ rfl, step]
      split_ifs
      · exact (hzero .blank rfl).trans_le (Nat.le_add_right ..)
      · exact (hzero .comment rfl).trans_le (Nat.le_add_right ..)
    | word w =>
      rw [hzero _ rfl, step]
      split_ifs
      · exact (hzero (.word _) rfl).trans_le (Nat.le_add_right ..)
      · exact (hzero (.escape []) rfl).trans_le (Nat.le_add_right ..)
      · exact hstart _ rfl
    | number n =>
      rw [hzero _ rfl, step]
      split_ifs
      · exact (hzero (.number _) rfl).trans_le (Nat.le_add_right ..)
      · exact hstart _ rfl
    | inside d' s =>
      by_cases hd : d' = d
      · subst hd
        simp only [step]
        split_ifs with hc
        · simp only [Measure.of, delimiters, if_true, if_pos hc]
          omega
        · simp only [Measure.of, delimiters, if_true, if_neg hc, List.count_append]
          have hcount : [c].count d'.char = 0 := by simp [hc]
          omega
      · simp only [step]
        split_ifs <;> simp [Measure.of, delimiters, hd]
    | closing d' s =>
      by_cases hd : d' = d
      · subst hd
        simp only [step]
        split_ifs with hc
        · simp only [Measure.of, delimiters, if_true, if_pos hc, List.count_append]
          have hcount : [c].count d'.char = 1 := by simp [hc]
          omega
        · have hle := delimiters_start_le d' (.delimited d' s :: ts) c
          rwa [tally] at hle
      · rw [hzero (.closing d' s) (if_neg hd)]
        simp only [step]
        split_ifs
        · exact (hzero (.inside d' _) (if_neg hd)).trans_le (Nat.le_add_right ..)
        · exact hstart _ (if_neg hd)
    | escape s =>
      rw [hzero _ rfl, step]
      split_ifs
      · exact (hzero (.backslash s) rfl).trans_le (Nat.le_add_right ..)
      · exact (hzero (.escapeClosing s) rfl).trans_le (Nat.le_add_right ..)
      · exact (hzero (.escape _) rfl).trans_le (Nat.le_add_right ..)
    | backslash s => exact Nat.le_add_right ..
    | escapeClosing s =>
      rw [hzero _ rfl, step]
      split_ifs
      · exact (hzero (.escape _) rfl).trans_le (Nat.le_add_right ..)
      · exact hstart _ rfl
  finish_le m ts h := by
    obtain ⟨mode, ts₀⟩ := m
    cases mode <;> simp only [finish, reduceCtorEq, Option.some.injEq] at h <;> subst h <;>
      rw [tally_reverse] <;> simp [Measure.of, delimiters, tally]

theorem tally_delimiters (d : Delimiter) (s : Text) :
    tally (delimiters d).weight s = s.count d.char := by
  induction s with
  | nil => rfl
  | cons c s ih =>
    rw [tally, ih, List.count_cons, Nat.add_comm]
    simp [delimiters]

/-- **Delimiters**: the text has two for each delimited token, and two more for each that
    the token contains. -/
theorem lex_delimiters_le (d : Delimiter) {s : Text} {ts : List Token} (h : lex s = some ts) :
    tally (delimiters d).ofToken ts ≤ s.count d.char :=
  tally_delimiters d s ▸ (delimiters_bounded d).lex_le h

/-! ## Characters -/

/-- The characters of a token as it stands in the text, at least. -/
def characters : Measure where
  ofMode
    | .blank => 0
    | .dash => 1
    | .comment => 0
    | .word w => w.length
    | .number n => n.length
    | .inside _ s => s.length + 1
    | .closing _ s => s.length + 2
    | .escape s => s.length + 2
    | .backslash s => s.length + 2
    | .escapeClosing s => s.length + 3
  ofToken
    | .word w => w.length
    | .number n => n.length
    | .delimited _ s => s.length + 2
    | .escapeString s => s.length + 3
    | .symbol _ => 1
  weight _ := 1

theorem characters_start_le (ts : List Token) (c : Char) :
    characters.of (start ts c) ≤ tally characters.ofToken ts + 1 := by
  unfold start Measure.of
  split_ifs <;> simp [characters, tally, Nat.add_comm]

theorem length_fold (w : Text) : (fold w).length = w.length := List.length_map ..

theorem characters_bounded : characters.Bounded where
  blank := rfl
  step_le m c := by
    obtain ⟨mode, ts⟩ := m
    -- a token that ends is counted as the open one was
    have hstart : ∀ t, characters.of (start (t :: ts) c) ≤
        characters.ofToken t + tally characters.ofToken ts + 1 :=
      fun t => characters_start_le (t :: ts) c
    cases mode with
    | blank =>
      have hle := characters_start_le ts c
      simp only [step, Measure.of, characters] at hle ⊢
      omega
    | dash =>
      have hle := hstart (.symbol '-')
      simp only [step]
      split_ifs
      · simp only [Measure.of, characters]
        omega
      · simp only [Measure.of, characters] at hle ⊢
        omega
    | comment =>
      simp only [step]
      split_ifs <;> simp [Measure.of, characters]
    | word w =>
      have hle := hstart (.word (fold w))
      simp only [step]
      split_ifs with _ hquote
      · simp only [Measure.of, characters, List.length_append, List.length_singleton]
        omega
      · have hlength : w.length = 1 := by rw [← length_fold, hquote.2]; rfl
        simp only [Measure.of, characters, List.length_nil]
        omega
      · simp only [Measure.of, characters, length_fold] at hle ⊢
        omega
    | number n =>
      have hle := hstart (.number n)
      simp only [step]
      split_ifs
      · simp only [Measure.of, characters, List.length_append, List.length_singleton]
        omega
      · simp only [Measure.of, characters] at hle ⊢
        omega
    | inside d s =>
      simp only [step]
      split_ifs <;>
        simp only [Measure.of, characters, List.length_append, List.length_singleton] <;> omega
    | closing d s =>
      have hle := hstart (.delimited d s)
      simp only [step]
      split_ifs
      · simp only [Measure.of, characters, List.length_append, List.length_singleton]
        omega
      · simp only [Measure.of, characters] at hle ⊢
        omega
    | escape s =>
      simp only [step]
      split_ifs <;>
        simp only [Measure.of, characters, List.length_append, List.length_singleton] <;> omega
    | backslash s =>
      simp only [step, Measure.of, characters, List.length_append, List.length_singleton]
      omega
    | escapeClosing s =>
      have hle := hstart (.escapeString s)
      simp only [step]
      split_ifs
      · simp only [Measure.of, characters, List.length_append, List.length_singleton]
        omega
      · simp only [Measure.of, characters] at hle ⊢
        omega
  finish_le m ts h := by
    obtain ⟨mode, ts₀⟩ := m
    cases mode <;> simp only [finish, reduceCtorEq, Option.some.injEq] at h <;> subst h <;>
      rw [tally_reverse] <;> simp [Measure.of, characters, tally, length_fold]

theorem tally_characters (s : Text) : tally characters.weight s = s.length := by
  induction s with
  | nil => rfl
  | cons c s ih =>
    rw [tally, ih, List.length_cons, Nat.add_comm]
    rfl

/-- **Characters**: the tokens have no more than the text. -/
theorem lex_characters_le {s : Text} {ts : List Token} (h : lex s = some ts) :
    tally characters.ofToken ts ≤ s.length :=
  tally_characters s ▸ characters_bounded.lex_le h

end SyncLayer.Sql
