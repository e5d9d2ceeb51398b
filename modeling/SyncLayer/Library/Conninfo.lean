import Mathlib.Data.List.Nodup
import Mathlib.Data.List.Perm.Subperm
import SyncLayer.Library.CString

/-!
# Connection Strings

The `keyword=value` grammar in which libpq reads a connection string: blanks before a
keyword are skipped, and so are blanks around the `=`; an unquoted value runs to the
next blank, a quoted one to the next single quote, and a backslash takes the next
character as it is in both; a later occurrence of a keyword overrides an earlier one.

A text that is simply written out, `k=v` after `k=v`, is read back exactly when every
value is `Plain` and no value but the last is empty (`readsAs_render_iff`). The proof
counts characters: what is read is never longer than the text, and it is as long as the
text only where nothing was skipped, unquoted or unescaped (`size_le`).
-/

namespace SyncLayer.Conninfo

open SyncLayer.CString

abbrev Text := List Char

/-- Keywords with their values, in the order of their occurrence. -/
abbrev Pairs := List (Text × Text)

/-! ## The parser -/

/-- An unquoted value and what follows the blank behind it. -/
def unquoted : Text → Text × Text
  | [] => ([], [])
  | '\\' :: c :: s => (c :: (unquoted s).1, (unquoted s).2)
  | '\\' :: [] => ([], [])
  | c :: s => if isspace c then ([], s) else (c :: (unquoted s).1, (unquoted s).2)

/-- A quoted value, from behind its opening quote, and what follows its closing quote. -/
def quoted : Text → Option (Text × Text)
  | [] => none
  | '\\' :: c :: s => (quoted s).map fun (v, rest) => (c :: v, rest)
  | '\\' :: [] => none
  | '\'' :: s => some ([], s)
  | c :: s => (quoted s).map fun (v, rest) => (c :: v, rest)

/-- A value and what follows it, from behind the `=`. -/
def value (s : Text) : Option (Text × Text) :=
  match s.dropWhile isspace with
  | '\'' :: s => quoted s
  | s => some (unquoted s)

/-- The characters of a keyword. -/
def keywordChar (c : Char) : Bool := c ≠ '=' && !isspace c

/-- The loop over the parameters, with a budget of loop passes. -/
def parseFrom : (fuel : Nat) → Text → Option Pairs
  | 0, _ => none
  | fuel + 1, s =>
    let s := s.dropWhile isspace
    if s.isEmpty then some []
    else match (s.dropWhile keywordChar).dropWhile isspace with
      | '=' :: s' => do
        let (v, rest) ← value s'
        let ps ← parseFrom fuel rest
        return (s.takeWhile keywordChar, v) :: ps
      | _ => none

/-- `conninfo_parse`: every pass consumes a character, so the budget suffices. -/
def parse (s : Text) : Option Pairs := parseFrom (s.length + 1) s

/-- The value of a keyword: that of its last occurrence. -/
def settings (ps : Pairs) (k : Text) : Option Text := ps.reverse.lookup k

example : parse "host=a  port = 'b c' user=x\\ y".toList =
    some [("host".toList, "a".toList), ("port".toList, "b c".toList),
      ("user".toList, "x y".toList)] := by decide

/-! ## Counting characters -/

private theorem length_dropWhile_le (p : Char → Bool) (s : Text) :
    (s.dropWhile p).length ≤ s.length :=
  (List.dropWhile_suffix p).length_le

/-- The characters of a text that says nothing but these pairs, and one more. -/
def size : Pairs → Nat
  | [] => 0
  | p :: ps => p.1.length + p.2.length + 2 + size ps

@[simp] theorem size_nil : size [] = 0 := rfl

@[simp] theorem size_cons (p : Text × Text) (ps : Pairs) :
    size (p :: ps) = p.1.length + p.2.length + 2 + size ps := rfl

theorem size_perm {ps ps' : Pairs} (h : ps.Perm ps') : size ps = size ps' := by
  induction h with
  | nil => rfl
  | cons p _ ih => rw [size_cons, size_cons, ih]
  | swap p q ps =>
    simp only [size_cons]
    omega
  | trans _ _ ih ih' => rw [ih, ih']

theorem size_sublist {ps ps' : Pairs} (h : ps.Sublist ps') : size ps ≤ size ps' := by
  induction h with
  | slnil => exact Nat.le_refl 0
  | cons p _ ih =>
    rw [size_cons]
    omega
  | cons_cons p _ ih =>
    rw [size_cons, size_cons]
    omega

theorem two_mul_length_le_size (ps : Pairs) : 2 * ps.length ≤ size ps := by
  induction ps with
  | nil => exact Nat.le_refl 0
  | cons p ps ih =>
    rw [size_cons, List.length_cons]
    omega

/-- A value that stands for itself. -/
def Plain (v : Text) : Prop := (∀ c ∈ v, ¬ isspace c ∧ c ≠ '\\') ∧ v.head? ≠ some '\''

instance (v : Text) : Decidable (Plain v) :=
  decidable_of_iff ((v.all fun c => !isspace c && c != '\\') && v.head? != some '\'')
    (by simp [Plain])

/-- What the rest of a text accounts for, with the blank in front of it. -/
def tail (rest : Text) : Nat := if rest = [] then 0 else rest.length + 1

theorem tail_le (rest : Text) : tail rest ≤ rest.length + 1 := by
  unfold tail
  split_ifs <;> omega

/-- An unquoted value is at most as long as what was read, and as long only when no
    character was escaped; then it is the front of the text. -/
theorem unquoted_count (s : Text) :
    (unquoted s).1.length + tail (unquoted s).2 ≤ s.length ∧
      ((unquoted s).1.length + tail (unquoted s).2 = s.length →
        (∀ c ∈ (unquoted s).1, ¬ isspace c ∧ c ≠ '\\') ∧
          ∀ c, (unquoted s).1.head? = some c → s.head? = some c) := by
  induction s using unquoted.induct with
  | case1 => simp [unquoted, tail]
  | case2 c s ih =>
    -- a backslash is read and not counted
    simp only [unquoted, List.length_cons]
    obtain ⟨hle, -⟩ := ih
    exact ⟨by omega, fun h => by omega⟩
  | case3 => simp [unquoted, tail]
  | case4 c s hnil hcons hspace =>
    -- a blank ends the value and is accounted for by what follows it
    have htail := tail_le s
    rw [unquoted]
    · simp only [if_pos hspace, List.length_nil, List.length_cons]
      exact ⟨by omega, fun _ => by simp⟩
    · exact hnil
    · exact hcons
  | case5 c s hnil hcons hspace ih =>
    -- an ordinary character is read and counted; a lone backslash is the case above
    have hc : c ≠ '\\' := by
      rintro rfl
      cases s with
      | nil => exact hcons rfl rfl
      | cons d s => exact hnil d s rfl rfl
    rw [unquoted]
    · simp only [if_neg hspace, List.length_cons]
      obtain ⟨hle, hplain⟩ := ih
      refine ⟨by omega, fun h => ⟨?_, fun d hd => by simpa using hd⟩⟩
      intro d hd
      rcases List.mem_cons.1 hd with rfl | hd
      · exact ⟨hspace, hc⟩
      · exact (hplain (by omega)).1 d hd
    · exact hnil
    · exact hcons

/-- A quoted value is at least two characters shorter than what was read. -/
theorem quoted_count {s v rest : Text} (h : quoted s = some (v, rest)) :
    v.length + rest.length + 1 ≤ s.length := by
  induction s using quoted.induct generalizing v with
  | case1 => cases h
  | case2 c s ih =>
    rw [quoted, Option.map_eq_some_iff] at h
    obtain ⟨⟨v', rest'⟩, hs, heq⟩ := h
    obtain ⟨rfl, rfl⟩ := Prod.mk.inj heq
    have := ih hs
    simp only [List.length_cons]
    omega
  | case3 => cases h
  | case4 s =>
    obtain ⟨rfl, rfl⟩ := Prod.mk.inj (Option.some.inj h)
    simp
  | case5 c s hescape hend hquote ih =>
    rw [quoted, Option.map_eq_some_iff] at h
    · obtain ⟨⟨v', rest'⟩, hs, heq⟩ := h
      obtain ⟨rfl, rfl⟩ := Prod.mk.inj heq
      have := ih hs
      simp only [List.length_cons]
      omega
    · exact hescape
    · exact hend
    · exact hquote

/-- A value is at most as long as what was read of it, and as long only if it is plain. -/
theorem value_count {s v rest : Text} (h : value s = some (v, rest)) :
    v.length + tail rest ≤ (s.dropWhile isspace).length ∧
      (v.length + tail rest = (s.dropWhile isspace).length → Plain v) := by
  rw [value] at h
  split at h
  · rename_i q hs
    -- the quotes are read and not counted
    have hcount := quoted_count h
    have htail := tail_le rest
    rw [hs, List.length_cons]
    exact ⟨by omega, fun _ => by omega⟩
  · rename_i hquote
    obtain ⟨rfl, rfl⟩ := Prod.mk.inj (Option.some.inj h)
    obtain ⟨hle, hplain⟩ := unquoted_count (s.dropWhile isspace)
    refine ⟨hle, fun heq => ⟨(hplain heq).1, fun hhead => ?_⟩⟩
    -- a quote in front would have made this a quoted value
    have hfront := (hplain heq).2 _ hhead
    cases hs : s.dropWhile isspace with
    | nil =>
      rw [hs] at hfront
      cases hfront
    | cons c q =>
      rw [hs] at hfront
      obtain rfl : c = '\'' := Option.some.inj hfront
      exact hquote q hs

/-- **What is read is never longer than the text**, and as long only if all values are
    plain. -/
theorem size_le {fuel : Nat} {s : Text} {ps : Pairs} (h : parseFrom fuel s = some ps) :
    size ps ≤ tail s ∧ (size ps = tail s → ∀ p ∈ ps, Plain p.2) := by
  induction fuel generalizing s ps with
  | zero => cases h
  | succ fuel ih =>
    have hblanks : (s.dropWhile isspace).length ≤ s.length := length_dropWhile_le _ _
    rw [parseFrom] at h
    split at h
    · obtain rfl : [] = ps := Option.some.inj h
      exact ⟨Nat.zero_le _, by simp⟩
    · rename_i hne
      have htail : tail s = s.length + 1 := by
        refine if_neg ?_
        rintro rfl
        exact hne rfl
      split at h
      · rename_i s' hs'
        simp only [Option.bind_eq_bind, Option.bind_eq_some_iff] at h
        obtain ⟨⟨v, rest⟩, hvalue, ps', hps', heq⟩ := h
        obtain rfl : (List.takeWhile keywordChar (s.dropWhile isspace), v) :: ps' = ps :=
          Option.some.inj heq
        obtain ⟨hv, hplain⟩ := value_count hvalue
        obtain ⟨hrest, hplains⟩ := ih hps'
        dsimp only at hrest hplains
        -- keyword, blanks, `=`, blanks, value: count what each part consumes
        have hkeyword := congrArg List.length
          (List.takeWhile_append_dropWhile (p := keywordChar) (l := s.dropWhile isspace))
        have hequals := congrArg List.length hs'
        have hskip : (((s.dropWhile isspace).dropWhile keywordChar).dropWhile isspace).length ≤
            ((s.dropWhile isspace).dropWhile keywordChar).length := length_dropWhile_le _ _
        have hskip' : (s'.dropWhile isspace).length ≤ s'.length := length_dropWhile_le _ _
        rw [List.length_append] at hkeyword
        rw [List.length_cons] at hequals
        rw [size_cons, htail]
        refine ⟨by dsimp only; omega, fun heq => ?_⟩
        dsimp only at heq
        intro p hp
        rcases List.mem_cons.1 hp with rfl | hp
        · exact hplain (by omega)
        · exact hplains (by omega) p hp
      · cases h

/-! ## Texts that are written out -/

/-- The pairs written one after the other. -/
def render : Pairs → Text
  | [] => []
  | [p] => p.1 ++ '=' :: p.2
  | p :: q :: ps => p.1 ++ '=' :: p.2 ++ ' ' :: render (q :: ps)

theorem tail_render (ps : Pairs) : tail (render ps) = size ps := by
  induction ps using render.induct with
  | case1 => rfl
  | case2 p => simp [render, tail]; omega
  | case3 p q ps ih =>
    have hne : render (q :: ps) ≠ [] := by
      cases ps <;> simp [render]
    rw [tail, if_neg hne] at ih
    rw [size_cons, ← ih, tail, if_neg (by simp [render])]
    simp only [render, List.length_append, List.length_cons]
    omega

/-- What is written is the keywords, the values and what separates them. -/
theorem mem_render {c : Char} (hequals : c ≠ '=') (hblank : c ≠ ' ') (ps : Pairs) :
    c ∈ render ps ↔ ∃ p ∈ ps, c ∈ p.1 ∨ c ∈ p.2 := by
  induction ps using render.induct with
  | case1 => simp [render]
  | case2 p => simp [render, hequals]
  | case3 p q ps ih =>
    rw [List.exists_mem_cons_iff, ← ih]
    simp [render, hequals, hblank, or_assoc]

/-- A text without a `=` or a blank. -/
def Keyword (k : Text) : Prop := ∀ c ∈ k, keywordChar c

/-- One pass of the loop over a parameter that is written out. -/
theorem parseFrom_keyword {k : Text} (hk : Keyword k) (fuel : Nat) (s : Text) :
    parseFrom (fuel + 1) (k ++ '=' :: s) = (do
      let (v, rest) ← value s
      let ps ← parseFrom fuel rest
      return (k, v) :: ps) := by
  -- no blank in front, the keyword up to the `=`, no blank before it
  have hnoblank : (k ++ '=' :: s).dropWhile isspace = k ++ '=' :: s := by
    cases k with
    | nil => rfl
    | cons c k =>
      have hc := hk c (List.mem_cons_self ..)
      have hc' : isspace c = false := by
        simp only [keywordChar, Bool.and_eq_true, Bool.not_eq_true'] at hc
        exact hc.2
      rw [List.cons_append, List.dropWhile_cons_of_neg (by simp [hc'])]
  have hkeyword : (k ++ '=' :: s).takeWhile keywordChar = k := by
    rw [List.takeWhile_append_of_pos hk, List.takeWhile_cons_of_neg (by decide), List.append_nil]
  have hequals : (k ++ '=' :: s).dropWhile keywordChar = '=' :: s := by
    rw [List.dropWhile_append_of_pos hk, List.dropWhile_cons_of_neg (by decide)]
  have hskip : ('=' :: s).dropWhile isspace = '=' :: s := rfl
  have hne : (k ++ '=' :: s).isEmpty = false := by cases k <;> rfl
  rw [parseFrom]
  simp only [hnoblank, hkeyword, hequals, hskip, hne, Bool.false_eq_true, if_false]

theorem unquoted_plain {v : Text} (hv : ∀ c ∈ v, ¬ isspace c ∧ c ≠ '\\') (rest : Text) :
    unquoted v = (v, []) ∧ unquoted (v ++ ' ' :: rest) = (v, rest) := by
  induction v with
  | nil => exact ⟨rfl, rfl⟩
  | cons c v ih =>
    obtain ⟨hspace, hescape⟩ := hv c (List.mem_cons_self ..)
    obtain ⟨hend, hblank⟩ := ih fun d hd => hv d (List.mem_cons_of_mem _ hd)
    -- a character without a meaning of its own goes to the value
    have hstep : ∀ s, unquoted (c :: s) = (c :: (unquoted s).1, (unquoted s).2) := by
      intro s
      rw [unquoted, if_neg hspace]
      · rintro d s' rfl
        exact absurd rfl hescape
      · rintro rfl
        exact absurd rfl hescape
    rw [List.cons_append, hstep, hstep, hend, hblank]
    exact ⟨rfl, rfl⟩

/-- A plain value is read as it is: at the end, and in front of a blank if it is not
    empty. -/
theorem value_plain {v : Text} (hv : Plain v) (rest : Text) :
    value v = some (v, []) ∧ (v ≠ [] → value (v ++ ' ' :: rest) = some (v, rest)) := by
  obtain ⟨hend, hblank⟩ := unquoted_plain hv.1 rest
  cases v with
  | nil => exact ⟨rfl, fun h => absurd rfl h⟩
  | cons c v =>
    have hspace : ¬ isspace c := (hv.1 c (List.mem_cons_self ..)).1
    have hquote : c ≠ '\'' := fun h => hv.2 (congrArg some h)
    -- neither a blank nor a quote in front: it is read as unquoted
    have hvalue : ∀ s, value (c :: s) = some (unquoted (c :: s)) := by
      intro s
      rw [value, List.dropWhile_cons_of_neg hspace]
      split
      · rename_i heq
        exact absurd (List.cons.inj heq).1 hquote
      · rfl
    rw [List.cons_append, hvalue, hvalue, ← List.cons_append, hend, hblank]
    exact ⟨rfl, fun _ => rfl⟩

/-- Plain values, none of them empty except perhaps the last. -/
def Readable (ps : Pairs) : Prop :=
  (∀ p ∈ ps, Plain p.2) ∧ ∀ p ∈ ps.dropLast, p.2 ≠ []

/-- Readable pairs are read back. -/
theorem parseFrom_render {ps : Pairs} (hkeys : ∀ p ∈ ps, Keyword p.1) (hps : Readable ps)
    {fuel : Nat} (hfuel : ps.length < fuel) : parseFrom fuel (render ps) = some ps := by
  induction ps using render.induct generalizing fuel with
  | case1 =>
    obtain ⟨fuel, rfl⟩ := Nat.exists_eq_succ_of_ne_zero (Nat.ne_of_gt hfuel)
    rfl
  | case2 p =>
    obtain ⟨fuel, rfl⟩ : ∃ n, fuel = n + 2 := ⟨fuel - 2, by simp at hfuel; omega⟩
    have hp : p ∈ [p] := List.mem_cons_self ..
    rw [render, parseFrom_keyword (hkeys p hp), (value_plain (hps.1 p hp) []).1]
    rfl
  | case3 p q ps ih =>
    obtain ⟨fuel, rfl⟩ := Nat.exists_eq_succ_of_ne_zero (Nat.ne_of_gt (Nat.zero_lt_of_lt hfuel))
    have hp : p ∈ p :: q :: ps := List.mem_cons_self ..
    have hne : p.2 ≠ [] := hps.2 p (by simp)
    have hrest := ih (fun r hr => hkeys r (List.mem_cons_of_mem _ hr))
      ⟨fun r hr => hps.1 r (List.mem_cons_of_mem _ hr), fun r hr => hps.2 r (by
        rw [List.dropLast_cons_cons]
        exact List.mem_cons_of_mem _ hr)⟩
      (Nat.lt_of_succ_lt_succ hfuel)
    rw [render, List.append_assoc, List.cons_append, parseFrom_keyword (hkeys p hp),
      (value_plain (hps.1 p hp) _).2 hne]
    show (do
      let ps' ← parseFrom fuel (render (q :: ps))
      return (p.1, p.2) :: ps') = _
    rw [hrest]
    rfl

/-- An empty value in front of a blank swallows what follows: less is read than was
    written. -/
theorem size_lt_of_empty {ps ps' : Pairs} (hkeys : ∀ p ∈ ps, Keyword p.1)
    (hplain : ∀ p ∈ ps, Plain p.2) (hempty : ∃ p ∈ ps.dropLast, p.2 = []) {fuel : Nat}
    (h : parseFrom fuel (render ps) = some ps') : size ps' < size ps := by
  induction ps using render.induct generalizing fuel ps' with
  | case1 => simp at hempty
  | case2 p => simp at hempty
  | case3 p q ps ih =>
    cases fuel with
    | zero => cases h
    | succ fuel =>
      have hp : p ∈ p :: q :: ps := List.mem_cons_self ..
      rw [render, List.append_assoc, List.cons_append, parseFrom_keyword (hkeys p hp)] at h
      simp only [Option.bind_eq_bind, Option.bind_eq_some_iff] at h
      obtain ⟨⟨v, rest⟩, hvalue, rest', hrest', heq⟩ := h
      obtain rfl : (p.1, v) :: rest' = ps' := Option.some.inj heq
      have hwritten := tail_render (q :: ps)
      have htail := tail_le (render (q :: ps))
      have hnonempty : render (q :: ps) ≠ [] := by
        cases ps <;> simp [render]
      rw [tail, if_neg hnonempty] at hwritten
      rw [size_cons, size_cons, ← hwritten]
      by_cases hne : p.2 = []
      · -- the blank behind the empty value is skipped
        rw [hne, List.nil_append] at hvalue
        have hv := (value_count hvalue).1
        have hskip : ((' ' :: render (q :: ps)).dropWhile isspace).length ≤
            (render (q :: ps)).length := by
          rw [List.dropWhile_cons_of_pos (by decide)]
          exact length_dropWhile_le _ _
        have hrest := (size_le hrest').1
        dsimp only at hrest ⊢
        omega
      · rw [(value_plain (hplain p hp) _).2 hne] at hvalue
        obtain ⟨rfl, rfl⟩ := Prod.mk.inj (Option.some.inj hvalue)
        have hless := ih (fun r hr => hkeys r (List.mem_cons_of_mem _ hr))
          (fun r hr => hplain r (List.mem_cons_of_mem _ hr)) (by
            obtain ⟨r, hr, hr'⟩ := hempty
            rw [List.dropLast_cons_cons] at hr
            rcases List.mem_cons.1 hr with rfl | hr
            · exact absurd hr' hne
            · exact ⟨r, hr, hr'⟩) hrest'
        rw [← hwritten] at hless
        dsimp only
        omega

/-! ## Round trips -/

/-- The text is read as these settings and no others. -/
def ReadsAs (s : Text) (ps : Pairs) : Prop :=
  ∃ ps', parse s = some ps' ∧ ∀ k, settings ps' k = settings ps k

theorem settings_of_mem {ps : Pairs} (hnodup : (ps.map Prod.fst).Nodup) {p : Text × Text}
    (hp : p ∈ ps) : settings ps p.1 = some p.2 := by
  have hnodup' : (ps.reverse.map Prod.fst).Nodup := by
    rw [List.map_reverse]
    exact List.nodup_reverse.2 hnodup
  -- no later pair has the same keyword, so the lookup stops here
  obtain ⟨l₁, l₂, hsplit⟩ := List.append_of_mem (List.mem_reverse.2 hp)
  rw [hsplit, List.map_append, List.map_cons, List.nodup_append] at hnodup'
  rw [settings, List.lookup_eq_some_iff]
  refine ⟨l₁, l₂, hsplit, fun q hq => ?_⟩
  have hne := hnodup'.2.2 q.1 (List.mem_map_of_mem hq) p.1 (List.mem_cons_self ..)
  simpa using hne.symm

theorem mem_of_settings {ps : Pairs} {k v : Text} (h : settings ps k = some v) : (k, v) ∈ ps := by
  rw [settings, List.lookup_eq_some_iff] at h
  obtain ⟨l₁, l₂, hsplit, -⟩ := h
  rw [← List.mem_reverse, hsplit]
  exact List.mem_append_right _ (List.mem_cons_self ..)

/-- Pairs with the same settings as distinct keywords are at least as long. -/
theorem size_le_of_settings {ps ps' : Pairs} (hnodup : (ps.map Prod.fst).Nodup)
    (h : ∀ k, settings ps' k = settings ps k) : size ps ≤ size ps' ∧ ∀ p ∈ ps, p ∈ ps' := by
  have hsub : ∀ p ∈ ps, p ∈ ps' := fun p hp =>
    mem_of_settings ((h p.1).trans (settings_of_mem hnodup hp))
  refine ⟨?_, hsub⟩
  obtain ⟨l, hperm, hl⟩ := List.subperm_of_subset (hnodup.of_map _) hsub
  rw [← size_perm hperm]
  exact size_sublist hl

/-- A text that is read as these settings is long enough to say them. -/
theorem ReadsAs.size_le {s : Text} {ps : Pairs} (hnodup : (ps.map Prod.fst).Nodup)
    (h : ReadsAs s ps) : size ps ≤ tail s := by
  obtain ⟨ps', hparse, hsettings⟩ := h
  exact Nat.le_trans (size_le_of_settings hnodup hsettings).1 (Conninfo.size_le hparse).1

/-- **Round trip**: pairs with distinct keywords that are written out are read back
    exactly when they are readable. -/
theorem readsAs_render_iff {ps : Pairs} (hkeys : ∀ p ∈ ps, Keyword p.1)
    (hnodup : (ps.map Prod.fst).Nodup) : ReadsAs (render ps) ps ↔ Readable ps := by
  constructor
  · rintro ⟨ps', hparse, hsettings⟩
    -- what was read is as long as what was written, so nothing was lost on the way
    obtain ⟨hsize, hsub⟩ := size_le_of_settings hnodup hsettings
    obtain ⟨hle, hplain⟩ := size_le hparse
    rw [tail_render] at hle hplain
    have hps : ∀ p ∈ ps, Plain p.2 := fun p hp => hplain (by omega) p (hsub p hp)
    refine ⟨hps, fun p hp hempty => ?_⟩
    have := size_lt_of_empty hkeys hps ⟨p, hp, hempty⟩ hparse
    omega
  · intro hps
    refine ⟨ps, parseFrom_render hkeys hps ?_, fun _ => rfl⟩
    -- every pair has its `=`, so the budget of `parse` is large enough
    have hwritten := tail_render ps
    have htail := tail_le (render ps)
    have hlength := two_mul_length_le_size ps
    rcases Nat.eq_zero_or_pos ps.length with hzero | hpos
    · omega
    · omega

/-- A `const char*` in between only adds that the text has no NUL. -/
theorem readsAs_cStr_render_iff {ps : Pairs} (hkeys : ∀ p ∈ ps, Keyword p.1)
    (hnodup : (ps.map Prod.fst).Nodup) :
    ReadsAs (cStr (render ps)) ps ↔ Readable ps ∧ '\x00' ∉ render ps := by
  by_cases hnul : '\x00' ∈ render ps
  · -- the text that arrives is too short
    refine ⟨fun h => ?_, fun h => absurd hnul h.2⟩
    have hread := h.size_le hnodup
    have hcut := length_cStr_lt hnul
    have htail := tail_le (cStr (render ps))
    have hwritten := tail_render ps
    rw [tail, if_neg (List.ne_nil_of_mem hnul)] at hwritten
    omega
  · rw [cStr_eq_self hnul, readsAs_render_iff hkeys hnodup]
    exact (and_iff_left hnul).symm

end SyncLayer.Conninfo
