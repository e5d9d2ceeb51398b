import Mathlib.Data.List.Basic

/-!
# Lists Cut Into Chunks

`chunks n l` cuts `l` into consecutive pieces of `n` elements, the last one possibly
shorter. The pieces are the slices `(l.drop (n * b)).take n` (`mem_chunks`), and element
`i` is in piece `i / n` (`chunks_split`, `exists_chunks_split`).
-/

namespace SyncLayer.Chunks

variable {α : Type}

/-- Consecutive pieces of length `n`, the last one possibly shorter. -/
def chunks (n : Nat) (l : List α) : List (List α) :=
  if _h : l = [] ∨ n = 0 then [] else l.take n :: chunks n (l.drop n)
termination_by l.length
decreasing_by
  have := List.length_pos_iff.2 fun h => _h (Or.inl h)
  simp only [List.length_drop]
  omega

@[simp] theorem chunks_nil (n : Nat) : chunks n ([] : List α) = [] := by
  rw [chunks]; simp

theorem chunks_of_ne_nil {n : Nat} (hn : 0 < n) {l : List α} (hl : l ≠ []) :
    chunks n l = l.take n :: chunks n (l.drop n) := by
  rw [chunks, dif_neg (by simp [hl]; omega)]

/-- Put together again, the chunks are the list. -/
theorem flatten_chunks {n : Nat} (hn : 0 < n) (l : List α) : (chunks n l).flatten = l := by
  induction l using chunks.induct n with
  | case1 l h =>
    obtain rfl := h.resolve_right (by omega)
    rw [chunks_nil]
    rfl
  | case2 l h ih =>
    have hl : l ≠ [] := fun hnil => h (Or.inl hnil)
    rw [chunks_of_ne_nil hn hl, List.flatten_cons, ih, List.take_append_drop]

/-- The chunks are the nonempty slices at the multiples of `n`. -/
theorem mem_chunks {n : Nat} (hn : 0 < n) {l c : List α} :
    c ∈ chunks n l ↔ ∃ b, c = (l.drop (n * b)).take n ∧ c ≠ [] := by
  induction l using chunks.induct n with
  | case1 l h =>
    obtain rfl := h.resolve_right (by omega)
    simp
  | case2 l h ih =>
    have hl : l ≠ [] := fun hnil => h (Or.inl hnil)
    rw [chunks_of_ne_nil hn hl, List.mem_cons, ih]
    constructor
    · rintro (rfl | ⟨b, rfl, hne⟩)
      · -- the first slice, or a slice of what is left, shifted by `n`
        exact ⟨0, by simp, fun h => by simp [hl] at h; omega⟩
      · refine ⟨b + 1, ?_, hne⟩
        rw [List.drop_drop, Nat.mul_succ, Nat.add_comm]
    · rintro ⟨b, rfl, hne⟩
      cases b with
      | zero => exact Or.inl (by simp)
      | succ b =>
        refine Or.inr ⟨b, ?_, hne⟩
        rw [List.drop_drop, Nat.mul_succ, Nat.add_comm]

/-! ## Sizes -/

/-- A chunk has an element, and at most `n`. -/
theorem length_of_mem_chunks {n : Nat} (hn : 0 < n) {l c : List α} (hc : c ∈ chunks n l) :
    1 ≤ c.length ∧ c.length ≤ n := by
  obtain ⟨b, rfl, hne⟩ := (mem_chunks hn).1 hc
  exact ⟨List.length_pos_iff.2 hne, List.length_take_le ..⟩

theorem chunks_eq_nil {n : Nat} (hn : 0 < n) {l : List α} : chunks n l = [] ↔ l = [] := by
  constructor
  · intro h
    rw [← flatten_chunks hn l, h]
    rfl
  · rintro rfl
    exact chunks_nil n

/-- All chunks but the last are full. -/
theorem length_of_mem_dropLast_chunks {n : Nat} (hn : 0 < n) {l c : List α}
    (hc : c ∈ (chunks n l).dropLast) : c.length = n := by
  induction l using chunks.induct n with
  | case1 l h =>
    obtain rfl := h.resolve_right (by omega)
    simp at hc
  | case2 l h ih =>
    have hl : l ≠ [] := fun hnil => h (Or.inl hnil)
    rw [chunks_of_ne_nil hn hl] at hc
    by_cases hrest : chunks n (l.drop n) = []
    · simp [hrest] at hc
    · rw [List.dropLast_cons_of_ne_nil hrest] at hc
      rcases List.mem_cons.1 hc with rfl | hc
      · -- something is left behind a chunk that is not the last
        have hlen : (l.drop n).length ≠ 0 := by
          rwa [Ne, List.length_eq_zero_iff, ← chunks_eq_nil hn]
        rw [List.length_drop] at hlen
        exact List.length_take_of_le (by omega)
      · exact ih hc

theorem length_chunks {n : Nat} (hn : 0 < n) (l : List α) :
    (chunks n l).length = (l.length + (n - 1)) / n := by
  induction l using chunks.induct n with
  | case1 l h =>
    obtain rfl := h.resolve_right (by omega)
    rw [chunks_nil, List.length_nil, List.length_nil, Nat.zero_add, Nat.div_eq_of_lt (by omega)]
  | case2 l h ih =>
    have hl : l ≠ [] := fun hnil => h (Or.inl hnil)
    have hpos : 0 < l.length := List.length_pos_iff.2 hl
    rw [chunks_of_ne_nil hn hl, List.length_cons, ih, List.length_drop]
    by_cases hlen : n ≤ l.length
    · have hsum : l.length + (n - 1) = l.length - n + (n - 1) + n := by omega
      rw [hsum, Nat.add_div_right _ hn]
    · rw [Nat.sub_eq_zero_of_le (by omega), Nat.zero_add, Nat.div_eq_of_lt (by omega)]
      symm
      rw [Nat.div_eq_iff hn]
      omega

/-! ## Positions

Element `i` of the list lies in chunk `i / n`, and the chunks up to that one are a prefix
of the list. -/

/-- Up to a chunk, the chunks are a prefix; the elements of the chunk have positions that
    lead to it. -/
theorem chunks_split {n : Nat} (hn : 0 < n) {l c : List α} {pre post : List (List α)}
    (h : chunks n l = pre ++ c :: post) :
    (pre ++ [c]).flatten = l.take (n * (pre.length + 1)) ∧
      ∀ a ∈ c, ∃ i : Nat, l[i]? = some a ∧ i / n = pre.length := by
  induction pre generalizing l with
  | nil =>
    have hl : l ≠ [] := by
      rintro rfl
      rw [chunks_nil] at h
      cases h
    rw [chunks_of_ne_nil hn hl] at h
    obtain ⟨rfl, -⟩ := List.cons.inj h
    refine ⟨by simp, fun a ha => ?_⟩
    obtain ⟨i, hi, rfl⟩ := List.getElem_of_mem ha
    -- an element of the first chunk has a position below `n`
    have hin : i < n := by
      rw [List.length_take] at hi
      omega
    refine ⟨i, ?_, Nat.div_eq_of_lt hin⟩
    rw [← List.getElem?_take_of_lt hin]
    exact List.getElem?_eq_getElem hi
  | cons d pre ih =>
    have hl : l ≠ [] := by
      rintro rfl
      rw [chunks_nil] at h
      cases h
    rw [chunks_of_ne_nil hn hl] at h
    obtain ⟨rfl, hrest⟩ := List.cons.inj h
    -- positions behind the first chunk are shifted by `n`
    obtain ⟨hinit, hpos⟩ := ih hrest
    constructor
    · rw [List.cons_append, List.flatten_cons, hinit, ← List.take_add, List.length_cons,
        Nat.mul_succ n (pre.length + 1), Nat.add_comm n]
    · intro a ha
      obtain ⟨i, hi, hdiv⟩ := hpos a ha
      refine ⟨n + i, by rwa [List.getElem?_drop] at hi, ?_⟩
      rw [Nat.add_div_left i hn, hdiv, List.length_cons]

/-- Every position leads to a chunk. -/
theorem exists_chunks_split {n : Nat} (hn : 0 < n) {l : List α} {i : Nat} {a : α}
    (h : l[i]? = some a) :
    ∃ pre c post, chunks n l = pre ++ c :: post ∧ a ∈ c ∧ pre.length = i / n := by
  induction l using chunks.induct n generalizing i with
  | case1 l hnil =>
    obtain rfl := hnil.resolve_right (by omega)
    cases h
  | case2 l hne ih =>
    have hl : l ≠ [] := fun hnil => hne (Or.inl hnil)
    rw [chunks_of_ne_nil hn hl]
    by_cases hin : i < n
    · refine ⟨[], l.take n, chunks n (l.drop n), rfl, ?_, (Nat.div_eq_of_lt hin).symm⟩
      exact List.mem_of_getElem? (by rwa [List.getElem?_take_of_lt hin])
    · have hi : n + (i - n) = i := by omega
      have hdrop : (l.drop n)[i - n]? = some a := by rwa [List.getElem?_drop, hi]
      obtain ⟨pre, c, post, hsplit, ha, hlen⟩ := ih hdrop
      refine ⟨l.take n :: pre, c, post, by rw [hsplit]; rfl, ha, ?_⟩
      rw [List.length_cons, hlen, ← Nat.add_div_left (i - n) hn, hi]

/-! ## Chunks of chunks -/

/-- Chunks can be taken of both parts of a list that is cut at a multiple of `n`. -/
theorem chunks_append_of_dvd {n : Nat} (hn : 0 < n) {l₁ : List α} (l₂ : List α)
    (h : n ∣ l₁.length) : chunks n (l₁ ++ l₂) = chunks n l₁ ++ chunks n l₂ := by
  induction l₁ using chunks.induct n with
  | case1 l₁ hnil =>
    obtain rfl := hnil.resolve_right (by omega)
    rw [chunks_nil]
    rfl
  | case2 l₁ hne ih =>
    have hl : l₁ ≠ [] := fun hnil => hne (Or.inl hnil)
    have hlen : n ≤ l₁.length := Nat.le_of_dvd (List.length_pos_iff.2 hl) h
    have happend : l₁ ++ l₂ ≠ [] := by simp [hl]
    rw [chunks_of_ne_nil hn hl, chunks_of_ne_nil hn happend,
      List.take_append_of_le_length hlen, List.drop_append_of_le_length hlen, ih, List.cons_append]
    rw [List.length_drop]
    exact Nat.dvd_sub h (Nat.dvd_refl n)

/-- Cutting chunks whose length is a multiple of `n` into chunks of `n` is cutting the
    list. -/
theorem flatMap_chunks_chunks {n m : Nat} (hn : 0 < n) (hm : 0 < m) (h : n ∣ m)
    (l : List α) : (chunks m l).flatMap (chunks n) = chunks n l := by
  induction l using chunks.induct m with
  | case1 l hnil =>
    obtain rfl := hnil.resolve_right (by omega)
    rw [chunks_nil, chunks_nil]
    rfl
  | case2 l hne ih =>
    have hl : l ≠ [] := fun hnil => hne (Or.inl hnil)
    rw [chunks_of_ne_nil hm hl, List.flatMap_cons, ih]
    by_cases hlen : m ≤ l.length
    · -- a full chunk is cut without a remainder; a short one is the last
      rw [← chunks_append_of_dvd hn, List.take_append_drop]
      rwa [List.length_take, Nat.min_eq_left hlen]
    · rw [List.take_of_length_le (by omega), List.drop_of_length_le (by omega), chunks_nil,
        List.append_nil]

end SyncLayer.Chunks
