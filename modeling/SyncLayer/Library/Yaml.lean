import Mathlib.Data.Int.Notation
import SyncLayer.Library.CString

/-!
# YAML Documents

What a program reads of a YAML document through yaml-cpp. A `Tree` is a loaded document, a
`Node` is a handle that subscripts return: there are two for a key that is missing, since a
subscript of a constant node returns one that must not be subscripted again.

`Tree.lookup` follows a path of keys in a tree and `Tree.write` puts a scalar at one.
`Node.path` is how a program follows it, from a root that is not constant. What is written at
a path is read there (`path_write_self`), and no other path is read differently
(`path_write_of_ne`).
-/

namespace SyncLayer.Yaml

open SyncLayer.CString

/-! ## Trees -/

/-- A loaded document. The keys of a map that are no scalars are left out. -/
inductive Tree where
  | null
  | scalar (text : String)
  | sequence (items : List Tree)
  | map (entries : List (String × Tree))

/-- The value of the first entry with this key. -/
def find (key : String) : List (String × Tree) → Option Tree
  | [] => none
  | (k, y) :: rest => if k = key then some y else find key rest

/-- Give the key another value, or add it at the end. -/
def put (key : String) (y : Tree) : List (String × Tree) → List (String × Tree)
  | [] => [(key, y)]
  | (k, z) :: rest => if k = key then (k, y) :: rest else (k, z) :: put key y rest

theorem find_put_self (key : String) (y : Tree) (entries : List (String × Tree)) :
    find key (put key y entries) = some y := by
  induction entries with
  | nil => simp [put, find]
  | cons entry rest ih =>
    by_cases h : entry.1 = key
    · simp [put, find, h]
    · simp [put, find, h, ih]

theorem find_put_of_ne {key key' : String} (hne : key' ≠ key) (y : Tree)
    (entries : List (String × Tree)) : find key' (put key y entries) = find key' entries := by
  induction entries with
  | nil => simp [put, find, Ne.symm hne]
  | cons entry rest ih =>
    by_cases h : entry.1 = key
    · simp [put, find, h, Ne.symm hne]
    · simp [put, find, h, ih]

namespace Tree

/-- The entries of a section: a null is a section with no entries. -/
def entries? : Tree → Option (List (String × Tree))
  | .null => some []
  | .scalar _ => none
  | .sequence _ => none
  | .map entries => some entries

def scalar? : Tree → Option String
  | .scalar text => some text
  | _ => none

/-- What may be read as a string: a null is the text null. -/
def text? : Tree → Option String
  | .null => some "null"
  | .scalar text => some text
  | .sequence _ => none
  | .map _ => none

/-- Follow a path of keys. -/
def lookup : List String → Tree → Option Tree
  | [], y => some y
  | key :: path, y => do
    let entries ← y.entries?
    let sub ← find key entries
    sub.lookup path

/-- Put a scalar at a path. Missing sections are made; what is no section is not changed. -/
def write (text : String) : List String → Tree → Option Tree
  | [], _ => some (.scalar text)
  | key :: path, y => do
    let entries ← y.entries?
    let sub ← ((find key entries).getD .null).write text path
    return .map (put key sub entries)

end Tree

/-! ## Nodes -/

inductive Exception where
  | badFile
  | parser (text : String)
  | invalidNode (key : String)
  | badSubscript (key : String)
  | badConversion
  deriving DecidableEq

/-- A handle. -/
inductive Node where
  /-- From a subscript of a constant node; it remembers the key. -/
  | invalid (key : String)
  /-- From a subscript of a node that is not constant. -/
  | undefined
  | value (y : Tree)

namespace Node

/-- `operator[]` of a constant node, for a key that is no number. -/
def get (key : String) : Node → Except Exception Node
  | .invalid k => throw (.invalidNode k)
  | .undefined => return .invalid key
  | .value y =>
    match y with
    | .null => return .invalid key
    | .scalar _ => throw (.badSubscript key)
    | .sequence _ => return .invalid key
    | .map entries =>
      match find key entries with
      | some sub => return .value sub
      | none => return .invalid key

/-- `operator[]` of a node that is not constant, for a key that is no number. What it adds to
    the document is never seen. -/
def getMut (key : String) : Node → Except Exception Node
  | .invalid k => throw (.invalidNode k)
  | .undefined => return .undefined
  | .value y =>
    match y with
    | .null => return .undefined
    | .scalar _ => throw (.badSubscript key)
    | .sequence _ => return .undefined
    | .map entries =>
      match find key entries with
      | some sub => return .value sub
      | none => return .undefined

/-- `operator bool` -/
def isDefined : Node → Bool
  | .invalid _ => false
  | .undefined => false
  | .value _ => true

/-- The nodes that a range-based `for` sees; those of a map are pairs, and no nodes. -/
def items : Node → List Node
  | .value (.sequence items) => items.map .value
  | .value (.map entries) => entries.map fun _ => .invalid ""
  | _ => []

/-- `as<std::string>(fallback)` -/
def asStringOr (fallback : String) : Node → String
  | .value (.scalar text) => text
  | .value .null => "null"
  | _ => fallback

/-- `as<std::string>()` -/
def asString : Node → Except Exception String
  | .invalid k => throw (.invalidNode k)
  | .value (.scalar text) => return text
  | .value .null => return "null"
  | _ => throw .badConversion

/-- `as<T>(fallback)` for a type whose values are written as scalars. -/
def asOr {α : Type} (ofScalar : String → Option α) (fallback : α) : Node → α
  | .value (.scalar text) => (ofScalar text).getD fallback
  | _ => fallback

/-- The tree that is there. -/
def tree? : Node → Option Tree
  | .value y => some y
  | _ => none

/-- Subscripts one after the other. -/
def follow : List String → Node → Except Exception Node
  | [], n => return n
  | key :: path, n => do
    let sub ← n.get key
    sub.follow path

/-- The same from a root that is not constant, kept in constant nodes from there on. -/
def path (keys : List String) (root : Node) : Except Exception Node :=
  match keys with
  | [] => return root
  | key :: keys => do
    let sub ← root.getMut key
    sub.follow keys

end Node

/-! ## Scalars -/

def isOctal (c : Char) : Bool := '0' ≤ c && c ≤ '7'

def hexValue (c : Char) : Option Nat :=
  if c.isDigit then some (c.toNat - '0'.toNat)
  else if 'a' ≤ c ∧ c ≤ 'f' then some (c.toNat - 'a'.toNat + 10)
  else if 'A' ≤ c ∧ c ≤ 'F' then some (c.toNat - 'A'.toNat + 10)
  else none

def hexLiteral : List Char → Option Nat
  | [] => none
  | digits => digits.foldlM (fun n c => (hexValue c).map (16 * n + ·)) 0

def decimalLiteral (digits : List Char) : Option Nat :=
  if digits ≠ [] ∧ digits.all Char.isDigit then some (digitsValue digits) else none

/-- A number: hexadecimal behind `0x`, octal behind a zero, else decimal. -/
def natLiteral : List Char → Option Nat
  | '0' :: 'x' :: digits => hexLiteral digits
  | '0' :: 'X' :: digits => hexLiteral digits
  | '0' :: digits =>
    if digits.all isOctal then some (Nat.ofDigitChars 8 digits 0) else none
  | digits => decimalLiteral digits

def intLiteral : List Char → Option Int
  | '-' :: rest => (natLiteral rest).map Int.negOfNat
  | '+' :: rest => (natLiteral rest).map Int.ofNat
  | rest => (natLiteral rest).map Int.ofNat

/-- What `as<int>` takes a scalar for; the whole of it is read. -/
def toInt (text : String) : Option Int32 :=
  match intLiteral text.toList with
  | some n =>
    if Int32.minValue.toInt ≤ n ∧ n ≤ Int32.maxValue.toInt then some (Int32.ofInt n) else none
  | none => none

def trueNames : List String :=
  ["y", "Y", "yes", "Yes", "YES", "true", "True", "TRUE", "on", "On", "ON"]

def falseNames : List String :=
  ["n", "N", "no", "No", "NO", "false", "False", "FALSE", "off", "Off", "OFF"]

/-- What `as<bool>` takes a scalar for. -/
def toBool (text : String) : Option Bool :=
  if text ∈ trueNames then some true else if text ∈ falseNames then some false else none

example : toInt "0x1F" = some 31 ∧ toInt "010" = some 8 ∧ toInt "08" = none := by decide

/-- A decimal number without superfluous zeros is read as it is written. -/
theorem natLiteral_toDigits (n : Nat) : natLiteral (Nat.toDigits 10 n) = some n := by
  have hdecimal : decimalLiteral (Nat.toDigits 10 n) = some n := by
    have hdigits : (Nat.toDigits 10 n).all Char.isDigit = true := by
      rw [List.all_eq_true]
      intro c hc
      exact Nat.isDigit_of_mem_toDigits (by decide) (by decide) hc
    rw [decimalLiteral, if_pos ⟨Nat.toDigits_ne_nil, hdigits⟩, digitsValue_toDigits]
  by_cases hn : n = 0
  · subst hn
    rfl
  · -- the first digit is no zero
    have hhead : ∀ rest, Nat.toDigits 10 n ≠ '0' :: rest := by
      intro rest hrest
      exact hn (toDigits_head (by rw [hrest]; rfl))
    unfold natLiteral
    split
    · next h => exact absurd h (hhead _)
    · next h => exact absurd h (hhead _)
    · next h => exact absurd h (hhead _)
    · exact hdecimal

/-- A number begins with a decimal digit. -/
theorem exists_digit_of_natLiteral {s : List Char} {n : Nat} (h : natLiteral s = some n) :
    ∃ c rest, s = c :: rest ∧ c.isDigit := by
  unfold natLiteral at h
  split at h
  · exact ⟨_, _, rfl, by decide⟩
  · exact ⟨_, _, rfl, by decide⟩
  · exact ⟨_, _, rfl, by decide⟩
  · unfold decimalLiteral at h
    split at h
    · next hdigits =>
      cases s with
      | nil => exact absurd rfl hdigits.1
      | cons c rest => exact ⟨c, rest, rfl, List.all_eq_true.1 hdigits.2 c (List.mem_cons_self ..)⟩
    · cases h

/-- A digit is no sign. -/
theorem intLiteral_digit {c : Char} (hc : c.isDigit) (s : List Char) :
    intLiteral (c :: s) = (natLiteral (c :: s)).map Int.ofNat := by
  unfold intLiteral
  split
  · next h =>
    cases h
    exact absurd hc (by decide)
  · next h =>
    cases h
    exact absurd hc (by decide)
  · rfl

theorem intLiteral_toDigits (n : Nat) : intLiteral (Nat.toDigits 10 n) = some n := by
  obtain ⟨c, rest, hs, hc⟩ := exists_digit_of_natLiteral (natLiteral_toDigits n)
  have hnat := natLiteral_toDigits n
  rw [hs] at hnat ⊢
  rw [intLiteral_digit hc, hnat]
  rfl

theorem intLiteral_plus (n : Nat) : intLiteral ('+' :: Nat.toDigits 10 n) = some n := by
  rw [intLiteral, natLiteral_toDigits]
  rfl

theorem intLiteral_minus (n : Nat) : intLiteral ('-' :: Nat.toDigits 10 n) = some (-(n : Int)) := by
  rw [intLiteral, natLiteral_toDigits, Option.map_some, Int.negOfNat_eq]
  rfl

theorem intLiteral_toString (n : Int) : intLiteral (toString n).toList = some n := by
  rw [Int.toString_eq_repr]
  cases n with
  | ofNat m =>
    rw [Int.repr, Nat.toList_repr, intLiteral_toDigits]
    rfl
  | negSucc m =>
    have hsign : "-".toList ++ Nat.toDigits 10 (m + 1) = '-' :: Nat.toDigits 10 (m + 1) := by
      simp
    rw [Int.repr, String.toList_append, Nat.toList_repr, hsign, intLiteral_minus]
    rfl

/-- `strtol` finds a number in front of every integer, if not the same one. -/
theorem strtol_of_intLiteral {s : List Char} {n : Int} (h : intLiteral s = some n) :
    strtol s ≠ none := by
  have hprefix : ∀ {t : List Char} {m : Nat}, natLiteral t = some m → decimalPrefix t ≠ none := by
    intro t m ht
    obtain ⟨c, rest, rfl, hc⟩ := exists_digit_of_natLiteral ht
    rw [decimalPrefix, List.takeWhile_cons_of_pos hc]
    exact Option.some_ne_none _
  unfold intLiteral at h
  split at h
  · obtain ⟨m, hm, _⟩ := Option.map_eq_some_iff.1 h
    rw [strtol_minus, ne_eq, Option.map_eq_none_iff]
    exact hprefix hm
  · obtain ⟨m, hm, _⟩ := Option.map_eq_some_iff.1 h
    rw [strtol_plus, ne_eq, Option.map_eq_none_iff]
    exact hprefix hm
  · obtain ⟨m, hm, _⟩ := Option.map_eq_some_iff.1 h
    have hne := hprefix hm
    obtain ⟨c, rest, rfl, hc⟩ := exists_digit_of_natLiteral hm
    rw [strtol_digit hc, ne_eq, Option.map_eq_none_iff]
    exact hne

/-! ## What a path reads -/

theorem isDefined_eq (n : Node) : n.isDefined = n.tree?.isSome := by
  cases n <;> rfl

theorem eq_value_of_tree {n : Node} {y : Tree} (h : n.tree? = some y) : n = .value y := by
  cases n with
  | invalid key => cases h
  | undefined => cases h
  | value z =>
    cases h
    rfl

/-- A list of scalars, item by item. -/
theorem mapM_asString (ts : List String) :
    (Node.value (.sequence (ts.map .scalar))).items.mapM Node.asString = .ok ts := by
  rw [Node.items, List.map_map]
  induction ts with
  | nil => rfl
  | cons t ts ih =>
    rw [List.map_cons, List.mapM_cons, ih]
    rfl

theorem asStringOr_eq (n : Node) (fallback : String) :
    n.asStringOr fallback = (n.tree?.bind Tree.text?).getD fallback := by
  obtain _ | _ | (_ | _ | _ | _) := n <;> rfl

theorem asOr_eq {α : Type} (ofScalar : String → Option α) (n : Node) (fallback : α) :
    n.asOr ofScalar fallback = ((n.tree?.bind Tree.scalar?).bind ofScalar).getD fallback := by
  obtain _ | _ | (_ | _ | _ | _) := n <;> rfl

section Path

variable {y y' sub : Tree} {entries : List (String × Tree)} {key text : String}
  {p q : List String}

/-- A section is a null or a map. -/
theorem null_or_map (hentries : y.entries? = some entries) :
    y = .null ∧ entries = [] ∨ y = .map entries := by
  cases y with
  | null =>
    cases hentries
    exact .inl ⟨rfl, rfl⟩
  | scalar t => cases hentries
  | sequence items => cases hentries
  | map es =>
    cases hentries
    exact .inr rfl

theorem get_of_find (hentries : y.entries? = some entries) (hfind : find key entries = some sub) :
    (Node.value y).get key = .ok (.value sub) := by
  obtain ⟨rfl, rfl⟩ | rfl := null_or_map hentries
  · cases hfind
  · simp only [Node.get, hfind]
    rfl

theorem get_of_missing (hentries : y.entries? = some entries) (hfind : find key entries = none) :
    (Node.value y).get key = .ok (.invalid key) := by
  obtain ⟨rfl, rfl⟩ | rfl := null_or_map hentries
  · rfl
  · simp only [Node.get, hfind]
    rfl

theorem exists_get (hentries : y.entries? = some entries) (key : String) :
    ∃ n, (Node.value y).get key = .ok n ∧ n.tree? = find key entries := by
  cases hfind : find key entries with
  | some sub => exact ⟨.value sub, get_of_find hentries hfind, rfl⟩
  | none => exact ⟨.invalid key, get_of_missing hentries hfind, rfl⟩

theorem getMut_of_find (hentries : y.entries? = some entries)
    (hfind : find key entries = some sub) : (Node.value y).getMut key = .ok (.value sub) := by
  obtain ⟨rfl, rfl⟩ | rfl := null_or_map hentries
  · cases hfind
  · simp only [Node.getMut, hfind]
    rfl

theorem getMut_of_missing (hentries : y.entries? = some entries)
    (hfind : find key entries = none) : (Node.value y).getMut key = .ok .undefined := by
  obtain ⟨rfl, rfl⟩ | rfl := null_or_map hentries
  · rfl
  · simp only [Node.getMut, hfind]
    rfl

theorem write_cons (hwrite : y.write text (key :: p) = some y') :
    ∃ entries sub, y.entries? = some entries ∧
      ((find key entries).getD .null).write text p = some sub ∧
      y' = .map (put key sub entries) := by
  simp only [Tree.write, Option.bind_eq_bind, Option.bind_eq_some_iff, Option.pure_def,
    Option.some.injEq] at hwrite
  obtain ⟨entries, hentries, sub, hsub, rfl⟩ := hwrite
  exact ⟨entries, sub, hentries, hsub, rfl⟩

/-- What was written is read. -/
theorem follow_write_self (hwrite : y.write text p = some y') :
    (Node.value y').follow p = .ok (.value (.scalar text)) := by
  induction p generalizing y y' with
  | nil =>
    cases hwrite
    rfl
  | cons key p ih =>
    obtain ⟨entries, sub, _, hsub, rfl⟩ := write_cons hwrite
    rw [Node.follow, get_of_find rfl (find_put_self ..)]
    exact ih hsub

theorem lookup_cons_of_find (hentries : y.entries? = some entries)
    (hfind : find key entries = some sub) : y.lookup (key :: p) = sub.lookup p := by
  simp [Tree.lookup, hentries, hfind]

theorem lookup_cons_of_missing (hentries : y.entries? = some entries)
    (hfind : find key entries = none) : y.lookup (key :: p) = none := by
  simp [Tree.lookup, hentries, hfind]

theorem lookup_null (hp : p ≠ []) : Tree.null.lookup p = none := by
  cases p with
  | nil => exact absurd rfl hp
  | cons key p => exact lookup_cons_of_missing (y := .null) rfl rfl

/-- A path on which a scalar could be written is followed to the end, if only the last key
    may be missing. -/
theorem follow_of_write (hwrite : y.write text p = some y')
    (hlinked : y.lookup p.dropLast ≠ none) :
    ∃ n, (Node.value y).follow p = .ok n ∧ n.tree? = y.lookup p := by
  induction p generalizing y y' with
  | nil => exact ⟨.value y, rfl, rfl⟩
  | cons key p ih =>
    obtain ⟨entries, sub, hentries, hsub, _⟩ := write_cons hwrite
    cases hfind : find key entries with
    | some old =>
      have hold : old.lookup p.dropLast ≠ none := by
        by_cases hp : p = []
        · simp [hp, Tree.lookup]
        · rwa [List.dropLast_cons_of_ne_nil hp, lookup_cons_of_find hentries hfind] at hlinked
      rw [hfind] at hsub
      rw [Node.follow, get_of_find hentries hfind, lookup_cons_of_find hentries hfind]
      exact ih hsub hold
    | none =>
      cases p with
      | nil =>
        refine ⟨.invalid key, ?_, (lookup_cons_of_missing hentries hfind).symm⟩
        rw [Node.follow, get_of_missing hentries hfind]
        rfl
      | cons k p =>
        rw [List.dropLast_cons_of_ne_nil (List.cons_ne_nil k p)] at hlinked
        exact absurd (lookup_cons_of_missing hentries hfind) hlinked

/-- What is written at `p` is not seen on a path that leads elsewhere. -/
theorem follow_write_of_ne (hwrite : y.write text p = some y')
    (hlinked : y.lookup p.dropLast ≠ none) (hpq : ¬ p <+: q) (hqp : ¬ q <+: p) :
    (Node.value y').follow q = (Node.value y).follow q := by
  induction p generalizing y y' q with
  | nil => exact absurd (List.nil_prefix) hpq
  | cons key p ih =>
    cases q with
    | nil => exact absurd (List.nil_prefix) hqp
    | cons key' q =>
      obtain ⟨entries, sub, hentries, hsub, rfl⟩ := write_cons hwrite
      by_cases hkey : key' = key
      · subst hkey
        simp only [List.cons_prefix_cons, true_and] at hpq hqp
        have hp : p ≠ [] := by
          rintro rfl
          exact hpq List.nil_prefix
        rw [List.dropLast_cons_of_ne_nil hp] at hlinked
        -- the section on the way is there
        cases hfind : find key' entries with
        | none => exact absurd (lookup_cons_of_missing hentries hfind) hlinked
        | some old =>
          rw [lookup_cons_of_find hentries hfind] at hlinked
          rw [hfind] at hsub
          rw [Node.follow, Node.follow, get_of_find rfl (find_put_self ..),
            get_of_find hentries hfind]
          exact ih hsub hlinked hpq hqp
      · rw [Node.follow, Node.follow]
        have hput := find_put_of_ne hkey sub entries
        cases hfind : find key' entries with
        | none => rw [get_of_missing rfl (hput.trans hfind), get_of_missing hentries hfind]
        | some other => rw [get_of_find rfl (hput.trans hfind), get_of_find hentries hfind]

/-- A scalar can be written where all that is on the way are sections. -/
theorem exists_write (text : String) (hsections : ∀ q, q <+: p → q ≠ p → ∀ z,
    y.lookup q = some z → z.entries? ≠ none) : ∃ y', y.write text p = some y' := by
  induction p generalizing y with
  | nil => exact ⟨.scalar text, rfl⟩
  | cons key p ih =>
    obtain ⟨entries, hentries⟩ :=
      Option.ne_none_iff_exists'.1 (hsections [] List.nil_prefix (by simp) y rfl)
    have hsub : ∀ q, q <+: p → q ≠ p → ∀ z,
        ((find key entries).getD .null).lookup q = some z → z.entries? ≠ none := by
      intro q hq hne z hz
      cases hfind : find key entries with
      | some sub =>
        rw [hfind, Option.getD_some] at hz
        rw [← lookup_cons_of_find hentries hfind] at hz
        exact hsections (key :: q) (List.cons_prefix_cons.2 ⟨rfl, hq⟩) (by simpa using hne) z hz
      | none =>
        rw [hfind, Option.getD_none] at hz
        cases q with
        | nil =>
          cases hz
          simp [Tree.entries?]
        | cons k q =>
          rw [lookup_null (List.cons_ne_nil k q)] at hz
          cases hz
    obtain ⟨sub, hwrite⟩ := ih hsub
    exact ⟨.map (put key sub entries), by simp [Tree.write, hentries, hwrite]⟩

/-! ### From the root -/

/-- Only the section at the root may be missing, and the last key. -/
def Linked (p : List String) (y : Tree) : Prop := p.length ≤ 2 ∨ y.lookup p.dropLast ≠ none

/-- An undefined node is subscripted like an empty section. -/
theorem follow_undefined (hp : p ≠ []) : Node.undefined.follow p = (Node.value .null).follow p := by
  cases p with
  | nil => exact absurd rfl hp
  | cons key p => rfl

/-- Below the root, `Linked` says that the rest of the path has all its sections. -/
theorem Linked.section (hlinked : Linked (key :: p) y) (hp : p ≠ [])
    (hentries : y.entries? = some entries) :
    ((find key entries).getD .null).lookup p.dropLast ≠ none := by
  cases hlinked with
  | inl hshort =>
    have hone : p.length = 1 :=
      Nat.le_antisymm (Nat.le_of_succ_le_succ hshort) (List.length_pos_iff.2 hp)
    obtain ⟨k, rfl⟩ := List.length_eq_one_iff.1 hone
    simp [Tree.lookup]
  | inr hsome =>
    rw [List.dropLast_cons_of_ne_nil hp] at hsome
    cases hfind : find key entries with
    | some sub => rwa [lookup_cons_of_find hentries hfind] at hsome
    | none => exact absurd (lookup_cons_of_missing hentries hfind) hsome

theorem path_of_write (hwrite : y.write text p = some y') (hlinked : Linked p y)
    (hp : 2 ≤ p.length) : ∃ n, (Node.value y).path p = .ok n ∧ n.tree? = y.lookup p := by
  obtain _ | ⟨key, p⟩ := p
  · simp at hp
  obtain ⟨entries, sub, hentries, hsub, _⟩ := write_cons hwrite
  have hne : p ≠ [] := by
    rintro rfl
    simp at hp
  obtain ⟨n, hfollow, htree⟩ := follow_of_write hsub (hlinked.section hne hentries)
  refine ⟨n, ?_, ?_⟩
  · cases hfind : find key entries with
    | some old =>
      rw [Node.path, getMut_of_find hentries hfind]
      rwa [hfind] at hfollow
    | none =>
      rw [Node.path, getMut_of_missing hentries hfind]
      rw [hfind] at hfollow
      exact (follow_undefined hne).trans hfollow
  · cases hfind : find key entries with
    | some old => rw [htree, hfind, lookup_cons_of_find hentries hfind, Option.getD_some]
    | none =>
      rw [htree, hfind, lookup_cons_of_missing hentries hfind]
      exact lookup_null hne

theorem path_write_self (hwrite : y.write text p = some y') :
    (Node.value y').path p = .ok (.value (.scalar text)) := by
  cases p with
  | nil =>
    cases hwrite
    rfl
  | cons key p =>
    obtain ⟨entries, sub, _, hsub, rfl⟩ := write_cons hwrite
    rw [Node.path, getMut_of_find rfl (find_put_self ..)]
    exact follow_write_self hsub

theorem path_write_of_ne (hwrite : y.write text p = some y') (hlinked : Linked p y)
    (hpq : ¬ p <+: q) (hqp : ¬ q <+: p) : (Node.value y').path q = (Node.value y).path q := by
  obtain _ | ⟨key, p⟩ := p
  · exact absurd List.nil_prefix hpq
  obtain _ | ⟨key', q⟩ := q
  · exact absurd List.nil_prefix hqp
  obtain ⟨entries, sub, hentries, hsub, rfl⟩ := write_cons hwrite
  rw [Node.path, Node.path]
  by_cases hkey : key' = key
  · subst hkey
    simp only [List.cons_prefix_cons, true_and] at hpq hqp
    have hp : p ≠ [] := by
      rintro rfl
      exact hpq List.nil_prefix
    have hq : q ≠ [] := by
      rintro rfl
      exact hqp List.nil_prefix
    have hsection := follow_write_of_ne hsub (hlinked.section hp hentries) hpq hqp
    rw [getMut_of_find rfl (find_put_self ..)]
    cases hfind : find key' entries with
    | some old =>
      rw [getMut_of_find hentries hfind]
      rwa [hfind] at hsection
    | none =>
      rw [getMut_of_missing hentries hfind]
      rw [hfind] at hsection
      exact hsection.trans (follow_undefined hq).symm
  · have hput := find_put_of_ne hkey sub entries
    cases hfind : find key' entries with
    | none => rw [getMut_of_missing rfl (hput.trans hfind), getMut_of_missing hentries hfind]
    | some other => rw [getMut_of_find rfl (hput.trans hfind), getMut_of_find hentries hfind]

end Path

/-! ## What goes wrong on a path -/

/-- A value, unless something has gone wrong. -/
def orFault {α : Type} (fault : Option Exception) (a : α) : Except Exception α :=
  match fault with
  | some e => .error e
  | none => .ok a

/-- The first subscript of a constant node that throws: a scalar has none, and only the last
    key may be missing. -/
def followFault : List String → Tree → Option Exception
  | [], _ => none
  | key :: path, y =>
    if y.scalar? ≠ none then some (.badSubscript key)
    else
      match y.lookup [key] with
      | some sub => followFault path sub
      | none => if path = [] then none else some (.invalidNode key)

/-- The same from a root that is not constant: there a missing key is an empty section. -/
def pathFault : List String → Tree → Option Exception
  | [], _ => none
  | key :: path, y =>
    if y.scalar? ≠ none then some (.badSubscript key)
    else followFault path ((y.lookup [key]).getD .null)

section Fault

variable {y : Tree} {key : String} {p : List String}

theorem exists_scalar (hy : y.scalar? ≠ none) : ∃ text, y = .scalar text := by
  cases y with
  | null => exact absurd rfl hy
  | scalar text => exact ⟨text, rfl⟩
  | sequence items => exact absurd rfl hy
  | map entries => exact absurd rfl hy

theorem get_of_not_scalar (hy : y.scalar? = none) (key : String) :
    (Node.value y).get key = .ok (match y.lookup [key] with
      | some sub => .value sub
      | none => .invalid key) := by
  cases y with
  | null => rfl
  | scalar text => cases hy
  | sequence items => rfl
  | map entries =>
    cases hfind : find key entries with
    | some sub =>
      rw [get_of_find rfl hfind, lookup_cons_of_find (y := .map entries) rfl hfind]
      rfl
    | none =>
      rw [get_of_missing rfl hfind, lookup_cons_of_missing (y := .map entries) rfl hfind]

theorem getMut_of_not_scalar (hy : y.scalar? = none) (key : String) :
    (Node.value y).getMut key = .ok (match y.lookup [key] with
      | some sub => .value sub
      | none => .undefined) := by
  cases y with
  | null => rfl
  | scalar text => cases hy
  | sequence items => rfl
  | map entries =>
    cases hfind : find key entries with
    | some sub =>
      rw [getMut_of_find rfl hfind, lookup_cons_of_find (y := .map entries) rfl hfind]
      rfl
    | none =>
      rw [getMut_of_missing rfl hfind, lookup_cons_of_missing (y := .map entries) rfl hfind]

theorem lookup_cons (y : Tree) (key : String) (p : List String) :
    y.lookup (key :: p) = (y.lookup [key]).bind (Tree.lookup p) := by
  cases hentries : y.entries? with
  | none => simp [Tree.lookup, hentries]
  | some entries =>
    cases hfind : find key entries with
    | none => simp [Tree.lookup, hentries, hfind]
    | some sub => simp [Tree.lookup, hentries, hfind]

/-- Every path is followed to what is there, or to its fault. -/
theorem follow_eq_orFault (p : List String) (y : Tree) :
    ∃ n, (Node.value y).follow p = orFault (followFault p y) n ∧
      (followFault p y = none → n.tree? = y.lookup p) := by
  induction p generalizing y with
  | nil => exact ⟨.value y, rfl, fun _ => rfl⟩
  | cons key p ih =>
    rw [Node.follow, followFault]
    by_cases hy : y.scalar? = none
    · have hall := lookup_cons y key p
      rw [if_neg (not_not.2 hy), get_of_not_scalar hy]
      cases hlookup : y.lookup [key] with
      | some sub =>
        rw [hall, hlookup]
        exact ih sub
      | none =>
        rw [hall, hlookup]
        cases p with
        | nil => exact ⟨.invalid key, rfl, fun _ => rfl⟩
        | cons k p =>
          rw [if_neg (List.cons_ne_nil k p)]
          exact ⟨.undefined, rfl, fun h => by cases h⟩
    · obtain ⟨text, rfl⟩ := exists_scalar hy
      exact ⟨.undefined, rfl, fun h => by cases h⟩

theorem path_eq_orFault (hp : 2 ≤ p.length) (y : Tree) :
    ∃ n, (Node.value y).path p = orFault (pathFault p y) n ∧
      (pathFault p y = none → n.tree? = y.lookup p) := by
  obtain _ | ⟨key, p⟩ := p
  · simp at hp
  have hne : p ≠ [] := by
    rintro rfl
    simp at hp
  rw [Node.path, pathFault]
  by_cases hy : y.scalar? = none
  · have hall := lookup_cons y key p
    rw [if_neg (not_not.2 hy), getMut_of_not_scalar hy]
    cases hlookup : y.lookup [key] with
    | some sub =>
      rw [hall, hlookup]
      exact follow_eq_orFault p sub
    | none =>
      -- a section that is missing is an empty one
      obtain ⟨n, hn, htree⟩ := follow_eq_orFault p .null
      rw [hall, hlookup]
      exact ⟨n, (follow_undefined hne).trans hn, fun h => (htree h).trans (lookup_null hne)⟩
  · obtain ⟨text, rfl⟩ := exists_scalar hy
    exact ⟨.undefined, rfl, fun h => by cases h⟩

/-- It does not depend on the last key whether there is a fault. -/
theorem followFault_concat_iff (p : List String) (k k' : String) (y : Tree) :
    followFault (p ++ [k]) y = none ↔ followFault (p ++ [k']) y = none := by
  induction p generalizing y with
  | nil =>
    simp only [List.nil_append, followFault]
    split
    · simp
    · cases y.lookup [k] <;> cases y.lookup [k'] <;> simp
  | cons key p ih =>
    simp only [List.cons_append, followFault]
    split
    · simp
    · cases y.lookup [key] with
      | some sub => exact ih sub
      | none => simp

theorem pathFault_concat_iff (key : String) (p : List String) (k k' : String) (y : Tree) :
    pathFault (key :: p ++ [k]) y = none ↔ pathFault (key :: p ++ [k']) y = none := by
  simp only [List.cons_append, pathFault]
  split
  · simp
  · exact followFault_concat_iff p k k' _

/-- A fault is never that there is no file. -/
theorem followFault_ne_badFile (p : List String) (y : Tree) :
    followFault p y ≠ some .badFile := by
  induction p generalizing y with
  | nil => simp [followFault]
  | cons key p ih =>
    rw [followFault]
    split
    · simp
    · split
      · exact ih _
      · split <;> simp

theorem pathFault_ne_badFile (p : List String) (y : Tree) : pathFault p y ≠ some .badFile := by
  cases p with
  | nil => simp [pathFault]
  | cons key p =>
    rw [pathFault]
    split
    · simp
    · exact followFault_ne_badFile p _

end Fault

end SyncLayer.Yaml
