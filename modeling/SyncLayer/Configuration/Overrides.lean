import SyncLayer.Configuration.Loading

/-!
# Overrides

A variable of the environment stands for an option that is not in the file. The environment
has a notation of its own: integers are decimal there even behind a zero, and the truth
values are written true, 1, false and 0, while the file has octal and hexadecimal integers and
many words, but no digits, for the truth values. A text that both notations know means the
same in both places, and each text that the environment knows means what its plain form means
in the file (`overrides_read`).
-/

namespace SyncLayer.Configuration

open SyncLayer.CString SyncLayer.Yaml SyncLayer.Model

/-- The environment with the variable set, and without it. -/
abbrev setTo (getenv : Env) (name s : String) : Env := Function.update getenv name (some s)

abbrev unset (getenv : Env) (name : String) : Env := Function.update getenv name none

/-- Setting the variable to `s` while nothing is at `p` in the file gives what the file gives
    with the scalar `t` written there and the variable not set. -/
def MeansScalar (p : List String) (name s t : String) : Prop :=
  ∀ (before after : String → Except Exception Tree) (what : Exception → String) (getenv : Env)
    (path : String) (f f' : Tree), before path = .ok f → after path = .ok f' →
    f.lookup p = none → Linked p f → f.write t p = some f' →
    Config.loadFromFile before what (setTo getenv name s) path =
      Config.loadFromFile after what (unset getenv name) path

/-- Setting the variable to `s` is as good as not setting it, whatever is in the file. -/
def Ignored (name s : String) : Prop :=
  ∀ (loadFile : String → Except Exception Tree) (what : Exception → String) (getenv : Env)
    (path : String), Config.loadFromFile loadFile what (setTo getenv name s) path =
      Config.loadFromFile loadFile what (unset getenv name) path

/-- A sign, if any, and a decimal number without superfluous zeros. -/
def Decimal (s : String) : Prop :=
  ∃ n : Nat, s = toString n ∨ s = "+" ++ toString n ∨ s = "-" ++ toString n

/-! ## Names and paths -/

theorem IntOption.envName_injective {o o' : IntOption} (h : o.envName = o'.envName) : o = o' := by
  obtain (_ | _) | _ | _ | _ := o <;> obtain (_ | _) | _ | _ | _ := o' <;>
    simp [IntOption.envName] at h ⊢

theorem IntOption.envName_ne_text (o : IntOption) (o' : TextOption) : o'.envName ≠ o.envName := by
  obtain (_ | _) | _ | _ | _ := o <;>
    obtain ⟨(_ | _), (_ | _ | _ | _ | _)⟩ | _ | _ := o' <;>
    simp [IntOption.envName, TextOption.envName]

theorem IntOption.envName_ne_autoFetch (o : IntOption) : o.envName ≠ autoFetchEnvName := by
  obtain (_ | _) | _ | _ | _ := o <;> simp [IntOption.envName, autoFetchEnvName]

theorem TextOption.envName_ne_autoFetch (o : TextOption) : o.envName ≠ autoFetchEnvName := by
  obtain ⟨(_ | _), (_ | _ | _ | _ | _)⟩ | _ | _ := o <;>
    simp [TextOption.envName, autoFetchEnvName]

/-- Neither path leads through the other one. -/
def Apart (p q : List String) : Prop := ¬ p <+: q ∧ ¬ q <+: p

theorem IntOption.apart {o o' : IntOption} (h : o' ≠ o) : Apart o.path o'.path := by
  obtain (_ | _) | _ | _ | _ := o <;> obtain (_ | _) | _ | _ | _ := o' <;>
    simp [Apart, IntOption.path, connPath, connSection] at h ⊢

theorem IntOption.apart_text (o : IntOption) (o' : TextOption) : Apart o.path o'.path := by
  obtain (_ | _) | _ | _ | _ := o <;>
    obtain ⟨(_ | _), (_ | _ | _ | _ | _)⟩ | _ | _ := o' <;>
    simp [Apart, IntOption.path, TextOption.path, connPath, connSection, ConnKey.key]

theorem IntOption.apart_autoFetch (o : IntOption) : Apart o.path autoFetchPath := by
  obtain (_ | _) | _ | _ | _ := o <;>
    simp [Apart, IntOption.path, connPath, connSection, autoFetchPath]

theorem IntOption.apart_tables (o : IntOption) : Apart o.path tablesPath := by
  obtain (_ | _) | _ | _ | _ := o <;>
    simp [Apart, IntOption.path, connPath, connSection, tablesPath]

theorem TextOption.apart_autoFetch (o : TextOption) : Apart autoFetchPath o.path := by
  obtain ⟨(_ | _), (_ | _ | _ | _ | _)⟩ | _ | _ := o <;>
    simp [Apart, TextOption.path, connPath, connSection, ConnKey.key, autoFetchPath]

/-! ## What stays the same -/

section Same

variable {getenv : Env} {name s t : String} {f f' : Tree} {p : List String}

/-- Another option does not see the variable, nor what was written. -/
theorem readText_same {o : TextOption} (hname : o.envName ≠ name)
    (hpath : (Node.value f').path o.path = (Node.value f).path o.path) :
    readText (setTo getenv name s) (.value f) o = readText (unset getenv name) (.value f') o := by
  simp only [readText, hpath, envOr, setTo, unset, Function.update_of_ne hname]

theorem readInt_same {o : IntOption} (hname : o.envName ≠ name)
    (hpath : (Node.value f').path o.path = (Node.value f).path o.path) :
    readInt (setTo getenv name s) (.value f) o = readInt (unset getenv name) (.value f') o := by
  simp only [readInt, hpath, envOrInt, setTo, unset, Function.update_of_ne hname]

theorem readAutoFetch_same (hname : autoFetchEnvName ≠ name)
    (hpath : (Node.value f').path autoFetchPath = (Node.value f).path autoFetchPath) :
    readAutoFetch (setTo getenv name s) (.value f) =
      readAutoFetch (unset getenv name) (.value f') := by
  simp only [readAutoFetch, hpath, envOrBool, setTo, unset, Function.update_of_ne hname]

theorem readTables_same
    (hpath : (Node.value f').path tablesPath = (Node.value f).path tablesPath) :
    readTables (.value f) = readTables (.value f') := by
  simp only [readTables, hpath]

/-- A missing option is read as its default. -/
theorem path_of_missing (hwrite : f.write t p = some f') (hlinked : Linked p f)
    (hp : 2 ≤ p.length) (hmissing : f.lookup p = none) {α : Type} (ofScalar : String → Option α)
    (fallback : α) : ∃ n, (Node.value f).path p = .ok n ∧ n.asOr ofScalar fallback = fallback := by
  obtain ⟨n, hn, htree⟩ := path_of_write hwrite hlinked hp
  refine ⟨n, hn, ?_⟩
  rw [asOr_eq, htree, hmissing]
  rfl

end Same

/-! ## The option itself -/

section Own

variable {getenv : Env} {name s t : String} {f f' : Tree}

theorem envOrInt_setTo (hs : s ≠ "") (fallback : Int32) :
    envOrInt (setTo getenv name s) name fallback = (stoi s).getD fallback := by
  simp [envOrInt, hs]

theorem envOrInt_unset (fallback : Int32) :
    envOrInt (unset getenv name) name fallback = fallback := by
  simp [envOrInt]

/-- The truth values of the environment. -/
def envBool (s : String) : Option Bool :=
  if s = "true" ∨ s = "1" then some true
  else if s = "false" ∨ s = "0" then some false else none

theorem envOrBool_setTo (hs : s ≠ "") (fallback : Bool) :
    envOrBool (setTo getenv name s) name fallback = (envBool s).getD fallback := by
  simp only [envOrBool, setTo, Function.update_self, envBool, if_pos hs]
  split
  · rfl
  · split <;> rfl

theorem envOrBool_unset (fallback : Bool) :
    envOrBool (unset getenv name) name fallback = fallback := by
  simp [envOrBool]

theorem IntOption.two_le_length (o : IntOption) : 2 ≤ o.path.length := by
  cases o <;> simp [IntOption.path, connPath]

/-- An integer is overridden like it is written. -/
theorem readInt_override {o : IntOption} (hs : s ≠ "") (hwrite : f.write t o.path = some f')
    (hlinked : Linked o.path f) (hmissing : f.lookup o.path = none) (heq : stoi s = toInt t) :
    readInt (setTo getenv o.envName s) (.value f) o =
      readInt (unset getenv o.envName) (.value f') o := by
  obtain ⟨n, hn, hdefault⟩ :=
    path_of_missing hwrite hlinked o.two_le_length hmissing toInt o.fallback
  rw [readInt, readInt, hn, path_write_self hwrite, ok_bind, ok_bind, hdefault,
    envOrInt_setTo hs, envOrInt_unset, heq]
  rfl

theorem readAutoFetch_override (hs : s ≠ "") (hwrite : f.write t autoFetchPath = some f')
    (hlinked : Linked autoFetchPath f) (hmissing : f.lookup autoFetchPath = none)
    (heq : (envBool s).getD true = (toBool t).getD true) :
    readAutoFetch (setTo getenv autoFetchEnvName s) (.value f) =
      readAutoFetch (unset getenv autoFetchEnvName) (.value f') := by
  obtain ⟨n, hn, hdefault⟩ :=
    path_of_missing hwrite hlinked (Nat.le_refl _) hmissing toBool true
  rw [readAutoFetch, readAutoFetch, hn, path_write_self hwrite, ok_bind, ok_bind, hdefault,
    envOrBool_setTo hs, envOrBool_unset, heq]
  rfl

end Own

/-! ## Whole loads -/

section Whole

variable {getenv : Env} {s t : String} {f f' : Tree}

/-- If the option itself is read alike, then so is everything. -/
theorem load_congr_int {o : IntOption}
    (hpath : ∀ q, Apart o.path q → (Node.value f').path q = (Node.value f).path q)
    (hown : readInt (setTo getenv o.envName s) (.value f) o =
      readInt (unset getenv o.envName) (.value f') o) :
    Config.load (setTo getenv o.envName s) (.value f) =
      Config.load (unset getenv o.envName) (.value f') := by
  have htext : readText (setTo getenv o.envName s) (.value f) =
      readText (unset getenv o.envName) (.value f') :=
    funext fun o' => readText_same (o.envName_ne_text o') (hpath _ (o.apart_text o'))
  have hint : readInt (setTo getenv o.envName s) (.value f) =
      readInt (unset getenv o.envName) (.value f') := by
    funext o'
    by_cases ho : o' = o
    · rwa [ho]
    · exact readInt_same (fun h => ho (IntOption.envName_injective h))
        (hpath _ (IntOption.apart ho))
  rw [load_eq_assemble, load_eq_assemble, htext, hint,
    readAutoFetch_same (Ne.symm o.envName_ne_autoFetch) (hpath _ o.apart_autoFetch),
    readTables_same (hpath _ o.apart_tables)]

theorem load_congr_autoFetch
    (hpath : ∀ q, Apart autoFetchPath q → (Node.value f').path q = (Node.value f).path q)
    (hown : readAutoFetch (setTo getenv autoFetchEnvName s) (.value f) =
      readAutoFetch (unset getenv autoFetchEnvName) (.value f')) :
    Config.load (setTo getenv autoFetchEnvName s) (.value f) =
      Config.load (unset getenv autoFetchEnvName) (.value f') := by
  have htext : readText (setTo getenv autoFetchEnvName s) (.value f) =
      readText (unset getenv autoFetchEnvName) (.value f') :=
    funext fun o => readText_same o.envName_ne_autoFetch (hpath _ o.apart_autoFetch)
  have hint : readInt (setTo getenv autoFetchEnvName s) (.value f) =
      readInt (unset getenv autoFetchEnvName) (.value f') :=
    funext fun o => readInt_same o.envName_ne_autoFetch (hpath _ o.apart_autoFetch.symm)
  have htables : Apart autoFetchPath tablesPath := by
    simp [Apart, autoFetchPath, tablesPath]
  rw [load_eq_assemble, load_eq_assemble, htext, hint, hown, readTables_same (hpath _ htables)]

theorem loadFromFile_congr {before after : String → Except Exception Tree}
    {what : Exception → String} {env env' : Env} {path : String} (hbefore : before path = .ok f)
    (hafter : after path = .ok f')
    (hload : Config.load env (.value f) = Config.load env' (.value f')) :
    Config.loadFromFile before what env path = Config.loadFromFile after what env' path := by
  rw [Config.loadFromFile, Config.loadFromFile, hbefore, hafter, ok_bind, ok_bind, hload]

/-- An integer means what is read from the file as the same number. -/
theorem meansScalar_int (o : IntOption) (hs : s ≠ "") (heq : stoi s = toInt t) :
    MeansScalar o.path o.envName s t := by
  intro before after what getenv path f f' hbefore hafter hmissing hlinked hwrite
  apply loadFromFile_congr hbefore hafter
  apply load_congr_int
  · exact fun q hq => path_write_of_ne hwrite hlinked hq.1 hq.2
  · exact readInt_override hs hwrite hlinked hmissing heq

theorem meansScalar_autoFetch (hs : s ≠ "")
    (heq : (envBool s).getD true = (toBool t).getD true) :
    MeansScalar autoFetchPath autoFetchEnvName s t := by
  intro before after what getenv path f f' hbefore hafter hmissing hlinked hwrite
  apply loadFromFile_congr hbefore hafter
  apply load_congr_autoFetch
  · exact fun q hq => path_write_of_ne hwrite hlinked hq.1 hq.2
  · exact readAutoFetch_override hs hwrite hlinked hmissing heq

/-- Where loading the same document gives the same, so does loading the file. -/
theorem ignored_of_load {name : String} (hload : ∀ (getenv : Env) (f : Tree),
    Config.load (setTo getenv name s) (.value f) = Config.load (unset getenv name) (.value f)) :
    Ignored name s := by
  intro loadFile what getenv path
  cases hfile : loadFile path with
  | error e => rw [Config.loadFromFile, Config.loadFromFile, hfile, error_bind, error_bind]
  | ok f => exact loadFromFile_congr hfile hfile (hload getenv f)

theorem ignored_int (o : IntOption) (hs : s ≠ "") (hnone : stoi s = none) :
    Ignored o.envName s := by
  apply ignored_of_load
  intro getenv f
  apply load_congr_int fun _ _ => rfl
  simp only [readInt, envOrInt_setTo hs, hnone, envOrInt_unset, Option.getD_none]

theorem ignored_autoFetch (hs : s ≠ "") (hnone : envBool s = none) :
    Ignored autoFetchEnvName s := by
  apply ignored_of_load
  intro getenv f
  apply load_congr_autoFetch fun _ _ => rfl
  simp only [readAutoFetch, envOrBool_setTo hs, hnone, envOrBool_unset, Option.getD_none]

end Whole

/-! ## What the notations have in common -/

theorem stoi_eq_toInt {s t : String} (h : strtol s.toList = intLiteral t.toList) :
    stoi s = toInt t := by
  cases hn : intLiteral t.toList with
  | none => simp [stoi, toInt, h, hn]
  | some n => simp [stoi, toInt, h, hn]

/-- The digits of a number, with a sign or without. -/
theorem strtol_toDigits (n : Nat) :
    strtol (Nat.toDigits 10 n) = some n ∧ strtol ('+' :: Nat.toDigits 10 n) = some n ∧
      strtol ('-' :: Nat.toDigits 10 n) = some (-(n : Int)) := by
  have hdigits : ∀ c ∈ Nat.toDigits 10 n, c.isDigit :=
    fun c hc => Nat.isDigit_of_mem_toDigits (by decide) (by decide) hc
  have hliteral : ∀ s m, (s = Nat.toDigits 10 n ∧ m = (n : Int) ∨
      s = '+' :: Nat.toDigits 10 n ∧ m = n ∨ s = '-' :: Nat.toDigits 10 n ∧ m = -n) →
      strtol s = some m := by
    intro s m hs
    apply strtol_of_literal
    refine ⟨[], Nat.toDigits 10 n, by simp, Nat.toDigits_ne_nil, hdigits, ?_⟩
    rwa [digitsValue_toDigits]
  exact ⟨hliteral _ _ (.inl ⟨rfl, rfl⟩), hliteral _ _ (.inr (.inl ⟨rfl, rfl⟩)),
    hliteral _ _ (.inr (.inr ⟨rfl, rfl⟩))⟩

/-- A decimal number without superfluous zeros is the same number in both notations. -/
theorem Decimal.strtol_eq {s : String} (hs : Decimal s) :
    strtol s.toList = intLiteral s.toList := by
  obtain ⟨n, rfl | rfl | rfl⟩ := hs
  · rw [Nat.toString_eq_repr, Nat.toList_repr, (strtol_toDigits n).1, intLiteral_toDigits]
  · have hplus : ("+" ++ toString n).toList = '+' :: Nat.toDigits 10 n := by
      rw [String.toList_append, Nat.toString_eq_repr, Nat.toList_repr]
      rfl
    rw [hplus, (strtol_toDigits n).2.1, intLiteral_plus]
  · have hminus : ("-" ++ toString n).toList = '-' :: Nat.toDigits 10 n := by
      rw [String.toList_append, Nat.toString_eq_repr, Nat.toList_repr]
      rfl
    rw [hminus, (strtol_toDigits n).2.2, intLiteral_minus]

/-- Where `strtol` finds no number, there is none in the file either. -/
theorem intLiteral_of_strtol {s : List Char} (hs : strtol s = none) : intLiteral s = none := by
  cases h : intLiteral s with
  | none => rfl
  | some n => exact absurd hs (strtol_of_intLiteral h)

/-- The two notations of the truth values agree unless one of them says false alone. -/
theorem envBool_eq_toBool_iff {s : String} : (envBool s).getD true = (toBool s).getD true ↔
    s = "false" ∨ s ≠ "0" ∧ toBool s ≠ some false := by
  by_cases hfalse : s = "false"
  · subst hfalse
    decide
  by_cases hzero : s = "0"
  · subst hzero
    decide
  -- the environment does not say false
  have henv : (envBool s).getD true = true := by
    simp only [envBool, hfalse, hzero, or_self, if_false]
    split <;> rfl
  rw [henv]
  cases h : toBool s with
  | none => simp [hfalse, hzero]
  | some b => cases b <;> simp [hfalse, hzero]

/-- A file without the option tells two truth values apart. -/
theorem meansScalar_autoFetch_iff {s t : String} (hs : s ≠ "") :
    MeansScalar autoFetchPath autoFetchEnvName s t ↔
      (envBool s).getD true = (toBool t).getD true := by
  refine ⟨fun h => ?_, meansScalar_autoFetch hs⟩
  have hload := h (fun _ => .ok sparse) (fun _ => .ok _) (fun _ => "") hosts "config.yaml" _ _
    rfl rfl rfl (.inl (Nat.le_refl _)) rfl
  have hflag : some (envOrBool (setTo hosts autoFetchEnvName s) autoFetchEnvName true) =
      some (envOrBool (unset hosts autoFetchEnvName) autoFetchEnvName ((toBool t).getD true)) :=
    congrArg (fun r => r.toOption.map Config.autoFetch) hload
  rw [envOrBool_setTo hs, envOrBool_unset] at hflag
  exact Option.some.inj hflag

/-- **Overrides**: for an option that is not in the file, an integer without superfluous zeros
    and a text without a number mean the same in the environment and in the file, and any
    other decimal integer means its number. What the environment knows as a truth value means
    this value, and both agree on a text exactly if it is neither the digit 0 nor another word
    for false. All else is ignored. -/
theorem overrides_read :
    (∀ (o : IntOption) (s : String), s ≠ "" →
      (Decimal s ∨ strtol s.toList = none → MeansScalar o.path o.envName s s) ∧
      (∀ n, IntLiteral s.toList n → MeansScalar o.path o.envName s (toString n)) ∧
      (stoi s = none → Ignored o.envName s)) ∧
    ∀ s : String, s ≠ "" →
      (MeansScalar autoFetchPath autoFetchEnvName s s ↔
        s = "false" ∨ s ≠ "0" ∧ toBool s ≠ some false) ∧
      (∀ b, envBool s = some b → MeansScalar autoFetchPath autoFetchEnvName s (toString b)) ∧
      (envBool s = none → Ignored autoFetchEnvName s) := by
  refine ⟨fun o s hs => ⟨?_, ?_, ignored_int o hs⟩, fun s hs => ⟨?_, ?_, ignored_autoFetch hs⟩⟩
  · intro hplain
    apply meansScalar_int o hs
    apply stoi_eq_toInt
    cases hplain with
    | inl hdecimal => exact hdecimal.strtol_eq
    | inr hnone => rw [hnone, intLiteral_of_strtol hnone]
  · intro n hn
    apply meansScalar_int o hs
    apply stoi_eq_toInt
    rw [strtol_of_literal hn, intLiteral_toString]
  · exact (meansScalar_autoFetch_iff hs).trans envBool_eq_toBool_iff
  · intro b hb
    apply meansScalar_autoFetch hs
    rw [hb]
    cases b <;> decide

/-- A batch size for the sparse file. -/
theorem overrides_read_sparse : ∃ f', sparse.write "200" ["sync", "batch_size"] = some f' ∧
    Config.loadFromFile (fun _ => .ok sparse) (fun _ => "") (setTo hosts "SYNC_BATCH_SIZE" "200")
        "config.yaml" =
      Config.loadFromFile (fun _ => .ok f') (fun _ => "") (unset hosts "SYNC_BATCH_SIZE")
        "config.yaml" := by
  have hplain := (overrides_read.1 .batchSize "200" (by decide)).1 (.inl ⟨200, .inl rfl⟩)
  exact ⟨_, rfl, hplain _ _ _ _ _ sparse _ rfl rfl rfl (.inl (Nat.le_refl _)) rfl⟩

/-- The digit 0 turns the option off in the environment alone, and `010` is ten in the
    environment and eight in the file. -/
theorem notations_differ :
    ¬ MeansScalar autoFetchPath autoFetchEnvName "0" "0" ∧
    ¬ MeansScalar IntOption.batchSize.path IntOption.batchSize.envName "010" "010" := by
  constructor
  · intro h
    exact absurd ((meansScalar_autoFetch_iff (by decide)).1 h) (by decide)
  · intro h
    have hload := h (fun _ => .ok sparse) (fun _ => .ok _) (fun _ => "") hosts "config.yaml" _ _
      rfl rfl rfl (.inl (Nat.le_refl _)) rfl
    have hsize : some (10 : Int32) = some 8 :=
      congrArg (fun r => r.toOption.map Config.batchSize) hload
    exact absurd hsize (by decide)

end SyncLayer.Configuration
