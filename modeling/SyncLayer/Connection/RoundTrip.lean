import SyncLayer.Library.Conninfo
import SyncLayer.Model.Settings

/-!
# The Connection String Round Trip

`makeConn` writes the six values as they are, without quotes. libpq reads the same six
values back exactly when the text did not need quotes: no value has a blank, a backslash
or a single quote in front, and none but the last is empty (`makeConn_readsAs_iff`).
The password is empty by default, so the settings of the source itself are not among
them (`defaults_swallow_dbname`).
-/

namespace SyncLayer.Connection

open SyncLayer.Model SyncLayer.Conninfo SyncLayer.CString

/-- The six parameters in the order of `makeConn`. -/
def parameters (v : ConnValues) : Pairs :=
  [("host".toList, v.host.toList),
   ("port".toList, (toString v.port.toInt).toList),
   ("user".toList, v.user.toList),
   ("password".toList, v.password.toList),
   ("dbname".toList, v.dbname.toList),
   ("sslmode".toList, v.sslmode.toList)]

theorem text_eq_render (v : ConnValues) : v.text.toList = render (parameters v) := by
  show ("host=" ++ v.host ++ " port=" ++ toString v.port.toInt ++ " user=" ++ v.user ++
    " password=" ++ v.password ++ " dbname=" ++ v.dbname ++ " sslmode=" ++ v.sslmode).toList = _
  have hhost : "host=".toList = "host".toList ++ ['='] := rfl
  have hport : " port=".toList = ' ' :: "port".toList ++ ['='] := rfl
  have huser : " user=".toList = ' ' :: "user".toList ++ ['='] := rfl
  have hpassword : " password=".toList = ' ' :: "password".toList ++ ['='] := rfl
  have hdbname : " dbname=".toList = ' ' :: "dbname".toList ++ ['='] := rfl
  have hsslmode : " sslmode=".toList = ' ' :: "sslmode".toList ++ ['='] := rfl
  simp only [String.toList_append, parameters, render, hhost, hport, huser, hpassword, hdbname,
    hsslmode, List.append_assoc, List.cons_append, List.nil_append]

theorem keyword_parameters (v : ConnValues) : ∀ p ∈ parameters v, Keyword p.1 := by
  intro p hp
  have hkey : p.1 ∈ (parameters v).map Prod.fst := List.mem_map_of_mem hp
  have hall : ((parameters v).map Prod.fst).all (fun k => k.all keywordChar) = true := rfl
  exact List.all_eq_true.1 (List.all_eq_true.1 hall p.1 hkey)

theorem nodup_parameters (v : ConnValues) : ((parameters v).map Prod.fst).Nodup := by
  simp only [parameters, List.map_cons, List.map_nil]
  decide

/-! ## Values that need no quotes -/

/-- A value that libpq and C strings leave as it is. -/
def Verbatim (v : Text) : Prop := Plain v ∧ '\x00' ∉ v

instance (v : Text) : Decidable (Verbatim v) := by
  unfold Verbatim
  infer_instance

/-- A character of a decimal number has no meaning of its own in the text. -/
private theorem numeral_char {c : Char} (hc : c = '-' ∨ c.isDigit) :
    ¬ isspace c ∧ c ≠ '\\' ∧ c ≠ '\'' ∧ c ≠ '\x00' := by
  -- it is enough that none of these characters is a minus or a digit
  refine ⟨?_, ne_of_numeral hc (by decide), ne_of_numeral hc (by decide),
    ne_of_numeral hc (by decide)⟩
  simp only [isspace, Bool.or_eq_true, decide_eq_true_eq, not_or]
  exact ⟨⟨⟨⟨⟨ne_of_numeral hc (by decide), ne_of_numeral hc (by decide)⟩,
    ne_of_numeral hc (by decide)⟩, ne_of_numeral hc (by decide)⟩,
    ne_of_numeral hc (by decide)⟩, ne_of_numeral hc (by decide)⟩

/-- A port is never empty and never needs quotes. -/
theorem verbatim_toString (n : Int) :
    (toString n).toList ≠ [] ∧ Verbatim (toString n).toList := by
  have hchars := numeral_toString n
  refine ⟨?_, ⟨fun c hc => ?_, fun hhead => ?_⟩, fun hnul => ?_⟩
  · rw [Int.toString_eq_repr]
    cases n <;> simp [Int.repr]
  · obtain ⟨hspace, hescape, -, -⟩ := numeral_char (hchars c hc)
    exact ⟨hspace, hescape⟩
  · exact (numeral_char (hchars _ (List.mem_of_mem_head? hhead))).2.2.1 rfl
  · exact (numeral_char (hchars _ hnul)).2.2.2 rfl

/-! ## The round trip -/

/-- The values that `makeConn` can hand over: the first four texts are not empty, and
    none of the five needs quotes. -/
def Expressible (v : ConnValues) : Prop :=
  (v.host ≠ "" ∧ v.user ≠ "" ∧ v.password ≠ "" ∧ v.dbname ≠ "") ∧
    ∀ s ∈ [v.host, v.user, v.password, v.dbname, v.sslmode], Verbatim s.toList

instance (v : ConnValues) : Decidable (Expressible v) := by
  unfold Expressible
  infer_instance

theorem nul_mem_text (v : ConnValues) :
    '\x00' ∈ v.text.toList ↔ ∃ p ∈ parameters v, '\x00' ∈ p.2 := by
  have hkey : ∀ p ∈ parameters v, '\x00' ∉ p.1 := by
    intro p hp
    have hall : ∀ k ∈ (parameters v).map Prod.fst, '\x00' ∉ k := by
      simp only [parameters, List.map_cons, List.map_nil]
      decide
    exact hall p.1 (List.mem_map_of_mem hp)
  rw [text_eq_render, mem_render (by decide) (by decide)]
  constructor
  · rintro ⟨p, hp, hk | hv⟩
    · exact absurd hk (hkey p hp)
    · exact ⟨p, hp, hv⟩
  · rintro ⟨p, hp, hv⟩
    exact ⟨p, hp, .inr hv⟩

theorem expressible_iff (v : ConnValues) :
    Expressible v ↔ Readable (parameters v) ∧ '\x00' ∉ v.text.toList := by
  have hport := verbatim_toString v.port.toInt
  rw [nul_mem_text]
  simp only [Expressible, Readable, Verbatim, parameters, List.forall_mem_cons,
    List.exists_mem_cons_iff, List.dropLast, ne_eq, String.toList_eq_nil_iff]
  simp only [Verbatim] at hport
  -- the port contributes nothing; the rest is the same list of conditions, reordered
  constructor
  · rintro ⟨hne, hverbatim⟩
    simp_all
  · rintro ⟨hread, hnul⟩
    simp_all

theorem text_readsAs_iff (v : ConnValues) :
    ReadsAs (cStr v.text.toList) (parameters v) ↔ Expressible v := by
  rw [expressible_iff, text_eq_render]
  exact readsAs_cStr_render_iff (keyword_parameters v) (nodup_parameters v)

/-- **Round trip of the connection string**: whatever the environment and the YAML file
    say, libpq reads the six values back exactly when they are expressible. -/
theorem makeConn_readsAs_iff (getenv : Env) (node : YamlMap) (envPrefix : String) :
    ReadsAs (cStr (makeConn getenv node envPrefix).toList)
        (parameters (connValues getenv node envPrefix)) ↔
      Expressible (connValues getenv node envPrefix) :=
  text_readsAs_iff (connValues getenv node envPrefix)

/-- A YAML section without keys. -/
def emptySection : YamlMap := ⟨fun _ => none, fun _ => none⟩

/-- With nothing configured the password is empty and swallows the `dbname=`: no
    database name arrives. -/
theorem defaults_swallow_dbname :
    (parse (cStr (makeConn (fun _ => none) emptySection "SYNC_LOCAL").toList)).map
        (fun ps => (settings ps "password".toList, settings ps "dbname".toList)) =
      some (some "dbname=postgres".toList, none) ∧
    ¬ ReadsAs (cStr (makeConn (fun _ => none) emptySection "SYNC_LOCAL").toList)
        (parameters (connValues (fun _ => none) emptySection "SYNC_LOCAL")) := by
  refine ⟨by decide, ?_⟩
  rw [makeConn, text_readsAs_iff]
  decide

end SyncLayer.Connection
