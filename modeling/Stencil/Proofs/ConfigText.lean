import Stencil.Proofs.Agreement
import Stencil.Proofs.Members
import Stencil.Proofs.Settings
import Stencil.Proofs.TreeText

set_option autoImplicit false

namespace Stencil.Config

open Json (Outline named)

namespace Setting

-- The value of a setting as it may stand in a text. The name of a format stands alone, or over `null`.
inductive Written : Setting → Outline → Prop where
  | globalDefault (text : String) : Written (.globalDefault text) (.str (some text))
  | separator (text : String) : Written (.separator text) (.str (some text))
  | format (format : NumberFormat) : Written (.numberFormat format) (.str (some format.name))
  | variant (format : NumberFormat) : Written (.numberFormat format) (.object [(some format.name, .null)])

-- Members that hold settings in their order, with members of unknown names among them.
inductive Among : List Setting → List (String × Outline) → Prop where
  | nil : Among [] []
  | known {setting : Setting} {value : Outline} (written : setting.Written value) {settings : List Setting}
      {members : List (String × Outline)} (rest : Among settings members) :
      Among (setting :: settings) ((setting.field.name, value) :: members)
  | unknown {key : String} (other : ∀ field : Field, field.name ≠ key) (value : Outline) {settings : List Setting}
      {members : List (String × Outline)} (rest : Among settings members) :
      Among settings ((key, value) :: members)

inductive Offered : List Setting → Outline → Prop where
  | object {settings : List Setting} {members : List (String × Outline)} (among : Among settings members) :
      Offered settings (.object (named members))
  | array {settings : List Setting} {values : List Outline} (written : List.Forall₂ Written settings values)
      (ordered : settings.map field <+: Field.all) : Offered settings (.array values)

end Setting

theorem read_string_tokens (value : Outline) (rest : List Json.Token) :
    (readString (value.tokens ++ rest)).map (fun read => (read.1, read.2.1)) =
      (readString value.tokens).map fun read => (read.1, rest) := by
  cases value with
  | null | bool b | number n? => rfl
  | str text? => cases text? <;> rfl
  | array items => cases items <;> rfl
  | object members => cases members <;> rfl

theorem read_format_tokens (value : Outline) (rest : List Json.Token) :
    (readFormat (value.tokens ++ rest)).map (fun read => (read.1, read.2.1)) =
      (readFormat value.tokens).map fun read => (read.1, rest) := by
  cases value with
  | null | bool b | number n? => rfl
  | str text? =>
    cases text? with
    | none => rfl
    | some name =>
      simp only [Outline.tokens, List.singleton_append, readFormat]
      cases formatOfName name <;> rfl
  | array items => cases items <;> rfl
  | object members =>
    cases members with
    | nil => rfl
    | cons member others =>
      obtain ⟨key?, inner⟩ := member
      cases key? with
      | none => rfl
      | some name =>
        simp only [Outline.tokens, List.cons_append, readFormat]
        cases formatOfName name with
        | error fault => rfl
        | ok format =>
          cases inner with
          | null => cases others <;> rfl
          | bool b | number n? | str text? => rfl
          | array items => cases items <;> rfl
          | object members => cases members <;> rfl

theorem read_field_tokens (fields : Partial) (field : Field) (value : Outline) (rest : List Json.Token) :
    (readField fields field (value.tokens ++ rest)).map (fun read => (read.1, read.2.1)) =
      (readField fields field value.tokens).map fun read => (read.1, rest) := by
  cases field with
  | globalDefault =>
    exact Json.map_left (read_string_tokens value rest) fun text => { fields with globalDefault? := some text }
  | separator =>
    exact Json.map_left (read_string_tokens value rest) fun text => { fields with separator? := some text }
  | numberFormat =>
    exact Json.map_left (read_format_tokens value rest) fun format => { fields with numberFormat? := some format }

namespace Partial

def take (fields : Partial) (member : String × Outline) : Except Json.Fault Partial :=
  match Field.ofName? member.1 with
  | some field =>
    if fields.has field then .error (.duplicateField field.name)
    else (readField fields field member.2.tokens).map Prod.fst
  | none => .ok fields

end Partial

theorem skip_value_tokens (value : Outline) (rest : List Json.Token) :
    ∃ shorter, skipValue (value.tokens ++ rest) = .ok ⟨rest, shorter⟩ := by
  have read : Json.readOutline (value.tokens ++ rest) = some (value, rest) := Json.read_outline_eq_some_iff.mpr rfl
  refine ⟨Json.length_lt_of_read_outline read, ?_⟩
  unfold skipValue
  split
  · next same =>
    cases read.symm.trans same
    rfl
  · next missing => cases read.symm.trans missing

theorem read_member_tokens (fields : Partial) (key : String) (value : Outline) (rest : List Json.Token) :
    (readMember fields key (.colon :: (value.tokens ++ rest))).map (fun read => (read.1, read.2.1)) =
      (fields.take (key, value)).map (·, rest) := by
  unfold readMember Partial.take
  cases Field.ofName? key with
  | none =>
    obtain ⟨_, skipped⟩ := skip_value_tokens value rest
    simp only [skipped]
    rfl
  | some field =>
    by_cases given : fields.has field = true
    · simp only [given, if_true]
      rfl
    · simp only [given]
      calc
        _ = (readField fields field (value.tokens ++ rest)).map (fun read => (read.1, read.2.1)) := by
          cases readField fields field (value.tokens ++ rest) <;> rfl
        _ = (readField fields field value.tokens).map fun read => (read.1, rest) :=
          read_field_tokens fields field value rest
        _ = _ := by cases readField fields field value.tokens <;> rfl

theorem of_text_named {text : String} {members : List (String × Outline)}
    (written : Json.tokens text.toList = (Outline.object (named members)).tokens) :
    ofText text = (members.foldlM Partial.take {}).map Partial.complete := by
  obtain ⟨inner, opened, run⟩ := Json.read_object_named read_member_tokens members
  have whole := run {} []
  rw [List.append_nil] at whole
  rw [ofText, written, opened, ← Json.bind_at_end whole]

section Written

variable {setting : Setting} {value : Outline} (written : setting.Written value)
include written

theorem read_field_alone (fields : Partial) :
    ∃ left, readField fields setting.field value.tokens = .ok (fields.put setting, left) := by
  cases written with
  | globalDefault text | separator text => exact ⟨_, rfl⟩
  | format format | variant format => cases format <;> exact ⟨_, rfl⟩

theorem read_field_written (fields : Partial) (rest : List Json.Token) :
    ∃ shorter, readField fields setting.field (value.tokens ++ rest) = .ok (fields.put setting, ⟨rest, shorter⟩) := by
  obtain ⟨_, read⟩ := read_field_alone written fields
  refine Json.eq_ok_of_left ?_
  rw [read_field_tokens, read]
  rfl

theorem take_written (fields : Partial) : fields.take (setting.field.name, value) = fields.add setting := by
  obtain ⟨_, read⟩ := read_field_alone written fields
  rw [Partial.take, Field.of_name_name]
  simp only [read]
  rfl

end Written

theorem take_unknown (fields : Partial) {key : String} (other : ∀ field : Field, field.name ≠ key) (value : Outline) :
    fields.take (key, value) = .ok fields := by
  rw [Partial.take, Field.of_name_eq_none other]

theorem foldl_m_take {settings : List Setting} {members : List (String × Outline)}
    (among : Setting.Among settings members) (fields : Partial) :
    members.foldlM Partial.take fields = settings.foldlM Partial.add fields := by
  induction among generalizing fields with
  | nil => rfl
  | known written rest ih =>
    rw [List.foldlM_cons, List.foldlM_cons, take_written written]
    exact bind_congr ih
  | unknown other value rest ih =>
    rw [List.foldlM_cons, take_unknown fields other value]
    exact ih fields

theorem has_of_read_field {fields next : Partial} {field : Field} {toks : List Json.Token} {left : Json.Shorter toks}
    (read : readField fields field toks = .ok (next, left)) (other : Field) :
    next.has other = (fields.has other || field == other) := by
  cases field with
  | globalDefault | separator | numberFormat =>
    obtain ⟨_, _, same⟩ := Outcome.map_eq_ok.mp read
    obtain ⟨rfl, _⟩ := Prod.mk.inj same
    cases other <;> simp [Partial.has]

theorem has_of_take {fields next : Partial} {key : String} {value : Outline}
    (taken : fields.take (key, value) = .ok next) (field : Field) :
    (next.has field).toNat = (fields.has field).toNat + if key = field.name then 1 else 0 := by
  unfold Partial.take at taken
  split at taken
  · next known found =>
    obtain rfl := Field.of_name_eq_some_iff.mp found
    split at taken
    · cases taken
    · next fresh =>
      obtain ⟨_, read, rfl⟩ := Outcome.map_eq_ok.mp taken
      rw [has_of_read_field read field]
      by_cases same : known = field
      · subst same
        simp [Bool.eq_false_iff.mpr fresh]
      · have unequal : known.name ≠ field.name := fun clash => same (Field.name_inj clash)
        simp [beq_eq_false_iff_ne.mpr same, unequal]
  · next missing =>
    obtain rfl := Except.ok.inj taken
    have unequal : key ≠ field.name := by
      rintro rfl
      cases missing.symm.trans field.of_name_name
    rw [if_neg unequal, Nat.add_zero]

theorem count_of_foldl_m {members : List (String × Outline)} {fields next : Partial}
    (taken : members.foldlM Partial.take fields = .ok next) (field : Field) :
    (members.map Prod.fst).count field.name + (fields.has field).toNat ≤ 1 := by
  induction members generalizing fields with
  | nil => simpa using Bool.toNat_le (fields.has field)
  | cons member rest ih =>
    rw [List.foldlM_cons] at taken
    obtain ⟨middle, first, later⟩ := Outcome.bind_eq_ok.mp taken
    have bound := ih later
    rw [has_of_take first] at bound
    rw [List.map_cons, List.count_cons]
    simp only [beq_iff_eq]
    omega

theorem read_items_written {setting : Setting} {value : Outline} (written : setting.Written value)
    {settings : List Setting} {values : List Outline} (others : List.Forall₂ Setting.Written settings values)
    {later : List Field} (ordered : settings.map Setting.field <+: later) (fields : Partial) (rest : List Json.Token) :
    (readItems fields (value.tokens ++ (Json.itemsTokens values ++ rest)) (setting.field :: later)).map
      (fun read => (read.1, read.2.1)) = .ok ((setting :: settings).foldl Partial.put fields, rest) := by
  induction others generalizing setting value later fields with
  | nil =>
    obtain ⟨_, read⟩ := read_field_written written fields (Json.itemsTokens [] ++ rest)
    rw [readItems, read]
    rfl
  | @cons next item settings values first others ih =>
    cases later with
    | nil => simp at ordered
    | cons field later =>
      obtain ⟨rfl, behind⟩ := List.cons_prefix_cons.mp ordered
      obtain ⟨_, read⟩ := read_field_written written fields (Json.itemsTokens (item :: values) ++ rest)
      obtain ⟨_, run⟩ := Json.eq_ok_of_left (ih first behind (fields.put setting))
      rw [readItems, read]
      simp only [Json.itemsTokens, List.cons_append, List.append_assoc, run]
      rfl

theorem read_array_eq {token : Json.Token} (unclosed : token ≠ .closeBracket) (toks : List Json.Token) :
    readArray (token :: toks) = readItems {} (token :: toks) Field.all := by
  cases token with
  | closeBracket => exact absurd rfl unclosed
  | _ => rfl

theorem of_text_array {text : String} {settings : List Setting} {values : List Outline}
    (spelled : Json.tokens text.toList = (Outline.array values).tokens)
    (written : List.Forall₂ Setting.Written settings values) (ordered : settings.map Setting.field <+: Field.all) :
    ofText text = .ok (settings.foldl Partial.put {}).complete := by
  cases written with
  | nil =>
    rw [ofText, spelled]
    rfl
  | @cons setting value settings values first others =>
    obtain ⟨same, behind⟩ := List.cons_prefix_cons.mp ordered
    obtain ⟨token, more, begins, unclosed⟩ := Json.exists_tokens_eq value
    have run := read_items_written first others behind {} []
    rw [same, List.append_nil, begins, List.cons_append] at run
    rw [ofText, spelled, Outline.tokens, begins, List.cons_append]
    simp only [read_array_eq unclosed]
    have ended : _ = Except.ok ((setting :: settings).foldl Partial.put {}) := Json.bind_at_end run
    exact congrArg (Except.map Partial.complete) ended

theorem of_text_offered {text : String} {outline : Outline} {settings : List Setting}
    (spelled : Json.tokens text.toList = outline.tokens) (offered : Setting.Offered settings outline)
    (distinct : (settings.map Setting.field).Nodup) : ofText text = .ok (settings.foldl Partial.put {}).complete := by
  cases offered with
  | object among =>
    have fresh : ∀ setting ∈ settings, ({} : Partial).has setting.field = false := fun setting _ =>
      Partial.has_empty setting.field
    rw [of_text_named spelled, foldl_m_take among, Partial.foldl_m_add distinct fresh]
    rfl
  | array written ordered => exact of_text_array spelled written ordered

theorem of_text_repeated {text : String} {members : List (String × Outline)}
    (spelled : Json.tokens text.toList = (Outline.object (named members)).tokens) {field : Field}
    (again : 1 < (members.map Prod.fst).count field.name) : ∃ fault, ofText text = .error fault := by
  rw [of_text_named spelled]
  cases taken : members.foldlM Partial.take {} with
  | error fault => exact ⟨fault, rfl⟩
  | ok fields =>
    have bound := count_of_foldl_m taken field
    omega

theorem offered_to_json (config : Config) :
    Setting.Offered (Field.all.map config.setting) config.toJson.echo :=
  .object (.known (.globalDefault config.globalDefault) (.known (.separator config.separator)
    (.known (.format config.numberFormat) .nil)))

theorem of_text_json_text (config : Config) : ofText config.jsonText = .ok config := by
  have spelled : Json.tokens config.jsonText.toList = config.toJson.echo.tokens := by
    have whole := Json.tokens_text config.toJson [] (by simp [Json.Delimited])
    rw [List.append_nil, Json.tokens, List.append_nil] at whole
    rw [jsonText, String.toList_ofList, whole]
  have distinct : ((Field.all.map config.setting).map Setting.field).Nodup := by
    simp [Field.all, field_setting]
  rw [of_text_offered spelled config.offered_to_json distinct]
  exact congrArg Except.ok ((Partial.follows_complete distinct).unique config.follows_all)

-- What is given decides alone which configuration is read, and giving a field twice is a fault. Under unknown names
-- anything may stand that follows the grammar, so more than what can be parsed.
theorem of_text_reads_settings :
    (∀ config : Config, ofText config.jsonText = .ok config) ∧
    (∀ text outline settings, Json.tokens text.toList = outline.tokens → Setting.Offered settings outline →
      (settings.map Setting.field).Nodup → ∃ config, ofText text = .ok config ∧
        (∀ other : Config, other.Follows settings ↔ other = config) ∧
        ∀ rewritten another others, Json.tokens rewritten.toList = another.tokens → Setting.Offered others another →
          others.Perm settings → ofText rewritten = .ok config) ∧
    (∀ text members (field : Field), Json.tokens text.toList = (Outline.object (named members)).tokens →
      1 < (members.map Prod.fst).count field.name → ∃ fault, ofText text = .error fault) ∧
    (∀ text members before setting after, Json.tokens text.toList = (Outline.object (named members)).tokens →
      Setting.Among (before ++ setting :: after) members → (before.map Setting.field).Nodup →
      setting.field ∈ before.map Setting.field → ofText text = .error (.duplicateField setting.field.name)) ∧
    ∀ text tree, Json.parse? text = some tree → ∃ outline, Json.tokens text.toList = outline.tokens ∧
      Json.settle Json.maxDepth outline = some tree ∧
      ∀ trees, tree = .object trees → ∃ members, outline = .object (named members) := by
  refine ⟨of_text_json_text, fun text outline settings spelled offered distinct => ?_, ?_, ?_, ?_⟩
  · have follows := Partial.follows_complete distinct
    refine ⟨_, of_text_offered spelled offered distinct, fun other => ⟨fun same => same.unique follows, ?_⟩, ?_⟩
    · rintro rfl
      exact follows
    · intro rewritten another others written shaped perm
      have separate := (perm.map Setting.field).nodup_iff.mpr distinct
      rw [of_text_offered written shaped separate]
      exact congrArg Except.ok (((Partial.follows_complete separate).of_perm perm).unique follows)
  · intro text members field spelled again
    exact of_text_repeated spelled again
  · intro text members before setting after spelled among distinct again
    rw [of_text_named spelled, foldl_m_take among, Partial.foldl_m_add_repeated distinct again]
    rfl
  · intro text tree parsed
    obtain ⟨outline, whole, settled⟩ := Json.read_value_eq_some_iff.mp (Json.parse_eq_some_iff.mp parsed)
    refine ⟨outline, by rw [whole, List.append_nil], settled, ?_⟩
    rintro trees rfl
    obtain ⟨written, inner, rfl⟩ := Json.settle_eq_object settled
    obtain ⟨members, rfl⟩ := Json.exists_named inner
    exact ⟨members, rfl⟩

theorem of_text_reads_settings_partial :
    ofText "[\"-\",\" | \"]" = .ok ⟨"-", " | ", .plain⟩ ∧
    ofText "\x7b\"sep\\u0061rator\":\" | \",\"x\":[1e400,\x7b\"separator\":0\x7d],\"global_default\":\"-\"\x7d" =
      .ok ⟨"-", " | ", .plain⟩ ∧
    ofText "\x7b\"number_format\":\x7b\"cents\":null\x7d,\"x\":0,\"number_format\":\"round\"\x7d" =
      .error (.duplicateField "number_format") := by
  obtain ⟨_, given, _, repeated, _⟩ := of_text_reads_settings
  let settings : List Setting := [.globalDefault "-", .separator " | "]
  have follows : Follows ⟨"-", " | ", .plain⟩ settings := by
    refine ⟨by decide, fun field absent => ?_⟩
    cases field with
    | globalDefault | separator => exact absurd (by decide) absent
    | numberFormat => rfl
  obtain ⟨config, read, only, alike⟩ := given "[\"-\",\" | \"]" (.array [.str (some "-"), .str (some " | ")]) settings
    (by decide +kernel) (.array (.cons (.globalDefault _) (.cons (.separator _) .nil)) (by decide)) (by decide)
  obtain rfl := (only _).mp follows
  refine ⟨read, ?_, ?_⟩
  · have among : Setting.Among [.separator " | ", .globalDefault "-"]
        [("separator", .str (some " | ")),
          ("x", .array [.number none, .object [(some "separator", .number (some (.int 0 (by decide))))]]),
          ("global_default", .str (some "-"))] :=
      .known (.separator _) (.unknown (fun field => by cases field <;> decide) _ (.known (.globalDefault _) .nil))
    exact alike _ _ _ (by decide +kernel) (.object among) (.swap ..)
  · have among : Setting.Among [.numberFormat .cents, .numberFormat .round]
        [("number_format", .object [(some "cents", .null)]), ("x", .number (some (.int 0 (by decide)))),
          ("number_format", .str (some "round"))] :=
      .known (.variant .cents) (.unknown (fun field => by cases field <;> decide) _ (.known (.format .round) .nil))
    exact repeated _ _ [.numberFormat .cents] (.numberFormat .round) [] (by decide +kernel) among (by decide)
      (by decide)

end Stencil.Config
