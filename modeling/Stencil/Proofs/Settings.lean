import Mathlib.Data.List.Nodup
import Stencil.Config.Json

set_option autoImplicit false

namespace Stencil.Config

inductive Setting where
  | globalDefault (text : String)
  | separator (text : String)
  | numberFormat (format : NumberFormat)
deriving DecidableEq

namespace Setting

def field : Setting → Field
  | .globalDefault _ => .globalDefault
  | .separator _ => .separator
  | .numberFormat _ => .numberFormat

end Setting

def setting (config : Config) : Field → Setting
  | .globalDefault => .globalDefault config.globalDefault
  | .separator => .separator config.separator
  | .numberFormat => .numberFormat config.numberFormat

structure Follows (config : Config) (settings : List Setting) : Prop where
  given : ∀ setting ∈ settings, config.setting setting.field = setting
  missing : ∀ field, field ∉ settings.map Setting.field → config.setting field = ({} : Config).setting field

theorem field_setting (config : Config) (field : Field) : (config.setting field).field = field := by
  cases field <;> rfl

theorem eq_of_setting {a b : Config} (same : ∀ field, a.setting field = b.setting field) : a = b := by
  have globalDefault := Setting.globalDefault.inj (same .globalDefault)
  have separator := Setting.separator.inj (same .separator)
  have numberFormat := Setting.numberFormat.inj (same .numberFormat)
  cases a
  cases b
  simp_all

theorem Follows.unique {a b : Config} {settings : List Setting} (first : a.Follows settings)
    (second : b.Follows settings) : a = b := by
  refine eq_of_setting fun field => ?_
  by_cases given : field ∈ settings.map Setting.field
  · obtain ⟨setting, member, rfl⟩ := List.mem_map.mp given
    rw [first.given setting member, second.given setting member]
  · rw [first.missing field given, second.missing field given]

theorem Follows.of_perm {config : Config} {settings others : List Setting} (follows : config.Follows settings)
    (perm : settings.Perm others) : config.Follows others where
  given setting member := follows.given setting (perm.mem_iff.mpr member)
  missing field absent := follows.missing field fun given => absent ((perm.map Setting.field).mem_iff.mp given)

theorem follows_all (config : Config) : config.Follows (Field.all.map config.setting) where
  given setting member := by
    obtain ⟨field, _, rfl⟩ := List.mem_map.mp member
    rw [field_setting]
  missing field absent := by
    refine absurd ?_ absent
    cases field <;> simp [Field.all, setting, Setting.field]

namespace Field

theorem of_name_name (field : Field) : ofName? field.name = some field := by
  cases field <;> decide

theorem of_name_eq_some_iff {key : String} {field : Field} : ofName? key = some field ↔ field.name = key := by
  constructor
  · intro found
    exact beq_iff_eq.mp (List.find?_some (p := fun field : Field => field.name == key) found)
  · rintro rfl
    exact of_name_name field

theorem name_inj {a b : Field} (same : a.name = b.name) : a = b :=
  Option.some.inj ((of_name_name a).symm.trans (of_name_eq_some_iff.mpr same.symm))

theorem of_name_eq_none {key : String} (other : ∀ field : Field, field.name ≠ key) : ofName? key = none :=
  Option.eq_none_iff_forall_ne_some.mpr fun field found => other field (of_name_eq_some_iff.mp found)

end Field

namespace Partial

def setting? (fields : Partial) : Field → Option Setting
  | .globalDefault => fields.globalDefault?.map .globalDefault
  | .separator => fields.separator?.map .separator
  | .numberFormat => fields.numberFormat?.map .numberFormat

def put (fields : Partial) : Setting → Partial
  | .globalDefault text => { fields with globalDefault? := some text }
  | .separator text => { fields with separator? := some text }
  | .numberFormat format => { fields with numberFormat? := some format }

def add (fields : Partial) (setting : Setting) : Except Json.Fault Partial :=
  if fields.has setting.field then .error (.duplicateField setting.field.name) else .ok (fields.put setting)

theorem has_eq (fields : Partial) (field : Field) : fields.has field = (fields.setting? field).isSome := by
  cases field <;> simp [has, setting?]

theorem has_empty (field : Field) : ({} : Partial).has field = false := by
  cases field <;> rfl

theorem setting_put (fields : Partial) (setting : Setting) (field : Field) :
    (fields.put setting).setting? field = if setting.field = field then some setting else fields.setting? field := by
  cases setting <;> cases field <;> simp [put, setting?, Setting.field]

theorem setting_complete (fields : Partial) (field : Field) :
    fields.complete.setting field = (fields.setting? field).getD (({} : Config).setting field) := by
  obtain ⟨globalDefault?, separator?, numberFormat?⟩ := fields
  cases field with
  | globalDefault => cases globalDefault? <;> rfl
  | separator => cases separator? <;> rfl
  | numberFormat => cases numberFormat? <;> rfl

theorem setting_foldl_put {settings : List Setting} {field : Field} (absent : field ∉ settings.map Setting.field)
    (fields : Partial) : (settings.foldl put fields).setting? field = fields.setting? field := by
  induction settings generalizing fields with
  | nil => rfl
  | cons setting rest ih =>
    obtain ⟨other, later⟩ := not_or.mp (List.mem_cons.not.mp absent)
    rw [List.foldl_cons, ih later, setting_put, if_neg (Ne.symm other)]

theorem setting_of_mem {settings : List Setting} (distinct : (settings.map Setting.field).Nodup) {setting : Setting}
    (member : setting ∈ settings) (fields : Partial) :
    (settings.foldl put fields).setting? setting.field = some setting := by
  induction settings generalizing fields with
  | nil => cases member
  | cons head rest ih =>
    obtain ⟨fresh, others⟩ := List.nodup_cons.mp distinct
    rcases List.mem_cons.mp member with rfl | later
    · rw [List.foldl_cons, setting_foldl_put fresh, setting_put, if_pos rfl]
    · exact ih others later (fields.put head)

theorem follows_complete {settings : List Setting} (distinct : (settings.map Setting.field).Nodup) :
    (settings.foldl put {}).complete.Follows settings where
  given setting member := by rw [setting_complete, setting_of_mem distinct member, Option.getD_some]
  missing field absent := by
    rw [setting_complete, setting_foldl_put absent]
    cases field <;> rfl

theorem foldl_m_add {settings : List Setting} (distinct : (settings.map Setting.field).Nodup) {fields : Partial}
    (fresh : ∀ setting ∈ settings, fields.has setting.field = false) :
    settings.foldlM add fields = .ok (settings.foldl put fields) := by
  induction settings generalizing fields with
  | nil => rfl
  | cons setting rest ih =>
    obtain ⟨once, others⟩ := List.nodup_cons.mp distinct
    obtain ⟨first, later⟩ := List.forall_mem_cons.mp fresh
    have left : ∀ other ∈ rest, (fields.put setting).has other.field = false := by
      intro other member
      have unequal : setting.field ≠ other.field := fun same => once (List.mem_map.mpr ⟨other, member, same.symm⟩)
      rw [has_eq, setting_put, if_neg unequal, ← has_eq, later other member]
    have added : fields.add setting = .ok (fields.put setting) := if_neg (by simp [first])
    rw [List.foldlM_cons, added]
    exact ih others left

theorem foldl_m_add_repeated {before : List Setting} (distinct : (before.map Setting.field).Nodup) {setting : Setting}
    (again : setting.field ∈ before.map Setting.field) (after : List Setting) :
    (before ++ setting :: after).foldlM add {} = .error (.duplicateField setting.field.name) := by
  obtain ⟨earlier, member, same⟩ := List.mem_map.mp again
  have given : (before.foldl put {}).has setting.field = true := by
    rw [← same, has_eq, setting_of_mem distinct member, Option.isSome_some]
  have failed : (before.foldl put {}).add setting = .error (.duplicateField setting.field.name) := if_pos given
  rw [List.foldlM_append, foldl_m_add distinct fun other _ => has_empty other.field]
  change (setting :: after).foldlM add (before.foldl put {}) = _
  rw [List.foldlM_cons, failed]
  rfl

end Partial

end Stencil.Config
