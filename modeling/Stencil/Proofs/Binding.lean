import Stencil.Proofs.Nested
import Stencil.Proofs.Outcome
import Stencil.Record.Typed

set_option autoImplicit false

namespace Stencil

open Outcome (bind_eq_ok bind_eq_error)

namespace Template

theorem mem_token_names {template : Template} {name : String} :
    name ∈ template.tokenNames ↔ ∃ token ∈ template.tokens, token.name = name := by
  rw [template.named, Token.names, Entries.mem_names_of_list, List.map_map]
  exact List.mem_map

theorem has_token_iff {template : Template} {name : String} :
    template.hasToken name = true ↔ ∃ token ∈ template.tokens, token.name = name :=
  List.contains_iff_mem.trans mem_token_names

theorem ascending_token_names (template : Template) : template.tokenNames.Pairwise (· < ·) := by
  rw [template.named, Token.names, List.pairwise_map]
  exact Entries.ascending_of_list _

end Template

namespace TypedTemplate

variable {α : Type}

theorem eq_of_bind {template : Template} {record : Record α} {typed : TypedTemplate α}
    (bound : bind template record = .ok typed) : typed.template = template ∧ typed.fields = record.fields := by
  unfold bind at bound
  split at bound
  · cases bound
  · split at bound
    · obtain rfl := Except.ok.inj bound
      exact ⟨rfl, rfl⟩
    · cases bound

theorem bind_of_matched {template : Template} {record : Record α}
    (matched : ∃ field ∈ record.fields, template.hasToken field.name = true) :
    bind template record = .ok ⟨template, record.fields, matched⟩ := by
  obtain ⟨field, member, named⟩ := matched
  have found : (record.fields.any fun field => template.hasToken field.name) = true :=
    List.any_eq_true.mpr ⟨field, member, named⟩
  rw [bind, if_neg (List.ne_nil_of_mem member), dif_pos found]

theorem bind_eq_ok_iff {template : Template} {record : Record α} {typed : TypedTemplate α} :
    bind template record = .ok typed ↔ typed.template = template ∧ typed.fields = record.fields := by
  constructor
  · exact eq_of_bind
  · obtain ⟨held, fields, matched⟩ := typed
    rintro ⟨rfl, rfl⟩
    exact bind_of_matched matched

theorem bind_of_empty (template : Template) {record : Record α} (empty : record.fields = []) :
    bind template record = .error (.noReadableFields record.typeName) :=
  if_pos empty

theorem bind_of_unmatched {template : Template} {record : Record α} (inhabited : record.fields ≠ [])
    (unmatched : ¬ ∃ field ∈ record.fields, template.hasToken field.name = true) :
    bind template record = .error (.noMatchingFields record.typeName (record.fields.map Field.name)) := by
  rw [bind, if_neg inhabited, dif_neg (mt List.any_eq_true.mp unmatched)]

inductive Refused (definition : String) (record : Record α) : DefinitionError → Prop where
  | noTokens (untokened : Token.scan definition = []) : Refused definition record (.noTokens definition)
  | noReadableFields (tokened : Token.scan definition ≠ []) (empty : record.fields = []) :
      Refused definition record (.noReadableFields record.typeName)
  | noMatchingFields (tokened : Token.scan definition ≠ []) (inhabited : record.fields ≠ [])
      (apart : ∀ field ∈ record.fields, ∀ token ∈ Token.scan definition, token.name ≠ field.name) :
      Refused definition record (.noMatchingFields record.typeName (record.fields.map Field.name))

def Matched (definition : String) (fields : List (Field α)) : Prop :=
  ∃ field ∈ fields, ∃ token ∈ Token.scan definition, token.name = field.name

theorem matched_iff {definition : String} {config : Config} {template : Template} {fields : List (Field α)}
    (made : Template.make definition config = .ok template) :
    (∃ field ∈ fields, template.hasToken field.name = true) ↔ Matched definition fields := by
  refine exists_congr fun field => and_congr_right fun _ => ?_
  rw [Template.has_token_iff, Template.tokens, (Template.make_eq_ok_iff.mp made).1]

theorem make_of_made {definition : String} {config : Config} {template : Template} (record : Record α)
    (made : Template.make definition config = .ok template) : make definition config record = bind template record := by
  rw [make, made]
  rfl

theorem make_eq_ok_iff {definition : String} {config : Config} {record : Record α} {typed : TypedTemplate α} :
    make definition config record = .ok typed ↔
      typed.template.definition = definition ∧ typed.template.config = config ∧ typed.fields = record.fields := by
  constructor
  · intro result
    obtain ⟨template, made, bound⟩ := bind_eq_ok.mp result
    obtain ⟨rfl, fields⟩ := eq_of_bind bound
    obtain ⟨text, options⟩ := Template.make_eq_ok_iff.mp made
    exact ⟨text, options, fields⟩
  · rintro ⟨text, options, fields⟩
    have made := Template.make_eq_ok_iff.mpr ⟨text, options⟩
    rw [make_of_made record made]
    exact bind_eq_ok_iff.mpr ⟨rfl, fields⟩

theorem exists_make_iff {definition : String} (config : Config) {record : Record α} :
    (∃ typed, make definition config record = .ok typed) ↔ Matched definition record.fields := by
  constructor
  · rintro ⟨typed, result⟩
    obtain ⟨text, options, fields⟩ := make_eq_ok_iff.mp result
    rw [← fields]
    exact (matched_iff (Template.make_eq_ok_iff.mpr ⟨text, options⟩)).mp typed.matched
  · intro matched
    have tokened : Token.scan definition ≠ [] := by
      obtain ⟨_, _, token, member, _⟩ := matched
      exact List.ne_nil_of_mem member
    obtain ⟨template, made⟩ := Template.exists_make config tokened
    rw [make_of_made record made]
    exact ⟨_, bind_of_matched ((matched_iff made).mpr matched)⟩

theorem make_of_refused {definition : String} (config : Config) {record : Record α} {fault : DefinitionError}
    (refused : Refused definition record fault) : make definition config record = .error fault := by
  cases refused with
  | noTokens untokened =>
    rw [make, Template.make_eq_error_iff.mpr ⟨untokened, rfl⟩]
    rfl
  | noReadableFields tokened empty =>
    obtain ⟨template, made⟩ := Template.exists_make config tokened
    rw [make_of_made record made, bind_of_empty template empty]
  | noMatchingFields tokened inhabited apart =>
    obtain ⟨template, made⟩ := Template.exists_make config tokened
    have unmatched : ¬ Matched definition record.fields := by
      rintro ⟨field, inside, token, member, named⟩
      exact apart field inside token member named
    rw [make_of_made record made, bind_of_unmatched inhabited (mt (matched_iff made).mp unmatched)]

theorem refused_of_unmatched {definition : String} {record : Record α}
    (unmatched : ¬ Matched definition record.fields) : ∃ fault, Refused definition record fault := by
  by_cases untokened : Token.scan definition = []
  · exact ⟨_, .noTokens untokened⟩
  · by_cases empty : record.fields = []
    · exact ⟨_, .noReadableFields untokened empty⟩
    · refine ⟨_, .noMatchingFields untokened empty fun field inside token member named => ?_⟩
      exact unmatched ⟨field, inside, token, member, named⟩

theorem make_eq_error_iff {definition : String} {config : Config} {record : Record α} {fault : DefinitionError} :
    make definition config record = .error fault ↔ Refused definition record fault := by
  refine ⟨fun failed => ?_, make_of_refused config⟩
  have unmatched : ¬ Matched definition record.fields := by
    intro matched
    obtain ⟨typed, result⟩ := (exists_make_iff config).mpr matched
    cases failed.symm.trans result
  obtain ⟨other, refused⟩ := refused_of_unmatched unmatched
  obtain rfl := Except.error.inj (failed.symm.trans (make_of_refused config refused))
  exact refused

-- Nothing but the tokens and the names of the fields decides whether a typed template is made. Whatever typed template
-- there is can be made of its own parts, and has a field with the name of a token.
theorem make_decided :
    (∀ (α : Type) (definition : String) (config : Config) (record : Record α),
      (∀ fault, make definition config record = .error fault ↔ Refused definition record fault) ∧
      ((∃ typed, make definition config record = .ok typed) ↔
        ∃ field ∈ record.fields, ∃ token ∈ Token.scan definition, token.name = field.name) ∧
      (∀ typed, make definition config record = .ok typed ↔
        typed.template.definition = definition ∧ typed.template.config = config ∧ typed.fields = record.fields) ∧
      ∀ template, Template.make definition config = .ok template →
        bind template record = make definition config record) ∧
    (∀ (α : Type) (typed : TypedTemplate α) (typeName : String),
      make typed.template.definition typed.template.config ⟨typeName, typed.fields⟩ = .ok typed ∧
      typed.fields ≠ [] ∧ ∃ field ∈ typed.fields, typed.template.hasToken field.name = true) ∧
    ∀ template : Template, template.tokenNames.Pairwise (· < ·) ∧
      ∀ name, (template.hasToken name = true ↔ ∃ token ∈ template.tokens, token.name = name) ∧
        (name ∈ template.tokenNames ↔ ∃ token ∈ template.tokens, token.name = name) := by
  refine ⟨fun α definition config record => ⟨?_, ?_, ?_, ?_⟩, fun α typed typeName => ⟨?_, ?_, ?_⟩,
    fun template => ⟨?_, fun name => ⟨?_, ?_⟩⟩⟩
  · exact fun fault => make_eq_error_iff
  · exact exists_make_iff config
  · exact fun typed => make_eq_ok_iff
  · exact fun template made => (make_of_made record made).symm
  · exact make_eq_ok_iff.mpr ⟨rfl, rfl, rfl⟩
  · obtain ⟨field, member, _⟩ := typed.matched
    exact List.ne_nil_of_mem member
  · exact typed.matched
  · exact template.ascending_token_names
  · exact Template.has_token_iff
  · exact Template.mem_token_names

theorem make_decided_repeated :
    let count : Field Nat := ⟨"n", fun k => some (.int (Int64.ofNat k))⟩
    let other : Field Nat := ⟨"other", fun _ => none⟩
    (∃ typed, make "\x7bn\x7d-\x7bn\x7d" {} ⟨"Nat", [other, count, count]⟩ = .ok typed) ∧
      make "\x7bn\x7d" {} ⟨"Nat", [other, other]⟩ = .error (.noMatchingFields "Nat" ["other", "other"]) ∧
      make "\x7bn\x7d" {} (⟨"Nat", []⟩ : Record Nat) = .error (.noReadableFields "Nat") ∧
      make "\\\x7bn\x7d" {} (⟨"Nat", []⟩ : Record Nat) = .error (.noTokens "\\\x7bn\x7d") ∧
      ∃ template, Template.make "\x7bn\x7d" {} = .ok template ∧
        bind template ⟨"Nat", [count]⟩ = make "\x7bn\x7d" {} ⟨"Nat", [count]⟩ := by
  intro count other
  have decided := make_decided.1 Nat
  have twice : Token.scan "\x7bn\x7d-\x7bn\x7d" = [⟨"n", none, 0, 3⟩, ⟨"n", none, 4, 7⟩] := by decide +kernel
  have once : Token.scan "\x7bn\x7d" = [⟨"n", none, 0, 3⟩] := by decide +kernel
  have never : Token.scan "\\\x7bn\x7d" = [] := by decide +kernel
  obtain ⟨template, made⟩ := Template.exists_make {} (once ▸ List.cons_ne_nil _ _)
  refine ⟨?_, ?_, ?_, ?_, template, made, ?_⟩
  · refine (decided _ {} ⟨"Nat", [other, count, count]⟩).2.1.mpr ⟨count, by simp, ?_⟩
    exact ⟨⟨"n", none, 0, 3⟩, by simp [twice], rfl⟩
  · refine ((decided _ {} ⟨"Nat", [other, other]⟩).1 _).mpr (.noMatchingFields (by simp [once]) (by simp) ?_)
    simp [once, other]
  · exact ((decided _ {} ⟨"Nat", []⟩).1 _).mpr (.noReadableFields (by simp [once]) rfl)
  · exact ((decided _ {} ⟨"Nat", []⟩).1 _).mpr (.noTokens never)
  · exact (decided _ {} ⟨"Nat", [count]⟩).2.2.2 template made

end TypedTemplate

end Stencil
