import Mathlib.Data.List.Forall2
import Stencil.Proofs.Unread

set_option autoImplicit false

namespace Stencil

variable {α β γ : Type}

namespace Field

inductive Path : Type → Type → Type 1 where
  | here {α : Type} : Path α α
  | within {α β γ : Type} (part : α → β) (rest : Path β γ) : Path α γ

def Path.reach : {α β : Type} → Path α β → α → β
  | _, _, .here, owner => owner
  | _, _, .within part rest, owner => rest.reach (part owner)

def along : {α β : Type} → Path α β → Field β → Field α
  | _, _, .here, field => field
  | _, _, .within part rest, field => (along rest field).project part

theorem along_eq (path : Path α β) (field : Field β) :
    field.along path = ⟨field.name, fun owner => field.read (path.reach owner)⟩ := by
  induction path with
  | here => rfl
  | within part rest ih =>
    rw [along, ih]
    rfl

def Absent (fields : List (Field α)) (owner : α) (name : String) : Prop :=
  ∀ field ∈ fields, field.name = name → field.read owner = none

def Present (fields : List (Field α)) (owner : α) (name : String) (value : Value) : Prop :=
  ∃ before field after, fields = before ++ field :: after ∧ field.name = name ∧ field.read owner = some value ∧
    Absent after owner name

theorem read_as_eq_some_iff {field : Field α} {owner : α} {name : String} {value : Value} :
    (if field.name = name then field.read owner else none) = some value ↔
      field.name = name ∧ field.read owner = some value := by
  by_cases named : field.name = name <;> simp [named]

theorem read_as_eq_none_iff {field : Field α} {owner : α} {name : String} :
    (if field.name = name then field.read owner else none) = none ↔ (field.name = name → field.read owner = none) := by
  by_cases named : field.name = name <;> simp [named]

end Field

namespace TypedTemplate

open Stencil.Field (Absent Present read_as_eq_some_iff read_as_eq_none_iff)

theorem get_context_for_eq_none_iff {typed : TypedTemplate α} {owner : α} {name : String} :
    (typed.contextFor owner).get? name = none ↔ Absent typed.fields owner name := by
  rw [get_context_for, List.findSome?_eq_none_iff]
  simp only [List.mem_reverse, read_as_eq_none_iff]
  rfl

theorem get_context_for_eq_some_iff {typed : TypedTemplate α} {owner : α} {name : String} {value : Value} :
    (typed.contextFor owner).get? name = some value ↔ Present typed.fields owner name value := by
  rw [get_context_for, List.findSome?_eq_some_iff]
  simp only [read_as_eq_some_iff, read_as_eq_none_iff]
  constructor
  -- The search runs from the end, so what it passes first comes last in the list.
  · rintro ⟨after, field, before, split, ⟨named, read⟩, passed⟩
    refine ⟨before.reverse, field, after.reverse, by simpa using congrArg List.reverse split, named, read, ?_⟩
    exact fun later member => passed later (List.mem_reverse.mp member)
  · rintro ⟨before, field, after, split, named, read, absent⟩
    refine ⟨after.reverse, field, before.reverse, by simp [split], ⟨named, read⟩, ?_⟩
    exact fun later member => absent later (List.mem_reverse.mp member)

inductive Supplied (typed : TypedTemplate α) (owner : α) (token : Token) : Except RenderError String → Prop where
  | value {value : Value} (present : Present typed.fields owner token.name value) :
      Supplied typed owner token (value.render typed.template.config)
  | own {text : String} (absent : Absent typed.fields owner token.name) (declared : token.default? = some text) :
      Supplied typed owner token (.ok text)
  | shared (absent : Absent typed.fields owner token.name) (undeclared : token.default? = none) :
      Supplied typed owner token (.ok typed.template.config.globalDefault)

theorem supplied_iff {typed : TypedTemplate α} {owner : α} {token : Token} {outcome : Except RenderError String} :
    Supplied typed owner token outcome ↔
      token.resolve typed.template.config (typed.contextFor owner) = outcome := by
  unfold Token.resolve
  constructor
  · intro supplied
    cases supplied with
    | value present => rw [get_context_for_eq_some_iff.mpr present]
    | own absent declared => rw [get_context_for_eq_none_iff.mpr absent, declared, Option.getD_some]
    | shared absent undeclared => rw [get_context_for_eq_none_iff.mpr absent, undeclared, Option.getD_none]
  · rintro rfl
    cases held : (typed.contextFor owner).get? token.name with
    | some value => exact .value (get_context_for_eq_some_iff.mp held)
    | none =>
      have absent := get_context_for_eq_none_iff.mp held
      cases declared : token.default? with
      | some text => exact .own absent declared
      | none => exact .shared absent declared

theorem forall₂_supplied_iff {typed : TypedTemplate α} {owner : α} {tokens : List Token}
    {outcomes : List (Except RenderError String)} :
    List.Forall₂ (Supplied typed owner) tokens outcomes ↔
      outcomes = tokens.map (Token.resolve typed.template.config (typed.contextFor owner)) := by
  have same : Supplied typed owner = fun token outcome =>
      token.resolve typed.template.config (typed.contextFor owner) = outcome :=
    funext fun token => funext fun outcome => propext supplied_iff
  rw [same, ← List.forall₂_map_left_iff (R := Eq), List.forall₂_eq_eq_eq, eq_comm]

-- Of the fields with one name the last that is present counts, and a default only where all of them are absent. How
-- deep the parts lie that the fields read makes no difference.
theorem last_present_counts :
    (∀ (α : Type) (typed : TypedTemplate α) (owner : α),
      (∀ name value, (typed.contextFor owner).get? name = some value ↔ Present typed.fields owner name value) ∧
      (∀ name, (typed.contextFor owner).get? name = none ↔ Absent typed.fields owner name) ∧
      ∃ (literals : List String) (outcomes : List (Except RenderError String)),
        Template.literals? typed.template.definition 0 typed.template.tokens = some literals ∧
        (∀ others, List.Forall₂ (Supplied typed owner) typed.template.tokens others ↔ others = outcomes) ∧
        typed.render owner =
          (outcomes.mapM id).map fun replacements => Text.unescape (Template.weave literals replacements)) ∧
    ∀ (α β : Type) (path : Field.Path α β) (field : Field β),
      (field.along path).name = field.name ∧
        ∀ owner, (field.along path).read owner = field.read (path.reach owner) := by
  refine ⟨fun α typed owner => ⟨?_, ?_, ?_⟩, fun α β path field => ?_⟩
  · exact fun name value => get_context_for_eq_some_iff
  · exact fun name => get_context_for_eq_none_iff
  · have whole := Template.flat_map_source_pieces typed.template.definition.toList
    refine ⟨_, _, Template.literals_eq_between [] [] _ whole.symm, fun others => forall₂_supplied_iff, ?_⟩
    rw [List.mapM_map]
    exact Template.render_eq_resolve typed.template _
  · rw [Field.along_eq]
    exact ⟨rfl, fun owner => rfl⟩

example :
    let field (value? : Option Value) : Field Unit := ⟨"n", fun _ => value?⟩
    (Context.ofList (present [field (some (.int 1)), field (some (.int 2)), field none] ())).get? "n" =
      some (.int 2) := rfl

end TypedTemplate

end Stencil
