import Stencil.Template.Basic

set_option autoImplicit false

namespace Stencil

structure Field (α : Type) where
  name : String
  read : α → Option Value

namespace Field

variable {α β : Type}

def ofDatum (name : String) (get : α → Datum) : Field α := ⟨name, fun owner => (get owner).toValue?⟩

def project (field : Field α) (part : β → α) : Field β := ⟨field.name, fun owner => field.read (part owner)⟩

def describe (field : Field α) : String :=
  "FieldDescriptor \x7b name: " ++ Text.quoted field.name ++ ", .. \x7d"

end Field

structure Record (α : Type) where
  typeName : String
  fields : List (Field α)

structure TypedTemplate (α : Type) where
  template : Template
  fields : List (Field α)
  matched : ∃ field ∈ fields, template.hasToken field.name = true

namespace TypedTemplate

variable {α : Type}

def bind (template : Template) (record : Record α) : Except DefinitionError (TypedTemplate α) :=
  if record.fields = [] then .error (.noReadableFields record.typeName)
  else if found : record.fields.any (fun field => template.hasToken field.name) = true then
    .ok ⟨template, record.fields, List.any_eq_true.mp found⟩
  else .error (.noMatchingFields record.typeName (record.fields.map Field.name))

def make (definition : String) (config : Config) (record : Record α) :
    Except DefinitionError (TypedTemplate α) := do
  let template ← Template.make definition config
  bind template record

def present (fields : List (Field α)) (owner : α) : List (String × Value) :=
  fields.filterMap fun field => (field.read owner).map fun value => (field.name, value)

def contextFor (typed : TypedTemplate α) (owner : α) : Context := Context.ofList (present typed.fields owner)

def render (typed : TypedTemplate α) (owner : α) : Except RenderError String :=
  typed.template.render (typed.contextFor owner)

def describe (typed : TypedTemplate α) : String :=
  "TypedTemplate \x7b template: " ++ typed.template.describe
    ++ ", fields: " ++ Text.bracketed (typed.fields.map Field.describe) ++ " \x7d"

end TypedTemplate

end Stencil
