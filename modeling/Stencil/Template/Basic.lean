import Stencil.Context
import Stencil.Template.Token
import Stencil.Value.Render

set_option autoImplicit false

namespace Stencil

inductive DefinitionError where
  | noTokens (definition : String)
  | noReadableFields (typeName : String)
  | noMatchingFields (typeName : String) (fields : List String)
deriving DecidableEq, Repr

namespace DefinitionError

def message : DefinitionError → String
  | .noTokens definition =>
    "Definition error: template contains no tokens: " ++ Text.quoted definition
  | .noReadableFields typeName =>
    "Definition error: type '" ++ typeName ++ "' has no readable fields"
  | .noMatchingFields typeName fields =>
    "Definition error: no field of type '" ++ typeName ++ "' matches a template token (fields: "
      ++ Text.bracketed (fields.map Text.quoted) ++ ")"

end DefinitionError

structure Template where
  definition : String
  config : Config
  tokenNames : List String
  named : tokenNames = Token.names (Token.scan definition)
  inhabited : tokenNames ≠ []

namespace Template

def make (definition : String) (config : Config) : Except DefinitionError Template :=
  if missing : Token.names (Token.scan definition) = [] then .error (.noTokens definition)
  else .ok ⟨definition, config, _, rfl, missing⟩

theorem has_tokens (template : Template) : Token.scan template.definition ≠ [] := by
  rw [Ne, ← Token.names_eq_nil, ← template.named]
  exact template.inhabited

theorem make_eq_error_iff {definition : String} {config : Config} {fault : DefinitionError} :
    make definition config = .error fault ↔ Token.scan definition = [] ∧ fault = .noTokens definition := by
  unfold make
  rw [← Token.names_eq_nil]
  split
  · next missing => simp [missing, eq_comm]
  · next present => simp [present]

theorem exists_make {definition : String} (config : Config) (present : Token.scan definition ≠ []) :
    ∃ template, make definition config = .ok template :=
  ⟨_, dif_neg (mt Token.names_eq_nil.mp present)⟩

theorem make_eq_ok_iff {definition : String} {config : Config} {template : Template} :
    make definition config = .ok template ↔ template.definition = definition ∧ template.config = config := by
  unfold make
  split
  · next missing =>
    simp only [reduceCtorEq, false_iff]
    rintro ⟨rfl, _⟩
    exact template.has_tokens (Token.names_eq_nil.mp missing)
  · next present =>
    obtain ⟨text, options, names, rfl, inhabited⟩ := template
    simp only [Except.ok.injEq, mk.injEq]
    constructor
    · rintro ⟨rfl, rfl, _⟩
      exact ⟨rfl, rfl⟩
    · rintro ⟨rfl, rfl⟩
      exact ⟨rfl, rfl, rfl⟩

def tokens (template : Template) : List Token := Token.scan template.definition

def hasToken (template : Template) (name : String) : Bool := template.tokenNames.contains name

def replacement (config : Config) (context : Context) (p : Placeholder) : Except RenderError (List Char) :=
  match context.get? (String.ofList p.name) with
  | some value => (value.render config).map String.toList
  | none => .ok (p.default?.getD config.globalDefault.toList)

def fill (config : Config) (context : Context) : List Piece → Except RenderError (List Char)
  | [] => .ok []
  | .token p :: rest => do
    let text ← replacement config context p
    let after ← fill config context rest
    return text ++ after
  | piece :: rest => (fill config context rest).map (piece.source ++ ·)

def render (template : Template) (context : Context) : Except RenderError String :=
  (fill template.config context (pieces template.definition.toList)).map fun text =>
    String.ofList (Text.unescapeChars text)

def describe (template : Template) : String :=
  "Template \x7b definition: " ++ Text.quoted template.definition
    ++ ", config: " ++ template.config.describe
    ++ ", token_names: \x7b" ++ String.intercalate ", " (template.tokenNames.map Text.quoted)
    ++ "\x7d \x7d"

end Template

end Stencil
