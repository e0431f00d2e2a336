import Stencil.Json.Token

set_option autoImplicit false

namespace Stencil.Json

-- A value as the grammar has it: scalars from which nothing can be read are kept, and the nesting has no bound.
inductive Outline where
  | null
  | bool (b : Bool)
  | number (n? : Option Number)
  | str (text? : Option String)
  | array (items : List Outline)
  | object (members : List (Option String × Outline))
deriving Inhabited

-- An array or object whose end has not been read, with its items or members so far, the latest first.
inductive Frame where
  | array (done : List Outline)
  | object (done : List (Option String × Outline))
  | member (done : List (Option String × Outline)) (key? : Option String)

inductive Goal where
  | value
  | firstItem
  | firstKey
  | key
  | colon
  | next
deriving DecidableEq, Repr

inductive Step where
  | done (outline : Outline)
  | more (goal : Goal) (frames : List Frame)

def scalar? : Token → Option Outline
  | .null => some .null
  | .bool b => some (.bool b)
  | .number n? => some (.number n?)
  | .str text? => some (.str text?)
  | _ => none

def complete (outline : Outline) : List Frame → Option Step
  | [] => some (.done outline)
  | .array done :: below => some (.more .next (.array (outline :: done) :: below))
  | .member done key? :: below => some (.more .next (.object ((key?, outline) :: done) :: below))
  | .object _ :: _ => none

def stepValue (frames : List Frame) (token : Token) : Option Step :=
  match token with
  | .openBracket => some (.more .firstItem (.array [] :: frames))
  | .openBrace => some (.more .firstKey (.object [] :: frames))
  | _ => (scalar? token).bind fun outline => complete outline frames

def stepKey (frames : List Frame) (token : Token) : Option Step :=
  match token, frames with
  | .str key?, .object done :: below => some (.more .colon (.member done key? :: below))
  | _, _ => none

def stepEnd (frames : List Frame) (token : Token) : Option Step :=
  match token, frames with
  | .closeBracket, .array done :: below => complete (.array done.reverse) below
  | .closeBrace, .object done :: below => complete (.object done.reverse) below
  | _, _ => none

def stepNext (frames : List Frame) (token : Token) : Option Step :=
  match token, frames with
  | .comma, .array _ :: _ => some (.more .value frames)
  | .comma, .object _ :: _ => some (.more .key frames)
  | _, _ => stepEnd frames token

def step (goal : Goal) (frames : List Frame) (token : Token) : Option Step :=
  match goal with
  | .value => stepValue frames token
  | .firstItem => (stepEnd frames token).or (stepValue frames token)
  | .firstKey => (stepEnd frames token).or (stepKey frames token)
  | .key => stepKey frames token
  | .colon => if token = .colon then some (.more .value frames) else none
  | .next => stepNext frames token

def run (goal : Goal) (frames : List Frame) : List Token → Option (Outline × List Token)
  | [] => none
  | token :: rest =>
    match step goal frames token with
    | none => none
    | some (.done outline) => some (outline, rest)
    | some (.more goal frames) => run goal frames rest

def readOutline (toks : List Token) : Option (Outline × List Token) := run .value [] toks

theorem length_lt_of_run {goal : Goal} {frames : List Frame} {toks rest : List Token}
    {outline : Outline} (found : run goal frames toks = some (outline, rest)) :
    rest.length < toks.length := by
  induction toks generalizing goal frames with
  | nil => cases found
  | cons token after ih =>
    unfold run at found
    split at found
    · cases found
    · obtain ⟨_, rfl⟩ := Prod.mk.inj (Option.some.inj found)
      exact Nat.lt_succ_self _
    · exact Nat.lt_succ_of_lt (ih found)

theorem length_lt_of_read_outline {toks rest : List Token} {outline : Outline}
    (found : readOutline toks = some (outline, rest)) : rest.length < toks.length :=
  length_lt_of_run found

mutual

def settle (room : Nat) : Outline → Option Json
  | .null => some .null
  | .bool b => some (.bool b)
  | .number n? => n?.map .number
  | .str text? => text?.map .str
  | .array items => if room = 0 then none else (settleItems (room - 1) items).map .array
  | .object members => if room = 0 then none else (settleMembers (room - 1) members).map .object

def settleItems (room : Nat) : List Outline → Option (List Json)
  | [] => some []
  | item :: rest => do
    let first ← settle room item
    let others ← settleItems room rest
    return first :: others

def settleMembers (room : Nat) : List (Option String × Outline) → Option (List (String × Json))
  | [] => some []
  | (key?, value) :: rest => do
    let key ← key?
    let first ← settle room value
    let others ← settleMembers room rest
    return (key, first) :: others

end

def maxDepth : Nat := 127

def readValue (room : Nat) (toks : List Token) : Option (Json × List Token) := do
  let (outline, rest) ← readOutline toks
  let tree ← settle room outline
  return (tree, rest)

theorem length_lt_of_read_value {room : Nat} {toks rest : List Token} {tree : Json}
    (found : readValue room toks = some (tree, rest)) : rest.length < toks.length := by
  obtain ⟨⟨outline, after⟩, read, found⟩ := Option.bind_eq_some_iff.mp found
  obtain ⟨settled, _, found⟩ := Option.bind_eq_some_iff.mp found
  obtain ⟨_, rfl⟩ := Prod.mk.inj (Option.some.inj found)
  exact length_lt_of_read_outline read

def parse? (text : String) : Option Json :=
  match readValue maxDepth (tokens text.toList) with
  | some (tree, []) => some tree
  | _ => none

end Stencil.Json
