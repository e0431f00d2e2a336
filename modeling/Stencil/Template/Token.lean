import Stencil.Value.Entries

set_option autoImplicit false

namespace Stencil.Template

def isNameChar (c : Char) : Bool := c.isAlphanum || c == '_' || c == '-'

structure Placeholder where
  name : List Char
  default? : Option (List Char)
deriving DecidableEq, Repr

namespace Placeholder

def body (p : Placeholder) : List Char :=
  match p.default? with
  | none => p.name ++ ['}']
  | some text => p.name ++ ':' :: text ++ ['}']

def source (p : Placeholder) : List Char := '{' :: p.body

end Placeholder

def splitAtBareBrace : List Char → Option (List Char × List Char)
  | [] => none
  | '\\' :: '}' :: rest => (splitAtBareBrace rest).map fun split => ('\\' :: '}' :: split.1, split.2)
  | '}' :: rest => some ([], rest)
  | c :: rest => (splitAtBareBrace rest).map fun split => (c :: split.1, split.2)

def splitAtLastBrace : List Char → Option (List Char × List Char)
  | [] => none
  | c :: rest =>
    match splitAtLastBrace rest with
    | some split => some (c :: split.1, split.2)
    | none => if c = '}' then some ([], rest) else none

-- A default ends before the first closing brace that has no backslash directly before it; when every closing brace
-- has one, it ends before the last of them.
def splitDefault (text : List Char) : Option (List Char × List Char) :=
  (splitAtBareBrace text).or (splitAtLastBrace text)

def readBody (text : List Char) : Option (Placeholder × List Char) :=
  let name := text.takeWhile isNameChar
  if name = [] then none
  else
    match text.dropWhile isNameChar with
    | '}' :: rest => some (⟨name, none⟩, rest)
    | ':' :: rest => (splitDefault rest).map fun split => (⟨name, some split.1⟩, split.2)
    | _ => none

theorem eq_of_split_at_bare_brace {text before after : List Char}
    (found : splitAtBareBrace text = some (before, after)) : text = before ++ '}' :: after := by
  fun_induction splitAtBareBrace text generalizing before with
  | case1 => cases found
  | case2 rest ih =>
    obtain ⟨split, inner, same⟩ := Option.map_eq_some_iff.mp found
    obtain ⟨rfl, rfl⟩ := Prod.mk.inj same
    rw [ih inner]
    rfl
  | case3 rest =>
    obtain ⟨rfl, rfl⟩ := Prod.mk.inj (Option.some.inj found)
    rfl
  | case4 c rest _ _ ih =>
    obtain ⟨split, inner, same⟩ := Option.map_eq_some_iff.mp found
    obtain ⟨rfl, rfl⟩ := Prod.mk.inj same
    rw [ih inner]
    rfl

theorem split_at_last_brace_divides (text : List Char) :
    match splitAtLastBrace text with
    | some (before, after) => text = before ++ '}' :: after ∧ '}' ∉ after
    | none => '}' ∉ text := by
  induction text with
  | nil => exact List.not_mem_nil
  | cons c rest ih =>
    rw [splitAtLastBrace]
    cases inner : splitAtLastBrace rest with
    | some split =>
      rw [inner] at ih
      exact ⟨congrArg (c :: ·) ih.1, ih.2⟩
    | none =>
      rw [inner] at ih
      by_cases same : c = '}'
      · simp only [if_pos same]
        exact ⟨congrArg (· :: rest) same, ih⟩
      · simp only [if_neg same]
        exact List.not_mem_cons_of_ne_of_not_mem (Ne.symm same) ih

theorem split_at_last_brace_of_found {text before after : List Char}
    (found : splitAtLastBrace text = some (before, after)) : text = before ++ '}' :: after ∧ '}' ∉ after := by
  simpa only [found] using split_at_last_brace_divides text

theorem eq_of_split_default {text before after : List Char}
    (found : splitDefault text = some (before, after)) : text = before ++ '}' :: after := by
  rcases Option.or_eq_some_iff.mp found with bare | ⟨_, last⟩
  · exact eq_of_split_at_bare_brace bare
  · exact (split_at_last_brace_of_found last).1

theorem eq_of_read_body {text rest : List Char} {p : Placeholder}
    (found : readBody text = some (p, rest)) : text = p.body ++ rest := by
  have whole := List.takeWhile_append_dropWhile (p := isNameChar) (l := text)
  unfold readBody at found
  simp only at found
  split at found
  · cases found
  · split at found
    · next after same =>
      obtain ⟨rfl, rfl⟩ := Prod.mk.inj (Option.some.inj found)
      rw [same] at whole
      simpa [Placeholder.body] using whole.symm
    · next after same =>
      obtain ⟨split, inner, pair⟩ := Option.map_eq_some_iff.mp found
      obtain ⟨rfl, rfl⟩ := Prod.mk.inj pair
      rw [same, eq_of_split_default inner] at whole
      simpa [Placeholder.body] using whole.symm
    · cases found

theorem length_lt_of_read_body {text rest : List Char} {p : Placeholder}
    (found : readBody text = some (p, rest)) : rest.length < text.length := by
  rw [eq_of_read_body found, List.length_append]
  have positive : 0 < p.body.length := by
    unfold Placeholder.body
    split <;> simp only [List.length_append, List.length_cons, List.length_nil] <;> omega
  omega

inductive Piece where
  | char (c : Char)
  | escaped (p : Placeholder)
  | token (p : Placeholder)
deriving DecidableEq, Repr

namespace Piece

def source : Piece → List Char
  | .char c => [c]
  | .escaped p => '\\' :: p.source
  | .token p => p.source

end Piece

-- A piece ends where the next begins, and what is no placeholder is passed over one character at a time.
def pieces (text : List Char) : List Piece :=
  match text with
  | [] => []
  | '\\' :: '{' :: rest =>
    match _found : readBody rest with
    | some (p, after) => .escaped p :: pieces after
    | none => .char '\\' :: pieces ('{' :: rest)
  | '{' :: rest =>
    match _found : readBody rest with
    | some (p, after) => .token p :: pieces after
    | none => .char '{' :: pieces rest
  | c :: rest => .char c :: pieces rest
termination_by text.length
decreasing_by
  · have shorter := length_lt_of_read_body _found
    simp only [List.length_cons]
    omega
  · exact Nat.lt_succ_self _
  · have shorter := length_lt_of_read_body _found
    simp only [List.length_cons]
    omega
  · exact Nat.lt_succ_self _
  · exact Nat.lt_succ_self _

theorem flat_map_source_pieces (text : List Char) : (pieces text).flatMap Piece.source = text := by
  fun_induction pieces text with
  | case1 => rfl
  | case2 rest p after found ih =>
    rw [List.flatMap_cons, ih, eq_of_read_body found]
    rfl
  | case3 rest found ih =>
    rw [List.flatMap_cons, ih]
    rfl
  | case4 rest p after found ih =>
    rw [List.flatMap_cons, ih, eq_of_read_body found]
    rfl
  | case5 rest found ih =>
    rw [List.flatMap_cons, ih]
    rfl
  | case6 c rest _ _ ih =>
    rw [List.flatMap_cons, ih]
    rfl

end Stencil.Template

namespace Stencil

-- Places are counted in bytes of the definition's UTF-8 form.
structure Token where
  name : String
  default? : Option String
  start : Nat
  stop : Nat
deriving DecidableEq, Repr

namespace Token

def byteLength : List Char → Nat
  | [] => 0
  | c :: rest => c.utf8Size + byteLength rest

def ofPieces (start : Nat) : List Template.Piece → List Token
  | [] => []
  | piece :: rest =>
    let stop := start + byteLength piece.source
    match piece with
    | .token p => ⟨String.ofList p.name, p.default?.map String.ofList, start, stop⟩ :: ofPieces stop rest
    | _ => ofPieces stop rest

def scan (definition : String) : List Token := ofPieces 0 (Template.pieces definition.toList)

def names (tokens : List Token) : List String :=
  (Entries.ofList (tokens.map fun token => (token.name, ()))).map Prod.fst

theorem names_eq_nil {tokens : List Token} : names tokens = [] ↔ tokens = [] := by
  rw [names, List.map_eq_nil_iff, Entries.ofList, Entries.insert_all_eq_nil, List.map_eq_nil_iff, and_iff_right rfl]

def source (token : Token) : String :=
  match token.default? with
  | none => "\x7b" ++ token.name ++ "\x7d"
  | some text => "\x7b" ++ token.name ++ ":" ++ text ++ "\x7d"

end Token

end Stencil
