import Stencil.Json.Number

set_option autoImplicit false

namespace Stencil.Json

inductive Token where
  | openBrace
  | closeBrace
  | openBracket
  | closeBracket
  | colon
  | comma
  | null
  | bool (b : Bool)
  -- `none` if the number is beyond the largest finite one.
  | number (n? : Option Number)
  -- `none` if half of a surrogate pair stands alone.
  | str (text? : Option String)
  | invalid
deriving DecidableEq

inductive StringUnit where
  | char (c : Char)
  | code (n : Nat)
deriving DecidableEq, Repr

def hexValue? (c : Char) : Option Nat :=
  if '0' ≤ c && c ≤ '9' then some (c.toNat - '0'.toNat)
  else if 'a' ≤ c && c ≤ 'f' then some (c.toNat - 'a'.toNat + 10)
  else if 'A' ≤ c && c ≤ 'F' then some (c.toNat - 'A'.toNat + 10)
  else none

def codeOfHex? (a b c d : Char) : Option Nat := do
  let a ← hexValue? a
  let b ← hexValue? b
  let c ← hexValue? c
  let d ← hexValue? d
  return ((a * 16 + b) * 16 + c) * 16 + d

def shortEscape? : Char → Option Char
  | '"' => some '"'
  | '\\' => some '\\'
  | '/' => some '/'
  | 'b' => some '\x08'
  | 'f' => some '\x0c'
  | 'n' => some '\n'
  | 'r' => some '\r'
  | 't' => some '\t'
  | _ => none

def readUnits : List Char → Option (List StringUnit × List Char)
  | [] => none
  | '"' :: rest => some ([], rest)
  | '\\' :: 'u' :: a :: b :: c :: d :: rest => do
    let n ← codeOfHex? a b c d
    let (units, after) ← readUnits rest
    return (.code n :: units, after)
  | '\\' :: letter :: rest => do
    let c ← shortEscape? letter
    let (units, after) ← readUnits rest
    return (.char c :: units, after)
  | c :: rest =>
    if c.toNat < 0x20 then none
    else (readUnits rest).map fun read => (.char c :: read.1, read.2)

def isLead (n : Nat) : Bool := 0xd800 ≤ n && n < 0xdc00

def isTrail (n : Nat) : Bool := 0xdc00 ≤ n && n < 0xe000

def joinUnits : List StringUnit → Option (List Char)
  | [] => some []
  | .char c :: rest => (joinUnits rest).map (c :: ·)
  | .code lead :: .code trail :: rest =>
    if isLead lead then
      if isTrail trail then
        (joinUnits rest).map (Char.ofNat (0x10000 + (lead - 0xd800) * 0x400 + (trail - 0xdc00)) :: ·)
      else none
    else if isTrail lead then none
    else (joinUnits (.code trail :: rest)).map (Char.ofNat lead :: ·)
  | .code n :: rest =>
    if isLead n || isTrail n then none else (joinUnits rest).map (Char.ofNat n :: ·)

def readToken : List Char → Option (Token × List Char)
  | '{' :: rest => some (.openBrace, rest)
  | '}' :: rest => some (.closeBrace, rest)
  | '[' :: rest => some (.openBracket, rest)
  | ']' :: rest => some (.closeBracket, rest)
  | ':' :: rest => some (.colon, rest)
  | ',' :: rest => some (.comma, rest)
  | 'n' :: 'u' :: 'l' :: 'l' :: rest => some (.null, rest)
  | 't' :: 'r' :: 'u' :: 'e' :: rest => some (.bool true, rest)
  | 'f' :: 'a' :: 'l' :: 's' :: 'e' :: rest => some (.bool false, rest)
  | '"' :: rest =>
    (readUnits rest).map fun read => (.str ((joinUnits read.1).map String.ofList), read.2)
  | text => (readLiteral text).map fun read => (.number read.1.number?, read.2)

theorem length_lt_of_read_units {text rest : List Char} {units : List StringUnit}
    (found : readUnits text = some (units, rest)) : rest.length < text.length := by
  fun_induction readUnits text generalizing units with
  | case1 => cases found
  | case2 after =>
    obtain ⟨_, rfl⟩ := Prod.mk.inj (Option.some.inj found)
    exact Nat.lt_succ_self _
  | case3 a b c d after ih =>
    obtain ⟨n, _, found⟩ := Option.bind_eq_some_iff.mp found
    obtain ⟨⟨inner, final⟩, read, found⟩ := Option.bind_eq_some_iff.mp found
    obtain ⟨_, rfl⟩ := Prod.mk.inj (Option.some.inj found)
    have shorter := ih read
    simp only [List.length_cons]
    omega
  | case4 letter after _ ih =>
    obtain ⟨c, _, found⟩ := Option.bind_eq_some_iff.mp found
    obtain ⟨⟨inner, final⟩, read, found⟩ := Option.bind_eq_some_iff.mp found
    obtain ⟨_, rfl⟩ := Prod.mk.inj (Option.some.inj found)
    have shorter := ih read
    simp only [List.length_cons]
    omega
  | case5 => cases found
  | case6 c after _ _ _ _ ih =>
    obtain ⟨read, inner, same⟩ := Option.map_eq_some_iff.mp found
    obtain ⟨_, rfl⟩ := Prod.mk.inj same
    have shorter := ih inner
    simp only [List.length_cons]
    omega

theorem length_lt_of_read_token {text rest : List Char} {token : Token}
    (found : readToken text = some (token, rest)) : rest.length < text.length := by
  unfold readToken at found
  split at found
  case h_10 =>
    obtain ⟨read, inner, same⟩ := Option.map_eq_some_iff.mp found
    obtain ⟨_, rfl⟩ := Prod.mk.inj same
    exact Nat.lt_succ_of_lt (length_lt_of_read_units inner)
  case h_11 =>
    obtain ⟨read, inner, same⟩ := Option.map_eq_some_iff.mp found
    obtain ⟨_, rfl⟩ := Prod.mk.inj same
    exact length_lt_of_read_literal inner
  all_goals
    obtain ⟨_, rfl⟩ := Prod.mk.inj (Option.some.inj found)
    simp only [List.length_cons]
    omega

def isBlank (c : Char) : Bool := c == ' ' || c == '\t' || c == '\n' || c == '\r'

def tokens (text : List Char) : List Token :=
  match text with
  | [] => []
  | c :: rest =>
    if isBlank c then tokens rest
    else
      match _found : readToken (c :: rest) with
      | some (token, after) => token :: tokens after
      | none => [.invalid]
termination_by text.length
decreasing_by
  · exact Nat.lt_succ_self _
  · exact length_lt_of_read_token _found

end Stencil.Json
