import Stencil.Proofs.NumberText
import Stencil.Proofs.Settled

set_option autoImplicit false

namespace Stencil.Json

theorem code_of_hex_control : ∀ n < 0x20, codeOfHex? '0' '0' (hexDigit (n / 16)) (hexDigit n) = some n := by
  decide

theorem read_units_short {letter c : Char} (named : shortEscape? letter = some c) (other : letter ≠ 'u')
    (text : List Char) :
    readUnits ('\\' :: letter :: text) = (readUnits text).map fun read => (.char c :: read.1, read.2) := by
  rw [readUnits, named]
  · cases readUnits text <;> rfl
  · simp [other]

theorem read_units_plain {c : Char} (unquoted : c ≠ '"') (unescaped : c ≠ '\\') (printed : ¬ c.toNat < 0x20)
    (text : List Char) :
    readUnits (c :: text) = (readUnits text).map fun read => (.char c :: read.1, read.2) := by
  simp [readUnits, unescaped, printed]

theorem read_units_code {a b c d : Char} {n : Nat} (code : codeOfHex? a b c d = some n) (text : List Char) :
    readUnits ('\\' :: 'u' :: a :: b :: c :: d :: text) =
      (readUnits text).map fun read => (.code n :: read.1, read.2) := by
  simp only [readUnits, code]
  cases readUnits text <;> rfl

theorem join_units_code {n : Nat} (small : n < 0xd800) (units : List StringUnit) :
    joinUnits (.code n :: units) = (joinUnits units).map (Char.ofNat n :: ·) := by
  have noLead : isLead n = false := by simp [isLead]; omega
  have noTrail : isTrail n = false := by simp [isTrail]; omega
  cases units with
  | nil => simp [joinUnits, noLead, noTrail]
  | cons unit rest => cases unit <;> simp [joinUnits, noLead, noTrail]

theorem exists_unit (c : Char) :
    ∃ unit, (∀ text, readUnits (escapeChar c ++ text) = (readUnits text).map fun read => (unit :: read.1, read.2)) ∧
      ∀ units, joinUnits (unit :: units) = (joinUnits units).map (c :: ·) := by
  unfold escapeChar
  split
  case h_8 unquoted unescaped _ _ _ _ _ =>
    split
    · next control =>
      refine ⟨.code c.toNat, read_units_code (code_of_hex_control _ control), fun units => ?_⟩
      rw [join_units_code (by omega), Char.ofNat_toNat]
    · next printed =>
      exact ⟨.char c, read_units_plain unquoted unescaped printed, fun _ => rfl⟩
  all_goals exact ⟨_, read_units_short rfl (by decide), fun _ => rfl⟩

theorem read_units_escaped (text rest : List Char) :
    ∃ units, readUnits (text.flatMap escapeChar ++ '"' :: rest) = some (units, rest) ∧
      joinUnits units = some text := by
  induction text with
  | nil => exact ⟨[], rfl, rfl⟩
  | cons c text ih =>
    obtain ⟨units, read, joined⟩ := ih
    obtain ⟨unit, one, stands⟩ := exists_unit c
    refine ⟨unit :: units, ?_, ?_⟩
    · rw [List.flatMap_cons, List.append_assoc, one, read]
      rfl
    · rw [stands, joined]
      rfl

theorem read_token_string_text (text : String) (rest : List Char) :
    readToken (stringText text ++ rest) = some (.str (some text), rest) := by
  obtain ⟨units, read, joined⟩ := read_units_escaped text.toList rest
  simp [stringText, readToken, read, joined]

open Numeric

def reread? (x : Binary64) : Option Number := (readLiteral (x.text .json)).bind fun read => read.1.float?

mutual

def echo : Json → Outline
  | .null => .null
  | .bool b => .bool b
  | .number (.int n inRange) => .number (some (.int n inRange))
  | .number (.float x _) => .number (reread? x)
  | .str text => .str (some text)
  | .array items => .array (itemsEcho items)
  | .object members => .object (membersEcho members)

def itemsEcho : List Json → List Outline
  | [] => []
  | item :: rest => echo item :: itemsEcho rest

def membersEcho : List (String × Json) → List (Option String × Outline)
  | [] => []
  | (key, value) :: rest => (some key, echo value) :: membersEcho rest

end

theorem tokens_cons {c : Char} {text rest : List Char} {token : Token} (dense : isBlank c = false)
    (read : readToken (c :: text) = some (token, rest)) : tokens (c :: text) = token :: tokens rest := by
  rw [tokens, dense]
  simp only [Bool.false_eq_true, if_false]
  split
  · next same =>
    cases read.symm.trans same
    rfl
  · next missing => cases read.symm.trans missing

@[simp]
theorem tokens_open_bracket (rest : List Char) : tokens ('[' :: rest) = .openBracket :: tokens rest :=
  tokens_cons rfl rfl

@[simp]
theorem tokens_close_bracket (rest : List Char) : tokens (']' :: rest) = .closeBracket :: tokens rest :=
  tokens_cons rfl rfl

@[simp]
theorem tokens_open_brace (rest : List Char) : tokens ('{' :: rest) = .openBrace :: tokens rest :=
  tokens_cons rfl rfl

@[simp]
theorem tokens_close_brace (rest : List Char) : tokens ('}' :: rest) = .closeBrace :: tokens rest :=
  tokens_cons rfl rfl

@[simp]
theorem tokens_comma (rest : List Char) : tokens (',' :: rest) = .comma :: tokens rest :=
  tokens_cons rfl rfl

@[simp]
theorem tokens_colon (rest : List Char) : tokens (':' :: rest) = .colon :: tokens rest :=
  tokens_cons rfl rfl

@[simp]
theorem tokens_string_text (text : String) (rest : List Char) :
    tokens (stringText text ++ rest) = .str (some text) :: tokens rest :=
  tokens_cons rfl (read_token_string_text text rest)

theorem head_of_read_literal {text rest : List Char} {literal : Literal}
    (found : readLiteral text = some (literal, rest)) :
    ∃ c more, text = c :: more ∧ (c = '-' ∨ c.isDigit = true) := by
  unfold readLiteral at found
  split at found
  · exact ⟨_, _, rfl, .inl rfl⟩
  · obtain ⟨c, more, same, digit⟩ := head_of_read_magnitude found
    exact ⟨c, more, same, .inr digit⟩

theorem tokens_literal {text rest : List Char} {literal : Literal} (found : readLiteral text = some (literal, rest)) :
    tokens text = .number literal.number? :: tokens rest := by
  obtain ⟨c, more, rfl, first⟩ := head_of_read_literal found
  have read : readToken (c :: more) = some (.number literal.number?, rest) := by
    unfold readToken
    split
    case h_11 => simp [found]
    all_goals simp_all
  have dense : isBlank c = false := by
    rcases first with rfl | digit
    · rfl
    · refine Bool.eq_false_iff.mpr fun blank => ?_
      simp only [isBlank, Bool.or_eq_true, beq_iff_eq] at blank
      rcases blank with ((rfl | rfl) | rfl) | rfl <;> cases digit
  exact tokens_cons dense read

theorem tokens_int {n : Int} (inRange : InRange n) {rest : List Char} (delimited : Delimited rest) :
    tokens (intText n ++ rest) = .number (some (.int n inRange)) :: tokens rest := by
  rw [tokens_literal (read_literal_int_text n delimited), number_int inRange]

theorem tokens_float {x : Binary64} (finite : x.isFinite = true) {rest : List Char} (delimited : Delimited rest) :
    tokens (x.text .json ++ rest) = .number (reread? x) :: tokens rest := by
  obtain ⟨literal, _, _, binary, read⟩ := exists_literal finite
  have alone := read [] (by simp [Delimited])
  rw [List.append_nil] at alone
  rw [tokens_literal (read rest delimited), binary, reread?, alone]
  rfl

theorem delimited_items_text (items : List Json) (rest : List Char) : Delimited (itemsText items ++ rest) := by
  cases items <;> simp [itemsText, Delimited]

theorem delimited_members_text (members : List (String × Json)) (rest : List Char) :
    Delimited (membersText members ++ rest) := by
  cases members <;> simp [membersText, Delimited]

theorem tokens_items_text {items : List Json} (inner : ∀ item ∈ items, ∀ rest, Delimited rest →
      tokens (item.text ++ rest) = item.echo.tokens ++ tokens rest) (rest : List Char) :
    tokens (itemsText items ++ rest) = itemsTokens (itemsEcho items) ++ tokens rest := by
  induction items with
  | nil => simp [itemsText, itemsEcho, itemsTokens]
  | cons item items ih =>
    obtain ⟨first, others⟩ := List.forall_mem_cons.mp inner
    have next := first _ (delimited_items_text items rest)
    simp [itemsText, itemsEcho, itemsTokens, next, ih others]

theorem tokens_members_text {members : List (String × Json)} (inner : ∀ member ∈ members, ∀ rest, Delimited rest →
      tokens (member.2.text ++ rest) = member.2.echo.tokens ++ tokens rest) (rest : List Char) :
    tokens (membersText members ++ rest) = membersTokens (membersEcho members) ++ tokens rest := by
  induction members with
  | nil => simp [membersText, membersEcho, membersTokens]
  | cons member members ih =>
    obtain ⟨key, value⟩ := member
    obtain ⟨first, others⟩ := List.forall_mem_cons.mp inner
    have next := first _ (delimited_members_text members rest)
    simp [membersText, membersEcho, membersTokens, next, ih others]

theorem tokens_text (tree : Json) :
    ∀ rest, Delimited rest → tokens (tree.text ++ rest) = tree.echo.tokens ++ tokens rest := by
  induction tree with
  | null => exact fun rest _ => tokens_cons rfl rfl
  | bool b => cases b <;> exact fun rest _ => tokens_cons rfl rfl
  | number n =>
    intro rest delimited
    cases n with
    | int n inRange => exact tokens_int inRange delimited
    | float x finite => exact tokens_float finite delimited
  | str s => exact fun rest _ => tokens_string_text s rest
  | array items ih =>
    intro rest _
    cases items with
    | nil => simp [text, echo, itemsEcho, Outline.tokens]
    | cons item items =>
      obtain ⟨first, others⟩ := List.forall_mem_cons.mp ih
      have next := first _ (delimited_items_text items rest)
      simp [text, echo, itemsEcho, Outline.tokens, next, tokens_items_text others]
  | object members ih =>
    intro rest _
    cases members with
    | nil => simp [text, echo, membersEcho, Outline.tokens]
    | cons member members =>
      obtain ⟨key, value⟩ := member
      obtain ⟨first, others⟩ := List.forall_mem_cons.mp ih
      have next := first _ (delimited_members_text members rest)
      simp [text, echo, membersEcho, Outline.tokens, next, tokens_members_text others]

theorem parse_text (tree : Json) : parse? (String.ofList tree.text) = settle maxDepth tree.echo := by
  have whole := tokens_text tree [] (by simp [Delimited])
  rw [List.append_nil, tokens] at whole
  rw [parse?, String.toList_ofList, whole, readValue, read_outline_eq_some_iff.mpr rfl]
  cases settled : settle maxDepth tree.echo <;> simp [settled]

end Stencil.Json
