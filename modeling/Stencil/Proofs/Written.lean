import Stencil.Proofs.Literal

set_option autoImplicit false

namespace Stencil.Template

open Text (EndsInBackslash Guarded escapeChars unescapeChars)

structure Part where
  literal : String
  name : String
  value : String

structure Part.Valid (part : Part) (context : Context) : Prop where
  apart : ¬ EndsInBackslash part.literal.toList
  named : IsName part.name.toList
  bound : context.get? part.name = some (.str part.value)
  plain : '\\' ∉ part.value.toList

namespace Part

def source (part : Part) : String := "\x7b" ++ part.name ++ "\x7d"

-- What the part's token gives way to. It stays as it is written where the literal has opened a default.
def shown (part : Part) : String := if OpensDefault part.literal.toList then part.source else part.value

end Part

def written : List Part → String → String
  | [], last => Text.escape last
  | part :: rest, last => Text.escape part.literal ++ part.source ++ written rest last

def printed (text : Part → String) : List Part → String → String
  | [], last => last
  | part :: rest, last => part.literal ++ text part ++ printed text rest last

theorem to_list_written_nil (last : String) : (written [] last).toList = escapeChars last.toList := by
  rw [written, Text.escape, String.toList_ofList]

theorem to_list_written_cons (part : Part) (rest : List Part) (last : String) :
    (written (part :: rest) last).toList =
      escapeChars part.literal.toList ++ '{' :: (part.name.toList ++ '}' :: (written rest last).toList) := by
  simp [written, Text.escape, Part.source]

theorem guarded_written_nil (last : String) : Guarded '{' (written [] last).toList := guarded_escape last

theorem of_pieces_silent {front : List Piece} (silent : Silent front) (back : List Piece) (start : Nat) :
    ∃ later, Token.ofPieces start (front ++ back) = Token.ofPieces later back := by
  induction front generalizing start with
  | nil => exact ⟨start, rfl⟩
  | cons piece rest ih =>
    have further : Silent rest := fun p member => silent p (List.mem_cons_of_mem piece member)
    cases piece with
    | char c => exact ih further _
    | escaped p => exact ih further _
    | token p => exact absurd List.mem_cons_self (silent p)

theorem fill_silent (config : Config) (context : Context) {front : List Piece} (silent : Silent front)
    (back : List Piece) :
    fill config context (front ++ back) = (fill config context back).map (front.flatMap Piece.source ++ ·) := by
  induction front with
  | nil =>
    rw [List.nil_append, List.flatMap_nil]
    cases fill config context back <;> rfl
  | cons piece rest ih =>
    have further : Silent rest := fun p member => silent p (List.mem_cons_of_mem piece member)
    have literal (plain : ∀ p, piece ≠ .token p) :
        fill config context (piece :: (rest ++ back)) =
          (fill config context (rest ++ back)).map (piece.source ++ ·) := by
      cases piece with
      | char c => rfl
      | escaped p => rfl
      | token p => exact absurd rfl (plain p)
    have plain (p : Placeholder) : piece ≠ .token p := by
      rintro rfl
      exact silent p List.mem_cons_self
    rw [List.cons_append, literal plain, ih further, List.flatMap_cons]
    cases fill config context back with
    | error fault => rfl
    | ok text => exact congrArg Except.ok (List.append_assoc _ _ _).symm

theorem tokens_written {context : Context} {parts : List Part} (last : String)
    (valid : ∀ part ∈ parts, part.Valid context) (start : Nat) :
    (Token.ofPieces start (pieces (written parts last).toList)).map (fun token => (token.name, token.default?)) =
      (parts.filter fun part => ¬ OpensDefault part.literal.toList).map fun part => (part.name, none) := by
  induction parts generalizing start with
  | nil =>
    rw [of_pieces_of_silent (silent_of_guarded (guarded_written_nil last))]
    rfl
  | cons part rest ih =>
    obtain ⟨first, others⟩ := List.forall_mem_cons.mp valid
    obtain ⟨front, silent, same⟩ := pieces_escape first.named first.apart (written rest last).toList
    rw [to_list_written_cons, same]
    obtain ⟨later, skipped⟩ := of_pieces_silent silent _ start
    rw [skipped]
    by_cases opens : OpensDefault part.literal.toList
    · rw [if_pos opens, ih others, List.filter_cons_of_neg (by simpa using opens)]
    · rw [if_neg opens, List.filter_cons_of_pos (by simpa using opens), List.map_cons, ← ih others]
      change (String.ofList part.name.toList, none) :: _ = _
      rw [String.ofList_toList]

theorem unescape_chars_part {literal text : List Char} (apart : ¬ EndsInBackslash literal) (plain : '\\' ∉ text)
    (rest : List Char) :
    unescapeChars (escapeChars literal ++ (text ++ rest)) = literal ++ (text ++ unescapeChars rest) := by
  rw [Text.unescape_chars_append (mt Text.ends_in_backslash_escape_chars.mp apart), Text.unescape_chars_escape_chars,
    Text.unescape_chars_append (Text.not_ends_in_backslash_of_not_mem plain), Text.unescape_chars_eq_self plain]

theorem Part.Valid.shown_plain {part : Part} {context : Context} (valid : part.Valid context) :
    '\\' ∉ part.shown.toList := by
  unfold Part.shown
  split
  · have letters : '\\' ∉ part.name.toList := fun member => absurd (valid.named.2 '\\' member) (by decide)
    simp [Part.source, letters]
  · exact valid.plain

theorem fill_part (config : Config) {context : Context} {part : Part} (valid : part.Valid context)
    {rest text : List Char} (filled : fill config context (pieces rest) = .ok text) :
    fill config context (pieces (escapeChars part.literal.toList ++ '{' :: (part.name.toList ++ '}' :: rest))) =
      .ok (escapeChars part.literal.toList ++ (part.shown.toList ++ text)) := by
  obtain ⟨front, silent, same⟩ := pieces_escape valid.named valid.apart rest
  have whole := flat_map_source_pieces (escapeChars part.literal.toList ++ '{' :: (part.name.toList ++ '}' :: rest))
  rw [same, List.flatMap_append] at whole
  rw [same, fill_silent config context silent]
  unfold Part.shown
  by_cases opens : OpensDefault part.literal.toList
  · rw [if_pos opens, flat_map_source_pieces] at whole
    rw [if_pos opens, if_pos opens, filled]
    have hidden : front.flatMap Piece.source = escapeChars part.literal.toList ++ part.source.toList := by
      apply (List.append_left_inj rest).mp
      simpa [Part.source] using whole
    rw [hidden, Except.map, List.append_assoc]
  · rw [if_neg opens, List.flatMap_cons, flat_map_source_pieces] at whole
    rw [if_neg opens, if_neg opens]
    have plain : front.flatMap Piece.source = escapeChars part.literal.toList := by
      apply (List.append_left_inj ('{' :: (part.name.toList ++ '}' :: rest))).mp
      simpa [Piece.source, Placeholder.source, Placeholder.body] using whole
    have replaced : replacement config context ⟨part.name.toList, none⟩ = .ok part.value.toList := by
      rw [replacement, String.ofList_toList, valid.bound]
      rfl
    rw [plain, fill, replaced, filled]
    rfl

theorem fill_written {context : Context} {parts : List Part} (last : String) (config : Config)
    (valid : ∀ part ∈ parts, part.Valid context) :
    ∃ text, fill config context (pieces (written parts last).toList) = .ok text ∧
      unescapeChars text = (printed Part.shown parts last).toList := by
  induction parts with
  | nil =>
    have filled := fill_silent config context (silent_of_guarded (guarded_written_nil last)) []
    rw [List.append_nil, flat_map_source_pieces, fill, Except.map, List.append_nil] at filled
    refine ⟨_, filled, ?_⟩
    rw [to_list_written_nil, Text.unescape_chars_escape_chars]
    rfl
  | cons part rest ih =>
    obtain ⟨first, others⟩ := List.forall_mem_cons.mp valid
    obtain ⟨text, filled, unescaped⟩ := ih others
    refine ⟨escapeChars part.literal.toList ++ (part.shown.toList ++ text), ?_, ?_⟩
    · rw [to_list_written_cons]
      exact fill_part config first filled
    · rw [unescape_chars_part first.apart first.shown_plain, unescaped]
      simp [printed]

theorem printed_shown_eq {parts : List Part} (last : String)
    (closed : ∀ part ∈ parts, ¬ OpensDefault part.literal.toList) :
    printed Part.shown parts last = printed Part.value parts last := by
  induction parts with
  | nil => rfl
  | cons part rest ih =>
    obtain ⟨first, others⟩ := List.forall_mem_cons.mp closed
    rw [printed, printed, Part.shown, if_neg first, ih others]

-- A name is read as a token exactly where the literal before it opens no default.
theorem render_written_iff {context : Context} {parts : List Part} (last : String) (config : Config)
    (inhabited : parts ≠ []) (valid : ∀ part ∈ parts, part.Valid context) :
    ((Token.scan (written parts last)).map fun token => (token.name, token.default?)) =
        ((parts.filter fun part => ¬ OpensDefault part.literal.toList).map fun part => (part.name, none)) ∧
      (∀ template, make (written parts last) config = .ok template →
        template.render context = .ok (printed Part.shown parts last)) ∧
      ((∃ template, make (written parts last) config = .ok template ∧
          (template.tokens.map fun token => (token.name, token.default?)) =
            (parts.map fun part => (part.name, none)) ∧
          template.render context = .ok (printed Part.value parts last)) ↔
        ∀ part ∈ parts, ¬ OpensDefault part.literal.toList) := by
  have scanned := tokens_written last valid 0
  have rendered (template : Template) (made : make (written parts last) config = .ok template) :
      template.render context = .ok (printed Part.shown parts last) := by
    obtain ⟨text, filled, unescaped⟩ := fill_written last template.config valid
    rw [render, (make_eq_ok_iff.mp made).1, filled, Except.map, unescaped, String.ofList_toList]
  refine ⟨scanned, rendered, ?_, ?_⟩
  · rintro ⟨template, made, named, _⟩ part member opens
    rw [tokens, (make_eq_ok_iff.mp made).1] at named
    have sizes := congrArg List.length (scanned.symm.trans named)
    rw [List.length_map, List.length_map, List.length_filter_eq_length_iff] at sizes
    exact absurd opens (by simpa using sizes part member)
  · intro closed
    have all : (parts.filter fun part => ¬ OpensDefault part.literal.toList) = parts :=
      List.filter_eq_self.mpr fun part member => by simpa using closed part member
    rw [all] at scanned
    have present : Token.scan (written parts last) ≠ [] := by
      intro missing
      rw [Token.scan] at missing
      rw [missing] at scanned
      exact inhabited (List.map_eq_nil_iff.mp scanned.symm)
    obtain ⟨template, made⟩ := exists_make config present
    refine ⟨template, made, ?_, ?_⟩
    · rw [tokens, (make_eq_ok_iff.mp made).1]
      exact scanned
    · rw [rendered _ made, printed_shown_eq last closed]

theorem render_written_single :
    (∃ template, make "\\\x7ba\\\x7d \x7bn\x7d" {} = .ok template ∧
      (template.tokens.map fun token => (token.name, token.default?)) = [("n", none)] ∧
      template.render (Context.ofList [("n", .str "v")]) = .ok "\x7ba\x7d v") ∧
    ¬ ∃ template, make "\\\x7ba:b\\\x7d \x7bn\x7d" {} = .ok template ∧
      (template.tokens.map fun token => (token.name, token.default?)) = [("n", none)] ∧
      template.render (Context.ofList [("n", .str "v")]) = .ok "\x7ba:b\x7d v" := by
  have valid (literal : String) (apart : ¬ Text.EndsInBackslash literal.toList) :
      ∀ part ∈ [Part.mk literal "n" "v"], part.Valid (Context.ofList [("n", .str "v")]) := by
    intro part member
    obtain rfl := List.mem_singleton.mp member
    have named : IsName "n".toList := by decide
    have plain : '\\' ∉ "v".toList := by decide
    exact ⟨apart, named, rfl, plain⟩
  have kept := (render_written_iff "" {} (List.cons_ne_nil _ _) (valid "\x7ba\x7d " (by decide))).2.2
  have hidden := (render_written_iff "" {} (List.cons_ne_nil _ _) (valid "\x7ba:b\x7d " (by decide))).2.2
  constructor
  · exact kept.mpr (by decide)
  · exact mt hidden.mp (by decide)

end Stencil.Template
