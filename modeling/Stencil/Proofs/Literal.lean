import Stencil.Proofs.Closing
import Stencil.Proofs.Unescape

set_option autoImplicit false

namespace Stencil.Template

open Text (EndsInBackslash Guarded escapeChars isBrace)

def Declares (text : List Char) : Prop := ∃ name after, IsName name ∧ text = name ++ ':' :: after

def OpensDefault (text : List Char) : Prop := ∃ before after, text = before ++ '{' :: after ∧ Declares after

theorem declares_iff {text : List Char} :
    Declares text ↔ text.takeWhile isNameChar ≠ [] ∧ (text.dropWhile isNameChar).head? = some ':' := by
  constructor
  · rintro ⟨name, after, valid, rfl⟩
    rw [take_while_name valid (by decide), drop_while_name valid (by decide)]
    exact ⟨valid.1, rfl⟩
  · rintro ⟨inhabited, first⟩
    obtain ⟨after, same⟩ := List.head?_eq_some_iff.mp first
    have whole := List.takeWhile_append_dropWhile (p := isNameChar) (l := text)
    rw [same] at whole
    exact ⟨text.takeWhile isNameChar, after, is_name_take_while inhabited, whole.symm⟩

theorem not_opens_default_nil : ¬ OpensDefault [] := by
  rintro ⟨before, after, whole, _⟩
  simp at whole

theorem opens_default_cons {c : Char} {rest : List Char} :
    OpensDefault (c :: rest) ↔ (c = '{' ∧ Declares rest) ∨ OpensDefault rest := by
  constructor
  · rintro ⟨before, after, whole, declares⟩
    cases before with
    | nil =>
      obtain ⟨rfl, rfl⟩ := List.cons.inj whole
      exact .inl ⟨rfl, declares⟩
    | cons d tail => exact .inr ⟨tail, after, (List.cons.inj whole).2, declares⟩
  · rintro (⟨rfl, declares⟩ | ⟨before, after, rfl, declares⟩)
    · exact ⟨[], rest, rfl, declares⟩
    · exact ⟨c :: before, after, rfl, declares⟩

instance (text : List Char) : Decidable (Declares text) := decidable_of_iff _ declares_iff.symm

instance decidableOpensDefault : (text : List Char) → Decidable (OpensDefault text)
  | [] => .isFalse not_opens_default_nil
  | _ :: rest =>
    have := decidableOpensDefault rest
    decidable_of_iff _ opens_default_cons.symm

theorem is_brace_of_is_name_char {c : Char} (letter : isNameChar c = true) : isBrace c = false := by
  apply Bool.eq_false_iff.mpr
  intro brace
  rcases Text.is_brace_iff.mp brace with rfl | rfl <;> cases letter

theorem eq_append_of_escape_chars {literal more name after : List Char} {c : Char}
    (letters : ∀ d ∈ name, isNameChar d = true) (other : c ≠ '\\') (unopened : c ≠ '{')
    (same : escapeChars literal ++ '{' :: more = name ++ c :: after) :
    isBrace c = false ∧ ∃ later, literal = name ++ c :: later := by
  induction literal generalizing name with
  | nil =>
    cases name with
    | nil => exact absurd (List.cons.inj same).1.symm unopened
    | cons d tail =>
      obtain ⟨rfl, _⟩ := List.cons.inj same
      exact absurd (letters '{' List.mem_cons_self) (by decide)
  | cons e rest ih =>
    cases brace : isBrace e with
    | true =>
      rw [Text.escape_chars_brace brace] at same
      cases name with
      | nil => exact absurd (List.cons.inj same).1.symm other
      | cons d tail =>
        obtain ⟨rfl, _⟩ := List.cons.inj same
        exact absurd (letters '\\' List.mem_cons_self) (by decide)
    | false =>
      rw [Text.escape_chars_cons brace] at same
      cases name with
      | nil =>
        obtain ⟨rfl, _⟩ := List.cons.inj same
        exact ⟨brace, rest, rfl⟩
      | cons d tail =>
        obtain ⟨rfl, later⟩ := List.cons.inj same
        obtain ⟨bare, front, rfl⟩ := ih (List.forall_mem_cons.mp letters).2 later
        exact ⟨bare, front, rfl⟩

theorem not_body_of_not_declares {literal more : List Char} (undeclared : ¬ Declares literal) (p : Placeholder)
    (after : List Char) : ¬ Body (escapeChars literal ++ '{' :: more) p after := by
  generalize same : escapeChars literal ++ '{' :: more = text
  intro body
  cases body with
  | plain valid =>
    have bare := (eq_append_of_escape_chars valid.2 (by decide) (by decide) same).1
    cases bare
  | withDefault valid ends =>
    obtain ⟨_, later, declared⟩ := eq_append_of_escape_chars valid.2 (by decide) (by decide) same
    exact undeclared ⟨_, later, valid, declared⟩

-- A default that an escaped literal opens runs through the brace that closes the next token.
theorem body_of_declares {literal name : List Char} (declares : Declares literal) (valid : IsName name)
    (rest : List Char) :
    ∃ p, Body (escapeChars literal ++ '{' :: (name ++ '}' :: rest)) p rest := by
  obtain ⟨label, tail, named, rfl⟩ := declares
  have unguarded : ¬ EndsInBackslash (escapeChars tail ++ '{' :: name) := by
    rw [Text.ends_in_backslash_append (List.cons_ne_nil _ _), Text.ends_in_backslash_cons_of_ne (by decide)]
    exact not_ends_in_backslash_name valid
  have unclosed : '}' ∉ '{' :: name := by
    rintro (_ | ⟨_, member⟩)
    exact absurd (valid.2 '}' member) (by decide)
  have earlier : Guarded '}' (escapeChars tail ++ '{' :: name) := (Text.guarded_escape_chars rfl tail).append unclosed
  have ends : DefaultEnd (escapeChars tail ++ '{' :: (name ++ '}' :: rest)) _ rest :=
    .bare (by simp) unguarded earlier
  refine ⟨⟨label, some (escapeChars tail ++ '{' :: name)⟩, ?_⟩
  have whole : escapeChars (label ++ ':' :: tail) = label ++ ':' :: escapeChars tail := by
    rw [Text.escape_chars_append, Text.escape_chars_eq_self fun c member => is_brace_of_is_name_char (named.2 c member),
      Text.escape_chars_cons rfl]
  rw [whole, List.append_assoc, List.cons_append]
  exact .withDefault named ends

def Silent (all : List Piece) : Prop := ∀ p, Piece.token p ∉ all

theorem pieces_escape_step {c : Char} {later more : List Char} (apart : ¬ EndsInBackslash (c :: later))
    (undeclared : c = '{' → ¬ Declares later) :
    pieces (escapeChars (c :: later) ++ '{' :: more) =
      (escapeChars [c]).map .char ++ pieces (escapeChars later ++ '{' :: more) := by
  cases brace : isBrace c with
  | true =>
    have other := Text.ne_backslash_of_is_brace brace
    have covered : ∀ p after, ¬ Opens ('\\' :: c :: (escapeChars later ++ '{' :: more)) p after := by
      intro p after opens
      cases opens with
      | escaped body => exact not_body_of_not_declares (undeclared rfl) p after body
    have bare : ∀ p after, ¬ Opens (c :: (escapeChars later ++ '{' :: more)) p after := by
      generalize same : escapeChars later ++ '{' :: more = text
      intro p after opens
      cases opens with
      | token body =>
        rw [← same] at body
        exact not_body_of_not_declares (undeclared rfl) p after body
      | escaped body => exact other rfl
    rw [Text.escape_chars_brace brace, Text.escape_chars_brace brace]
    change pieces ('\\' :: c :: (escapeChars later ++ '{' :: more)) = _
    rw [pieces_char covered, pieces_char bare]
    rfl
  | false =>
    have bare : ∀ p after, ¬ Opens (c :: (escapeChars later ++ '{' :: more)) p after := by
      generalize same : escapeChars later ++ '{' :: more = text
      intro p after opens
      cases opens with
      | token body => cases brace
      | escaped body =>
        cases written : escapeChars later with
        | nil =>
          rw [Text.escape_chars_eq_nil.mp written] at apart
          exact apart (Text.ends_in_backslash_singleton.mpr rfl)
        | cons d tail =>
          rw [written] at same
          obtain ⟨rfl, _⟩ := List.cons.inj same
          have plain := Text.is_brace_head_escape_chars '{' (by rw [written]; rfl)
          cases plain
    rw [Text.escape_chars_cons brace, Text.escape_chars_cons brace, List.cons_append, pieces_char bare]
    rfl

theorem pieces_escape {literal name : List Char} (valid : IsName name) (apart : ¬ EndsInBackslash literal)
    (rest : List Char) :
    ∃ front, Silent front ∧
      pieces (escapeChars literal ++ '{' :: (name ++ '}' :: rest)) =
        front ++ if OpensDefault literal then pieces rest else .token ⟨name, none⟩ :: pieces rest := by
  induction literal with
  | nil =>
    refine ⟨[], by simp [Silent], ?_⟩
    rw [if_neg not_opens_default_nil]
    exact pieces_token (.plain valid)
  | cons c later ih =>
    by_cases declares : c = '{' ∧ Declares later
    · obtain ⟨rfl, declared⟩ := declares
      obtain ⟨p, body⟩ := body_of_declares declared valid rest
      refine ⟨[.escaped p], by simp [Silent], ?_⟩
      rw [if_pos (opens_default_cons.mpr (.inl ⟨rfl, declared⟩)), Text.escape_chars_brace rfl]
      exact pieces_escaped body
    · obtain ⟨front, silent, same⟩ := ih (mt EndsInBackslash.cons apart)
      refine ⟨(escapeChars [c]).map .char ++ front, ?_, ?_⟩
      · intro p member
        rcases List.mem_append.mp member with char | token
        · obtain ⟨_, _, same⟩ := List.mem_map.mp char
          cases same
        · exact silent p token
      · rw [pieces_escape_step apart fun opening declared => declares ⟨opening, declared⟩, same, List.append_assoc]
        congr 2
        simp only [opens_default_cons, declares, false_or]

theorem not_ends_in_backslash_piece {piece : Piece} (other : piece ≠ .char '\\') : ¬ EndsInBackslash piece.source := by
  have closed (front : List Char) : ¬ EndsInBackslash (front ++ ['}']) := by
    rw [Text.ends_in_backslash_append (List.cons_ne_nil _ _)]
    decide
  cases piece with
  | char c =>
    intro ends
    rw [Text.ends_in_backslash_singleton.mp ends] at other
    exact other rfl
  | escaped p =>
    obtain ⟨front, same⟩ := exists_source_eq p
    rw [Piece.source, same]
    exact closed ('\\' :: front)
  | token p =>
    obtain ⟨front, same⟩ := exists_source_eq p
    rw [Piece.source, same]
    exact closed front

-- A backslash directly before a token would have been read together with it.
theorem silent_of_guarded {text : List Char} (guarded : Guarded '{' text) : Silent (pieces text) := by
  intro p member
  obtain ⟨front, back, same⟩ := List.append_of_mem member
  have whole : text = front.flatMap Piece.source ++ '{' :: (p.body ++ back.flatMap Piece.source) := by
    rw [← flat_map_source_pieces text, same, List.flatMap_append, List.flatMap_cons]
    rfl
  have ends := guarded _ _ whole
  rcases List.eq_nil_or_concat front with rfl | ⟨before, piece, rfl⟩
  · exact Text.not_ends_in_backslash_nil ends
  · rw [List.concat_eq_append] at same ends
    by_cases backslash : piece = .char '\\'
    · subst backslash
      have body := body_of_pieces (pieces_suffix same).symm
      have suffix := pieces_suffix (same.trans (List.append_assoc before [.char '\\'] (.token p :: back)))
      change _ = pieces ('\\' :: '{' :: (p.body ++ back.flatMap Piece.source)) at suffix
      rw [pieces_escaped body] at suffix
      cases suffix
    · rw [List.flatMap_append, List.flatMap_singleton] at ends
      by_cases empty : piece.source = []
      · cases piece <;> cases empty
      · rw [Text.ends_in_backslash_append empty] at ends
        exact not_ends_in_backslash_piece backslash ends

theorem of_pieces_of_silent {all : List Piece} (silent : Silent all) (start : Nat) : Token.ofPieces start all = [] := by
  apply List.eq_nil_iff_forall_not_mem.mpr
  intro token member
  obtain ⟨front, p, back, rfl, _⟩ := mem_of_pieces member
  exact silent p (List.mem_append_right front List.mem_cons_self)

theorem scan_of_guarded {definition : String} (guarded : Guarded '{' definition.toList) :
    Token.scan definition = [] :=
  of_pieces_of_silent (silent_of_guarded guarded) 0

theorem guarded_escape (text : String) : Guarded '{' (Text.escape text).toList := by
  rw [Text.escape, String.toList_ofList]
  exact Text.guarded_escape_chars rfl text.toList

-- Escaped text is given back by unescaping, and by itself it is no template, like any text without a bare brace.
theorem escape_protects :
    (∀ text : String, Text.unescape (Text.escape text) = text) ∧
    (∀ definition : String, Guarded '{' definition.toList →
      Token.scan definition = [] ∧ ∀ config, make definition config = .error (.noTokens definition)) ∧
    ∀ text : String, Guarded '{' (Text.escape text).toList := by
  refine ⟨fun text => ?_, fun definition guarded => ?_, guarded_escape⟩
  · rw [Text.unescape, Text.escape, String.toList_ofList, Text.unescape_chars_escape_chars, String.ofList_toList]
  · have scanned := scan_of_guarded guarded
    exact ⟨scanned, fun config => make_eq_error_iff.mpr ⟨scanned, rfl⟩⟩

theorem escape_protects_nested :
    Text.escape "\\\x7ba:\x7bb\x7d\x7d" = "\\\\\x7ba:\\\x7bb\\\x7d\\\x7d" ∧
      Guarded '{' "\\\\\x7ba:\\\x7bb\\\x7d\\\x7d".toList ∧
      Token.scan "\\\\\x7ba:\\\x7bb\\\x7d\\\x7d" = [] ∧
      make "\\\\\x7ba:\\\x7bb\\\x7d\\\x7d" {} = .error (.noTokens "\\\\\x7ba:\\\x7bb\\\x7d\\\x7d") := by
  obtain ⟨_, silent, guarded⟩ := escape_protects
  have written : Text.escape "\\\x7ba:\x7bb\x7d\x7d" = "\\\\\x7ba:\\\x7bb\\\x7d\\\x7d" := by decide +kernel
  have covered := guarded "\\\x7ba:\x7bb\x7d\x7d"
  rw [written] at covered
  obtain ⟨scanned, refused⟩ := silent _ covered
  exact ⟨written, covered, scanned, refused {}⟩

end Stencil.Template
