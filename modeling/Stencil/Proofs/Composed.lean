import Stencil.Proofs.Written

set_option autoImplicit false

namespace Stencil.Template

open Text (EndsInBackslash Guarded)

structure Slot where
  literal : String
  name : String
  default? : Option String

namespace Slot

def placeholder (slot : Slot) : Placeholder := ⟨slot.name.toList, slot.default?.map String.toList⟩

def source (slot : Slot) : String :=
  match slot.default? with
  | none => "\x7b" ++ slot.name ++ "\x7d"
  | some text => "\x7b" ++ slot.name ++ ":" ++ text ++ "\x7d"

structure Valid (slot : Slot) : Prop where
  unopened : '{' ∉ slot.literal.toList
  apart : ¬ EndsInBackslash slot.literal.toList
  named : IsName slot.name.toList
  guarded : ∀ text, slot.default? = some text → Guarded '}' text.toList
  unended : ∀ text, slot.default? = some text → ¬ EndsInBackslash text.toList

end Slot

def composed : List Slot → String → String
  | [], last => last
  | slot :: rest, last => slot.literal ++ slot.source ++ composed rest last

def located (before : String) : List Slot → List Token
  | [] => []
  | slot :: rest =>
    let front := before ++ slot.literal
    ⟨slot.name, slot.default?, front.utf8ByteSize, (front ++ slot.source).utf8ByteSize⟩ ::
      located (front ++ slot.source) rest

theorem to_list_source (slot : Slot) : slot.source.toList = slot.placeholder.source := by
  obtain ⟨literal, name, default?⟩ := slot
  cases default? <;> simp [Slot.source, Slot.placeholder, Placeholder.source, Placeholder.body]

theorem Slot.Valid.body {slot : Slot} (valid : slot.Valid) (after : List Char) :
    Body (slot.placeholder.body ++ after) slot.placeholder after := by
  obtain ⟨literal, name, default?⟩ := slot
  cases default? with
  | none =>
    have plain : Body (name.toList ++ '}' :: after) ⟨name.toList, none⟩ after := .plain valid.named
    simpa [Slot.placeholder, Placeholder.body] using plain
  | some text =>
    have ends : DefaultEnd (text.toList ++ '}' :: after) text.toList after :=
      .bare rfl (valid.unended text rfl) (valid.guarded text rfl)
    simpa [Slot.placeholder, Placeholder.body] using Body.withDefault valid.named ends

theorem pieces_literal {literal : List Char} (unopened : '{' ∉ literal) (apart : ¬ EndsInBackslash literal)
    (rest : List Char) : pieces (literal ++ rest) = literal.map .char ++ pieces rest := by
  induction literal with
  | nil => rfl
  | cons c later ih =>
    obtain ⟨other, missing⟩ := not_or.mp (mt List.mem_cons.mpr unopened)
    have closed : ∀ p after, ¬ Opens (c :: (later ++ rest)) p after := by
      generalize same : later ++ rest = text
      intro p after opens
      cases opens with
      | token body => exact other rfl
      | escaped body =>
        cases later with
        | nil => exact apart (Text.ends_in_backslash_singleton.mpr rfl)
        | cons d tail =>
          obtain ⟨rfl, _⟩ := List.cons.inj same
          exact missing List.mem_cons_self
    rw [List.cons_append, pieces_char closed, ih missing (mt EndsInBackslash.cons apart)]
    rfl

theorem of_pieces_chars (literal : List Char) (back : List Piece) (start : Nat) :
    Token.ofPieces start (literal.map .char ++ back) = Token.ofPieces (start + Token.byteLength literal) back := by
  induction literal generalizing start with
  | nil => rfl
  | cons c rest ih =>
    change Token.ofPieces (start + Token.byteLength [c]) (rest.map .char ++ back) = _
    rw [ih, Token.byteLength, Token.byteLength, Token.byteLength, Nat.add_zero, Nat.add_assoc]

theorem of_pieces_unopened {text : List Char} (unopened : '{' ∉ text) (start : Nat) :
    Token.ofPieces start (pieces text) = [] :=
  of_pieces_of_silent (silent_of_guarded (Text.guarded_of_not_mem unopened)) start

theorem of_pieces_slot {slot : Slot} (valid : slot.Valid) (rest : List Char) (start : Nat) :
    Token.ofPieces start (pieces (slot.literal.toList ++ (slot.source.toList ++ rest))) =
      ⟨slot.name, slot.default?, start + slot.literal.utf8ByteSize,
          start + slot.literal.utf8ByteSize + slot.source.utf8ByteSize⟩ ::
        Token.ofPieces (start + slot.literal.utf8ByteSize + slot.source.utf8ByteSize) (pieces rest) := by
  have opened : slot.source.toList ++ rest = '{' :: (slot.placeholder.body ++ rest) := by
    rw [to_list_source]
    rfl
  have declared : slot.placeholder.default?.map String.ofList = slot.default? := by
    simp [Slot.placeholder, Function.comp_def]
  rw [pieces_literal valid.unopened valid.apart, of_pieces_chars, opened, pieces_token (valid.body rest),
    ← Token.byte_length_to_list slot.literal, ← Token.byte_length_to_list slot.source, to_list_source]
  change Token.placed _ slot.placeholder :: _ = _
  rw [Token.placed, declared]
  simp [Slot.placeholder, Piece.source]

theorem of_pieces_composed {slots : List Slot} {last : String} (valid : ∀ slot ∈ slots, slot.Valid)
    (unopened : '{' ∉ last.toList) (before : String) :
    Token.ofPieces before.utf8ByteSize (pieces (composed slots last).toList) = located before slots := by
  induction slots generalizing before with
  | nil => exact of_pieces_unopened unopened _
  | cons slot rest ih =>
    obtain ⟨first, others⟩ := List.forall_mem_cons.mp valid
    have later := ih others (before ++ slot.literal ++ slot.source)
    rw [String.utf8ByteSize_append, String.utf8ByteSize_append] at later
    rw [composed, String.toList_append, String.toList_append, List.append_assoc, of_pieces_slot first, later]
    simp only [located, String.utf8ByteSize_append]

theorem scan_composed {slots : List Slot} (last : String) (valid : ∀ slot ∈ slots, slot.Valid)
    (unopened : '{' ∉ last.toList) : Token.scan (composed slots last) = located "" slots :=
  of_pieces_composed valid unopened ""

theorem scan_composed_nested :
    Token.scan "é\x7d:\x7ba:\x7bb:\\\x7dü\x7d\x7bc:\x7d\\:\x7bd\x7d\x7d" =
      [⟨"a", some "\x7bb:\\\x7dü", 4, 15⟩, ⟨"c", some "", 15, 19⟩, ⟨"d", none, 21, 24⟩] := by
  have first : Slot.Valid ⟨"é\x7d:", "a", some "\x7bb:\\\x7dü"⟩ := by
    refine ⟨by decide, by decide, by decide, ?_, ?_⟩
    · rintro _ ⟨⟩
      exact split_at_bare_brace_eq_none.mp (by decide)
    · rintro _ ⟨⟩
      decide
  have second : Slot.Valid ⟨"", "c", some ""⟩ := by
    refine ⟨by decide, by decide, by decide, ?_, ?_⟩
    · rintro _ ⟨⟩
      exact Text.guarded_of_not_mem (by decide)
    · rintro _ ⟨⟩
      decide
  have third : Slot.Valid ⟨"\\:", "d", none⟩ := by
    refine ⟨by decide, by decide, by decide, ?_, ?_⟩ <;> rintro _ ⟨⟩
  have valid := List.forall_mem_cons.mpr
    ⟨first, List.forall_mem_cons.mpr ⟨second, List.forall_mem_singleton.mpr third⟩⟩
  exact scan_composed "\x7d" valid (by decide)

end Stencil.Template
