import Stencil.Proofs.Span
import Stencil.Template.Basic

set_option autoImplicit false

namespace Stencil.Template

open Text (EndsInBackslash Guarded)

theorem DefaultEnd.ends_in_backslash_iff {text before after : List Char} (ends : DefaultEnd text before after) :
    EndsInBackslash before ↔ Guarded '}' text := by
  cases ends with
  | bare whole unguarded earlier =>
    constructor
    · intro ending
      exact absurd ending unguarded
    · intro guarded
      exact guarded before after whole
  | last whole guarded final => exact ⟨fun _ => guarded, fun _ => guarded before after whole⟩

theorem Body.is_name {text after : List Char} {p : Placeholder} (body : Body text p after) : IsName p.name := by
  cases body <;> assumption

theorem Body.default_end {text after : List Char} {p : Placeholder} (body : Body text p after) {inner : List Char}
    (declared : p.default? = some inner) : DefaultEnd (inner ++ '}' :: after) inner after := by
  cases body with
  | plain valid => cases declared
  | withDefault valid ends =>
    obtain rfl := Option.some.inj declared
    rwa [← ends.whole]

theorem not_ends_in_backslash_name {name : List Char} (valid : IsName name) : ¬ EndsInBackslash name :=
  Text.not_ends_in_backslash_of_not_mem fun member => absurd (valid.2 '\\' member) (by decide)

theorem exists_eq_append_escaped_iff {front : List Char} :
    (∃ inner, front ++ ['}'] = inner ++ ['\\', '}']) ↔ EndsInBackslash front := by
  rw [Text.ends_in_backslash_iff_exists]
  refine exists_congr fun inner => ?_
  rw [show inner ++ ['\\', '}'] = (inner ++ ['\\']) ++ ['}'] by simp, List.append_left_inj]

theorem source_eq_escaped_iff {p : Placeholder} (valid : IsName p.name) :
    (∃ inner, p.source = inner ++ ['\\', '}']) ↔ ∃ text, p.default? = some text ∧ EndsInBackslash text := by
  obtain ⟨name, default?⟩ := p
  cases default? with
  | none =>
    have front : Placeholder.source ⟨name, none⟩ = ('{' :: name) ++ ['}'] := rfl
    rw [front, exists_eq_append_escaped_iff, Text.ends_in_backslash_cons_of_ne (by decide)]
    simp [not_ends_in_backslash_name valid]
  | some text =>
    have front : Placeholder.source ⟨name, some text⟩ = (('{' :: name) ++ ':' :: text) ++ ['}'] := by
      simp [Placeholder.source, Placeholder.body]
    rw [front, exists_eq_append_escaped_iff, Text.ends_in_backslash_append (by simp),
      Text.ends_in_backslash_cons_of_ne (by decide)]
    simp

theorem source_escaped_iff {p : Placeholder} (valid : IsName p.name) (start : Nat) :
    (∃ inner, (Token.placed start p).source = inner ++ "\\\x7d") ↔
      ∃ text, p.default? = some text ∧ EndsInBackslash text := by
  rw [← source_eq_escaped_iff valid, Token.source_placed]
  constructor
  · rintro ⟨inner, same⟩
    refine ⟨inner.toList, ?_⟩
    simpa using congrArg String.toList same
  · rintro ⟨inner, same⟩
    refine ⟨String.ofList inner, ?_⟩
    rw [same]
    simp

theorem exists_source_eq (p : Placeholder) : ∃ front, p.source = front ++ ['}'] := by
  obtain ⟨name, default?⟩ := p
  cases default? with
  | none => exact ⟨'{' :: name, rfl⟩
  | some text => exact ⟨'{' :: (name ++ ':' :: text), by simp [Placeholder.source, Placeholder.body]⟩

theorem of_pieces_eq_nil_of_not_mem {text : List Char} (missing : '}' ∉ text) (start : Nat) :
    Token.ofPieces start (pieces text) = [] := by
  apply List.eq_nil_iff_forall_not_mem.mpr
  intro token member
  obtain ⟨front, p, back, same, rfl⟩ := mem_of_pieces member
  obtain ⟨inner, closed⟩ := exists_source_eq p
  apply missing
  rw [← flat_map_source_pieces text, same]
  simp [Piece.source, closed]

theorem scan_of_body {definition : String} {text after : List Char} {p : Placeholder}
    (whole : definition.toList = '{' :: text) (body : Body text p after) :
    Token.scan definition =
      Token.placed 0 p :: Token.ofPieces (0 + Token.byteLength p.source) (pieces after) := by
  rw [Token.scan, whole, pieces_token body]
  rfl

theorem make_eq_error_unclosed (config : Config) {name text : String} (valid : IsName name.toList) :
    make ("\x7b" ++ name ++ ":" ++ text) config = .error (.noTokens ("\x7b" ++ name ++ ":" ++ text)) ↔
      '}' ∉ text.toList := by
  have whole : ("\x7b" ++ name ++ ":" ++ text).toList = '{' :: (name.toList ++ ':' :: text.toList) := by simp
  rw [make_eq_error_iff, and_iff_left rfl]
  constructor
  · intro missing closes
    cases found : splitDefault text.toList with
    | none => exact split_default_eq_none.mp found closes
    | some split =>
      have body := Body.withDefault valid (split_default_eq_some.mp found)
      rw [scan_of_body whole body] at missing
      cases missing
  · intro missing
    have unnamed : '}' ∉ name.toList := fun member => absurd (valid.2 '}' member) (by decide)
    rw [Token.scan, whole]
    exact of_pieces_eq_nil_of_not_mem (by simp [unnamed, missing]) 0

theorem scan_guarded {name before after : String} (valid : IsName name.toList)
    (guarded : Guarded '}' (before ++ "\x7d" ++ after).toList) (final : '}' ∉ after.toList) :
    Token.scan ("\x7b" ++ name ++ ":" ++ (before ++ "\x7d" ++ after)) =
      [⟨name, some before, 0, ("\x7b" ++ name ++ ":" ++ before ++ "\x7d").utf8ByteSize⟩] := by
  have whole : ("\x7b" ++ name ++ ":" ++ (before ++ "\x7d" ++ after)).toList =
      '{' :: (name.toList ++ ':' :: (before ++ "\x7d" ++ after).toList) := by simp
  have ends : DefaultEnd (before ++ "\x7d" ++ after).toList before.toList after.toList :=
    .last (by simp) guarded final
  have written : Placeholder.source ⟨name.toList, some before.toList⟩ =
      ("\x7b" ++ name ++ ":" ++ before ++ "\x7d").toList := by simp [Placeholder.source, Placeholder.body]
  rw [scan_of_body whole (.withDefault valid ends), of_pieces_eq_nil_of_not_mem final, Token.placed, written,
    Token.byte_length_to_list, Nat.zero_add]
  simp

-- A token is closed by an escaped brace exactly when nothing but escaped braces follows its colon, and then by the
-- last of them; so text with escaped braces only is no token just when it has none at all.
theorem closing_brace_escaped_iff (definition : String) :
    (∀ token ∈ Token.scan definition, ∃ before after : String,
      definition = before ++ token.source ++ after ∧ token.start = before.utf8ByteSize ∧
      token.stop = (before ++ token.source).utf8ByteSize ∧
      (∀ text, token.default? = some text →
        DefaultEnd (text ++ "\x7d" ++ after).toList text.toList after.toList) ∧
      ((∃ inner, token.source = inner ++ "\\\x7d") ↔
        ∃ text, token.default? = some text ∧ Guarded '}' (text ++ "\x7d" ++ after).toList)) ∧
    ∀ name text : String, definition = "\x7b" ++ name ++ ":" ++ text → IsName name.toList →
      Guarded '}' text.toList →
      (∀ config, make definition config = .error (.noTokens definition) ↔ '}' ∉ text.toList) ∧
      ∀ before after, text = before ++ "\x7d" ++ after → '}' ∉ after.toList →
        Token.scan definition =
          [⟨name, some before, 0, ("\x7b" ++ name ++ ":" ++ before ++ "\x7d").utf8ByteSize⟩] := by
  constructor
  · intro token member
    obtain ⟨before, after, p, whole, rfl, body⟩ := mem_scan member
    refine ⟨before, after, whole, rfl, ?_, ?_, ?_⟩
    · rw [Token.stop_placed, String.utf8ByteSize_append]
    · intro text declared
      obtain ⟨inner, same, rfl⟩ := Option.map_eq_some_iff.mp declared
      simpa using body.default_end same
    · rw [source_escaped_iff body.is_name]
      constructor
      · rintro ⟨text, declared, ends⟩
        have guarded := (body.default_end declared).ends_in_backslash_iff.mp ends
        exact ⟨String.ofList text, by simp [Token.placed, declared], by simpa using guarded⟩
      · rintro ⟨text, declared, guarded⟩
        obtain ⟨inner, same, rfl⟩ := Option.map_eq_some_iff.mp declared
        exact ⟨inner, same, (body.default_end same).ends_in_backslash_iff.mpr (by simpa using guarded)⟩
  · rintro name text rfl valid guarded
    constructor
    · intro config
      exact make_eq_error_unclosed config valid
    · rintro before after rfl final
      exact scan_guarded valid guarded final

theorem closing_brace_escaped :
    (∃ after : String, DefaultEnd ("x\\" ++ "\x7d" ++ after).toList "x\\".toList after.toList) ∧
      Token.scan "\x7ba:x\\\x7dy" = [⟨"a", some "x\\", 0, 6⟩] ∧
      make "\x7ba:xy" {} = .error (.noTokens "\x7ba:xy") := by
  obtain ⟨located, escaped⟩ := closing_brace_escaped_iff "\x7ba:x\\\x7dy"
  obtain ⟨_, unclosed⟩ := closing_brace_escaped_iff "\x7ba:xy"
  have guarded : Guarded '}' "x\\\x7dy".toList := split_at_bare_brace_eq_none.mp (by decide)
  have missing : '}' ∉ "xy".toList := by decide
  have scanned : Token.scan "\x7ba:x\\\x7dy" = [⟨"a", some "x\\", 0, 6⟩] :=
    (escaped "a" "x\\\x7dy" (by decide) (by decide) guarded).2 "x\\" "y" (by decide) (by decide)
  have failed := (unclosed "a" "xy" (by decide) (by decide) (Text.guarded_of_not_mem missing)).1 {}
  refine ⟨?_, scanned, failed.mpr missing⟩
  have member : (⟨"a", some "x\\", 0, 6⟩ : Token) ∈ Token.scan "\x7ba:x\\\x7dy" := by
    rw [scanned]
    exact List.mem_singleton.mpr rfl
  obtain ⟨_, after, _, _, _, ends, _⟩ := located _ member
  exact ⟨after, ends _ rfl⟩

end Stencil.Template
