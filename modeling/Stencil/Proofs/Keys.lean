import Mathlib.Tactic.TFAE
import Stencil.Proofs.Binding
import Stencil.Proofs.Closing
import Stencil.Proofs.Grammar
import Stencil.Record.Declaration

set_option autoImplicit false

namespace Stencil

namespace Declaration

def renamed (record field type key : String) (parameters : List (Listed Parameter)) : Declaration :=
  ⟨record, parameters, .named [⟨.everyone, field, type, [⟨"record", [⟨"rename", .text key⟩]⟩]⟩]⟩

theorem is_key_iff {key : String} : isKey key = true ↔ Template.Word key := by
  have same : isKeyChar = Template.isNameChar := rfl
  rw [Template.word_iff_is_name, isKey, same, Bool.and_eq_true, List.all_eq_true, Template.IsName, Bool.not_eq_true',
    String.isEmpty_eq_false_iff, Ne, Ne, String.toList_eq_nil_iff]

theorem readings_renamed (record field type key : String) (parameters : List (Listed Parameter)) :
    (renamed record field type key parameters).readings =
      if isKey key then .ok [.leaf key field type] else .error .badName := by
  have asked : options [⟨"record", [⟨"rename", .text key⟩]⟩] =
      if isKey key then .ok { key? := some key } else .error .badName := by
    cases accepted : isKey key <;> simp [options, directives, apply, accepted, bind, Except.bind, pure, Except.pure]
  cases accepted : isKey key <;>
    simp [renamed, Declaration.readings, readingsOf, reading?, asked, accepted, bind, Except.bind, pure, Except.pure]

theorem derive_renamed_of_key (record field type : String) {key : String} (parameters : List (Listed Parameter))
    (accepted : isKey key = true) : ∃ derivation, (renamed record field type key parameters).derive = .ok derivation ∧
      derivation.readings = [.leaf key field type] := by
  rw [derive, readings_renamed, accepted]
  exact ⟨_, rfl, rfl⟩

theorem derive_renamed_of_not_key (record field type : String) {key : String} (parameters : List (Listed Parameter))
    (refused : isKey key = false) : (renamed record field type key parameters).derive = .error .badName := by
  rw [derive, readings_renamed, refused]
  rfl

theorem exists_derive_renamed_iff (record field type key : String) (parameters : List (Listed Parameter)) :
    (∃ derivation, (renamed record field type key parameters).derive = .ok derivation) ↔ Template.Word key := by
  rw [← is_key_iff]
  cases accepted : isKey key with
  | true =>
    obtain ⟨derivation, derived, _⟩ := derive_renamed_of_key record field type parameters accepted
    exact iff_of_true ⟨derivation, derived⟩ rfl
  | false =>
    rw [derive_renamed_of_not_key record field type parameters accepted]
    simp

end Declaration

namespace Template

theorem scan_word {key : String} (word : Word key) :
    Token.scan ("\x7b" ++ key ++ "\x7d") = [⟨key, none, 0, ("\x7b" ++ key ++ "\x7d").utf8ByteSize⟩] := by
  have body : Body (key.toList ++ ['}']) ⟨key.toList, none⟩ [] := .plain (word_iff_is_name.mp word)
  have whole : ("\x7b" ++ key ++ "\x7d").toList = '{' :: (key.toList ++ ['}']) := by simp
  have written : Placeholder.source ⟨key.toList, none⟩ = ("\x7b" ++ key ++ "\x7d").toList := whole.symm
  rw [scan_of_body whole body, pieces_nil, Token.placed, written, Token.byte_length_to_list, Nat.zero_add]
  simp [Token.ofPieces]

theorem word_of_mem_scan {definition : String} {token : Token} (member : token ∈ Token.scan definition) :
    Word token.name := by
  obtain ⟨before, after, p, _, rfl, body⟩ := mem_scan member
  rw [word_iff_is_name, Token.placed, String.toList_ofList]
  exact body.is_name

end Template

theorem key_tfae_token_name (record field type key : String)
    (parameters : List (Declaration.Listed Declaration.Parameter)) :
    [∃ derivation, (Declaration.renamed record field type key parameters).derive = .ok derivation,
      Template.Word key,
      Token.scan ("\x7b" ++ key ++ "\x7d") = [⟨key, none, 0, ("\x7b" ++ key ++ "\x7d").utf8ByteSize⟩],
      ∃ definition, ∃ token ∈ Token.scan definition, token.name = key,
      ∃ template : Template, template.hasToken key = true].TFAE ∧
    ((Declaration.renamed record field type key parameters).derive = .error .badName ∨
      ∃ derivation, (Declaration.renamed record field type key parameters).derive = .ok derivation ∧
        derivation.readings = [.leaf key field type]) := by
  constructor
  · tfae_have 1 ↔ 2 := Declaration.exists_derive_renamed_iff record field type key parameters
    tfae_have 2 → 3 := Template.scan_word
    tfae_have 3 → 4 := by
      intro scanned
      exact ⟨_, _, scanned ▸ List.mem_singleton.mpr rfl, rfl⟩
    tfae_have 4 → 5 := by
      rintro ⟨definition, token, member, named⟩
      obtain ⟨template, made⟩ := Template.exists_make {} (List.ne_nil_of_mem member)
      rw [← (Template.make_eq_ok_iff.mp made).1] at member
      exact ⟨template, Template.has_token_iff.mpr ⟨token, member, named⟩⟩
    tfae_have 5 → 2 := by
      rintro ⟨template, present⟩
      obtain ⟨token, member, rfl⟩ := Template.has_token_iff.mp present
      exact Template.word_of_mem_scan member
    tfae_finish
  · cases accepted : Declaration.isKey key with
    | false => exact .inl (Declaration.derive_renamed_of_not_key record field type parameters accepted)
    | true => exact .inr (Declaration.derive_renamed_of_key record field type parameters accepted)

end Stencil
