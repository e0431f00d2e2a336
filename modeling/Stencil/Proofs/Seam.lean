import Stencil.Proofs.Replacement
import Stencil.Proofs.Weave

set_option autoImplicit false

namespace Stencil

open Text (EndsInBackslash Seam isBrace hasEscape unescapeChars unescape)

namespace Text

theorem unescape_append (front back : String) :
    unescape (front ++ back) =
      unescape (if Seam front.toList back.toList then String.ofList front.toList.dropLast else front) ++
        unescape back := by
  unfold unescape
  rw [String.toList_append, ← String.ofList_append]
  split
  · next seam => rw [String.toList_ofList, unescape_chars_append_of_seam seam]
  · next unseamed => rw [unescape_chars_append_of_not_seam unseamed]

theorem unescape_append_eq_iff (front back : String) :
    unescape (front ++ back) = unescape front ++ unescape back ↔ ¬ Seam front.toList back.toList := by
  rw [← unescape_chars_append_eq_iff, ← String.toList_inj]
  simp only [unescape, String.toList_append, String.toList_ofList]

theorem has_escape_to_list_iff (text : String) :
    hasEscape text.toList = true ↔
      ∃ front back : String, text = front ++ "\\\x7b" ++ back ∨ text = front ++ "\\\x7d" ++ back := by
  rw [has_escape_iff]
  constructor
  · rintro ⟨front, c, back, whole, brace⟩
    refine ⟨String.ofList front, String.ofList back, ?_⟩
    rcases is_brace_iff.mp brace with rfl | rfl
    · exact .inl (String.toList_inj.mp (by simp [whole]))
    · exact .inr (String.toList_inj.mp (by simp [whole]))
  · rintro ⟨front, back, rfl | rfl⟩
    · exact ⟨front.toList, '{', back.toList, by simp, rfl⟩
    · exact ⟨front.toList, '}', back.toList, by simp, rfl⟩

theorem unescape_eq_self_iff (text : String) : unescape text = text ↔ hasEscape text.toList = false := by
  rw [← unescape_chars_eq_self_iff, ← String.toList_inj, unescape, String.toList_ofList]

end Text

namespace Template

-- An empty part separates nothing, but it ends in no backslash either, so the parts around it do not meet in a seam.
theorem unescape_weave {literals texts : List String}
    (apart : ∀ text ∈ literals ++ texts, ¬ EndsInBackslash text.toList) :
    unescape (weave literals texts) = weave (literals.map unescape) (texts.map unescape) := by
  induction literals generalizing texts with
  | nil => rfl
  | cons literal others ih =>
    cases texts with
    | nil => rfl
    | cons text later =>
      have first := apart literal (by simp)
      have second := apart text (by simp)
      have rest : ∀ part ∈ others ++ later, ¬ EndsInBackslash part.toList := by
        intro part member
        rcases List.mem_append.mp member with front | back
        · exact apart part (by simp [front])
        · exact apart part (by simp [back])
      rw [weave, String.append_assoc, (Text.unescape_append_eq_iff _ _).mpr (Text.not_seam_of_apart first),
        (Text.unescape_append_eq_iff _ _).mpr (Text.not_seam_of_apart second), ih rest, ← String.append_assoc]
      rfl

theorem exists_parts_of_render {template : Template} {context : Context} {output : String}
    (rendered : template.render context = .ok output) :
    ∃ literals replacements : List String,
      literals? template.definition 0 template.tokens = some literals ∧
      template.tokens.mapM (Token.resolve template.config context) = .ok replacements ∧
      output = unescape (weave literals replacements) := by
  have whole := flat_map_source_pieces template.definition.toList
  rw [render_eq_resolve] at rendered
  cases resolved : template.tokens.mapM (Token.resolve template.config context) with
  | error fault =>
    rw [resolved] at rendered
    cases rendered
  | ok replacements =>
    rw [resolved] at rendered
    exact ⟨_, replacements, literals_eq_between [] [] _ whole.symm, rfl, (Except.ok.inj rendered).symm⟩

end Template

-- Replacing every escaped brace keeps a text that has none, and such texts are those that unescaping does not change.
theorem unescape_local :
    (∀ front back : String,
      unescape (front ++ back) =
          unescape (if Seam front.toList back.toList then String.ofList front.toList.dropLast else front) ++
            unescape back ∧
        (unescape (front ++ back) = unescape front ++ unescape back ↔ ¬ Seam front.toList back.toList)) ∧
    (∀ text : String, ∃ result,
      Template.Grammar.escapedBrace.replaceAll? (Pattern.Match.groupText 1) text = some result ∧
        result.text = unescape text ∧
        (result = .kept text ↔
          ¬ ∃ front back : String, text = front ++ "\\\x7b" ++ back ∨ text = front ++ "\\\x7d" ++ back) ∧
        (result = .kept text ↔ unescape text = text)) ∧
    ∀ (template : Template) (context : Context) (output : String), template.render context = .ok output →
      ∃ literals replacements : List String,
        Template.literals? template.definition 0 template.tokens = some literals ∧
        template.tokens.mapM (Token.resolve template.config context) = .ok replacements ∧
        ((∀ text ∈ literals ++ replacements, ¬ EndsInBackslash text.toList) →
          output = Template.weave (literals.map unescape) (replacements.map unescape)) := by
  refine ⟨fun front back => ⟨Text.unescape_append front back, Text.unescape_append_eq_iff front back⟩, ?_, ?_⟩
  · intro text
    refine ⟨_, Template.replace_all_escaped_brace text, ?_⟩
    rw [← Text.has_escape_to_list_iff, Text.unescape_eq_self_iff]
    cases escaped : hasEscape text.toList with
    | true => simp [Pattern.Replaced.text]
    | false => simp [Pattern.Replaced.text, (Text.unescape_eq_self_iff text).mpr escaped]
  · intro template context output rendered
    obtain ⟨literals, replacements, cut, resolved, rfl⟩ := Template.exists_parts_of_render rendered
    exact ⟨literals, replacements, cut, resolved, Template.unescape_weave⟩

theorem unescape_local_parts :
    let definition := "\x7ba\x7d\x7bb\x7d\\\x7d"
    let context := Context.ofList [("a", .str "\\\x7b"), ("b", .str "")]
    ∃ template : Template, template.definition = definition ∧ template.render context = .ok "\x7b\x7d" ∧
      Template.literals? definition 0 template.tokens = some ["", "", "\\\x7d"] ∧
      template.tokens.mapM (Token.resolve template.config context) = .ok ["\\\x7b", ""] ∧
      (∀ text ∈ ["", "", "\\\x7d", "\\\x7b", ""], ¬ EndsInBackslash text.toList) ∧
      "\x7b\x7d" = Template.weave (["", "", "\\\x7d"].map unescape) (["\\\x7b", ""].map unescape) := by
  intro definition context
  have scanned : Token.scan definition = [⟨"a", none, 0, 3⟩, ⟨"b", none, 3, 6⟩] := by decide +kernel
  have named : ["a", "b"] = Token.names (Token.scan definition) := by
    rw [scanned]
    decide +kernel
  let template : Template := ⟨definition, {}, ["a", "b"], named, List.cons_ne_nil _ _⟩
  have read : Template.pieces definition.toList =
      [.token ⟨['a'], none⟩, .token ⟨['b'], none⟩, .char '\\', .char '\x7d'] := by decide +kernel
  have rendered : template.render context = .ok "\x7b\x7d" := by
    rw [Template.render, read]
    rfl
  obtain ⟨literals, replacements, cut, resolved, parts⟩ := unescape_local.2.2 template context _ rendered
  have tokens : template.tokens = [⟨"a", none, 0, 3⟩, ⟨"b", none, 3, 6⟩] := scanned
  have first : Template.literals? definition 0 template.tokens = some ["", "", "\\\x7d"] := by
    rw [tokens]
    decide +kernel
  have second : template.tokens.mapM (Token.resolve template.config context) = .ok ["\\\x7b", ""] := by
    rw [tokens]
    rfl
  obtain rfl := Option.some.inj (first.symm.trans cut)
  obtain rfl := Except.ok.inj (second.symm.trans resolved)
  have apart : ∀ text ∈ ["", "", "\\\x7d", "\\\x7b", ""], ¬ EndsInBackslash text.toList := by decide
  exact ⟨template, rfl, rendered, first, second, apart, parts apart⟩

end Stencil
