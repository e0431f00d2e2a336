import Stencil.Proofs.Grammar
import Stencil.Proofs.Span
import Stencil.Proofs.Unescape

set_option autoImplicit false

namespace Stencil

namespace Pattern

inductive Replaced where
  | kept (text : String)
  | made (text : String)
deriving DecidableEq

def Replaced.text : Replaced → String
  | .kept text => text
  | .made text => text

def spliced (replacement : Match → String) (text : String) (cursor : Nat) : List Match → Option String
  | [] => slice? text cursor text.utf8ByteSize
  | m :: rest => do
    let literal ← slice? text cursor m.start
    let after ← spliced replacement text m.stop rest
    return literal ++ replacement m ++ after

def replaceAll? (p : Pattern) (replacement : Match → String) (text : String) : Option Replaced :=
  match p.allMatches text with
  | [] => some (.kept text)
  | m :: rest => (spliced replacement text 0 (m :: rest)).map .made

def Match.groupText (index : Nat) (m : Match) : String := String.ofList ((m.group? index).getD [])

end Pattern

namespace Template

open Pattern (attempt readings consumed matchesFrom spliced)
open Text (isBrace unescapeChars hasEscape)

def Grammar.escapedBrace : Pattern := .seq backslash (.group 1 (.one isBrace))

theorem head_readings_escaped {c : Char} {rest : List Char} (brace : isBrace c = true) :
    (readings Grammar.escapedBrace ⟨'\\' :: c :: rest, []⟩).head? = some ⟨rest, [(1, [c])]⟩ := by
  have read : consumed (c :: rest) rest = [c] := Pattern.consumed_append [c] rest
  rw [Pattern.head_readings, Grammar.escapedBrace, Pattern.attempt_seq, Grammar.backslash, Pattern.attempt_one_cons,
    if_pos (by decide), Pattern.attempt_group, Pattern.attempt_one_cons, if_pos brace]
  simp only [read]

theorem head_readings_end : (readings Grammar.escapedBrace ⟨[], []⟩).head? = none := by
  rw [Pattern.head_readings, Grammar.escapedBrace, Pattern.attempt_seq, Grammar.backslash, Pattern.attempt_one_nil]

theorem head_readings_unescaped {c : Char} {rest : List Char}
    (unpaired : c = '\\' → ∀ d ∈ rest.head?, isBrace d = false) :
    (readings Grammar.escapedBrace ⟨c :: rest, []⟩).head? = none := by
  rw [Pattern.head_readings, Grammar.escapedBrace, Pattern.attempt_seq, Grammar.backslash, Pattern.attempt_one_cons]
  split
  · next backslash =>
    have plain := unpaired (beq_iff_eq.mp backslash)
    rw [Pattern.attempt_group]
    cases rest with
    | nil => rw [Pattern.attempt_one_nil]
    | cons d tail => rw [Pattern.attempt_one_cons, plain d rfl, if_neg (by decide)]
  · rfl

theorem matches_from_escaped {c : Char} {rest : List Char} (brace : isBrace c = true) (ended? : Option Nat)
    (start : Nat) :
    matchesFrom Grammar.escapedBrace ended? start ('\\' :: c :: rest) =
      ⟨start, start + Token.byteLength ['\\', c], [(1, [c])]⟩ ::
        matchesFrom Grammar.escapedBrace (some (start + Token.byteLength ['\\', c]))
          (start + Token.byteLength ['\\', c]) rest := by
  have whole : '\\' :: c :: rest = ['\\', c] ++ rest := rfl
  exact Pattern.matches_from_found (head_readings_escaped brace) whole (List.cons_ne_nil _ _) ended? start

theorem matches_from_escaped_brace_eq_nil (ended? : Option Nat) (start : Nat) (text : List Char) :
    matchesFrom Grammar.escapedBrace ended? start text = [] ↔ hasEscape text = false := by
  induction text using Text.escape_induction generalizing start with
  | nil => exact iff_of_true (Pattern.matches_from_nil head_readings_end ended? start) rfl
  | pair c rest brace ih =>
    rw [matches_from_escaped brace, Text.has_escape_escaped brace]
    simp
  | char c rest unpaired ih =>
    rw [Pattern.matches_from_missing (head_readings_unescaped unpaired), Text.has_escape_cons unpaired, ih]

theorem spliced_escaped_brace {text : String} (before pending rest : List Char) (ended? : Option Nat)
    (whole : text.toList = before ++ pending ++ rest) :
    spliced (Pattern.Match.groupText 1) text (Token.byteLength before)
        (matchesFrom Grammar.escapedBrace ended? (Token.byteLength (before ++ pending)) rest) =
      some (String.ofList (pending ++ unescapeChars rest)) := by
  induction rest using Text.escape_induction generalizing before pending ended? with
  | nil =>
    have size : text.utf8ByteSize = Token.byteLength (before ++ pending) := by
      rw [← Token.byte_length_to_list, whole, List.append_nil]
    rw [Pattern.matches_from_nil head_readings_end, spliced, size, Token.slice_of_to_list before pending [] whole,
      unescapeChars, List.append_nil]
  | pair c rest brace ih =>
    have cut := Token.slice_of_to_list before pending ('\\' :: c :: rest) whole
    have later := ih (before ++ pending ++ ['\\', c]) []
      (some (Token.byteLength (before ++ pending) + Token.byteLength ['\\', c])) (by simpa using whole)
    rw [List.append_nil, Token.byte_length_append (before ++ pending)] at later
    have replaced (start stop : Nat) :
        Pattern.Match.groupText 1 ⟨start, stop, [(1, [c])]⟩ = String.ofList [c] := rfl
    rw [matches_from_escaped brace, spliced, cut, later, Text.unescape_chars_escaped brace]
    simp only [replaced, Option.bind_eq_bind, Option.bind_some, ← String.ofList_append, List.append_assoc]
    rfl
  | char c rest unpaired ih =>
    have later := ih before (pending ++ [c]) ended? (by simpa using whole)
    have place : Token.byteLength (before ++ (pending ++ [c])) =
        Token.byteLength (before ++ pending) + c.utf8Size := by
      rw [← List.append_assoc, Token.byte_length_append (before ++ pending)]
      rfl
    rw [place] at later
    rw [Pattern.matches_from_missing (head_readings_unescaped unpaired), later, Text.unescape_chars_cons unpaired,
      List.append_assoc, List.singleton_append]

theorem replace_all_escaped_brace (text : String) :
    Grammar.escapedBrace.replaceAll? (Pattern.Match.groupText 1) text =
      some (if hasEscape text.toList then .made (Text.unescape text) else .kept text) := by
  have nothing := matches_from_escaped_brace_eq_nil none 0 text.toList
  have whole : text.toList = [] ++ [] ++ text.toList := rfl
  have new := spliced_escaped_brace [] [] text.toList none whole
  change spliced _ text 0 (matchesFrom Grammar.escapedBrace none 0 text.toList) = some (Text.unescape text) at new
  unfold Pattern.replaceAll? Pattern.allMatches
  cases found : matchesFrom Grammar.escapedBrace none 0 text.toList with
  | nil =>
    rw [nothing.mp found]
    rfl
  | cons m rest =>
    have escaped : hasEscape text.toList = true := by
      rw [found] at nothing
      simpa using nothing
    rw [found] at new
    simp only [new, escaped, Option.map_some, if_true]

end Template

end Stencil
