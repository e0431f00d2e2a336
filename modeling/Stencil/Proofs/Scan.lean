import Stencil.Proofs.Grammar

set_option autoImplicit false

namespace Stencil

def Token.placed (start : Nat) (p : Template.Placeholder) : Token :=
  ⟨String.ofList p.name, p.default?.map String.ofList, start, start + byteLength p.source⟩

namespace Template

inductive Opens : List Char → Placeholder → List Char → Prop where
  | token {text after : List Char} {p : Placeholder} (body : Body text p after) : Opens ('{' :: text) p after
  | escaped {text after : List Char} {p : Placeholder} (body : Body text p after) :
      Opens ('\\' :: '{' :: text) p after

-- The cursor moves on by what it reads: a token, an escaped placeholder, or the one character where none begins.
inductive Scans : Nat → List Char → List Token → Prop where
  | done (start : Nat) : Scans start [] []
  | token {start : Nat} {text after : List Char} {p : Placeholder} {tokens : List Token}
      (body : Body text p after) (later : Scans (start + Token.byteLength p.source) after tokens) :
      Scans start ('{' :: text) (Token.placed start p :: tokens)
  | escaped {start : Nat} {text after : List Char} {p : Placeholder} {tokens : List Token}
      (body : Body text p after) (later : Scans (start + Token.byteLength ('\\' :: p.source)) after tokens) :
      Scans start ('\\' :: '{' :: text) tokens
  | skip {start : Nat} {c : Char} {rest : List Char} {tokens : List Token}
      (unopened : ∀ p after, ¬ Opens (c :: rest) p after) (later : Scans (start + c.utf8Size) rest tokens) :
      Scans start (c :: rest) tokens

theorem pieces_nil : pieces [] = [] := by
  rw [pieces]

theorem match_read_body {α : Type} {text after : List Char} {p : Placeholder} (body : Body text p after)
    (found : Placeholder → List Char → α) (missing : α) :
    (match _read : readBody text with
      | some (q, rest) => found q rest
      | none => missing) = found p after := by
  have read := read_body_eq_some.mpr body
  split
  · next q rest same =>
    obtain ⟨rfl, rfl⟩ := Prod.mk.inj (Option.some.inj (read.symm.trans same))
    rfl
  · next unread => cases unread.symm.trans read

theorem pieces_token {text after : List Char} {p : Placeholder} (body : Body text p after) :
    pieces ('{' :: text) = .token p :: pieces after := by
  rw [pieces]
  exact match_read_body body (fun q rest => .token q :: pieces rest) _

theorem pieces_escaped {text after : List Char} {p : Placeholder} (body : Body text p after) :
    pieces ('\\' :: '{' :: text) = .escaped p :: pieces after := by
  rw [pieces]
  exact match_read_body body (fun q rest => .escaped q :: pieces rest) _

theorem pieces_char {c : Char} {rest : List Char} (unopened : ∀ p after, ¬ Opens (c :: rest) p after) :
    pieces (c :: rest) = .char c :: pieces rest := by
  rw [pieces.eq_def]
  split
  · next same => cases same
  · next tail same =>
    obtain ⟨rfl, rfl⟩ := List.cons.inj same
    split
    · next p after found => exact absurd (.escaped (read_body_eq_some.mp found)) (unopened p after)
    · rfl
  · next tail same =>
    obtain ⟨rfl, rfl⟩ := List.cons.inj same
    split
    · next p after found => exact absurd (.token (read_body_eq_some.mp found)) (unopened p after)
    · rfl
  · next d tail _ _ same =>
    obtain ⟨rfl, rfl⟩ := List.cons.inj same
    rfl

@[elab_as_elim]
theorem scan_induction {motive : List Char → Prop} (nil : motive [])
    (token : ∀ text p after, Body text p after → motive after → motive ('{' :: text))
    (escaped : ∀ text p after, Body text p after → motive after → motive ('\\' :: '{' :: text))
    (char : ∀ c rest, (∀ p after, ¬ Opens (c :: rest) p after) → motive rest → motive (c :: rest))
    (text : List Char) : motive text := by
  fun_induction pieces text with
  | case1 => exact nil
  | case2 rest p after found ih => exact escaped rest p after (read_body_eq_some.mp found) ih
  | case3 rest missing ih =>
    refine char _ _ (fun p after opens => ?_) ih
    cases opens with
    | escaped body => cases missing.symm.trans (read_body_eq_some.mpr body)
  | case4 rest p after found ih => exact token rest p after (read_body_eq_some.mp found) ih
  | case5 rest missing ih =>
    refine char _ _ (fun p after opens => ?_) ih
    cases opens with
    | token body => cases missing.symm.trans (read_body_eq_some.mpr body)
  | case6 c rest notEscaped notOpen ih =>
    refine char _ _ (fun p after opens => ?_) ih
    cases opens with
    | token body => exact notOpen rfl
    | escaped body => exact notEscaped _ rfl rfl

@[elab_as_elim]
theorem scan_cases {motive : List Char → Prop} (nil : motive [])
    (token : ∀ text p after, Body text p after → motive ('{' :: text))
    (escaped : ∀ text p after, Body text p after → motive ('\\' :: '{' :: text))
    (char : ∀ c rest, (∀ p after, ¬ Opens (c :: rest) p after) → motive (c :: rest))
    (text : List Char) : motive text :=
  scan_induction nil (fun text p after body _ => token text p after body)
    (fun text p after body _ => escaped text p after body) (fun c rest unopened _ => char c rest unopened) text

theorem pieces_tail {text : List Char} {piece : Piece} {rest : List Piece} (same : pieces text = piece :: rest) :
    rest = pieces (rest.flatMap Piece.source) := by
  have later : ∃ after, rest = pieces after := by
    cases text using scan_cases with
    | nil => rw [pieces_nil] at same; cases same
    | token text p after body => exact ⟨after, (List.cons.inj (same.symm.trans (pieces_token body))).2⟩
    | escaped text p after body => exact ⟨after, (List.cons.inj (same.symm.trans (pieces_escaped body))).2⟩
    | char c after unopened => exact ⟨after, (List.cons.inj (same.symm.trans (pieces_char unopened))).2⟩
  obtain ⟨after, rfl⟩ := later
  rw [flat_map_source_pieces]

theorem pieces_suffix {text : List Char} {front back : List Piece} (same : pieces text = front ++ back) :
    back = pieces (back.flatMap Piece.source) := by
  induction front generalizing text with
  | nil =>
    rw [List.nil_append] at same
    rw [← same, flat_map_source_pieces]
  | cons piece rest ih => exact ih (pieces_tail same).symm

theorem body_of_pieces {text : List Char} {p : Placeholder} {back : List Piece}
    (same : pieces text = .token p :: back) :
    Body (p.body ++ back.flatMap Piece.source) p (back.flatMap Piece.source) := by
  cases text using scan_cases with
  | nil => rw [pieces_nil] at same; cases same
  | token text q after body =>
    rw [pieces_token body] at same
    obtain ⟨head, rfl⟩ := List.cons.inj same
    obtain rfl := Piece.token.inj head
    rwa [flat_map_source_pieces, ← body.whole]
  | escaped text q after body => rw [pieces_escaped body] at same; cases same
  | char c rest unopened => rw [pieces_char unopened] at same; cases same

theorem scans_pieces (start : Nat) (text : List Char) : Scans start text (Token.ofPieces start (pieces text)) := by
  induction text using scan_induction generalizing start with
  | nil => rw [pieces_nil]; exact .done start
  | token text p after body ih => rw [pieces_token body]; exact .token body (ih _)
  | escaped text p after body ih => rw [pieces_escaped body]; exact .escaped body (ih _)
  | char c rest unopened ih => rw [pieces_char unopened]; exact .skip unopened (ih _)

theorem Scans.eq_of_pieces {start : Nat} {text : List Char} {tokens : List Token} (scans : Scans start text tokens) :
    tokens = Token.ofPieces start (pieces text) := by
  induction scans with
  | done start => rw [pieces_nil]; rfl
  | token body later ih => rw [pieces_token body, ih]; rfl
  | escaped body later ih => rw [pieces_escaped body, ih]; rfl
  | skip unopened later ih => rw [pieces_char unopened, ih]; rfl

theorem head_readings_unopened {text : List Char} (unopened : ∀ p after, ¬ Opens text p after) :
    (Pattern.readings Grammar.token ⟨text, []⟩).head? = none := by
  rw [head_readings_token]
  split
  · next rest =>
    cases found : readBody rest with
    | none => rfl
    | some split => exact absurd (.escaped (read_body_eq_some.mp found)) (unopened split.1 split.2)
  · next rest =>
    cases found : readBody rest with
    | none => rfl
    | some split => exact absurd (.token (read_body_eq_some.mp found)) (unopened split.1 split.2)
  · rfl

end Template

-- A match is a token unless its first group, the backslash, was read.
def Pattern.Match.token? (m : Match) : Option Token :=
  if (m.group? 1).isSome then none
  else (m.group? 2).map fun name => ⟨String.ofList name, (m.group? 3).map String.ofList, m.start, m.stop⟩

namespace Template

open Pattern (matchesFrom)

theorem token_groups (p : Placeholder) (start stop : Nat) :
    Pattern.Match.token? ⟨start, stop, p.groups⟩ =
      some ⟨String.ofList p.name, p.default?.map String.ofList, start, stop⟩ := by
  obtain ⟨name, default?⟩ := p
  cases default? <;> rfl

theorem token_escaped_groups (p : Placeholder) (start stop : Nat) :
    Pattern.Match.token? ⟨start, stop, p.groups ++ [(1, ['\\'])]⟩ = none := by
  obtain ⟨name, default?⟩ := p
  cases default? <;> rfl

theorem matches_eq_tokens (ended? : Option Nat) (start : Nat) (text : List Char) :
    (matchesFrom Grammar.token ended? start text).filterMap Pattern.Match.token? =
      Token.ofPieces start (pieces text) := by
  induction text using scan_induction generalizing ended? start with
  | nil => rw [Pattern.matches_from_nil (head_readings_token []), pieces_nil]; rfl
  | token text p after body ih =>
    have found : (Pattern.readings Grammar.token ⟨'{' :: text, []⟩).head? = some ⟨after, p.groups⟩ := by
      simp only [head_readings_token, read_body_eq_some.mpr body, Option.map_some]
    have whole : '{' :: text = p.source ++ after := by rw [body.whole]; rfl
    rw [Pattern.matches_from_found found whole (List.cons_ne_nil _ _), pieces_token body, List.filterMap_cons,
      token_groups, ih]
    rfl
  | escaped text p after body ih =>
    have found : (Pattern.readings Grammar.token ⟨'\\' :: '{' :: text, []⟩).head? =
        some ⟨after, p.groups ++ [(1, ['\\'])]⟩ := by
      simp only [head_readings_token, read_body_eq_some.mpr body, Option.map_some]
    have whole : '\\' :: '{' :: text = ('\\' :: p.source) ++ after := by rw [body.whole]; rfl
    rw [Pattern.matches_from_found found whole (List.cons_ne_nil _ _), pieces_escaped body, List.filterMap_cons,
      token_escaped_groups, ih]
    rfl
  | char c rest unopened ih =>
    rw [Pattern.matches_from_missing (head_readings_unopened unopened), pieces_char unopened, ih]
    rfl

theorem scan_eq_leftmost_matches (definition : String) :
    Token.scan definition = (Grammar.token.allMatches definition).filterMap Pattern.Match.token? ∧
      ∀ tokens, Scans 0 definition.toList tokens ↔ tokens = Token.scan definition := by
  refine ⟨(matches_eq_tokens none 0 definition.toList).symm, fun tokens => ⟨Scans.eq_of_pieces, ?_⟩⟩
  rintro rfl
  exact scans_pieces 0 definition.toList

end Template

end Stencil
