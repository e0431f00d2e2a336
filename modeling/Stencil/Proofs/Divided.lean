import Stencil.Proofs.Span

set_option autoImplicit false

namespace Stencil

namespace Template

theorem DefaultEnd.shorten {text before kept rest : List Char} (ends : DefaultEnd text before (kept ++ rest)) :
    DefaultEnd (before ++ '}' :: kept) before kept := by
  cases ends with
  | bare whole unguarded earlier => exact .bare rfl unguarded earlier
  | last whole guarded final =>
    refine .last rfl (fun front back same => ?_) (fun closes => final (List.mem_append_left rest closes))
    refine guarded front (back ++ rest) ?_
    rw [whole, ← List.cons_append, ← List.append_assoc, same, List.append_assoc, List.cons_append]

theorem Body.shorten {text kept rest : List Char} {p : Placeholder} (body : Body text p (kept ++ rest)) :
    Body (p.body ++ kept) p kept := by
  cases body with
  | plain valid =>
    simp only [Placeholder.body, List.append_assoc, List.singleton_append]
    exact .plain valid
  | withDefault valid ends =>
    simp only [Placeholder.body, List.append_assoc, List.cons_append, List.nil_append]
    exact .withDefault valid ends.shorten

-- More text may move the end of a placeholder, but one is still read.
theorem exists_body_append {text after : List Char} {p : Placeholder} (body : Body text p after) (more : List Char) :
    ∃ q rest, Body (text ++ more) q rest := by
  cases body with
  | @plain name _ valid =>
    refine ⟨⟨name, none⟩, after ++ more, ?_⟩
    rw [List.append_assoc, List.cons_append]
    exact .plain valid
  | @withDefault name inner before _ valid ends =>
    have closes : '}' ∈ inner ++ more := by simp [ends.whole]
    cases found : splitDefault (inner ++ more) with
    | none => exact absurd closes (split_default_eq_none.mp found)
    | some split =>
      refine ⟨⟨name, some split.1⟩, split.2, ?_⟩
      rw [List.append_assoc, List.cons_append]
      exact .withDefault valid (split_default_eq_some.mp found)

theorem Opens.exists_append {text after : List Char} {p : Placeholder} (opens : Opens text p after)
    (more : List Char) : ∃ q rest, Opens (text ++ more) q rest := by
  cases opens with
  | token body =>
    obtain ⟨q, rest, longer⟩ := exists_body_append body more
    exact ⟨q, rest, .token longer⟩
  | escaped body =>
    obtain ⟨q, rest, longer⟩ := exists_body_append body more
    exact ⟨q, rest, .escaped longer⟩

theorem pieces_prefix {text : List Char} {front back : List Piece} (same : pieces text = front ++ back) :
    pieces (front.flatMap Piece.source) = front := by
  have later {after : List Char} {kept : List Piece} (read : pieces after = kept ++ back) :
      after = kept.flatMap Piece.source ++ back.flatMap Piece.source := by
    rw [← flat_map_source_pieces after, read, List.flatMap_append]
  induction text using scan_induction generalizing front with
  | nil =>
    rw [pieces_nil] at same
    rw [(List.append_eq_nil_iff.mp same.symm).1]
    exact pieces_nil
  | token text p after body ih =>
    rw [pieces_token body] at same
    cases front with
    | nil => exact pieces_nil
    | cons piece kept =>
      obtain ⟨rfl, read⟩ := List.cons.inj same
      rw [later read] at body
      have shorter := pieces_token body.shorten
      rw [ih read] at shorter
      exact shorter
  | escaped text p after body ih =>
    rw [pieces_escaped body] at same
    cases front with
    | nil => exact pieces_nil
    | cons piece kept =>
      obtain ⟨rfl, read⟩ := List.cons.inj same
      rw [later read] at body
      have shorter := pieces_escaped body.shorten
      rw [ih read] at shorter
      exact shorter
  | char c rest unopened ih =>
    rw [pieces_char unopened] at same
    cases front with
    | nil => exact pieces_nil
    | cons piece kept =>
      obtain ⟨rfl, read⟩ := List.cons.inj same
      have closed : ∀ p after, ¬ Opens (c :: kept.flatMap Piece.source) p after := by
        intro p after opens
        obtain ⟨q, tail, longer⟩ := opens.exists_append (back.flatMap Piece.source)
        rw [List.cons_append, ← later read] at longer
        exact unopened q tail longer
      have shorter := pieces_char closed
      rw [ih read] at shorter
      exact shorter

end Template

def Token.shift (offset : Nat) (token : Token) : Token :=
  { token with start := offset + token.start, stop := offset + token.stop }

namespace Template

theorem shift_placed (offset start : Nat) (p : Placeholder) :
    (Token.placed start p).shift offset = Token.placed (offset + start) p := by
  simp only [Token.shift, Token.placed, Nat.add_assoc]

theorem of_pieces_shift (offset start : Nat) (all : List Piece) :
    Token.ofPieces (offset + start) all = (Token.ofPieces start all).map (Token.shift offset) := by
  induction all generalizing start with
  | nil => rfl
  | cons piece rest ih =>
    have later := ih (start + Token.byteLength piece.source)
    rw [← Nat.add_assoc] at later
    cases piece with
    | char c => exact later
    | escaped p => exact later
    | token p =>
      change Token.placed (offset + start) p :: _ = (Token.placed start p).shift offset :: _
      rw [shift_placed]
      exact congrArg _ later

theorem exists_pieces_of_tokens {start : Nat} {all : List Piece} {earlier later : List Token} {token : Token}
    (read : Token.ofPieces start all = earlier ++ token :: later) :
    ∃ front back, all = front ++ back ∧ Token.ofPieces start front = earlier ++ [token] ∧
      token.stop = start + Token.byteLength (front.flatMap Piece.source) ∧
      Token.ofPieces token.stop back = later := by
  induction all generalizing start earlier with
  | nil => exact absurd read.symm (by simp [Token.ofPieces])
  | cons piece rest ih =>
    have longer (front : List Piece) :
        start + Token.byteLength piece.source + Token.byteLength (front.flatMap Piece.source) =
          start + Token.byteLength ((piece :: front).flatMap Piece.source) := by
      rw [List.flatMap_cons, Token.byte_length_append, Nat.add_assoc]
    cases piece with
    | char c =>
      change Token.ofPieces (start + Token.byteLength [c]) rest = _ at read
      obtain ⟨front, back, rfl, kept, stop, after⟩ := ih read
      exact ⟨.char c :: front, back, rfl, kept, stop.trans (longer front), after⟩
    | escaped p =>
      change Token.ofPieces (start + Token.byteLength ('\\' :: p.source)) rest = _ at read
      obtain ⟨front, back, rfl, kept, stop, after⟩ := ih read
      exact ⟨.escaped p :: front, back, rfl, kept, stop.trans (longer front), after⟩
    | token p =>
      cases earlier with
      | nil =>
        obtain ⟨rfl, after⟩ := List.cons.inj read
        exact ⟨[.token p], rest, rfl, rfl, longer [], after⟩
      | cons first others =>
        obtain ⟨rfl, next⟩ := List.cons.inj read
        obtain ⟨front, back, rfl, kept, stop, after⟩ := ih next
        exact ⟨.token p :: front, back, rfl, congrArg _ kept, stop.trans (longer front), after⟩

-- A definition can be divided where any of its tokens ends.
theorem scan_divided {definition : String} {earlier later : List Token} {token : Token}
    (scanned : Token.scan definition = earlier ++ token :: later) :
    ∃ front back : String, slice? definition 0 token.stop = some front ∧
      slice? definition token.stop definition.utf8ByteSize = some back ∧
      Token.scan front = earlier ++ [token] ∧
      (Token.scan back).map (Token.shift token.stop) = later := by
  obtain ⟨front, back, same, kept, stop, after⟩ := exists_pieces_of_tokens scanned
  have whole : definition.toList = front.flatMap Piece.source ++ back.flatMap Piece.source := by
    rw [← flat_map_source_pieces definition.toList, same, List.flatMap_append]
  have split : definition.toList = [] ++ front.flatMap Piece.source ++ back.flatMap Piece.source := whole
  have ended : definition.toList = front.flatMap Piece.source ++ back.flatMap Piece.source ++ [] := by
    rw [List.append_nil, whole]
  have first := Token.slice_of_to_list [] _ _ split
  have last := Token.slice_of_to_list _ _ [] ended
  rw [List.nil_append] at first
  rw [← whole, Token.byte_length_to_list] at last
  rw [Nat.zero_add] at stop
  refine ⟨_, _, stop ▸ first, stop ▸ last, ?_, ?_⟩
  · rw [Token.scan, String.toList_ofList, pieces_prefix same, kept]
  · rw [Token.scan, String.toList_ofList, ← pieces_suffix same, ← of_pieces_shift, Nat.add_zero, after]

theorem scan_divided_escaped :
    let definition := "\x7ba\x7d\\\x7bx:\x7ba\x7d\x7bb:\\\x7d\x7dé\x7bc:\\\x7d"
    Token.scan definition = [⟨"a", none, 0, 3⟩] ++ ⟨"b", some "\\\x7d", 10, 16⟩ :: [⟨"c", some "\\", 18, 23⟩] ∧
      ∃ front back : String, slice? definition 0 16 = some front ∧
        slice? definition 16 definition.utf8ByteSize = some back ∧
        Token.scan front = [⟨"a", none, 0, 3⟩] ++ [⟨"b", some "\\\x7d", 10, 16⟩] ∧
        (Token.scan back).map (Token.shift 16) = [⟨"c", some "\\", 18, 23⟩] := by
  intro definition
  have scanned : Token.scan definition =
      [⟨"a", none, 0, 3⟩] ++ ⟨"b", some "\\\x7d", 10, 16⟩ :: [⟨"c", some "\\", 18, 23⟩] := by
    decide +kernel
  exact ⟨scanned, scan_divided scanned⟩

end Template

end Stencil
