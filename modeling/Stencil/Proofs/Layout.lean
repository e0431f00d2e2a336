import Stencil.Proofs.Closing
import Stencil.Proofs.Grammar

set_option autoImplicit false

namespace Stencil

open Text (EndsInBackslash Guarded)

theorem eq_backslash_of_byte {c : Char} {place : Nat} (last : place + 1 = c.utf8Size)
    (inside : place < (String.utf8EncodeChar c).length)
    (byte : (String.utf8EncodeChar c)[place] = '\\'.toUInt8) : c = '\\' := by
  have first : (String.utf8EncodeChar c)[place].IsUTF8FirstByte := by
    rw [byte]
    decide
  obtain rfl := UInt8.isUTF8FirstByte_getElem_utf8EncodeChar.mp first
  simp only [String.utf8EncodeChar_eq_singleton last.symm, List.getElem_cons_zero] at byte
  have small : c.val.toNat ≤ 127 := UInt32.le_iff_toNat_le.mp (Char.utf8Size_eq_one_iff.mp last.symm)
  have same := congrArg UInt8.toNat byte
  rw [UInt32.toNat_toUInt8] at same
  apply Char.ext
  apply UInt32.toNat_inj.mp
  have code : '\\'.toUInt8.toNat = '\\'.val.toNat := by decide
  omega

theorem byte_within (front back : ByteArray) (bytes : List UInt8) {place : Nat} (inside : place < bytes.length) :
    (front ++ bytes.toByteArray ++ back)[front.size + place]? = some bytes[place] := by
  have below : front.size + place < (front ++ bytes.toByteArray).size := by
    rw [ByteArray.size_append, List.size_toByteArray]
    omega
  have within : front.size + place < (front ++ bytes.toByteArray ++ back).size := by
    rw [ByteArray.size_append]
    omega
  rw [getElem?_pos (front ++ bytes.toByteArray ++ back) (front.size + place) within,
    ByteArray.getElem_append_left below, ByteArray.getElem_append_right (Nat.le_add_right ..),
    List.getElem_toByteArray]
  simp only [Nat.add_sub_cancel_left]

theorem last_byte_ne_backslash {front : String} (apart : ¬ EndsInBackslash front.toList) (rest : String) {place : Nat}
    (last : place + 1 = front.utf8ByteSize) : (front ++ rest).toByteArray[place]? ≠ some '\\'.toUInt8 := by
  rcases List.eq_nil_or_concat front.toList with empty | ⟨init, c, whole⟩
  · rw [String.toList_eq_nil_iff.mp empty] at last
    cases last
  · have split : front = String.ofList init ++ String.singleton c := by
      apply String.toList_inj.mp
      simp [whole]
    rw [split, String.utf8ByteSize_append, String.utf8ByteSize_singleton] at last
    obtain ⟨offset, final⟩ : ∃ offset, offset + 1 = c.utf8Size := ⟨c.utf8Size - 1, by have := c.utf8Size_pos; omega⟩
    have inside : offset < (String.utf8EncodeChar c).length := by
      rw [String.length_utf8EncodeChar]
      omega
    have found := byte_within (String.ofList init).toByteArray rest.toByteArray (String.utf8EncodeChar c) inside
    have there : (String.ofList init).toByteArray.size + offset = place := by
      rw [String.size_toByteArray]
      omega
    rw [there, ← List.utf8Encode_singleton, ← String.toByteArray_singleton, ← String.toByteArray_append,
      ← String.toByteArray_append, ← split] at found
    intro byte
    have same := eq_backslash_of_byte final inside (Option.some.inj (found.symm.trans byte))
    apply apart
    rw [whole, same, List.concat_eq_append, Text.ends_in_backslash_append (by simp), Text.ends_in_backslash_singleton]

namespace Template

theorem DefaultEnd.guarded {text before after : List Char} (ends : DefaultEnd text before after) :
    Guarded '}' before := by
  cases ends with
  | bare whole unguarded earlier => exact earlier
  | last whole guarded final =>
    intro front back same
    exact guarded front (back ++ '}' :: after) (by simp [whole, same])

-- A piece directly before a token does not end in a backslash: with one, the placeholder would be an escaped piece.
theorem not_ends_in_backslash_source {text : List Char} {piece : Piece} {p : Placeholder} {back : List Piece}
    (same : pieces text = piece :: .token p :: back) : ¬ EndsInBackslash piece.source := by
  have closed (q : Placeholder) (front : List Char) : ¬ EndsInBackslash (front ++ q.source) := by
    obtain ⟨inner, written⟩ := exists_source_eq q
    rw [written, ← List.append_assoc, Text.ends_in_backslash_append (by simp), Text.ends_in_backslash_singleton]
    decide
  cases text using scan_cases with
  | nil =>
    rw [pieces_nil] at same
    cases same
  | token text q after body =>
    rw [pieces_token body] at same
    obtain rfl := (List.cons.inj same).1
    exact closed q []
  | escaped text q after body =>
    rw [pieces_escaped body] at same
    obtain rfl := (List.cons.inj same).1
    exact closed q ['\\']
  | char c rest unopened =>
    rw [pieces_char unopened] at same
    obtain ⟨rfl, later⟩ := List.cons.inj same
    intro ends
    obtain rfl := Text.ends_in_backslash_singleton.mp ends
    have whole : rest = '{' :: (p.body ++ back.flatMap Piece.source) := by
      rw [← flat_map_source_pieces rest, later]
      rfl
    rw [whole] at unopened
    exact unopened _ _ (.escaped (body_of_pieces later))

theorem not_ends_in_backslash_front {text : List Char} {front : List Piece} {p : Placeholder} {back : List Piece}
    (same : pieces text = front ++ .token p :: back) : ¬ EndsInBackslash (front.flatMap Piece.source) := by
  rcases List.eq_nil_or_concat front with empty | ⟨init, piece, whole⟩
  · rw [empty]
    exact Text.not_ends_in_backslash_nil
  · rw [whole, List.concat_eq_append, List.append_assoc] at same
    have apart := not_ends_in_backslash_source (pieces_suffix same).symm
    have inhabited : piece.source ≠ [] := by
      cases piece <;> exact List.cons_ne_nil _ _
    rw [whole, List.concat_eq_append, List.flatMap_append, List.flatMap_singleton,
      Text.ends_in_backslash_append inhabited]
    exact apart

theorem start_le_of_mem {token : Token} {start : Nat} {all : List Piece}
    (member : token ∈ Token.ofPieces start all) : start ≤ token.start := by
  obtain ⟨front, p, back, _, rfl⟩ := mem_of_pieces member
  exact Nat.le_add_right ..

theorem pairwise_of_pieces (start : Nat) (all : List Piece) :
    (Token.ofPieces start all).Pairwise fun a b => a.stop ≤ b.start := by
  induction all generalizing start with
  | nil => exact .nil
  | cons piece rest ih =>
    cases piece with
    | char c => exact ih _
    | escaped p => exact ih _
    | token p => exact List.pairwise_cons.mpr ⟨fun token member => start_le_of_mem member, ih _⟩

end Template

namespace Token

theorem source_inhabited (token : Token) : 0 < token.source.utf8ByteSize := by
  cases declared : token.default? <;>
    simp only [source, declared, String.utf8ByteSize_append] <;>
    exact Nat.lt_of_lt_of_le (by decide : 0 < "\x7d".utf8ByteSize) (Nat.le_add_left ..)

end Token

structure Token.LiesIn (definition : String) (token : Token) : Prop where
  inhabited : token.start < token.stop
  within : token.stop ≤ definition.utf8ByteSize
  opens : String.Pos.Raw.IsValid definition ⟨token.start⟩
  closes : String.Pos.Raw.IsValid definition ⟨token.stop⟩
  written : definition.toByteArray.extract token.start token.stop = token.source.toByteArray
  named : Template.Word token.name
  guarded : ∀ text, token.default? = some text → Guarded '}' text.toList
  apart : ∀ place, place + 1 = token.start → definition.toByteArray[place]? ≠ some '\\'.toUInt8

namespace Template

theorem lies_in_of_mem_scan {definition : String} {token : Token} (member : token ∈ Token.scan definition) :
    token.LiesIn definition := by
  obtain ⟨front, p, back, same, whole, placed⟩ := exists_pieces_of_mem_scan member
  have apart := not_ends_in_backslash_front same
  have body := body_of_pieces (pieces_suffix same).symm
  generalize String.ofList (back.flatMap Piece.source) = after at whole
  rw [← String.toList_ofList (l := front.flatMap Piece.source)] at apart
  generalize String.ofList (front.flatMap Piece.source) = before at whole placed apart
  have first : token.start = before.utf8ByteSize := by rw [placed]; rfl
  have last : token.stop = (before ++ token.source).utf8ByteSize := by
    rw [String.utf8ByteSize_append, placed, Token.stop_placed]
  have size := congrArg String.utf8ByteSize whole
  rw [String.utf8ByteSize_append, ← last] at size
  constructor
  · have longer := token.source_inhabited
    rw [first, last, String.utf8ByteSize_append]
    omega
  · omega
  · rw [first]
    exact String.Pos.Raw.isValid_iff_exists_append.mpr ⟨before, _, by rw [whole, String.append_assoc], rfl⟩
  · rw [last]
    exact String.Pos.Raw.isValid_iff_exists_append.mpr ⟨_, after, whole, rfl⟩
  · rw [first, last, whole, ← String.size_toByteArray, ← String.size_toByteArray, String.toByteArray_append,
      String.toByteArray_append, ByteArray.extract_append_size_left]
    exact ByteArray.extract_append_eq_right rfl ByteArray.size_append
  · rw [word_iff_is_name, placed, Token.placed, String.toList_ofList]
    exact body.is_name
  · intro text declared
    rw [placed] at declared
    obtain ⟨inner, held, rfl⟩ := Option.map_eq_some_iff.mp declared
    rw [String.toList_ofList]
    exact (body.default_end held).guarded
  · intro place before
    rw [whole, String.append_assoc]
    exact last_byte_ne_backslash apart _ (before.trans first)

-- An escaped placeholder counts for nothing, but where the next token stands is counted behind all of its bytes.
theorem scan_lies_in (definition : String) :
    (∀ token ∈ Token.scan definition, token.LiesIn definition) ∧
      (Token.scan definition).Pairwise fun a b => a.stop ≤ b.start :=
  ⟨fun _ => lies_in_of_mem_scan, pairwise_of_pieces 0 _⟩

theorem scan_lies_in_escaped :
    let definition := "é\\\x7bx\x7d\x7ba:\\\x7db\x7d\x7bc\x7d"
    Token.scan definition = [⟨"a", some "\\\x7db", 6, 13⟩, ⟨"c", none, 13, 16⟩] ∧
      Token.LiesIn definition ⟨"c", none, 13, 16⟩ := by
  intro definition
  have scanned : Token.scan definition = [⟨"a", some "\\\x7db", 6, 13⟩, ⟨"c", none, 13, 16⟩] := by decide +kernel
  exact ⟨scanned, (scan_lies_in definition).1 _ (by simp [scanned])⟩

end Template

end Stencil
