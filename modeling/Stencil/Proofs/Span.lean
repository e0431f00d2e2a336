import Stencil.Proofs.Scan

set_option autoImplicit false

namespace Stencil

-- Nothing unless both places are boundaries of characters in the text and the first is not behind the second.
def slice? (text : String) (start stop : Nat) : Option String := do
  let first ← text.pos? ⟨start⟩
  let last ← text.pos? ⟨stop⟩
  (text.slice? first last).map String.Slice.copy

theorem pos_eq_some {text : String} {place : String.Pos.Raw} (valid : place.IsValid text) :
    text.pos? place = some (text.pos place valid) := by
  rw [String.pos?, String.Slice.pos?, dif_pos (String.Pos.Raw.isValidForSlice_eq_true_iff.mpr valid.toSlice)]
  rfl

theorem slice_append (front middle back : String) :
    slice? (front ++ middle ++ back) front.utf8ByteSize (front ++ middle).utf8ByteSize = some middle := by
  have first : (⟨front.utf8ByteSize⟩ : String.Pos.Raw).IsValid (front ++ middle ++ back) :=
    String.Pos.Raw.isValid_iff_exists_append.mpr ⟨front, middle ++ back, by rw [String.append_assoc], rfl⟩
  have last : (⟨(front ++ middle).utf8ByteSize⟩ : String.Pos.Raw).IsValid (front ++ middle ++ back) :=
    String.Pos.Raw.isValid_iff_exists_append.mpr ⟨front ++ middle, back, rfl, rfl⟩
  have ordered : (front ++ middle ++ back).pos _ first ≤ (front ++ middle ++ back).pos _ last := by
    simp [String.Pos.le_iff, String.Pos.Raw.le_iff]
  simp only [slice?, pos_eq_some first, pos_eq_some last, Option.bind_eq_bind, Option.bind_some,
    String.slice?, dif_pos ordered, Option.map_some]
  congr 1
  apply String.toByteArray_inj.mp
  rw [String.Slice.toByteArray_copy]
  simp only [String.str_slice, String.startInclusive_slice, String.endExclusive_slice, String.offset_pos,
    ← String.size_toByteArray, String.toByteArray_append]
  rw [ByteArray.extract_append_size_left]
  exact ByteArray.extract_append_eq_right rfl ByteArray.size_append

namespace Token

theorem byte_length_append (front back : List Char) :
    byteLength (front ++ back) = byteLength front + byteLength back := by
  induction front with
  | nil => simp [byteLength]
  | cons c rest ih => rw [List.cons_append, byteLength, byteLength, ih, Nat.add_assoc]

theorem utf8_byte_size_of_list (text : List Char) : (String.ofList text).utf8ByteSize = byteLength text := by
  induction text with
  | nil => rfl
  | cons c rest ih =>
    have split : String.ofList (c :: rest) = String.singleton c ++ String.ofList rest := by
      rw [String.singleton_eq_ofList, ← String.ofList_append]
      rfl
    rw [split, String.utf8ByteSize_append, ih, String.utf8ByteSize_singleton, byteLength]

theorem byte_length_to_list (text : String) : byteLength text.toList = text.utf8ByteSize := by
  rw [← utf8_byte_size_of_list, String.ofList_toList]

theorem slice_of_to_list {text : String} (front middle back : List Char)
    (whole : text.toList = front ++ middle ++ back) :
    slice? text (byteLength front) (byteLength (front ++ middle)) = some (String.ofList middle) := by
  have split : text = String.ofList front ++ String.ofList middle ++ String.ofList back := by
    rw [← String.ofList_append, ← String.ofList_append, ← whole, String.ofList_toList]
  have cut := slice_append (String.ofList front) (String.ofList middle) (String.ofList back)
  rwa [← split, ← String.ofList_append, utf8_byte_size_of_list, utf8_byte_size_of_list] at cut

theorem source_placed (start : Nat) (p : Template.Placeholder) : (placed start p).source = String.ofList p.source := by
  obtain ⟨name, default?⟩ := p
  apply String.toList_inj.mp
  cases default? <;> simp [placed, source, Template.Placeholder.source, Template.Placeholder.body]

theorem stop_placed (start : Nat) (p : Template.Placeholder) :
    (placed start p).stop = start + (placed start p).source.utf8ByteSize := by
  rw [source_placed, utf8_byte_size_of_list]
  rfl

end Token

namespace Template

theorem mem_of_pieces {token : Token} {start : Nat} {all : List Piece} (member : token ∈ Token.ofPieces start all) :
    ∃ front p back, all = front ++ .token p :: back ∧
      token = Token.placed (start + Token.byteLength (front.flatMap Piece.source)) p := by
  induction all generalizing start with
  | nil => cases member
  | cons piece rest ih =>
    have further (later : token ∈ Token.ofPieces (start + Token.byteLength piece.source) rest) :
        ∃ front p back, piece :: rest = front ++ .token p :: back ∧
          token = Token.placed (start + Token.byteLength (front.flatMap Piece.source)) p := by
      obtain ⟨front, p, back, rfl, rfl⟩ := ih later
      refine ⟨piece :: front, p, back, rfl, ?_⟩
      rw [List.flatMap_cons, Token.byte_length_append, Nat.add_assoc]
    cases piece with
    | char c => exact further member
    | escaped p => exact further member
    | token p =>
      rcases List.mem_cons.mp member with rfl | later
      · exact ⟨[], p, rest, rfl, rfl⟩
      · exact further later

theorem exists_pieces_of_mem_scan {definition : String} {token : Token} (member : token ∈ Token.scan definition) :
    ∃ front p back, pieces definition.toList = front ++ .token p :: back ∧
      definition = String.ofList (front.flatMap Piece.source) ++ token.source ++
        String.ofList (back.flatMap Piece.source) ∧
      token = Token.placed (String.ofList (front.flatMap Piece.source)).utf8ByteSize p := by
  obtain ⟨front, p, back, same, rfl⟩ := mem_of_pieces member
  have whole : definition.toList = front.flatMap Piece.source ++ p.source ++ back.flatMap Piece.source := by
    rw [← flat_map_source_pieces definition.toList, same, List.flatMap_append, List.flatMap_cons,
      List.append_assoc]
    rfl
  refine ⟨front, p, back, same, ?_, ?_⟩
  · rw [Token.source_placed, ← String.ofList_append, ← String.ofList_append, ← whole, String.ofList_toList]
  · rw [Token.utf8_byte_size_of_list, Nat.zero_add]

theorem mem_scan {definition : String} {token : Token} (member : token ∈ Token.scan definition) :
    ∃ (before after : String) (p : Placeholder), definition = before ++ token.source ++ after ∧
      token = Token.placed before.utf8ByteSize p ∧ Body (p.body ++ after.toList) p after.toList := by
  obtain ⟨front, p, back, same, whole, placed⟩ := exists_pieces_of_mem_scan member
  refine ⟨_, _, p, whole, placed, ?_⟩
  rw [String.toList_ofList]
  exact body_of_pieces (pieces_suffix same).symm

end Template

end Stencil
