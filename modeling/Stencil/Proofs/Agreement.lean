import Mathlib.Data.List.Permutation
import Stencil.Context
import Stencil.Proofs.Kinds
import Stencil.Proofs.Members
import Stencil.Proofs.Pruned

set_option autoImplicit false

namespace Stencil

namespace Value

theorem of_text_of_parse {text : String} {tree : Json} (parsed : Json.parse? text = some tree) :
    ofText text = ofCompleteJson tree := by
  simp only [ofText, Json.parse_eq_some_iff.mp parsed]
  cases whole : ofCompleteJson tree <;> rfl

theorem of_text_of_rejected {text : String} (rejected : Json.parse? text = none) :
    ∃ fault, ofText text = .error fault := by
  cases read : Json.readValue Json.maxDepth (Json.tokens text.toList) with
  | none => exact ⟨.malformed, by rw [ofText, read]⟩
  | some found =>
    obtain ⟨tree, rest⟩ := found
    have more : rest ≠ [] := by
      rintro rfl
      cases rejected.symm.trans (Json.parse_eq_some_iff.mpr read)
    cases whole : ofCompleteJson tree with
    | error fault =>
      refine ⟨fault, ?_⟩
      simp only [ofText, read, whole]
      rfl
    | ok value =>
      refine ⟨.malformed, ?_⟩
      simp only [ofText, read, whole, if_neg more]
      rfl

end Value

namespace Json

theorem settle_eq_object {room : Nat} {outline : Outline} {members : List (String × Json)}
    (settled : settle room outline = some (.object members)) :
    ∃ written, settleMembers (room - 1) written = some members ∧ outline = .object written := by
  cases outline with
  | object written =>
    obtain ⟨_, trees, inner, same⟩ := settle_object.mp settled
    exact ⟨written, Json.object.inj same ▸ inner, rfl⟩
  | array items =>
    obtain ⟨_, _, _, other⟩ := settle_array.mp settled
    cases other
  | number n? => simp [settle] at settled
  | str text? => simp [settle] at settled
  | _ => cases settled

theorem read_member_value_colon {room : Nat} {toks rest : List Token} {tree : Json}
    (read : readValue room toks = some (tree, rest)) :
    ∃ shorter, readMemberValue room (.colon :: toks) = .ok (tree, ⟨rest, shorter⟩) := by
  refine ⟨Nat.lt_succ_of_lt (length_lt_of_read_value read), ?_⟩
  simp only [readMemberValue]
  split
  · next same =>
    cases read.symm.trans same
    rfl
  · next missing => cases read.symm.trans missing

theorem read_member_value_none {room : Nat} {toks : List Token} (missing : readValue room toks = none) :
    readMemberValue room (.colon :: toks) = .error .malformed := by
  simp only [readMemberValue]
  split
  · next found => cases missing.symm.trans found
  · rfl

theorem eq_of_read_member_value {room : Nat} {toks : List Token} {tree : Json} {left : Shorter toks}
    (found : readMemberValue room toks = .ok (tree, left)) :
    ∃ more, toks = .colon :: more ∧ readValue room more = some (tree, left.1) := by
  unfold readMemberValue at found
  split at found
  · next more =>
    split at found
    · next same =>
      cases found
      exact ⟨more, rfl, same⟩
    · cases found
  · cases found

end Json

namespace Context

def bound (context : Context) (members : List (String × Json)) : Except Json.Fault Context :=
  match Value.membersOfKind? members with
  | some pairs => .ok (context.insertAll pairs)
  | none => .error .absentValue

theorem eq_of_read_binding {context next : Context} {key : String} {toks : List Json.Token} {left : Json.Shorter toks}
    (found : readBinding context key toks = .ok (next, left)) :
    ∃ more tree, toks = .colon :: more ∧ Json.readValue (Json.maxDepth - 1) more = some (tree, left.1) := by
  unfold readBinding at found
  cases read : Json.readMemberValue (Json.maxDepth - 1) toks with
  | error fault =>
    rw [read] at found
    cases found
  | ok member =>
    obtain ⟨tree, after⟩ := member
    rw [read] at found
    obtain ⟨more, same, inner⟩ := Json.eq_of_read_member_value read
    cases whole : Value.ofCompleteJson tree with
    | error fault =>
      simp only [whole, bind, Except.bind] at found
      cases found
    | ok value =>
      simp only [whole, bind, Except.bind, pure, Except.pure] at found
      cases found
      exact ⟨more, tree, same, inner⟩

theorem bound_none (context : Context) {key : String} {tree : Json} (missing : Value.ofKind? tree = none)
    (others : List (String × Json)) : context.bound ((key, tree) :: others) = .error .absentValue := by
  have absent : Value.membersOfKind? ((key, tree) :: others) = none :=
    Value.members_of_kind_eq_none ⟨_, List.mem_cons_self, missing⟩
  rw [bound, absent]

theorem bound_cons (context : Context) {key : String} {tree : Json} {value : Value}
    (found : Value.ofKind? tree = some value) (others : List (String × Json)) :
    context.bound ((key, tree) :: others) = (context.insert key value).bound others := by
  rw [bound, Value.members_of_kind_cons key found, bound]
  cases Value.membersOfKind? others <;> rfl

def take (context : Context) (member : String × Json.Outline) : Except Json.Fault Context :=
  match Json.settle (Json.maxDepth - 1) member.2 with
  | some tree => (Value.ofCompleteJson tree).map (context.insert member.1)
  | none => .error .malformed

theorem read_binding_tokens (context : Context) (key : String) (value : Json.Outline) (rest : List Json.Token) :
    (readBinding context key (.colon :: (value.tokens ++ rest))).map (fun read => (read.1, read.2.1)) =
      (context.take (key, value)).map (·, rest) := by
  cases settled : Json.settle (Json.maxDepth - 1) value with
  | some tree =>
    obtain ⟨_, member⟩ := Json.read_member_value_colon (Json.read_value_tokens settled rest)
    simp only [readBinding, member, take, settled, bind, Except.bind]
    cases Value.ofCompleteJson tree <;> rfl
  | none =>
    have missing : Json.readValue (Json.maxDepth - 1) (value.tokens ++ rest) = none := by
      rw [Json.readValue, Json.read_outline_eq_some_iff.mpr rfl]
      simp [settled]
    simp only [readBinding, Json.read_member_value_none missing, take, settled]
    rfl

theorem foldl_m_take {members : List (String × Json.Outline)} {trees : List (String × Json)}
    (settled : Json.settleMembers (Json.maxDepth - 1) (Json.named members) = some trees) (context : Context) :
    members.foldlM take context = context.bound trees := by
  induction members generalizing context trees with
  | nil =>
    cases settled
    rfl
  | cons member rest ih =>
    obtain ⟨_, tree, others, named, begun, ended, rfl⟩ := Json.settle_members_cons.mp settled
    cases named
    rw [List.foldlM_cons, take, begun]
    cases found : Value.ofKind? tree with
    | none =>
      rw [bound_none context found]
      simp only [Value.ofCompleteJson, found]
      rfl
    | some given =>
      rw [bound_cons context found, ← ih ended]
      simp only [Value.ofCompleteJson, found]
      rfl

theorem eq_of_read_members {context next : Context} {toks : List Json.Token} {left : Json.Shorter toks}
    (found : Json.readMembers readBinding context toks = .ok (next, left)) :
    ∃ key value members trees,
      toks = .str (some key) :: .colon :: (value.tokens ++ (Json.membersTokens members ++ left.1)) ∧
        Json.settleMembers (Json.maxDepth - 1) ((some key, value) :: members) = some trees := by
  fun_induction Json.readMembers readBinding context toks with
  | case1 => cases found
  | case2 => cases found
  | case3 context key rest state more shorter read further below same ih =>
    cases found
    obtain ⟨name, inner, members, trees, later, settled⟩ := ih same
    obtain ⟨_, tree, rfl, value⟩ := eq_of_read_binding read
    obtain ⟨outline, here, first⟩ := Json.read_value_eq_some_iff.mp value
    refine ⟨key, outline, (some name, inner) :: members, (key, tree) :: trees, ?_, ?_⟩
    · simp [here, later, Json.membersTokens, Json.Shorter.after, Json.Shorter.further]
    · exact Json.settle_members_cons.mpr ⟨key, tree, trees, rfl, first, settled, rfl⟩
  | case4 context key rest state more shorter read =>
    cases found
    obtain ⟨_, tree, rfl, value⟩ := eq_of_read_binding read
    obtain ⟨outline, here, first⟩ := Json.read_value_eq_some_iff.mp value
    refine ⟨key, outline, [], [(key, tree)], ?_, ?_⟩
    · simp [here, Json.membersTokens, Json.Shorter.after]
    · exact Json.settle_members_cons.mpr ⟨key, tree, [], rfl, first, rfl, rfl⟩
  | case5 => cases found
  | case6 => cases found

theorem of_text_of_object {text : String} {members : List (String × Json)}
    (parsed : Json.parse? text = some (.object members)) : ofText text = empty.bound members := by
  obtain ⟨outline, whole, settled⟩ := Json.read_value_eq_some_iff.mp (Json.parse_eq_some_iff.mp parsed)
  obtain ⟨written, inner, rfl⟩ := Json.settle_eq_object settled
  obtain ⟨named, rfl⟩ := Json.exists_named inner
  obtain ⟨rest, opened, run⟩ := Json.read_object_named read_binding_tokens named
  have bound := run empty []
  rw [foldl_m_take inner] at bound
  rw [ofText, whole, opened]
  exact Json.bind_at_end bound

theorem eq_of_read_object {context next : Context} {toks : List Json.Token} {left : Json.Shorter toks}
    (found : Json.readObject readBinding context toks = .ok (next, left)) :
    ∃ members trees, .openBrace :: toks = (Json.Outline.object members).tokens ++ left.1 ∧
      Json.settleMembers (Json.maxDepth - 1) members = some trees := by
  unfold Json.readObject at found
  split at found
  · cases found
    exact ⟨[], [], rfl, rfl⟩
  · obtain ⟨key, value, members, trees, whole, settled⟩ := eq_of_read_members found
    exact ⟨_, trees, by simp [whole, Json.Outline.tokens], settled⟩

theorem eq_of_bind_at_end {α : Type} {toks : List Json.Token} {read : Except Json.Fault (α × Json.Shorter toks)}
    {a : α} (found : read.bind Json.atEnd = .ok a) : ∃ left, read = .ok (a, left) ∧ left.1 = [] := by
  cases read with
  | error fault => cases found
  | ok whole =>
    obtain ⟨final, left⟩ := whole
    change (if left.1 = [] then Except.ok final else .error Json.Fault.malformed) = .ok a at found
    split at found
    · next ended => exact ⟨left, by rw [Except.ok.inj found], ended⟩
    · cases found

theorem exists_object_of_text {text : String} {context : Context} (found : ofText text = .ok context) :
    ∃ members, Json.parse? text = some (.object members) := by
  unfold ofText at found
  split at found
  · next rest start =>
    obtain ⟨left, read, ended⟩ := eq_of_bind_at_end found
    obtain ⟨members, trees, whole, settled⟩ := eq_of_read_object read
    refine ⟨trees, Json.parse_eq_some_iff.mpr (Json.read_value_eq_some_iff.mpr ⟨.object members, ?_, ?_⟩)⟩
    · rw [start, whole, ended]
    · exact Json.settle_object.mpr ⟨by decide, trees, settled, rfl⟩
  · cases found

theorem of_text_of_rejected {text : String} (rejected : Json.parse? text = none) :
    ∃ fault, ofText text = .error fault := by
  cases read : ofText text with
  | error fault => exact ⟨fault, rfl⟩
  | ok context =>
    obtain ⟨members, parsed⟩ := exists_object_of_text read
    cases rejected.symm.trans parsed

end Context

namespace Value

theorem of_json_object (members : List (String × Json)) :
    ∃ entries, ofJson (.object members) = some (.map entries) ∧ Entries.Ascending entries ∧
      ∀ key, entries.lookup key = (members.reverse.lookup key).bind ofJson := by
  refine ⟨presentEntries (membersOfJson members), rfl, ?_, fun key => ?_⟩
  · exact ascending_present_entries _
  · rw [present_entries_eq, Entries.lookup_filter_map (Entries.ascending_of_list members), Entries.lookup_of_list]

theorem of_json_array (items : List Json) : ofJson (.array items) = some (.list (items.filterMap ofJson)) := by
  rw [ofJson, items_of_json_eq, List.filterMap_map, Function.id_comp]

end Value

namespace Context

theorem of_datum_object (members : List (String × Json)) :
    ∃ context : Context, ofDatum (.json (.object members)) = .ok context ∧
      Value.ofJson (.object members) = some context.toValue := by
  obtain ⟨entries, read, ascending, _⟩ := Value.of_json_object members
  exact ⟨⟨entries, ascending⟩, of_datum_eq_ok rfl read, read⟩

theorem bound_of_some {members : List (String × Json)} {context : Context}
    (found : Value.ofKind? (.object members) = some context.toValue) : empty.bound members = .ok context := by
  obtain ⟨pairs, read, same⟩ := Option.map_eq_some_iff.mp found
  have whole : empty.insertAll pairs = context := to_value_inj same
  rw [bound, read]
  exact congrArg Except.ok whole

theorem bound_of_none {members : List (String × Json)} (missing : Value.ofKind? (.object members) = none) :
    empty.bound members = .error .absentValue := by
  rw [bound, Option.map_eq_none_iff.mp missing]

end Context

-- Without nulls both readings of a text give one value. A null anywhere keeps the strict one from every value, also
-- where a later member of its name hides it; the lenient one gives what the text without its nulls stands for.
theorem readings_agree (text : String) :
    (Json.parse? text = none →
      (∃ fault, Value.ofText text = .error fault) ∧ ∃ fault, Context.ofText text = .error fault) ∧
    (∀ tree, Json.parse? text = some tree →
      (.null ∉ Json.tokens text.toList →
        ∃ value, Value.ofText text = .ok value ∧ Value.ofJson tree = some value) ∧
      (.null ∈ Json.tokens text.toList →
        Value.ofText text = .error .absentValue ∧ Value.ofJson tree = Value.ofKind? tree.compact) ∧
      (Value.ofJson tree = none ↔ tree = .null) ∧
      ∀ members, tree = .object members →
        ∃ context, Context.ofDatum (.json tree) = .ok context ∧ Value.ofJson tree = some context.toValue ∧
          (.null ∉ Json.tokens text.toList → Context.ofText text = .ok context) ∧
          (.null ∈ Json.tokens text.toList → Context.ofText text = .error .absentValue)) ∧
    (∀ items, Value.ofJson (.array items) = some (.list (items.filterMap Value.ofJson))) ∧
    ∀ members, ∃ entries, Value.ofJson (.object members) = some (.map entries) ∧ Entries.Ascending entries ∧
      ∀ key, entries.lookup key = (members.reverse.lookup key).bind Value.ofJson := by
  refine ⟨fun rejected => ?_, fun tree parsed => ?_, Value.of_json_array, Value.of_json_object⟩
  · exact ⟨Value.of_text_of_rejected rejected, Context.of_text_of_rejected rejected⟩
  have nulls := Json.null_mem_tokens_of_parse parsed
  refine ⟨fun absent => ?_, fun present => ?_, Value.of_json_eq_none_iff, ?_⟩
  · have complete : tree.hasNull = false := Bool.eq_false_iff.mpr fun null => absent (nulls.mpr null)
    obtain ⟨value, strict, lenient⟩ := Value.of_kind_eq_of_json complete
    refine ⟨value, ?_, lenient⟩
    rw [Value.of_text_of_parse parsed, Value.ofCompleteJson, strict]
  · have missing := Value.of_kind_eq_none (nulls.mp present)
    refine ⟨?_, (Value.of_kind_compact tree).symm⟩
    rw [Value.of_text_of_parse parsed, Value.ofCompleteJson, missing]
  · rintro members rfl
    obtain ⟨context, whole, read⟩ := Context.of_datum_object members
    refine ⟨context, whole, read, fun absent => ?_, fun present => ?_⟩
    · obtain ⟨value, strict, lenient⟩ := Value.of_kind_eq_of_json
        (Bool.eq_false_iff.mpr fun null => absent (nulls.mpr null))
      rw [Context.of_text_of_object parsed]
      exact Context.bound_of_some (strict.trans (lenient.symm.trans read))
    · rw [Context.of_text_of_object parsed]
      exact Context.bound_of_none (Value.of_kind_eq_none (nulls.mp present))

theorem readings_agree_shadowed :
    Value.ofText "\x7b\"a\":null,\"b\":[true,null],\"a\":\"x\"\x7d" = .error .absentValue ∧
    Context.ofText "\x7b\"a\":null,\"b\":[true,null],\"a\":\"x\"\x7d" = .error .absentValue ∧
    Value.ofJson (.object [("a", .null), ("b", .array [.bool true, .null]), ("a", .str "x")]) =
      some (.map [("a", .str "x"), ("b", .list [.bool true])]) := by
  obtain ⟨_, parsed, _⟩ := readings_agree "\x7b\"a\":null,\"b\":[true,null],\"a\":\"x\"\x7d"
  obtain ⟨_, strict, _, objects⟩ :=
    parsed (.object [("a", .null), ("b", .array [.bool true, .null]), ("a", .str "x")]) (by cbv)
  have present : Json.Token.null ∈ Json.tokens "\x7b\"a\":null,\"b\":[true,null],\"a\":\"x\"\x7d".toList :=
    List.contains_iff_mem.mp (by cbv)
  obtain ⟨context, _, _, _, refused⟩ := objects _ rfl
  exact ⟨(strict present).1, refused present, by cbv⟩

end Stencil
