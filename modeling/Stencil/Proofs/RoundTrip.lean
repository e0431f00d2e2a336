import Stencil.Proofs.Agreement
import Stencil.Proofs.Reread
import Stencil.Proofs.TreeText

set_option autoImplicit false

namespace Stencil

open Numeric

def ReadsBack (x : Binary64) : Prop := ∃ finite, Json.reread? x = some (.float x finite)

namespace Json

theorem eq_of_float {x : Binary64} {n : Number} (found : Number.ofFloat? x = some n) :
    ∃ finite, n = .float x finite := by
  unfold Number.ofFloat? at found
  split at found
  · next finite => exact ⟨finite, (Option.some.inj found).symm⟩
  · cases found

theorem eq_float_of_reread {x : Binary64} {n : Number} (found : reread? x = some n) :
    ∃ y finite, n = .float y finite := by
  obtain ⟨_, _, read⟩ := Option.bind_eq_some_iff.mp found
  obtain ⟨y, _, rounded⟩ := Option.bind_eq_some_iff.mp read
  exact ⟨_, eq_of_float rounded⟩

end Json

theorem reads_back_of_short {x : Binary64} (finite : x.isFinite = true) {literal : Json.Literal}
    (read : Json.readLiteral (x.text .json) = some (literal, [])) (short : literal.Short) : ReadsBack x := by
  refine ⟨finite, ?_⟩
  rw [Json.reread?, read]
  exact Json.float_of_text finite read short

-- Not every number is read from its text as itself: of `3e23` first the power of ten is rounded, and then the product.
example : Json.reread? ⟨0x44cfc3842bd1f072⟩ = some (.float ⟨0x44cfc3842bd1f071⟩ (by decide)) := by
  decide +kernel

namespace Value

theorem of_float_finite {x : Binary64} (finite : x.isFinite = true) : Json.ofFloat x = .number (.float x finite) := by
  simp [Json.ofFloat, Json.Number.ofFloat?, finite]

theorem settle_items_echo {room : Nat} {items : List Value}
    (inner : ∀ item ∈ items, Json.settle room item.toJson.echo = some item.toJson) :
    Json.settleItems room (Json.itemsEcho (itemsToJson items)) = some (itemsToJson items) := by
  induction items with
  | nil => rfl
  | cons item rest ih =>
    obtain ⟨first, others⟩ := List.forall_mem_cons.mp inner
    exact Json.settle_items_cons.mpr ⟨_, _, first, ih others, rfl⟩

theorem settle_members_echo {room : Nat} {entries : List (String × Value)}
    (inner : ∀ entry ∈ entries, Json.settle room entry.2.toJson.echo = some entry.2.toJson) :
    Json.settleMembers room (Json.membersEcho (entriesToJson entries)) = some (entriesToJson entries) := by
  induction entries with
  | nil => rfl
  | cons entry rest ih =>
    obtain ⟨first, others⟩ := List.forall_mem_cons.mp inner
    exact Json.settle_members_cons.mpr ⟨_, _, _, rfl, first, ih others, rfl⟩

theorem settle_echo {value : Value} (back : ∀ x ∈ value.floats, ReadsBack x) {room : Nat}
    (shallow : value.depth ≤ room) :
    Json.settle room value.toJson.echo = some value.toJson := by
  induction value generalizing room with
  | bool b => rfl
  | int n => rfl
  | float x =>
    obtain ⟨finite, read⟩ := back x (by simp [floats])
    rw [toJson, of_float_finite finite, Json.echo, read]
    rfl
  | str text => rfl
  | list items ih =>
    have parts := items_depth_le.mp (Nat.le_sub_one_of_lt shallow)
    refine Json.settle_array.mpr ⟨Nat.ne_of_gt (Nat.lt_of_lt_of_le (Nat.succ_pos _) shallow), _, ?_, rfl⟩
    exact settle_items_echo fun item member =>
      ih item member (fun x held => back x (mem_items_floats.mpr ⟨item, member, held⟩)) (parts item member)
  | map entries ih =>
    have parts := entries_depth_le.mp (Nat.le_sub_one_of_lt shallow)
    refine Json.settle_object.mpr ⟨Nat.ne_of_gt (Nat.lt_of_lt_of_le (Nat.succ_pos _) shallow), _, ?_, rfl⟩
    exact settle_members_echo fun entry member =>
      ih entry member (fun x held => back x (mem_entries_floats.mpr ⟨entry, member, held⟩)) (parts entry member)

theorem items_of_kind_to_json {items : List Value} (inner : ∀ item ∈ items, ofKind? item.toJson = some item) :
    itemsOfKind? (itemsToJson items) = some items := by
  induction items with
  | nil => rfl
  | cons item rest ih =>
    obtain ⟨first, others⟩ := List.forall_mem_cons.mp inner
    rw [itemsToJson, items_of_kind_cons first, ih others]
    rfl

theorem members_of_kind_to_json {entries : List (String × Value)}
    (inner : ∀ entry ∈ entries, ofKind? entry.2.toJson = some entry.2) :
    membersOfKind? (entriesToJson entries) = some entries := by
  induction entries with
  | nil => rfl
  | cons entry rest ih =>
    obtain ⟨first, others⟩ := List.forall_mem_cons.mp inner
    rw [entriesToJson, members_of_kind_cons entry.1 first, ih others]
    rfl

theorem of_kind_to_json {value : Value} (ordered : value.Ordered) (finite : ∀ x ∈ value.floats, x.isFinite = true) :
    ofKind? value.toJson = some value := by
  induction value with
  | bool b => rfl
  | int n => exact (of_kind_number _).trans (congrArg some (of_int_to_int n))
  | float x =>
    rw [toJson, of_float_finite (finite x (by simp [floats])), of_kind_number]
    rfl
  | str text => rfl
  | list items ih =>
    cases ordered with
    | list parts =>
      have read := items_of_kind_to_json fun item member =>
        ih item member (parts item member) fun x held => finite x (mem_items_floats.mpr ⟨item, member, held⟩)
      rw [toJson, ofKind?, read]
      rfl
  | map entries ih =>
    cases ordered with
    | map ascending parts =>
      have read := members_of_kind_to_json fun entry member =>
        ih entry member (parts entry member) fun x held => finite x (mem_entries_floats.mpr ⟨entry, member, held⟩)
      rw [toJson, ofKind?, read, Option.map_some, Entries.of_list_eq_self ascending]

theorem exists_settled_of_items {room : Nat} {items : List Value} {trees : List Json}
    (settled : Json.settleItems room (Json.itemsEcho (itemsToJson items)) = some trees)
    (read : itemsOfKind? trees = some items) :
    ∀ item ∈ items, ∃ tree, Json.settle room item.toJson.echo = some tree ∧ ofKind? tree = some item := by
  induction items generalizing trees with
  | nil => simp
  | cons item rest ih =>
    obtain ⟨tree, others, first, last, rfl⟩ := Json.settle_items_cons.mp settled
    cases found : ofKind? tree with
    | none =>
      rw [items_of_kind_eq_none ⟨tree, List.mem_cons_self, found⟩] at read
      cases read
    | some value =>
      rw [items_of_kind_cons found] at read
      obtain ⟨values, later, same⟩ := Option.map_eq_some_iff.mp read
      obtain ⟨rfl, rfl⟩ := List.cons.inj same
      exact List.forall_mem_cons.mpr ⟨⟨tree, first, found⟩, ih last later⟩

theorem exists_pair_of_members {room : Nat} {written : List (String × Value)} {trees : List (String × Json)}
    (settled : Json.settleMembers room (Json.membersEcho (entriesToJson written)) = some trees)
    {pairs : List (String × Value)} (read : membersOfKind? trees = some pairs) :
    pairs.map Prod.fst = written.map Prod.fst ∧
      ∀ entry ∈ written, ∃ tree value, Json.settle room entry.2.toJson.echo = some tree ∧
        ofKind? tree = some value ∧ (entry.1, value) ∈ pairs := by
  induction written generalizing trees pairs with
  | nil =>
    cases settled
    cases read
    simp
  | cons entry rest ih =>
    obtain ⟨key, tree, others, named, first, last, rfl⟩ := Json.settle_members_cons.mp settled
    cases named
    cases found : ofKind? tree with
    | none =>
      rw [members_of_kind_eq_none ⟨_, List.mem_cons_self, found⟩] at read
      cases read
    | some value =>
      rw [members_of_kind_cons entry.1 found] at read
      obtain ⟨later, inner, rfl⟩ := Option.map_eq_some_iff.mp read
      obtain ⟨names, parts⟩ := ih last inner
      refine ⟨by rw [List.map_cons, List.map_cons, names], List.forall_mem_cons.mpr ⟨?_, fun other member => ?_⟩⟩
      · exact ⟨tree, value, first, found, List.mem_cons_self⟩
      · obtain ⟨part, held, settles, reads, inside⟩ := parts other member
        exact ⟨part, held, settles, reads, List.mem_cons_of_mem _ inside⟩

theorem exists_settled_of_members {room : Nat} {written entries : List (String × Value)}
    (perm : written.Perm entries) (ascending : Entries.Ascending entries) {trees : List (String × Json)}
    (settled : Json.settleMembers room (Json.membersEcho (entriesToJson written)) = some trees)
    {pairs : List (String × Value)} (read : membersOfKind? trees = some pairs) (same : Entries.ofList pairs = entries) :
    ∀ entry ∈ written, ∃ tree, Json.settle room entry.2.toJson.echo = some tree ∧ ofKind? tree = some entry.2 := by
  obtain ⟨names, parts⟩ := exists_pair_of_members settled read
  have distinct : pairs.Pairwise fun a b => a.1 ≠ b.1 := by
    have unequal := perm.symm.pairwise ascending.distinct fun unequal => unequal.symm
    rw [← List.pairwise_map (f := Prod.fst) (R := (· ≠ ·))] at unequal ⊢
    rwa [names]
  intro entry member
  obtain ⟨tree, value, settles, reads, inside⟩ := parts entry member
  have kept : (entry.1, value) ∈ entries := same ▸ (Entries.of_list_perm distinct).mem_iff.mpr inside
  have held : entry ∈ entries := perm.mem_iff.mp member
  have equal : some value = some entry.2 :=
    (ascending.mem_iff_lookup.mp kept).symm.trans (ascending.mem_iff_lookup.mp held)
  exact ⟨tree, settles, reads.trans equal⟩

theorem reads_back_of_settled {value : Value} (ordered : value.Ordered)
    (finite : ∀ x ∈ value.floats, x.isFinite = true) {room : Nat} {tree : Json}
    (settled : Json.settle room value.toJson.echo = some tree) (read : ofKind? tree = some value) :
    ∀ x ∈ value.floats, ReadsBack x := by
  induction value generalizing room tree with
  | bool b => simp [floats]
  | int n => simp [floats]
  | str text => simp [floats]
  | float x =>
    have present := finite x (by simp [floats])
    rw [toJson, of_float_finite present, Json.echo] at settled
    obtain ⟨n, found, rfl⟩ := Option.map_eq_some_iff.mp settled
    obtain ⟨y, bounded, rfl⟩ := Json.eq_float_of_reread found
    have same : ofNumber (.float y bounded) = .float x := Option.some.inj ((of_kind_number _).symm.trans read)
    obtain rfl := Value.float.inj same
    simpa [floats] using ⟨bounded, found⟩
  | list items ih =>
    cases ordered with
    | list parts =>
      obtain ⟨_, trees, inner, rfl⟩ := Json.settle_array.mp settled
      obtain ⟨values, listed, same⟩ := Option.map_eq_some_iff.mp read
      obtain rfl := Value.list.inj same
      intro x held
      obtain ⟨item, member, inside⟩ := mem_items_floats.mp held
      obtain ⟨part, begun, found⟩ := exists_settled_of_items inner listed item member
      exact ih item member (parts item member)
        (fun y other => finite y (mem_items_floats.mpr ⟨item, member, other⟩)) begun found x inside
  | map entries ih =>
    cases ordered with
    | map ascending parts =>
      obtain ⟨_, trees, inner, rfl⟩ := Json.settle_object.mp settled
      obtain ⟨pairs, listed, same⟩ := Option.map_eq_some_iff.mp read
      intro x held
      obtain ⟨entry, member, inside⟩ := mem_entries_floats.mp held
      obtain ⟨part, begun, found⟩ :=
        exists_settled_of_members (.refl _) ascending inner listed (Value.map.inj same) entry member
      exact ih entry member (parts entry member)
        (fun y other => finite y (mem_entries_floats.mpr ⟨entry, member, other⟩)) begun found x inside

theorem of_text_json_text {value : Value} (ordered : value.Ordered) (finite : ∀ x ∈ value.floats, x.isFinite = true)
    (shallow : value.depth ≤ Json.maxDepth) :
    ofText value.jsonText = .ok value ↔ ∀ x ∈ value.floats, ReadsBack x := by
  have parsed := Json.parse_text value.toJson
  constructor
  · intro read
    cases settled : Json.settle Json.maxDepth value.toJson.echo with
    | none =>
      obtain ⟨fault, refused⟩ := of_text_of_rejected (parsed.trans settled)
      cases refused.symm.trans read
    | some tree =>
      have whole := (of_text_of_parse (parsed.trans settled)).symm.trans read
      unfold ofCompleteJson at whole
      split at whole
      · next found =>
        cases whole
        exact reads_back_of_settled ordered finite settled found
      · cases whole
  · intro back
    have settled := settle_echo back shallow
    rw [jsonText, of_text_of_parse (parsed.trans settled), ofCompleteJson, of_kind_to_json ordered finite]

end Value

namespace Context

theorem reads_back_of_text {context : Context} (ordered : context.toValue.Ordered)
    (finite : ∀ x ∈ context.toValue.floats, x.isFinite = true) {written : List (String × Value)}
    (perm : written.Perm context.bindings) (read : ofText (Value.map written).jsonText = .ok context) :
    ∀ x ∈ context.toValue.floats, ReadsBack x := by
  obtain ⟨members, parsed⟩ := exists_object_of_text read
  have settled := (Json.parse_text _).symm.trans parsed
  obtain ⟨_, trees, inner, same⟩ := Json.settle_object.mp settled
  obtain rfl := Json.object.inj same
  have whole := (of_text_of_object parsed).symm.trans read
  unfold bound at whole
  split at whole
  · next pairs listed =>
    have bindings : Entries.ofList pairs = context.bindings := congrArg Context.bindings (Except.ok.inj whole)
    cases ordered with
    | map ascending parts =>
      intro x held
      obtain ⟨entry, member, inside⟩ := Value.mem_entries_floats.mp held
      obtain ⟨tree, begun, found⟩ :=
        Value.exists_settled_of_members perm ascending inner listed bindings entry (perm.mem_iff.mpr member)
      exact Value.reads_back_of_settled (parts entry member)
        (fun y other => finite y (Value.mem_entries_floats.mpr ⟨entry, member, other⟩)) begun found x inside
  · cases whole

theorem of_text_of_reads_back {context : Context} (ordered : context.toValue.Ordered)
    (back : ∀ x ∈ context.toValue.floats, ReadsBack x) (shallow : context.toValue.depth ≤ Json.maxDepth)
    {written : List (String × Value)} (perm : written.Perm context.bindings) :
    ofText (Value.map written).jsonText = .ok context := by
  cases ordered with
  | map ascending parts =>
    have depths := Value.entries_depth_le.mp (Nat.le_sub_one_of_lt shallow)
    have held : ∀ entry ∈ written, ∀ x ∈ entry.2.floats, ReadsBack x := fun entry member x inside =>
      back x (Value.mem_entries_floats.mpr ⟨entry, perm.mem_iff.mp member, inside⟩)
    have inner := Value.settle_members_echo fun entry member =>
      Value.settle_echo (held entry member) (depths entry (perm.mem_iff.mp member))
    have settled : Json.settle Json.maxDepth (Value.map written).toJson.echo = _ :=
      Json.settle_object.mpr ⟨by decide, _, inner, rfl⟩
    have listed := Value.members_of_kind_to_json fun entry member =>
      Value.of_kind_to_json (parts entry (perm.mem_iff.mp member)) fun x inside =>
        (held entry member x inside).elim fun finite _ => finite
    rw [Value.jsonText, of_text_of_object ((Json.parse_text _).trans settled), bound, listed]
    exact congrArg Except.ok (to_value_inj (congrArg Value.map (Entries.of_list_eq_of_perm perm ascending)))

theorem of_text_json_text {context : Context} (ordered : context.toValue.Ordered)
    (finite : ∀ x ∈ context.toValue.floats, x.isFinite = true) (shallow : context.toValue.depth ≤ Json.maxDepth)
    {written : List (String × Value)} (perm : written.Perm context.bindings) :
    ofText (Value.map written).jsonText = .ok context ↔ ∀ x ∈ context.toValue.floats, ReadsBack x :=
  ⟨reads_back_of_text ordered finite perm, fun back => of_text_of_reads_back ordered back shallow perm⟩

end Context

-- Written and read again, a value or a context is the same just when each of its binary numbers is on its own, and
-- that is so for all numbers of few digits.
theorem json_text_reads_back :
    (∀ value : Value, value.Ordered → (∀ x ∈ value.floats, x.isFinite = true) → value.depth ≤ 127 →
      (Value.ofText value.jsonText = .ok value ↔ ∀ x ∈ value.floats, ReadsBack x)) ∧
    (∀ (context : Context) (written : List (String × Value)), context.toValue.Ordered →
      (∀ x ∈ context.toValue.floats, x.isFinite = true) → context.toValue.depth ≤ 127 →
      written.Perm context.bindings →
      (Context.ofText (Value.map written).jsonText = .ok context ↔ ∀ x ∈ context.toValue.floats, ReadsBack x)) ∧
    ∀ (x : Binary64) (literal : Json.Literal), x.isFinite = true →
      Json.readLiteral (x.text .json) = some (literal, []) → literal.Short → ReadsBack x := by
  refine ⟨?_, ?_, ?_⟩
  · intro value ordered finite shallow
    exact Value.of_text_json_text ordered finite shallow
  · intro context written ordered finite shallow perm
    exact Context.of_text_json_text ordered finite shallow perm
  · intro x literal finite read short
    exact reads_back_of_short finite read short

theorem json_text_reads_back_nested :
    Value.ofText (Value.list [.int (-1), .float ⟨0x8000000000000000⟩,
        .map [("", .str "\\"), ("\x00\"", .list [])]]).jsonText =
      .ok (.list [.int (-1), .float ⟨0x8000000000000000⟩, .map [("", .str "\\"), ("\x00\"", .list [])]]) ∧
    Context.ofText (Value.map [("x", .float ⟨0x4004000000000000⟩), ("n", .int 2)]).jsonText =
      .ok ⟨[("n", .int 2), ("x", .float ⟨0x4004000000000000⟩)], List.pairwise_pair.mpr (by decide)⟩ := by
  obtain ⟨values, contexts, numbers⟩ := json_text_reads_back
  have negativeZero : ReadsBack ⟨0x8000000000000000⟩ :=
    numbers _ ⟨true, [0], some [0], none⟩ (by decide) (by decide +kernel) (by decide)
  have half : ReadsBack ⟨0x4004000000000000⟩ :=
    numbers _ ⟨false, [2], some [5], none⟩ (by decide) (by decide +kernel) (by decide)
  have inner : Value.Ordered (.map [("", .str "\\"), ("\x00\"", .list [])]) :=
    .map (List.pairwise_pair.mpr (by decide)) (by simpa using ⟨.str _, .list (by simp)⟩)
  have items : Value.Ordered (.list [.int (-1), .float ⟨0x8000000000000000⟩,
      .map [("", .str "\\"), ("\x00\"", .list [])]]) :=
    .list (by simpa using ⟨.int _, .float _, inner⟩)
  constructor
  · exact (values _ items (by decide) (by decide)).mpr (by simpa [Value.floats, Value.itemsFloats, Value.entriesFloats])
  · refine (contexts _ _ ?_ (by decide) (by decide) (.swap ..)).mpr ?_
    · exact .map (List.pairwise_pair.mpr (by decide)) (by simpa using ⟨.int _, .float _⟩)
    · simpa [Context.toValue, Value.floats, Value.entriesFloats]

end Stencil
