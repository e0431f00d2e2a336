import Stencil.Proofs.Ordered

set_option autoImplicit false

namespace Stencil

namespace Value

def list? : Json → Option Value
  | .array items => (itemsOfKind? items).map .list
  | _ => none

def map? : Json → Option Value
  | .object members => (membersOfKind? members).map fun pairs => .map (Entries.ofList pairs)
  | _ => none

def kinds : List (Json → Option Value) := [bool?, int?, float?, str?, list?, map?]

theorem int_or_float (n : Json.Number) :
    (int? (.number n)).or (float? (.number n)) = some (ofNumber n) := by
  cases n with
  | int n inRange =>
    simp only [int?, float?, ofNumber, ofInt]
    split <;> rfl
  | float x finite => rfl

theorem of_kind_number (n : Json.Number) : ofKind? (.number n) = some (ofNumber n) := by
  rw [← int_or_float]
  cases whole : int? (.number n) with
  | some value => simp [ofKind?, scalarKinds, List.findSome?, bool?, whole]
  | none => cases n <;> simp [ofKind?, scalarKinds, List.findSome?, bool?, whole, float?]

-- At every place of a tree the six kinds of value are tried in their order.
theorem of_kind_eq_find_some (tree : Json) : ofKind? tree = kinds.findSome? fun kind => kind tree := by
  cases tree with
  | null | bool b | str text => rfl
  | number n =>
    rw [of_kind_number, ← int_or_float]
    cases whole : int? (.number n) with
    | some value => simp [kinds, List.findSome?, bool?, whole]
    | none => cases n <;> simp [kinds, List.findSome?, bool?, whole, float?]
  | array items => cases read : itemsOfKind? items <;> simp [kinds, List.findSome?, ofKind?, bool?, int?, float?, str?,
      list?, map?, read]
  | object members => cases read : membersOfKind? members <;> simp [kinds, List.findSome?, ofKind?, bool?, int?,
      float?, str?, list?, map?, read]

theorem items_of_kind_cons {item : Json} {value : Value} (found : ofKind? item = some value) (rest : List Json) :
    itemsOfKind? (item :: rest) = (itemsOfKind? rest).map (value :: ·) := by
  rw [itemsOfKind?, found]
  cases itemsOfKind? rest <;> rfl

theorem members_of_kind_cons (key : String) {tree : Json} {value : Value} (found : ofKind? tree = some value)
    (rest : List (String × Json)) :
    membersOfKind? ((key, tree) :: rest) = (membersOfKind? rest).map ((key, value) :: ·) := by
  rw [membersOfKind?, found]
  cases membersOfKind? rest <;> rfl

theorem items_of_kind_eq_none {items : List Json} (missing : ∃ item ∈ items, ofKind? item = none) :
    itemsOfKind? items = none := by
  induction items with
  | nil => simp at missing
  | cons item rest ih =>
    cases found : ofKind? item with
    | none => rw [itemsOfKind?, found]; rfl
    | some value =>
      rw [items_of_kind_cons found, ih (by simpa [found] using missing)]
      rfl

theorem members_of_kind_eq_none {members : List (String × Json)}
    (missing : ∃ member ∈ members, ofKind? member.2 = none) : membersOfKind? members = none := by
  induction members with
  | nil => simp at missing
  | cons member rest ih =>
    obtain ⟨key, tree⟩ := member
    cases found : ofKind? tree with
    | none => rw [membersOfKind?, found]; rfl
    | some value =>
      have later : ∃ member ∈ rest, ofKind? member.2 = none := by
        obtain ⟨other, inside, absent⟩ := missing
        rcases List.mem_cons.mp inside with rfl | further
        · cases found.symm.trans absent
        · exact ⟨other, further, absent⟩
      rw [members_of_kind_cons key found, ih later]
      rfl

theorem of_kind_eq_none {tree : Json} (null : tree.hasNull = true) : ofKind? tree = none := by
  induction tree with
  | null => rfl
  | bool b | number n | str text => cases null
  | array items ih =>
    rw [Json.hasNull, Json.items_have_null_eq, List.any_eq_true] at null
    obtain ⟨item, member, inner⟩ := null
    rw [ofKind?, items_of_kind_eq_none ⟨item, member, ih item member inner⟩]
    rfl
  | object members ih =>
    rw [Json.hasNull, Json.members_have_null_eq, List.any_eq_true] at null
    obtain ⟨member, inside, inner⟩ := null
    rw [ofKind?, members_of_kind_eq_none ⟨member, inside, ih member inside inner⟩]
    rfl

theorem items_of_kind_eq {items : List Json}
    (same : ∀ item ∈ items, ∃ value, ofKind? item = some value ∧ ofJson item = some value) :
    ∃ values, itemsOfKind? items = some values ∧ itemsOfJson items = values.map some := by
  induction items with
  | nil => exact ⟨[], rfl, rfl⟩
  | cons item rest ih =>
    obtain ⟨⟨value, strict, lenient⟩, others⟩ := List.forall_mem_cons.mp same
    obtain ⟨values, read, left⟩ := ih others
    refine ⟨value :: values, ?_, ?_⟩
    · rw [items_of_kind_cons strict, read, Option.map_some]
    · rw [itemsOfJson, lenient, left, List.map_cons]

theorem members_of_kind_eq {members : List (String × Json)}
    (same : ∀ member ∈ members, ∃ value, ofKind? member.2 = some value ∧ ofJson member.2 = some value) :
    ∃ pairs, membersOfKind? members = some pairs ∧
      membersOfJson members = pairs.map fun pair => (pair.1, some pair.2) := by
  induction members with
  | nil => exact ⟨[], rfl, rfl⟩
  | cons member rest ih =>
    obtain ⟨⟨value, strict, lenient⟩, others⟩ := List.forall_mem_cons.mp same
    obtain ⟨pairs, read, left⟩ := ih others
    refine ⟨(member.1, value) :: pairs, ?_, ?_⟩
    · rw [members_of_kind_cons member.1 strict, read, Option.map_some]
    · rw [membersOfJson, lenient, left, List.map_cons]

theorem present_entries_some (pairs : List (String × Value)) :
    presentEntries (pairs.map fun pair => (pair.1, some pair.2)) = Entries.ofList pairs := by
  rw [presentEntries, Entries.of_list_map, List.filterMap_map]
  exact List.filterMap_some

theorem of_kind_eq_of_json {tree : Json} (complete : tree.hasNull = false) :
    ∃ value, ofKind? tree = some value ∧ ofJson tree = some value := by
  induction tree with
  | null => cases complete
  | bool b => exact ⟨_, rfl, rfl⟩
  | number n => exact ⟨_, of_kind_number n, rfl⟩
  | str text => exact ⟨_, rfl, rfl⟩
  | array items ih =>
    rw [Json.hasNull, Json.items_have_null_eq, List.any_eq_false] at complete
    obtain ⟨values, read, left⟩ := items_of_kind_eq fun item member =>
      ih item member (Bool.eq_false_iff.mpr (complete item member))
    refine ⟨.list values, ?_, ?_⟩
    · rw [ofKind?, read, Option.map_some]
    · rw [ofJson, left, List.filterMap_map, Function.id_comp, List.filterMap_some]
  | object members ih =>
    rw [Json.hasNull, Json.members_have_null_eq, List.any_eq_false] at complete
    obtain ⟨pairs, read, left⟩ := members_of_kind_eq fun member inside =>
      ih member inside (Bool.eq_false_iff.mpr (complete member inside))
    refine ⟨.map (Entries.ofList pairs), ?_, ?_⟩
    · rw [ofKind?, read, Option.map_some]
    · rw [ofJson, left, present_entries_some]

theorem of_json_eq_none_iff {tree : Json} : ofJson tree = none ↔ tree = .null := by
  cases tree <;> simp [ofJson]

end Value

namespace Json

def isNull : Json → Bool
  | .null => true
  | _ => false

mutual

def compact : Json → Json
  | .array items => .array ((compactItems items).filter fun item => !item.isNull)
  | .object members => .object ((Entries.ofList (compactMembers members)).filter fun member => !member.2.isNull)
  | tree => tree

def compactItems : List Json → List Json
  | [] => []
  | item :: rest => compact item :: compactItems rest

def compactMembers : List (String × Json) → List (String × Json)
  | [] => []
  | (key, tree) :: rest => (key, compact tree) :: compactMembers rest

end

theorem compact_items_eq (items : List Json) : compactItems items = items.map compact := by
  induction items with
  | nil => rfl
  | cons item rest ih => rw [compactItems, ih, List.map_cons]

theorem compact_members_eq (members : List (String × Json)) :
    compactMembers members = members.map fun member => (member.1, member.2.compact) := by
  induction members with
  | nil => rfl
  | cons member rest ih => rw [compactMembers, ih, List.map_cons]

theorem is_null_compact (tree : Json) : tree.compact.isNull = tree.isNull := by
  cases tree <;> rfl

end Json

namespace Value

theorem is_null_of_json {tree : Json} {value : Value} (read : ofJson tree = some value) : tree.isNull = false := by
  cases tree with
  | null => cases read
  | _ => rfl

theorem items_of_kind_compact {items : List Json} (inner : ∀ item ∈ items, ofKind? item.compact = ofJson item) :
    itemsOfKind? ((items.map Json.compact).filter fun item => !item.isNull) = some (items.filterMap ofJson) := by
  induction items with
  | nil => rfl
  | cons item rest ih =>
    obtain ⟨first, others⟩ := List.forall_mem_cons.mp inner
    cases read : ofJson item with
    | none =>
      obtain rfl := of_json_eq_none_iff.mp read
      exact ih others
    | some value =>
      have present : item.compact.isNull = false := by rw [Json.is_null_compact, is_null_of_json read]
      rw [List.map_cons, List.filter_cons_of_pos (by simp [present]), items_of_kind_cons (first.trans read), ih others,
        Option.map_some, List.filterMap_cons_some read]

theorem members_of_kind_compact {members : List (String × Json)}
    (inner : ∀ member ∈ members, ofKind? member.2.compact = ofJson member.2) :
    membersOfKind? ((members.map fun member => (member.1, member.2.compact)).filter fun member => !member.2.isNull) =
      some (members.filterMap fun member => (ofJson member.2).map fun value => (member.1, value)) := by
  induction members with
  | nil => rfl
  | cons member rest ih =>
    obtain ⟨first, others⟩ := List.forall_mem_cons.mp inner
    cases read : ofJson member.2 with
    | none =>
      have null := of_json_eq_none_iff.mp read
      rw [List.map_cons, List.filter_cons_of_neg (by simp [null, Json.compact, Json.isNull]), ih others,
        List.filterMap_cons_none (by simp [read])]
    | some value =>
      have present : member.2.compact.isNull = false := by rw [Json.is_null_compact, is_null_of_json read]
      rw [List.map_cons, List.filter_cons_of_pos (by simp [present]), members_of_kind_cons member.1 (first.trans read),
        ih others, Option.map_some, List.filterMap_cons, read]
      rfl

theorem of_kind_compact (tree : Json) : ofKind? tree.compact = ofJson tree := by
  induction tree with
  | null | bool b | str text => rfl
  | number n => exact of_kind_number n
  | array items ih =>
    rw [Json.compact, Json.compact_items_eq, ofKind?, items_of_kind_compact ih, ofJson, items_of_json_eq,
      List.filterMap_map, Function.id_comp]
    rfl
  | object members ih =>
    have last := members_of_kind_compact fun member inside => ih member (Entries.mem_of_list inside)
    have ascending := (Entries.ascending_of_list members).filter_map ofJson
    rw [Json.compact, Json.compact_members_eq, Entries.of_list_map, ofKind?, last, Option.map_some,
      Entries.of_list_eq_self ascending, ofJson, present_entries_eq]

end Value

end Stencil
