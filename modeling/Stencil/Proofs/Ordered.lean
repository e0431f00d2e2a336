import Stencil.Proofs.Nested

set_option autoImplicit false

namespace Stencil.Value

open Numeric

inductive Ordered : Value → Prop where
  | bool (b : Bool) : Ordered (.bool b)
  | int (n : Int64) : Ordered (.int n)
  | float (x : Binary64) : Ordered (.float x)
  | str (text : String) : Ordered (.str text)
  | list {items : List Value} (parts : ∀ item ∈ items, Ordered item) : Ordered (.list items)
  | map {entries : List (String × Value)} (ascending : Entries.Ascending entries)
      (parts : ∀ entry ∈ entries, Ordered entry.2) : Ordered (.map entries)

mutual

def floats : Value → List Binary64
  | .float x => [x]
  | .list items => itemsFloats items
  | .map entries => entriesFloats entries
  | _ => []

def itemsFloats : List Value → List Binary64
  | [] => []
  | item :: rest => floats item ++ itemsFloats rest

def entriesFloats : List (String × Value) → List Binary64
  | [] => []
  | (_, value) :: rest => floats value ++ entriesFloats rest

end

mutual

def depth : Value → Nat
  | .list items => itemsDepth items + 1
  | .map entries => entriesDepth entries + 1
  | _ => 0

def itemsDepth : List Value → Nat
  | [] => 0
  | item :: rest => max (depth item) (itemsDepth rest)

def entriesDepth : List (String × Value) → Nat
  | [] => 0
  | (_, value) :: rest => max (depth value) (entriesDepth rest)

end

theorem mem_items_floats {items : List Value} {x : Binary64} :
    x ∈ itemsFloats items ↔ ∃ item ∈ items, x ∈ item.floats := by
  induction items with
  | nil => simp [itemsFloats]
  | cons item rest ih => simp [itemsFloats, ih]

theorem mem_entries_floats {entries : List (String × Value)} {x : Binary64} :
    x ∈ entriesFloats entries ↔ ∃ entry ∈ entries, x ∈ entry.2.floats := by
  induction entries with
  | nil => simp [entriesFloats]
  | cons entry rest ih =>
    rw [entriesFloats, List.mem_append, ih]
    simp only [List.mem_cons, or_and_right, exists_or, exists_eq_left]

theorem items_depth_le {items : List Value} {bound : Nat} :
    itemsDepth items ≤ bound ↔ ∀ item ∈ items, item.depth ≤ bound := by
  induction items with
  | nil => simp [itemsDepth]
  | cons item rest ih => rw [itemsDepth, Nat.max_le, ih, List.forall_mem_cons]

theorem entries_depth_le {entries : List (String × Value)} {bound : Nat} :
    entriesDepth entries ≤ bound ↔ ∀ entry ∈ entries, entry.2.depth ≤ bound := by
  induction entries with
  | nil => simp [entriesDepth]
  | cons entry rest ih => rw [entriesDepth, Nat.max_le, ih, List.forall_mem_cons]

theorem present_entries_eq (members : List (String × Json)) :
    presentEntries (membersOfJson members) =
      (Entries.ofList members).filterMap fun member => (ofJson member.2).map fun value => (member.1, value) := by
  rw [presentEntries, members_of_json_eq, Entries.of_list_map, List.filterMap_map]
  rfl

theorem mem_present_entries {members : List (String × Option Value)} (distinct : members.Pairwise fun a b => a.1 ≠ b.1)
    {name : String} {value : Value} : (name, value) ∈ presentEntries members ↔ (name, some value) ∈ members := by
  have same : (Entries.ofList members).Perm ([] ++ members) := Entries.insert_all_perm distinct
  rw [presentEntries, List.mem_filterMap]
  constructor
  · rintro ⟨⟨key, held⟩, member, found⟩
    obtain ⟨inner, rfl, pair⟩ := Option.map_eq_some_iff.mp found
    obtain ⟨rfl, rfl⟩ := Prod.mk.inj pair
    exact same.mem_iff.mp member
  · intro member
    exact ⟨_, same.mem_iff.mpr member, rfl⟩

theorem ascending_present_entries (members : List (String × Option Value)) :
    Entries.Ascending (presentEntries members) :=
  (Entries.ascending_of_list members).filter_map id

theorem ordered_of_number (n : Json.Number) : (ofNumber n).Ordered := by
  cases n with
  | int n inRange =>
    rw [ofNumber, ofInt]
    split
    · exact .int _
    · exact .float _
  | float x finite => exact .float x

theorem ordered_of_json {tree : Json} {value : Value} (read : ofJson tree = some value) : value.Ordered := by
  induction tree generalizing value with
  | null => cases read
  | bool b =>
    obtain rfl := Option.some.inj read
    exact .bool b
  | number n =>
    obtain rfl := Option.some.inj read
    exact ordered_of_number n
  | str text =>
    obtain rfl := Option.some.inj read
    exact .str text
  | array items ih =>
    obtain rfl := Option.some.inj read
    refine .list fun item member => ?_
    rw [items_of_json_eq, List.filterMap_map] at member
    obtain ⟨part, present, found⟩ := List.mem_filterMap.mp member
    exact ih part present found
  | object members ih =>
    obtain rfl := Option.some.inj read
    rw [present_entries_eq]
    refine .map ((Entries.ascending_of_list members).filter_map ofJson) fun entry member => ?_
    obtain ⟨part, present, found⟩ := List.mem_filterMap.mp member
    obtain ⟨inner, same, rfl⟩ := Option.map_eq_some_iff.mp found
    exact ih part (Entries.mem_of_list present) same

end Stencil.Value
