import Mathlib.Data.List.Basic
import Stencil.Context
import Stencil.Proofs.Rounding
import Stencil.Proofs.Ordered

set_option autoImplicit false

namespace Stencil

open Numeric

namespace Value

def isLost : Value → Bool
  | .float x => !x.isFinite
  | _ => false

mutual

def pruned : Value → Value
  | .list items => .list (prunedItems items)
  | .map entries => .map (prunedEntries entries)
  | value => value

def prunedItems : List Value → List Value
  | [] => []
  | item :: rest => if item.isLost then prunedItems rest else pruned item :: prunedItems rest

def prunedEntries : List (String × Value) → List (String × Value)
  | [] => []
  | (key, value) :: rest =>
    if value.isLost then prunedEntries rest else (key, pruned value) :: prunedEntries rest

end

def kept (value : Value) : Option Value := if value.isLost then none else some value.pruned

theorem pruned_items_eq (items : List Value) : prunedItems items = items.filterMap kept := by
  induction items with
  | nil => rfl
  | cons item rest ih =>
    by_cases lost : item.isLost <;> simp [prunedItems, kept, lost, ih]

theorem pruned_entries_eq (entries : List (String × Value)) :
    prunedEntries entries = entries.filterMap fun entry => (kept entry.2).map fun value => (entry.1, value) := by
  induction entries with
  | nil => rfl
  | cons entry rest ih =>
    by_cases lost : entry.2.isLost <;> simp [prunedEntries, kept, lost, ih]

theorem ascending_pruned_entries {entries : List (String × Value)} (ascending : Entries.Ascending entries) :
    Entries.Ascending (prunedEntries entries) := by
  rw [pruned_entries_eq]
  exact ascending.filter_map kept

theorem of_json_of_float (x : Binary64) : ofJson (Json.ofFloat x) = kept (.float x) := by
  unfold Json.ofFloat Json.Number.ofFloat?
  by_cases finite : x.isFinite = true
  · simp [finite, ofJson, ofNumber, kept, isLost, pruned]
  · simp [finite, ofJson, kept, isLost]

theorem of_int_to_int (n : Int64) : ofInt n.toInt = .int n := by
  have lower := Int64.minValue_le_toInt n
  have upper := Int64.toInt_le n
  rw [ofInt, if_pos ⟨lower, upper⟩, Int64.ofInt_toInt]

theorem present_entries_entries_to_json {written entries : List (String × Value)} (perm : written.Perm entries)
    (ascending : Entries.Ascending entries) (back : ∀ entry ∈ entries, ofJson entry.2.toJson = kept entry.2) :
    presentEntries (membersOfJson (entriesToJson written)) = prunedEntries entries := by
  rw [present_entries_eq, entries_to_json_eq, Entries.of_list_map, Entries.of_list_eq_of_perm perm ascending,
    List.filterMap_map, pruned_entries_eq]
  refine List.filterMap_congr fun entry member => ?_
  rw [← back entry member]
  rfl

theorem of_json_to_json {value : Value} (ordered : value.Ordered) : ofJson value.toJson = value.kept := by
  induction value with
  | bool b => rfl
  | int n => exact congrArg some (of_int_to_int n)
  | float x => exact of_json_of_float x
  | str text => rfl
  | list items ih =>
    cases ordered with
    | list parts =>
      have whole : (items.map toJson).filterMap ofJson = items.filterMap kept := by
        rw [List.filterMap_map]
        exact List.filterMap_congr fun item member => ih item member (parts item member)
      rw [toJson, ofJson, items_to_json_eq, items_of_json_eq, List.filterMap_map, Function.id_comp, whole,
        ← pruned_items_eq]
      rfl
  | map entries ih =>
    cases ordered with
    | map ascending parts =>
      rw [toJson, ofJson, present_entries_entries_to_json (.refl _) ascending fun entry member =>
        ih entry member (parts entry member)]
      rfl

theorem not_is_lost {value : Value} (finite : ∀ x ∈ value.floats, x.isFinite = true) : value.isLost = false := by
  cases value with
  | float x => simpa [isLost] using finite x (by simp [floats])
  | _ => rfl

theorem pruned_eq_self {value : Value} (finite : ∀ x ∈ value.floats, x.isFinite = true) : value.pruned = value := by
  induction value with
  | bool b => rfl
  | int n => rfl
  | float x => rfl
  | str text => rfl
  | list items ih =>
    have whole : ∀ item ∈ items, kept item = some item := by
      intro item member
      have inner : ∀ x ∈ item.floats, x.isFinite = true := fun x present =>
        finite x (mem_items_floats.mpr ⟨item, member, present⟩)
      rw [kept, not_is_lost inner, ih item member inner]
      rfl
    rw [pruned, pruned_items_eq, List.filterMap_congr whole, List.filterMap_some]
  | map entries ih =>
    have whole : ∀ entry ∈ entries, (kept entry.2).map (fun value => (entry.1, value)) = some entry := by
      intro entry member
      have inner : ∀ x ∈ entry.2.floats, x.isFinite = true := fun x present =>
        finite x (mem_entries_floats.mpr ⟨entry, member, present⟩)
      rw [kept, not_is_lost inner, ih entry member inner]
      rfl
    rw [pruned, pruned_entries_eq, List.filterMap_congr whole, List.filterMap_some]

theorem eq_of_kept {value left : Value} (found : kept value = some left) :
    value.isLost = false ∧ left = value.pruned := by
  unfold kept at found
  split at found
  · cases found
  · next present => exact ⟨Bool.eq_false_iff.mpr present, (Option.some.inj found).symm⟩

theorem finite_pruned {value : Value} (present : value.isLost = false) :
    ∀ x ∈ value.pruned.floats, x.isFinite = true := by
  induction value with
  | bool b => simp [pruned, floats]
  | int n => simp [pruned, floats]
  | float x => simpa [pruned, floats, isLost] using present
  | str text => simp [pruned, floats]
  | list items ih =>
    intro x member
    rw [pruned, pruned_items_eq] at member
    obtain ⟨left, inside, held⟩ := mem_items_floats.mp member
    obtain ⟨item, original, found⟩ := List.mem_filterMap.mp inside
    obtain ⟨stays, rfl⟩ := eq_of_kept found
    exact ih item original stays x held
  | map entries ih =>
    intro x member
    rw [pruned, pruned_entries_eq] at member
    obtain ⟨left, inside, held⟩ := mem_entries_floats.mp member
    obtain ⟨entry, original, found⟩ := List.mem_filterMap.mp inside
    obtain ⟨inner, same, rfl⟩ := Option.map_eq_some_iff.mp found
    obtain ⟨stays, rfl⟩ := eq_of_kept same
    exact ih entry original stays x held

theorem ordered_pruned {value : Value} (ordered : value.Ordered) : value.pruned.Ordered := by
  by_cases lost : value.isLost = true
  · cases value with
    | float x => exact ordered
    | _ => cases lost
  · have found : ofJson value.toJson = some value.pruned := by rw [of_json_to_json ordered, kept, if_neg lost]
    exact ordered_of_json found

theorem finite_of_number (n : Json.Number) : ∀ x ∈ (ofNumber n).floats, x.isFinite = true := by
  cases n with
  | int n inRange =>
    rw [ofNumber, ofInt]
    split
    · simp [floats]
    · simpa [floats] using Binary64.is_finite_of_int inRange
  | float x finite => simpa [ofNumber, floats] using finite

theorem finite_of_json {tree : Json} {value : Value} (read : ofJson tree = some value) :
    ∀ x ∈ value.floats, x.isFinite = true := by
  induction tree generalizing value with
  | null => cases read
  | bool b =>
    obtain rfl := Option.some.inj read
    simp [floats]
  | number n =>
    obtain rfl := Option.some.inj read
    exact finite_of_number n
  | str text =>
    obtain rfl := Option.some.inj read
    simp [floats]
  | array items ih =>
    obtain rfl := Option.some.inj read
    intro x held
    obtain ⟨item, member, inside⟩ := mem_items_floats.mp held
    rw [items_of_json_eq, List.filterMap_map] at member
    obtain ⟨part, present, found⟩ := List.mem_filterMap.mp member
    exact ih part present found x inside
  | object members ih =>
    obtain rfl := Option.some.inj read
    intro x held
    obtain ⟨entry, member, inside⟩ := mem_entries_floats.mp held
    rw [present_entries_eq] at member
    obtain ⟨part, present, found⟩ := List.mem_filterMap.mp member
    obtain ⟨inner, same, rfl⟩ := Option.map_eq_some_iff.mp found
    exact ih part (Entries.mem_of_list present) same x inside

theorem of_json_to_json_of_finite {value : Value} (ordered : value.Ordered)
    (finite : ∀ x ∈ value.floats, x.isFinite = true) : ofJson value.toJson = some value := by
  rw [of_json_to_json ordered, kept, not_is_lost finite, pruned_eq_self finite]
  rfl

end Value

namespace Context

def pruned (context : Context) : Context :=
  ⟨Value.prunedEntries context.bindings, Value.ascending_pruned_entries context.ascending⟩

theorem of_list_bindings (context : Context) : ofList context.bindings = context :=
  to_value_inj (congrArg Value.map (Entries.of_list_eq_self context.ascending))

theorem of_datum_eq_ok {datum : Datum} {tree : Json} {context : Context} (written : datum.toJson = .ok tree)
    (read : Value.ofJson tree = some context.toValue) : ofDatum datum = .ok context := by
  rw [ofDatum, written]
  change ofJson tree = _
  rw [ofJson, read]
  exact congrArg Except.ok context.of_list_bindings

theorem pruned_eq_self {context : Context} (finite : ∀ x ∈ context.toValue.floats, x.isFinite = true) :
    context.pruned = context :=
  to_value_inj (Value.pruned_eq_self finite)

theorem finite_pruned (context : Context) : ∀ x ∈ context.pruned.toValue.floats, x.isFinite = true :=
  Value.finite_pruned (show context.toValue.isLost = false from rfl)

theorem pruned_pruned (context : Context) : context.pruned.pruned = context.pruned :=
  pruned_eq_self context.finite_pruned

theorem of_datum_entries {context : Context} (ordered : context.toValue.Ordered) {written : List (String × Value)}
    (perm : written.Perm context.bindings) : ofDatum (.value (.map written)) = .ok context.pruned := by
  cases ordered with
  | map ascending parts =>
    have present := Value.present_entries_entries_to_json perm ascending fun entry member =>
      Value.of_json_to_json (parts entry member)
    apply of_datum_eq_ok rfl
    rw [Value.toJson, Value.ofJson, present]
    rfl

theorem of_datum_lost {value : Value} (ordered : value.Ordered) (lost : value.isLost = true) :
    ofDatum (.value value) = .ok empty := by
  change ofJson value.toJson = _
  rw [ofJson, Value.of_json_to_json ordered, Value.kept, if_pos lost]

theorem of_datum_not_map {value : Value} (ordered : value.Ordered) (present : value.isLost = false)
    (other : ∀ entries, value ≠ .map entries) : ofDatum (.value value) = .error (.notObject value.pruned) := by
  have kept : Value.ofJson value.toJson = some value.pruned := by
    rw [Value.of_json_to_json ordered, Value.kept, if_neg (by simp [present])]
  have unmapped : ∀ entries, value.pruned ≠ .map entries := by
    intro entries
    cases value with
    | map inner => exact absurd rfl (other inner)
    | _ => simp [Value.pruned]
  change ofJson value.toJson = _
  rw [ofJson, kept]
  split
  · next missing => cases missing
  · next entries same => exact absurd (Option.some.inj same) (unmapped entries)
  · next found _ same => rw [Option.some.inj same]

-- Reading what has been written takes away the floats that are not finite, and nothing else.
theorem of_datum_eq_pruned :
    (∀ context : Context, context.toValue.Ordered →
      (∀ written, written.Perm context.bindings → ofDatum (.value (.map written)) = .ok context.pruned) ∧
      ((∀ x ∈ context.toValue.floats, x.isFinite = true) → ofDatum (.value context.toValue) = .ok context) ∧
      ofDatum (.value context.pruned.toValue) = .ok context.pruned) ∧
    (∀ value : Value, value.Ordered →
      (∀ entries, value = .map entries →
        ∃ context, ofDatum (.value value) = .ok context ∧ context.toValue = value.pruned) ∧
      (value.isLost = true → ofDatum (.value value) = .ok empty) ∧
      (value.isLost = false → (∀ entries, value ≠ .map entries) →
        ofDatum (.value value) = .error (.notObject value.pruned))) ∧
    ∀ tree value, Value.ofJson tree = some value → Value.ofJson value.toJson = some value := by
  refine ⟨fun context ordered => ⟨?_, ?_, ?_⟩, fun value ordered => ⟨?_, ?_, ?_⟩, ?_⟩
  · intro written perm
    exact of_datum_entries ordered perm
  · intro finite
    exact (of_datum_entries ordered (.refl _)).trans (congrArg Except.ok (pruned_eq_self finite))
  · have left : context.pruned.toValue.Ordered := Value.ordered_pruned ordered
    exact (of_datum_entries left (.refl _)).trans (congrArg Except.ok context.pruned_pruned)
  · rintro entries rfl
    cases ordered with
    | map ascending parts =>
      have ordered : (Context.mk entries ascending).toValue.Ordered := .map ascending parts
      exact ⟨_, of_datum_entries ordered (.refl _), rfl⟩
  · exact of_datum_lost ordered
  · exact of_datum_not_map ordered
  · intro tree value read
    exact Value.of_json_to_json_of_finite (Value.ordered_of_json read) (Value.finite_of_json read)

theorem of_datum_infinite :
    ofDatum (.value (.map [("b", .float ⟨0x7ff0000000000000⟩),
        ("a", .list [.int 1, .float ⟨0x7ff0000000000000⟩, .map [("n", .float ⟨0x7ff0000000000000⟩)]])])) =
      .ok (ofList [("a", .list [.int 1, .map []])]) ∧
    ofDatum (.value (.float ⟨0x7ff0000000000000⟩)) = .ok empty ∧
    ofDatum (.value (.list [.float ⟨0x7ff0000000000000⟩])) = .error (.notObject (.list [])) := by
  obtain ⟨contexts, values, _⟩ := of_datum_eq_pruned
  have inner : Value.Ordered (.map [("n", .float ⟨0x7ff0000000000000⟩)]) :=
    .map (by simp [Entries.Ascending]) (by simpa using .float _)
  have items : Value.Ordered
      (.list [.int 1, .float ⟨0x7ff0000000000000⟩, .map [("n", .float ⟨0x7ff0000000000000⟩)]]) := by
    refine .list ?_
    simpa using ⟨.int 1, .float _, inner⟩
  have single : Value.Ordered (.list [.float ⟨0x7ff0000000000000⟩]) := .list (by simpa using .float _)
  let context : Context :=
    ⟨[("a", .list [.int 1, .float ⟨0x7ff0000000000000⟩, .map [("n", .float ⟨0x7ff0000000000000⟩)]]),
      ("b", .float ⟨0x7ff0000000000000⟩)], List.pairwise_pair.mpr (by decide)⟩
  have ordered : context.toValue.Ordered := .map context.ascending (by simpa [context] using ⟨items, .float _⟩)
  refine ⟨((contexts context ordered).1 _ (.swap ..)).trans rfl, ?_, ?_⟩
  · exact (values _ (.float _)).2.1 rfl
  · exact (values _ single).2.2 rfl (by simp)

end Context

end Stencil
