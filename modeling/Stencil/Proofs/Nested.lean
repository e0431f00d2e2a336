import Stencil.Value.Json

set_option autoImplicit false

namespace Stencil

namespace Value

@[induction_eliminator]
theorem nested {motive : Value → Prop} (bool : ∀ b, motive (.bool b)) (int : ∀ n, motive (.int n))
    (float : ∀ x, motive (.float x)) (str : ∀ text, motive (.str text))
    (list : ∀ items, (∀ item ∈ items, motive item) → motive (.list items))
    (map : ∀ entries, (∀ entry ∈ entries, motive entry.2) → motive (.map entries)) (value : Value) : motive value :=
  @Value.rec motive (fun items => ∀ item ∈ items, motive item) (fun entries => ∀ entry ∈ entries, motive entry.2)
    (fun entry => motive entry.2) bool int float str list map
    (by simp) (fun _ _ first others => List.forall_mem_cons.mpr ⟨first, others⟩)
    (by simp) (fun _ _ first others => List.forall_mem_cons.mpr ⟨first, others⟩) (fun _ _ inner => inner) value

theorem items_to_json_eq (items : List Value) : itemsToJson items = items.map toJson := by
  induction items with
  | nil => rfl
  | cons item rest ih => rw [itemsToJson, ih, List.map_cons]

theorem entries_to_json_eq (entries : List (String × Value)) :
    entriesToJson entries = entries.map fun entry => (entry.1, entry.2.toJson) := by
  induction entries with
  | nil => rfl
  | cons entry rest ih => rw [entriesToJson, ih, List.map_cons]

theorem items_of_json_eq (items : List Json) : itemsOfJson items = items.map ofJson := by
  induction items with
  | nil => rfl
  | cons item rest ih => rw [itemsOfJson, ih, List.map_cons]

theorem members_of_json_eq (members : List (String × Json)) :
    membersOfJson members = members.map fun member => (member.1, ofJson member.2) := by
  induction members with
  | nil => rfl
  | cons member rest ih => rw [membersOfJson, ih, List.map_cons]

end Value

namespace Json

@[induction_eliminator]
theorem nested {motive : Json → Prop} (null : motive .null) (bool : ∀ b, motive (.bool b))
    (number : ∀ n, motive (.number n)) (str : ∀ text, motive (.str text))
    (array : ∀ items, (∀ item ∈ items, motive item) → motive (.array items))
    (object : ∀ members, (∀ member ∈ members, motive member.2) → motive (.object members)) (tree : Json) :
    motive tree :=
  @Json.rec motive (fun items => ∀ item ∈ items, motive item) (fun members => ∀ member ∈ members, motive member.2)
    (fun member => motive member.2) null bool number str array object
    (by simp) (fun _ _ first others => List.forall_mem_cons.mpr ⟨first, others⟩)
    (by simp) (fun _ _ first others => List.forall_mem_cons.mpr ⟨first, others⟩) (fun _ _ inner => inner) tree

theorem items_have_null_eq (items : List Json) : itemsHaveNull items = items.any hasNull := by
  induction items with
  | nil => rfl
  | cons item rest ih => rw [itemsHaveNull, ih, List.any_cons]

theorem members_have_null_eq (members : List (String × Json)) :
    membersHaveNull members = members.any fun member => member.2.hasNull := by
  induction members with
  | nil => rfl
  | cons member rest ih => rw [membersHaveNull, ih, List.any_cons]

end Json

namespace Entries

variable {β γ : Type}

theorem insert_map (f : β → γ) (key : String) (value : β) (entries : List (String × β)) :
    insert key (f value) (entries.map fun entry => (entry.1, f entry.2)) =
      (insert key value entries).map fun entry => (entry.1, f entry.2) := by
  induction entries with
  | nil => rfl
  | cons entry rest ih =>
    by_cases less : key < entry.1
    · simp [insert, less]
    · by_cases same : key = entry.1 <;> simp [insert, less, same, ih]

theorem insert_all_map (f : β → γ) (entries pairs : List (String × β)) :
    insertAll (entries.map fun entry => (entry.1, f entry.2)) (pairs.map fun pair => (pair.1, f pair.2)) =
      (insertAll entries pairs).map fun entry => (entry.1, f entry.2) := by
  induction pairs generalizing entries with
  | nil => rfl
  | cons pair rest ih =>
    have step := ih (insert pair.1 pair.2 entries)
    rw [← insert_map] at step
    exact step

theorem of_list_map (f : β → γ) (pairs : List (String × β)) :
    ofList (pairs.map fun pair => (pair.1, f pair.2)) = (ofList pairs).map fun entry => (entry.1, f entry.2) :=
  insert_all_map f [] pairs

theorem lookup_map (f : β → γ) (entries : List (String × β)) (key : String) :
    (entries.map fun entry => (entry.1, f entry.2)).lookup key = (entries.lookup key).map f := by
  induction entries with
  | nil => rfl
  | cons entry rest ih =>
    obtain ⟨name, held⟩ := entry
    by_cases same : key = name
    · simp [same]
    · simp [List.lookup_cons, beq_eq_false_iff_ne.mpr same, ih]

theorem mem_insert_all {entries pairs : List (String × β)} {entry : String × β}
    (member : entry ∈ insertAll entries pairs) : entry ∈ entries ∨ entry ∈ pairs := by
  induction pairs generalizing entries with
  | nil => exact .inl member
  | cons pair rest ih =>
    rcases ih member with inserted | later
    · rcases mem_insert inserted with rfl | old
      · exact .inr List.mem_cons_self
      · exact .inl old
    · exact .inr (List.mem_cons_of_mem pair later)

theorem mem_of_list {pairs : List (String × β)} {entry : String × β} (member : entry ∈ ofList pairs) :
    entry ∈ pairs := by
  simpa using mem_insert_all member

theorem insert_perm {key : String} (value : β) {entries : List (String × β)}
    (fresh : ∀ entry ∈ entries, entry.1 ≠ key) : (insert key value entries).Perm ((key, value) :: entries) := by
  induction entries with
  | nil => exact .refl _
  | cons entry rest ih =>
    obtain ⟨first, others⟩ := List.forall_mem_cons.mp fresh
    by_cases less : key < entry.1
    · simp [insert, less]
    · rw [insert, if_neg less, if_neg first.symm]
      exact ((ih others).cons entry).trans (.swap ..)

theorem insert_all_perm {entries pairs : List (String × β)}
    (distinct : (entries ++ pairs).Pairwise fun a b => a.1 ≠ b.1) :
    (insertAll entries pairs).Perm (entries ++ pairs) := by
  induction pairs generalizing entries with
  | nil => rw [List.append_nil]; exact .refl _
  | cons pair rest ih =>
    have fresh : ∀ entry ∈ entries, entry.1 ≠ pair.1 := fun entry member =>
      (List.pairwise_append.mp distinct).2.2 entry member pair List.mem_cons_self
    have inserted := insert_perm pair.2 fresh
    have moved : (insert pair.1 pair.2 entries ++ rest).Perm (entries ++ pair :: rest) :=
      (inserted.append_right rest).trans List.perm_middle.symm
    exact (ih (moved.symm.pairwise distinct fun unequal => unequal.symm)).trans moved

theorem Ascending.distinct {entries : List (String × β)} (ascending : Ascending entries) :
    entries.Pairwise fun a b => a.1 ≠ b.1 :=
  ascending.imp String.ne_of_lt

theorem of_list_perm {pairs : List (String × β)} (distinct : pairs.Pairwise fun a b => a.1 ≠ b.1) :
    (ofList pairs).Perm pairs := by
  have inserted : (insertAll [] pairs).Perm ([] ++ pairs) := insert_all_perm distinct
  exact inserted

theorem of_list_eq_of_perm {pairs entries : List (String × β)} (perm : pairs.Perm entries)
    (ascending : Ascending entries) : ofList pairs = entries := by
  have distinct := perm.symm.pairwise ascending.distinct fun unequal => unequal.symm
  have same : (ofList pairs).Perm entries := (of_list_perm distinct).trans perm
  refine same.eq_of_pairwise (fun a b _ _ less more => ?_) (ascending_of_list pairs) ascending
  exact absurd (String.lt_trans less more) (String.lt_irrefl _)

theorem of_list_eq_self {entries : List (String × β)} (ascending : Ascending entries) : ofList entries = entries :=
  of_list_eq_of_perm (.refl _) ascending

theorem Ascending.mem_iff_lookup {entries : List (String × β)} (ascending : Ascending entries) {key : String}
    {value : β} : (key, value) ∈ entries ↔ entries.lookup key = some value := by
  induction entries with
  | nil => simp
  | cons entry rest ih =>
    obtain ⟨name, held⟩ := entry
    obtain ⟨above, others⟩ := List.pairwise_cons.mp ascending
    by_cases same : key = name
    · subst same
      have fresh : (key, value) ∉ rest := fun member => String.lt_irrefl key (above _ member)
      simp [fresh, eq_comm]
    · simp [same, List.lookup_cons, beq_eq_false_iff_ne.mpr same, ih others]

theorem Ascending.ext {a b : List (String × β)} (first : Ascending a) (second : Ascending b)
    (same : ∀ key, a.lookup key = b.lookup key) : a = b := by
  have nodup {entries : List (String × β)} (ascending : Ascending entries) : entries.Nodup :=
    ascending.distinct.imp fun unequal equal => unequal (congrArg Prod.fst equal)
  have members (entry : String × β) : entry ∈ a ↔ entry ∈ b := by
    rw [first.mem_iff_lookup, same, ← second.mem_iff_lookup]
  rw [← of_list_eq_self first]
  exact of_list_eq_of_perm ((List.perm_ext_iff_of_nodup (nodup first) (nodup second)).mpr members) second

theorem Ascending.filter_map {entries : List (String × β)} (ascending : Ascending entries) (f : β → Option γ) :
    Ascending (entries.filterMap fun entry => (f entry.2).map fun value => (entry.1, value)) := by
  refine List.pairwise_filterMap.mpr (ascending.imp fun less a found b other => ?_)
  obtain ⟨_, _, rfl⟩ := Option.map_eq_some_iff.mp found
  obtain ⟨_, _, rfl⟩ := Option.map_eq_some_iff.mp other
  exact less

theorem lookup_insert (key name : String) (value : β) (entries : List (String × β)) :
    (insert key value entries).lookup name = if name = key then some value else entries.lookup name := by
  by_cases same : name = key
  · subst same
    rw [if_pos rfl, lookup_insert_self]
  · rw [if_neg same, lookup_insert_of_ne same]

theorem lookup_insert_all (entries pairs : List (String × β)) (key : String) :
    (insertAll entries pairs).lookup key = (pairs.reverse.lookup key).or (entries.lookup key) := by
  induction pairs generalizing entries with
  | nil => rfl
  | cons pair rest ih =>
    have step : (insertAll entries (pair :: rest)).lookup key = _ := ih (insert pair.1 pair.2 entries)
    rw [step, lookup_insert, List.reverse_cons, List.lookup_append, List.lookup_cons]
    by_cases same : key = pair.1
    · simp [same]
    · simp [same, beq_eq_false_iff_ne.mpr same]

theorem lookup_of_list (pairs : List (String × β)) (key : String) :
    (ofList pairs).lookup key = pairs.reverse.lookup key := by
  rw [ofList, lookup_insert_all]
  simp

theorem mem_names_iff {entries : List (String × β)} {name : String} :
    name ∈ entries.map Prod.fst ↔ (entries.lookup name).isSome := by
  rw [List.lookup_isSome_iff, List.mem_map]
  exact exists_congr fun entry => and_congr_right fun _ => by rw [beq_iff_eq, eq_comm]

theorem mem_names_of_list {pairs : List (String × β)} {name : String} :
    name ∈ (ofList pairs).map Prod.fst ↔ name ∈ pairs.map Prod.fst := by
  rw [mem_names_iff, lookup_of_list, ← mem_names_iff, List.map_reverse, List.mem_reverse]

theorem lookup_eq_none {entries : List (String × β)} {key : String} (above : ∀ entry ∈ entries, key < entry.1) :
    entries.lookup key = none := by
  refine List.lookup_eq_none_iff.mpr fun entry member => ?_
  exact bne_iff_ne.mpr (String.ne_of_lt (above entry member))

theorem le_of_lookup {name key : String} {value : β} {rest : List (String × β)}
    (ascending : Ascending ((name, value) :: rest)) (present : (((name, value) :: rest).lookup key).isSome) :
    name ≤ key := by
  refine String.not_lt.mp fun less => ?_
  have above : ∀ entry ∈ (name, value) :: rest, key < entry.1 :=
    List.forall_mem_cons.mpr ⟨less, fun _ member => String.lt_trans less (List.rel_of_pairwise_cons ascending member)⟩
  rw [lookup_eq_none above] at present
  cases present

theorem lookup_filter_map {entries : List (String × β)} (ascending : Ascending entries) (f : β → Option γ)
    (key : String) :
    (entries.filterMap fun entry => (f entry.2).map fun value => (entry.1, value)).lookup key =
      (entries.lookup key).bind f := by
  induction entries with
  | nil => rfl
  | cons entry rest ih =>
    obtain ⟨name, held⟩ := entry
    obtain ⟨above, others⟩ := List.pairwise_cons.mp ascending
    by_cases same : key = name
    · subst same
      cases left : f held with
      | some value => simp [left]
      | none =>
        have absent : rest.lookup key = none := lookup_eq_none above
        rw [List.filterMap_cons_none (by simp [left]), ih others, absent]
        simp [left]
    · have different : (key == name) = false := beq_eq_false_iff_ne.mpr same
      cases left : f held <;> simp [List.lookup_cons, different, left, ih others]

end Entries

end Stencil
