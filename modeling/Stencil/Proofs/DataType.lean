import Stencil.Proofs.Kinds
import Stencil.Proofs.Pruned

set_option autoImplicit false

namespace Stencil

open Numeric

inductive DataType where
  | bool
  | int (least most : Int)
  | single
  | double
  | char
  | text
  | value
  | option (part : DataType)
  | sequence (part : DataType)
  | array (count : Nat) (part : DataType)
  | map (part : DataType)

namespace Datum

inductive HasType : Datum → DataType → Prop where
  | bool (b : Bool) : HasType (.bool b) .bool
  | int {n least most : Int} (lower : least ≤ n) (upper : n ≤ most) : HasType (.int n) (.int least most)
  | single (bits : UInt32) : HasType (.single bits) .single
  | double (x : Binary64) : HasType (.float x) .double
  | char (c : Char) : HasType (.char c) .char
  | text (s : String) : HasType (.text s) .text
  | value {v : Value} (ordered : v.Ordered) : HasType (.value v) .value
  | absent (type : DataType) : HasType .absent (.option type)
  | present {d : Datum} {type : DataType} (part : HasType d type) : HasType (.present d) (.option type)
  | sequence {items : List Datum} {type : DataType} (parts : ∀ item ∈ items, HasType item type) :
      HasType (.seq items) (.sequence type)
  | array {items : List Datum} {type : DataType} (parts : ∀ item ∈ items, HasType item type) :
      HasType (.seq items) (.array items.length type)
  | map {entries : List (Key × Datum)} {type : DataType} (named : ∀ entry ∈ entries, ∃ name, entry.1 = .text name)
      (distinct : entries.Pairwise fun a b => a.1 ≠ b.1) (parts : ∀ entry ∈ entries, HasType entry.2 type) :
      HasType (.map entries) (.map type)

inductive Representable : Datum → Prop where
  | bool (b : Bool) : Representable (.bool b)
  | int {n : Int} (inRange : Json.InRange n) : Representable (.int n)
  | single {bits : UInt32} (finite : Binary64.finiteBinary32 bits = true) : Representable (.single bits)
  | double {x : Binary64} (finite : x.isFinite = true) : Representable (.float x)
  | char (c : Char) : Representable (.char c)
  | text (s : String) : Representable (.text s)
  | value {v : Value} (finite : ∀ x ∈ v.floats, x.isFinite = true) : Representable (.value v)
  | absent : Representable .absent
  | present {d : Datum} (part : Representable d) : Representable (.present d)
  | seq {items : List Datum} (parts : ∀ item ∈ items, Representable item) : Representable (.seq items)
  | map {entries : List (Key × Datum)} (parts : ∀ entry ∈ entries, Representable entry.2) :
      Representable (.map entries)

-- Nothing at all, or something optional that is present and holds nothing.
inductive Absent : Datum → Prop where
  | absent : Absent .absent
  | present {d : Datum} (part : Absent d) : Absent (.present d)

theorem item_values_eq (items : List Datum) : itemValues items = items.map toValue? := by
  induction items with
  | nil => rfl
  | cons item rest ih => rw [itemValues, ih, List.map_cons]

theorem entry_values_eq (entries : List (Key × Datum)) :
    entryValues entries = entries.filterMap fun entry => entry.1.text?.map fun name => (name, entry.2.toValue?) := by
  induction entries with
  | nil => rfl
  | cons entry rest ih =>
    obtain ⟨key, item⟩ := entry
    cases named : key.text? <;> simp [entryValues, named, ih]

theorem mem_entry_values {entries : List (Key × Datum)} (named : ∀ entry ∈ entries, ∃ name, entry.1 = .text name)
    {name : String} {value? : Option Value} :
    (name, value?) ∈ entryValues entries ↔ ∃ item, (.text name, item) ∈ entries ∧ item.toValue? = value? := by
  rw [entry_values_eq, List.mem_filterMap]
  constructor
  · rintro ⟨⟨key, item⟩, member, found⟩
    obtain ⟨other, rfl⟩ := named _ member
    obtain ⟨rfl, rfl⟩ := Prod.mk.inj (Option.some.inj found)
    exact ⟨item, member, rfl⟩
  · rintro ⟨item, member, rfl⟩
    exact ⟨_, member, rfl⟩

theorem distinct_entry_values {entries : List (Key × Datum)} (named : ∀ entry ∈ entries, ∃ name, entry.1 = .text name)
    (distinct : entries.Pairwise fun a b => a.1 ≠ b.1) :
    (entryValues entries).Pairwise fun a b => a.1 ≠ b.1 := by
  rw [entry_values_eq]
  refine List.pairwise_filterMap.mpr (distinct.imp_of_mem fun left right unequal first found second other => ?_)
  obtain ⟨name, same⟩ := named _ left
  obtain ⟨another, equal⟩ := named _ right
  rw [same] at unequal found
  rw [equal] at unequal other
  obtain rfl := Option.some.inj found
  obtain rfl := Option.some.inj other
  exact fun clash => unequal (congrArg Key.text clash)

theorem items_to_json_eq_ok {items : List Datum}
    (parts : ∀ item ∈ items, ∃ tree, item.toJson = .ok tree ∧ Value.ofJson tree = item.toValue?) :
    ∃ trees, itemsToJson items = .ok trees ∧ Value.itemsOfJson trees = itemValues items := by
  induction items with
  | nil => exact ⟨[], rfl, rfl⟩
  | cons item rest ih =>
    obtain ⟨⟨tree, written, read⟩, others⟩ := List.forall_mem_cons.mp parts
    obtain ⟨trees, later, left⟩ := ih others
    refine ⟨tree :: trees, ?_, ?_⟩
    · rw [itemsToJson, written, later]
      rfl
    · rw [Value.itemsOfJson, itemValues, read, left]

theorem entries_to_json_eq_ok {entries : List (Key × Datum)} (named : ∀ entry ∈ entries, ∃ name, entry.1 = .text name)
    (parts : ∀ entry ∈ entries, ∃ tree, entry.2.toJson = .ok tree ∧ Value.ofJson tree = entry.2.toValue?) :
    ∃ members, entriesToJson entries = .ok members ∧ Value.membersOfJson members = entryValues entries := by
  induction entries with
  | nil => exact ⟨[], rfl, rfl⟩
  | cons entry rest ih =>
    obtain ⟨key, item⟩ := entry
    obtain ⟨⟨name, rfl⟩, behind⟩ := List.forall_mem_cons.mp named
    obtain ⟨⟨tree, written, read⟩, others⟩ := List.forall_mem_cons.mp parts
    obtain ⟨members, later, left⟩ := ih behind others
    refine ⟨(name, tree) :: members, ?_, ?_⟩
    · rw [entriesToJson, Key.text?, written, later]
      rfl
    · rw [Value.membersOfJson, entryValues, Key.text?, read, left]

theorem of_json_of_float_of_finite {x : Binary64} (finite : x.isFinite = true) :
    Value.ofJson (Json.ofFloat x) = some (.float x) := by
  rw [Value.of_json_of_float, Value.kept, Value.isLost, finite]
  rfl

theorem exists_to_json_seq {items : List Datum}
    (parts : ∀ item ∈ items, ∃ tree, item.toJson = .ok tree ∧ Value.ofJson tree = item.toValue?) :
    ∃ tree, (Datum.seq items).toJson = .ok tree ∧ Value.ofJson tree = (Datum.seq items).toValue? := by
  obtain ⟨trees, written, read⟩ := items_to_json_eq_ok parts
  refine ⟨.array trees, ?_, ?_⟩
  · rw [toJson, written]
    rfl
  · rw [Value.ofJson, toValue?, read]

theorem exists_to_json {d : Datum} {type : DataType} (typed : d.HasType type) (representable : d.Representable) :
    ∃ tree, d.toJson = .ok tree ∧ Value.ofJson tree = d.toValue? := by
  induction typed with
  | bool b => exact ⟨_, rfl, rfl⟩
  | int lower upper =>
    cases representable with
    | int inRange =>
      refine ⟨.number (.int _ inRange), ?_, rfl⟩
      rw [toJson, intJson, Json.Number.ofInt?, dif_pos inRange]
  | single bits =>
    cases representable with
    | single finite => exact ⟨_, rfl, of_json_of_float_of_finite ((Binary64.is_finite_of_binary32 bits).trans finite)⟩
  | double x =>
    cases representable with
    | double finite => exact ⟨_, rfl, of_json_of_float_of_finite finite⟩
  | char c => exact ⟨_, rfl, rfl⟩
  | text s => exact ⟨_, rfl, rfl⟩
  | value ordered =>
    cases representable with
    | value finite => exact ⟨_, rfl, Value.of_json_to_json_of_finite ordered finite⟩
  | absent type => exact ⟨_, rfl, rfl⟩
  | present part ih =>
    cases representable with
    | present inner =>
      rw [toJson, toValue?]
      exact ih inner
  | sequence parts ih | array parts ih =>
    cases representable with
    | seq inner => exact exists_to_json_seq fun item member => ih item member (inner item member)
  | map named distinct parts ih =>
    cases representable with
    | map inner =>
      obtain ⟨members, written, read⟩ :=
        entries_to_json_eq_ok named fun entry member => ih entry member (inner entry member)
      refine ⟨.object members, ?_, ?_⟩
      · rw [toJson, written]
        rfl
      · rw [Value.ofJson, toValue?, read]

theorem to_value_eq_none_iff {d : Datum} {type : DataType} (typed : d.HasType type) :
    d.toValue? = none ↔ d.Absent := by
  induction typed with
  | absent type => exact iff_of_true rfl .absent
  | present part ih =>
    rw [toValue?, ih]
    constructor
    · exact .present
    · intro gone
      cases gone with
      | present inner => exact inner
  | _ =>
    refine iff_of_false (by simp [toValue?]) ?_
    intro gone
    cases gone

theorem to_value_seq (items : List Datum) : (Datum.seq items).toValue? = some (.list (items.filterMap toValue?)) := by
  rw [toValue?, item_values_eq, List.filterMap_map, Function.id_comp]

theorem exists_of_datum_map {entries : List (Key × Datum)} {type : DataType} (typed : HasType (.map entries) type)
    {tree : Json} (written : (Datum.map entries).toJson = .ok tree)
    (read : Value.ofJson tree = (Datum.map entries).toValue?) :
    ∃ context : Context, Context.ofDatum (.map entries) = .ok context ∧
      (Datum.map entries).toValue? = some context.toValue ∧
      ∀ name value, (name, value) ∈ context.bindings ↔
        ∃ item, (.text name, item) ∈ entries ∧ item.toValue? = some value := by
  cases typed with
  | map named distinct parts =>
    let context : Context := ⟨_, Value.ascending_present_entries (entryValues entries)⟩
    have whole : (Datum.map entries).toValue? = some context.toValue := by
      rw [toValue?]
      rfl
    refine ⟨context, ?_, whole, fun name value => ?_⟩
    · exact Context.of_datum_eq_ok written (read.trans whole)
    · exact (Value.mem_present_entries (distinct_entry_values named distinct)).trans (mem_entry_values named)

-- Data of a type have JSON forms, and each form is read as what the datum itself is. Nothing else than an optional
-- part is ever left out, at whatever depth, and a list or map from which all parts are left out is still there.
theorem forms_agree {d : Datum} {type : DataType} (typed : d.HasType type) (representable : d.Representable) :
    ∃ tree, d.toJson = .ok tree ∧ Value.ofJson tree = d.toValue? ∧
      (tree = .null ↔ d.Absent) ∧ (d.toValue? = none ↔ d.Absent) ∧
      (∀ items, d = .seq items → d.toValue? = some (.list (items.filterMap toValue?))) ∧
      (∀ entries, d = .map entries → ∃ context : Context, Context.ofDatum d = .ok context ∧
        d.toValue? = some context.toValue ∧ ∀ name value, (name, value) ∈ context.bindings ↔
          ∃ item, (.text name, item) ∈ entries ∧ item.toValue? = some value) ∧
      ∀ n, d = .int n → Int64.maxValue.toInt < n → d.toValue? = some (.float (Binary64.ofInt n)) := by
  obtain ⟨tree, written, read⟩ := exists_to_json typed representable
  have gone := to_value_eq_none_iff typed
  refine ⟨tree, written, read, ?_, gone, ?_, ?_, ?_⟩
  · rw [← gone, ← read, Value.of_json_eq_none_iff]
  · rintro items rfl
    exact to_value_seq items
  · rintro entries rfl
    exact exists_of_datum_map typed written read
  · rintro n rfl above
    rw [toValue?, Value.ofInt, if_neg (by omega)]

theorem forms_agree_nested :
    (∃ tree, (Datum.map [(.text "z", .present (.seq [.present (.int 0xffffffffffffffff), .absent])),
        (.text "a", .absent), (.text "m", .present (.seq [.absent]))]).toJson = .ok tree ∧
      Value.ofJson tree = some (.map [("m", .list []), ("z", .list [.float ⟨0x43f0000000000000⟩])])) ∧
    ∃ tree, (Datum.present (.single 0x3dcccccd)).toJson = .ok tree ∧
      Value.ofJson tree = some (.float ⟨0x3fb99999a0000000⟩) := by
  let type : DataType := .sequence (.option (.int 0 0xffffffffffffffff))
  let full : Datum := .seq [.present (.int 0xffffffffffffffff), .absent]
  let hollow : Datum := .seq [.absent]
  have most : Value.ofInt 0xffffffffffffffff = .float ⟨0x43f0000000000000⟩ := by
    rw [Value.ofInt, if_neg (by decide)]
    exact congrArg Value.float (by decide +kernel)
  constructor
  · have typed : HasType full type := .sequence (by simpa using ⟨.present (.int (by decide) (by decide)), .absent _⟩)
    have empty : HasType hollow type := .sequence (by simpa using .absent _)
    have representable : Representable full := .seq (by simpa using ⟨.present (.int (by decide)), .absent⟩)
    have vacant : Representable hollow := .seq (by simpa using .absent)
    have whole : HasType (.map [(.text "z", .present full), (.text "a", .absent), (.text "m", .present hollow)])
        (.map (.option type)) :=
      .map (by simp) (by simp) (by simpa using ⟨.present typed, .absent _, .present empty⟩)
    obtain ⟨tree, written, read, _⟩ :=
      forms_agree whole (.map (by simpa using ⟨.present representable, .absent, .present vacant⟩))
    refine ⟨tree, written, read.trans ?_⟩
    simp only [full, hollow, toValue?, itemValues, entryValues, Key.text?, most]
    rfl
  · obtain ⟨tree, written, read, _⟩ := forms_agree (.present (.single 0x3dcccccd)) (.present (.single rfl))
    refine ⟨tree, written, read.trans ?_⟩
    exact congrArg (fun x => some (Value.float x)) (by decide +kernel)

end Datum

end Stencil
