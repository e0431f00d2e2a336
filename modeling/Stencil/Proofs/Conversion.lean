import Stencil.Proofs.DataType
import Stencil.Proofs.Wide

set_option autoImplicit false

namespace Stencil

open Numeric

inductive DataType.Definite : DataType → Prop where
  | bool : Definite .bool
  | int {least most : Int} (lower : -2 ^ 127 ≤ least) (upper : most < 2 ^ 128) : Definite (.int least most)
  | single : Definite .single
  | double : Definite .double
  | text : Definite .text
  | sequence {part : DataType} (inner : Definite part) : Definite (.sequence part)
  | array {part : DataType} (count : Nat) (inner : Definite part) : Definite (.array count part)
  | map {part : DataType} (inner : Definite part) : Definite (.map part)

namespace Datum

-- The value has a part for each part of the datum and no other. Items keep their order, and entries are put in the
-- order of their names.
inductive Becomes : Datum → Value → Prop where
  | bool (b : Bool) : Becomes (.bool b) (.bool b)
  | int (i : Int64) : Becomes (.int i.toInt) (.int i)
  | rounded {n : Int} {x : Binary64} (broad : ¬(Int64.minValue.toInt ≤ n ∧ n ≤ Int64.maxValue.toInt))
      (closest : x.Closest n) : Becomes (.int n) (.float x)
  | single (bits : UInt32) : Becomes (.single bits) (.float (Binary64.ofBinary32 bits))
  | double (x : Binary64) : Becomes (.float x) (.float x)
  | text (s : String) : Becomes (.text s) (.str s)
  | seq {items : List Datum} {values : List Value} (parts : List.Forall₂ Becomes items values) :
      Becomes (.seq items) (.list values)
  | map {entries : List (Key × Datum)} {pairs bindings : List (String × Value)}
      (names : entries.map Prod.fst = (pairs.map Prod.fst).map .text)
      (parts : List.Forall₂ Becomes (entries.map Prod.snd) (pairs.map Prod.snd))
      (perm : pairs.Perm bindings) (ascending : Entries.Ascending bindings) : Becomes (.map entries) (.map bindings)

theorem becomes_int_iff {n : Int} (wide : Wide n) {value : Value} :
    Becomes (.int n) value ↔ value = Value.ofInt n := by
  by_cases narrow : Int64.minValue.toInt ≤ n ∧ n ≤ Int64.maxValue.toInt
  · rw [Value.of_int_of_narrow narrow]
    constructor
    · intro becomes
      cases becomes with
      | int i => rw [Int64.ofInt_toInt]
      | rounded broad closest => exact absurd narrow broad
    · rintro rfl
      have same := Becomes.int (Int64.ofInt n)
      rwa [Value.to_int_of_narrow narrow] at same
  · rw [Value.of_int_of_broad narrow]
    constructor
    · intro becomes
      cases becomes with
      | int i => exact absurd ⟨Int64.minValue_le_toInt i, Int64.toInt_le i⟩ narrow
      | rounded broad closest => rw [(Value.closest_of_broad wide broad _).mp closest]
    · rintro rfl
      exact .rounded narrow ((Value.closest_of_broad wide narrow _).mpr rfl)

def Settles (d : Datum) (value : Value) : Prop :=
  d.toValue? = some value ∧ d.whole? = some value ∧ ∀ other, d.Becomes other ↔ other = value

theorem forall₂_becomes_cons {item : Datum} {rest : List Datum} {value : Value} {values : List Value}
    (first : ∀ other, item.Becomes other ↔ other = value)
    (later : ∀ others, List.Forall₂ Becomes rest others ↔ others = values) (others : List Value) :
    List.Forall₂ Becomes (item :: rest) others ↔ others = value :: values := by
  simp only [List.forall₂_cons_left_iff, first, later]
  constructor
  · rintro ⟨_, _, rfl, rfl, rfl⟩
    rfl
  · rintro rfl
    exact ⟨_, _, rfl, rfl, rfl⟩

theorem settled_items {items : List Datum} (parts : ∀ item ∈ items, ∃ value, item.Settles value) :
    ∃ values, itemValues items = values.map some ∧ wholeItems? items = some values ∧
      ∀ others, List.Forall₂ Becomes items others ↔ others = values := by
  induction items with
  | nil => exact ⟨[], rfl, rfl, fun others => by simp⟩
  | cons item rest ih =>
    obtain ⟨⟨value, lenient, strict, becomes⟩, later⟩ := List.forall_mem_cons.mp parts
    obtain ⟨values, left, whole, others⟩ := ih later
    refine ⟨value :: values, ?_, ?_, forall₂_becomes_cons becomes others⟩
    · rw [itemValues, lenient, left, List.map_cons]
    · rw [wholeItems?, strict, whole]
      rfl

theorem settled_entries {entries : List (Key × Datum)} (named : ∀ entry ∈ entries, ∃ name, entry.1 = .text name)
    (parts : ∀ entry ∈ entries, ∃ value, entry.2.Settles value) :
    ∃ pairs : List (String × Value), entryValues entries = pairs.map (fun pair => (pair.1, some pair.2)) ∧
      wholeEntries? entries = some pairs ∧ entries.map Prod.fst = (pairs.map Prod.fst).map .text ∧
      ∀ others, List.Forall₂ Becomes (entries.map Prod.snd) others ↔ others = pairs.map Prod.snd := by
  induction entries with
  | nil => exact ⟨[], rfl, rfl, rfl, fun others => by simp⟩
  | cons entry rest ih =>
    obtain ⟨key, item⟩ := entry
    obtain ⟨⟨name, rfl⟩, behind⟩ := List.forall_mem_cons.mp named
    obtain ⟨⟨value, lenient, strict, becomes⟩, later⟩ := List.forall_mem_cons.mp parts
    obtain ⟨pairs, left, whole, names, others⟩ := ih behind later
    refine ⟨(name, value) :: pairs, ?_, ?_, ?_, forall₂_becomes_cons becomes others⟩
    · rw [entryValues, Key.text?, lenient, left, List.map_cons]
    · rw [wholeEntries?, Key.text?, strict, whole]
      rfl
    · rw [List.map_cons, names, List.map_cons, List.map_cons]

theorem settles_seq {items : List Datum} (parts : ∀ item ∈ items, ∃ value, item.Settles value) :
    ∃ value, (Datum.seq items).Settles value := by
  obtain ⟨values, left, whole, becomes⟩ := settled_items parts
  refine ⟨.list values, ?_, ?_, fun other => ?_⟩
  · rw [toValue?, left, List.filterMap_map, Function.id_comp, List.filterMap_some]
  · rw [whole?, whole, Option.map_some]
  · constructor
    · intro mirrored
      cases mirrored with
      | seq inner => rw [(becomes _).mp inner]
    · rintro rfl
      exact .seq ((becomes values).mpr rfl)

theorem settles_map {entries : List (Key × Datum)} (named : ∀ entry ∈ entries, ∃ name, entry.1 = .text name)
    (distinct : entries.Pairwise fun a b => a.1 ≠ b.1)
    (parts : ∀ entry ∈ entries, ∃ value, entry.2.Settles value) : ∃ value, (Datum.map entries).Settles value := by
  obtain ⟨pairs, left, whole, names, becomes⟩ := settled_entries named parts
  have separate : pairs.Pairwise fun a b => a.1 ≠ b.1 := by
    have keys : (entries.map Prod.fst).Pairwise (· ≠ ·) := List.pairwise_map.mpr distinct
    rw [names, List.pairwise_map, List.pairwise_map] at keys
    exact keys.imp fun unequal same => unequal (congrArg Key.text same)
  refine ⟨.map (Entries.ofList pairs), ?_, ?_, fun other => ?_⟩
  · rw [toValue?, left, Value.present_entries_some]
  · rw [whole?, whole, Option.map_some]
  · constructor
    · intro mirrored
      cases mirrored with
      | @map _ others bindings same inner perm ascending =>
        have keys : others.map Prod.fst = pairs.map Prod.fst :=
          List.map_injective_iff.mpr (fun _ _ => Key.text.inj) (same.symm.trans names)
        have listed : others = pairs := (List.zip_of_prod keys ((becomes _).mp inner)).trans
          (List.zip_of_prod rfl rfl).symm
        rw [← Entries.of_list_eq_of_perm (listed ▸ perm) ascending]
    · rintro rfl
      exact .map names ((becomes _).mpr rfl) (Entries.of_list_perm separate).symm (Entries.ascending_of_list pairs)

theorem settles_scalar {d : Datum} {value : Value} (lenient : d.toValue? = some value) (strict : d.whole? = some value)
    (becomes : d.Becomes value) (only : ∀ other, d.Becomes other → other = value) : ∃ value, d.Settles value :=
  ⟨value, lenient, strict, fun other => ⟨only other, fun same => same ▸ becomes⟩⟩

-- The induction is on how the datum has its type, so it goes through every nesting of lists, arrays and maps.
theorem conversions_agree {d : Datum} {type : DataType} (typed : d.HasType type) (definite : type.Definite) :
    ∃ value, d.toValue? = some value ∧ d.whole? = some value ∧ ∀ other, d.Becomes other ↔ other = value := by
  induction typed with
  | bool b => exact settles_scalar rfl rfl (.bool b) fun other becomes => by cases becomes; rfl
  | @int n least most lower upper =>
    cases definite with
    | int first last =>
      have wide : Wide n := ⟨Int.le_trans first lower, Int.lt_of_le_of_lt upper last⟩
      exact ⟨Value.ofInt n, by rw [toValue?], by rw [whole?], fun other => becomes_int_iff wide⟩
  | single bits => exact settles_scalar rfl rfl (.single bits) fun other becomes => by cases becomes; rfl
  | double x => exact settles_scalar rfl rfl (.double x) fun other becomes => by cases becomes; rfl
  | text s => exact settles_scalar rfl rfl (.text s) fun other becomes => by cases becomes; rfl
  | char c => cases definite
  | value ordered => cases definite
  | absent type => cases definite
  | present part => cases definite
  | sequence parts ih =>
    cases definite with
    | sequence inner => exact settles_seq fun item member => ih item member inner
  | array parts ih =>
    cases definite with
    | array count inner => exact settles_seq fun item member => ih item member inner
  | map named distinct parts ih =>
    cases definite with
    | map inner => exact settles_map named distinct fun entry member => ih entry member inner

theorem conversions_agree_nested :
    let d : Datum := .seq [.map [(.text "b", .seq [.int 0x8000000000000400, .int (-1)]),
      (.text "a", .seq [.int 0, .int (-0x80000000000000000000000000000000)])]]
    let value : Value := .list [.map [("a", .list [.int 0, .float ⟨0xc7e0000000000000⟩]),
      ("b", .list [.float ⟨0x43e0000000000000⟩, .int (-1)])]]
    d.toValue? = some value ∧ d.whole? = some value ∧ d.Becomes value := by
  intro d value
  let number : DataType := .int (-2 ^ 127) (2 ^ 127 - 1)
  have pair {n m : Int} (first : -2 ^ 127 ≤ n ∧ n ≤ 2 ^ 127 - 1) (second : -2 ^ 127 ≤ m ∧ m ≤ 2 ^ 127 - 1) :
      HasType (.seq [.int n, .int m]) (.array 2 number) :=
    .array (by simpa using ⟨.int first.1 first.2, .int second.1 second.2⟩)
  have entries : HasType (.map [(.text "b", .seq [.int 0x8000000000000400, .int (-1)]),
      (.text "a", .seq [.int 0, .int (-0x80000000000000000000000000000000)])]) (.map (.array 2 number)) :=
    .map (by simp) (by simp) (by simpa using ⟨pair (by decide) (by decide), pair (by decide) (by decide)⟩)
  have typed : d.HasType (.sequence (.map (.array 2 number))) := .sequence (by simpa using entries)
  have definite : (DataType.sequence (.map (.array 2 number))).Definite :=
    .sequence (.map (.array 2 (.int (by decide) (by decide))))
  obtain ⟨made, lenient, strict, becomes⟩ := conversions_agree typed definite
  have least : Value.ofInt (-0x80000000000000000000000000000000) = .float ⟨0xc7e0000000000000⟩ := by
    rw [Value.of_int_of_broad (by decide)]
    exact congrArg Value.float (by decide +kernel)
  have tie : Value.ofInt 0x8000000000000400 = .float ⟨0x43e0000000000000⟩ := by
    rw [Value.of_int_of_broad (by decide)]
    exact congrArg Value.float (by decide +kernel)
  have whole : d.toValue? = some value := by
    simp only [d, value, toValue?, itemValues, entryValues, Key.text?, least, tie]
    rfl
  obtain rfl : value = made := Option.some.inj (whole.symm.trans lenient)
  exact ⟨lenient, strict, (becomes value).mpr rfl⟩

end Datum

end Stencil
