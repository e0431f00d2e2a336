import Mathlib.Data.List.Forall2
import Stencil.Proofs.Keys
import Stencil.Proofs.Places

set_option autoImplicit false

namespace Stencil.Declaration

open Outcome (FirstFault first_fault_cons not_first_fault_nil exists_first_fault_iff foldl_m_eq_error_iff bind_eq_error
  bind_eq_ok exists_eq_ok_iff)

inductive Directive.Fault : Directive → DerivationError → Prop where
  | unknown {directive : Directive} (renames : directive.name ≠ "rename") (skips : directive.name ≠ "skip")
      (flattens : directive.name ≠ "flatten") : Fault directive .unknownDirective
  | unargued : Fault ⟨"rename", .none⟩ .missingArgument
  | number (n : Int) : Fault ⟨"rename", .number n⟩ .argumentNotText
  | name {key : String} (refused : ¬ Template.Word key) : Fault ⟨"rename", .text key⟩ .badName
  | argued {name : String} {argument : Argument} (bare : name = "skip" ∨ name = "flatten") (given : argument ≠ .none) :
      Fault ⟨name, argument⟩ .unexpectedArgument

theorem bare_eq_error_iff {argument : Argument} {options : Options} {fault : DerivationError} :
    bare argument options = .error fault ↔ argument ≠ .none ∧ fault = .unexpectedArgument := by
  cases argument <;> simp [bare, eq_comm]

theorem apply_of_fault {options : Options} {directive : Directive} {fault : DerivationError}
    (failed : directive.Fault fault) : apply options directive = .error fault := by
  cases failed with
  | unknown renames skips flattens => rw [apply, if_neg renames, if_neg skips, if_neg flattens]
  | unargued => rfl
  | number n => rfl
  | @name key refused =>
    have unfit : ¬ isKey key = true := mt is_key_iff.mp refused
    simp [apply, unfit]
  | argued bare given => rcases bare with rfl | rfl <;> simp [apply, bare_eq_error_iff, given]

theorem fault_of_apply {options : Options} {directive : Directive} {fault : DerivationError}
    (failed : apply options directive = .error fault) : directive.Fault fault := by
  obtain ⟨name, argument⟩ := directive
  by_cases rename : name = "rename"
  · subst rename
    cases argument with
    | none =>
      obtain rfl := Except.error.inj failed
      exact .unargued
    | number n =>
      obtain rfl := Except.error.inj failed
      exact .number n
    | text key =>
      by_cases accepted : isKey key = true
      · simp [apply, accepted] at failed
      · simp only [apply, if_true, if_neg accepted] at failed
        obtain rfl := Except.error.inj failed
        exact .name (mt is_key_iff.mpr accepted)
  · by_cases skip : name = "skip"
    · rw [apply, if_neg rename, if_pos skip, bare_eq_error_iff] at failed
      obtain ⟨given, rfl⟩ := failed
      exact .argued (.inl skip) given
    · by_cases flatten : name = "flatten"
      · rw [apply, if_neg rename, if_neg skip, if_pos flatten, bare_eq_error_iff] at failed
        obtain ⟨given, rfl⟩ := failed
        exact .argued (.inr flatten) given
      · rw [apply, if_neg rename, if_neg skip, if_neg flatten] at failed
        obtain rfl := Except.error.inj failed
        exact .unknown rename skip flatten

theorem options_eq_error_iff {member : Member} {fault : DerivationError} :
    options member.attributes = .error fault ↔ FirstFault Directive.Fault member.asked fault := by
  rw [options, directives_eq]
  refine foldl_m_eq_error_iff fun state item fault => ?_
  exact ⟨fault_of_apply, apply_of_fault⟩

theorem is_some_renaming_of_sound {directive : Directive} (sound : ∀ fault, ¬ directive.Fault fault) :
    directive.renaming?.isSome = (directive.name == "rename") := by
  obtain ⟨name, argument⟩ := directive
  by_cases rename : name = "rename"
  · subst rename
    cases argument with
    | none => exact absurd .unargued (sound _)
    | number n => exact absurd (.number n) (sound _)
    | text key => rfl
  · cases argument <;> simp [Directive.renaming?, rename]

theorem is_some_key_of_sound {member : Member} {last : Options} (applied : options member.attributes = .ok last)
    (sound : ∀ directive ∈ member.asked, ∀ fault, ¬ directive.Fault fault) :
    last.key?.isSome = member.asks "rename" := by
  have named : ∀ directive ∈ member.asked, directive.renaming? = none ↔ ¬ (directive.name == "rename") = true := by
    intro directive inside
    rw [← is_some_renaming_of_sound (sound directive inside), Option.not_isSome_iff_eq_none]
  rw [(options_eq_ok applied).1, Bool.eq_iff_iff, List.getLast?_isSome, Ne, List.filterMap_eq_nil_iff, Member.asks,
    List.any_eq_true, ← not_iff_not, not_not]
  simp only [not_exists, not_and]
  exact forall₂_congr named

inductive Member.Fault (member : Member) : DerivationError → Prop where
  | directive {fault : DerivationError} (visible : member.visibility = .everyone)
      (first : FirstFault Directive.Fault member.asked fault) : Fault member fault
  | conflict (visible : member.visibility = .everyone)
      (sound : ∀ directive ∈ member.asked, ∀ fault, ¬ directive.Fault fault) (kept : member.asks "skip" = false)
      (flattens : member.asks "flatten" = true) (renames : member.asks "rename" = true) : Fault member .renamedFlatten

theorem exists_options_iff {member : Member} :
    (∃ last, options member.attributes = .ok last) ↔ ∀ directive ∈ member.asked, ∀ fault, ¬ directive.Fault fault := by
  rw [exists_eq_ok_iff, ← not_iff_not]
  simp only [Ne, options_eq_error_iff, not_forall, not_not, exists_first_fault_iff, exists_prop]

theorem reading_of_fault {member : Member} {fault : DerivationError} (failed : member.Fault fault) :
    reading? member = .error fault := by
  cases failed with
  | directive visible first =>
    simp only [reading?, visible]
    exact bind_eq_error.mpr (.inl (options_eq_error_iff.mpr first))
  | conflict visible sound kept flattens renames =>
    obtain ⟨last, applied⟩ := exists_options_iff.mpr sound
    obtain ⟨_, skip, flatten⟩ := options_eq_ok applied
    have named := is_some_key_of_sound applied sound
    simp only [reading?, visible]
    refine bind_eq_error.mpr (.inr ⟨last, applied, ?_⟩)
    rw [skip, kept, flatten, flattens, named, renames]
    rfl

theorem fault_of_reading {member : Member} {fault : DerivationError} (failed : reading? member = .error fault) :
    member.Fault fault := by
  cases visible : member.visibility with
  | restricted =>
    simp only [reading?, visible] at failed
    cases failed
  | everyone =>
    simp only [reading?, visible] at failed
    rcases bind_eq_error.mp failed with first | ⟨last, applied, refused⟩
    · exact .directive visible (options_eq_error_iff.mp first)
    · have sound := exists_options_iff.mp ⟨last, applied⟩
      obtain ⟨_, skip, flatten⟩ := options_eq_ok applied
      rw [skip, flatten, is_some_key_of_sound applied sound] at refused
      by_cases skips : member.asks "skip" = true
      · rw [if_pos skips] at refused
        cases refused
      · rw [if_neg skips] at refused
        by_cases flattens : member.asks "flatten" = true
        · rw [if_pos flattens] at refused
          by_cases renames : member.asks "rename" = true
          · rw [if_pos renames] at refused
            obtain rfl := Except.error.inj refused
            exact .conflict visible sound (Bool.eq_false_iff.mpr skips) flattens renames
          · rw [if_neg renames] at refused
            cases refused
        · rw [if_neg flattens] at refused
          cases refused

theorem readings_of_eq_error_iff {members : List Member} {fault : DerivationError} :
    readingsOf members = .error fault ↔ FirstFault Member.Fault members fault := by
  induction members with
  | nil => simp [readingsOf, not_first_fault_nil]
  | cons member rest ih =>
    have each {other : DerivationError} : reading? member = .error other ↔ member.Fault other :=
      ⟨fault_of_reading, reading_of_fault⟩
    have sound : (∀ other, ¬ member.Fault other) ↔ ∃ found, reading? member = .ok found := by
      simp only [exists_eq_ok_iff, Ne, each]
    rw [readingsOf, bind_eq_error, each, first_fault_cons, sound]
    simp [bind_eq_error, ih, pure, Except.pure]

-- The only cause that lies in no member is that there are no members to read.
inductive Rejected (members : List Member) : Kind → DerivationError → Prop where
  | enumeration : Rejected members .enumeration .notARecord
  | union : Rejected members .union .notARecord
  | member {fault : DerivationError} (first : FirstFault Member.Fault members fault) : Rejected members .named fault

theorem derive_eq_error_iff {declaration : Declaration} {fault : DerivationError} :
    declaration.derive = .error fault ↔ declaration.readings = .error fault := by
  rw [derive, bind_eq_error]
  simp [pure, Except.pure]

section Item

variable {name : String} {parameters : List (Listed Parameter)} {kind : Kind} {members others : List Member}

theorem derive_of_members_eq_error_iff {fault : DerivationError} :
    (Declaration.mk name parameters (.ofMembers kind members)).derive = .error fault ↔ Rejected members kind fault := by
  rw [derive_eq_error_iff]
  constructor
  · intro failed
    cases kind with
    | named => exact .member (readings_of_eq_error_iff.mp failed)
    | positional => cases failed
    | unit => cases failed
    | enumeration =>
      obtain rfl := Except.error.inj failed
      exact .enumeration
    | union =>
      obtain rfl := Except.error.inj failed
      exact .union
  · intro rejected
    cases rejected with
    | enumeration => rfl
    | union => rfl
    | member first => exact readings_of_eq_error_iff.mpr first

theorem exists_fault_iff {member : Member} :
    (∃ fault, member.Fault fault) ↔ member.visibility = .everyone ∧
      ((∃ directive ∈ member.asked, ∃ fault, directive.Fault fault) ∨
        member.asks "skip" = false ∧ member.asks "flatten" = true ∧ member.asks "rename" = true) := by
  constructor
  · rintro ⟨fault, failed⟩
    cases failed with
    | directive visible first => exact ⟨visible, .inl (exists_first_fault_iff.mp ⟨fault, first⟩)⟩
    | conflict visible sound kept flattens renames => exact ⟨visible, .inr ⟨kept, flattens, renames⟩⟩
  · rintro ⟨visible, bad⟩
    by_cases sound : ∃ directive ∈ member.asked, ∃ fault, directive.Fault fault
    · obtain ⟨fault, first⟩ := exists_first_fault_iff.mpr sound
      exact ⟨fault, .directive visible first⟩
    · obtain ⟨kept, flattens, renames⟩ := bad.resolve_left sound
      refine ⟨_, .conflict visible (fun directive inside fault failed => ?_) kept flattens renames⟩
      exact sound ⟨directive, inside, fault, failed⟩

theorem exists_rejected_iff :
    (∃ fault, Rejected members kind fault) ↔
      kind = .enumeration ∨ kind = .union ∨ kind = .named ∧ ∃ member ∈ members, ∃ fault, member.Fault fault := by
  constructor
  · rintro ⟨fault, rejected⟩
    cases rejected with
    | enumeration => exact .inl rfl
    | union => exact .inr (.inl rfl)
    | member first => exact .inr (.inr ⟨rfl, exists_first_fault_iff.mp ⟨fault, first⟩⟩)
  · rintro (rfl | rfl | ⟨rfl, bad⟩)
    · exact ⟨_, .enumeration⟩
    · exact ⟨_, .union⟩
    · obtain ⟨fault, first⟩ := exists_first_fault_iff.mpr bad
      exact ⟨fault, .member first⟩

structure Member.Alike (a b : Member) : Prop where
  visibility : a.visibility = b.visibility
  name : a.name = b.name
  type : a.type = b.type
  asked : a.visibility = .everyone → a.asked = b.asked

theorem Member.Alike.reading_eq {a b : Member} (alike : a.Alike b) :
    Declaration.reading? a = Declaration.reading? b := by
  unfold Declaration.reading?
  rw [← alike.visibility, alike.name, alike.type]
  cases visible : a.visibility with
  | restricted => rfl
  | everyone =>
    have same : options a.attributes = options b.attributes := by
      rw [options, options, directives_eq, directives_eq, alike.asked visible]
    rw [same]

theorem readings_of_congr (alike : List.Forall₂ Member.Alike members others) :
    readingsOf members = readingsOf others := by
  induction alike with
  | nil => rfl
  | cons first _ ih => rw [readingsOf, readingsOf, first.reading_eq, ih]

theorem derive_congr (alike : List.Forall₂ Member.Alike members others) :
    (Declaration.mk name parameters (.ofMembers kind members)).derive =
      (Declaration.mk name parameters (.ofMembers kind others)).derive := by
  cases kind with
  | named =>
    have same : readings ⟨name, parameters, .ofMembers .named members⟩ =
        readings ⟨name, parameters, .ofMembers .named others⟩ := readings_of_congr alike
    rw [derive, derive, same]
    rfl
  | positional => rfl
  | unit => rfl
  | enumeration => rfl
  | union => rfl

end Item

theorem Member.alike_gathered (member : Member) :
    member.Alike { member with attributes := [⟨"record", member.asked⟩] } where
  visibility := rfl
  name := rfl
  type := rfl
  asked _ := by simp [Member.asked]

theorem Member.alike_of_restricted {member : Member} (hidden : member.visibility = .restricted)
    (attributes : List Attribute) : member.Alike { member with attributes := attributes } where
  visibility := rfl
  name := rfl
  type := rfl
  asked visible := by simp [hidden] at visible

-- An item is refused if it is no record, or for the first fault of its first member with a fault. It does not matter
-- what stands at members that are not looked at, nor in how many attributes the directives of the others stand.
theorem derivation_refused :
    (∀ (name : String) (parameters : List (Listed Parameter)) (kind : Kind) (members : List Member),
      (∀ fault, (Declaration.mk name parameters (.ofMembers kind members)).derive = .error fault ↔
        Rejected members kind fault) ∧
      ((∃ fault, (Declaration.mk name parameters (.ofMembers kind members)).derive = .error fault) ↔
        kind = .enumeration ∨ kind = .union ∨ kind = .named ∧ ∃ member ∈ members, member.visibility = .everyone ∧
          ((∃ directive ∈ member.asked, ∃ fault, directive.Fault fault) ∨
            member.asks "skip" = false ∧ member.asks "flatten" = true ∧ member.asks "rename" = true)) ∧
      (∀ derivation, (Declaration.mk name parameters (.ofMembers kind members)).derive = .ok derivation →
        derivation.readings =
          (Declaration.mk name parameters (.ofMembers kind members)).members.filterMap Member.reading?) ∧
      ∀ others, kind = .positional ∨ kind = .unit ∨ List.Forall₂ Member.Alike members others →
        (Declaration.mk name parameters (.ofMembers kind members)).derive =
          (Declaration.mk name parameters (.ofMembers kind others)).derive) ∧
    ∀ member : Member, member.Alike { member with attributes := [⟨"record", member.asked⟩] } ∧
      ∀ attributes, member.visibility = .restricted → member.Alike { member with attributes := attributes } := by
  refine ⟨fun name parameters kind members => ⟨?_, ?_, ?_, ?_⟩, fun member => ⟨member.alike_gathered, ?_⟩⟩
  · exact fun fault => derive_of_members_eq_error_iff
  · simp only [derive_of_members_eq_error_iff, exists_rejected_iff, exists_fault_iff]
  · intro derivation derived
    obtain ⟨readings, read, last⟩ := bind_eq_ok.mp derived
    obtain rfl := Except.ok.inj last
    exact readings_eq_ok read
  · rintro others (rfl | rfl | alike)
    · rfl
    · rfl
    · exact derive_congr alike
  · exact fun attributes hidden => Member.alike_of_restricted hidden attributes

theorem derivation_refused_late :
    let hidden : Member := ⟨.restricted, "a", "A", [⟨"record", [⟨"size", .number 5⟩]⟩]⟩
    let skipped : Member :=
      ⟨.everyone, "b", "B", [⟨"serde", [⟨"size", .none⟩]⟩, ⟨"record", [⟨"flatten", .none⟩, ⟨"rename", .text "c"⟩]⟩,
        ⟨"record", [⟨"skip", .none⟩]⟩]⟩
    let renamed : Member :=
      ⟨.everyone, "d", "D", [⟨"record", [⟨"rename", .text "e"⟩]⟩, ⟨"record", [⟨"rename", .text "f"⟩]⟩]⟩
    let contradictory : Member :=
      ⟨.everyone, "g", "G", [⟨"record", [⟨"flatten", .none⟩, ⟨"rename", .text "h"⟩]⟩,
        ⟨"record", [⟨"rename", .text "i j"⟩]⟩]⟩
    let unknown : Member := ⟨.everyone, "k", "K", [⟨"record", [⟨"size", .none⟩]⟩]⟩
    (Declaration.mk "R" [] (.ofMembers .named [hidden, skipped, contradictory, unknown])).derive = .error .badName ∧
      (∃ derivation, (Declaration.mk "R" [] (.ofMembers .named [hidden, skipped, renamed])).derive = .ok derivation ∧
        derivation.readings = [.leaf "f" "d" "D"]) ∧
      (Declaration.mk "R" [] (.ofMembers .named [hidden, skipped])).derive =
        (Declaration.mk "R" [] (.ofMembers .named [{ hidden with attributes := [] },
          { skipped with attributes := [⟨"record", skipped.asked⟩] }])).derive ∧
      (Declaration.mk "R" [] (.ofMembers .positional [contradictory])).derive =
        (Declaration.mk "R" [] (.ofMembers .positional [])).derive := by
  intro hidden skipped renamed contradictory unknown
  obtain ⟨items, members⟩ := derivation_refused
  obtain ⟨refused, _, _, _⟩ := items "R" [] .named [hidden, skipped, contradictory, unknown]
  obtain ⟨_, _, read, _⟩ := items "R" [] .named [hidden, skipped, renamed]
  obtain ⟨_, _, _, same⟩ := items "R" [] .named [hidden, skipped]
  obtain ⟨_, _, _, unnamed⟩ := items "R" [] .positional [contradictory]
  have sound {member : Member} {found : Option Reading} (fine : reading? member = .ok found) (fault : DerivationError) :
      ¬ member.Fault fault := by
    intro failed
    cases fine.symm.trans (reading_of_fault failed)
  have free {directive : Directive} {next : Options} (fine : apply {} directive = .ok next) (fault : DerivationError) :
      ¬ directive.Fault fault := by
    intro failed
    cases fine.symm.trans (apply_of_fault failed)
  refine ⟨(refused _).mpr (.member ⟨[hidden, skipped], contradictory, [unknown], rfl, ?_, .directive rfl ?_⟩), ?_, ?_,
    ?_⟩
  · simp only [List.forall_mem_cons]
    exact ⟨sound rfl, sound (show reading? skipped = .ok none by decide +kernel), by simp⟩
  · refine ⟨[⟨"flatten", .none⟩, ⟨"rename", .text "h"⟩], ⟨"rename", .text "i j"⟩, [], rfl, ?_, .name ?_⟩
    · simp only [List.forall_mem_cons]
      exact ⟨free rfl, free (show apply {} ⟨"rename", .text "h"⟩ = .ok { key? := some "h" } by decide +kernel), by simp⟩
    · rw [← is_key_iff]
      decide +kernel
  · obtain ⟨derivation, derived⟩ : ∃ derivation,
        (Declaration.mk "R" [] (.ofMembers .named [hidden, skipped, renamed])).derive = .ok derivation := ⟨_, rfl⟩
    refine ⟨derivation, derived, (read derivation derived).trans ?_⟩
    decide +kernel
  · exact same _ (.inr (.inr (.cons ((members hidden).2 [] rfl) (.cons (members skipped).1 .nil))))
  · exact unnamed [] (.inl rfl)

end Stencil.Declaration
