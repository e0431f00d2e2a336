import Stencil.Proofs.Nested
import Stencil.Proofs.Outcome
import Stencil.Record.Shape

set_option autoImplicit false

namespace Stencil

open Outcome (bind_eq_ok)

namespace Declaration

def Directive.renaming? (directive : Directive) : Option String :=
  match directive.argument with
  | .text key => if directive.name = "rename" then some key else none
  | _ => none

def unmarked (name : String) : String :=
  if ['r', '#'].isPrefixOf name.toList then String.ofList (name.toList.drop 2) else name

namespace Member

def asked (member : Member) : List Directive :=
  member.attributes.flatMap fun group => if group.name = "record" then group.directives else []

def asks (member : Member) (name : String) : Bool := member.asked.any fun directive => directive.name == name

def isReadable (member : Member) : Bool := member.visibility == .everyone && !member.asks "skip"

def key (member : Member) : String :=
  (member.asked.filterMap Directive.renaming?).getLast?.getD (unmarked member.name)

def reading? (member : Member) : Option Reading :=
  if !member.isReadable then none
  else if member.asks "flatten" then some (.embedded member.name member.type)
  else some (.leaf member.key member.name member.type)

end Member

def members (declaration : Declaration) : List Member :=
  match declaration.body with
  | .named members => members
  | _ => []

theorem spoken_name_eq (name : String) : spokenName name = unmarked name := by
  unfold spokenName unmarked
  split
  · next rest raw => simp [raw]
  · next plain =>
    rw [if_neg]
    intro raw
    obtain ⟨rest, whole⟩ := List.isPrefixOf_iff_prefix.mp raw
    exact plain rest whole.symm

theorem directives_eq (member : Member) : directives member.attributes = member.asked := by
  unfold directives Member.asked
  induction member.attributes with
  | nil => rfl
  | cons group rest ih =>
    by_cases named : group.name = "record" <;> simp [named, ih]

theorem bare_eq_ok {argument : Argument} {options next : Options} (allowed : bare argument options = .ok next) :
    next = options := by
  cases argument with
  | none => exact (Except.ok.inj allowed).symm
  | text key => cases allowed
  | number n => cases allowed

theorem apply_eq_ok {options next : Options} {directive : Directive} (applied : apply options directive = .ok next) :
    next.key? = directive.renaming?.or options.key? ∧ next.skip = (options.skip || directive.name == "skip") ∧
      next.flatten = (options.flatten || directive.name == "flatten") := by
  obtain ⟨name, argument⟩ := directive
  by_cases rename : name = "rename"
  · subst rename
    cases argument with
    | none => cases applied
    | number n => cases applied
    | text key =>
      simp only [apply, if_true] at applied
      split at applied
      · obtain rfl := Except.ok.inj applied
        simp [Directive.renaming?]
      · cases applied
  · have unnamed : Directive.renaming? ⟨name, argument⟩ = none := by
      cases argument <;> simp [Directive.renaming?, rename]
    by_cases skip : name = "skip"
    · simp only [apply, if_neg rename, if_pos skip] at applied
      obtain rfl := bare_eq_ok applied
      rw [unnamed]
      simp [skip]
    · by_cases flatten : name = "flatten"
      · simp only [apply, if_neg rename, if_neg skip, if_pos flatten] at applied
        obtain rfl := bare_eq_ok applied
        rw [unnamed]
        simp [flatten]
      · simp only [apply, if_neg rename, if_neg skip, if_neg flatten] at applied
        cases applied

theorem foldl_m_apply_eq_ok {options last : Options} {asked : List Directive}
    (applied : asked.foldlM apply options = .ok last) :
    last.key? = (asked.filterMap Directive.renaming?).getLast?.or options.key? ∧
      last.skip = (options.skip || asked.any fun directive => directive.name == "skip") ∧
      last.flatten = (options.flatten || asked.any fun directive => directive.name == "flatten") := by
  induction asked generalizing options with
  | nil =>
    obtain rfl := Except.ok.inj applied
    simp
  | cons directive rest ih =>
    rw [List.foldlM_cons] at applied
    obtain ⟨next, first, later⟩ := bind_eq_ok.mp applied
    obtain ⟨keyed, skipped, flattened⟩ := apply_eq_ok first
    obtain ⟨named, left, embedded⟩ := ih later
    refine ⟨?_, ?_, ?_⟩
    · rw [named, keyed, List.filterMap_cons]
      cases directive.renaming? with
      | none => rfl
      | some key =>
        simp only [List.getLast?_cons]
        cases (rest.filterMap Directive.renaming?).getLast? <;> rfl
    · rw [left, skipped, List.any_cons, Bool.or_assoc]
    · rw [embedded, flattened, List.any_cons, Bool.or_assoc]

theorem options_eq_ok {member : Member} {last : Options} (applied : options member.attributes = .ok last) :
    last.key? = (member.asked.filterMap Directive.renaming?).getLast? ∧ last.skip = member.asks "skip" ∧
      last.flatten = member.asks "flatten" := by
  rw [options, directives_eq] at applied
  simpa [Member.asks] using foldl_m_apply_eq_ok applied

theorem reading_eq_ok {member : Member} {found : Option Reading} (derived : reading? member = .ok found) :
    found = member.reading? := by
  unfold reading? at derived
  cases shown : member.visibility with
  | restricted =>
    simp only [shown] at derived
    simp [Member.reading?, Member.isReadable, shown, ← Except.ok.inj derived]
  | everyone =>
    simp only [shown] at derived
    obtain ⟨options, applied, decided⟩ := bind_eq_ok.mp derived
    obtain ⟨keyed, skipped, flattened⟩ := options_eq_ok applied
    rw [spoken_name_eq, keyed, skipped, flattened] at decided
    unfold Member.reading? Member.isReadable Member.key
    simp only [shown]
    cases skip : member.asks "skip" with
    | true => simpa [skip, pure, Except.pure, eq_comm] using decided
    | false =>
      cases flatten : member.asks "flatten" with
      | false => simpa [skip, flatten, pure, Except.pure, eq_comm] using decided
      | true =>
        cases named : (member.asked.filterMap Directive.renaming?).getLast? with
        | some key => simp [skip, flatten, named, throw, throwThe, MonadExceptOf.throw] at decided
        | none => simpa [skip, flatten, named, pure, Except.pure, eq_comm] using decided

theorem readings_of_eq_ok {members : List Member} {readings : List Reading}
    (derived : readingsOf members = .ok readings) : readings = members.filterMap Member.reading? := by
  induction members generalizing readings with
  | nil => exact (Except.ok.inj derived).symm
  | cons member rest ih =>
    rw [readingsOf] at derived
    obtain ⟨first, here, derived⟩ := bind_eq_ok.mp derived
    obtain ⟨others, later, derived⟩ := bind_eq_ok.mp derived
    obtain rfl := Except.ok.inj derived
    rw [reading_eq_ok here, ih later, List.filterMap_cons]
    cases member.reading? <;> rfl

theorem readings_eq_ok {declaration : Declaration} {readings : List Reading}
    (derived : declaration.readings = .ok readings) : readings = declaration.members.filterMap Member.reading? := by
  unfold Declaration.readings at derived
  unfold members
  split at derived
  · next named => rw [named]; exact readings_of_eq_ok derived
  · next unnamed => rw [unnamed]; exact (Except.ok.inj derived).symm
  · next unnamed => rw [unnamed]; exact (Except.ok.inj derived).symm
  · cases derived

end Declaration

def Instance.reach (owner : Instance) (through : List String) : Instance :=
  through.foldl (fun holder name => holder.part name) owner

structure Place where
  key : String
  through : List String
  field : String
deriving DecidableEq, Repr

namespace Place

def under (name : String) (place : Place) : Place := { place with through := name :: place.through }

def read (place : Place) (owner : Instance) : Option Value :=
  ((owner.reach place.through).datum place.field).toValue?

def asField (place : Place) : Field Instance := ⟨place.key, place.read⟩

theorem as_field_under (name : String) (place : Place) :
    (place.under name).asField = place.asField.project (Instance.part name) := rfl

end Place

namespace Shape

@[induction_eliminator]
theorem nested {motive : Shape → Prop}
    (declared : ∀ declaration parts, (∀ part ∈ parts, motive part.2) → motive (.declared declaration parts))
    (shape : Shape) : motive shape :=
  @Shape.rec motive (fun parts => ∀ part ∈ parts, motive part.2) (fun part => motive part.2) declared
    (by simp) (fun _ _ first others => List.forall_mem_cons.mpr ⟨first, others⟩) (fun _ _ inner => inner) shape

def fieldsOfMember (known : List (String × List (Field Instance))) (member : Declaration.Member) :
    List (Field Instance) :=
  if !member.isReadable then []
  else if member.asks "flatten" then
    ((known.lookup member.name).getD []).map fun field => field.project (Instance.part member.name)
  else [Field.ofDatum member.key (Instance.datum member.name)]

def placesOfMember (known : List (String × List Place)) (member : Declaration.Member) : List Place :=
  if !member.isReadable then []
  else if member.asks "flatten" then ((known.lookup member.name).getD []).map (Place.under member.name)
  else [⟨member.key, [], member.name⟩]

mutual

def places : Shape → List Place
  | .declared declaration parts => declaration.members.flatMap (placesOfMember (partPlaces parts))

def partPlaces : List (String × Shape) → List (String × List Place)
  | [] => []
  | (name, shape) :: rest => (name, places shape) :: partPlaces rest

end

theorem flat_map_fields_of_reading (known : List (String × List (Field Instance)))
    (members : List Declaration.Member) :
    (members.filterMap Declaration.Member.reading?).flatMap (fieldsOfReading known) =
      members.flatMap (fieldsOfMember known) := by
  induction members with
  | nil => rfl
  | cons member rest ih =>
    have single : member.reading?.toList.flatMap (fieldsOfReading known) = fieldsOfMember known member := by
      unfold Declaration.Member.reading? fieldsOfMember
      split
      · rfl
      · split <;> exact List.append_nil _
    rw [List.flatMap_cons, ← single, ← ih, ← List.flatMap_append]
    cases found : member.reading? <;> simp [found]

theorem fields_of_member_places (known : List (String × List Place)) (member : Declaration.Member) :
    fieldsOfMember (known.map fun part => (part.1, part.2.map Place.asField)) member =
      (placesOfMember known member).map Place.asField := by
  unfold fieldsOfMember placesOfMember
  split
  · rfl
  · split
    · rw [Entries.lookup_map]
      cases known.lookup member.name with
      | none => rfl
      | some inner => simp [Place.as_field_under, Function.comp_def]
    · rfl

theorem fields_declared_eq_ok {declaration : Declaration} {parts : List (String × Shape)}
    {fields : List (Field Instance)} (derived : Shape.fields (.declared declaration parts) = .ok fields) :
    ∃ known, partFields parts = .ok known ∧ fields = declaration.members.flatMap (fieldsOfMember known) := by
  rw [Shape.fields] at derived
  obtain ⟨readings, read, derived⟩ := bind_eq_ok.mp derived
  obtain ⟨known, held, derived⟩ := bind_eq_ok.mp derived
  obtain rfl := Except.ok.inj derived
  rw [Declaration.readings_eq_ok read, flat_map_fields_of_reading]
  exact ⟨known, held, rfl⟩

theorem lookup_part_fields {parts : List (String × Shape)} {known : List (String × List (Field Instance))}
    (derived : partFields parts = .ok known) {name : String} {part : Shape} (held : parts.lookup name = some part) :
    ∃ embedded, part.fields = .ok embedded ∧ known.lookup name = some embedded := by
  induction parts generalizing known with
  | nil => cases held
  | cons head rest ih =>
    obtain ⟨other, shape⟩ := head
    rw [partFields] at derived
    obtain ⟨fields, here, derived⟩ := bind_eq_ok.mp derived
    obtain ⟨later, there, derived⟩ := bind_eq_ok.mp derived
    obtain rfl := Except.ok.inj derived
    by_cases same : name = other
    · subst same
      rw [List.lookup_cons_self] at held ⊢
      obtain rfl := Option.some.inj held
      exact ⟨fields, here, rfl⟩
    · have different : (name == other) = false := beq_eq_false_iff_ne.mpr same
      rw [List.lookup_cons, different] at held ⊢
      exact ih there held

theorem part_fields_eq_ok {parts : List (String × Shape)} {known : List (String × List (Field Instance))}
    (derived : partFields parts = .ok known)
    (each : ∀ part ∈ parts, ∀ fields, part.2.fields = .ok fields → fields = part.2.places.map Place.asField) :
    known = (partPlaces parts).map fun part => (part.1, part.2.map Place.asField) := by
  induction parts generalizing known with
  | nil => exact (Except.ok.inj derived).symm
  | cons part rest ih =>
    obtain ⟨first, others⟩ := List.forall_mem_cons.mp each
    rw [partFields] at derived
    obtain ⟨fields, here, derived⟩ := bind_eq_ok.mp derived
    obtain ⟨later, there, derived⟩ := bind_eq_ok.mp derived
    obtain rfl := Except.ok.inj derived
    rw [first fields here, ih there others]
    rfl

theorem fields_eq_ok {shape : Shape} {fields : List (Field Instance)} (derived : shape.fields = .ok fields) :
    fields = shape.places.map Place.asField := by
  induction shape generalizing fields with
  | declared declaration parts ih =>
    obtain ⟨known, held, rfl⟩ := fields_declared_eq_ok derived
    rw [part_fields_eq_ok held fun part member _ => ih part member, places, List.map_flatMap]
    exact congrArg (fun added => declaration.members.flatMap added)
      (funext (fields_of_member_places (partPlaces parts)))

-- A shape has the fields that its visible members add one after the other, a flattened one those of its own type, and
-- each of them reads what is found at the end of the path on which it came about.
theorem fields_read_places :
    (∀ (declaration : Declaration) (parts : List (String × Shape)) (fields : List (Field Instance)),
      Shape.fields (.declared declaration parts) = .ok fields →
      ∃ known : List (String × List (Field Instance)),
        (∀ name part, parts.lookup name = some part →
          ∃ embedded, part.fields = .ok embedded ∧ known.lookup name = some embedded) ∧
        fields = declaration.members.flatMap (fieldsOfMember known)) ∧
    (∀ (shape : Shape) (fields : List (Field Instance)), shape.fields = .ok fields →
      fields = shape.places.map fun place =>
        ⟨place.key, fun owner => ((owner.reach place.through).datum place.field).toValue?⟩) ∧
    ∀ declaration : Declaration, declaration.body = .positional ∨ declaration.body = .unit →
      Shape.fields (.declared declaration []) = .ok [] := by
  refine ⟨fun declaration parts fields derived => ?_, fun shape fields derived => fields_eq_ok derived, ?_⟩
  · obtain ⟨known, held, same⟩ := fields_declared_eq_ok derived
    exact ⟨known, fun name part => lookup_part_fields held, same⟩
  · rintro ⟨name, parameters, body⟩ (rfl | rfl) <;> rfl

def address : Shape :=
  .declared
    ⟨"Address", [], .named [
      ⟨.everyone, "r#type", "String", []⟩,
      ⟨.restricted, "code", "String", []⟩,
      ⟨.everyone, "position", "Position", [⟨"record", [⟨"flatten", .none⟩]⟩]⟩]⟩
    [("position", .declared ⟨"Position", [], .named [⟨.everyone, "north", "f64", []⟩]⟩ [])]

def invoice : Shape :=
  .declared
    ⟨"Invoice", [], .named [
      ⟨.everyone, "customer", "String", [⟨"record", [⟨"rename", .text "customer-name"⟩]⟩]⟩,
      ⟨.everyone, "address", "Address", [⟨"record", [⟨"flatten", .none⟩]⟩]⟩,
      ⟨.everyone, "notes", "String", [⟨"serde", [⟨"flatten", .none⟩]⟩, ⟨"record", [⟨"skip", .none⟩]⟩]⟩,
      ⟨.restricted, "secret", "String", []⟩]⟩
    [("address", address)]

theorem places_invoice :
    invoice.places =
      [⟨"customer-name", [], "customer"⟩, ⟨"type", ["address"], "r#type"⟩,
        ⟨"north", ["address", "position"], "north"⟩] := by
  decide

theorem fields_read_places_invoice :
    ∃ fields embedded, invoice.fields = .ok fields ∧ address.fields = .ok embedded ∧
      fields = Field.ofDatum "customer-name" (Instance.datum "customer") ::
        embedded.map (fun field => field.project (Instance.part "address")) ∧
      fields.map Field.name = ["customer-name", "type", "north"] ∧
      (∀ owner, (fields.map fun field => field.read owner) =
        [(owner.datum "customer").toValue?, ((owner.part "address").datum "r#type").toValue?,
          (((owner.part "address").part "position").datum "north").toValue?]) ∧
      Shape.fields (.declared ⟨"Marker", [], .unit⟩ []) = .ok [] := by
  obtain ⟨concatenated, run, none⟩ := fields_read_places
  obtain ⟨fields, derived⟩ : ∃ fields, invoice.fields = .ok fields := ⟨_, rfl⟩
  obtain ⟨known, held, whole⟩ := concatenated _ _ fields derived
  obtain ⟨embedded, inner, found⟩ := held "address" address rfl
  refine ⟨fields, embedded, derived, inner, ?_, ?_, fun owner => ?_, none _ (.inr rfl)⟩
  · have flattened : fieldsOfMember known ⟨.everyone, "address", "Address", [⟨"record", [⟨"flatten", .none⟩]⟩]⟩ =
        embedded.map fun field => field.project (Instance.part "address") := by
      rw [fieldsOfMember, if_neg (by decide), if_pos (by decide), found]
      rfl
    rw [whole, ← flattened]
    exact congrArg _ (List.append_nil _)
  · rw [run invoice fields derived, places_invoice]
    rfl
  · rw [run invoice fields derived, places_invoice]
    rfl

end Shape

end Stencil
