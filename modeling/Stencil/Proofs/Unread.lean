import Mathlib.Data.List.Basic
import Stencil.Proofs.Binding
import Stencil.Proofs.Places
import Stencil.Proofs.Weave

set_option autoImplicit false

namespace Stencil

namespace Template

theorem render_congr {template : Template} {a b : Context}
    (same : ∀ token ∈ template.tokens, a.get? token.name = b.get? token.name) :
    template.render a = template.render b := by
  have resolved : ∀ token ∈ template.tokens,
      token.resolve template.config a = token.resolve template.config b := by
    intro token member
    rw [Token.resolve, Token.resolve, same token member]
  rw [render_eq_resolve, render_eq_resolve, Outcome.map_m_congr resolved]

end Template

namespace TypedTemplate

variable {α : Type}

theorem lookup_filter_map_named (f : Field α → Option Value) (fields : List (Field α)) (name : String) :
    (fields.filterMap fun field => (f field).map fun value => (field.name, value)).lookup name =
      fields.findSome? fun field => if field.name = name then f field else none := by
  induction fields with
  | nil => rfl
  | cons field rest ih =>
    cases read : f field with
    | none => simp [read, ih]
    | some value =>
      by_cases same : field.name = name
      · simp [read, same]
      · simp [read, same, List.lookup_cons, beq_eq_false_iff_ne.mpr (Ne.symm same), ih]

theorem get_context_for (typed : TypedTemplate α) (owner : α) (name : String) :
    (typed.contextFor owner).get? name =
      typed.fields.reverse.findSome? fun field => if field.name = name then field.read owner else none := by
  have last : (typed.contextFor owner).get? name = (present typed.fields owner).reverse.lookup name :=
    Entries.lookup_of_list _ _
  rw [last, present, ← List.filterMap_reverse, lookup_filter_map_named]

theorem context_for_congr {typed : TypedTemplate α} {a b : α} {name : String}
    (same : ∀ field ∈ typed.fields, field.name = name → field.read a = field.read b) :
    (typed.contextFor a).get? name = (typed.contextFor b).get? name := by
  have reads : ∀ field ∈ typed.fields.reverse,
      (if field.name = name then field.read a else none) = if field.name = name then field.read b else none := by
    intro field member
    split
    · next named => exact same field (List.mem_reverse.mp member) named
    · rfl
  rw [get_context_for, get_context_for, ← List.head?_filterMap, ← List.head?_filterMap, List.filterMap_congr reads]

theorem render_congr {typed : TypedTemplate α} {a b : α}
    (same : ∀ field ∈ typed.fields, typed.template.hasToken field.name = true → field.read a = field.read b) :
    typed.render a = typed.render b := by
  refine Template.render_congr fun token member => context_for_congr fun field inside named => ?_
  exact same field inside (Template.has_token_iff.mpr ⟨token, member, named.symm⟩)

end TypedTemplate

-- A rendering reads nothing but what the tokens name. What no one can see of an instance is not read, nor what can be
-- seen and is named by no token.
theorem render_reads_tokens :
    (∀ (template : Template) (a b : Context),
      (∀ name ∈ template.tokenNames, a.get? name = b.get? name) → template.render a = template.render b) ∧
    (∀ (α : Type) (typed : TypedTemplate α) (a b : α),
      (∀ field ∈ typed.fields, typed.template.hasToken field.name = true → field.read a = field.read b) →
      typed.render a = typed.render b) ∧
    ∀ (shape : Shape) (record : Record Instance) (template : Template) (typed : TypedTemplate Instance),
      shape.record = .ok record → TypedTemplate.bind template record = .ok typed →
      ∀ a b : Instance,
        (∀ place ∈ shape.places, template.hasToken place.key = true →
          ((a.reach place.through).datum place.field).toValue? =
            ((b.reach place.through).datum place.field).toValue?) →
        typed.render a = typed.render b := by
  refine ⟨fun template a b same => ?_, fun α typed a b same => TypedTemplate.render_congr same, ?_⟩
  · exact Template.render_congr fun token member => same _ (Template.mem_token_names.mpr ⟨token, member, rfl⟩)
  · intro shape record template typed derived bound a b same
    obtain ⟨rfl, fields⟩ := TypedTemplate.eq_of_bind bound
    obtain ⟨all, read, rfl⟩ := Outcome.map_eq_ok.mp derived
    refine TypedTemplate.render_congr fun field member named => ?_
    rw [fields, Shape.fields_eq_ok read] at member
    obtain ⟨place, inside, rfl⟩ := List.mem_map.mp member
    exact same place inside named

def Instance.invoice (unread : String) : Instance :=
  .node [("customer", .text "Ada"), ("notes", .text unread), ("secret", .text unread)]
    [("address", .node [("r#type", .text unread), ("code", .text unread)]
      [("position", .node [("north", .int 60)] [])])]

def Template.invoice : Template :=
  ⟨"\x7bcustomer-name\x7d: \x7bnorth\x7d", {}, ["customer-name", "north"], by decide +kernel, by decide⟩

theorem has_token_invoice (name : String) :
    Template.invoice.hasToken name = true ↔ name ∈ ["customer-name", "north"] := by
  rw [Template.hasToken, Template.invoice, List.contains_iff_mem]

theorem render_reads_tokens_invoice :
    ∃ (record : Record Instance) (typed : TypedTemplate Instance), Shape.invoice.record = .ok record ∧
      TypedTemplate.bind Template.invoice record = .ok typed ∧
      typed.render (Instance.invoice "a") = typed.render (Instance.invoice "b") ∧
      Template.invoice.render (Context.ofList [("north", .int 60), ("secret", .str "a")]) =
        Template.invoice.render (Context.ofList [("north", .int 60)]) ∧
      ∃ pair : TypedTemplate (String × String), pair.template = Template.invoice ∧
        pair.render ("60", "a") = pair.render ("60", "b") := by
  obtain ⟨contexts, owners, shapes⟩ := render_reads_tokens
  obtain ⟨fields, read⟩ : ∃ fields, Shape.invoice.fields = .ok fields := ⟨_, rfl⟩
  have derived : Shape.invoice.record = .ok ⟨"Invoice", fields⟩ := by rw [Shape.record, read]; rfl
  have matched : ∃ field ∈ fields, Template.invoice.hasToken field.name = true := by
    rw [Shape.fields_eq_ok read, Shape.places_invoice]
    exact ⟨_, List.mem_cons_self, (has_token_invoice _).mpr List.mem_cons_self⟩
  have bound : TypedTemplate.bind Template.invoice ⟨"Invoice", fields⟩ = .ok ⟨Template.invoice, fields, matched⟩ :=
    TypedTemplate.bind_of_matched matched
  let first : Field (String × String) := ⟨"north", fun pair => some (.str pair.1)⟩
  let second : Field (String × String) := ⟨"secret", fun pair => some (.str pair.2)⟩
  have north : Template.invoice.hasToken first.name = true := (has_token_invoice _).mpr (by decide)
  refine ⟨_, _, derived, bound, shapes _ _ _ _ derived bound _ _ ?_, contexts Template.invoice _ _ ?_,
    ⟨Template.invoice, [first, second], first, List.mem_cons_self, north⟩, rfl, owners _ _ _ _ ?_⟩
  · rw [Shape.places_invoice]
    simp only [List.forall_mem_cons, has_token_invoice]
    exact ⟨fun _ => rfl, by simp, fun _ => rfl, by simp⟩
  · intro name member
    rcases List.mem_cons.mp ((has_token_invoice name).mp (List.contains_iff_mem.mpr member)) with rfl | other
    · rfl
    · obtain rfl := List.mem_singleton.mp other
      rfl
  · simp only [List.forall_mem_cons, has_token_invoice]
    exact ⟨fun _ => rfl, fun named => absurd named (by decide), by simp⟩

end Stencil
