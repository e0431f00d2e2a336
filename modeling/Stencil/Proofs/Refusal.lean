import Stencil.Proofs.Nested
import Stencil.Proofs.Outcome
import Stencil.Proofs.Weave
import Stencil.Record.Typed

set_option autoImplicit false

namespace Stencil

open Numeric
open Outcome (map_eq_error map_m_eq_error_iff)

namespace Value

inductive HoldsNumber : Value → Prop where
  | int (n : Int64) : HoldsNumber (.int n)
  | float (x : Binary64) : HoldsNumber (.float x)
  | item {items : List Value} {item : Value} (member : item ∈ items) (inner : HoldsNumber item) :
      HoldsNumber (.list items)
  | entry {entries : List (String × Value)} {entry : String × Value} (member : entry ∈ entries)
      (inner : HoldsNumber entry.2) : HoldsNumber (.map entries)

theorem holds_number_list {items : List Value} : HoldsNumber (.list items) ↔ ∃ item ∈ items, item.HoldsNumber := by
  constructor
  · intro holds
    cases holds with
    | item member inner => exact ⟨_, member, inner⟩
  · rintro ⟨item, member, inner⟩
    exact .item member inner

theorem holds_number_map {entries : List (String × Value)} :
    HoldsNumber (.map entries) ↔ ∃ entry ∈ entries, entry.2.HoldsNumber := by
  constructor
  · intro holds
    cases holds with
    | entry member inner => exact ⟨_, member, inner⟩
  · rintro ⟨entry, member, inner⟩
    exact .entry member inner

theorem render_items_eq (config : Config) (items : List Value) :
    renderItems config items = items.mapM (render config) := by
  induction items with
  | nil => rfl
  | cons item rest ih => rw [renderItems, ih, List.mapM_cons]

theorem render_entries_eq (config : Config) (entries : List (String × Value)) :
    renderEntries config entries =
      entries.mapM fun entry => (render config entry.2).map fun text => entry.1 ++ "=" ++ text := by
  induction entries with
  | nil => rfl
  | cons entry rest ih =>
    rw [renderEntries, ih, List.mapM_cons]
    cases render config entry.2 <;> rfl

theorem int_text_eq_error_iff {format : NumberFormat} {n : Int64} {fault : RenderError} :
    format.intText n = .error fault ↔ fault = .notImplemented .percent ∧ format = .percent := by
  cases format <;> simp [NumberFormat.intText, eq_comm]

theorem float_text_eq_error_iff {format : NumberFormat} {x : Binary64} {fault : RenderError} :
    format.floatText x = .error fault ↔ fault = .notImplemented .percent ∧ format = .percent := by
  cases format with
  | plain => simp [NumberFormat.floatText]
  | round =>
    simp only [NumberFormat.floatText]
    split
    · simp
    · split <;> simp
  | cents => simp [NumberFormat.floatText]
  | percent => simp [NumberFormat.floatText, eq_comm]

theorem render_eq_error_iff {config : Config} {value : Value} {fault : RenderError} :
    value.render config = .error fault ↔
      fault = .notImplemented .percent ∧ config.numberFormat = .percent ∧ value.HoldsNumber := by
  induction value generalizing fault with
  | bool b =>
    have plain : ¬ (Value.bool b).HoldsNumber := by rintro ⟨⟩
    simp [render, plain]
  | int n => simp [render, int_text_eq_error_iff, HoldsNumber.int n]
  | float x => simp [render, float_text_eq_error_iff, HoldsNumber.float x]
  | str text =>
    have plain : ¬ (Value.str text).HoldsNumber := by rintro ⟨⟩
    simp [render, plain]
  | list items ih =>
    rw [render, map_eq_error, render_items_eq, map_m_eq_error_iff fun item member fault => ih item member,
      holds_number_list]
    simp only [and_left_comm, exists_and_left]
  | map entries ih =>
    rw [render, map_eq_error, render_entries_eq,
      map_m_eq_error_iff fun entry member fault => map_eq_error.trans (ih entry member), holds_number_map]
    simp only [and_left_comm, exists_and_left]

end Value

theorem Token.resolve_eq_error_iff {config : Config} {context : Context} {token : Token} {fault : RenderError} :
    token.resolve config context = .error fault ↔
      fault = .notImplemented .percent ∧ config.numberFormat = .percent ∧
        ∃ value, context.get? token.name = some value ∧ value.HoldsNumber := by
  unfold Token.resolve
  cases found : context.get? token.name with
  | none => simp
  | some value => simp [Value.render_eq_error_iff]

namespace Template

def Refuses (template : Template) (context : Context) : Prop :=
  template.config.numberFormat = .percent ∧
    ∃ token ∈ template.tokens, ∃ value, context.get? token.name = some value ∧ value.HoldsNumber

theorem render_eq_error_iff {template : Template} {context : Context} {fault : RenderError} :
    template.render context = .error fault ↔ fault = .notImplemented .percent ∧ template.Refuses context := by
  rw [render_eq_resolve, map_eq_error,
    map_m_eq_error_iff fun token _ fault => Token.resolve_eq_error_iff]
  simp only [Refuses, and_left_comm, exists_and_left]

theorem exists_render_iff {template : Template} {context : Context} :
    (∃ text, template.render context = .ok text) ↔ ¬ template.Refuses context := by
  cases rendered : template.render context with
  | ok text =>
    have sound : ¬ template.Refuses context := fun refuses => by
      cases rendered.symm.trans (render_eq_error_iff.mpr ⟨rfl, refuses⟩)
    simp [sound]
  | error fault => simp [(render_eq_error_iff.mp rendered).2]

-- A rendering fails in one situation and with one fault, and gives a text in all others.
theorem render_fails_iff_refuses :
    (∀ (template : Template) (context : Context),
      (∀ fault, template.render context = .error fault ↔
        fault = .notImplemented .percent ∧ template.Refuses context) ∧
      ((∃ text, template.render context = .ok text) ↔ ¬ template.Refuses context)) ∧
    ∀ (α : Type) (typed : TypedTemplate α) (owner : α),
      (∀ fault, typed.render owner = .error fault ↔
        fault = .notImplemented .percent ∧ typed.template.Refuses (typed.contextFor owner)) ∧
      ((∃ text, typed.render owner = .ok text) ↔ ¬ typed.template.Refuses (typed.contextFor owner)) :=
  ⟨fun _ _ => ⟨fun _ => render_eq_error_iff, exists_render_iff⟩,
    fun _ _ _ => ⟨fun _ => render_eq_error_iff, exists_render_iff⟩⟩

end Template

end Stencil
