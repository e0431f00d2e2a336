import Mathlib.Data.List.Forall2
import Mathlib.Data.Option.Basic
import Stencil.Proofs.Integral

set_option autoImplicit false

namespace Stencil

open Numeric

namespace Numeric.Binary64

inductive Equal : Binary64 → Binary64 → Prop where
  | finite {x y : Binary64} (first : x.isFinite = true) (second : y.isFinite = true) (same : x.value = y.value) :
      Equal x y
  | infinite {x : Binary64} (beyond : x.magnitude = infinityMagnitude) : Equal x x

theorem is_zero_iff {x : Binary64} : x.isZero = true ↔ x.value = 0 := by
  refine ⟨value_of_is_zero, fun zero => ?_⟩
  have ratio := x.abs_value
  rw [zero, abs_zero, eq_comm, div_eq_zero_iff, or_iff_left x.den_ne_zero, Nat.cast_eq_zero] at ratio
  by_contra nonzero
  exact num_ne_zero (magnitude_ne_zero (Bool.eq_false_iff.mpr nonzero)) ratio

theorem is_finite_of_is_zero {x : Binary64} (zero : x.isZero = true) : x.isFinite = true :=
  is_finite_of_whole (is_whole_of_is_zero zero)

theorem Equal.eq_or_is_zero {x y : Binary64} (equal : x.Equal y) : x = y ∨ x.isZero = true ∧ y.isZero = true := by
  cases equal with
  | finite first second same =>
    by_cases zero : x.value = 0
    · exact .inr ⟨is_zero_iff.mpr zero, is_zero_iff.mpr (same ▸ zero)⟩
    · have sign : x.isNegative = y.isNegative := by rw [is_negative_eq zero, is_negative_eq (same ▸ zero), same]
      exact .inl (eq_of_value first second sign same)
  | infinite beyond => exact .inl rfl

theorem Equal.is_na_n_eq_false {x y : Binary64} (equal : x.Equal y) : x.isNaN = false ∧ y.isNaN = false := by
  have bounded {x : Binary64} (most : x.magnitude ≤ infinityMagnitude) : x.isNaN = false :=
    decide_eq_false (Nat.not_lt.mpr most)
  cases equal with
  | finite first second same =>
    exact ⟨bounded (Nat.le_of_lt (of_decide_eq_true first)), bounded (Nat.le_of_lt (of_decide_eq_true second))⟩
  | infinite beyond => exact ⟨bounded (Nat.le_of_eq beyond), bounded (Nat.le_of_eq beyond)⟩

theorem equal_self {x : Binary64} (number : x.isNaN = false) : x.Equal x := by
  by_cases bounded : x.isFinite = true
  · exact .finite bounded bounded rfl
  · have least := Nat.not_lt.mp (mt decide_eq_true bounded)
    have most := Nat.not_lt.mp (of_decide_eq_false number)
    exact .infinite (Nat.le_antisymm most least)

theorem numeric_eq_iff {x y : Binary64} : x.numericEq y = true ↔ x.Equal y := by
  simp only [numericEq, Bool.and_eq_true, Bool.or_eq_true, Bool.not_eq_true', beq_iff_eq]
  constructor
  · rintro ⟨⟨number, _⟩, rfl | ⟨first, second⟩⟩
    · exact equal_self number
    · refine .finite (is_finite_of_is_zero first) (is_finite_of_is_zero second) ?_
      rw [is_zero_iff.mp first, is_zero_iff.mp second]
  · exact fun equal => ⟨equal.is_na_n_eq_false, equal.eq_or_is_zero⟩

theorem rounded_text_of_equal {decimal? : Binary64 → Option Decimal96} {x y : Binary64} (first : RetainsAt 2 decimal? x)
    (second : RetainsAt 2 decimal? y) (equal : x.Equal y) : x.roundedText decimal? 2 = y.roundedText decimal? 2 := by
  obtain rfl | ⟨zero, other⟩ := equal.eq_or_is_zero
  · rfl
  · have none : ((0 : Int) : ℚ) = 0 := Int.cast_zero
    rw [rounded_text_of_value first (is_finite_of_is_zero zero) ((is_zero_iff.mp zero).trans none.symm),
      rounded_text_of_value second (is_finite_of_is_zero other) ((is_zero_iff.mp other).trans none.symm)]

end Numeric.Binary64

theorem float_text_of_is_zero {format : NumberFormat} (policy : format ≠ .plain) {x : Binary64}
    (zero : x.isZero = true) : format.floatText x = format.intText 0 := by
  have value : x.value = (0 : Int64).toInt := Binary64.value_of_is_zero zero
  exact float_text_of_value (Binary64.is_finite_of_is_zero zero) value (by decide) fun plain => absurd plain policy

theorem float_text_of_equal {format : NumberFormat} (policy : format ≠ .plain) {x y : Binary64} (equal : x.Equal y) :
    format.floatText x = format.floatText y := by
  obtain rfl | ⟨first, second⟩ := equal.eq_or_is_zero
  · rfl
  · rw [float_text_of_is_zero policy first, float_text_of_is_zero policy second]

namespace Value

inductive Same : Value → Value → Prop where
  | bool (b : Bool) : Same (.bool b) (.bool b)
  | int (n : Int64) : Same (.int n) (.int n)
  | float {x y : Binary64} (equal : x.Equal y) : Same (.float x) (.float y)
  | str (text : String) : Same (.str text) (.str text)
  | list {a b : List Value} (items : List.Forall₂ Same a b) : Same (.list a) (.list b)
  | map {a b : List (String × Value)} (names : a.map Prod.fst = b.map Prod.fst)
      (held : List.Forall₂ Same (a.map Prod.snd) (b.map Prod.snd)) : Same (.map a) (.map b)

theorem same_bool_iff {p q : Bool} : Same (.bool p) (.bool q) ↔ p = q := by
  constructor
  · intro same
    cases same
    rfl
  · rintro rfl
    exact .bool p

theorem same_int_iff {n m : Int64} : Same (.int n) (.int m) ↔ n = m := by
  constructor
  · intro same
    cases same
    rfl
  · rintro rfl
    exact .int n

theorem same_float_iff {x y : Binary64} : Same (.float x) (.float y) ↔ x.Equal y := by
  refine ⟨fun same => ?_, .float⟩
  cases same with
  | float equal => exact equal

theorem same_str_iff {text other : String} : Same (.str text) (.str other) ↔ text = other := by
  constructor
  · intro same
    cases same
    rfl
  · rintro rfl
    exact .str text

theorem same_list_iff {a b : List Value} : Same (.list a) (.list b) ↔ List.Forall₂ Same a b := by
  refine ⟨fun same => ?_, .list⟩
  cases same with
  | list items => exact items

theorem same_map_iff {a b : List (String × Value)} :
    Same (.map a) (.map b) ↔ a.map Prod.fst = b.map Prod.fst ∧
      List.Forall₂ Same (a.map Prod.snd) (b.map Prod.snd) := by
  refine ⟨fun same => ?_, fun alike => .map alike.1 alike.2⟩
  cases same with
  | map names held => exact ⟨names, held⟩

theorem items_eq_iff {a b : List Value} : itemsEq a b = true ↔ List.Forall₂ (fun x y => dataEq x y = true) a b := by
  induction a generalizing b with
  | nil => cases b <;> simp [itemsEq]
  | cons x a ih => cases b <;> simp [itemsEq, ih]

theorem entries_eq_iff {a b : List (String × Value)} :
    entriesEq a b = true ↔ a.map Prod.fst = b.map Prod.fst ∧
      List.Forall₂ (fun x y => dataEq x y = true) (a.map Prod.snd) (b.map Prod.snd) := by
  induction a generalizing b with
  | nil => cases b <;> simp [entriesEq]
  | cons x a ih =>
    cases b with
    | nil => simp [entriesEq]
    | cons y b =>
      simp only [entriesEq, Bool.and_eq_true, beq_iff_eq, ih, List.map_cons, List.cons.injEq, List.forall₂_cons]
      tauto

theorem forall₂_data_eq_iff {a b : List Value}
    (each : ∀ x ∈ a, ∀ y, dataEq x y = true ↔ Same x y) :
    List.Forall₂ (fun x y => dataEq x y = true) a b ↔ List.Forall₂ Same a b := by
  induction a generalizing b with
  | nil => simp
  | cons x a ih =>
    obtain ⟨first, others⟩ := List.forall_mem_cons.mp each
    cases b <;> simp [first, ih others]

theorem data_eq_iff {a b : Value} : dataEq a b = true ↔ Same a b := by
  induction a generalizing b with
  | bool p =>
    cases b with
    | bool q => exact beq_iff_eq.trans same_bool_iff.symm
    | _ => exact ⟨nofun, nofun⟩
  | int n =>
    cases b with
    | int m => exact beq_iff_eq.trans same_int_iff.symm
    | _ => exact ⟨nofun, nofun⟩
  | float x =>
    cases b with
    | float y => exact Binary64.numeric_eq_iff.trans same_float_iff.symm
    | _ => exact ⟨nofun, nofun⟩
  | str text =>
    cases b with
    | str other => exact beq_iff_eq.trans same_str_iff.symm
    | _ => exact ⟨nofun, nofun⟩
  | list items ih =>
    cases b with
    | list others =>
      have each := forall₂_data_eq_iff (b := others) fun item inside other => ih item inside
      exact (items_eq_iff.trans each).trans same_list_iff.symm
    | _ => exact ⟨nofun, nofun⟩
  | map entries ih =>
    cases b with
    | map others =>
      have held : ∀ x ∈ entries.map Prod.snd, ∀ y, dataEq x y = true ↔ Same x y :=
        List.forall_mem_map.mpr fun entry member y => ih entry member
      have each := forall₂_data_eq_iff (b := others.map Prod.snd) held
      exact (entries_eq_iff.trans (and_congr_right' each)).trans same_map_iff.symm
    | _ => exact ⟨nofun, nofun⟩

theorem render_items_congr {config : Config} {a b : List Value}
    (each : ∀ x ∈ a, ∀ y, Same x y → x.render config = y.render config) (same : List.Forall₂ Same a b) :
    renderItems config a = renderItems config b := by
  induction same with
  | nil => rfl
  | cons first _ ih =>
    obtain ⟨here, others⟩ := List.forall_mem_cons.mp each
    rw [renderItems, renderItems, here _ first, ih others]

theorem render_entries_eq_zip_with (config : Config) (entries : List (String × Value)) :
    renderEntries config entries = (renderItems config (entries.map Prod.snd)).map
      (List.zipWith (fun key text => key ++ "=" ++ text) (entries.map Prod.fst)) := by
  induction entries with
  | nil => rfl
  | cons entry rest ih =>
    obtain ⟨key, value⟩ := entry
    simp only [renderEntries, ih, List.map_cons, renderItems]
    cases render config value with
    | error fault => rfl
    | ok text => cases renderItems config (rest.map Prod.snd) <;> rfl

theorem render_of_same {config : Config} (policy : config.numberFormat ≠ .plain) {a b : Value} (same : Same a b) :
    a.render config = b.render config := by
  induction a generalizing b with
  | bool p => cases same with | bool => rfl
  | int n => cases same with | int => rfl
  | float x => cases same with | float equal => exact float_text_of_equal policy equal
  | str text => cases same with | str => rfl
  | list items ih =>
    cases same with
    | list alike => rw [render, render, render_items_congr (fun x inside _ same => ih x inside same) alike]
  | map entries ih =>
    cases same with
    | map names alike =>
      have held : ∀ x ∈ entries.map Prod.snd, ∀ y, Same x y → x.render config = y.render config :=
        List.forall_mem_map.mpr fun entry member _ same => ih entry member same
      rw [render, render, render_entries_eq_zip_with, render_entries_eq_zip_with, names, render_items_congr held alike]

theorem rel_lookup {a b : List (String × Value)} (names : a.map Prod.fst = b.map Prod.fst)
    (held : List.Forall₂ Same (a.map Prod.snd) (b.map Prod.snd)) (key : String) :
    Option.Rel Same (a.lookup key) (b.lookup key) := by
  induction a generalizing b with
  | nil =>
    obtain rfl := List.map_eq_nil_iff.mp names.symm
    exact .none
  | cons x a ih =>
    cases b with
    | nil => cases names
    | cons y b =>
      obtain ⟨name, value⟩ := x
      obtain ⟨other, against⟩ := y
      obtain ⟨rfl, others⟩ := List.cons.inj names
      obtain ⟨here, rest⟩ := List.forall₂_cons.mp held
      by_cases same : key = name
      · subst same
        simpa using here
      · simpa [List.lookup_cons, beq_eq_false_iff_ne.mpr same] using ih others rest

theorem is_some_of_rel {p q : Option Value} (same : Option.Rel Same p q) : p.isSome = q.isSome := by
  cases same <;> rfl

theorem names_of_rel_lookup {a b : List (String × Value)} (first : Entries.Ascending a) (second : Entries.Ascending b)
    (same : ∀ key, Option.Rel Same (a.lookup key) (b.lookup key)) :
    a.map Prod.fst = b.map Prod.fst ∧ List.Forall₂ Same (a.map Prod.snd) (b.map Prod.snd) := by
  induction a generalizing b with
  | nil =>
    cases b with
    | nil => exact ⟨rfl, .nil⟩
    | cons y b => simpa using is_some_of_rel (same y.1)
  | cons x a ih =>
    cases b with
    | nil => simpa using is_some_of_rel (same x.1)
    | cons y b =>
      obtain ⟨name, value⟩ := x
      obtain ⟨other, against⟩ := y
      have before : other ≤ name := Entries.le_of_lookup second (by simp [← is_some_of_rel (same name)])
      have after : name ≤ other := Entries.le_of_lookup first (by simp [is_some_of_rel (same other)])
      obtain rfl := String.le_antisymm before after
      obtain ⟨above, rest⟩ := List.pairwise_cons.mp first
      obtain ⟨beyond, others⟩ := List.pairwise_cons.mp second
      have tails : ∀ key, Option.Rel Same (a.lookup key) (b.lookup key) := by
        intro key
        by_cases here : key = other
        · rw [here, Entries.lookup_eq_none above, Entries.lookup_eq_none beyond]
          exact .none
        · simpa [List.lookup_cons, beq_eq_false_iff_ne.mpr here] using same key
      obtain ⟨names, held⟩ := ih rest others tails
      have head : Same value against := by simpa using same other
      exact ⟨congrArg (List.cons other) names, .cons head held⟩

end Value

namespace Context

theorem data_eq_eq_to_value (a b : Context) : a.dataEq b = a.toValue.dataEq b.toValue := rfl

theorem data_eq_iff {a b : Context} : a.dataEq b = true ↔ ∀ key, Option.Rel Value.Same (a.get? key) (b.get? key) := by
  rw [data_eq_eq_to_value, Value.data_eq_iff, toValue, toValue, Value.same_map_iff]
  exact ⟨fun same => Value.rel_lookup same.1 same.2, Value.names_of_rel_lookup a.ascending b.ascending⟩

end Context

theorem Token.resolve_of_data_eq {config : Config} (policy : config.numberFormat ≠ .plain) {a b : Context}
    (equal : a.dataEq b = true) (token : Token) : token.resolve config a = token.resolve config b := by
  have held := Context.data_eq_iff.mp equal token.name
  unfold Token.resolve
  generalize a.get? token.name = first at held
  generalize b.get? token.name = second at held
  cases held with
  | some same => exact Value.render_of_same policy same
  | none => rfl

namespace Template

-- Which data are equal, and that their renderings give one text or fail alike. In the last part the decimals may come
-- from elsewhere.
theorem render_data_eq :
    (∀ a b : Value, a.dataEq b = true ↔ a.Same b) ∧
    (∀ a b : Context, a.dataEq b = true ↔ ∀ key, Option.Rel Value.Same (a.get? key) (b.get? key)) ∧
    (∀ template : Template, template.config.numberFormat ≠ .plain →
      ∀ a b : Context, a.dataEq b = true → template.render a = template.render b) ∧
    ∀ (decimal? : Binary64 → Option Decimal96) (x y : Binary64), RetainsAt 2 decimal? x → RetainsAt 2 decimal? y →
      x.Equal y → x.roundedText decimal? 2 = y.roundedText decimal? 2 := by
  refine ⟨fun a b => Value.data_eq_iff, fun a b => Context.data_eq_iff, ?_, ?_⟩
  · intro template policy a b equal
    have resolved : ∀ token ∈ template.tokens,
        token.resolve template.config a = token.resolve template.config b :=
      fun token _ => token.resolve_of_data_eq policy equal
    rw [render_eq_resolve, render_eq_resolve, Outcome.map_m_congr resolved]
  · exact fun decimal? x y first second equal => Binary64.rounded_text_of_equal first second equal

def cents : Template := ⟨"\x7bsum\x7d", { numberFormat := .cents }, ["sum"], by decide +kernel, by decide⟩

theorem render_data_eq_zero :
    let held (x : Binary64) : Context := Context.ofList [("sum", .list [.int 1, .map [("rest", .float x)]])]
    (held ⟨0⟩).dataEq (held ⟨0x8000000000000000⟩) = true ∧
    cents.render (held ⟨0⟩) = cents.render (held ⟨0x8000000000000000⟩) ∧
    (Binary64.mk 0).roundedText Decimal96.ofBinary? 2 =
      (Binary64.mk 0x8000000000000000).roundedText Decimal96.ofBinary? 2 := by
  obtain ⟨_, _, contexts, numbers⟩ := render_data_eq
  intro held
  have alike : (held ⟨0⟩).dataEq (held ⟨0x8000000000000000⟩) = true := by decide +kernel
  have retains {x : Binary64} (finite : x.isFinite = true) : RetainsAt 2 Decimal96.ofBinary? x :=
    (Decimal96.retains_of_binary (Nat.le_refl 2)).retains_at finite
  have equal : (Binary64.mk 0).Equal ⟨0x8000000000000000⟩ := Binary64.numeric_eq_iff.mp (by decide +kernel)
  exact ⟨alike, contexts cents (by decide) _ _ alike, numbers _ _ _ (retains (by decide)) (retains (by decide)) equal⟩

example : (Value.float ⟨0⟩).render {} ≠ (Value.float ⟨0x8000000000000000⟩).render {} := by decide +kernel

end Template

end Stencil
