import Stencil.Proofs.Guarded
import Stencil.Template.Token

set_option autoImplicit false

namespace Stencil.Template

open Text (EndsInBackslash Guarded)

def IsName (name : List Char) : Prop := name ≠ [] ∧ ∀ c ∈ name, isNameChar c = true

instance (name : List Char) : Decidable (IsName name) :=
  decidable_of_iff (name ≠ [] ∧ name.all isNameChar = true) (by rw [IsName, List.all_eq_true])

inductive DefaultEnd (text before after : List Char) : Prop where
  | bare (whole : text = before ++ '}' :: after) (unguarded : ¬ EndsInBackslash before)
      (earlier : Guarded '}' before)
  | last (whole : text = before ++ '}' :: after) (guarded : Guarded '}' text) (final : '}' ∉ after)

inductive Body : List Char → Placeholder → List Char → Prop where
  | plain {name after : List Char} (valid : IsName name) : Body (name ++ '}' :: after) ⟨name, none⟩ after
  | withDefault {name text before after : List Char} (valid : IsName name)
      (ends : DefaultEnd text before after) : Body (name ++ ':' :: text) ⟨name, some before⟩ after

theorem head_ne_some {c : Char} {text : List Char} (missing : ∀ rest, text = c :: rest → False) :
    text.head? ≠ some c := by
  intro first
  obtain ⟨rest, whole⟩ := List.head?_eq_some_iff.mp first
  exact missing rest whole

theorem split_at_bare_brace_eq_none {text : List Char} : splitAtBareBrace text = none ↔ Guarded '}' text := by
  fun_induction splitAtBareBrace text with
  | case1 => simp [Text.guarded_of_not_mem]
  | case2 rest ih => rw [Option.map_eq_none_iff, ih, Text.guarded_pair (by decide)]
  | case3 rest => simp [Text.not_guarded_cons_self]
  | case4 c rest unpaired different ih =>
    rw [Option.map_eq_none_iff, ih, Text.guarded_cons different]
    rintro ⟨backslash, first⟩
    exact head_ne_some (fun tail => unpaired tail backslash) first

theorem bare_of_split_at_bare_brace {text before after : List Char}
    (found : splitAtBareBrace text = some (before, after)) :
    ¬ EndsInBackslash before ∧ Guarded '}' before := by
  fun_induction splitAtBareBrace text generalizing before with
  | case1 => cases found
  | case2 rest ih =>
    obtain ⟨split, inner, same⟩ := Option.map_eq_some_iff.mp found
    obtain ⟨rfl, rfl⟩ := Prod.mk.inj same
    obtain ⟨unguarded, earlier⟩ := ih inner
    refine ⟨fun ends => ?_, (Text.guarded_pair (by decide)).mpr earlier⟩
    rw [Text.ends_in_backslash_cons (by simp), Text.ends_in_backslash_cons_of_ne (by decide)] at ends
    exact unguarded ends
  | case3 rest =>
    obtain ⟨rfl, rfl⟩ := Prod.mk.inj (Option.some.inj found)
    exact ⟨Text.not_ends_in_backslash_nil, Text.guarded_of_not_mem (by simp)⟩
  | case4 c rest unpaired different ih =>
    obtain ⟨split, inner, same⟩ := Option.map_eq_some_iff.mp found
    obtain ⟨rfl, rfl⟩ := Prod.mk.inj same
    obtain ⟨unguarded, earlier⟩ := ih inner
    have whole := eq_of_split_at_bare_brace inner
    constructor
    · intro ends
      by_cases empty : split.1 = []
      · rw [empty] at ends whole
        exact unpaired _ (Text.ends_in_backslash_singleton.mp ends) whole
      · exact unguarded ((Text.ends_in_backslash_cons empty).mp ends)
    · refine (Text.guarded_cons different ?_).mpr earlier
      rintro ⟨backslash, first⟩
      obtain ⟨tail, begins⟩ := List.head?_eq_some_iff.mp first
      rw [begins] at whole
      exact unpaired _ backslash whole

theorem split_at_last_brace_eq_none {text : List Char} : splitAtLastBrace text = none ↔ '}' ∉ text := by
  have divided := split_at_last_brace_divides text
  cases found : splitAtLastBrace text with
  | none =>
    simp only [found] at divided
    exact iff_of_true rfl divided
  | some split =>
    simp only [found] at divided
    simp [divided.1]

theorem DefaultEnd.whole {text before after : List Char} (ends : DefaultEnd text before after) :
    text = before ++ '}' :: after := by
  cases ends <;> assumption

theorem default_end_of_split_default {text before after : List Char}
    (found : splitDefault text = some (before, after)) : DefaultEnd text before after := by
  have whole := eq_of_split_default found
  rcases Option.or_eq_some_iff.mp found with bare | ⟨none, last⟩
  · obtain ⟨unguarded, earlier⟩ := bare_of_split_at_bare_brace bare
    exact .bare whole unguarded earlier
  · exact .last whole (split_at_bare_brace_eq_none.mp none) (split_at_last_brace_of_found last).2

theorem split_default_eq_none {text : List Char} : splitDefault text = none ↔ '}' ∉ text := by
  rw [splitDefault, Option.or_eq_none_iff, split_at_bare_brace_eq_none, split_at_last_brace_eq_none]
  exact ⟨And.right, fun missing => ⟨Text.guarded_of_not_mem missing, missing⟩⟩

theorem split_cases {before after front back : List Char}
    (same : before ++ '}' :: after = front ++ '}' :: back) :
    (before = front ∧ after = back) ∨
      (∃ middle, front = before ++ '}' :: middle ∧ after = middle ++ '}' :: back) ∨
      ∃ middle, before = front ++ '}' :: middle ∧ back = middle ++ '}' :: after := by
  rcases List.append_eq_append_iff.mp same with ⟨gap, left, right⟩ | ⟨gap, left, right⟩
  · cases gap with
    | nil => exact .inl ⟨by simp [left], by simpa using right⟩
    | cons c middle =>
      obtain ⟨rfl, rest⟩ := List.cons.inj right
      exact .inr (.inl ⟨middle, left, rest⟩)
  · cases gap with
    | nil => exact .inl ⟨by simp [left], by simpa using right.symm⟩
    | cons c middle =>
      obtain ⟨rfl, rest⟩ := List.cons.inj right
      exact .inr (.inr ⟨middle, left, rest⟩)

theorem DefaultEnd.not_before {text before after middle back : List Char} (ends : DefaultEnd text before after)
    (stops : DefaultEnd text (before ++ '}' :: middle) back) (left : after = middle ++ '}' :: back) : False := by
  cases ends with
  | bare whole unguarded earlier =>
    cases stops with
    | bare _ _ sooner => exact unguarded (sooner before middle rfl)
    | last _ guarded _ => exact unguarded (guarded before after whole)
  | last _ _ final => exact final (by simp [left])

theorem DefaultEnd.unique {text before after front back : List Char} (ends : DefaultEnd text before after)
    (stops : DefaultEnd text front back) : before = front ∧ after = back := by
  rcases split_cases (ends.whole.symm.trans stops.whole) with same | ⟨middle, rfl, left⟩ | ⟨middle, rfl, left⟩
  · exact same
  · exact (ends.not_before stops left).elim
  · exact (stops.not_before ends left).elim

theorem split_default_eq_some {text before after : List Char} :
    splitDefault text = some (before, after) ↔ DefaultEnd text before after := by
  refine ⟨default_end_of_split_default, fun ends => ?_⟩
  cases found : splitDefault text with
  | none => exact absurd (by simp [ends.whole]) (split_default_eq_none.mp found)
  | some split =>
    obtain ⟨same, rest⟩ := ends.unique (default_end_of_split_default found)
    rw [same, rest]

theorem take_while_name {name rest : List Char} {c : Char} (valid : IsName name) (stop : isNameChar c = false) :
    (name ++ c :: rest).takeWhile isNameChar = name := by
  rw [List.takeWhile_append_of_pos valid.2, List.takeWhile_cons, if_neg (by simp [stop]), List.append_nil]

theorem drop_while_name {name rest : List Char} {c : Char} (valid : IsName name) (stop : isNameChar c = false) :
    (name ++ c :: rest).dropWhile isNameChar = c :: rest := by
  rw [List.dropWhile_append_of_pos valid.2, List.dropWhile_cons, if_neg (by simp [stop])]

theorem is_name_take_while {text : List Char} (inhabited : text.takeWhile isNameChar ≠ []) :
    IsName (text.takeWhile isNameChar) :=
  ⟨inhabited, List.all_eq_true.mp List.all_takeWhile⟩

theorem read_body_eq_some {text after : List Char} {p : Placeholder} :
    readBody text = some (p, after) ↔ Body text p after := by
  constructor
  · intro found
    have whole := List.takeWhile_append_dropWhile (p := isNameChar) (l := text)
    unfold readBody at found
    simp only at found
    split at found
    · cases found
    · next inhabited =>
      have valid := is_name_take_while inhabited
      split at found
      · next rest same =>
        obtain ⟨rfl, rfl⟩ := Prod.mk.inj (Option.some.inj found)
        rw [same] at whole
        have body : Body _ _ rest := .plain valid
        rwa [whole] at body
      · next rest same =>
        obtain ⟨split, inner, pair⟩ := Option.map_eq_some_iff.mp found
        obtain ⟨rfl, rfl⟩ := Prod.mk.inj pair
        rw [same] at whole
        have body := Body.withDefault valid (default_end_of_split_default inner)
        rwa [whole] at body
      · cases found
  · intro body
    cases body with
    | plain valid =>
      unfold readBody
      simp only [take_while_name valid (show isNameChar '}' = false by decide),
        drop_while_name valid (show isNameChar '}' = false by decide), if_neg valid.1]
    | withDefault valid ends =>
      unfold readBody
      simp only [take_while_name valid (show isNameChar ':' = false by decide),
        drop_while_name valid (show isNameChar ':' = false by decide), if_neg valid.1,
        split_default_eq_some.mpr ends, Option.map_some]

theorem Body.whole {text after : List Char} {p : Placeholder} (body : Body text p after) : text = p.body ++ after :=
  eq_of_read_body (read_body_eq_some.mpr body)

end Stencil.Template
