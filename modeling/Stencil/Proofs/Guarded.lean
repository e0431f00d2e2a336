set_option autoImplicit false

namespace Stencil.Text

def EndsInBackslash (text : List Char) : Prop := text.getLast? = some '\\'

instance (text : List Char) : Decidable (EndsInBackslash text) :=
  inferInstanceAs (Decidable (text.getLast? = some '\\'))

-- Wherever the character stands in the text, a backslash of the text stands directly before it.
def Guarded (c : Char) (text : List Char) : Prop :=
  ∀ before after, text = before ++ c :: after → EndsInBackslash before

theorem not_ends_in_backslash_nil : ¬ EndsInBackslash [] := by
  simp [EndsInBackslash]

theorem ends_in_backslash_cons {d : Char} {rest : List Char} (inhabited : rest ≠ []) :
    EndsInBackslash (d :: rest) ↔ EndsInBackslash rest := by
  cases rest with
  | nil => exact absurd rfl inhabited
  | cons e tail => simp [EndsInBackslash, List.getLast?_cons]

theorem ends_in_backslash_singleton {d : Char} : EndsInBackslash [d] ↔ d = '\\' := by
  simp [EndsInBackslash]

theorem ends_in_backslash_append {front back : List Char} (inhabited : back ≠ []) :
    EndsInBackslash (front ++ back) ↔ EndsInBackslash back := by
  induction front with
  | nil => simp
  | cons d rest ih =>
    have more : rest ++ back ≠ [] := by simp [inhabited]
    rw [List.cons_append, ends_in_backslash_cons more, ih]

theorem ends_in_backslash_cons_of_ne {d : Char} {rest : List Char} (other : d ≠ '\\') :
    EndsInBackslash (d :: rest) ↔ EndsInBackslash rest := by
  by_cases empty : rest = []
  · subst empty
    exact iff_of_false (fun ends => other (ends_in_backslash_singleton.mp ends)) not_ends_in_backslash_nil
  · exact ends_in_backslash_cons empty

theorem ends_in_backslash_iff_exists {text : List Char} : EndsInBackslash text ↔ ∃ front, text = front ++ ['\\'] :=
  List.getLast?_eq_some_iff

theorem EndsInBackslash.ne_nil {text : List Char} (ends : EndsInBackslash text) : text ≠ [] := by
  intro empty
  subst empty
  exact not_ends_in_backslash_nil ends

theorem EndsInBackslash.cons {d : Char} {rest : List Char} (ends : EndsInBackslash rest) :
    EndsInBackslash (d :: rest) :=
  (ends_in_backslash_cons ends.ne_nil).mpr ends

theorem not_ends_in_backslash_of_not_mem {text : List Char} (plain : '\\' ∉ text) : ¬ EndsInBackslash text := by
  intro ends
  exact plain (List.mem_of_getLast? ends)

theorem guarded_of_not_mem {c : Char} {text : List Char} (missing : c ∉ text) : Guarded c text := by
  intro before after whole
  exact absurd (by simp [whole]) missing

theorem not_guarded_cons_self {c : Char} {rest : List Char} : ¬ Guarded c (c :: rest) := by
  intro guarded
  exact not_ends_in_backslash_nil (guarded [] rest rfl)

theorem guarded_cons {c d : Char} {rest : List Char} (other : d ≠ c)
    (unpaired : ¬ (d = '\\' ∧ rest.head? = some c)) : Guarded c (d :: rest) ↔ Guarded c rest := by
  constructor
  · intro guarded before after whole
    have ends := guarded (d :: before) after (by rw [whole]; rfl)
    cases before with
    | nil => exact absurd ⟨ends_in_backslash_singleton.mp ends, by simp [whole]⟩ unpaired
    | cons e tail => exact (ends_in_backslash_cons (List.cons_ne_nil e tail)).mp ends
  · intro guarded before after whole
    cases before with
    | nil => exact absurd (List.cons.inj whole).1 other
    | cons e tail =>
      exact (guarded tail after (List.cons.inj whole).2).cons

theorem guarded_pair {c : Char} {rest : List Char} (other : c ≠ '\\') :
    Guarded c ('\\' :: c :: rest) ↔ Guarded c rest := by
  constructor
  · intro guarded before after whole
    have ends := guarded ('\\' :: c :: before) after (by rw [whole]; rfl)
    rw [ends_in_backslash_cons (List.cons_ne_nil c before)] at ends
    cases before with
    | nil => exact absurd (ends_in_backslash_singleton.mp ends) other
    | cons e tail => exact (ends_in_backslash_cons (List.cons_ne_nil e tail)).mp ends
  · intro guarded before after whole
    match before, whole with
    | [], whole => exact absurd (List.cons.inj whole).1 other.symm
    | [d], whole =>
      obtain ⟨rfl, _⟩ := List.cons.inj whole
      exact ends_in_backslash_singleton.mpr rfl
    | d :: e :: tail, whole =>
      exact (guarded tail after (List.cons.inj (List.cons.inj whole).2).2).cons.cons

theorem Guarded.append {c : Char} {front back : List Char} (guarded : Guarded c front) (missing : c ∉ back) :
    Guarded c (front ++ back) := by
  intro before after whole
  rcases List.append_eq_append_iff.mp whole with ⟨gap, _, right⟩ | ⟨gap, left, right⟩
  · exact absurd (by simp [right]) missing
  · cases gap with
    | nil =>
      rw [List.nil_append] at right
      exact absurd (by simp [← right]) missing
    | cons d rest =>
      obtain ⟨rfl, _⟩ := List.cons.inj right
      exact guarded before rest left

end Stencil.Text
