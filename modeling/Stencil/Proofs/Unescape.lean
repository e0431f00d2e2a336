import Stencil.Proofs.Guarded
import Stencil.Text

set_option autoImplicit false

namespace Stencil.Text

theorem is_brace_iff {c : Char} : isBrace c = true ↔ c = '{' ∨ c = '}' := by
  simp [isBrace]

theorem ne_backslash_of_is_brace {c : Char} (brace : isBrace c = true) : c ≠ '\\' := by
  rintro rfl
  cases brace

theorem unescape_chars_escaped {c : Char} {rest : List Char} (brace : isBrace c = true) :
    unescapeChars ('\\' :: c :: rest) = c :: unescapeChars rest := by
  rcases is_brace_iff.mp brace with rfl | rfl <;> rfl

theorem unpaired_iff {c : Char} {rest : List Char} :
    (c = '\\' → ∀ d ∈ rest.head?, isBrace d = false) ↔
      (∀ tail, c = '\\' → rest = '{' :: tail → False) ∧ (∀ tail, c = '\\' → rest = '}' :: tail → False) := by
  constructor
  · intro unpaired
    refine ⟨fun tail backslash opens => ?_, fun tail backslash closes => ?_⟩
    · subst opens
      cases unpaired backslash '{' rfl
    · subst closes
      cases unpaired backslash '}' rfl
  · rintro ⟨notOpen, notClose⟩ backslash d first
    apply Bool.eq_false_iff.mpr
    intro brace
    obtain ⟨tail, rfl⟩ := List.head?_eq_some_iff.mp first
    rcases is_brace_iff.mp brace with rfl | rfl
    · exact notOpen tail backslash rfl
    · exact notClose tail backslash rfl

theorem unescape_chars_cons {c : Char} {rest : List Char}
    (unpaired : c = '\\' → ∀ d ∈ rest.head?, isBrace d = false) :
    unescapeChars (c :: rest) = c :: unescapeChars rest := by
  obtain ⟨notOpen, notClose⟩ := unpaired_iff.mp unpaired
  exact unescapeChars.eq_4 c rest notOpen notClose

@[elab_as_elim]
theorem escape_induction {motive : List Char → Prop} (nil : motive [])
    (pair : ∀ c rest, isBrace c = true → motive rest → motive ('\\' :: c :: rest))
    (char : ∀ c rest, (c = '\\' → ∀ d ∈ rest.head?, isBrace d = false) → motive rest → motive (c :: rest))
    (text : List Char) : motive text := by
  fun_induction unescapeChars text with
  | case1 => exact nil
  | case2 rest ih => exact pair '{' rest rfl ih
  | case3 rest ih => exact pair '}' rest rfl ih
  | case4 c rest notOpen notClose ih => exact char c rest (unpaired_iff.mpr ⟨notOpen, notClose⟩) ih

-- The last character of one text and the first of the next are a backslash and a brace.
def Seam (front back : List Char) : Prop := EndsInBackslash front ∧ ∃ c ∈ back.head?, isBrace c = true

instance (front back : List Char) : Decidable (Seam front back) := inferInstanceAs (Decidable (_ ∧ _))

theorem not_seam_backslash {front rest : List Char} : ¬ Seam front ('\\' :: rest) := by
  rintro ⟨_, c, first, brace⟩
  obtain rfl := Option.some.inj first
  cases brace

theorem not_seam_of_apart {front back : List Char} (apart : ¬ EndsInBackslash front) : ¬ Seam front back :=
  fun seam => apart seam.1

theorem unescape_chars_append_of_not_seam {front back : List Char} (unseamed : ¬ Seam front back) :
    unescapeChars (front ++ back) = unescapeChars front ++ unescapeChars back := by
  induction front using escape_induction with
  | nil => rfl
  | pair c rest brace ih =>
    have later : ¬ Seam rest back := fun seam => unseamed ⟨seam.1.cons.cons, seam.2⟩
    rw [List.cons_append, List.cons_append, unescape_chars_escaped brace, unescape_chars_escaped brace, ih later,
      List.cons_append]
  | char c rest unpaired ih =>
    have still : c = '\\' → ∀ d ∈ (rest ++ back).head?, isBrace d = false := by
      rintro rfl d first
      cases rest with
      | nil =>
        apply Bool.eq_false_iff.mpr
        intro brace
        exact unseamed ⟨ends_in_backslash_singleton.mpr rfl, d, first, brace⟩
      | cons e tail => exact unpaired rfl d first
    have later : ¬ Seam rest back := fun seam => unseamed ⟨seam.1.cons, seam.2⟩
    rw [List.cons_append, unescape_chars_cons still, unescape_chars_cons unpaired, ih later, List.cons_append]

theorem unescape_chars_append {front back : List Char} (apart : ¬ EndsInBackslash front) :
    unescapeChars (front ++ back) = unescapeChars front ++ unescapeChars back :=
  unescape_chars_append_of_not_seam (not_seam_of_apart apart)

theorem unescape_chars_append_of_seam {front back : List Char} (seam : Seam front back) :
    unescapeChars (front ++ back) = unescapeChars front.dropLast ++ unescapeChars back := by
  obtain ⟨ends, c, first, brace⟩ := seam
  obtain ⟨init, rfl⟩ := ends_in_backslash_iff_exists.mp ends
  obtain ⟨tail, rfl⟩ := List.head?_eq_some_iff.mp first
  have bare : unescapeChars (c :: tail) = c :: unescapeChars tail :=
    unescape_chars_cons fun same => absurd same (ne_backslash_of_is_brace brace)
  rw [List.append_assoc, List.singleton_append, unescape_chars_append_of_not_seam not_seam_backslash,
    unescape_chars_escaped brace, List.dropLast_concat, bare]

theorem unescape_chars_append_eq_iff {front back : List Char} :
    unescapeChars (front ++ back) = unescapeChars front ++ unescapeChars back ↔ ¬ Seam front back := by
  refine ⟨fun same seam => ?_, unescape_chars_append_of_not_seam⟩
  obtain ⟨init, rfl⟩ := ends_in_backslash_iff_exists.mp seam.1
  have lost := unescape_chars_append_of_seam seam
  rw [same, List.append_left_inj, List.dropLast_concat, unescape_chars_append_of_not_seam not_seam_backslash] at lost
  exact absurd (List.append_right_eq_self.mp lost) (List.cons_ne_nil _ _)

theorem has_escape_escaped {c : Char} {rest : List Char} (brace : isBrace c = true) :
    hasEscape ('\\' :: c :: rest) = true := by
  rcases is_brace_iff.mp brace with rfl | rfl <;> rfl

theorem has_escape_cons {c : Char} {rest : List Char} (unpaired : c = '\\' → ∀ d ∈ rest.head?, isBrace d = false) :
    hasEscape (c :: rest) = hasEscape rest := by
  obtain ⟨notOpen, notClose⟩ := unpaired_iff.mp unpaired
  exact hasEscape.eq_4 c rest notOpen notClose

theorem has_escape_iff {text : List Char} :
    hasEscape text = true ↔ ∃ front c back, text = front ++ '\\' :: c :: back ∧ isBrace c = true := by
  induction text using escape_induction with
  | nil => simp [hasEscape]
  | pair c rest brace ih => exact iff_of_true (has_escape_escaped brace) ⟨[], c, rest, rfl, brace⟩
  | char c rest unpaired ih =>
    rw [has_escape_cons unpaired, ih]
    constructor
    · rintro ⟨front, d, back, rfl, brace⟩
      exact ⟨c :: front, d, back, rfl, brace⟩
    · rintro ⟨front, d, back, whole, brace⟩
      cases front with
      | nil =>
        obtain ⟨rfl, rfl⟩ := List.cons.inj whole
        cases brace.symm.trans (unpaired rfl d rfl)
      | cons e tail => exact ⟨tail, d, back, (List.cons.inj whole).2, brace⟩

theorem length_unescape_chars_le (text : List Char) : (unescapeChars text).length ≤ text.length := by
  induction text using escape_induction with
  | nil => exact Nat.le_refl _
  | pair c rest brace ih =>
    rw [unescape_chars_escaped brace]
    simp only [List.length_cons]
    omega
  | char c rest unpaired ih =>
    rw [unescape_chars_cons unpaired]
    exact Nat.succ_le_succ ih

theorem unescape_chars_eq_self_iff {text : List Char} : unescapeChars text = text ↔ hasEscape text = false := by
  induction text using escape_induction with
  | nil => exact iff_of_true rfl rfl
  | pair c rest brace ih =>
    refine iff_of_false (fun same => ?_) (by simp [has_escape_escaped brace])
    have shorter := length_unescape_chars_le rest
    have length := congrArg List.length same
    rw [unescape_chars_escaped brace] at length
    simp only [List.length_cons] at length
    omega
  | char c rest unpaired ih => rw [unescape_chars_cons unpaired, has_escape_cons unpaired, List.cons_inj_right, ih]

theorem unescape_chars_eq_self {text : List Char} (plain : '\\' ∉ text) : unescapeChars text = text := by
  refine unescape_chars_eq_self_iff.mpr (Bool.eq_false_iff.mpr fun escaped => ?_)
  obtain ⟨front, c, back, rfl, _⟩ := has_escape_iff.mp escaped
  exact plain (by simp)

theorem escape_chars_brace {c : Char} {rest : List Char} (brace : isBrace c = true) :
    escapeChars (c :: rest) = '\\' :: c :: escapeChars rest := by
  rw [escapeChars, if_pos brace]

theorem escape_chars_cons {c : Char} {rest : List Char} (other : isBrace c = false) :
    escapeChars (c :: rest) = c :: escapeChars rest := by
  rw [escapeChars, if_neg (Bool.eq_false_iff.mp other)]

theorem is_brace_head_escape_chars {text : List Char} : ∀ d ∈ (escapeChars text).head?, isBrace d = false := by
  intro d first
  cases text with
  | nil => cases first
  | cons c rest =>
    cases brace : isBrace c with
    | true =>
      rw [escape_chars_brace brace] at first
      obtain rfl := Option.some.inj first
      rfl
    | false =>
      rw [escape_chars_cons brace] at first
      obtain rfl := Option.some.inj first
      exact brace

theorem unescape_chars_escape_chars (text : List Char) : unescapeChars (escapeChars text) = text := by
  induction text with
  | nil => rfl
  | cons c rest ih =>
    cases brace : isBrace c with
    | true => rw [escape_chars_brace brace, unescape_chars_escaped brace, ih]
    | false => rw [escape_chars_cons brace, unescape_chars_cons (fun _ => is_brace_head_escape_chars), ih]

theorem escape_chars_eq_self {text : List Char} (plain : ∀ c ∈ text, isBrace c = false) :
    escapeChars text = text := by
  induction text with
  | nil => rfl
  | cons c rest ih =>
    obtain ⟨other, later⟩ := List.forall_mem_cons.mp plain
    rw [escape_chars_cons other, ih later]

theorem escape_chars_append (front back : List Char) :
    escapeChars (front ++ back) = escapeChars front ++ escapeChars back := by
  induction front with
  | nil => rfl
  | cons c rest ih =>
    cases brace : isBrace c with
    | true => rw [List.cons_append, escape_chars_brace brace, escape_chars_brace brace, ih]; rfl
    | false => rw [List.cons_append, escape_chars_cons brace, escape_chars_cons brace, ih]; rfl

theorem escape_chars_eq_nil {text : List Char} : escapeChars text = [] ↔ text = [] := by
  cases text with
  | nil => simp [escapeChars]
  | cons c rest =>
    unfold escapeChars
    split <;> simp

theorem ends_in_backslash_escape_chars {text : List Char} :
    EndsInBackslash (escapeChars text) ↔ EndsInBackslash text := by
  induction text with
  | nil => rfl
  | cons c rest ih =>
    cases brace : isBrace c with
    | true =>
      have other := ne_backslash_of_is_brace brace
      rw [escape_chars_brace brace, ends_in_backslash_cons (List.cons_ne_nil _ _),
        ends_in_backslash_cons_of_ne other, ends_in_backslash_cons_of_ne other, ih]
    | false =>
      rw [escape_chars_cons brace]
      by_cases empty : rest = []
      · rw [empty]
        rfl
      · rw [ends_in_backslash_cons empty, ends_in_backslash_cons (mt escape_chars_eq_nil.mp empty), ih]

theorem guarded_escape_chars {brace : Char} (braced : isBrace brace = true) (text : List Char) :
    Guarded brace (escapeChars text) := by
  have other := ne_backslash_of_is_brace braced
  induction text with
  | nil => exact guarded_of_not_mem (by simp [escapeChars])
  | cons c rest ih =>
    cases written : isBrace c with
    | true =>
      rw [escape_chars_brace written]
      by_cases same : c = brace
      · subst same
        exact (guarded_pair other).mpr ih
      · have unpaired : ¬ (c = '\\' ∧ (escapeChars rest).head? = some brace) :=
          fun pair => ne_backslash_of_is_brace written pair.1
        have apart : ¬ ('\\' = '\\' ∧ (c :: escapeChars rest).head? = some brace) :=
          fun pair => same (Option.some.inj pair.2)
        rw [guarded_cons other.symm apart, guarded_cons same unpaired]
        exact ih
    | false =>
      have different : c ≠ brace := by
        rintro rfl
        cases written.symm.trans braced
      have unpaired : ¬ (c = '\\' ∧ (escapeChars rest).head? = some brace) := by
        rintro ⟨_, first⟩
        cases braced.symm.trans (is_brace_head_escape_chars brace first)
      rw [escape_chars_cons written, guarded_cons different unpaired]
      exact ih

end Stencil.Text
