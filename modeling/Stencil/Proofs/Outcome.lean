set_option autoImplicit false

namespace Stencil.Outcome

variable {ε α β γ σ : Type}

theorem map_eq_ok {f : α → β} {first : Except ε α} {result : β} :
    first.map f = .ok result ↔ ∃ a, first = .ok a ∧ f a = result := by
  cases first <;> simp [Except.map]

theorem map_eq_error {f : α → β} {first : Except ε α} {fault : ε} :
    first.map f = .error fault ↔ first = .error fault := by
  cases first <;> simp [Except.map]

theorem bind_eq_ok {first : Except ε α} {next : α → Except ε β} {result : β} :
    first >>= next = .ok result ↔ ∃ a, first = .ok a ∧ next a = .ok result := by
  cases first <;> simp [bind, Except.bind]

theorem bind_eq_error {first : Except ε α} {next : α → Except ε β} {fault : ε} :
    first >>= next = .error fault ↔ first = .error fault ∨ ∃ a, first = .ok a ∧ next a = .error fault := by
  cases first <;> simp [bind, Except.bind]

theorem map_m_congr {f g : α → Except ε β} {items : List α} (same : ∀ item ∈ items, f item = g item) :
    items.mapM f = items.mapM g := by
  induction items with
  | nil => rfl
  | cons item rest ih =>
    obtain ⟨first, others⟩ := List.forall_mem_cons.mp same
    rw [List.mapM_cons, List.mapM_cons, first, ih others]

theorem map_m_cons_eq_error {f : α → Except ε β} {item : α} {rest : List α} {fault : ε} :
    (item :: rest).mapM f = .error fault ↔
      f item = .error fault ∨ (∃ b, f item = .ok b) ∧ rest.mapM f = .error fault := by
  rw [List.mapM_cons, bind_eq_error]
  refine or_congr_right ?_
  cases rest.mapM f <;> simp [bind, Except.bind, pure, Except.pure]

theorem map_m_eq_error_iff {f : α → Except ε β} {items : List α} {refused : ε} {bad : α → Prop}
    (each : ∀ item ∈ items, ∀ fault, f item = .error fault ↔ fault = refused ∧ bad item) {fault : ε} :
    items.mapM f = .error fault ↔ fault = refused ∧ ∃ item ∈ items, bad item := by
  induction items with
  | nil => simp [pure, Except.pure]
  | cons item rest ih =>
    obtain ⟨first, others⟩ := List.forall_mem_cons.mp each
    rw [map_m_cons_eq_error, first, ih others]
    cases tried : f item with
    | ok b =>
      have sound : ¬ bad item := fun failed => by
        cases tried.symm.trans ((first refused).mpr ⟨rfl, failed⟩)
      simp [sound]
    | error other =>
      obtain ⟨rfl, failed⟩ := (first other).mp tried
      simp [failed]

theorem exists_eq_ok_iff {first : Except ε α} : (∃ a, first = .ok a) ↔ ∀ fault, first ≠ .error fault := by
  cases first <;> simp

-- The fault of the first item that has one.
def FirstFault (fails : α → ε → Prop) (items : List α) (fault : ε) : Prop :=
  ∃ before item after, items = before ++ item :: after ∧ (∀ earlier ∈ before, ∀ other, ¬ fails earlier other) ∧
    fails item fault

section FirstFault

variable {fails : α → ε → Prop} {items : List α} {fault : ε}

theorem not_first_fault_nil : ¬ FirstFault fails [] fault := by
  rintro ⟨before, item, after, split, _⟩
  simp at split

theorem first_fault_cons {item : α} :
    FirstFault fails (item :: items) fault ↔
      fails item fault ∨ (∀ other, ¬ fails item other) ∧ FirstFault fails items fault := by
  constructor
  · rintro ⟨before, bad, after, split, sound, failed⟩
    cases before with
    | nil =>
      obtain ⟨rfl, rfl⟩ := List.cons.inj split
      exact .inl failed
    | cons head before =>
      obtain ⟨rfl, rfl⟩ := List.cons.inj split
      obtain ⟨first, others⟩ := List.forall_mem_cons.mp sound
      exact .inr ⟨first, before, bad, after, rfl, others, failed⟩
  · rintro (failed | ⟨sound, before, bad, after, rfl, others, failed⟩)
    · exact ⟨[], item, items, rfl, by simp, failed⟩
    · exact ⟨item :: before, bad, after, rfl, List.forall_mem_cons.mpr ⟨sound, others⟩, failed⟩

theorem exists_first_fault_iff :
    (∃ fault, FirstFault fails items fault) ↔ ∃ item ∈ items, ∃ fault, fails item fault := by
  induction items with
  | nil => simp [not_first_fault_nil]
  | cons item items ih =>
    simp only [first_fault_cons, exists_or, List.mem_cons, or_and_right, exists_eq_left, exists_and_left, ih]
    by_cases failed : ∃ other, fails item other
    · simp [failed]
    · simp [not_exists.mp failed]

theorem foldl_m_eq_error_iff {step : σ → α → Except ε σ}
    (each : ∀ state item fault, step state item = .error fault ↔ fails item fault) {state : σ} :
    items.foldlM step state = .error fault ↔ FirstFault fails items fault := by
  induction items generalizing state with
  | nil => simp [not_first_fault_nil, pure, Except.pure]
  | cons item items ih =>
    have sound : (∀ other, ¬ fails item other) ↔ ∃ next, step state item = .ok next := by
      simp only [exists_eq_ok_iff, Ne, each]
    rw [List.foldlM_cons, bind_eq_error, each, first_fault_cons, sound]
    simp only [ih, exists_and_right]

end FirstFault

end Stencil.Outcome
