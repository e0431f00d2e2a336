set_option autoImplicit false

namespace Stencil.Entries

variable {β : Type}

def Ascending (entries : List (String × β)) : Prop := entries.Pairwise fun a b => a.1 < b.1

def insert (key : String) (value : β) : List (String × β) → List (String × β)
  | [] => [(key, value)]
  | (other, held) :: rest =>
    if key < other then (key, value) :: (other, held) :: rest
    else if key = other then (key, value) :: rest
    else (other, held) :: insert key value rest

def insertAll (entries pairs : List (String × β)) : List (String × β) :=
  pairs.foldl (fun kept pair => insert pair.1 pair.2 kept) entries

def ofList (pairs : List (String × β)) : List (String × β) := insertAll [] pairs

theorem insert_ne_nil (key : String) (value : β) (entries : List (String × β)) : insert key value entries ≠ [] := by
  cases entries with
  | nil => exact List.cons_ne_nil _ _
  | cons head rest =>
    unfold insert
    split
    · exact List.cons_ne_nil _ _
    · split <;> exact List.cons_ne_nil _ _

theorem insert_all_eq_nil {entries pairs : List (String × β)} :
    insertAll entries pairs = [] ↔ entries = [] ∧ pairs = [] := by
  induction pairs generalizing entries with
  | nil => simp [insertAll]
  | cons pair rest ih =>
    have step : insertAll entries (pair :: rest) = [] ↔ _ := @ih (insert pair.1 pair.2 entries)
    simp [step, insert_ne_nil]

theorem lookup_insert_self (key : String) (value : β) (entries : List (String × β)) :
    (insert key value entries).lookup key = some value := by
  induction entries with
  | nil => simp [insert]
  | cons head rest ih =>
    obtain ⟨other, held⟩ := head
    unfold insert
    split
    · simp
    · split
      · simp
      · next different => simp [List.lookup_cons, beq_eq_false_iff_ne.mpr different, ih]

theorem lookup_insert_of_ne {key name : String} (different : name ≠ key) (value : β)
    (entries : List (String × β)) : (insert key value entries).lookup name = entries.lookup name := by
  have unequal : (name == key) = false := beq_eq_false_iff_ne.mpr different
  induction entries with
  | nil => simp [insert, List.lookup_cons, unequal]
  | cons head rest ih =>
    obtain ⟨other, held⟩ := head
    unfold insert
    split
    · simp [List.lookup_cons, unequal]
    · split
      · next same =>
        subst same
        simp [List.lookup_cons, unequal]
      · simp only [List.lookup_cons, ih]

theorem mem_insert {key : String} {value : β} {entries : List (String × β)} {entry : String × β}
    (member : entry ∈ insert key value entries) : entry = (key, value) ∨ entry ∈ entries := by
  induction entries with
  | nil => simpa [insert] using member
  | cons head rest ih =>
    obtain ⟨other, held⟩ := head
    unfold insert at member
    split at member
    · simpa using member
    · split at member
      · rcases List.mem_cons.mp member with here | later
        · exact .inl here
        · exact .inr (List.mem_cons_of_mem _ later)
      · rcases List.mem_cons.mp member with here | later
        · exact .inr (here ▸ List.mem_cons_self)
        · exact (ih later).imp id (List.mem_cons_of_mem _)

theorem ascending_insert (key : String) (value : β) {entries : List (String × β)}
    (ascending : Ascending entries) : Ascending (insert key value entries) := by
  induction entries with
  | nil => exact List.pairwise_singleton _ _
  | cons head rest ih =>
    obtain ⟨other, held⟩ := head
    obtain ⟨first, later⟩ := List.pairwise_cons.mp ascending
    unfold insert
    split
    · next less =>
      refine List.pairwise_cons.mpr ⟨fun entry member => ?_, ascending⟩
      rcases List.mem_cons.mp member with here | there
      · exact here ▸ less
      · exact String.lt_trans less (first entry there)
    · next notLess =>
      split
      · next same =>
        subst same
        exact List.pairwise_cons.mpr ⟨first, later⟩
      · next different =>
        have greater : other < key := by
          rcases Decidable.em (other < key) with yes | no
          · exact yes
          · exact absurd (String.le_antisymm (String.not_lt.mp no) (String.not_lt.mp notLess)) different
        refine List.pairwise_cons.mpr ⟨fun entry member => ?_, ih later⟩
        rcases mem_insert member with new | old
        · exact new ▸ greater
        · exact first entry old

theorem ascending_insert_all {entries : List (String × β)} (ascending : Ascending entries)
    (pairs : List (String × β)) : Ascending (insertAll entries pairs) := by
  induction pairs generalizing entries with
  | nil => exact ascending
  | cons pair rest ih => exact ih (ascending_insert pair.1 pair.2 ascending)

theorem ascending_of_list (pairs : List (String × β)) : Ascending (ofList pairs) :=
  ascending_insert_all List.Pairwise.nil pairs

end Stencil.Entries
