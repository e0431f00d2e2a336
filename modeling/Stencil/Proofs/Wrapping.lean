import Stencil.Proofs.Refusal

set_option autoImplicit false

namespace Stencil.Value

inductive Wrapping where
  | place
  | item (before : List Value) (part : Wrapping) (after : List Value)
  | entry (before : List (String × Value)) (key : String) (part : Wrapping) (after : List (String × Value))

def Wrapping.around (value : Value) : Wrapping → Value
  | .place => value
  | .item before part after => .list (before ++ part.around value :: after)
  | .entry before key part after => .map (before ++ (key, part.around value) :: after)

theorem render_around {config : Config} {a b : Value} (same : a.render config = b.render config)
    (wrapping : Wrapping) : (wrapping.around a).render config = (wrapping.around b).render config := by
  induction wrapping with
  | place => exact same
  | item before part after ih =>
    simp only [Wrapping.around, render, render_items_eq, List.mapM_append, List.mapM_cons, ih]
  | entry before key part after ih =>
    simp only [Wrapping.around, render, render_entries_eq, List.mapM_append, List.mapM_cons, ih]

def isList : Value → Bool
  | .list _ => true
  | _ => false

mutual

def leaves : Value → List Value
  | .list items => itemsLeaves items
  | leaf => [leaf]

def itemsLeaves : List Value → List Value
  | [] => []
  | item :: rest => leaves item ++ itemsLeaves rest

end

inductive Filled : Value → Prop where
  | leaf {value : Value} (leaf : value.isList = false) : Filled value
  | list {items : List Value} (present : items ≠ []) (parts : ∀ item ∈ items, Filled item) : Filled (.list items)

theorem leaves_of_leaf {value : Value} (leaf : value.isList = false) : value.leaves = [value] := by
  cases value with
  | list items => cases leaf
  | _ => rfl

theorem is_list_of_mem_leaves {value leaf : Value} (member : leaf ∈ value.leaves) : leaf.isList = false := by
  induction value with
  | list items ih =>
    rw [leaves] at member
    induction items with
    | nil => cases member
    | cons item rest inner =>
      obtain ⟨first, others⟩ := List.forall_mem_cons.mp ih
      exact (List.mem_append.mp member).elim first (inner others)
  | _ =>
    obtain rfl := List.mem_singleton.mp member
    rfl

def joined (separator : String) (texts : List String) : Option String :=
  if texts = [] then none else some (separator.intercalate texts)

theorem joined_append (separator : String) (front back : List String) :
    joined separator (front ++ back) =
      Option.merge (fun before after => before ++ separator ++ after) (joined separator front)
        (joined separator back) := by
  by_cases first : front = []
  · simp [joined, first]
  · by_cases second : back = []
    · simp [joined, second]
    · simp [joined, first, second, String.intercalate_append_of_ne_nil first second]

def row (config : Config) (items : List Value) : Except RenderError (Option String) :=
  (items.mapM (render config)).map (joined config.separator)

theorem render_list (config : Config) (items : List Value) :
    (Value.list items).render config = (row config items).map (·.getD "") := by
  rw [render, render_items_eq, row]
  cases items.mapM (render config) with
  | error fault => rfl
  | ok texts => cases texts <;> rfl

theorem row_append (config : Config) (front back : List Value) :
    row config (front ++ back) = do
      let before ← row config front
      let after ← row config back
      return Option.merge (fun text more => text ++ config.separator ++ more) before after := by
  rw [row, row, row, List.mapM_append]
  cases front.mapM (render config) with
  | error fault => rfl
  | ok texts =>
    cases back.mapM (render config) with
    | error fault => rfl
    | ok others => exact congrArg Except.ok (joined_append ..)

theorem row_singleton (config : Config) (value : Value) : row config [value] = (value.render config).map some := by
  rw [row, List.mapM_cons]
  cases value.render config with
  | error fault => rfl
  | ok text => exact congrArg (fun joined => Except.ok (some joined)) String.intercalate_singleton

theorem row_list (config : Config) {items : List Value} (present : items ≠ []) :
    row config [.list items] = row config items := by
  obtain ⟨item, rest, rfl⟩ := List.exists_cons_of_ne_nil present
  rw [row_singleton, render_list, row, List.mapM_cons]
  cases item.render config with
  | error fault => rfl
  | ok text => cases rest.mapM (render config) <;> rfl

theorem row_congr (config : Config) {items others : List Value} (same : row config items = row config others)
    (before after : List Value) : row config (before ++ items ++ after) = row config (before ++ others ++ after) := by
  simp only [row_append, same]

theorem row_leaves (config : Config) {value : Value} (filled : value.Filled) :
    row config [value] = row config value.leaves := by
  induction filled with
  | leaf leaf => rw [leaves_of_leaf leaf]
  | @list items present parts ih =>
    rw [row_list config present, leaves]
    clear present parts
    induction items with
    | nil => rfl
    | cons item rest inner =>
      obtain ⟨first, others⟩ := List.forall_mem_cons.mp ih
      rw [itemsLeaves, row_append config item.leaves, ← first, ← inner others, ← row_append, List.singleton_append]

theorem render_splice (config : Config) (before : List Value) {items : List Value} (present : items ≠ [])
    (after : List Value) :
    (Value.list (before ++ .list items :: after)).render config =
      (Value.list (before ++ items ++ after)).render config := by
  have spliced := row_congr config (row_list config present) before after
  rw [List.append_assoc, List.singleton_append] at spliced
  rw [render_list, render_list, spliced]

theorem render_leaves (config : Config) {value : Value} (filled : value.Filled) :
    (Value.list value.leaves).render config = value.render config := by
  rw [render_list, ← row_leaves config filled, row_singleton]
  cases value.render config <;> rfl

-- Lists of lists are written as their leaves are, or fail as these do, and at every depth a list may be dissolved in
-- the list around it, as long as there is an item in it.
theorem render_flattened (config : Config) :
    (∀ value : Value, value.Filled →
      (∀ leaf ∈ value.leaves, leaf.isList = false) ∧
      value.render config = (value.leaves.mapM (render config)).map config.separator.intercalate ∧
      (Value.list value.leaves).render config = value.render config) ∧
    ∀ (wrapping : Wrapping) (before items after : List Value), items ≠ [] →
      (wrapping.around (.list (before ++ .list items :: after))).render config =
        (wrapping.around (.list (before ++ items ++ after))).render config := by
  refine ⟨fun value filled => ⟨fun leaf => is_list_of_mem_leaves, ?_, render_leaves config filled⟩, ?_⟩
  · rw [← render_leaves config filled, render, render_items_eq]
  · exact fun wrapping before items after present => render_around (render_splice config before present after) wrapping

theorem render_flattened_nested :
    (Value.list [.list [.str "a|"], .list [.list [.map [("k", .list [])]], .bool true]]).Filled ∧
    (Value.list [.list [.str "a|"], .list [.list [.map [("k", .list [])]], .bool true]]).render { separator := "|" } =
      .ok "a||k=|true" ∧
    (Value.map [("k", .list [.list [.str "a", .str ""], .list []])]).render { separator := "" } =
      (Value.map [("k", .list [.str "a", .str "", .list []])]).render { separator := "" } := by
  have inner : Filled (.list [.list [.map [("k", .list [])]], .bool true]) :=
    .list (by simp) (by simpa using ⟨.list (by simp) (by simpa using .leaf rfl), .leaf rfl⟩)
  have filled : Filled (.list [.list [.str "a|"], .list [.list [.map [("k", .list [])]], .bool true]]) :=
    .list (by simp) (by simpa using ⟨.list (by simp) (by simpa using .leaf rfl), inner⟩)
  obtain ⟨nested, _⟩ := render_flattened { separator := "|" }
  obtain ⟨_, dissolved⟩ := render_flattened { separator := "" }
  refine ⟨filled, (nested _ filled).2.1.trans rfl, ?_⟩
  exact dissolved (.entry [] "k" .place []) [] [.str "a", .str ""] [.list []] (by simp)

example : (Value.list [.list [], .str "a"]).render {} = .ok ",a" := rfl

end Stencil.Value
