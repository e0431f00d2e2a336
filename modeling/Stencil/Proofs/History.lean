import Mathlib.Data.Finset.Dedup
import Mathlib.Data.Finset.Card
import Stencil.Proofs.Unread

set_option autoImplicit false

namespace Stencil

namespace Entries

variable {β γ : Type}

def Last (pairs : List (String × β)) (key : String) (item : β) : Prop :=
  ∃ before after, pairs = before ++ (key, item) :: after ∧ key ∉ after.map Prod.fst

theorem last_iff {pairs : List (String × β)} {key : String} {item : β} :
    Last pairs key item ↔ pairs.reverse.lookup key = some item := by
  rw [List.lookup_eq_some_iff]
  constructor
  · rintro ⟨before, after, rfl, fresh⟩
    refine ⟨after.reverse, before.reverse, by simp, fun pair member => bne_iff_ne.mpr ?_⟩
    rintro rfl
    exact fresh (List.mem_map_of_mem (List.mem_reverse.mp member))
  · rintro ⟨after, before, split, fresh⟩
    refine ⟨before.reverse, after.reverse, by simpa using congrArg List.reverse split, fun named => ?_⟩
    obtain ⟨pair, member, rfl⟩ := List.mem_map.mp named
    exact bne_iff_ne.mp (fresh pair (List.mem_reverse.mp member)) rfl

theorem Last.unique {pairs : List (String × β)} {key : String} {a b : β} (first : Last pairs key a)
    (second : Last pairs key b) : a = b :=
  Option.some.inj ((last_iff.mp first).symm.trans (last_iff.mp second))

theorem exists_last_iff {pairs : List (String × β)} {key : String} :
    (∃ item, Last pairs key item) ↔ key ∈ pairs.map Prod.fst := by
  rw [← List.mem_reverse, ← List.map_reverse, mem_names_iff, Option.isSome_iff_exists]
  exact exists_congr fun item => last_iff

theorem of_list_append (pairs later : List (String × β)) : ofList (pairs ++ later) = insertAll (ofList pairs) later :=
  List.foldl_append ..

theorem lookup_of_list_map (f : β → γ) (pairs : List (String × β)) (key : String) :
    (ofList (pairs.map fun pair => (pair.1, f pair.2))).lookup key = (pairs.reverse.lookup key).map f := by
  rw [of_list_map, lookup_map, lookup_of_list]

theorem of_list_map_congr {f : β → γ} {a b : List (String × β)}
    (names : ∀ key, key ∈ a.map Prod.fst ↔ key ∈ b.map Prod.fst)
    (last : ∀ key x y, Last a key x → Last b key y → f x = f y) :
    ofList (a.map fun pair => (pair.1, f pair.2)) = ofList (b.map fun pair => (pair.1, f pair.2)) := by
  refine (ascending_of_list _).ext (ascending_of_list _) fun key => Option.ext fun value => ?_
  rw [lookup_of_list_map, lookup_of_list_map, Option.map_eq_some_iff, Option.map_eq_some_iff]
  simp only [← last_iff]
  constructor
  · rintro ⟨x, first, rfl⟩
    obtain ⟨y, second⟩ := exists_last_iff.mpr ((names key).mp (exists_last_iff.mp ⟨x, first⟩))
    exact ⟨y, second, (last key x y first second).symm⟩
  · rintro ⟨y, second, rfl⟩
    obtain ⟨x, first⟩ := exists_last_iff.mpr ((names key).mpr (exists_last_iff.mp ⟨y, second⟩))
    exact ⟨x, first, last key x y first second⟩

end Entries

-- A value before it is made. A map is the pairs that are written into it, one after another.
inductive Draft where
  | value (v : Value)
  | list (items : List Draft)
  | map (pairs : List (String × Draft))

namespace Draft

mutual

def made : Draft → Value
  | .value v => v
  | .list items => .list (madeItems items)
  | .map pairs => .map (Entries.ofList (madePairs pairs))

def madeItems : List Draft → List Value
  | [] => []
  | item :: rest => made item :: madeItems rest

def madePairs : List (String × Draft) → List (String × Value)
  | [] => []
  | (key, item) :: rest => (key, made item) :: madePairs rest

end

theorem made_items_eq (items : List Draft) : madeItems items = items.map made := by
  induction items with
  | nil => rfl
  | cons item rest ih => rw [madeItems, ih, List.map_cons]

theorem made_pairs_eq (pairs : List (String × Draft)) :
    madePairs pairs = pairs.map fun pair => (pair.1, made pair.2) := by
  induction pairs with
  | nil => rfl
  | cons pair rest ih => rw [madePairs, ih, List.map_cons]

theorem made_pairs_append (pairs later : List (String × Draft)) :
    madePairs (pairs ++ later) = madePairs pairs ++ madePairs later := by
  rw [made_pairs_eq, made_pairs_eq, made_pairs_eq, List.map_append]

theorem lookup_made_pairs (pairs : List (String × Draft)) (key : String) :
    (Entries.ofList (madePairs pairs)).lookup key = (pairs.reverse.lookup key).map made := by
  rw [made_pairs_eq, Entries.lookup_of_list_map]

inductive Alike : Draft → Draft → Prop
  | value (v : Value) : Alike (.value v) (.value v)
  | list {a b : List Draft} (length : a.length = b.length)
      (items : ∀ (i : Nat) (x y : Draft), a[i]? = some x → b[i]? = some y → Alike x y) : Alike (.list a) (.list b)
  | map {a b : List (String × Draft)} (names : ∀ key, key ∈ a.map Prod.fst ↔ key ∈ b.map Prod.fst)
      (last : ∀ key x y, Entries.Last a key x → Entries.Last b key y → Alike x y) : Alike (.map a) (.map b)

theorem Alike.made_eq {a b : Draft} (alike : Alike a b) : a.made = b.made := by
  induction alike with
  | value v => rfl
  | @list a b length items ih =>
    have same : a.map made = b.map made := by
      refine List.ext_getElem (by simpa using length) fun i _ _ => ?_
      rw [List.getElem_map, List.getElem_map]
      exact ih i _ _ (List.getElem?_eq_getElem _) (List.getElem?_eq_getElem _)
    rw [made, made, made_items_eq, made_items_eq, same]
  | @map a b names last ih =>
    have same : Entries.ofList (madePairs a) = Entries.ofList (madePairs b) := by
      rw [made_pairs_eq, made_pairs_eq]
      exact Entries.of_list_map_congr names ih
    rw [made, made, same]

end Draft

namespace Context

inductive Operation where
  | empty
  | insert (key : String) (draft : Draft)
  | replace (key : String) (draft : Draft)
  | insertAll (pairs : List (String × Draft))
  | ofList (pairs : List (String × Draft))

namespace Operation

def apply (context : Context) : Operation → Context
  | .empty => Context.empty
  | .insert key draft => context.insert key draft.made
  | .replace key draft => (context.replace key draft.made).1
  | .insertAll pairs => context.insertAll (Draft.madePairs pairs)
  | .ofList pairs => Context.ofList (Draft.madePairs pairs)

def resets : Operation → Bool
  | .empty | .ofList _ => true
  | .insert _ _ | .replace _ _ | .insertAll _ => false

def pairs : Operation → List (String × Draft)
  | .empty => []
  | .insert key draft | .replace key draft => [(key, draft)]
  | .insertAll pairs | .ofList pairs => pairs

end Operation

def run (operations : List Operation) : Context := operations.foldl Operation.apply Context.empty

def written (operations : List Operation) : List (String × Draft) :=
  operations.foldl (fun pairs operation => (if operation.resets then [] else pairs) ++ operation.pairs) []

theorem bindings_apply (context : Context) (operation : Operation) :
    (operation.apply context).bindings =
      Entries.insertAll (if operation.resets then [] else context.bindings) (Draft.madePairs operation.pairs) := by
  cases operation <;> rfl

theorem bindings_run (operations : List Operation) :
    (run operations).bindings = Entries.ofList (Draft.madePairs (written operations)) := by
  induction operations using List.reverseRecOn with
  | nil => rfl
  | append_singleton operations operation ih =>
    have stepped : run (operations ++ [operation]) = operation.apply (run operations) := by simp [run]
    have extended : written (operations ++ [operation]) =
        (if operation.resets then [] else written operations) ++ operation.pairs := by simp [written]
    rw [stepped, extended, bindings_apply, ih, Draft.made_pairs_append, Entries.of_list_append]
    cases operation.resets <;> rfl

theorem to_value_run (operations : List Operation) :
    (run operations).toValue = (Draft.map (written operations)).made :=
  congrArg Value.map (bindings_run operations)

theorem get_run (operations : List Operation) (key : String) :
    (run operations).get? key = ((written operations).reverse.lookup key).map Draft.made := by
  rw [get?, bindings_run, Draft.lookup_made_pairs]

theorem contains_run (operations : List Operation) (key : String) :
    (run operations).contains key = true ↔ key ∈ (written operations).map Prod.fst := by
  rw [contains, get_run, Option.isSome_map, ← Entries.mem_names_iff, List.map_reverse, List.mem_reverse]

theorem size_run (operations : List Operation) :
    (run operations).size = ((written operations).map Prod.fst).toFinset.card := by
  have nodup : ((run operations).bindings.map Prod.fst).Nodup :=
    List.pairwise_map.mpr (run operations).ascending.distinct
  have names : ((run operations).bindings.map Prod.fst).toFinset = ((written operations).map Prod.fst).toFinset := by
    ext key
    rw [List.mem_toFinset, List.mem_toFinset, Entries.mem_names_iff, ← contains_run]
    rfl
  rw [← names, List.toFinset_card_of_nodup nodup, List.length_map, size]

theorem insert_all_eq_foldl (context : Context) (pairs : List (String × Value)) :
    context.insertAll pairs = pairs.foldl (fun context pair => context.insert pair.1 pair.2) context := by
  induction pairs generalizing context with
  | nil => rfl
  | cons pair rest ih => exact ih (context.insert pair.1 pair.2)

-- However it is written, a context is the map of what was last written under each name, and no text shows more of it.
theorem run_keeps_last (operations : List Operation) :
    (∀ key value, (run operations).get? key = some value ↔
      ∃ draft, Entries.Last (written operations) key draft ∧ draft.made = value) ∧
    (∀ key, (run operations).contains key = true ↔ key ∈ (written operations).map Prod.fst) ∧
    (∀ key draft, (run operations).replace key draft.made =
      (run (operations ++ [.replace key draft]), (run operations).get? key)) ∧
    (run operations).size = ((written operations).map Prod.fst).toFinset.card ∧
    ((run operations).isEmpty = true ↔ (run operations).size = 0) ∧
    (∀ pairs, ofList pairs = empty.insertAll pairs ∧
      ofList pairs = pairs.foldl (fun context pair => context.insert pair.1 pair.2) empty) ∧
    ∀ others,
      (Draft.Alike (.map (written operations)) (.map (written others)) → run operations = run others) ∧
      ((∀ key, (run operations).get? key = (run others).get? key) →
        ∀ template : Template, template.render (run operations) = template.render (run others)) := by
  refine ⟨fun key value => ?_, contains_run operations, fun key draft => ?_, size_run operations, ?_,
    fun pairs => ⟨rfl, insert_all_eq_foldl empty pairs⟩, fun others => ⟨fun alike => ?_, fun same template => ?_⟩⟩
  · rw [get_run, Option.map_eq_some_iff]
    exact exists_congr fun draft => and_congr_left' Entries.last_iff.symm
  · simp [run, replace, Operation.apply]
  · rw [isEmpty, size, List.isEmpty_iff, List.length_eq_zero_iff]
  · exact to_value_inj (by rw [to_value_run, to_value_run, alike.made_eq])
  · exact Template.render_congr fun token _ => same token.name

theorem run_keeps_last_rewritten :
    let operations : List Operation :=
      [.insert "c" (.value (.bool true)),
        .ofList [("a", .map [("y", .value (.int 7)), ("x", .value (.int 3)), ("y", .value (.int 4))])],
        .replace "b" (.value (.int 2))]
    let others : List Operation :=
      [.insert "b" (.value (.int 2)), .insertAll [("a", .map [("x", .value (.int 3)), ("y", .value (.int 4))])]]
    Draft.Alike (.map (written operations)) (.map (written others)) ∧ run operations = run others ∧
      (run operations).get? "b" = some (.int 2) ∧ (run operations).contains "c" = false ∧
      (run operations).size = 2 ∧
      (∀ key, (run operations).get? key = (run others).get? key) ∧
      ∀ template : Template, template.render (run operations) = template.render (run others) := by
  intro operations others
  have entries : Draft.Alike (.map [("y", .value (.int 7)), ("x", .value (.int 3)), ("y", .value (.int 4))])
      (.map [("x", .value (.int 3)), ("y", .value (.int 4))]) := by
    refine .map (fun key => by simp; tauto) fun key v w first second => ?_
    have named : key = "x" ∨ key = "y" := by simpa using Entries.exists_last_iff.mp ⟨w, second⟩
    rcases named with rfl | rfl
    · obtain rfl := first.unique ⟨[_], [_], rfl, by decide⟩
      obtain rfl := second.unique ⟨[], [_], rfl, by decide⟩
      exact .value _
    · obtain rfl := first.unique ⟨[_, _], [], rfl, by decide⟩
      obtain rfl := second.unique ⟨[_], [], rfl, by decide⟩
      exact .value _
  have alike : Draft.Alike (.map (written operations)) (.map (written others)) := by
    refine .map (fun key => ?_) fun key v w first second => ?_
    · simp [operations, others, written, Operation.resets, Operation.pairs, or_comm]
    · have named : key = "b" ∨ key = "a" := by
        simpa [others, written, Operation.resets, Operation.pairs] using Entries.exists_last_iff.mp ⟨w, second⟩
      rcases named with rfl | rfl
      · obtain rfl := first.unique ⟨[_], [], rfl, by decide⟩
        obtain rfl := second.unique ⟨[], [_], rfl, by decide⟩
        exact .value _
      · obtain rfl := first.unique ⟨[], [_], rfl, by decide⟩
        obtain rfl := second.unique ⟨[_], [], rfl, by decide⟩
        exact entries
  obtain ⟨found, contained, -, size, -, -, compared⟩ := run_keeps_last operations
  have same : run operations = run others := (compared others).1 alike
  have agree (key : String) : (run operations).get? key = (run others).get? key := by rw [same]
  refine ⟨alike, same, (found _ _).mpr ⟨.value (.int 2), ⟨_, [], rfl, List.not_mem_nil⟩, rfl⟩, ?_, ?_, agree,
    (compared others).2 agree⟩
  · rw [Bool.eq_false_iff, Ne, contained]
    decide
  · rw [size]
    decide

end Context

end Stencil
