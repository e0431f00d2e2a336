import Stencil.Proofs.Nested
import Stencil.Proofs.Outline

set_option autoImplicit false

namespace Stencil.Json

theorem settle_items_cons {room : Nat} {item : Outline} {rest : List Outline} {trees : List Json} :
    settleItems room (item :: rest) = some trees ↔
      ∃ tree others, settle room item = some tree ∧ settleItems room rest = some others ∧ trees = tree :: others := by
  simp only [settleItems, Option.bind_eq_bind, Option.pure_def, Option.bind_eq_some_iff, Option.some.injEq]
  constructor
  · rintro ⟨tree, begun, others, ended, rfl⟩
    exact ⟨tree, others, begun, ended, rfl⟩
  · rintro ⟨tree, others, begun, ended, rfl⟩
    exact ⟨tree, begun, others, ended, rfl⟩

theorem settle_members_cons {room : Nat} {key? : Option String} {value : Outline}
    {rest : List (Option String × Outline)} {trees : List (String × Json)} :
    settleMembers room ((key?, value) :: rest) = some trees ↔
      ∃ key tree others, key? = some key ∧ settle room value = some tree ∧ settleMembers room rest = some others ∧
        trees = (key, tree) :: others := by
  simp only [settleMembers, Option.bind_eq_bind, Option.pure_def, Option.bind_eq_some_iff, Option.some.injEq]
  constructor
  · rintro ⟨key, named, tree, begun, others, ended, rfl⟩
    exact ⟨key, tree, others, named, begun, ended, rfl⟩
  · rintro ⟨key, tree, others, named, begun, ended, rfl⟩
    exact ⟨key, named, tree, begun, others, ended, rfl⟩

theorem settle_array {room : Nat} {items : List Outline} {tree : Json} :
    settle room (.array items) = some tree ↔
      room ≠ 0 ∧ ∃ trees, settleItems (room - 1) items = some trees ∧ tree = .array trees := by
  by_cases full : room = 0
  · simp [settle, full]
  · simp [settle, full, Option.map_eq_some_iff, @eq_comm _ _ tree]

theorem settle_object {room : Nat} {members : List (Option String × Outline)} {tree : Json} :
    settle room (.object members) = some tree ↔
      room ≠ 0 ∧ ∃ trees, settleMembers (room - 1) members = some trees ∧ tree = .object trees := by
  by_cases full : room = 0
  · simp [settle, full]
  · simp [settle, full, Option.map_eq_some_iff, @eq_comm _ _ tree]

theorem null_mem_items_tokens {items : List Outline} :
    .null ∈ itemsTokens items ↔ ∃ item ∈ items, Token.null ∈ item.tokens := by
  induction items with
  | nil => simp [itemsTokens]
  | cons item rest ih => simp [itemsTokens, ih]

theorem null_mem_array {items : List Outline} :
    .null ∈ (Outline.array items).tokens ↔ ∃ item ∈ items, Token.null ∈ item.tokens := by
  cases items with
  | nil => simp [Outline.tokens]
  | cons item rest => simp [Outline.tokens, null_mem_items_tokens]

theorem null_mem_members_tokens {members : List (Option String × Outline)} :
    .null ∈ membersTokens members ↔ ∃ member ∈ members, Token.null ∈ member.2.tokens := by
  induction members with
  | nil => simp [membersTokens]
  | cons member rest ih =>
    obtain ⟨key?, value⟩ := member
    simp [membersTokens, ih]

theorem null_mem_object {members : List (Option String × Outline)} :
    .null ∈ (Outline.object members).tokens ↔ ∃ member ∈ members, Token.null ∈ member.2.tokens := by
  cases members with
  | nil => simp [Outline.tokens]
  | cons member rest =>
    obtain ⟨key?, value⟩ := member
    simp [Outline.tokens, null_mem_members_tokens]

theorem items_have_null_iff {room : Nat} {items : List Outline} (inner : ∀ item ∈ items, ∀ tree,
      settle room item = some tree → (.null ∈ item.tokens ↔ tree.hasNull = true)) {trees : List Json}
    (settled : settleItems room items = some trees) :
    (∃ item ∈ items, Token.null ∈ item.tokens) ↔ itemsHaveNull trees = true := by
  induction items generalizing trees with
  | nil =>
    obtain rfl := Option.some.inj settled
    simp [itemsHaveNull]
  | cons item rest ih =>
    obtain ⟨first, others⟩ := List.forall_mem_cons.mp inner
    obtain ⟨tree, later, begun, ended, rfl⟩ := settle_items_cons.mp settled
    rw [itemsHaveNull, Bool.or_eq_true, ← first tree begun, ← ih others ended]
    simp

theorem members_have_null_iff {room : Nat} {members : List (Option String × Outline)} (inner : ∀ member ∈ members,
      ∀ tree, settle room member.2 = some tree → (.null ∈ member.2.tokens ↔ tree.hasNull = true))
    {trees : List (String × Json)} (settled : settleMembers room members = some trees) :
    (∃ member ∈ members, Token.null ∈ member.2.tokens) ↔ membersHaveNull trees = true := by
  induction members generalizing trees with
  | nil =>
    obtain rfl := Option.some.inj settled
    simp [membersHaveNull]
  | cons member rest ih =>
    obtain ⟨first, others⟩ := List.forall_mem_cons.mp inner
    obtain ⟨key, tree, later, named, begun, ended, rfl⟩ := settle_members_cons.mp settled
    rw [membersHaveNull, Bool.or_eq_true, ← first tree begun, ← ih others ended]
    simp

theorem null_mem_tokens_iff {room : Nat} {outline : Outline} {tree : Json} (settled : settle room outline = some tree) :
    .null ∈ outline.tokens ↔ tree.hasNull = true := by
  induction outline generalizing room tree with
  | null =>
    obtain rfl := Option.some.inj settled
    simp [Outline.tokens, hasNull]
  | bool b =>
    obtain rfl := Option.some.inj settled
    simp [Outline.tokens, hasNull]
  | number n? =>
    obtain ⟨n, _, rfl⟩ := Option.map_eq_some_iff.mp settled
    simp [Outline.tokens, hasNull]
  | str text? =>
    obtain ⟨text, _, rfl⟩ := Option.map_eq_some_iff.mp settled
    simp [Outline.tokens, hasNull]
  | array items ih =>
    obtain ⟨_, trees, inner, rfl⟩ := settle_array.mp settled
    rw [null_mem_array, hasNull]
    exact items_have_null_iff (fun item member tree => ih item member) inner
  | object members ih =>
    obtain ⟨_, trees, inner, rfl⟩ := settle_object.mp settled
    rw [null_mem_object, hasNull]
    exact members_have_null_iff (fun member inside tree => ih member inside) inner

theorem read_value_eq_some_iff {room : Nat} {toks rest : List Token} {tree : Json} :
    readValue room toks = some (tree, rest) ↔
      ∃ outline, toks = outline.tokens ++ rest ∧ settle room outline = some tree := by
  constructor
  · intro found
    obtain ⟨⟨outline, after⟩, read, found⟩ := Option.bind_eq_some_iff.mp found
    obtain ⟨settled, inner, same⟩ := Option.bind_eq_some_iff.mp found
    obtain ⟨rfl, rfl⟩ := Prod.mk.inj (Option.some.inj same)
    exact ⟨outline, read_outline_eq_some_iff.mp read, inner⟩
  · rintro ⟨outline, rfl, inner⟩
    rw [readValue, read_outline_eq_some_iff.mpr rfl]
    simp [inner]

theorem read_value_tokens {room : Nat} {outline : Outline} {tree : Json} (settled : settle room outline = some tree)
    (rest : List Token) : readValue room (outline.tokens ++ rest) = some (tree, rest) :=
  read_value_eq_some_iff.mpr ⟨outline, rfl, settled⟩

theorem parse_eq_some_iff {text : String} {tree : Json} :
    parse? text = some tree ↔ readValue maxDepth (tokens text.toList) = some (tree, []) := by
  unfold parse?
  split
  · next found => simp [found]
  · next other =>
    simp only [reduceCtorEq, false_iff]
    exact fun found => other tree found

theorem null_mem_tokens_of_parse {text : String} {tree : Json} (parsed : parse? text = some tree) :
    .null ∈ tokens text.toList ↔ tree.hasNull = true := by
  obtain ⟨outline, whole, settled⟩ := read_value_eq_some_iff.mp (parse_eq_some_iff.mp parsed)
  rw [whole, List.append_nil]
  exact null_mem_tokens_iff settled

end Stencil.Json
