import Stencil.Template.Token

set_option autoImplicit false

namespace Stencil

inductive Pattern where
  | empty
  | one (accepts : Char → Bool)
  | seq (first second : Pattern)
  | alt (first second : Pattern)
  | many (body : Pattern)
  | group (index : Nat) (body : Pattern)

namespace Pattern

def optional (body : Pattern) : Pattern := .alt body .empty

def oneOrMore (body : Pattern) : Pattern := .seq body (.many body)

-- The text that is left, and the groups that were read, the latest of them first.
structure Reading where
  rest : List Char
  groups : List (Nat × List Char)
deriving DecidableEq, Repr

def consumed (text rest : List Char) : List Char := text.take (text.length - rest.length)

-- A repetition that reads nothing is not followed by another.
def readings : Pattern → Reading → List Reading
  | .empty, r => [r]
  | .one accepts, r =>
    match r.rest with
    | [] => []
    | c :: rest => if accepts c then [⟨rest, r.groups⟩] else []
  | .seq first second, r => (readings first r).flatMap fun next => readings second next
  | .alt first second, r => readings first r ++ readings second r
  | .many body, r =>
    ((readings body r).flatMap fun next =>
      if next.rest.length < r.rest.length then readings (.many body) next else []) ++ [r]
  | .group index body, r =>
    (readings body r).map fun next => ⟨next.rest, (index, consumed r.rest next.rest) :: next.groups⟩
termination_by p r => (sizeOf p, r.rest.length)

structure Match where
  start : Nat
  stop : Nat
  groups : List (Nat × List Char)
deriving DecidableEq, Repr

def Match.group? (m : Match) (index : Nat) : Option (List Char) := m.groups.lookup index

-- The matches from left to right, each sought from where the one before it ended. One that reads nothing is
-- found as well, but not where another has just ended, and the next is then sought one character on.
def matchesFrom (p : Pattern) (ended? : Option Nat) (start : Nat) (text : List Char) : List Match :=
  match text with
  | [] =>
    match (readings p ⟨[], []⟩).head? with
    | none => []
    | some found => if ended? = some start then [] else [⟨start, start, found.groups⟩]
  | c :: rest =>
    match (readings p ⟨c :: rest, []⟩).head? with
    | none => matchesFrom p ended? (start + c.utf8Size) rest
    | some found =>
      if _shorter : found.rest.length < (c :: rest).length then
        let stop := start + Token.byteLength (consumed (c :: rest) found.rest)
        ⟨start, stop, found.groups⟩ :: matchesFrom p (some stop) stop found.rest
      else if ended? = some start then matchesFrom p ended? (start + c.utf8Size) rest
      else ⟨start, start, found.groups⟩ :: matchesFrom p (some start) (start + c.utf8Size) rest
termination_by text.length
decreasing_by
  · exact Nat.lt_succ_self _
  · exact _shorter
  · exact Nat.lt_succ_self _
  · exact Nat.lt_succ_self _

def allMatches (p : Pattern) (text : String) : List Match := matchesFrom p none 0 text.toList

theorem consumed_append (front back : List Char) : consumed (front ++ back) back = front := by
  simp [consumed]

-- What the first acceptable reading gives: reading on and turning back when that fails.
def attempt {α : Type} (p : Pattern) (r : Reading) (accept : Reading → Option α) : Option α :=
  (readings p r).findSome? accept

section

variable {α : Type} (r : Reading) (accept : Reading → Option α)

theorem find_some_flat_map {β γ : Type} (items : List β) (f : β → List γ) (choose : γ → Option α) :
    (items.flatMap f).findSome? choose = items.findSome? fun item => (f item).findSome? choose := by
  induction items with
  | nil => rfl
  | cons item rest ih =>
    rw [List.flatMap_cons, List.findSome?_append, ih, List.findSome?_cons]
    cases (f item).findSome? choose <;> rfl

theorem attempt_empty : attempt .empty r accept = accept r := by
  simp [attempt, readings]

theorem attempt_one_nil (accepts : Char → Bool) (groups : List (Nat × List Char)) :
    attempt (.one accepts) ⟨[], groups⟩ accept = none := by
  simp [attempt, readings]

theorem attempt_one_cons (accepts : Char → Bool) (c : Char) (rest : List Char) (groups : List (Nat × List Char)) :
    attempt (.one accepts) ⟨c :: rest, groups⟩ accept = if accepts c then accept ⟨rest, groups⟩ else none := by
  by_cases accepted : accepts c <;> simp [attempt, readings, accepted]

theorem attempt_seq (first second : Pattern) :
    attempt (.seq first second) r accept = attempt first r fun next => attempt second next accept := by
  simp only [attempt, readings, find_some_flat_map]

theorem attempt_alt (first second : Pattern) :
    attempt (.alt first second) r accept = (attempt first r accept).or (attempt second r accept) := by
  simp only [attempt, readings, List.findSome?_append]

theorem attempt_group (index : Nat) (body : Pattern) :
    attempt (.group index body) r accept =
      attempt body r fun next => accept ⟨next.rest, (index, consumed r.rest next.rest) :: next.groups⟩ := by
  simp only [attempt, readings, List.findSome?_map, Function.comp_def]

theorem attempt_many (body : Pattern) :
    attempt (.many body) r accept =
      (attempt body r fun next =>
        if next.rest.length < r.rest.length then attempt (.many body) next accept else none).or (accept r) := by
  rw [attempt, readings, List.findSome?_append, find_some_flat_map, List.findSome?_singleton]
  congr 2
  funext next
  split <;> rfl

theorem head_readings (p : Pattern) : (readings p r).head? = attempt p r some := by
  cases found : readings p r <;> simp [attempt, found]

end

theorem matches_from_found {p : Pattern} {text front after : List Char} {groups : List (Nat × List Char)}
    (found : (readings p ⟨text, []⟩).head? = some ⟨after, groups⟩) (whole : text = front ++ after)
    (inhabited : front ≠ []) (ended? : Option Nat) (start : Nat) :
    matchesFrom p ended? start text =
      ⟨start, start + Token.byteLength front, groups⟩ ::
        matchesFrom p (some (start + Token.byteLength front)) (start + Token.byteLength front) after := by
  cases text with
  | nil => exact absurd (List.append_eq_nil_iff.mp whole.symm).1 inhabited
  | cons c rest =>
    have shorter : after.length < (c :: rest).length := by
      have positive := List.length_pos_iff.mpr inhabited
      rw [whole, List.length_append]
      omega
    rw [matchesFrom, found]
    dsimp only
    rw [dif_pos shorter, whole, consumed_append]

theorem matches_from_missing {p : Pattern} {c : Char} {rest : List Char}
    (missing : (readings p ⟨c :: rest, []⟩).head? = none) (ended? : Option Nat) (start : Nat) :
    matchesFrom p ended? start (c :: rest) = matchesFrom p ended? (start + c.utf8Size) rest := by
  rw [matchesFrom, missing]

theorem matches_from_nil {p : Pattern} (missing : (readings p ⟨[], []⟩).head? = none) (ended? : Option Nat)
    (start : Nat) : matchesFrom p ended? start [] = [] := by
  rw [matchesFrom, missing]

theorem attempt_many_one {α : Type} {accepts : Char → Bool} {groups : List (Nat × List Char)}
    {accept : Reading → Option α}
    (stuck : ∀ c rest, accepts c = true → accept ⟨c :: rest, groups⟩ = none) (text : List Char) :
    attempt (.many (.one accepts)) ⟨text, groups⟩ accept = accept ⟨text.dropWhile accepts, groups⟩ := by
  induction text with
  | nil => rw [attempt_many, attempt_one_nil, Option.none_or, List.dropWhile_nil]
  | cons c rest ih =>
    have shorter : rest.length < (c :: rest).length := Nat.lt_succ_self _
    rw [attempt_many, attempt_one_cons]
    by_cases accepted : accepts c = true
    · rw [if_pos accepted, if_pos shorter, ih, stuck c rest accepted, Option.or_none,
        List.dropWhile_cons_of_pos accepted]
    · rw [if_neg accepted, Option.none_or, List.dropWhile_cons_of_neg accepted]

end Pattern

end Stencil
