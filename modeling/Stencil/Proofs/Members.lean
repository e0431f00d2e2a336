import Stencil.Json.Object
import Stencil.Proofs.Outcome
import Stencil.Proofs.Settled

set_option autoImplicit false

namespace Stencil.Json

def named (members : List (String × Outline)) : List (Option String × Outline) :=
  members.map fun member => (some member.1, member.2)

theorem exists_named {room : Nat} {written : List (Option String × Outline)} {trees : List (String × Json)}
    (settled : settleMembers room written = some trees) : ∃ members, written = named members := by
  induction written generalizing trees with
  | nil => exact ⟨[], rfl⟩
  | cons member rest ih =>
    obtain ⟨key?, value⟩ := member
    obtain ⟨key, _, _, rfl, _, ended, _⟩ := settle_members_cons.mp settled
    obtain ⟨members, rfl⟩ := ih ended
    exact ⟨(key, value) :: members, rfl⟩

theorem eq_ok_of_left {α : Type} {toks rest : List Token} {read : Except Fault (α × Shorter toks)} {a : α}
    (same : read.map (fun read => (read.1, read.2.1)) = .ok (a, rest)) :
    ∃ shorter, read = .ok (a, ⟨rest, shorter⟩) := by
  obtain ⟨⟨_, _, shorter⟩, rfl, equal⟩ := Outcome.map_eq_ok.mp same
  obtain ⟨rfl, rfl⟩ := Prod.mk.inj equal
  exact ⟨shorter, rfl⟩

theorem map_left {α β : Type} {toks more rest : List Token} {read : Except Fault (α × Shorter more)}
    {alone : Except Fault (α × Shorter toks)}
    (same : read.map (fun read => (read.1, read.2.1)) = alone.map fun read => (read.1, rest)) (f : α → β) :
    (read.map fun read => (f read.1, read.2)).map (fun read => (read.1, read.2.1)) =
      (alone.map fun read => (f read.1, read.2)).map fun read => (read.1, rest) := by
  cases alone with
  | error fault =>
    rw [Outcome.map_eq_error.mp same]
    rfl
  | ok found =>
    obtain ⟨_, whole⟩ := eq_ok_of_left same
    rw [whole]
    rfl

theorem bind_at_end {α : Type} {toks : List Token} {read : Except Fault (α × Shorter toks)} {whole : Except Fault α}
    (same : read.map (fun read => (read.1, read.2.1)) = whole.map (·, [])) :
    read.bind atEnd = whole := by
  cases read with
  | error fault =>
    cases whole with
    | error other => exact congrArg Except.error (Except.error.inj same)
    | ok value => cases same
  | ok found =>
    cases whole with
    | error fault => cases same
    | ok value =>
      obtain ⟨rfl, ended⟩ := Prod.mk.inj (Except.ok.inj same)
      exact if_pos ended

section Step

variable {σ : Type} {member : MemberReader σ} {step : σ → String × Outline → Except Fault σ}
variable (whole : ∀ state key value rest,
  (member state key (.colon :: (value.tokens ++ rest))).map (fun read => (read.1, read.2.1)) =
    (step state (key, value)).map (·, rest))
include whole

theorem read_members_of_error {state : σ} {key : String} {value : Outline} {fault : Fault}
    (failed : step state (key, value) = .error fault) (rest : List Token) :
    readMembers member state (.str (some key) :: .colon :: (value.tokens ++ rest)) = .error fault := by
  have first := whole state key value rest
  rw [failed] at first
  rw [readMembers, Outcome.map_eq_error.mp first]

theorem member_of_ok {state next : σ} {key : String} {value : Outline} (taken : step state (key, value) = .ok next)
    (rest : List Token) :
    ∃ shorter, member state key (.colon :: (value.tokens ++ rest)) = .ok (next, ⟨rest, shorter⟩) := by
  have first := whole state key value rest
  rw [taken] at first
  exact eq_ok_of_left first

theorem read_members_named (members : List (String × Outline)) (state : σ) (key : String) (value : Outline)
    (rest : List Token) :
    (readMembers member state
        (.str (some key) :: .colon :: (value.tokens ++ (membersTokens (named members) ++ rest)))).map
      (fun read => (read.1, read.2.1)) = (((key, value) :: members).foldlM step state).map (·, rest) := by
  induction members generalizing state key value with
  | nil =>
    rw [List.foldlM_cons]
    cases stepped : step state (key, value) with
    | error fault =>
      rw [read_members_of_error whole stepped]
      rfl
    | ok next =>
      obtain ⟨_, read⟩ := member_of_ok whole stepped (membersTokens (named []) ++ rest)
      rw [readMembers, read]
      rfl
  | cons other later ih =>
    rw [List.foldlM_cons]
    cases stepped : step state (key, value) with
    | error fault =>
      rw [read_members_of_error whole stepped]
      rfl
    | ok next =>
      obtain ⟨_, read⟩ := member_of_ok whole stepped (membersTokens (named (other :: later)) ++ rest)
      have run := ih next other.1 other.2
      change _ = ((other :: later).foldlM step next).map (·, rest)
      rw [← run, readMembers, read]
      simp only [named, List.map_cons, membersTokens, List.cons_append, List.append_assoc]
      cases readMembers member next _ <;> rfl

theorem read_object_named (members : List (String × Outline)) :
    ∃ inner, (Outline.object (named members)).tokens = .openBrace :: inner ∧ ∀ state rest,
      (readObject member state (inner ++ rest)).map (fun read => (read.1, read.2.1)) =
        (members.foldlM step state).map (·, rest) := by
  cases members with
  | nil => exact ⟨[.closeBrace], rfl, fun state rest => rfl⟩
  | cons first others =>
    refine ⟨_, rfl, fun state rest => ?_⟩
    rw [List.cons_append, List.cons_append, List.append_assoc]
    exact read_members_named whole others state first.1 first.2 rest

end Step

end Stencil.Json
