import Stencil.Json.Outline

set_option autoImplicit false

namespace Stencil.Json

@[induction_eliminator]
theorem Outline.nested {motive : Outline → Prop} (null : motive .null) (bool : ∀ b, motive (.bool b))
    (number : ∀ n?, motive (.number n?)) (str : ∀ text?, motive (.str text?))
    (array : ∀ items, (∀ item ∈ items, motive item) → motive (.array items))
    (object : ∀ members, (∀ member ∈ members, motive member.2) → motive (.object members)) (outline : Outline) :
    motive outline :=
  @Outline.rec motive (fun items => ∀ item ∈ items, motive item)
    (fun members => ∀ member ∈ members, motive member.2) (fun member => motive member.2) null bool number str array
    object (by simp) (fun _ _ first others => List.forall_mem_cons.mpr ⟨first, others⟩)
    (by simp) (fun _ _ first others => List.forall_mem_cons.mpr ⟨first, others⟩) (fun _ _ inner => inner) outline

mutual

def Outline.tokens : Outline → List Token
  | .null => [.null]
  | .bool b => [.bool b]
  | .number n? => [.number n?]
  | .str text? => [.str text?]
  | .array [] => [.openBracket, .closeBracket]
  | .array (item :: rest) => .openBracket :: (item.tokens ++ itemsTokens rest)
  | .object [] => [.openBrace, .closeBrace]
  | .object ((key?, value) :: rest) => .openBrace :: .str key? :: .colon :: (value.tokens ++ membersTokens rest)

def itemsTokens : List Outline → List Token
  | [] => [.closeBracket]
  | item :: rest => .comma :: (item.tokens ++ itemsTokens rest)

def membersTokens : List (Option String × Outline) → List Token
  | [] => [.closeBrace]
  | (key?, value) :: rest => .comma :: .str key? :: .colon :: (value.tokens ++ membersTokens rest)

end

def resume (outline : Outline) (frames : List Frame) (rest : List Token) : Option (Outline × List Token) :=
  match complete outline frames with
  | none => none
  | some (.done whole) => some (whole, rest)
  | some (.more goal frames) => run goal frames rest

theorem exists_tokens_eq (outline : Outline) :
    ∃ token more, outline.tokens = token :: more ∧ token ≠ .closeBracket := by
  cases outline with
  | array items => cases items <;> exact ⟨_, _, rfl, by simp⟩
  | object members => cases members <;> exact ⟨_, _, rfl, by simp⟩
  | _ => exact ⟨_, _, rfl, by simp⟩

theorem run_first_item {token : Token} (unclosed : token ≠ .closeBracket) (frames : List Frame) (rest : List Token) :
    run .firstItem (.array [] :: frames) (token :: rest) = run .value (.array [] :: frames) (token :: rest) := by
  have noEnd : stepEnd (.array [] :: frames) token = none := by
    cases token with
    | closeBracket => exact absurd rfl unclosed
    | _ => rfl
  have same : step .firstItem (.array [] :: frames) token = step .value (.array [] :: frames) token := by
    simp only [step, noEnd, Option.none_or]
  rw [run, run, same]

theorem run_items {items : List Outline} (inner : ∀ item ∈ items, ∀ frames rest,
      run .value frames (item.tokens ++ rest) = resume item frames rest)
    (done : List Outline) (frames : List Frame) (rest : List Token) :
    run .next (.array done :: frames) (itemsTokens items ++ rest) =
      resume (.array (done.reverse ++ items)) frames rest := by
  induction items generalizing done with
  | nil => rw [List.append_nil]; rfl
  | cons item later ih =>
    obtain ⟨first, others⟩ := List.forall_mem_cons.mp inner
    have next := ih others (item :: done)
    rw [List.reverse_cons, List.append_assoc, List.singleton_append] at next
    rw [itemsTokens, List.cons_append, List.append_assoc, ← next]
    exact first (.array done :: frames) (itemsTokens later ++ rest)

theorem run_members {members : List (Option String × Outline)} (inner : ∀ member ∈ members, ∀ frames rest,
      run .value frames (member.2.tokens ++ rest) = resume member.2 frames rest)
    (done : List (Option String × Outline)) (frames : List Frame) (rest : List Token) :
    run .next (.object done :: frames) (membersTokens members ++ rest) =
      resume (.object (done.reverse ++ members)) frames rest := by
  induction members generalizing done with
  | nil => rw [List.append_nil]; rfl
  | cons member later ih =>
    obtain ⟨first, others⟩ := List.forall_mem_cons.mp inner
    have next := ih others (member :: done)
    rw [List.reverse_cons, List.append_assoc, List.singleton_append] at next
    rw [membersTokens, List.cons_append, List.cons_append, List.cons_append, List.append_assoc, ← next]
    exact first (.member done member.1 :: frames) (membersTokens later ++ rest)

theorem run_tokens (outline : Outline) (frames : List Frame) (rest : List Token) :
    run .value frames (outline.tokens ++ rest) = resume outline frames rest := by
  induction outline generalizing frames rest with
  | null | bool b | number n? | str text? => rfl
  | array items ih =>
    cases items with
    | nil =>
      have closed : step .firstItem (.array [] :: frames) .closeBracket = complete (.array []) frames :=
        Option.or_none
      change run .firstItem (.array [] :: frames) (.closeBracket :: rest) = _
      rw [run, closed]
      rfl
    | cons item later =>
      obtain ⟨first, others⟩ := List.forall_mem_cons.mp ih
      obtain ⟨token, more, begins, unclosed⟩ := exists_tokens_eq item
      have opened : run .firstItem (.array [] :: frames) (item.tokens ++ (itemsTokens later ++ rest)) =
          run .value (.array [] :: frames) (item.tokens ++ (itemsTokens later ++ rest)) := by
        rw [begins]
        exact run_first_item unclosed frames _
      rw [Outline.tokens, List.cons_append, List.append_assoc]
      refine (opened.trans (first (.array [] :: frames) _)).trans ?_
      exact run_items others [item] frames rest
  | object members ih =>
    cases members with
    | nil =>
      have closed : step .firstKey (.object [] :: frames) .closeBrace = complete (.object []) frames :=
        Option.or_none
      change run .firstKey (.object [] :: frames) (.closeBrace :: rest) = _
      rw [run, closed]
      rfl
    | cons member later =>
      obtain ⟨first, others⟩ := List.forall_mem_cons.mp ih
      rw [Outline.tokens, List.cons_append, List.cons_append, List.cons_append, List.append_assoc]
      refine (first (.member [] member.1 :: frames) _).trans ?_
      exact run_members others [member] frames rest

def nextItem : List Outline → List Token
  | [] => [.openBracket]
  | item :: earlier => nextItem earlier ++ (item.tokens ++ [.comma])

def nextMember : List (Option String × Outline) → List Token
  | [] => [.openBrace]
  | (key?, value) :: earlier => nextMember earlier ++ .str key? :: .colon :: (value.tokens ++ [.comma])

def framesRead : List Frame → List Token
  | [] => []
  | .array done :: below => framesRead below ++ nextItem done
  | .object done :: below => framesRead below ++ nextMember done
  | .member done key? :: below => framesRead below ++ (nextMember done ++ [.str key?, .colon])

-- What has been read when the machine is in a state.
inductive Read : Goal → List Frame → List Token → Prop where
  | value (frames : List Frame) : Read .value frames (framesRead frames)
  | firstItem (below : List Frame) : Read .firstItem (.array [] :: below) (framesRead below ++ [.openBracket])
  | firstKey (below : List Frame) : Read .firstKey (.object [] :: below) (framesRead below ++ [.openBrace])
  | key (done : List (Option String × Outline)) (below : List Frame) :
      Read .key (.object done :: below) (framesRead below ++ nextMember done)
  | colon (done : List (Option String × Outline)) (key? : Option String) (below : List Frame) :
      Read .colon (.member done key? :: below) (framesRead below ++ (nextMember done ++ [.str key?]))
  | nextItem (item : Outline) (done : List Outline) (below : List Frame) :
      Read .next (.array (item :: done) :: below) (framesRead below ++ (nextItem done ++ item.tokens))
  | nextMember (key? : Option String) (value : Outline) (done : List (Option String × Outline))
      (below : List Frame) : Read .next (.object ((key?, value) :: done) :: below)
        (framesRead below ++ (nextMember done ++ .str key? :: .colon :: value.tokens))

def Step.Reads : Step → List Token → Prop
  | .done outline, used => outline.tokens = used
  | .more goal frames, used => Read goal frames used

theorem next_item_append (done : List Outline) (item : Outline) (items : List Outline) :
    nextItem done ++ (item.tokens ++ itemsTokens items) = (Outline.array (done.reverse ++ item :: items)).tokens := by
  induction done generalizing item items with
  | nil => rfl
  | cons latest earlier ih =>
    have longer := ih latest (item :: items)
    rw [itemsTokens] at longer
    simpa [nextItem] using longer

theorem next_member_append (done : List (Option String × Outline)) (key? : Option String) (value : Outline)
    (members : List (Option String × Outline)) :
    nextMember done ++ .str key? :: .colon :: (value.tokens ++ membersTokens members) =
      (Outline.object (done.reverse ++ (key?, value) :: members)).tokens := by
  induction done generalizing key? value members with
  | nil => rfl
  | cons latest earlier ih =>
    have longer := ih latest.1 latest.2 ((key?, value) :: members)
    rw [membersTokens] at longer
    simpa [nextMember] using longer

theorem tokens_scalar {token : Token} {outline : Outline} (found : scalar? token = some outline) :
    outline.tokens = [token] := by
  cases token <;> cases found <;> rfl

theorem reads_complete {outline : Outline} {frames : List Frame} {next : Step}
    (completed : complete outline frames = some next) : next.Reads (framesRead frames ++ outline.tokens) := by
  cases frames with
  | nil => cases completed; rfl
  | cons frame below =>
    cases frame with
    | array done =>
      cases completed
      rw [framesRead, List.append_assoc]
      exact .nextItem outline done below
    | object done => cases completed
    | member done key? =>
      cases completed
      rw [framesRead, List.append_assoc, List.append_assoc]
      exact .nextMember key? outline done below

theorem reads_step_value {frames : List Frame} {token : Token} {next : Step}
    (stepped : stepValue frames token = some next) : next.Reads (framesRead frames ++ [token]) := by
  unfold stepValue at stepped
  split at stepped
  · cases stepped
    exact .firstItem frames
  · cases stepped
    exact .firstKey frames
  · obtain ⟨outline, found, completed⟩ := Option.bind_eq_some_iff.mp stepped
    rw [← tokens_scalar found]
    exact reads_complete completed

theorem reads_step_key {done : List (Option String × Outline)} {below : List Frame} {token : Token} {next : Step}
    (stepped : stepKey (.object done :: below) token = some next) :
    next.Reads (framesRead below ++ nextMember done ++ [token]) := by
  cases token with
  | str key? =>
    cases stepped
    rw [List.append_assoc]
    exact .colon done key? below
  | _ => cases stepped

theorem reads_step_end {goal : Goal} {frames : List Frame} {used : List Token} {token : Token} {next : Step}
    (read : Read goal frames used) (closable : goal = .firstItem ∨ goal = .firstKey ∨ goal = .next)
    (stepped : stepEnd frames token = some next) : next.Reads (used ++ [token]) := by
  cases read with
  | value frames | key done below | colon done key? below => simp at closable
  | firstItem below =>
    cases token with
    | closeBracket => simpa [Outline.tokens] using reads_complete stepped
    | _ => cases stepped
  | firstKey below =>
    cases token with
    | closeBrace => simpa [Outline.tokens] using reads_complete stepped
    | _ => cases stepped
  | nextItem item done below =>
    cases token with
    | closeBracket =>
      have whole := next_item_append done item []
      rw [itemsTokens, ← List.reverse_cons] at whole
      have completed := reads_complete stepped
      rw [← whole] at completed
      simpa using completed
    | _ => cases stepped
  | nextMember key? value done below =>
    cases token with
    | closeBrace =>
      have whole := next_member_append done key? value []
      rw [membersTokens, ← List.reverse_cons] at whole
      have completed := reads_complete stepped
      rw [← whole] at completed
      simpa using completed
    | _ => cases stepped

theorem reads_step {goal : Goal} {frames : List Frame} {used : List Token} {token : Token} {next : Step}
    (read : Read goal frames used) (stepped : step goal frames token = some next) :
    next.Reads (used ++ [token]) := by
  have ending (closable : goal = .firstItem ∨ goal = .firstKey ∨ goal = .next)
      (ended : stepEnd frames token = some next) : next.Reads (used ++ [token]) :=
    reads_step_end read closable ended
  cases read with
  | value frames => exact reads_step_value stepped
  | firstItem below =>
    rcases Option.or_eq_some_iff.mp stepped with ended | ⟨_, began⟩
    · exact ending (by simp) ended
    · exact reads_step_value began
  | firstKey below =>
    rcases Option.or_eq_some_iff.mp stepped with ended | ⟨_, began⟩
    · exact ending (by simp) ended
    · exact reads_step_key began
  | key done below => exact reads_step_key stepped
  | colon done key? below =>
    change (if token = .colon then some (.more .value (.member done key? :: below)) else none) = some next at stepped
    split at stepped
    · next same =>
      cases stepped
      have read := Read.value (.member done key? :: below)
      simpa [Step.Reads, framesRead, same] using read
    · cases stepped
  | nextItem item done below =>
    cases token with
    | comma =>
      cases stepped
      have read := Read.value (.array (item :: done) :: below)
      simpa [Step.Reads, framesRead, nextItem] using read
    | _ => exact ending (by simp) stepped
  | nextMember key? value done below =>
    cases token with
    | comma =>
      cases stepped
      have read := Read.key ((key?, value) :: done) below
      simpa [Step.Reads, nextMember] using read
    | _ => exact ending (by simp) stepped

theorem eq_of_run {goal : Goal} {frames : List Frame} {used toks rest : List Token} {outline : Outline}
    (read : Read goal frames used) (found : run goal frames toks = some (outline, rest)) :
    used ++ toks = outline.tokens ++ rest := by
  induction toks generalizing goal frames used with
  | nil => cases found
  | cons token later ih =>
    unfold run at found
    split at found
    · cases found
    · next whole stepped =>
      obtain ⟨rfl, rfl⟩ := Prod.mk.inj (Option.some.inj found)
      have tokens : whole.tokens = used ++ [token] := reads_step read stepped
      simp [tokens]
    · next stepped =>
      have later := ih (reads_step read stepped) found
      simpa using later

theorem read_outline_eq_some_iff {toks rest : List Token} {outline : Outline} :
    readOutline toks = some (outline, rest) ↔ toks = outline.tokens ++ rest := by
  constructor
  · intro found
    exact eq_of_run (.value []) found
  · rintro rfl
    exact run_tokens outline [] rest

end Stencil.Json
