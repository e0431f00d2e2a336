import Stencil.Proofs.Span
import Stencil.Template.Basic

set_option autoImplicit false

namespace Stencil

def Token.resolve (config : Config) (context : Context) (token : Token) : Except RenderError String :=
  match context.get? token.name with
  | some value => value.render config
  | none => .ok (token.default?.getD config.globalDefault)

namespace Template

def literals? (definition : String) (cursor : Nat) : List Token → Option (List String)
  | [] => (slice? definition cursor definition.utf8ByteSize).map fun last => [last]
  | token :: rest => do
    let literal ← slice? definition cursor token.start
    let literals ← literals? definition token.stop rest
    return literal :: literals

def weave : List String → List String → String
  | [], _ => ""
  | literal :: _, [] => literal
  | literal :: literals, text :: texts => literal ++ text ++ weave literals texts

-- The same texts read off the pieces; what was read since the last token is pending.
def between (pending : List Char) : List Piece → List String
  | [] => [String.ofList pending]
  | .token _ :: rest => String.ofList pending :: between [] rest
  | piece :: rest => between (pending ++ piece.source) rest

theorem length_between (pending : List Char) (start : Nat) (all : List Piece) :
    (between pending all).length = (Token.ofPieces start all).length + 1 := by
  induction all generalizing pending start with
  | nil => rfl
  | cons piece rest ih =>
    cases piece with
    | char c => exact ih _ _
    | escaped p => exact ih _ _
    | token p => exact congrArg Nat.succ (ih _ _)

theorem literals_eq_between {definition : String} (before pending : List Char) (all : List Piece)
    (whole : definition.toList = before ++ pending ++ all.flatMap Piece.source) :
    literals? definition (Token.byteLength before) (Token.ofPieces (Token.byteLength (before ++ pending)) all) =
      some (between pending all) := by
  induction all generalizing before pending with
  | nil =>
    have size : definition.utf8ByteSize = Token.byteLength (before ++ pending) := by
      rw [← Token.byte_length_to_list, whole, List.flatMap_nil, List.append_nil]
    rw [Token.ofPieces, literals?, size, Token.slice_of_to_list before pending [] whole]
    rfl
  | cons piece rest ih =>
    have cut := Token.slice_of_to_list before pending (piece.source ++ rest.flatMap Piece.source) whole
    have longer := ih before (pending ++ piece.source) (by simpa using whole)
    rw [← List.append_assoc, Token.byte_length_append (before ++ pending)] at longer
    cases piece with
    | char c => exact longer
    | escaped p => exact longer
    | token p =>
      have later := ih (before ++ pending ++ p.source) [] (by simpa [Piece.source] using whole)
      rw [List.append_nil, Token.byte_length_append (before ++ pending)] at later
      change (do
        let literal ← slice? definition (Token.byteLength before) (Token.byteLength (before ++ pending))
        let literals ← literals? definition (Token.byteLength (before ++ pending) + Token.byteLength p.source)
          (Token.ofPieces (Token.byteLength (before ++ pending) + Token.byteLength p.source) rest)
        return literal :: literals) = some (String.ofList pending :: between [] rest)
      rw [cut, later]
      rfl

theorem weave_between (pending : List Char) (start : Nat) (all : List Piece) :
    weave (between pending all) ((Token.ofPieces start all).map Token.source) =
      String.ofList (pending ++ all.flatMap Piece.source) := by
  induction all generalizing pending start with
  | nil => rw [List.flatMap_nil, List.append_nil]; rfl
  | cons piece rest ih =>
    have longer := ih (pending ++ piece.source) (start + Token.byteLength piece.source)
    rw [List.append_assoc, ← List.flatMap_cons] at longer
    cases piece with
    | char c => exact longer
    | escaped p => exact longer
    | token p =>
      change String.ofList pending ++ (Token.placed start p).source ++
        weave (between [] rest) ((Token.ofPieces (start + Token.byteLength p.source) rest).map Token.source) = _
      rw [ih, Token.source_placed, List.flatMap_cons, ← String.ofList_append, ← String.ofList_append,
        List.append_assoc]
      rfl

theorem replacement_eq_resolve (config : Config) (context : Context) (start : Nat) (p : Placeholder) :
    replacement config context p = ((Token.placed start p).resolve config context).map String.toList := by
  obtain ⟨name, default?⟩ := p
  unfold replacement Token.resolve
  simp only [Token.placed]
  cases context.get? (String.ofList name) with
  | some value => rfl
  | none => cases default? <;> simp [Except.map]

theorem except_map_map {ε α β γ : Type} (f : α → β) (g : β → γ) (result : Except ε α) :
    (result.map f).map g = result.map fun a => g (f a) := by
  cases result <;> rfl

theorem except_map_congr {ε α β γ δ : Type} {f : α → γ} {g : β → γ} {h : α → δ} {k : β → δ} {first : Except ε α}
    {second : Except ε β} (related : first.map f = second.map g) (same : ∀ a b, f a = g b → h a = k b) :
    first.map h = second.map k := by
  cases first with
  | error fault =>
    cases second with
    | error other => exact congrArg Except.error (Except.error.inj related)
    | ok b => cases related
  | ok a =>
    cases second with
    | error other => cases related
    | ok b => exact congrArg Except.ok (same a b (Except.ok.inj related))

theorem fill_eq_weave (config : Config) (context : Context) (pending : List Char) (start : Nat)
    (all : List Piece) :
    (fill config context all).map (fun text => String.ofList (pending ++ text)) =
      ((Token.ofPieces start all).mapM (Token.resolve config context)).map (weave (between pending all)) := by
  induction all generalizing pending start with
  | nil => simp only [fill, Except.map, List.append_nil, Token.ofPieces, List.mapM_nil]; rfl
  | cons piece rest ih =>
    have longer : ((fill config context rest).map (piece.source ++ ·)).map
        (fun text => String.ofList (pending ++ text)) =
        ((Token.ofPieces (start + Token.byteLength piece.source) rest).mapM (Token.resolve config context)).map
          (weave (between (pending ++ piece.source) rest)) := by
      rw [← ih, except_map_map]
      simp only [List.append_assoc]
    cases piece with
    | char c => exact longer
    | escaped p => exact longer
    | token p =>
      have later := ih [] (start + Token.byteLength p.source)
      change (do
        let text ← replacement config context p
        let after ← fill config context rest
        return text ++ after).map _ =
          ((Token.placed start p :: Token.ofPieces (start + Token.byteLength p.source) rest).mapM
            (Token.resolve config context)).map (weave (String.ofList pending :: between [] rest))
      rw [List.mapM_cons, replacement_eq_resolve config context start p]
      cases (Token.placed start p).resolve config context with
      | error fault => rfl
      | ok text =>
        have left : (do
            let after ← fill config context rest
            return text.toList ++ after).map (fun text => String.ofList (pending ++ text)) =
              (fill config context rest).map fun after => String.ofList (pending ++ (text.toList ++ after)) := by
          cases fill config context rest <;> rfl
        have filled : (fill config context rest).map (fun after => String.ofList (pending ++ (text.toList ++ after))) =
            ((Token.ofPieces (start + Token.byteLength p.source) rest).mapM (Token.resolve config context)).map
              fun texts => String.ofList pending ++ text ++ weave (between [] rest) texts := by
          refine except_map_congr later fun after texts same => ?_
          rw [← same, String.ofList_append, String.ofList_append, String.ofList_toList, String.append_assoc]
          rfl
        refine (left.trans filled).trans ?_
        cases (Token.ofPieces (start + Token.byteLength p.source) rest).mapM (Token.resolve config context) <;> rfl

theorem render_eq_resolve (template : Template) (context : Context) :
    template.render context =
      (template.tokens.mapM (Token.resolve template.config context)).map fun replacements =>
        Text.unescape (weave (between [] (pieces template.definition.toList)) replacements) := by
  have filled := fill_eq_weave template.config context [] 0 (pieces template.definition.toList)
  calc template.render context
      = ((fill template.config context (pieces template.definition.toList)).map
          fun text => String.ofList ([] ++ text)).map Text.unescape := by
        simp only [render, except_map_map, Text.unescape, List.nil_append, String.toList_ofList]
    _ = _ := by
        rw [filled, except_map_map]
        rfl

theorem render_eq_weave (template : Template) (context : Context) :
    ∃ literals : List String,
      literals? template.definition 0 template.tokens = some literals ∧
      literals.length = template.tokens.length + 1 ∧
      (∀ token ∈ template.tokens,
        slice? template.definition token.start token.stop = some token.source) ∧
      weave literals (template.tokens.map Token.source) = template.definition ∧
      template.render context =
        (template.tokens.mapM (Token.resolve template.config context)).map fun replacements =>
          Text.unescape (weave literals replacements) := by
  have whole := flat_map_source_pieces template.definition.toList
  refine ⟨between [] (pieces template.definition.toList), ?_, ?_, ?_, ?_, ?_⟩
  · exact literals_eq_between [] [] _ whole.symm
  · exact length_between [] 0 _
  · intro token member
    obtain ⟨before, after, p, split, rfl, body⟩ := mem_scan member
    have cut := slice_append before (Token.placed before.utf8ByteSize p).source after
    rwa [← split, String.utf8ByteSize_append, ← Token.stop_placed] at cut
  · refine (weave_between [] 0 _).trans ?_
    rw [List.nil_append, whole, String.ofList_toList]
  · exact render_eq_resolve template context

end Template

end Stencil
