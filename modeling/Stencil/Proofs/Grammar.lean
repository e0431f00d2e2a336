import Stencil.Proofs.Pattern
import Stencil.Proofs.Placeholder
import Stencil.Text

set_option autoImplicit false

namespace Stencil.Template

open Pattern (Reading attempt consumed)

namespace Grammar

def inName (c : Char) : Bool :=
  ('A' ≤ c && c ≤ 'Z') || ('a' ≤ c && c ≤ 'z') || ('0' ≤ c && c ≤ '9') || c == '_' || c == '-'

def backslash : Pattern := .one (· == '\\')
def opening : Pattern := .one (· == '{')
def colon : Pattern := .one (· == ':')
def closing : Pattern := .one (· == '}')

def name : Pattern := .oneOrMore (.one inName)

-- A brace with its backslash, or else any character that does not close. A backslash is such a character too.
def default : Pattern := .many (.alt (.seq backslash (.one Text.isBrace)) (.one (· != '}')))

def ending : Pattern := .seq (.optional (.seq colon (.group 3 default))) closing

def body : Pattern := .seq (.group 2 name) ending

def token : Pattern := .seq (.optional (.group 1 backslash)) (.seq opening body)

end Grammar

def Placeholder.groups (p : Placeholder) : List (Nat × List Char) :=
  match p.default? with
  | none => [(2, p.name)]
  | some text => [(3, text), (2, p.name)]

theorem in_name_eq_is_name_char : Grammar.inName = isNameChar := by
  funext c
  have upper : c.isUpper = ('A' ≤ c && c ≤ 'Z') := Bool.decide_and _ _
  have lower : c.isLower = ('a' ≤ c && c ≤ 'z') := rfl
  have digit : c.isDigit = ('0' ≤ c && c ≤ '9') := rfl
  have split : c.isAlphanum = (c.isUpper || c.isLower || c.isDigit) := rfl
  rw [Grammar.inName, isNameChar, split, upper, lower, digit]

def Word (name : String) : Prop :=
  name ≠ "" ∧ ∀ c ∈ name.toList,
    'A' ≤ c ∧ c ≤ 'Z' ∨ 'a' ≤ c ∧ c ≤ 'z' ∨ '0' ≤ c ∧ c ≤ '9' ∨ c = '_' ∨ c = '-'

theorem word_iff_is_name {name : String} : Word name ↔ IsName name.toList := by
  rw [Word, IsName, ← in_name_eq_is_name_char, Ne, ← String.toList_eq_nil_iff]
  simp only [Grammar.inName, Bool.or_eq_true, Bool.and_eq_true, decide_eq_true_eq, beq_iff_eq, or_assoc]

theorem split_default_close (rest : List Char) : splitDefault ('}' :: rest) = some ([], rest) := rfl

theorem snd_split_default_pair (rest : List Char) :
    (splitDefault ('\\' :: '}' :: rest)).map Prod.snd = ((splitDefault rest).map Prod.snd).or (some rest) := by
  unfold splitDefault
  simp only [splitAtBareBrace, splitAtLastBrace]
  cases splitAtBareBrace rest <;> cases splitAtLastBrace rest <;> rfl

theorem snd_split_default_cons {c : Char} {rest : List Char} (other : c ≠ '}')
    (unpaired : ¬ (c = '\\' ∧ rest.head? = some '}')) :
    (splitDefault (c :: rest)).map Prod.snd = (splitDefault rest).map Prod.snd := by
  have bare : splitAtBareBrace (c :: rest) =
      (splitAtBareBrace rest).map fun split => (c :: split.1, split.2) := by
    rw [splitAtBareBrace]
    · rintro tail rfl rfl
      exact unpaired ⟨rfl, rfl⟩
    · exact other
  unfold splitDefault
  rw [bare, splitAtLastBrace, if_neg other]
  cases splitAtBareBrace rest <;> cases splitAtLastBrace rest <;> rfl

section

variable {α : Type} {groups : List (Nat × List Char)} {accept : Reading → Option α}

theorem attempt_default_cons (c : Char) (rest : List Char) :
    attempt Grammar.default ⟨c :: rest, groups⟩ accept =
      ((if c = '\\' then
          match rest with
          | [] => none
          | d :: tail => if Text.isBrace d then attempt Grammar.default ⟨tail, groups⟩ accept else none
        else none).or
        (if c = '}' then none else attempt Grammar.default ⟨rest, groups⟩ accept)).or
        (accept ⟨c :: rest, groups⟩) := by
  have shorter : rest.length < (c :: rest).length := Nat.lt_succ_self _
  unfold Grammar.default Grammar.backslash
  rw [Pattern.attempt_many, Pattern.attempt_alt, Pattern.attempt_seq, Pattern.attempt_one_cons,
    Pattern.attempt_one_cons, if_pos shorter]
  congr 2
  · by_cases escaping : c = '\\'
    · rw [if_pos (by simpa using escaping), if_pos escaping]
      cases rest with
      | nil => rw [Pattern.attempt_one_nil]
      | cons d tail =>
        have fewer : tail.length < (c :: d :: tail).length := by simp only [List.length_cons]; omega
        rw [Pattern.attempt_one_cons, if_pos fewer]
    · rw [if_neg (by simpa using escaping), if_neg escaping]
  · by_cases close : c = '}' <;> simp [close]

theorem attempt_default (done : List Char → α)
    (closes : ∀ after, accept ⟨'}' :: after, groups⟩ = some (done after))
    (stuck : ∀ text, text.head? ≠ some '}' → accept ⟨text, groups⟩ = none) (text : List Char) :
    attempt Grammar.default ⟨text, groups⟩ accept = ((splitDefault text).map Prod.snd).map done := by
  fun_induction splitAtBareBrace text with
  | case1 =>
    unfold Grammar.default Grammar.backslash
    rw [Pattern.attempt_many, Pattern.attempt_alt, Pattern.attempt_seq, Pattern.attempt_one_nil,
      Pattern.attempt_one_nil, stuck [] (by simp)]
    rfl
  | case2 rest ih =>
    -- With the backslash alone in the default, this brace closes: the way out when nothing later does.
    have turned : attempt Grammar.default ⟨'}' :: rest, groups⟩ accept = some (done rest) := by
      rw [attempt_default_cons, if_neg (by decide), if_pos rfl, closes]
      rfl
    have brace : Text.isBrace '}' = true := rfl
    rw [attempt_default_cons, if_pos rfl, if_neg (by decide), turned, stuck _ (by simp), snd_split_default_pair]
    simp only [brace, if_true, ih]
    cases splitDefault rest <;> rfl
  | case3 rest =>
    rw [attempt_default_cons, if_neg (by decide), if_pos rfl, closes, split_default_close]
    rfl
  | case4 c rest unpaired other ih =>
    have alone : ¬ (c = '\\' ∧ rest.head? = some '}') := by
      rintro ⟨backslash, first⟩
      exact head_ne_some (fun tail => unpaired tail backslash) first
    rw [attempt_default_cons, if_neg other, stuck _ (by simpa using other), Option.or_none,
      snd_split_default_cons other alone, ← ih]
    -- Both ways past a backslash and an opening brace lead to the same place.
    by_cases escaping : c = '\\'
    · rw [if_pos escaping]
      cases rest with
      | nil => exact Option.none_or
      | cons d tail =>
        by_cases opens : d = '{'
        · have passed : attempt Grammar.default ⟨d :: tail, groups⟩ accept =
              attempt Grammar.default ⟨tail, groups⟩ accept := by
            rw [attempt_default_cons, if_neg (by simp [opens]), if_neg (by simp [opens]),
              stuck _ (by simp [opens]), Option.none_or, Option.or_none]
          have brace : Text.isBrace d = true := by simp [Text.isBrace, opens]
          simp only [brace, if_true, passed, Option.or_self]
        · have closes : d ≠ '}' := fun same => alone ⟨escaping, by rw [same]; rfl⟩
          have brace : Text.isBrace d = false := by simp [Text.isBrace, opens, closes]
          simp only [brace, Bool.false_eq_true, if_false, Option.none_or]
    · rw [if_neg escaping, Option.none_or]

end

theorem attempt_closing_cons (c : Char) (rest : List Char) (groups : List (Nat × List Char)) :
    attempt Grammar.closing ⟨c :: rest, groups⟩ some = if c = '}' then some ⟨rest, groups⟩ else none := by
  rw [Grammar.closing, Pattern.attempt_one_cons]
  simp only [beq_iff_eq]

theorem attempt_closing_stuck {text : List Char} (other : text.head? ≠ some '}')
    (groups : List (Nat × List Char)) : attempt Grammar.closing ⟨text, groups⟩ some = none := by
  cases text with
  | nil => rw [Grammar.closing, Pattern.attempt_one_nil]
  | cons c rest => rw [attempt_closing_cons, if_neg (by simpa using other)]

theorem attempt_grouped_default (text : List Char) (groups : List (Nat × List Char)) :
    (attempt (.group 3 Grammar.default) ⟨text, groups⟩ fun next => attempt Grammar.closing next some) =
      (splitDefault text).map fun split => ⟨split.2, (3, split.1) :: groups⟩ := by
  rw [Pattern.attempt_group, attempt_default fun after => ⟨after, (3, consumed text ('}' :: after)) :: groups⟩]
  · cases found : splitDefault text with
    | none => rfl
    | some split =>
      simp only [Option.map_some]
      rw [eq_of_split_default found, Pattern.consumed_append]
  · intro after
    rw [attempt_closing_cons, if_pos rfl]
  · intro rest other
    exact attempt_closing_stuck other _

theorem attempt_ending_close (rest : List Char) (groups : List (Nat × List Char)) :
    attempt Grammar.ending ⟨'}' :: rest, groups⟩ some = some ⟨rest, groups⟩ := by
  rw [Grammar.ending, Pattern.attempt_seq, Pattern.optional, Pattern.attempt_alt, Pattern.attempt_seq,
    Grammar.colon, Pattern.attempt_one_cons, if_neg (by decide), Pattern.attempt_empty, attempt_closing_cons,
    if_pos rfl, Option.none_or]

theorem attempt_ending_colon (rest : List Char) (groups : List (Nat × List Char)) :
    attempt Grammar.ending ⟨':' :: rest, groups⟩ some =
      (splitDefault rest).map fun split => ⟨split.2, (3, split.1) :: groups⟩ := by
  rw [Grammar.ending, Pattern.attempt_seq, Pattern.optional, Pattern.attempt_alt, Pattern.attempt_seq,
    Grammar.colon, Pattern.attempt_one_cons, if_pos (by decide), attempt_grouped_default,
    Pattern.attempt_empty, attempt_closing_cons, if_neg (by decide), Option.or_none]

theorem attempt_ending_stuck {text : List Char} (unclosed : text.head? ≠ some '}') (plain : text.head? ≠ some ':')
    (groups : List (Nat × List Char)) : attempt Grammar.ending ⟨text, groups⟩ some = none := by
  rw [Grammar.ending, Pattern.attempt_seq, Pattern.optional, Pattern.attempt_alt, Pattern.attempt_seq,
    Grammar.colon, Pattern.attempt_empty, attempt_closing_stuck unclosed, Option.or_none]
  cases text with
  | nil => rw [Pattern.attempt_one_nil]
  | cons c rest => rw [Pattern.attempt_one_cons, if_neg (by simpa using plain)]

theorem attempt_name (text : List Char) (groups : List (Nat × List Char)) :
    attempt Grammar.body ⟨text, groups⟩ some =
      if text.takeWhile isNameChar = [] then none
      else attempt Grammar.ending ⟨text.dropWhile isNameChar, (2, text.takeWhile isNameChar) :: groups⟩ some := by
  rw [Grammar.body, Pattern.attempt_seq, Pattern.attempt_group, Grammar.name, Pattern.oneOrMore,
    Pattern.attempt_seq, in_name_eq_is_name_char]
  cases text with
  | nil => rw [Pattern.attempt_one_nil, List.takeWhile_nil, if_pos rfl]
  | cons c rest =>
    rw [Pattern.attempt_one_cons]
    by_cases valid : isNameChar c = true
    · have read : consumed (c :: rest) (rest.dropWhile isNameChar) = c :: rest.takeWhile isNameChar := by
        have whole : c :: rest = (c :: rest.takeWhile isNameChar) ++ rest.dropWhile isNameChar := by
          rw [List.cons_append, List.takeWhile_append_dropWhile]
        rw [whole, Pattern.consumed_append]
      rw [if_pos valid, Pattern.attempt_many_one, List.takeWhile_cons_of_pos valid,
        List.dropWhile_cons_of_pos valid, if_neg (List.cons_ne_nil _ _)]
      · dsimp only
        rw [read]
      · intro d tail inside
        apply attempt_ending_stuck
        · rintro ⟨⟩
          exact absurd inside (by decide)
        · rintro ⟨⟩
          exact absurd inside (by decide)
    · rw [if_neg valid, List.takeWhile_cons_of_neg valid, if_pos rfl]

theorem attempt_body (text : List Char) (groups : List (Nat × List Char)) :
    attempt Grammar.body ⟨text, groups⟩ some =
      (readBody text).map fun found => ⟨found.2, found.1.groups ++ groups⟩ := by
  rw [attempt_name]
  unfold readBody
  dsimp only
  split
  · rfl
  · split
    · next rest same => rw [same, attempt_ending_close]; rfl
    · next rest same =>
      rw [same, attempt_ending_colon]
      cases splitDefault rest <;> rfl
    · next notClose notColon =>
      rw [attempt_ending_stuck (head_ne_some notClose) (head_ne_some notColon)]
      rfl

theorem attempt_opening_cons (c : Char) (rest : List Char) (groups : List (Nat × List Char)) :
    attempt (.seq Grammar.opening Grammar.body) ⟨c :: rest, groups⟩ some =
      if c = '{' then (readBody rest).map fun found => ⟨found.2, found.1.groups ++ groups⟩ else none := by
  rw [Pattern.attempt_seq, Grammar.opening, Pattern.attempt_one_cons, attempt_body]
  simp only [beq_iff_eq]

theorem attempt_opening_stuck {text : List Char} (other : text.head? ≠ some '{') (groups : List (Nat × List Char)) :
    attempt (.seq Grammar.opening Grammar.body) ⟨text, groups⟩ some = none := by
  cases text with
  | nil => rw [Pattern.attempt_seq, Grammar.opening, Pattern.attempt_one_nil]
  | cons c rest => rw [attempt_opening_cons, if_neg (by simpa using other)]

theorem head_readings_token (text : List Char) :
    (Pattern.readings Grammar.token ⟨text, []⟩).head? =
      match text with
      | '\\' :: '{' :: rest => (readBody rest).map fun found => ⟨found.2, found.1.groups ++ [(1, ['\\'])]⟩
      | '{' :: rest => (readBody rest).map fun found => ⟨found.2, found.1.groups⟩
      | _ => none := by
  rw [Pattern.head_readings, Grammar.token, Pattern.attempt_seq, Pattern.optional, Pattern.attempt_alt,
    Pattern.attempt_group, Pattern.attempt_empty, Grammar.backslash]
  split
  · next rest =>
    have read : consumed ('\\' :: '{' :: rest) ('{' :: rest) = ['\\'] :=
      Pattern.consumed_append ['\\'] ('{' :: rest)
    rw [Pattern.attempt_one_cons, if_pos (by decide), attempt_opening_cons, attempt_opening_cons, if_pos rfl,
      if_neg (by decide), Option.or_none]
    simp only [read]
  · next rest =>
    rw [Pattern.attempt_one_cons, if_neg (by decide), attempt_opening_cons, if_pos rfl, Option.none_or]
    simp only [List.append_nil]
  · next notEscaped notOpen =>
    rw [attempt_opening_stuck (head_ne_some notOpen), Option.or_none]
    cases text with
    | nil => rw [Pattern.attempt_one_nil]
    | cons c rest =>
      rw [Pattern.attempt_one_cons]
      split
      · next escaping =>
        apply attempt_opening_stuck
        apply head_ne_some
        rintro tail rfl
        exact notEscaped tail (by rw [beq_iff_eq.mp escaping])
      · rfl

end Stencil.Template
