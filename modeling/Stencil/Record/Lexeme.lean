import Stencil.Text

set_option autoImplicit false

namespace Stencil.Declaration

-- Blanks and comments stand between lexemes, but a comment that documents something is an attribute.
inductive Lexeme where
  | word (text : String)
  | number (text : List Char)
  | lifetime (text : List Char)
  | literal (text : List Char)
  | documentation (text : List Char)
  | joint (text : String)
  | mark (c : Char)
deriving DecidableEq, Repr

namespace Lexeme

def text : Lexeme → List Char
  | .word text => text.toList
  | .number text => text
  | .lifetime text => text
  | .literal text => text
  | .documentation text => text
  | .joint text => text.toList
  | .mark c => [c]

def isSeparator (c : Char) : Bool := Text.isBlank c || c == '\u200e' || c == '\u200f'

def isWordChar (c : Char) : Bool := c.isAlphanum || c == '_' || (0x80 ≤ c.toNat && !isSeparator c)

def afterLine (text : List Char) : List Char := text.dropWhile (· != '\n')

def afterBlock (depth : Nat) : List Char → List Char
  | [] => []
  | '*' :: '/' :: rest =>
    match depth with
    | 0 => rest
    | outer + 1 => afterBlock outer rest
  | '/' :: '*' :: rest => afterBlock (depth + 1) rest
  | _ :: rest => afterBlock depth rest

-- The text of a comment between quotation marks. A zero before a digit is written so that the digit is no part
-- of its escape.
def quotedNote : List Char → List Char
  | [] => []
  | c :: rest =>
    let text := if c = '\x00' ∧ rest.head?.any (fun d => '0' ≤ d && d ≤ '7') then ['\\', 'x', '0', '0']
      else Text.quoteChar c
    text ++ quotedNote rest

def documented (around : Bool) (note : List Char) : Lexeme :=
  .documentation ((if around then ['#', '!'] else ['#'])
    ++ "[doc=\"".toList ++ quotedNote note ++ ['"', ']'])

def lineText (text : List Char) : List Char :=
  let line := text.takeWhile (· != '\n')
  if line.getLast? = some '\r' then line.dropLast else line

def lineNote? (text : List Char) : Option Lexeme :=
  match text with
  | '!' :: rest => some (documented true (lineText rest))
  | '/' :: '/' :: _ => none
  | '/' :: rest => some (documented false (lineText rest))
  | _ => none

def blockText (text : List Char) : List Char :=
  (text.take (text.length - (afterBlock 0 text).length)).dropLast.dropLast

def blockNote? (text : List Char) : Option Lexeme :=
  match text with
  | '!' :: rest => some (documented true (blockText rest))
  | '*' :: '*' :: _ => none
  | '*' :: '/' :: _ => none
  | '*' :: rest => some (documented false (blockText rest))
  | _ => none

def jointMarks : List String := ["->", "=>", "::", "||", "!=", "<<", "...", "..="]

def joint? (text : List Char) : Option String := jointMarks.find? fun marks => marks.toList.isPrefixOf text

def readQuoted (quote : Char) : List Char → List Char × List Char
  | [] => ([], [])
  | '\\' :: c :: rest => let read := readQuoted quote rest; ('\\' :: c :: read.1, read.2)
  | c :: rest =>
    if c = quote then ([c], rest)
    else let read := readQuoted quote rest; (c :: read.1, read.2)

def readRaw (closing : List Char) : List Char → List Char × List Char
  | [] => ([], [])
  | c :: rest =>
    if c = '"' ∧ closing.isPrefixOf rest then (c :: closing, rest.drop closing.length)
    else let read := readRaw closing rest; (c :: read.1, read.2)

def isLiteralPrefix (word : List Char) : Bool := [['b'], ['c'], ['r'], ['b', 'r'], ['c', 'r']].contains word

def isRawPrefix (word : List Char) : Bool := [['r'], ['b', 'r'], ['c', 'r']].contains word

def readWord (first : Char) (text : List Char) : Lexeme × List Char :=
  let word := first :: text.takeWhile isWordChar
  let after := text.dropWhile isWordChar
  let hashes := if isRawPrefix word then after.takeWhile (· == '#') else []
  match after.drop hashes.length with
  | '"' :: rest =>
    if isRawPrefix word then
      let read := readRaw hashes rest
      (.literal (word ++ hashes ++ '"' :: read.1), read.2)
    else if isLiteralPrefix word then
      let read := readQuoted '"' rest
      (.literal (word ++ '"' :: read.1), read.2)
    else (.word (String.ofList word), after)
  | rest =>
    if word = ['r'] ∧ hashes = ['#'] then
      (.word (String.ofList (word ++ hashes ++ rest.takeWhile isWordChar)), rest.dropWhile isWordChar)
    else (.word (String.ofList word), after)

def continuesNumber : List Char → Bool
  | [] => true
  | c :: _ => c.isDigit || (c != '.' && !isWordChar c)

def readNumber (first : Char) (text : List Char) : Lexeme × List Char :=
  let whole := first :: text.takeWhile isWordChar
  match text.dropWhile isWordChar with
  | '.' :: rest =>
    if whole.all (fun c => c.isDigit || c == '_') && continuesNumber rest then
      (.number (whole ++ '.' :: rest.takeWhile isWordChar), rest.dropWhile isWordChar)
    else (.number whole, '.' :: rest)
  | after => (.number whole, after)

def readApostrophe (text : List Char) : Lexeme × List Char :=
  match text with
  | '\\' :: _ => let read := readQuoted '\'' text; (.literal ('\'' :: read.1), read.2)
  | c :: '\'' :: rest => (.literal ['\'', c, '\''], rest)
  | _ => (.lifetime ('\'' :: text.takeWhile isWordChar), text.dropWhile isWordChar)

def readFrom (first : Char) (text : List Char) : Lexeme × List Char :=
  match first with
  | '"' => let read := readQuoted '"' text; (.literal ('"' :: read.1), read.2)
  | '\'' => readApostrophe text
  | _ =>
    if first.isDigit then readNumber first text
    else if isWordChar first then readWord first text
    else
      match joint? (first :: text) with
      | some marks => (.joint marks, text.drop (marks.length - 1))
      | none => (.mark first, text)

theorem length_after_block_le (depth : Nat) (text : List Char) :
    (afterBlock depth text).length ≤ text.length := by
  fun_induction afterBlock depth text with
  | case1 => exact Nat.le_refl _
  | case2 rest => simp only [List.length_cons]; omega
  | case3 rest outer ih => simp only [List.length_cons]; omega
  | case4 depth rest ih => simp only [List.length_cons]; omega
  | case5 depth c rest _ _ ih => simp only [List.length_cons]; omega

theorem length_read_quoted_le (quote : Char) (text : List Char) :
    (readQuoted quote text).2.length ≤ text.length := by
  fun_induction readQuoted quote text with
  | case1 => exact Nat.le_refl _
  | case2 c rest read ih => exact Nat.le_succ_of_le (Nat.le_succ_of_le ih)
  | case3 rest _ => exact Nat.le_succ _
  | case4 c rest _ _ read ih => exact Nat.le_succ_of_le ih

theorem length_read_raw_le (closing text : List Char) : (readRaw closing text).2.length ≤ text.length := by
  induction text with
  | nil => exact Nat.le_refl _
  | cons c rest ih =>
    unfold readRaw
    split
    · simp only [List.length_drop, List.length_cons]; omega
    · simp only [List.length_cons]; omega

theorem length_read_word_le (first : Char) (text : List Char) :
    (readWord first text).2.length ≤ text.length := by
  have after := (List.dropWhile_sublist (l := text) isWordChar).length_le
  unfold readWord
  simp only
  generalize (if isRawPrefix (first :: text.takeWhile isWordChar) then
    (text.dropWhile isWordChar).takeWhile (· == '#') else []) = hashes
  have dropped : ((text.dropWhile isWordChar).drop hashes.length).length ≤ text.length := by
    rw [List.length_drop]
    omega
  split
  · next rest same =>
    rw [same, List.length_cons] at dropped
    have raw := length_read_raw_le hashes rest
    have quoted := length_read_quoted_le '"' rest
    split
    · exact Nat.le_trans raw (by omega)
    · split
      · exact Nat.le_trans quoted (by omega)
      · exact after
  · split
    · exact Nat.le_trans (List.dropWhile_sublist _).length_le dropped
    · exact after

theorem length_read_number_le (first : Char) (text : List Char) :
    (readNumber first text).2.length ≤ text.length := by
  have after := (List.dropWhile_sublist (l := text) isWordChar).length_le
  unfold readNumber
  simp only
  split
  · next rest same =>
    rw [same, List.length_cons] at after
    split
    · exact Nat.le_trans (List.dropWhile_sublist _).length_le (by omega)
    · exact after
  · exact after

theorem length_read_apostrophe_le (text : List Char) : (readApostrophe text).2.length ≤ text.length := by
  unfold readApostrophe
  split
  · exact length_read_quoted_le _ _
  · simp only [List.length_cons]; omega
  · exact (List.dropWhile_sublist _).length_le

theorem length_read_from_le (first : Char) (text : List Char) :
    (readFrom first text).2.length ≤ text.length := by
  unfold readFrom
  split
  · exact length_read_quoted_le _ _
  · exact length_read_apostrophe_le _
  · split
    · exact length_read_number_le _ _
    · split
      · exact length_read_word_le _ _
      · split
        · exact (List.drop_sublist _ _).length_le
        · exact Nat.le_refl _

def scan (text : List Char) : List Lexeme :=
  match text with
  | [] => []
  | '/' :: '/' :: rest => (lineNote? rest).toList ++ scan (afterLine rest)
  | '/' :: '*' :: rest => (blockNote? rest).toList ++ scan (afterBlock 0 rest)
  | c :: rest => if isSeparator c then scan rest else (readFrom c rest).1 :: scan (readFrom c rest).2
termination_by text.length
decreasing_by
  · have shorter := (List.dropWhile_sublist (l := rest) (· != '\n')).length_le
    simp only [afterLine, List.length_cons]
    omega
  · have shorter := length_after_block_le 0 rest
    simp only [List.length_cons]
    omega
  · exact Nat.lt_succ_self _
  · exact Nat.lt_succ_of_le (length_read_from_le c rest)

def isDocumentation : Lexeme → Bool
  | .documentation _ => true
  | _ => false

def isAround : Lexeme → Bool
  | .documentation text => ['#', '!'].isPrefixOf text
  | _ => false

def plainText (text : String) : String :=
  String.ofList (((scan text.toList).filter fun lexeme => !lexeme.isDocumentation).flatMap Lexeme.text)

end Lexeme

end Stencil.Declaration
