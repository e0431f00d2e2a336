import Stencil.Json.Number

set_option autoImplicit false

namespace Stencil

namespace Numeric

theorem digits_lt {n d : Nat} (member : d ∈ digits n) : d < 10 := by
  fun_induction digits n with
  | case1 n small => simp_all
  | case2 n large ih =>
    rcases List.mem_append.mp member with front | last
    · exact ih front
    · obtain rfl := List.mem_singleton.mp last
      omega

theorem digits_ne_nil (n : Nat) : digits n ≠ [] := by
  fun_cases digits n with
  | case1 => exact List.cons_ne_nil _ _
  | case2 => exact List.append_ne_nil_of_right_ne_nil _ (List.cons_ne_nil _ _)

theorem head_digits {n : Nat} (positive : n ≠ 0) : (digits n).head? ≠ some 0 := by
  fun_induction digits n with
  | case1 n small => simpa using positive
  | case2 n large ih =>
    obtain ⟨first, others, front⟩ := List.exists_cons_of_ne_nil (digits_ne_nil (n / 10))
    have unled := ih (by omega)
    rw [front] at unled ⊢
    exact unled

theorem is_digit_digit_char : ∀ d < 10, (digitChar d).isDigit = true := by
  decide

theorem digit_value_digit_char : ∀ d < 10, digitValue (digitChar d) = d := by
  decide

theorem digit_char_eq_zero : ∀ d < 10, digitChar d = '0' → d = 0 := by
  decide

theorem eq_zero_of_digit_value {c : Char} (digit : c.isDigit = true) (zero : digitValue c = 0) : c = '0' := by
  have bounds : '0'.toNat ≤ c.toNat := (Char.isDigit_iff_toNat.mp digit).1
  exact Char.toNat_inj.mp (Nat.le_antisymm (Nat.le_of_sub_eq_zero zero) bounds)

theorem is_digit_digits_text {n : Nat} {c : Char} (member : c ∈ digitsText n) : c.isDigit = true := by
  obtain ⟨d, inside, rfl⟩ := List.mem_map.mp member
  exact is_digit_digit_char d (digits_lt inside)

theorem map_digit_value_digits_text (n : Nat) : (digitsText n).map digitValue = digits n := by
  rw [digitsText, List.map_map]
  refine (List.map_congr_left fun d member => ?_).trans (List.map_id _)
  exact digit_value_digit_char d (digits_lt member)

theorem digits_text_ne_nil (n : Nat) : digitsText n ≠ [] := by
  simpa [digitsText] using digits_ne_nil n

theorem head_digits_text {n : Nat} (positive : n ≠ 0) : (digitsText n).head? ≠ some '0' := by
  rw [digitsText, List.head?_map]
  intro zero
  obtain ⟨d, first, same⟩ := Option.map_eq_some_iff.mp zero
  have small := digits_lt (List.mem_of_mem_head? first)
  exact head_digits positive (digit_char_eq_zero d small same ▸ first)

end Numeric

namespace Json

open Numeric

-- No digit comes next.
def Unnumbered (rest : List Char) : Prop := ∀ c ∈ rest.head?, c.isDigit = false

theorem drop_while_is_digit {rest : List Char} (ended : Unnumbered rest) : rest.dropWhile Char.isDigit = rest := by
  cases rest with
  | nil => rfl
  | cons c rest => exact List.dropWhile_cons_of_neg (by simp [ended c rfl])

theorem take_while_is_digit {rest : List Char} (ended : Unnumbered rest) : rest.takeWhile Char.isDigit = [] := by
  cases rest with
  | nil => rfl
  | cons c rest => exact List.takeWhile_cons_of_neg (by simp [ended c rfl])

theorem digit_run_append {run rest : List Char} (all : ∀ c ∈ run, c.isDigit = true) (ended : Unnumbered rest) :
    digitRun (run ++ rest) = (run.map digitValue, rest) := by
  rw [digitRun, List.takeWhile_append_of_pos all, List.dropWhile_append_of_pos all, take_while_is_digit ended,
    drop_while_is_digit ended, List.append_nil]

theorem read_digits_append {run rest : List Char} (all : ∀ c ∈ run, c.isDigit = true) (present : run ≠ [])
    (ended : Unnumbered rest) : readDigits (run ++ rest) = some (run.map digitValue, rest) := by
  rw [readDigits, digit_run_append all ended]
  cases run with
  | nil => exact absurd rfl present
  | cons c run => rfl

-- No zero stands before another digit.
def Led (run : List Char) : Prop := run.head? = some '0' → run.length = 1

theorem led_digits_text (n : Nat) : Led (digitsText n) := by
  by_cases zero : n = 0
  · intro _
    simp [zero, digitsText, digits]
  · exact fun first => absurd first (head_digits_text zero)

theorem read_whole_append {run rest : List Char} (all : ∀ c ∈ run, c.isDigit = true) (present : run ≠ [])
    (led : Led run) (ended : Unnumbered rest) : readWhole (run ++ rest) = some (run.map digitValue, rest) := by
  rw [readWhole, digit_run_append all ended]
  cases run with
  | nil => exact absurd rfl present
  | cons c run =>
    simp only [List.map_cons]
    split
    · next same => cases (Prod.mk.inj same).1
    · next d more after same =>
      obtain ⟨zero, others⟩ := List.cons.inj (Prod.mk.inj same).1
      obtain rfl := eq_zero_of_digit_value (all c List.mem_cons_self) zero
      have single := led rfl
      simp [List.length_eq_zero_iff.mp (Nat.succ.inj single)] at others
    · rfl

end Json

end Stencil
