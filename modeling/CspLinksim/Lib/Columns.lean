import Mathlib.Data.List.Basic
import Mathlib.Tactic.Common

/-!
# Lines of columns

A line is its columns with commas between them. A program that prints decimals and one that
splits the line at commas agree about each column, as long as no column holds a comma.
-/

namespace CspLinksim.Columns

/-- `%u`. -/
def decimal (n : ℕ) : List Char := Nat.toDigits 10 n

/-- The number a column of digits stands for; a column that is not all digits stands for
none, and is compared as a text. -/
def number? (column : List Char) : Option ℕ :=
  if column ≠ [] ∧ column.all Char.isDigit then some (Nat.ofDigitChars 10 column 0) else none

/-- `%02X` of a byte. -/
def hexByte (b : UInt8) : List Char :=
  let digits := Nat.toDigits 16 b.toNat
  (List.replicate (2 - digits.length) '0' ++ digits).map Char.toUpper

def line (columns : List (List Char)) : List Char := [','].intercalate columns

/-- `$n`, for `n` from 1 on; past the last column it is empty. -/
def column (n : ℕ) (l : List Char) : List Char := (l.splitOn ',').getD (n - 1) []

/-- `$n == k`. -/
def columnIs (n k : ℕ) (l : List Char) : Bool := number? (column n l) = some k

theorem digit_of_decimal {n : ℕ} {c : Char} (hc : c ∈ decimal n) : c.isDigit = true :=
  Nat.isDigit_of_mem_toDigits (by decide) (by decide) hc

@[simp] theorem number?_decimal (n : ℕ) : number? (decimal n) = some n := by
  have digits : (decimal n).all Char.isDigit = true :=
    List.all_eq_true.mpr fun c hc => digit_of_decimal hc
  rw [number?, if_pos ⟨Nat.toDigits_ne_nil, digits⟩]
  exact congrArg some Nat.ofDigitChars_ten_toDigits

theorem decimal_injective : Function.Injective decimal := by
  intro m n same
  have := congrArg number? same
  simpa using this

@[simp] theorem comma_not_mem_decimal (n : ℕ) : ',' ∉ decimal n := by
  intro comma
  exact absurd (digit_of_decimal comma) (by decide)

theorem decimal_head (n : ℕ) : ∃ c rest, decimal n = c :: rest ∧ c.isDigit = true := by
  cases h : decimal n with
  | nil => exact absurd h Nat.toDigits_ne_nil
  | cons c rest => exact ⟨c, rest, rfl, digit_of_decimal (h ▸ List.mem_cons_self)⟩

@[simp] theorem comma_not_mem_hexByte (b : UInt8) : ',' ∉ hexByte b := by
  have all : ∀ n < 256, ',' ∉ hexByte (UInt8.ofNat n) := by decide +kernel
  simpa using all b.toNat b.toNat_lt

/-- A column is read as it was printed. -/
theorem column_line {columns : List (List Char)} (some_column : columns ≠ [])
    (plain : ∀ c ∈ columns, ',' ∉ c) (n : ℕ) :
    column n (line columns) = columns.getD (n - 1) [] := by
  rw [column, line, List.splitOn_intercalate ',' plain some_column]

theorem line_head (c : Char) (rest : List Char) (columns : List (List Char)) :
    (line ((c :: rest) :: columns)).head? = some c := by
  cases columns with
  | nil => simp [line]
  | cons d ds => simp [line, List.intercalate, List.intersperse]

end CspLinksim.Columns
