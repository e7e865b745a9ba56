import Chip8.Width

/-!
# Hexadecimal text of a fixed width

Every number that the mnemonics, the register view and the listings show is a word whose width is
known, so one function writes them all: the low `width` hexadecimal digits of a number, most
significant first, in upper case.
-/

namespace Chip8.Hex

/-- The upper-case digit of a nibble. -/
def digit (n : Fin 16) : Char :=
  if n.val < 10 then Char.ofNat (48 + n.val) else Char.ofNat (55 + n.val)

/-- The low `width` digits of `n`, most significant first. -/
def digits : (width : Nat) → (n : Nat) → List Char
  | 0, _ => []
  | width + 1, n => digits width (n / 16) ++ [digit (Fin.ofNat 16 n)]

/-- As many digits are written as asked for. -/
@[simp] theorem length_digits (width n : Nat) : (digits width n).length = width := by
  induction width generalizing n with
  | zero => rfl
  | succ width ih => simp [digits, ih]

/-- The low `width` digits of `n` as text. -/
def text (width n : Nat) : String := String.ofList (digits width n)

/-- The value of a digit of either case, below 16. -/
def value? (c : Char) : Option Nat :=
  if '0' ≤ c ∧ c ≤ '9' then some (c.toNat - 48)
  else if 'A' ≤ c ∧ c ≤ 'F' then some (c.toNat - 55)
  else if 'a' ≤ c ∧ c ≤ 'f' then some (c.toNat - 87)
  else none

/-- A digit that is written reads back as the nibble it stands for. -/
theorem value?_digit : ∀ n : Fin 16, value? (digit n) = some n.val := by decide

end Chip8.Hex
