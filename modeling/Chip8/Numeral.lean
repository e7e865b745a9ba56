import Chip8.Hex

/-!
# Reading numbers

A number on the command line is an optional sign and one or more digits, and has to lie in the range
of its type. The digits are read from left to right, and the first fault is the one reported: a
character that is no digit, or the digit with which the number leaves its range.
-/

namespace Chip8

/-- Why a text is not a number of some range. -/
inductive NumeralError where
  /-- There is no text. -/
  | empty
  /-- A character is not a digit, or a sign stands alone. -/
  | invalidDigit
  /-- The number is above its range. -/
  | tooLarge
  /-- The number is below its range. -/
  | tooSmall
  deriving DecidableEq, Repr

/-- What is said about a text that is not a number. -/
def NumeralError.message : NumeralError → String
  | empty => "cannot parse integer from empty string"
  | invalidDigit => "invalid digit found in string"
  | tooLarge => "number too large to fit in target type"
  | tooSmall => "number too small to fit in target type"

namespace Numeral

/-- The value of a digit in a radix up to 16. -/
def digit? (radix : Nat) (c : Char) : Option Nat := (Hex.value? c).filter (· < radix)

/-- Appends digits to `n`; leaving the range up to `limit` is the error `beyond`. -/
def magnitude (radix limit : Nat) (beyond : NumeralError) (n : Nat) :
    List Char → Except NumeralError Nat
  | [] => .ok n
  | c :: cs =>
    match digit? radix c with
    | none => .error .invalidDigit
    | some d =>
      if n * radix + d ≤ limit then magnitude radix limit beyond (n * radix + d) cs
      else .error beyond

/-- A number from 0 to `limit`, with an optional plus sign. -/
def natural (radix limit : Nat) : List Char → Except NumeralError Nat
  | [] => .error .empty
  | ['+'] => .error .invalidDigit
  | '+' :: digits => magnitude radix limit .tooLarge 0 digits
  | digits => magnitude radix limit .tooLarge 0 digits

/-- A number from `-lowest` to `highest`, with an optional sign. -/
def integer (radix lowest highest : Nat) : List Char → Except NumeralError Int
  | [] => .error .empty
  | ['+'] | ['-'] => .error .invalidDigit
  | '+' :: digits => (magnitude radix highest .tooLarge 0 digits).map Int.ofNat
  | '-' :: digits => (magnitude radix lowest .tooSmall 0 digits).map fun n => -Int.ofNat n
  | digits => (magnitude radix highest .tooLarge 0 digits).map Int.ofNat

end Numeral

end Chip8
