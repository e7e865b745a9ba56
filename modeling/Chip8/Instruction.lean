import Chip8.Width

/-!
# The instruction set

The instructions of CHIP-8, grouped by what they do: the six skips share a condition, the seven
two-register operations share an operator, and the two shifts share a direction. A word outside the
instruction set is an instruction too, one that does nothing, and it keeps the word.
-/

namespace Chip8

/-- The number of one of the registers V0 to VF. -/
abbrev Register := Fin 16

/-- An address that an instruction can hold. -/
abbrev Address := Fin 4096

/-- What a skip looks at. -/
inductive Condition where
  /-- Vx is the byte. -/
  | equalsByte (x : Register) (byte : UInt8)
  /-- Vx is not the byte. -/
  | differsByte (x : Register) (byte : UInt8)
  /-- Vx is Vy. -/
  | equals (x y : Register)
  /-- Vx is not Vy. -/
  | differs (x y : Register)
  /-- The key that Vx names is pressed. -/
  | pressed (x : Register)
  /-- The key that Vx names is not pressed. -/
  | released (x : Register)
  deriving DecidableEq, Repr

/-- The operator of a two-register operation, whose result goes to Vx. -/
inductive Operator where
  /-- The result is Vy. -/
  | assign
  /-- The result is the bitwise or. -/
  | or
  /-- The result is the bitwise and. -/
  | and
  /-- The result is the bitwise exclusive or. -/
  | xor
  /-- The result is Vx + Vy, and VF the carry. -/
  | add
  /-- The result is Vx - Vy, and VF says that nothing was borrowed. -/
  | subtract
  /-- The result is Vy - Vx, and VF says that nothing was borrowed. -/
  | subtractFrom
  deriving DecidableEq, Repr

/-- The way a shift goes. -/
inductive Direction where
  /-- Towards the most significant bit. -/
  | left
  /-- Towards the least significant bit. -/
  | right
  deriving DecidableEq, Repr

/-- A decoded instruction. -/
inductive Instruction where
  /-- `00E0`: darkens the whole screen. -/
  | clear
  /-- `00EE`: goes on after the most recent call. -/
  | ret
  /-- `1NNN`: goes on at the address. -/
  | jump (target : Address)
  /-- `2NNN`: remembers the place and goes on at the address. -/
  | call (target : Address)
  /-- `3XKK`, `4XKK`, `5XY0`, `9XY0`, `EX9E`, `EXA1`: passes over the next word if the condition
  holds. -/
  | skip (condition : Condition)
  /-- `6XKK`: Vx becomes the byte. -/
  | setByte (x : Register) (byte : UInt8)
  /-- `7XKK`: adds the byte to Vx, without a flag. -/
  | addByte (x : Register) (byte : UInt8)
  /-- `8XY0` to `8XY5` and `8XY7`: combines Vx and Vy into Vx. -/
  | combine (operator : Operator) (x y : Register)
  /-- `8XY6`, `8XYE`: shifts Vx by one bit, and VF is the bit shifted out. -/
  | shift (direction : Direction) (x : Register)
  /-- `ANNN`: I becomes the address. -/
  | setIndex (target : Address)
  /-- `BNNN`: goes on at V0 + the address, within memory. -/
  | jumpOffset (target : Address)
  /-- `CXKK`: Vx becomes a random byte, masked. -/
  | random (x : Register) (mask : UInt8)
  /-- `DXYN`: draws the `height` rows of a sprite at (Vx, Vy). -/
  | draw (x y : Register) (height : Fin 16)
  /-- `FX07`: Vx becomes the delay timer. -/
  | readDelay (x : Register)
  /-- `FX0A`: waits for a key, which goes to Vx. -/
  | awaitKey (x : Register)
  /-- `FX15`: the delay timer becomes Vx. -/
  | setDelay (x : Register)
  /-- `FX18`: the sound timer becomes Vx. -/
  | setSound (x : Register)
  /-- `FX1E`: adds Vx to I, and VF is the carry. -/
  | addIndex (x : Register)
  /-- `FX29`: I becomes the place of the glyph of Vx. -/
  | glyph (x : Register)
  /-- `FX33`: writes the three decimal digits of Vx at I. -/
  | decimal (x : Register)
  /-- `FX55`: writes V0 to Vx at I. -/
  | store (x : Register)
  /-- `FX65`: reads V0 to Vx from I. -/
  | load (x : Register)
  /-- Any word outside the instruction set. -/
  | unsupported (word : UInt16)
  deriving DecidableEq, Repr

end Chip8
