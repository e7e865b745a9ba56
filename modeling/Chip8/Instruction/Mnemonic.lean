import Chip8.Hex
import Chip8.Instruction

/-!
# Mnemonics

The assembler text of an instruction. Registers are one digit, bytes two and addresses three, all
hexadecimal. A word outside the instruction set does nothing but take a cycle, so its text is
`NOP` whatever the word is.
-/

namespace Chip8

/-- The name of a register, `V0` to `VF`. -/
def Register.text (x : Register) : String := "V" ++ Hex.text 1 x.val

/-- A byte operand. -/
def byteOperand (byte : UInt8) : String := "0x" ++ Hex.text 2 byte.toNat

/-- An address operand. -/
def addressOperand (target : Address) : String := "0x" ++ Hex.text 3 target.val

/-- The text of a skip under the condition. -/
def Condition.mnemonic : Condition → String
  | .equalsByte x byte => "SE " ++ Register.text x ++ ", " ++ byteOperand byte
  | .differsByte x byte => "SNE " ++ Register.text x ++ ", " ++ byteOperand byte
  | .equals x y => "SE " ++ Register.text x ++ ", " ++ Register.text y
  | .differs x y => "SNE " ++ Register.text x ++ ", " ++ Register.text y
  | .pressed x => "SKP " ++ Register.text x
  | .released x => "SKNP " ++ Register.text x

/-- The name of a two-register operation. -/
def Operator.mnemonic : Operator → String
  | .assign => "LD"
  | .or => "OR"
  | .and => "AND"
  | .xor => "XOR"
  | .add => "ADD"
  | .subtract => "SUB"
  | .subtractFrom => "SUBN"

/-- The name of a shift. -/
def Direction.mnemonic : Direction → String
  | .left => "SHL"
  | .right => "SHR"

namespace Instruction

/-- The text of an instruction. -/
def mnemonic : Instruction → String
  | clear => "CLS"
  | ret => "RET"
  | jump target => "JP " ++ addressOperand target
  | call target => "CALL " ++ addressOperand target
  | skip condition => condition.mnemonic
  | setByte x byte => "LD " ++ Register.text x ++ ", " ++ byteOperand byte
  | addByte x byte => "ADD " ++ Register.text x ++ ", " ++ byteOperand byte
  | combine operator x y => operator.mnemonic ++ " " ++ Register.text x ++ ", " ++ Register.text y
  | shift direction x => direction.mnemonic ++ " " ++ Register.text x
  | setIndex target => "LD I, " ++ addressOperand target
  | jumpOffset target => "JP V0, " ++ addressOperand target
  | random x mask => "RND " ++ Register.text x ++ ", " ++ byteOperand mask
  | draw x y height =>
    "DRW " ++ Register.text x ++ ", " ++ Register.text y ++ ", 0x" ++ Hex.text 1 height.val
  | readDelay x => "LD " ++ Register.text x ++ ", DT"
  | awaitKey x => "LD " ++ Register.text x ++ ", K"
  | setDelay x => "LD DT, " ++ Register.text x
  | setSound x => "LD ST, " ++ Register.text x
  | addIndex x => "ADD I, " ++ Register.text x
  | glyph x => "LD F, " ++ Register.text x
  | decimal x => "LD B, " ++ Register.text x
  | store x => "LD [I], " ++ Register.text x
  | load x => "LD " ++ Register.text x ++ ", [I]"
  | unsupported _ => "NOP"

end Instruction

end Chip8
