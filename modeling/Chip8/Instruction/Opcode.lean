import Chip8.Instruction

/-!
# Decoding

An instruction is stored as a word of 16 bits. Its top nibble is the group, and the rest holds the
operands: two register numbers `x` and `y`, a nibble `n`, a byte, or a 12-bit address.
`Instruction.ofWord` decodes every word.
-/

namespace Chip8

namespace Opcode

/-- The top nibble of a word. -/
def group (word : UInt16) : Fin 16 := Fin.ofNat 16 (word.toNat / 4096)

/-- The second nibble of a word, most often a register. -/
def x (word : UInt16) : Register := Fin.ofNat 16 (word.toNat / 256)

/-- The third nibble of a word, most often a register. -/
def y (word : UInt16) : Register := Fin.ofNat 16 (word.toNat / 16)

/-- The lowest nibble of a word. -/
def n (word : UInt16) : Fin 16 := Fin.ofNat 16 word.toNat

/-- The low byte of a word. -/
def byte (word : UInt16) : UInt8 := word.toUInt8

/-- The low twelve bits of a word. -/
def address (word : UInt16) : Address := Fin.ofNat 4096 word.toNat

end Opcode

namespace Instruction

/-- The operation of a word of group 8, by its lowest nibble. -/
def arithmetic (word : UInt16) : Instruction :=
  let x := Opcode.x word
  let y := Opcode.y word
  match (Opcode.n word).val with
  | 0x0 => combine .assign x y
  | 0x1 => combine .or x y
  | 0x2 => combine .and x y
  | 0x3 => combine .xor x y
  | 0x4 => combine .add x y
  | 0x5 => combine .subtract x y
  | 0x6 => shift .right x
  | 0x7 => combine .subtractFrom x y
  | 0xE => shift .left x
  | _ => unsupported word

/-- The operation of a word of group F, by its low byte. -/
def system (word : UInt16) : Instruction :=
  let x := Opcode.x word
  match (Opcode.byte word).toNat with
  | 0x07 => readDelay x
  | 0x0A => awaitKey x
  | 0x15 => setDelay x
  | 0x18 => setSound x
  | 0x1E => addIndex x
  | 0x29 => glyph x
  | 0x33 => decimal x
  | 0x55 => store x
  | 0x65 => load x
  | _ => unsupported word

/-- The instruction that a word stands for. -/
def ofWord (word : UInt16) : Instruction :=
  let x := Opcode.x word
  let y := Opcode.y word
  let byte := Opcode.byte word
  let address := Opcode.address word
  match (Opcode.group word).val with
  | 0x0 =>
    match address.val with
    | 0x0E0 => clear
    | 0x0EE => ret
    | _ => unsupported word
  | 0x1 => jump address
  | 0x2 => call address
  | 0x3 => skip (.equalsByte x byte)
  | 0x4 => skip (.differsByte x byte)
  | 0x5 => if Opcode.n word = 0 then skip (.equals x y) else unsupported word
  | 0x6 => setByte x byte
  | 0x7 => addByte x byte
  | 0x8 => arithmetic word
  | 0x9 => if Opcode.n word = 0 then skip (.differs x y) else unsupported word
  | 0xA => setIndex address
  | 0xB => jumpOffset address
  | 0xC => random x byte
  | 0xD => draw x y (Opcode.n word)
  | 0xE =>
    match byte.toNat with
    | 0x9E => skip (.pressed x)
    | 0xA1 => skip (.released x)
    | _ => unsupported word
  | _ => system word

end Instruction

end Chip8
