import Chip8.Instruction.Opcode
import Chip8.Machine

/-!
# Executing instructions

`Machine.execute` carries out a decoded instruction, and `Machine.cycle` fetches, decodes and
executes the next one. Every instruction moves the program counter past itself except the jumps, a
call that finds room, and a wait for a key while no key is down; a skip moves it past the next word
too. Nothing that a program does is an error: a call without room, a return without a call and a
word outside the instruction set are reported and passed over.

The flag register VF is written after the result, so that it holds the flag where both go to VF.
-/

namespace Chip8

/-- The result of a two-register operation, and the flag if it has one. -/
def Operator.apply : Operator → (vx vy : UInt8) → UInt8 × Option Bool
  | .assign, _, vy => (vy, none)
  | .or, vx, vy => (vx ||| vy, none)
  | .and, vx, vy => (vx &&& vy, none)
  | .xor, vx, vy => (vx ^^^ vy, none)
  | .add, vx, vy => (vx + vy, some (256 ≤ vx.toNat + vy.toNat))
  | .subtract, vx, vy => (vx - vy, some (vy ≤ vx))
  | .subtractFrom, vx, vy => (vy - vx, some (vx ≤ vy))

/-- The byte shifted by one, and the bit that was shifted out. -/
def Direction.apply : Direction → UInt8 → UInt8 × Bool
  | .left, v => (v <<< 1, v &&& 0x80 != 0)
  | .right, v => (v >>> 1, v &&& 0x01 != 0)

/-- The decimal digits of a byte, the hundreds first. -/
def decimalDigits (v : UInt8) : List UInt8 := [v / 100, v / 10 % 10, v % 10]

namespace Machine

variable {κ : Type}

/-- The value of a register. -/
def reg (m : Machine κ) (x : Register) : UInt8 := m.registers[x]

/-- Changes the value of a register. -/
def setReg (m : Machine κ) (x : Register) (value : UInt8) : Machine κ :=
  { m with registers := m.registers.set x value }

/-- Sets VF to 1 or 0. -/
def setFlag (m : Machine κ) (flag : Bool) : Machine κ := m.setReg 15 (if flag then 1 else 0)

/-- Moves the program counter past one word. -/
def advance (m : Machine κ) : Machine κ := { m with pc := m.pc + 2 }

/-- Goes on at an address. -/
def jump (m : Machine κ) (target : Address) : Machine κ := { m with pc := UInt16.ofNat target.val }

/-- The key that a register names, by its low nibble. -/
def keyOf (m : Machine κ) (x : Register) : UInt8 := m.reg x &&& 0xF

/-- The registers V0 to Vx, in order. -/
def firstRegisters (m : Machine κ) (x : Register) : List UInt8 :=
  m.registers.toList.take (x.val + 1)

/-- Darkens the screen. -/
def darken (m : Machine κ) : Machine κ := { m with pixels := .dark, redraw := true }

/-- Draws the sprite at I with its top left corner at (Vx, Vy). VF says whether a lit pixel was
turned off. -/
def drawSprite (m : Machine κ) (x y : Register) (height : Fin 16) : Machine κ :=
  let rows := m.memory.read m.index height.val
  let cover := Sprite.cover (m.reg x).toNat (m.reg y).toNat rows
  let hit := Pixels.anyLit m.pixels cover
  { m with pixels := Pixels.toggleAll m.pixels cover, redraw := true }.setFlag hit

/-- Writes bytes to memory from I on. -/
def writeAtIndex (m : Machine κ) (bytes : List UInt8) : Machine κ :=
  { m with memory := Memory.write m.memory m.index 0 bytes }

/-- Reads V0 to Vx from memory, from I on. -/
def readRegisters (m : Machine κ) (x : Register) : Machine κ :=
  { m with
    registers := Vector.ofFn fun r : Register =>
      if r ≤ x then m.memory[Memory.cell m.index r.val] else m.registers[r] }

/-- Calls a subroutine, or reports that there is no room on the stack. -/
def call (m : Machine κ) (target : Address) : Outcome κ Unit :=
  if h : m.sp.toNat < 16 then
    .quiet ({ m with stack := m.stack.set m.sp.toNat m.pc, sp := m.sp + 1 }.jump target)
  else { Outcome.quiet m.advance with events := [.callDropped m.pc] }

/-- Returns from a subroutine to the word after its call, or reports that no call is in progress. -/
def ret (m : Machine κ) : Outcome κ Unit :=
  if m.sp = 0 then { Outcome.quiet m.advance with events := [.returnDropped m.pc] }
  else .quiet { m with sp := m.sp - 1, pc := m.slot (m.sp - 1) }.advance

/-- Passes over a word outside the instruction set, and reports it unless it is zero. -/
def passOver (m : Machine κ) (word : UInt16) : Outcome κ Unit :=
  { Outcome.quiet m.advance with events := if word = 0 then [] else [.unsupported m.pc word] }

variable [Keypad κ]

/-- Tests a condition: whether it holds, and the keys that were asked for. -/
def test (m : Machine κ) : Condition → Bool × List UInt8
  | .equalsByte x byte => (m.reg x == byte, [])
  | .differsByte x byte => (m.reg x != byte, [])
  | .equals x y => (m.reg x == m.reg y, [])
  | .differs x y => (m.reg x != m.reg y, [])
  | .pressed x => Keypad.ask m.keypad (m.keyOf x)
  | .released x =>
    let (down, asked) := Keypad.ask m.keypad (m.keyOf x)
    (!down, asked)

/-- Passes over the next word if a condition holds. -/
def skip (m : Machine κ) (condition : Condition) : Outcome κ Unit :=
  let tested := m.test condition
  { Outcome.quiet (if tested.1 then m.advance.advance else m.advance) with asked := tested.2 }

/-- Takes the highest key that is down to Vx, or waits. -/
def awaitKey (m : Machine κ) (x : Register) : Outcome κ Unit :=
  match Keypad.firstPressed m.keypad Keypad.scanOrder with
  | (some key, asked) => { Outcome.quiet (m.setReg x key).advance with asked }
  | (none, asked) => { Outcome.quiet m with asked, events := [.waiting m.pc] }

/-- Carries out an instruction. -/
def execute (m : Machine κ) : Instruction → Outcome κ Unit
  | .clear => .quiet m.darken.advance
  | .ret => m.ret
  | .jump target => .quiet (m.jump target)
  | .call target => m.call target
  | .skip condition => m.skip condition
  | .setByte x byte => .quiet (m.setReg x byte).advance
  | .addByte x byte => .quiet (m.setReg x (m.reg x + byte)).advance
  | .combine operator x y =>
    match operator.apply (m.reg x) (m.reg y) with
    | (value, some flag) => .quiet ((m.setReg x value).setFlag flag).advance
    | (value, none) => .quiet (m.setReg x value).advance
  | .shift direction x =>
    let (value, flag) := direction.apply (m.reg x)
    .quiet ((m.setReg x value).setFlag flag).advance
  | .setIndex target => .quiet { m with index := UInt16.ofNat target.val }.advance
  | .jumpOffset target =>
    .quiet { m with pc := ((m.reg 0).toUInt16 + UInt16.ofNat target.val) &&& 0x0FFF }
  | .random x mask =>
    .quiet ({ m with random := m.random.advance }.setReg x (m.random.byte &&& mask)).advance
  | .draw x y height => .quiet (m.drawSprite x y height).advance
  | .readDelay x => .quiet (m.setReg x m.delay).advance
  | .awaitKey x => m.awaitKey x
  | .setDelay x => .quiet { m with delay := m.reg x }.advance
  | .setSound x => .quiet { m with sound := m.reg x }.advance
  | .addIndex x =>
    let sum := m.index + (m.reg x).toUInt16
    let carry : Bool := 65536 ≤ m.index.toNat + (m.reg x).toNat
    .quiet ({ m with index := sum }.setFlag carry).advance
  | .glyph x => .quiet { m with index := (m.reg x).toUInt16 * 5 }.advance
  | .decimal x => .quiet (m.writeAtIndex (decimalDigits (m.reg x))).advance
  | .store x => .quiet (m.writeAtIndex (m.firstRegisters x)).advance
  | .load x => .quiet (m.readRegisters x).advance
  | .unsupported word => m.passOver word

/-- Fetches, decodes and executes one instruction, unless the machine is held. The instruction is
reported before it is executed. -/
def cycle (m : Machine κ) : Outcome κ Unit :=
  if m.paused then .quiet m
  else
    let word := m.fetch m.pc
    let instruction := Instruction.ofWord word
    let outcome := m.execute instruction
    { outcome with events := .executing instruction m.pc word :: outcome.events }

end Machine

end Chip8
