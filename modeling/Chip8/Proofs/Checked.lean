import Mathlib.Algebra.Group.Nat.Defs
import Chip8.Machine.Cycle

/-!
# Execution with checks

`Machine.cycle` works on arrays that an index cannot leave and on words that wrap around, so it says
nothing of a machine that works on plain numbers. `Checked.cycle` is such a machine. The operands of
an instruction are the numbers that shifts and masks leave of its word, every array is accessed at a
number, and every sum, difference and product that is not meant to wrap around is formed as a
number. It stops with a `Fault` at the first access beyond the end of an array and at the first
result that does not fit its width.

Operations that wrap around or report a carry by design are not checked: those of the registers in
`Operator.apply`, `7XKK`, the steps of the program counter, and the sums with I.
-/

namespace Chip8

/-- What stops a machine that checks its accesses and its numbers. -/
inductive Fault where
  /-- An access at `index` to an array of `size` entries. -/
  | outOfRange (index size : Nat)
  /-- A number that does not fit into `bits` bits. -/
  | overflow (bits : Nat)
  deriving DecidableEq, Repr

/-- A computation that ends with a result or stops with a fault. -/
abbrev Checked (α : Type) := Except Fault α

/-- The operands of an instruction, as numbers of 8 and 16 bits. -/
structure Operands where
  /-- The second nibble of the word. -/
  x : UInt8
  /-- The third nibble of the word. -/
  y : UInt8
  /-- The lowest nibble of the word. -/
  n : UInt8
  /-- The low byte of the word. -/
  byte : UInt8
  /-- The low twelve bits of the word. -/
  address : UInt16

/-- The operands that shifts and masks leave of a word. -/
def Operands.ofWord (word : UInt16) : Operands where
  x := ((word >>> 8) &&& 0xF).toUInt8
  y := ((word >>> 4) &&& 0xF).toUInt8
  n := (word &&& 0xF).toUInt8
  byte := (word &&& 0xFF).toUInt8
  address := word &&& 0xFFF

namespace Checked

/-! ## Arrays and numbers -/

/-- The width of the numbers that arrays are accessed at; a machine has it or a larger one. -/
abbrev indexBits : Nat := 32

/-- The entry of an array at an index. -/
def entry {α : Type} {n : Nat} (v : Vector α n) (i : Nat) : Checked α :=
  if h : i < n then .ok v[i] else .error (.outOfRange i n)

/-- Changes the entry of an array at an index. -/
def update {α : Type} {n : Nat} (v : Vector α n) (i : Nat) (a : α) : Checked (Vector α n) :=
  if h : i < n then .ok (v.set i a) else .error (.outOfRange i n)

/-- A number that has to fit into `bits` bits. -/
def within (bits n : Nat) : Checked Nat := if n < 2 ^ bits then .ok n else .error (.overflow bits)

/-- A difference that has to be a number. -/
def minus (bits a b : Nat) : Checked Nat := if b ≤ a then .ok (a - b) else .error (.overflow bits)

/-- A result is handed on to the rest of the computation. -/
@[simp] theorem ok_bind {α β : Type} (a : α) (f : α → Checked β) :
    ((Except.ok a : Checked α) >>= f) = f a := rfl

theorem entry_eq {α : Type} {n : Nat} (v : Vector α n) {i : Nat} (h : i < n) :
    entry v i = .ok v[i] := dif_pos h

theorem update_eq {α : Type} {n : Nat} (v : Vector α n) {i : Nat} (h : i < n) (a : α) :
    update v i a = .ok (v.set i a) := dif_pos h

theorem within_eq {bits n : Nat} (h : n < 2 ^ bits) : within bits n = .ok n := if_pos h

theorem minus_eq {bits a b : Nat} (h : b ≤ a) : minus bits a b = .ok (a - b) := if_pos h

/-! ## Registers and memory -/

variable {κ : Type}

/-- The value of the register with a number. -/
def reg (m : Machine κ) (x : UInt8) : Checked UInt8 := entry m.registers x.toNat

/-- Changes the value of the register with a number. -/
def setReg (m : Machine κ) (x value : UInt8) : Checked (Machine κ) := do
  let registers ← update m.registers x.toNat value
  return { m with registers }

/-- Sets VF to 1 or 0. -/
def setFlag (m : Machine κ) (flag : Bool) : Checked (Machine κ) :=
  setReg m 0xF (if flag then 1 else 0)

/-- Where the byte is that lies `offset` bytes after `index`. -/
def place (index : UInt16) (offset : Nat) : Nat :=
  (index + UInt16.ofNat offset).toNat % memorySize

/-- The word at an address, and zero where memory does not hold two bytes. -/
def fetch (m : Machine κ) (address : UInt16) : Checked UInt16 := do
  let next ← within indexBits (address.toNat + 1)
  if memorySize ≤ next then return 0
  else
    let high ← entry m.memory address.toNat
    let low ← entry m.memory next
    return (high.toUInt16 <<< 8) ||| low.toUInt16

/-- Writes bytes to memory, the first of them `offset` bytes after `index`. -/
def write (memory : Memory) (index : UInt16) : (offset : Nat) → List UInt8 → Checked Memory
  | _, [] => return memory
  | offset, byte :: bytes => do
    let memory ← update memory (place index offset) byte
    write memory index (offset + 1) bytes

/-- Writes V0 to Vx to memory, from I on. -/
def storeRegisters (m : Machine κ) (x : UInt8) : Checked Memory :=
  (List.range (x.toNat + 1)).foldlM
    (fun memory r => do
      let value ← entry m.registers r
      update memory (place m.index r) value)
    m.memory

/-- Reads V0 to Vx from memory, from I on. -/
def loadRegisters (m : Machine κ) (x : UInt8) : Checked (Vector UInt8 16) :=
  (List.range (x.toNat + 1)).foldlM
    (fun registers r => do
      let byte ← entry m.memory (place m.index r)
      update registers r byte)
    m.registers

/-! ## Sprites -/

/-- Where the pixel is in a column and a row, both taken around the edges of the screen. -/
def pixelPlace (column row : Nat) : Checked Nat := do
  let start ← within indexBits (row % screenHeight * screenWidth)
  within indexBits (column % screenWidth + start)

/-- Draws the pixel in column `k` of row `r` of a sprite at (`x`, `y`), if its bit is set. The
screen comes with whether a lit pixel was turned off before. -/
def plot (x y r : Nat) (byte : UInt8) (screen : Pixels × Bool) (k : Nat) :
    Checked (Pixels × Bool) :=
  if byte &&& (0x80 >>> UInt8.ofNat k) = 0 then return screen
  else do
    let column ← within indexBits (x + k)
    let row ← within indexBits (y + r)
    let p ← pixelPlace column row
    let old ← entry screen.1 p
    let pixels ← update screen.1 p (old ^^^ 1)
    return (pixels, screen.2 || old == 1)

/-- Draws row `r` of the sprite at I. -/
def plotRow (m : Machine κ) (x y : Nat) (screen : Pixels × Bool) (r : Nat) :
    Checked (Pixels × Bool) := do
  let byte ← entry m.memory (place m.index r)
  (List.range 8).foldlM (plot x y r byte) screen

/-- Draws the `n` rows of the sprite at I with its top left corner at (Vx, Vy). -/
def draw (m : Machine κ) (x y n : UInt8) : Checked (Machine κ) := do
  let vx ← reg m x
  let vy ← reg m y
  let (pixels, hit) ← (List.range n.toNat).foldlM (plotRow m vx.toNat vy.toNat) (m.pixels, false)
  let m ← setFlag { m with pixels } hit
  return { m with redraw := true }

/-! ## Instructions -/

/-- Combines two registers into the first, and writes the flag, if there is one, afterwards. -/
def combine (m : Machine κ) (x y : UInt8) (f : UInt8 → UInt8 → UInt8 × Option Bool) :
    Checked (Machine κ) := do
  let vx ← reg m x
  let vy ← reg m y
  let m ← setReg m x (f vx vy).1
  match (f vx vy).2 with
  | some flag => setFlag m flag
  | none => return m

/-- Calls a subroutine, or reports that there is no room on the stack. -/
def call (m : Machine κ) (target : UInt16) : Checked (Outcome κ Unit) :=
  if m.sp.toNat < 16 then do
    let stack ← update m.stack m.sp.toNat m.pc
    let sp ← within 8 (m.sp.toNat + 1)
    return .quiet { m with stack, sp := UInt8.ofNat sp, pc := target }
  else return { Outcome.quiet m.advance with events := [.callDropped m.pc] }

/-- Returns from a subroutine, or reports that no call is in progress. -/
def ret (m : Machine κ) : Checked (Outcome κ Unit) :=
  if m.sp = 0 then return { Outcome.quiet m.advance with events := [.returnDropped m.pc] }
  else do
    let sp ← minus 8 m.sp.toNat 1
    let caller ← entry m.stack sp
    return .quiet { m with sp := UInt8.ofNat sp, pc := caller }.advance

variable [Keypad κ]

/-- Tests a condition: whether it holds, and the keys that were asked for. -/
def test (m : Machine κ) (o : Operands) : Condition → Checked (Bool × List UInt8)
  | .equalsByte .. => do return ((← reg m o.x) == o.byte, [])
  | .differsByte .. => do return ((← reg m o.x) != o.byte, [])
  | .equals .. => do return ((← reg m o.x) == (← reg m o.y), [])
  | .differs .. => do return ((← reg m o.x) != (← reg m o.y), [])
  | .pressed _ => do return Keypad.ask m.keypad ((← reg m o.x) &&& 0xF)
  | .released _ => do
    let (down, asked) := Keypad.ask m.keypad ((← reg m o.x) &&& 0xF)
    return (!down, asked)

/-- Passes over the next word if a condition holds. -/
def skip (m : Machine κ) (o : Operands) (condition : Condition) : Checked (Outcome κ Unit) := do
  let tested ← test m o condition
  return { Outcome.quiet (if tested.1 then m.advance.advance else m.advance) with
    asked := tested.2 }

/-- Takes the highest key that is down to Vx, or waits. -/
def awaitKey (m : Machine κ) (x : UInt8) : Checked (Outcome κ Unit) :=
  match Keypad.firstPressed m.keypad Keypad.scanOrder with
  | (some key, asked) => do
    let m ← setReg m x key
    return { Outcome.quiet m.advance with asked }
  | (none, asked) => return { Outcome.quiet m with asked, events := [.waiting m.pc] }

/-- Carries out an instruction on its operands. -/
def execute (m : Machine κ) (o : Operands) : Instruction → Checked (Outcome κ Unit)
  | .clear => return .quiet m.darken.advance
  | .ret => ret m
  | .jump _ => return .quiet { m with pc := o.address }
  | .call _ => call m o.address
  | .skip condition => skip m o condition
  | .setByte .. => do return .quiet (← setReg m o.x o.byte).advance
  | .addByte .. => do
    let vx ← reg m o.x
    return .quiet (← setReg m o.x (vx + o.byte)).advance
  | .combine operator .. => do return .quiet (← combine m o.x o.y operator.apply).advance
  | .shift direction _ => do
    let shifted (v _ : UInt8) := ((direction.apply v).1, some (direction.apply v).2)
    return .quiet (← combine m o.x o.x shifted).advance
  | .setIndex _ => return .quiet { m with index := o.address }.advance
  | .jumpOffset _ => do
    let v0 ← reg m 0
    let sum ← within 16 (v0.toNat + o.address.toNat)
    return .quiet { m with pc := UInt16.ofNat sum &&& 0x0FFF }
  | .random .. => do
    let m ← setReg { m with random := m.random.advance } o.x (m.random.byte &&& o.byte)
    return .quiet m.advance
  | .draw .. => do return .quiet (← draw m o.x o.y o.n).advance
  | .readDelay _ => do return .quiet (← setReg m o.x m.delay).advance
  | .awaitKey _ => awaitKey m o.x
  | .setDelay _ => do return .quiet { m with delay := ← reg m o.x }.advance
  | .setSound _ => do return .quiet { m with sound := ← reg m o.x }.advance
  | .addIndex _ => do
    let vx ← reg m o.x
    let carry : Bool := 65536 ≤ m.index.toNat + vx.toNat
    return .quiet (← setFlag { m with index := m.index + vx.toUInt16 } carry).advance
  | .glyph _ => do
    let vx ← reg m o.x
    let start ← within 16 (vx.toNat * 5)
    return .quiet { m with index := UInt16.ofNat start }.advance
  | .decimal _ => do
    let vx ← reg m o.x
    return .quiet { m with memory := ← write m.memory m.index 0 (decimalDigits vx) }.advance
  | .store _ => do return .quiet { m with memory := ← storeRegisters m o.x }.advance
  | .load _ => do return .quiet { m with registers := ← loadRegisters m o.x }.advance
  | .unsupported word => return m.passOver word

/-- Fetches, decodes and executes one instruction, unless the machine is held. -/
def cycle (m : Machine κ) : Checked (Outcome κ Unit) :=
  if m.paused then return .quiet m
  else do
    let word ← fetch m m.pc
    let instruction := Instruction.ofWord word
    let outcome ← execute m (Operands.ofWord word) instruction
    return { outcome with events := .executing instruction m.pc word :: outcome.events }

end Checked

end Chip8
