import Chip8.CommandLine.Help
import Chip8.CommandLine.Scan
import Chip8.Inspection
import Chip8.Machine.Storage

/-!
# The disassembler

Prints the instructions of a program, one slot of two bytes in a line, from a start address on. How
many slots are printed is given, or is as many as the program takes from there. Slots beyond the end
of memory are never printed.
-/

namespace Chip8.Disassembler

/-- What the disassembler is told. -/
structure Options where
  /-- The path of the program. -/
  rom : String := ""
  /-- The first address. -/
  start : UInt16 := 0x200
  /-- The number of slots; without it the whole program is printed. -/
  count : Option UInt64 := none
  deriving DecidableEq, Repr

/-- The digits of an address, without its mark `0x` or `0X`. -/
def stripMark : List Char → List Char
  | '0' :: 'x' :: digits => digits
  | '0' :: 'X' :: digits => digits
  | digits => digits

/-- Reads an address of 16 bits in hexadecimal. -/
def readAddress (text : String) : Except NumeralError UInt16 :=
  (Numeral.natural 16 0xFFFF (stripMark text.toList)).map UInt16.ofNat

/-- What is said about a text that is not an address. -/
def addressMessage (text : String) (e : NumeralError) : String :=
  "invalid address `" ++ text ++ "`: " ++ e.message

/-- Reads the first address for the command line. -/
def readStart (text : String) : Except Refusal UInt16 :=
  match readAddress text with
  | .ok start => .ok start
  | .error e => .error (.because (addressMessage text e))

/-- What the disassembler takes. -/
def grammar : Grammar Options where
  name := "disassemble"
  about := "Prints the mnemonics of a CHIP-8 program"
  options := [
    ("start", {
      label := "--start <START>"
      about := "First address to disassemble, in hex"
      preset := some "0x200"
      assign := fun text o => do return { o with start := ← readStart text } }),
    ("count", {
      label := "--count <COUNT>"
      about := "Number of instruction slots to print. Defaults to the whole program"
      assign := fun text o => do return { o with count := some (← readWord64 text) } })]
  positionals := [{
    label := "<ROM>"
    about := "Path to the program to disassemble"
    assign := fun text o => do return { o with rom := ← readPath text } }]

/-- The options that arguments give. -/
def Options.parse (arguments : List String) : Except Stop Options :=
  grammar.parse {} arguments

/-- The first `count` slots from `start` on that begin in memory. -/
def slots : (start count : Nat) → List Nat
  | _, 0 => []
  | start, count + 1 => if memorySize ≤ start then [] else start :: slots (start + 2) count

/-- How many slots a program of `size` bytes takes from `start` on. -/
def slotCount (start size : Nat) : Nat := (programStart + size - start + 1) / 2

/-- One line: an address, the word there and its mnemonic. -/
def line (s : State) (address : UInt16) : String :=
  "0x" ++ Hex.text 3 address.toNat ++ "  " ++ Hex.text 4 (s.fetch address).toNat ++ "  " ++
    s.mnemonicAt address

/-- The lines for a program of `size` bytes that was loaded. -/
def lines (s : State) (o : Options) (size : Nat) : List String :=
  let count := match o.count with
    | some count => count.toNat
    | none => slotCount o.start.toNat size
  (slots o.start.toNat count).map fun address => line s (UInt16.ofNat address)

/-- Runs the disassembler, where `contents` are the bytes of the files that can be read. -/
def run (contents : String → Option (List UInt8)) (arguments : List String) : Exit :=
  match Options.parse arguments with
  | .error stop => grammar.exit stop
  | .ok o =>
    let machine := Machine.new KeyState.allUp {} (Vector.replicate 8 0)
    let loaded := machine.loadFile o.rom (contents o.rom)
    match loaded.result with
    | .error e => { code := 1, complaint := some e.summary }
    | .ok size => { code := 0, output := lines loaded.machine.toState o size }

end Chip8.Disassembler
