import Chip8.Hex
import Chip8.Instruction.Mnemonic
import Chip8.Instruction.Opcode
import Chip8.State

/-!
# Inspecting a state

What a debugger shows of a state: the registers, and a listing of the instructions around the
program counter with the current one marked. `State.report` is both as one text.
-/

namespace Chip8

/-- How many instructions a listing shows on either side of the program counter. -/
abbrev listingRadius : Nat := 13

/-- A register in a row of registers, such as `V0 00`. -/
def registerCell (registers : Vector UInt8 16) (x : Register) : String :=
  Register.text x ++ " " ++ Hex.text 2 (registers.get x).toNat

/-- Four registers in a row. -/
def registerRow (registers : Vector UInt8 16) (xs : List Register) : String :=
  String.intercalate "  " (xs.map (registerCell registers))

/-- The stack pointer as text, without leading zeros. -/
def stackPointerText (sp : UInt8) : String := Hex.text (if sp < 16 then 1 else 2) sp.toNat

/-- One line of a listing. -/
structure ListingLine where
  /-- The address. -/
  address : UInt16
  /-- The word at the address. -/
  word : UInt16
  /-- The program counter is here. -/
  current : Bool
  deriving DecidableEq, Repr

namespace ListingLine

/-- The mnemonic of the word. -/
def mnemonic (l : ListingLine) : String := (Instruction.ofWord l.word).mnemonic

/-- The text of a line: a mark, the address, the word and its mnemonic. -/
def text (l : ListingLine) : String :=
  (if l.current then ">" else " ") ++ " " ++ Hex.text 4 l.address.toNat ++ "  " ++
    Hex.text 4 l.word.toNat ++ "  " ++ l.mnemonic

end ListingLine

namespace State

/-- The mnemonic of the word at an address. -/
def mnemonicAt (s : State) (address : UInt16) : String :=
  (Instruction.ofWord (s.fetch address)).mnemonic

/-- The lines of the register view. -/
def registerLines (s : State) : List String :=
  [ "PC " ++ Hex.text 4 s.pc.toNat ++ "  I " ++ Hex.text 4 s.index.toNat ++
      "  SP " ++ stackPointerText s.sp,
    registerRow s.registers [0, 1, 2, 3],
    registerRow s.registers [4, 5, 6, 7],
    registerRow s.registers [8, 9, 10, 11],
    registerRow s.registers [12, 13, 14, 15],
    "DT " ++ Hex.text 2 s.delay.toNat ++ "  ST " ++ Hex.text 2 s.sound.toNat ]

/-- The register view as one text. -/
def registerView (s : State) : String := String.intercalate "\n" s.registerLines

/-- The addresses around the program counter, two bytes apart, that lie in memory. -/
def listingAddresses (s : State) : List UInt16 :=
  (List.range (2 * listingRadius + 1)).filterMap fun slot =>
    let address := s.pc.toNat + 2 * slot
    if 2 * listingRadius ≤ address ∧ address < memorySize + 2 * listingRadius then
      some (UInt16.ofNat (address - 2 * listingRadius))
    else none

/-- The instructions around the program counter. -/
def listing (s : State) : List ListingLine :=
  s.listingAddresses.map fun address =>
    { address, word := s.fetch address, current := address == s.pc }

/-- The register view, an empty line, and the listing line by line. -/
def report (s : State) : String :=
  s.registerView ++ "\n" ++ String.join (s.listing.map fun line => "\n" ++ line.text)

end State

end Chip8
