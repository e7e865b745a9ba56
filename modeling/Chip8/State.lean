import Chip8.Width

/-!
# The state of a machine

`State` holds what a program can work on: nine fields, which are also the nine fields of a
snapshot. Memory is 4096 bytes, of which the glyphs of the digits 0 to F take the first 80 and a
program starts at `0x200`. The screen is 64 by 32 pixels, one byte each, row by row.

Two facts about a state are kept by everything that a machine does, and are stated as `State.Valid`
and not built into the types, because a snapshot can claim otherwise: the stack pointer is at most
16, and every pixel is 0 or 1.

A program counter and an index are words of 16 bits and can point past memory. A word fetched from
there is zero, and bytes read or written through the index wrap around at the end of memory.
-/

namespace Chip8

/-- The number of bytes of memory. -/
abbrev memorySize : Nat := 4096

/-- The number of pixels of the screen. -/
abbrev pixelCount : Nat := 2048

/-- Where programs start. -/
abbrev programStart : Nat := 0x200

/-- The largest program that fits. -/
abbrev maxProgramSize : Nat := memorySize - programStart

/-- The bytes of memory. -/
abbrev Memory := Vector UInt8 memorySize

/-- The pixels of the screen, row by row. -/
abbrev Pixels := Vector UInt8 pixelCount

/-- The glyphs of the digits 0 to F, five rows each. -/
def glyphs : Vector UInt8 80 := #v[
  0xF0, 0x90, 0x90, 0x90, 0xF0,
  0x20, 0x60, 0x20, 0x20, 0x70,
  0xF0, 0x10, 0xF0, 0x80, 0xF0,
  0xF0, 0x10, 0xF0, 0x10, 0xF0,
  0x90, 0x90, 0xF0, 0x10, 0x10,
  0xF0, 0x80, 0xF0, 0x10, 0xF0,
  0xF0, 0x80, 0xF0, 0x90, 0xF0,
  0xF0, 0x10, 0x20, 0x40, 0x40,
  0xF0, 0x90, 0xF0, 0x90, 0xF0,
  0xF0, 0x90, 0xF0, 0x10, 0xF0,
  0xF0, 0x90, 0xF0, 0x90, 0x90,
  0xE0, 0x90, 0xE0, 0x90, 0xE0,
  0xF0, 0x80, 0x80, 0x80, 0xF0,
  0xE0, 0x90, 0x90, 0x90, 0xE0,
  0xF0, 0x80, 0xF0, 0x80, 0xF0,
  0xF0, 0x80, 0xF0, 0x80, 0x80]

namespace Memory

/-- Memory with the glyphs at its start and zeros behind them. -/
def blank : Memory :=
  ⟨(glyphs.toList ++ List.replicate (memorySize - 80) 0).toArray, by
    simp only [List.size_toArray, List.length_append, Vector.length_toList, List.length_replicate]
    exact Nat.add_sub_of_le (by decide)⟩

/-- The cell `offset` bytes after `index`, in words of 16 bits and then within memory. -/
def cell (index : UInt16) (offset : Nat) : Fin memorySize :=
  Fin.ofNat memorySize (index + UInt16.ofNat offset).toNat

/-- Memory divides the range of an index, so a cell is found by one remainder. -/
theorem cell_val (index : UInt16) (offset : Nat) :
    (cell index offset).val = (index.toNat + offset) % memorySize := by
  simp only [cell, Fin.val_ofNat, UInt16.toNat_add, UInt16.toNat_ofNat', memorySize]
  omega

/-- Writes bytes one after another, the first of them `offset` bytes after `index`. -/
def write (memory : Memory) (index : UInt16) : (offset : Nat) → List UInt8 → Memory
  | _, [] => memory
  | offset, byte :: bytes => write (memory.set (cell index offset) byte) index (offset + 1) bytes

/-- The `count` bytes from `index` on. -/
def read (memory : Memory) (index : UInt16) (count : Nat) : List UInt8 :=
  (List.range count).map fun offset => memory[cell index offset]

/-- The word at an address, high byte first, and zero where memory does not hold two bytes. -/
def fetch (memory : Memory) (address : UInt16) : UInt16 :=
  if h : address.toNat + 1 < memorySize then
    (memory[address.toNat].toUInt16 <<< 8) ||| memory[address.toNat + 1].toUInt16
  else 0

end Memory

/-- What a program can work on, and a snapshot keeps. -/
structure State where
  /-- Where the next instruction is fetched. -/
  pc : UInt16
  /-- The number of calls in progress, and so the next free slot of the stack. -/
  sp : UInt8
  /-- The index register I. -/
  index : UInt16
  /-- V0 to VF. -/
  registers : Vector UInt8 16
  /-- The places of the calls in progress; the slots from the stack pointer on are leftovers. -/
  stack : Vector UInt16 16
  /-- Main memory. -/
  memory : Memory
  /-- The screen. -/
  pixels : Pixels
  /-- The delay timer. -/
  delay : UInt8
  /-- The sound timer. -/
  sound : UInt8
  deriving DecidableEq

namespace State

/-- The state of a machine that was just switched on. -/
def initial : State where
  pc := UInt16.ofNat programStart
  sp := 0
  index := 0
  registers := Vector.replicate 16 0
  stack := Vector.replicate 16 0
  memory := Memory.blank
  pixels := Vector.replicate pixelCount 0
  delay := 0
  sound := 0

/-- The stack pointer is within the stack, and every pixel is dark or lit. -/
structure Valid (s : State) : Prop where
  /-- At most sixteen calls are in progress. -/
  sp_le : s.sp.toNat ≤ 16
  /-- Every pixel is 0 or 1. -/
  pixel_le : ∀ p ∈ s.pixels, p ≤ 1

/-- The places of the calls in progress, the oldest first. -/
def calls (s : State) : List UInt16 := s.stack.toList.take s.sp.toNat

/-- A slot of the stack; a number beyond the sixteen slots reads zero. -/
def slot (s : State) (i : UInt8) : UInt16 := s.stack[i.toNat]?.getD 0

/-- The word at an address. -/
def fetch (s : State) (address : UInt16) : UInt16 := s.memory.fetch address

end State

end Chip8
