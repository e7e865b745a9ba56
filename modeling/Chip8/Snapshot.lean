import Chip8.MessagePack.Writer
import Chip8.State

/-!
# Snapshots

A snapshot holds the nine fields of a state as a file keeps them: the four arrays are lists of any
length, and nothing is known of the numbers but their width. `Snapshot.encode` writes one as a
MessagePack array of the nine fields in order, and `Snapshot.state` checks one and makes a state of
it. The checks come in a fixed order, and the first that fails is the error.
-/

namespace Chip8

/-- The nine fields of a state, unchecked. -/
structure Snapshot where
  /-- Where the next instruction is fetched. -/
  pc : UInt16
  /-- The stack pointer. -/
  sp : UInt8
  /-- The index register. -/
  index : UInt16
  /-- The registers. -/
  registers : List UInt8
  /-- The slots of the stack. -/
  stack : List UInt16
  /-- The bytes of memory. -/
  memory : List UInt8
  /-- The pixels, row by row. -/
  pixels : List UInt8
  /-- The delay timer. -/
  delay : UInt8
  /-- The sound timer. -/
  sound : UInt8
  deriving DecidableEq

/-- The names of the fields of a snapshot. -/
inductive Field where
  | pc | sp | index | registers | stack | memory | pixels | delay | sound
  deriving DecidableEq, Repr

namespace Field

/-- The fields in the order of the format. -/
def all : List Field := [pc, sp, index, registers, stack, memory, pixels, delay, sound]

/-- The name of a field in the format. -/
def name : Field → String
  | pc => "program_counter"
  | sp => "stack_pointer"
  | index => "index"
  | registers => "registers"
  | stack => "stack"
  | memory => "memory"
  | pixels => "output_pins"
  | delay => "delay_timer"
  | sound => "sound_timer"

/-- How many entries a field holds in a state. -/
def size : Field → Nat
  | registers | stack => 16
  | memory => memorySize
  | pixels => pixelCount
  | _ => 1

end Field

/-- Why bytes are not the snapshot of a state. -/
inductive SnapshotError where
  /-- The bytes do not start with the nine fields. -/
  | undecodable
  /-- A list has a length of its own. -/
  | length (field : Field) (actual : Nat)
  /-- The stack pointer is beyond the stack. -/
  | stackPointer (sp : UInt8)
  /-- A pixel is neither dark nor lit. -/
  | pixel (value : UInt8)
  deriving DecidableEq, Repr

/-- What is said about a snapshot error. -/
def SnapshotError.message : SnapshotError → String
  | undecodable => "could not decode snapshot"
  | length field actual =>
    "snapshot field `" ++ field.name ++ "` holds " ++ toString actual ++ " entries, expected " ++
      toString field.size
  | stackPointer sp =>
    "snapshot stack pointer " ++ toString sp.toNat ++ " exceeds the stack depth"
  | pixel value =>
    "snapshot framebuffer holds invalid pixel value " ++ toString value.toNat

/-- The snapshot of a state. -/
def State.snapshot (s : State) : Snapshot where
  pc := s.pc
  sp := s.sp
  index := s.index
  registers := s.registers.toList
  stack := s.stack.toList
  memory := s.memory.toList
  pixels := s.pixels.toList
  delay := s.delay
  sound := s.sound

namespace Snapshot

/-- Writes a snapshot as a MessagePack array of its fields. -/
def encode (s : Snapshot) : List UInt8 :=
  MessagePack.arrayHeader 9 ++
    MessagePack.natural s.pc.toNat ++
    MessagePack.natural s.sp.toNat ++
    MessagePack.natural s.index.toNat ++
    MessagePack.naturals (s.registers.map (·.toNat)) ++
    MessagePack.naturals (s.stack.map (·.toNat)) ++
    MessagePack.naturals (s.memory.map (·.toNat)) ++
    MessagePack.naturals (s.pixels.map (·.toNat)) ++
    MessagePack.natural s.delay.toNat ++
    MessagePack.natural s.sound.toNat

/-- The list as a vector, if it has the right length for its field. -/
def exactly {α : Type} (field : Field) (n : Nat) (items : List α) :
    Except SnapshotError (Vector α n) :=
  if h : items.length = n then .ok ⟨items.toArray, by simpa using h⟩
  else .error (.length field items.length)

/-- The entries of a vector have the length of the vector. -/
theorem exactly_toList {α : Type} (field : Field) {n : Nat} (v : Vector α n) :
    exactly field n v.toList = .ok v := by
  simp only [exactly, Vector.length_toList, dif_pos]
  rfl

/-- The state that a snapshot is of. The lengths are checked first, in the order of the fields,
then the stack pointer, then the pixels from the first to the last. -/
def state (s : Snapshot) : Except SnapshotError State := do
  let registers ← exactly .registers 16 s.registers
  let stack ← exactly .stack 16 s.stack
  let memory ← exactly .memory memorySize s.memory
  let pixels ← exactly .pixels pixelCount s.pixels
  if 16 < s.sp.toNat then throw (.stackPointer s.sp)
  match s.pixels.find? (1 < ·) with
  | some value => throw (.pixel value)
  | none =>
    return { s with registers, stack, memory, pixels }

end Snapshot

end Chip8
