import Chip8.MessagePack.Reader
import Chip8.Snapshot

/-!
# Reading snapshots

A snapshot is written in one way and read in many: the fields may come as an array in order, or as
a map whose keys are the names of the fields or their numbers, and every number may be in any form
that holds it. A map may hold entries of other names or numbers, which are passed over. Each field
has to be there exactly once. What follows the snapshot is not looked at.
-/

namespace Chip8

namespace Field

/-- The bytes of a field's name, which is ASCII. -/
def nameBytes (f : Field) : List UInt8 := f.name.toList.map fun c => UInt8.ofNat c.toNat

/-- The field that a map key names; `some none` for a name or a number that is no field's, and
`none` for a key that is neither a name nor a number in an unsigned form. -/
def ofKey? : MessagePack.Value → Option (Option Field)
  | .natural n => some all[n]?
  | .text name | .binary name => some (all.find? (·.nameBytes == name))
  | _ => none

end Field

namespace Snapshot

/-- How deep values may nest in what a snapshot is read from. -/
abbrev maxDepth : Nat := 1023

/-- The fields that a value holds, each with its value, in the order of the value. -/
def entries? : MessagePack.Value → Option (List (Field × MessagePack.Value))
  | .array items => if items.length = Field.all.length then some (Field.all.zip items) else none
  | .map pairs => do
    let keyed ← pairs.mapM fun (key, value) => (Field.ofKey? key).map (·, value)
    return keyed.filterMap fun (field, value) => field.map (·, value)
  | _ => none

/-- What is read in the value of a field, which has to be there exactly once. -/
def field? {α : Type} (entries : List (Field × MessagePack.Value))
    (read : MessagePack.Value → Option α) (f : Field) : Option α :=
  match entries.filter (·.1 == f) with
  | [(_, value)] => read value
  | _ => none

/-- The snapshot that a value holds. -/
def ofValue? (v : MessagePack.Value) : Option Snapshot := do
  let entries ← entries? v
  let pc ← field? entries (·.word?) .pc
  let sp ← field? entries (·.byte?) .sp
  let index ← field? entries (·.word?) .index
  let registers ← field? entries (·.bytes?) .registers
  let stack ← field? entries (·.words?) .stack
  let memory ← field? entries (·.bytes?) .memory
  let pixels ← field? entries (·.bytes?) .pixels
  let delay ← field? entries (·.byte?) .delay
  let sound ← field? entries (·.byte?) .sound
  return { pc, sp, index, registers, stack, memory, pixels, delay, sound }

/-- The snapshot at the front of some bytes. -/
def decode? (bytes : List UInt8) : Option Snapshot := do
  let (value, _) ← MessagePack.Value.read maxDepth bytes
  ofValue? value

/-- The state that bytes are a snapshot of. -/
def stateOf (bytes : List UInt8) : Except SnapshotError State :=
  match decode? bytes with
  | none => .error .undecodable
  | some snapshot => snapshot.state

end Snapshot

end Chip8
