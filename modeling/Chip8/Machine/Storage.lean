import Chip8.Machine
import Chip8.Snapshot.Decode

/-!
# Loading programs, saving and restoring

The operations that replace the state of a machine from outside. Each checks all of its input
first, so that a refused program or snapshot leaves the machine as it was, and holds the machine
while it works.
-/

namespace Chip8

/-- Why a program or a snapshot was refused. -/
inductive LoadError where
  /-- The program has `size` bytes, more than memory takes. -/
  | programTooLarge (size : Nat)
  /-- The file of the program cannot be read. -/
  | unreadable (path : String)
  /-- The snapshot is not one of a state. -/
  | snapshot (error : SnapshotError)
  deriving DecidableEq, Repr

namespace LoadError

/-- What is said about a refusal in one line. -/
def summary : LoadError → String
  | programTooLarge size =>
    "program is " ++ toString size ++ " bytes, but at most " ++ toString maxProgramSize ++
      " bytes fit into memory"
  | unreadable path => "could not read program from " ++ path
  | snapshot _ => "invalid snapshot"

/-- The fault of the snapshot that lies behind a refusal. -/
def cause : LoadError → Option SnapshotError
  | snapshot error => some error
  | _ => none

/-- What is said about a refusal, together with the fault of the snapshot if there is one. -/
def message (e : LoadError) : String :=
  match e.cause with
  | some error => e.summary ++ ": " ++ error.message
  | none => e.summary

end LoadError

namespace Machine

variable {κ : Type}

/-- Puts a program at its place in memory. -/
def install (m : Machine κ) (program : List UInt8) : Machine κ :=
  { m with memory := Memory.write m.memory (UInt16.ofNat programStart) 0 program }

/-- Starts over with a program. The result is the size of the program. -/
def loadProgram (m : Machine κ) (program : List UInt8) : Outcome κ (Except LoadError Nat) :=
  if maxProgramSize < program.length then
    { result := .error (.programTooLarge program.length), machine := m }
  else
    { result := .ok program.length
      machine := m.held fun m => m.clearState.install program
      events := [.programLoaded program.length] }

/-- Starts over with the program of a file, of which `contents` are the bytes if it can be read. -/
def loadFile (m : Machine κ) (path : String) (contents : Option (List UInt8)) :
    Outcome κ (Except LoadError Nat) :=
  match contents with
  | none => { result := .error (.unreadable path), machine := m }
  | some program => m.loadProgram program

/-- Writes a snapshot of the state. -/
def save (m : Machine κ) : Outcome κ (List UInt8) :=
  let bytes := m.toState.snapshot.encode
  { result := bytes, machine := m.held id, events := [.stateSaved bytes.length] }

/-- Goes on from a snapshot, and asks for the screen to be drawn. -/
def restore (m : Machine κ) (bytes : List UInt8) : Outcome κ (Except LoadError Unit) :=
  match Snapshot.stateOf bytes with
  | .error error => { result := .error (.snapshot error), machine := m }
  | .ok state =>
    { result := .ok ()
      machine := m.held fun m => { m with toState := state, redraw := true }
      events := [.stateLoaded state.pc] }

end Machine

end Chip8
