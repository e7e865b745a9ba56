import Chip8.Instruction.Mnemonic

/-!
# Log events

What the machine and the screen report while they work. An event is a value; `Event.line` is the
line that a log shows for it, with its level, its message and its fields in decimal.
-/

namespace Chip8

/-- How much an event matters. -/
inductive Level where
  /-- Every step of the work. -/
  | trace
  /-- A completed operation. -/
  | debug
  /-- Something that was dropped. -/
  | warn
  deriving DecidableEq, Repr

/-- The name of a level. -/
def Level.text : Level → String
  | .trace => "TRACE"
  | .debug => "DEBUG"
  | .warn => "WARN"

/-- Something that was reported. -/
inductive Event where
  /-- The instruction fetched from `pc` is about to be executed. -/
  | executing (instruction : Instruction) (pc word : UInt16)
  /-- No key is down, so the instruction at `pc` waits. -/
  | waiting (pc : UInt16)
  /-- The word at `pc` is outside the instruction set and was passed over. -/
  | unsupported (pc word : UInt16)
  /-- There was no call to return from. -/
  | returnDropped (pc : UInt16)
  /-- There was no room for another call. -/
  | callDropped (pc : UInt16)
  /-- A program of `size` bytes was loaded. -/
  | programLoaded (size : Nat)
  /-- A snapshot of `size` bytes was written. -/
  | stateSaved (size : Nat)
  /-- A snapshot was read, and execution goes on at `pc`. -/
  | stateLoaded (pc : UInt16)
  /-- A frame with `size` instead of 2048 pixels was passed over. -/
  | frameIgnored (size : Nat)
  /-- A frame was sent to a screen that is no longer there. -/
  | frameDropped
  /-- A debugger text was sent to a screen that is no longer there. -/
  | reportDropped
  deriving DecidableEq, Repr

namespace Event

/-- The level of an event. -/
def level : Event → Level
  | executing .. | waiting _ => .trace
  | programLoaded _ | stateSaved _ | stateLoaded _ => .debug
  | unsupported .. | returnDropped _ | callDropped _ => .warn
  | frameIgnored _ | frameDropped | reportDropped => .warn

/-- The message of an event, followed by its fields. -/
def message : Event → String
  | executing instruction pc word =>
    instruction.mnemonic ++ " pc=" ++ toString pc.toNat ++ " opcode=" ++ toString word.toNat
  | waiting pc => "waiting for key pc=" ++ toString pc.toNat
  | unsupported pc word =>
    "unsupported opcode skipped pc=" ++ toString pc.toNat ++ " opcode=" ++ toString word.toNat
  | returnDropped pc => "return with empty stack ignored pc=" ++ toString pc.toNat
  | callDropped pc => "stack overflow, call ignored pc=" ++ toString pc.toNat
  | programLoaded size => "loaded program size=" ++ toString size
  | stateSaved size => "saved state size=" ++ toString size
  | stateLoaded pc => "loaded state pc=" ++ toString pc.toNat
  | frameIgnored size => "ignoring frame of unexpected size len=" ++ toString size
  | frameDropped => "ui is gone, dropping frame"
  | reportDropped => "ui is gone, dropping debugger update"

/-- The line that a log shows for an event. -/
def line (e : Event) : String := e.level.text ++ " " ++ e.message

end Event

end Chip8
