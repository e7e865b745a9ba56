/-!
# The debugger

Decides for a host which cycles are executed: all of them while running, and while paused only the
steps that were asked for. Steps are counted only while paused, and resuming forgets those left.
-/

namespace Chip8

/-- Pause and single steps. -/
structure Debugger where
  /-- Only requested steps are executed. -/
  paused : Bool := false
  /-- The requested steps that were not executed yet. -/
  pending : UInt32 := 0
  deriving DecidableEq, Repr

namespace Debugger

/-- Stops free running. -/
def pause (d : Debugger) : Debugger := { d with paused := true }

/-- Goes back to free running. -/
def resume (_ : Debugger) : Debugger := { paused := false, pending := 0 }

/-- Pauses or resumes. -/
def toggle (d : Debugger) : Debugger := if d.paused then d.resume else d.pause

/-- Asks for one cycle while paused. -/
def step (d : Debugger) : Debugger := if d.paused then { d with pending := d.pending + 1 } else d

/-- Whether a cycle should be executed now. A requested step is used up by that. -/
def shouldCycle (d : Debugger) : Bool × Debugger :=
  if d.paused then
    if 0 < d.pending then (true, { d with pending := d.pending - 1 }) else (false, d)
  else (true, d)

end Debugger

end Chip8
