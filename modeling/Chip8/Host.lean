import Chip8.Clock
import Chip8.Debugger
import Chip8.Machine.Cycle

/-!
# Hosts

A host runs a machine under a clock and a debugger. `Host.beat` is one round: if the debugger lets a
cycle through it is executed, and if a refresh is due after it the timers count down and the screen
is presented.
-/

namespace Chip8

/-- A machine under a clock and a debugger. -/
structure Host (κ : Type) where
  /-- The machine. -/
  machine : Machine κ
  /-- The clock. -/
  clock : Clock
  /-- The debugger. -/
  debugger : Debugger

/-- What a round of a host comes to. -/
structure Beat (κ : Type) where
  /-- The host afterwards. -/
  host : Host κ
  /-- A cycle was executed. -/
  cycled : Bool := false
  /-- A refresh was due. -/
  refreshed : Bool := false
  /-- The frame that was presented. -/
  frame : Option Pixels := none
  /-- The keys that the keypad was asked for. -/
  asked : List UInt8 := []
  /-- The events that were reported. -/
  events : List Event := []

namespace Host

variable {κ : Type}

/-- A running host, at the rate that the machine prefers. -/
def new (machine : Machine κ) : Host κ := ⟨machine, .new machine.config.clockRate, {}⟩

/-- Counts the timers down and presents the screen. -/
def refresh (h : Host κ) : Option Pixels × Host κ :=
  let (frame, machine) := h.machine.tick.present
  (frame, { h with machine })

/-- One round. -/
def beat [Keypad κ] (h : Host κ) : Beat κ :=
  match h.debugger.shouldCycle with
  | (false, debugger) => { host := { h with debugger } }
  | (true, debugger) =>
    let outcome := h.machine.cycle
    let (due, clock) := h.clock.advance
    let host : Host κ := ⟨outcome.machine, clock, debugger⟩
    if due then
      let (frame, host) := host.refresh
      { host, cycled := true, refreshed := true, frame
        asked := outcome.asked, events := outcome.events }
    else { host, cycled := true, asked := outcome.asked, events := outcome.events }

end Host

end Chip8
