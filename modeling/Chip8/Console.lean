import Chip8.Host
import Chip8.Inspection
import Chip8.Machine.Storage

/-!
# The console

The host of a terminal. It takes commands from its user, keeps one saved snapshot, and shows the
report of the debugger whenever something to look at has happened. `Console.turn` is one round: the
waiting commands, then a beat, then what is to be shown. While the debugger holds the machine the
screen is presented in every round, so that a restored snapshot is seen.
-/

namespace Chip8

/-- What the user of a console can ask for. -/
inductive Command where
  /-- Puts a key down. -/
  | press (key : UInt8)
  /-- Puts all keys up. -/
  | release
  /-- Raises the instruction rate. -/
  | faster
  /-- Lowers the instruction rate. -/
  | slower
  /-- Pauses or resumes. -/
  | togglePause
  /-- Executes one instruction while paused. -/
  | step
  /-- Keeps a snapshot. -/
  | save
  /-- Goes on from the snapshot that was kept. -/
  | restore
  /-- Ends the console. -/
  | quit
  deriving DecidableEq, Repr

/-- By how much one command changes the instruction rate. -/
abbrev rateStep : UInt32 := 60

/-- A host with a saved snapshot. -/
structure Console extends Host KeyState where
  /-- The snapshot kept last. -/
  slot : Option (List UInt8) := none

/-- What a round of a console comes to. -/
structure Turn where
  /-- The console afterwards. -/
  console : Console
  /-- The frame that was presented. -/
  frame : Option Pixels := none
  /-- The report that was shown. -/
  report : Option String := none
  /-- A cycle was executed. -/
  cycled : Bool := false
  /-- The user asked to quit. -/
  ended : Bool := false

namespace Console

/-- A running console. -/
def new (machine : Machine KeyState) : Console := { toHost := .new machine }

/-- Changes the rate of the clock, and lets the machine prefer the rate that the clock takes. -/
def setRate (c : Console) (rate : UInt32) : Console :=
  let clock := c.clock.setRate rate
  { c with clock, machine := c.machine.setClockRate clock.rate }

/-- The rate after `slower`, zero at the least. -/
def lowered (rate : UInt32) : UInt32 := if rate < rateStep then 0 else rate - rateStep

/-- Carries out a command other than `quit`, and says whether the report is to be shown. -/
def handle (c : Console) : Command → Console × Bool
  | .press key => ({ c with machine := c.machine.withKeypad (·.set key true) }, false)
  | .release => ({ c with machine := c.machine.withKeypad fun _ => .allUp }, false)
  | .faster => (c.setRate (c.clock.rate + rateStep), false)
  | .slower => (c.setRate (lowered c.clock.rate), false)
  | .togglePause => ({ c with debugger := c.debugger.toggle }, true)
  | .step => ({ c with debugger := c.debugger.step }, true)
  | .save =>
    let saved := c.machine.save
    ({ c with machine := saved.machine, slot := some saved.result }, false)
  | .restore =>
    match c.slot with
    | some bytes => ({ c with machine := (c.machine.restore bytes).machine }, true)
    | none => (c, false)
  | .quit => (c, false)

/-- Carries out commands in order, and says whether the report is to be shown. A `quit` ends them
at once, which gives no report to show. -/
def handleAll (c : Console) (inspect : Bool) : List Command → Console × Option Bool
  | [] => (c, some inspect)
  | .quit :: _ => (c, none)
  | command :: commands =>
    let (c, look) := c.handle command
    c.handleAll (inspect || look) commands

/-- Executes what the debugger lets through. While it lets nothing through the screen is
presented. -/
def run (c : Console) : Turn :=
  let beat := c.toHost.beat
  if beat.cycled then
    { console := { c with toHost := beat.host }, frame := beat.frame, cycled := true
      report := if beat.refreshed then some beat.host.machine.report else none }
  else
    let (frame, machine) := beat.host.machine.present
    { console := { c with toHost := { beat.host with machine } }, frame }

/-- One round with the commands that wait. -/
def turn (c : Console) (commands : List Command) : Turn :=
  match c.handleAll false commands with
  | (c, none) => { console := c, ended := true }
  | (c, some inspect) =>
    let turn := c.run
    if inspect then { turn with report := some turn.console.machine.report } else turn

end Console

end Chip8
