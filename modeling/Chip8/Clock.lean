/-!
# The clock of a host

A host executes instructions at a rate of its choice and refreshes at 60 Hz: it counts the timers
down and shows the screen. The clock counts the cycles since the last refresh and says when the next
one is due, which is after as many cycles as the rate holds sixtieths of a second. Rates below 60
are taken as 60.
-/

namespace Chip8

/-- How often the timers count down in a second. -/
abbrev refreshRate : UInt32 := 60

/-- Paces a host. -/
structure Clock where
  /-- The instructions executed in a second. -/
  rate : UInt32
  /-- The cycles since the last refresh. -/
  elapsed : UInt32
  deriving DecidableEq, Repr

namespace Clock

/-- A rate, raised to the refresh rate if it is below. -/
def atLeastRefresh (rate : UInt32) : UInt32 := if rate < refreshRate then refreshRate else rate

/-- A clock that starts with a refresh behind it. -/
def new (rate : UInt32) : Clock := ⟨atLeastRefresh rate, 0⟩

/-- Changes the rate and starts with a refresh behind it. -/
def setRate (_ : Clock) (rate : UInt32) : Clock := new rate

/-- How many cycles lie between two refreshes. -/
def perRefresh (c : Clock) : UInt32 := c.rate / refreshRate

/-- How many nanoseconds one cycle takes, rounded down. -/
def periodNanos (c : Clock) : Nat := 1000000000 / c.rate.toNat

/-- Counts one cycle, and says whether a refresh is due now. -/
def advance (c : Clock) : Bool × Clock :=
  if c.perRefresh ≤ c.elapsed + 1 then (true, { c with elapsed := 0 })
  else (false, { c with elapsed := c.elapsed + 1 })

end Clock

end Chip8
