import Chip8.Event
import Chip8.Keypad
import Chip8.Random
import Chip8.Sprite

/-!
# Machines

A machine is a state together with what surrounds it: the mark that the screen has changed, the
mark that the machine is held, the keypad, the source of random numbers and the preferences. The
type of the keypad is a parameter, because the host owns it.

An operation that does more than change the machine gives an `Outcome`: its result, the machine
afterwards, the keys it asked the keypad for, and the events it reported, both in order.
-/

namespace Chip8

/-- The preferences, which programs and snapshots leave alone. -/
structure Config where
  /-- The number of instructions that a host should execute in a second. -/
  clockRate : UInt32 := 600
  /-- The seed of the random numbers; without it the host supplies randomness. -/
  seed : Option UInt64 := none
  deriving DecidableEq, Repr

/-- A machine with a keypad of type `κ`. -/
structure Machine (κ : Type) extends State where
  /-- The screen changed since this mark was last taken. -/
  redraw : Bool
  /-- The machine is held and executes nothing. -/
  paused : Bool
  /-- The keypad. -/
  keypad : κ
  /-- The source of random numbers. -/
  random : Random
  /-- The preferences. -/
  config : Config

/-- What an operation on a machine comes to. -/
structure Outcome (κ : Type) (α : Type) where
  /-- The result. -/
  result : α
  /-- The machine afterwards. -/
  machine : Machine κ
  /-- The keys that the keypad was asked for, in order. -/
  asked : List UInt8 := []
  /-- The events that were reported, in order. -/
  events : List Event := []

/-- A change of the machine and nothing else. -/
def Outcome.quiet {κ : Type} (m : Machine κ) : Outcome κ Unit := ⟨(), m, [], []⟩

/-- A timer counted down by one, to zero at the least. -/
def countDown (timer : UInt8) : UInt8 := if timer = 0 then 0 else timer - 1

/-- Its number is one less, and zero stays zero. -/
theorem toNat_countDown (timer : UInt8) : (countDown timer).toNat = timer.toNat - 1 := by
  unfold countDown
  by_cases hzero : timer = 0
  · rw [if_pos hzero, hzero]
    rfl
  · have hpos : 1 ≤ timer.toNat :=
      Nat.one_le_iff_ne_zero.2 fun hnone => hzero (UInt8.toNat_inj.1 hnone)
    have hle : 1 ≤ timer := UInt8.le_iff_toNat_le.2 hpos
    rw [if_neg hzero, UInt8.toNat_sub_of_le timer 1 hle]
    rfl

namespace Machine

variable {κ : Type}

/-- A machine that was just switched on. With a seed its random numbers follow from the seed, and
without one they come from the key `entropy`. -/
def new (keypad : κ) (config : Config) (entropy : ChaCha.Key) : Machine κ where
  toState := .initial
  redraw := true
  paused := false
  keypad := keypad
  random := match config.seed with
    | some seed => .ofSeed seed
    | none => ⟨entropy, 0⟩
  config := config

/-- Works on the machine while it is held. -/
def held (m : Machine κ) (work : Machine κ → Machine κ) : Machine κ :=
  { work { m with paused := true } with paused := false }

/-- Switches the state to that of a fresh machine and asks for the screen to be drawn. -/
def clearState (m : Machine κ) : Machine κ := { m with toState := .initial, redraw := true }

/-- Starts over. The keypad, the random numbers and the preferences stay. -/
def reset (m : Machine κ) : Machine κ := m.held clearState

/-- Counts both timers down. -/
def tick (m : Machine κ) : Machine κ :=
  { m with delay := countDown m.delay, sound := countDown m.sound }

/-- Each timer is one less, or zero where it was zero, and nothing else changes. -/
theorem tick_eq (m : Machine κ) :
    m.tick =
      { m with delay := .ofNat (m.delay.toNat - 1), sound := .ofNat (m.sound.toNat - 1) } := by
  unfold tick
  rw [← toNat_countDown, ← toNat_countDown, UInt8.ofNat_toNat, UInt8.ofNat_toNat]

/-- Whether a host with a speaker would sound it now. -/
def sounding (m : Machine κ) : Bool := m.sound != 0

/-- Whether the screen changed since this was last asked. -/
def takeRedraw (m : Machine κ) : Bool × Machine κ := (m.redraw, { m with redraw := false })

/-- Hands out the screen if it changed since it was last handed out. -/
def present (m : Machine κ) : Option Pixels × Machine κ :=
  match m.takeRedraw with
  | (true, m) => (some m.pixels, m)
  | (false, m) => (none, m)

/-- Changes the instruction rate that hosts should run at. -/
def setClockRate (m : Machine κ) (rate : UInt32) : Machine κ :=
  { m with config := { m.config with clockRate := rate } }

/-- Changes the keypad. -/
def withKeypad (m : Machine κ) (change : κ → κ) : Machine κ := { m with keypad := change m.keypad }

end Machine

end Chip8
