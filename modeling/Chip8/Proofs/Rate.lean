import Chip8.Proofs.Clock
import Chip8.Proofs.Round
import Chip8.Tool.Emulator

/-!
# The rate of a console

The rate is kept in two places, in the clock and in the preferences of the machine. `KeepsRate` says that
they agree: the clock runs at the rate that is preferred, raised to the refresh rate. The commands that
change the rate set both, and nothing else touches either, so every console keeps its rate
(`KeepsRate.serve`), which is then never below 60.

A slower rate is taken by a subtraction that stops at zero, and is never above the rate before. A faster rate
is taken by an addition in a word of 32 bits, which does not stop at the end of the word. Within 60 of the end
the sum starts over below 60, and the rate falls to 60 (`toNat_rate_faster`, `faster_lowers_rate`).
-/

namespace Chip8

/-- Restoring leaves the preferences alone. -/
theorem Machine.config_restore {κ : Type} (m : Machine κ) (bytes : List UInt8) :
    (m.restore bytes).machine.config = m.config := by
  unfold restore
  split <;> rfl

/-- A rate that was raised is not raised again. -/
theorem Clock.atLeastRefresh_idem (rate : UInt32) :
    atLeastRefresh (atLeastRefresh rate) = atLeastRefresh rate := by
  rw [← UInt32.toNat_inj]
  simp only [toNat_atLeastRefresh]
  omega

namespace Console

/-- The clock runs at the rate that the machine prefers, raised to the refresh rate. -/
def KeepsRate (c : Console) : Prop :=
  c.clock.rate = Clock.atLeastRefresh c.machine.config.clockRate

/-- A new console takes its rate from the machine. -/
theorem keepsRate_new (m : Machine KeyState) : (new m).KeepsRate := rfl

/-- So does a console whose rate is changed, and the machine then prefers the rate that was taken. -/
theorem keepsRate_setRate (c : Console) (rate : UInt32) : (c.setRate rate).KeepsRate :=
  (Clock.atLeastRefresh_idem rate).symm

namespace KeepsRate

variable {c : Console}

theorem handle (h : c.KeepsRate) (command : Command) : (c.handle command).1.KeepsRate := by
  cases command with
  | faster | slower => exact keepsRate_setRate c _
  | press | release | togglePause | step | save | quit => exact h
  | restore =>
    rw [Console.handle]
    split
    · rw [KeepsRate, Machine.config_restore]
      exact h
    · exact h

theorem handleAll (h : c.KeepsRate) (inspect : Bool) (commands : List Command) :
    (c.handleAll inspect commands).1.KeepsRate := by
  induction commands generalizing c inspect with
  | nil => exact h
  | cons command commands ih =>
    by_cases hquit : command = .quit
    · rw [hquit]
      exact h
    · rw [handleAll_cons c inspect hquit]
      exact ih (h.handle command) _

theorem run (h : c.KeepsRate) : c.run.console.KeepsRate := by
  have hconfig : c.run.console.machine.config = c.machine.config := by
    rw [c.sameButMark_run.config, Machine.config_play]
  have hrate : c.run.console.clock.rate = c.clock.rate := by
    rw [clock_run]
    split
    · exact Clock.rate_advance c.clock
    · rfl
  rw [KeepsRate, hrate, hconfig]
  exact h

theorem turn (h : c.KeepsRate) (commands : List Command) : (c.turn commands).console.KeepsRate := by
  have hhandled := h.handleAll false commands
  rw [Console.turn]
  rcases hall : c.handleAll false commands with ⟨c', _ | inspect⟩ <;> rw [hall] at hhandled
  · exact hhandled
  · dsimp only
    split <;> exact hhandled.run

/-- A console keeps its rate, whatever commands it is given. -/
theorem serve (h : c.KeepsRate) (rounds : List (List Command)) : (c.serve rounds).KeepsRate := by
  induction rounds generalizing c with
  | nil => exact h
  | cons commands rounds ih => exact ih (h.turn commands)

end KeepsRate

/-- A slower rate is lower by 60, and not below 60. -/
theorem toNat_rate_slower (c : Console) :
    (c.handle .slower).1.clock.rate.toNat = max 60 (c.clock.rate.toNat - 60) := by
  show (Clock.atLeastRefresh (lowered c.clock.rate)).toNat = _
  rw [Clock.toNat_atLeastRefresh, lowered]
  split
  · next hlow =>
    have hlow' : c.clock.rate.toNat < 60 := UInt32.lt_iff_toNat_lt.1 hlow
    rw [Nat.sub_eq_zero_of_le (Nat.le_of_lt hlow')]
    rfl
  · next hhigh =>
    have hle : rateStep ≤ c.clock.rate := UInt32.not_lt.1 hhigh
    rw [UInt32.toNat_sub_of_le _ _ hle]
    rfl

/-- A faster rate is higher by 60 if that fits a word, and falls to 60 otherwise. -/
theorem toNat_rate_faster (c : Console) :
    (c.handle .faster).1.clock.rate.toNat =
      if c.clock.rate.toNat + 60 < 4294967296 then c.clock.rate.toNat + 60 else 60 := by
  show (Clock.atLeastRefresh (c.clock.rate + rateStep)).toNat = _
  have hsum : (c.clock.rate + rateStep).toNat = (c.clock.rate.toNat + 60) % 4294967296 :=
    UInt32.toNat_add _ _
  have hfits : c.clock.rate.toNat < 4294967296 := c.clock.rate.toNat_lt
  rw [Clock.toNat_atLeastRefresh, hsum]
  split
  · next hroom =>
    rw [Nat.mod_eq_of_lt hroom]
    exact Nat.max_eq_right (Nat.le_add_left _ _)
  · next hfull =>
    -- What is left of the sum is less than what was added.
    have hwrapped : (c.clock.rate.toNat + 60) % 4294967296 < 60 := by omega
    exact Nat.max_eq_left (Nat.le_of_lt hwrapped)

/-- Whatever the options of the emulator and the commands so far, also some of a round that is not over,
the clock runs at the preferred rate or at 60 if that is more. A slower rate is never above the rate, and
a faster rate is never below it unless the sum leaves its word, when it falls to 60. -/
theorem rate_serve (o : Emulator.Options) (entropy : ChaCha.Key) (program : List UInt8)
    (rounds : List (List Command)) (inspect : Bool) (commands : List Command) :
    let start := new ((o.machine entropy).loadProgram program).machine
    let c := ((start.serve rounds).handleAll inspect commands).1
    let slower := (c.handle .slower).1.clock.rate.toNat
    let faster := (c.handle .faster).1.clock.rate.toNat
    60 ≤ c.clock.rate.toNat ∧
      c.clock.rate.toNat = max 60 c.machine.config.clockRate.toNat ∧
      slower = max 60 (c.clock.rate.toNat - 60) ∧ slower ≤ c.clock.rate.toNat ∧
      (c.clock.rate.toNat + 60 < 4294967296 →
        faster = c.clock.rate.toNat + 60 ∧ c.clock.rate.toNat ≤ faster) ∧
      (4294967296 ≤ c.clock.rate.toNat + 60 → faster = 60 ∧ faster < c.clock.rate.toNat) := by
  intro start c slower faster
  have hkeeps : c.KeepsRate := ((keepsRate_new _).serve rounds).handleAll inspect commands
  have hrate : c.clock.rate.toNat = max 60 c.machine.config.clockRate.toNat := by
    rw [hkeeps, Clock.toNat_atLeastRefresh]
  have hge : 60 ≤ c.clock.rate.toNat := by
    rw [hrate]
    exact Nat.le_max_left _ _
  have hslower : slower = max 60 (c.clock.rate.toNat - 60) := c.toNat_rate_slower
  refine ⟨hge, hrate, hslower, ?_, fun hroom => ?_, fun hfull => ?_⟩
  · rw [hslower]
    exact Nat.max_le.2 ⟨hge, Nat.sub_le _ _⟩
  · have hfaster : faster = c.clock.rate.toNat + 60 := by
      rw [show faster = _ from c.toNat_rate_faster, if_pos hroom]
    omega
  · have hfaster : faster = 60 := by
      rw [show faster = _ from c.toNat_rate_faster, if_neg (Nat.not_lt.2 hfull)]
    omega

/-- At the highest rate that can be asked for, the command to go faster sets the lowest rate. -/
theorem faster_lowers_rate :
    let o : Emulator.Options := { clockRate := 4294967295 }
    let c := new ((o.machine (Vector.replicate 8 0)).loadProgram []).machine
    let paused := (c.turn [.togglePause]).console
    paused.clock.rate = 4294967295 ∧ (paused.turn [.faster]).console.clock.rate = 60 := by
  intro o c paused
  decide +kernel

end Console

end Chip8
