import Chip8.Proofs.Clock
import Chip8.Proofs.Round

/-!
# The timers keep pace with the cycles

A console refreshes at 60 Hz by counting the cycles it executes, so what has to hold at any time is that the
timers were counted down once for as many cycles as a refresh takes. The debugger can stop the console
between any two cycles, let single ones through and let it go again. The count is not touched by that:
a round without a cycle leaves the clock alone (`clock_run`), and a round with one counts it.

`paced` is the sequence of steps to be had: cycles one after another, each followed by a tick if its number
is a multiple of the cycles of a refresh. `takenBy_eq_paced` says that the steps a console takes are this
sequence, whatever is done to its debugger in the meantime, and `timers_paced` draws the conclusions for the
timers and for the machine.
-/

namespace Chip8

/-! ## Steps at an even pace -/

/-- Whether a step counts the timers down. -/
def Step.isTick {κ : Type} : Step κ → Bool
  | .tick => true
  | _ => false

/-- The cycles from number `first` on, each followed by a tick if its number is a multiple of the period. -/
def paced {κ : Type} (period first count : Nat) : List (Step κ) :=
  (List.range' first count).flatMap fun number =>
    if period ∣ number then [.cycle, .tick] else [.cycle]

/-- The first cycle, then those from the next number on. -/
theorem paced_succ {κ : Type} (period first count : Nat) :
    paced (κ := κ) period first (count + 1) =
      (if period ∣ first then [.cycle, .tick] else [.cycle]) ++ paced period (first + 1) count := by
  rw [paced, List.range'_succ, List.flatMap_cons]
  rfl

/-- Of the first cycles, as many are followed by a tick as periods fit into their number. -/
theorem countP_isTick_paced {κ : Type} (period count : Nat) :
    (paced (κ := κ) period 1 count).countP Step.isTick = count / period := by
  induction count with
  | zero => exact (Nat.zero_div _).symm
  | succ count ih =>
    rw [paced, List.range'_1_concat, List.flatMap_append, List.countP_append, ← paced, ih,
      Nat.succ_div, Nat.add_comm 1 count, List.flatMap_singleton]
    split <;> rfl

/-- Ticks take their number off both timers, down to zero at the least, and change nothing else. -/
theorem Machine.play_replicate_tick {κ : Type} [Keypad κ] (m : Machine κ) (n : Nat) :
    m.play (List.replicate n .tick) =
      { m with delay := .ofNat (m.delay.toNat - n), sound := .ofNat (m.sound.toNat - n) } := by
  induction n generalizing m with
  | zero =>
    rw [Nat.sub_zero, Nat.sub_zero, UInt8.ofNat_toNat, UInt8.ofNat_toNat]
    rfl
  | succ n ih =>
    have hless (timer : UInt8) : (UInt8.ofNat (timer.toNat - 1)).toNat = timer.toNat - 1 :=
      UInt8.toNat_ofNat_of_lt' (Nat.lt_of_le_of_lt (Nat.sub_le _ 1) timer.toNat_lt)
    show m.tick.play (List.replicate n .tick) = _
    rw [ih, tick_eq, hless, hless, Nat.sub_sub, Nat.sub_sub, Nat.add_comm 1 n]

/-! ## A console under its debugger -/

/-- Something that happens at a console whose rate is left alone. -/
inductive Move where
  /-- One round. -/
  | round
  /-- The debugger stops free running. -/
  | pause
  /-- The debugger goes back to free running. -/
  | resume
  /-- The debugger pauses or resumes. -/
  | toggle
  /-- The debugger is asked for one cycle. -/
  | step

namespace Console

/-- The console after a move. -/
def move (c : Console) : Move → Console
  | .round => c.run.console
  | .pause => { c with debugger := c.debugger.pause }
  | .resume => { c with debugger := c.debugger.resume }
  | .toggle => { c with debugger := c.debugger.toggle }
  | .step => { c with debugger := c.debugger.step }

/-- The console after moves, one after another. -/
def moves (c : Console) (xs : List Move) : Console := xs.foldl move c

/-- How many cycles moves execute. -/
def cyclesBy (c : Console) : List Move → Nat
  | [] => 0
  | .round :: xs => (if c.run.cycled then 1 else 0) + (c.move .round).cyclesBy xs
  | x :: xs => (c.move x).cyclesBy xs

/-- The steps that the machine takes while moves are made, the first of them first. -/
def takenBy (c : Console) : List Move → List (Step KeyState)
  | [] => []
  | .round :: xs => c.steps ++ (c.move .round).takenBy xs
  | x :: xs => (c.move x).takenBy xs

/-- The machine has taken the steps and nothing else has happened to it, but for the mark. -/
theorem sameButMark_moves {c : Console} (h : c.machine.Sound) (xs : List Move) :
    Machine.SameButMark (c.machine.play (c.takenBy xs)) (c.moves xs).machine := by
  induction xs generalizing c with
  | nil => exact .refl _
  | cons x xs ih =>
    cases x with
    | pause | resume | toggle | step => exact ih h
    | round =>
      -- The mark that the round may have taken is not seen by the steps that follow.
      have hround := c.sameButMark_run
      have hplayed : (c.machine.play c.steps).Sound := h.play _
      rw [takenBy, Machine.play_append]
      exact (hround.play hplayed _).trans (ih (hround.sound hplayed))

/-- A round whose cycle has the next number takes that cycle, and a tick if the number is a multiple. -/
theorem steps_of_counted {c : Console} {count : Nat} (h : c.clock.Counted count)
    (hcycle : c.run.cycled = true) :
    c.steps = if c.clock.perRefresh.toNat ∣ count + 1 then [.cycle, .tick] else [.cycle] := by
  rw [cycled_run] at hcycle
  simp only [steps, hcycle, if_true, h.due_iff]

/-- The steps that a console takes are evenly paced from the number on that its clock has reached. -/
theorem takenBy_eq_paced {c : Console} {count : Nat} (h : c.clock.Counted count) (xs : List Move) :
    c.takenBy xs = paced c.clock.perRefresh.toNat (count + 1) (c.cyclesBy xs) := by
  induction xs generalizing c count with
  | nil => rfl
  | cons x xs ih =>
    cases x with
    | pause | resume | toggle | step => exact ih h
    | round =>
      rw [takenBy, cyclesBy]
      by_cases hcycle : c.run.cycled = true
      · -- The clock has counted the cycle, and the pace goes on from the next number.
        have hclock : (c.move .round).clock = c.clock.advance.2 := by
          rw [move, clock_run, if_pos hcycle]
        have hcounted : (c.move .round).clock.Counted (count + 1) := hclock ▸ h.advance
        have hperiod : (c.move .round).clock.perRefresh = c.clock.perRefresh := by
          rw [hclock, Clock.perRefresh, Clock.perRefresh, Clock.rate_advance]
        rw [if_pos hcycle, Nat.add_comm 1, paced_succ, steps_of_counted h hcycle, ih hcounted, hperiod]
      · -- Nothing was executed, so the pace stands still with the clock.
        have hidle : c.run.cycled = false := Bool.eq_false_iff.2 hcycle
        have hclock : (c.move .round).clock = c.clock := by
          rw [move, clock_run, if_neg hcycle]
        rw [if_neg hcycle, Nat.zero_add, steps_of_not_cycled hidle, List.nil_append, ih (hclock ▸ h),
          hclock]

/-- A round without a cycle changes nothing of the machine but the mark, and nothing of the clock. -/
theorem run_of_not_cycled {c : Console} (h : c.run.cycled = false) :
    Machine.SameButMark c.machine c.run.console.machine ∧ c.run.console.clock = c.clock := by
  refine ⟨?_, ?_⟩
  · have hround := c.sameButMark_run
    rw [steps_of_not_cycled h] at hround
    exact hround
  · rw [clock_run, h]
    rfl

/-- Of the machine of any session, at any rate and whatever is done to the debugger, a console executes
cycles of which just those are followed by a tick whose number is a multiple of the cycles of a refresh. So
the timers were counted down as often as a refresh fits into the number of cycles, and the machine depends on
that number alone, but for the mark. Rounds without a cycle leave the machine, but for the mark, and the
clock alone. Of any machine, ticks take their number off both timers, down to zero at the least, and change
nothing else. -/
theorem timers_paced (keypad : KeyState) (config : Config) (entropy : ChaCha.Key)
    (ops : List (Operation KeyState)) (xs : List Move) :
    let m := Machine.session keypad config entropy ops
    let c := Console.new m
    let period := c.clock.perRefresh.toNat
    let cycles := c.cyclesBy xs
    c.takenBy xs = paced period 1 cycles ∧
      (c.takenBy xs).countP Step.isTick = cycles / period ∧
      (c.moves xs).machine =
        { m.play (paced period 1 cycles) with redraw := (c.moves xs).machine.redraw } ∧
      ((c.moves xs).run.cycled = false →
        (c.moves xs).run.console.machine =
            { (c.moves xs).machine with redraw := (c.moves xs).run.console.machine.redraw } ∧
          (c.moves xs).run.console.clock = (c.moves xs).clock) ∧
      ∀ (t : Machine KeyState) (n : Nat),
        t.play (List.replicate n .tick) =
          { t with delay := .ofNat (t.delay.toNat - n), sound := .ofNat (t.sound.toNat - n) } := by
  intro m c period cycles
  have hsound : c.machine.Sound := Machine.sound_session keypad config entropy ops
  have htaken : c.takenBy xs = paced period 1 cycles :=
    takenBy_eq_paced (Clock.counted_new m.config.clockRate) xs
  refine ⟨htaken, ?_, ?_, run_of_not_cycled, Machine.play_replicate_tick⟩
  · rw [htaken, countP_isTick_paced]
  · have hmachine := sameButMark_moves hsound xs
    rw [htaken] at hmachine
    exact hmachine

end Console

end Chip8
