import Chip8.Console
import Chip8.Proofs.Alike
import Chip8.Proofs.Presentation

/-!
# Rounds of a console

A round of a console is one of three. If the debugger lets nothing through, nothing is executed and the
screen is presented. If it lets a cycle through, the cycle is executed and counted, and the round ends there
unless a refresh is due: then the timers count down and the screen is presented.

`Console.steps` are the steps that a round lets the machine take, and `Console.presents` says whether it
presents the screen afterwards. `run_eq` tells the whole round in these terms, and the lemmas after it are
its parts.

Presenting takes the mark that the screen has changed, which no program sees. So what a machine was
presented in between makes no difference but for the mark (`SameButMark.play`), and a round comes to its
steps (`sameButMark_run`).
-/

namespace Chip8

namespace Machine

variable {κ : Type}

/-- The machines are the same but for the mark that the screen has changed. -/
def SameButMark (m t : Machine κ) : Prop := t = { m with redraw := t.redraw }

theorem SameButMark.refl (m : Machine κ) : SameButMark m m := rfl

theorem SameButMark.trans {m t u : Machine κ} (h : SameButMark m t) (h' : SameButMark t u) :
    SameButMark m u := by
  rw [SameButMark] at h h' ⊢
  rw [h', h]

/-- A machine that was presented is the same but for the mark. -/
theorem sameButMark_present (m : Machine κ) : SameButMark m m.present.2 := by
  rw [SameButMark, present_eq]

/-- A copy with the same preferences is the same but for the mark. -/
theorem IsCopy.sameButMark {m t : Machine κ} (h : IsCopy m t) (hconfig : t.config = m.config) :
    SameButMark m t := by
  rw [SameButMark, mk.injEq]
  exact ⟨h.toState_eq, rfl, h.paused, h.keypad, h.random, hconfig⟩

/-- A machine that is the same as a sound one but for the mark is a copy of it. -/
theorem SameButMark.isCopy {m t : Machine κ} (h : SameButMark m t) (hsound : m.Sound) : IsCopy m t := by
  rw [SameButMark] at h
  rw [h]
  exact ⟨⟨hsound.valid.sp_le, rfl, fun _ _ => rfl, rfl, rfl, rfl, rfl, rfl, rfl, rfl, rfl, rfl⟩,
    rfl, rfl⟩

theorem SameButMark.config {m t : Machine κ} (h : SameButMark m t) : t.config = m.config := by
  rw [h]

theorem SameButMark.sound {m t : Machine κ} (h : SameButMark m t) (hsound : m.Sound) : t.Sound := by
  rw [h]
  exact ⟨hsound.valid, hsound.running⟩

variable [Keypad κ]

/-- Steps are taken one after another. -/
theorem play_append (m : Machine κ) (steps later : List (Step κ)) :
    m.play (steps ++ later) = (m.play steps).play later := by
  rw [play, List.map_append, run, List.foldl_append]
  rfl

/-- Whatever is played, a machine stays sound. -/
theorem Sound.play {m : Machine κ} (h : m.Sound) (steps : List (Step κ)) : (m.play steps).Sound :=
  h.run _

/-- Nothing that is played changes the preferences. -/
theorem config_play (m : Machine κ) (steps : List (Step κ)) : (m.play steps).config = m.config := by
  induction steps generalizing m with
  | nil => rfl
  | cons s steps ih =>
    show ((m.perform s.operation).play steps).config = m.config
    rw [ih]
    cases s with
    | cycle => exact (sameHost_cycle m).config
    | tick | keys => rfl

/-- Whatever is played, machines that are the same but for the mark stay so. -/
theorem SameButMark.play {m t : Machine κ} (h : SameButMark m t) (hsound : m.Sound)
    (steps : List (Step κ)) : SameButMark (m.play steps) (t.play steps) := by
  refine ((h.isCopy hsound).play steps).sameButMark ?_
  rw [config_play, config_play, h]

end Machine

namespace Console

/-! ## Rounds -/

/-- A debugger that lets nothing through is left alone by that. -/
theorem shouldCycle_of_idle {d : Debugger} (h : d.shouldCycle.1 = false) :
    d.shouldCycle = (false, d) := by
  unfold Debugger.shouldCycle at h ⊢
  split
  · next hpaused =>
    rw [if_pos hpaused] at h
    split
    · next hpending => exact absurd h (by simp [hpending])
    · rfl
  · next hfree => exact absurd h (by simp [hfree])

/-- The steps that a round lets the machine take. -/
def steps (c : Console) : List (Step KeyState) :=
  if c.debugger.shouldCycle.1 then if c.clock.advance.1 then [.cycle, .tick] else [.cycle] else []

/-- Whether a round presents the screen: without a cycle, and with a refresh. -/
def presents (c : Console) : Bool := !c.debugger.shouldCycle.1 || c.clock.advance.1

/-- What a round hands out, and the machine after that. -/
def shown (c : Console) : Option Pixels × Machine KeyState :=
  if c.presents then (c.machine.play c.steps).present else (none, c.machine.play c.steps)

/-- A round takes its steps, presents the screen if it does, and counts the cycle if there is one. -/
theorem run_eq (c : Console) :
    c.run =
      { console := { c with
          machine := c.shown.2
          clock := if c.debugger.shouldCycle.1 then c.clock.advance.2 else c.clock
          debugger := c.debugger.shouldCycle.2 }
        frame := c.shown.1
        report := if c.debugger.shouldCycle.1 && c.clock.advance.1 then some c.shown.2.report else none
        cycled := c.debugger.shouldCycle.1 } := by
  rw [shown, presents, steps, run, Host.beat]
  cases hcycle : c.debugger.shouldCycle.1 with
  | false =>
    rw [shouldCycle_of_idle hcycle]
    rfl
  | true =>
    have hpair : c.debugger.shouldCycle = (true, c.debugger.shouldCycle.2) := Prod.ext hcycle rfl
    rw [hpair]
    cases hdue : c.clock.advance.1 with
    | false =>
      have hclock : c.clock.advance = (false, c.clock.advance.2) := Prod.ext hdue rfl
      rw [hclock]
      rfl
    | true =>
      have hclock : c.clock.advance = (true, c.clock.advance.2) := Prod.ext hdue rfl
      rw [hclock]
      rfl

/-- A round without a cycle only presents the screen. -/
theorem run_of_idle {c : Console} (h : c.debugger.shouldCycle.1 = false) :
    c.run =
      { console := { c with machine := c.machine.present.2 }
        frame := c.machine.present.1 } := by
  rw [run_eq, shown, presents, steps, shouldCycle_of_idle h]
  rfl

/-- A round executes a cycle just when the debugger lets it through. -/
theorem cycled_run (c : Console) : c.run.cycled = c.debugger.shouldCycle.1 := by rw [run_eq]

/-- A round without a cycle lets the machine take no steps. -/
theorem steps_of_not_cycled {c : Console} (h : c.run.cycled = false) : c.steps = [] := by
  rw [cycled_run] at h
  rw [steps, h]
  rfl

/-- The clock counts the cycles and nothing else. -/
theorem clock_run (c : Console) :
    c.run.console.clock = if c.run.cycled then c.clock.advance.2 else c.clock := by
  rw [cycled_run, run_eq]

/-- A round leaves the slot alone. -/
theorem slot_run (c : Console) : c.run.console.slot = c.slot := by rw [run_eq]

/-- The machine after a round. -/
theorem machine_run (c : Console) : c.run.console.machine = c.shown.2 := by rw [run_eq]

/-- The frame of a round. -/
theorem frame_run (c : Console) : c.run.frame = c.shown.1 := by rw [run_eq]

/-- A round comes to its steps, but for the mark. -/
theorem sameButMark_run (c : Console) :
    Machine.SameButMark (c.machine.play c.steps) c.run.console.machine := by
  rw [machine_run, shown]
  split
  · exact Machine.sameButMark_present _
  · exact .refl _

/-- What a round does to the machine. -/
def roundOperations (c : Console) : List (Operation KeyState) :=
  c.steps.map Step.operation ++ if c.presents then [.present] else []

/-- A round comes to its operations, and hands out their frames. -/
theorem shown_eq (c : Console) :
    c.shown.2 = c.machine.run c.roundOperations ∧
      c.shown.1.toList = c.machine.frames c.roundOperations := by
  have hnone : c.machine.frames (c.steps.map Step.operation) = [] :=
    Machine.frames_eq_nil _ (Step.present_not_mem c.steps)
  rw [roundOperations, Machine.frames_append, hnone, Machine.run, List.foldl_append, shown]
  split
  · exact ⟨rfl, (List.append_nil _).symm⟩
  · exact ⟨rfl, rfl⟩

/-! ## Commands -/

/-- What a command does to the machine. -/
def operations (c : Console) : Command → List (Operation KeyState)
  | .press key => [.keys (·.set key true)]
  | .release => [.keys fun _ => .allUp]
  | .faster => [.setClockRate (c.handle .faster).1.clock.rate]
  | .slower => [.setClockRate (c.handle .slower).1.clock.rate]
  | .save => [.save]
  | .restore => (c.slot.map .restore).toList
  | .togglePause | .step | .quit => []

/-- A command comes to its operations. -/
theorem machine_handle (c : Console) (command : Command) :
    (c.handle command).1.machine = c.machine.run (c.operations command) := by
  cases command with
  | restore =>
    rw [handle, operations]
    cases c.slot <;> rfl
  | _ => rfl

/-- Commands present nothing and do not take the mark. -/
theorem not_mem_operations (c : Console) (command : Command) :
    .present ∉ c.operations command ∧ .takeRedraw ∉ c.operations command := by
  cases command with
  | restore =>
    rw [operations]
    cases c.slot <;> simp
  | _ => simp [operations]

/-- Commands are carried out one after another. -/
theorem handleAll_cons (c : Console) (inspect : Bool) {command : Command} (h : command ≠ .quit)
    (commands : List Command) :
    c.handleAll inspect (command :: commands) =
      (c.handle command).1.handleAll (inspect || (c.handle command).2) commands := by
  cases command with
  | quit => exact absurd rfl h
  | _ => rfl

/-- What a round with one command does to the machine. -/
def turnOperations (c : Console) (command : Command) : List (Operation KeyState) :=
  c.operations command ++ (c.handle command).1.roundOperations

/-- No round takes the mark but by presenting the screen. -/
theorem takeRedraw_not_mem (c : Console) (command : Command) :
    .takeRedraw ∉ c.turnOperations command := by
  rw [turnOperations, roundOperations, List.mem_append, List.mem_append]
  rintro (h | h | h)
  · exact (c.not_mem_operations command).2 h
  · exact Step.takeRedraw_not_mem _ h
  · split at h <;> simp at h

/-- A round with one command carries it out first, and shows the report also if the command asks for it. -/
theorem turn_singleton (c : Console) {command : Command} (h : command ≠ .quit) :
    c.turn [command] =
      { (c.handle command).1.run with
        report :=
          if (c.handle command).2 then some (c.handle command).1.run.console.machine.report
          else (c.handle command).1.run.report } := by
  rw [turn, handleAll_cons c false h]
  cases hlook : (c.handle command).2 <;> rfl

/-- Such a round leaves the console as the round after the command does. -/
theorem console_turn (c : Console) {command : Command} (h : command ≠ .quit) :
    (c.turn [command]).console = (c.handle command).1.run.console := by
  rw [turn_singleton c h]

/-- Such a round executes a cycle if the round after the command does. -/
theorem cycled_turn (c : Console) {command : Command} (h : command ≠ .quit) :
    (c.turn [command]).cycled = (c.handle command).1.run.cycled := by
  rw [turn_singleton c h]

/-- Such a round shows the report if the command asks for it, and that of the round otherwise. -/
theorem report_turn (c : Console) {command : Command} (h : command ≠ .quit) :
    (c.turn [command]).report =
      if (c.handle command).2 then some (c.turn [command]).console.machine.report
      else (c.handle command).1.run.report := by
  rw [console_turn c h, turn_singleton c h]

/-- Such a round comes to its operations. -/
theorem machine_turn (c : Console) {command : Command} (h : command ≠ .quit) :
    (c.turn [command]).console.machine = c.machine.run (c.turnOperations command) := by
  rw [console_turn c h, machine_run, (shown_eq _).1, machine_handle, turnOperations, Machine.run,
    Machine.run, Machine.run, List.foldl_append]

/-- Such a round hands out the frames of its operations. -/
theorem frame_turn (c : Console) {command : Command} (h : command ≠ .quit) :
    (c.turn [command]).frame.toList = c.machine.frames (c.turnOperations command) := by
  have hnone : c.machine.frames (c.operations command) = [] :=
    Machine.frames_eq_nil _ (c.not_mem_operations command).1
  rw [turn_singleton c h, frame_run, (shown_eq _).2, machine_handle, turnOperations,
    Machine.frames_append, hnone, List.nil_append]

/-- The console after rounds, each with the commands that wait for it. -/
def serve (c : Console) (rounds : List (List Command)) : Console :=
  rounds.foldl (fun c commands => (c.turn commands).console) c

/-- The frames that rounds hand out, the oldest first. -/
def framesBy (c : Console) : List (List Command) → List Pixels
  | [] => []
  | commands :: rounds => (c.turn commands).frame.toList ++ (c.turn commands).console.framesBy rounds

/-- Frames come in the order of the rounds. -/
theorem framesBy_append (c : Console) (rounds later : List (List Command)) :
    c.framesBy (rounds ++ later) = c.framesBy rounds ++ (c.serve rounds).framesBy later := by
  induction rounds generalizing c with
  | nil => rfl
  | cons commands rounds ih =>
    rw [List.cons_append, framesBy, framesBy, ih, List.append_assoc]
    rfl

end Console

end Chip8
