import Chip8.Proofs.Round
import Chip8.Tool.Emulator

/-!
# A console that stands still

A console that was paused executes a cycle only when it is asked for one. `Stopped` says what such a console
is like between two rounds: the machine is sound, no step is left over, the slot holds the state that was
saved last, and the screen is what the sink received last unless it is marked. Every command that does not
end the pause keeps it so (`Stopped.turn`), and a console that was just paused is so to begin with
(`stopped_first`).

What a command does then is told by `Stopped.effect`. A state that was saved is always taken back, because it
was the state of a sound machine. Only a step leaves the screen unpresented, and every other round presents
what the steps before it have left marked.
-/

namespace Chip8

/-- The commands that do not end a pause. -/
def Command.keepsPause : Command → Bool
  | .togglePause | .quit => false
  | _ => true

/-- A command that keeps the pause does not end the console. -/
theorem Command.ne_quit {command : Command} (h : command.keepsPause = true) : command ≠ .quit := by
  rintro rfl
  exact Bool.false_ne_true h

namespace Console

/-- The state that was saved last, after commands with a round for each of them. -/
def lastSaved (c : Console) (saved : Option State) : List Command → Option State
  | [] => saved
  | command :: commands =>
    (c.turn [command]).console.lastSaved
      (if command = .save then some c.machine.toState else saved) commands

/-- A paused console between two rounds, where `saved` is the state that was saved last and `received` are
the frames that the sink has received. -/
structure Stopped (c : Console) (saved : Option State) (received : List Pixels) : Prop where
  /-- The machine is sound. -/
  sound : c.machine.Sound
  /-- The debugger lets nothing through. -/
  debugger : c.debugger = ⟨true, 0⟩
  /-- The slot holds a snapshot of the saved state. -/
  slot : c.slot.map Snapshot.stateOf = saved.map .ok
  /-- A screen that is not marked is the last frame received. -/
  upToDate : c.machine.UpToDate received

/-- What a command does to a console that is paused, where `saved` is the state that was saved last and `t`
is the round of the command. -/
structure Effect (c : Console) (command : Command) (saved : Option State) (t : Turn) : Prop where
  /-- A step executes a cycle, and nothing else does. -/
  cycled : t.cycled = decide (command = .step)
  /-- The cycle of a step, and a tick if a refresh is due, is all that happens to the machine, but for the
  mark. -/
  step : command = .step →
    (c.machine.play (if c.clock.advance.1 then [.cycle, .tick] else [.cycle])).SameButMark
      t.console.machine
  /-- The slot is occupied just when a state was saved. -/
  occupied : c.slot = none ↔ saved = none
  /-- The snapshot in the slot is always taken. -/
  taken : ∀ bytes, c.slot = some bytes → (c.machine.restore bytes).result = .ok ()
  /-- The state that was saved comes back. -/
  restored : command = .restore → ∀ state, saved = some state → t.console.machine.toState = state
  /-- Nothing else comes back with it. -/
  kept : command = .restore →
    t.console.machine.random = c.machine.random ∧ t.console.machine.keypad = c.machine.keypad ∧
      t.console.clock = c.clock ∧ t.console.debugger = c.debugger ∧ t.console.slot = c.slot
  /-- Other commands than a step leave the state alone, and so does restoring from an empty slot. -/
  unchanged : command ≠ .step → (command = .restore → c.slot = none) →
    t.console.machine.toState = c.machine.toState
  /-- The report is shown for a step and for a state that comes back, and is that of the machine at the end
  of the round. -/
  report : t.report =
    if command = .step ∨ command = .restore ∧ c.slot ≠ none then some t.console.machine.report else none

/-- Commands other than a step leave the debugger alone, if they do not end the pause. -/
theorem debugger_handle (c : Console) {command : Command} (h : command.keepsPause)
    (hstep : command ≠ .step) : (c.handle command).1.debugger = c.debugger := by
  cases command with
  | togglePause | quit => exact absurd h Bool.false_ne_true
  | step => exact absurd rfl hstep
  | restore =>
    rw [handle]
    split <;> rfl
  | _ => rfl

/-- Only saving changes the slot. -/
theorem slot_handle (c : Console) (command : Command) :
    (c.handle command).1.slot = if command = .save then some c.machine.save.result else c.slot := by
  cases command with
  | restore =>
    rw [handle]
    split <;> rfl
  | _ => rfl

/-- Restoring takes the snapshot in the slot, and asks for the report. -/
theorem handle_restore_of_some {c : Console} {bytes : List UInt8} (h : c.slot = some bytes) :
    c.handle .restore = ({ c with machine := (c.machine.restore bytes).machine }, true) := by
  rw [handle, h]

/-- Restoring from an empty slot does nothing. -/
theorem handle_restore_of_none {c : Console} (h : c.slot = none) : c.handle .restore = (c, false) := by
  rw [handle, h]

/-- Commands leave the state alone, if nothing is restored. -/
theorem toState_handle (c : Console) {command : Command} (h : command = .restore → c.slot = none) :
    (c.handle command).1.machine.toState = c.machine.toState := by
  cases command with
  | restore => rw [handle_restore_of_none (h rfl)]
  | _ => rfl

/-- The report is asked for when the debugger is told something and when a state comes back. -/
theorem inspect_handle (c : Console) (command : Command) :
    (c.handle command).2 =
      decide (command = .togglePause ∨ command = .step ∨ command = .restore ∧ c.slot ≠ none) := by
  cases command with
  | restore =>
    rw [handle]
    split
    · next hslot => simp [hslot]
    · next hslot => simp [hslot]
  | _ => simp [handle]

namespace Stopped

variable {c : Console} {saved : Option State} {received : List Pixels} {command : Command}

/-- After any command but a step, a round only presents the screen. -/
theorem run_handle (h : Stopped c saved received) (hkeeps : command.keepsPause)
    (hstep : command ≠ .step) :
    (c.handle command).1.run =
      { console := { (c.handle command).1 with machine := (c.handle command).1.machine.present.2 }
        frame := (c.handle command).1.machine.present.1 } := by
  refine run_of_idle ?_
  rw [debugger_handle c hkeeps hstep, h.debugger]
  rfl

/-- So the console is then as the command leaves it, but presented. -/
theorem console_of_idle (h : Stopped c saved received) (hkeeps : command.keepsPause)
    (hstep : command ≠ .step) :
    (c.turn [command]).console =
      { (c.handle command).1 with machine := (c.handle command).1.machine.present.2 } := by
  rw [console_turn c (Command.ne_quit hkeeps), h.run_handle hkeeps hstep]

/-- After a step, the debugger lets one cycle through. -/
theorem shouldCycle_step (h : Stopped c saved received) :
    (c.handle .step).1.debugger.shouldCycle = (true, ⟨true, 0⟩) := by
  show c.debugger.step.shouldCycle = _
  rw [h.debugger]
  rfl

/-- Every command that keeps the pause leaves a stopped console stopped. -/
theorem turn (h : Stopped c saved received) (hkeeps : command.keepsPause) :
    Stopped (c.turn [command]).console (if command = .save then some c.machine.toState else saved)
      (received ++ (c.turn [command]).frame.toList) where
  sound := by
    rw [machine_turn c (Command.ne_quit hkeeps)]
    exact h.sound.run _
  debugger := by
    rw [console_turn c (Command.ne_quit hkeeps)]
    by_cases hstep : command = .step
    · -- The round of a step uses it up.
      subst hstep
      rw [run_eq, h.shouldCycle_step]
    · rw [h.run_handle hkeeps hstep]
      exact (debugger_handle c hkeeps hstep).trans h.debugger
  slot := by
    rw [console_turn c (Command.ne_quit hkeeps), slot_run, slot_handle]
    split
    · -- The snapshot of a sound machine can be read, which those of others need not be.
      exact congrArg some (Machine.stateOf_save h.sound.valid)
    · exact h.slot
  upToDate := by
    rw [machine_turn c (Command.ne_quit hkeeps), frame_turn c (Command.ne_quit hkeeps)]
    exact h.upToDate.run (c.takeRedraw_not_mem command)

/-- A round with a step takes the cycle, and a tick if a refresh is due. -/
theorem steps_step (h : Stopped c saved received) :
    (c.handle .step).1.steps = if c.clock.advance.1 then [.cycle, .tick] else [.cycle] := by
  rw [steps, h.shouldCycle_step]
  rfl

/-- What is in the slot is a snapshot of the saved state. -/
theorem exists_of_slot (h : Stopped c saved received) {bytes : List UInt8} (hslot : c.slot = some bytes) :
    ∃ state, saved = some state ∧ Snapshot.stateOf bytes = .ok state := by
  have hsaved := h.slot
  rw [hslot, Option.map_some] at hsaved
  obtain ⟨state, hstate, hok⟩ := Option.map_eq_some_iff.1 hsaved.symm
  exact ⟨state, hstate, hok.symm⟩

/-- And the saved state is in the slot. -/
theorem exists_of_saved (h : Stopped c saved received) {state : State} (hsaved : saved = some state) :
    ∃ bytes, c.slot = some bytes ∧ Snapshot.stateOf bytes = .ok state := by
  have hslot := h.slot
  rw [hsaved, Option.map_some] at hslot
  exact Option.map_eq_some_iff.1 hslot

/-- Every command has its effect on a stopped console. -/
theorem effect (h : Stopped c saved received) (hkeeps : command.keepsPause) :
    Effect c command saved (c.turn [command]) where
  cycled := by
    rw [cycled_turn c (Command.ne_quit hkeeps)]
    by_cases hstep : command = .step
    · subst hstep
      rw [cycled_run, h.shouldCycle_step]
      rfl
    · rw [h.run_handle hkeeps hstep, decide_eq_false hstep]
  step := by
    rintro rfl
    have hround := (c.handle .step).1.sameButMark_run
    rw [h.steps_step, ← console_turn c (Command.ne_quit hkeeps)] at hround
    exact hround
  occupied := by
    rw [← Option.map_eq_none_iff (f := Snapshot.stateOf), h.slot, Option.map_eq_none_iff]
  taken := by
    intro bytes hslot
    obtain ⟨state, -, hstate⟩ := h.exists_of_slot hslot
    exact (Machine.restore_result_eq_ok_iff _ _).2 ⟨state, hstate⟩
  restored := by
    rintro rfl state hsaved
    obtain ⟨bytes, hslot, hstate⟩ := h.exists_of_saved hsaved
    rw [h.console_of_idle hkeeps nofun, handle_restore_of_some hslot, Machine.restore_of_ok _ hstate,
      Machine.present_eq]
  kept := by
    rintro rfl
    rw [h.console_of_idle hkeeps nofun, Machine.present_eq]
    cases hslot : c.slot with
    | none =>
      rw [handle_restore_of_none hslot]
      exact ⟨rfl, rfl, rfl, rfl, hslot⟩
    | some bytes =>
      obtain ⟨state, -, hstate⟩ := h.exists_of_slot hslot
      rw [handle_restore_of_some hslot, Machine.restore_of_ok _ hstate]
      exact ⟨rfl, rfl, rfl, rfl, hslot⟩
  unchanged := by
    intro hstep hrestore
    rw [h.console_of_idle hkeeps hstep, Machine.present_eq]
    exact toState_handle c hrestore
  report := by
    have hquit : command ≠ .quit := Command.ne_quit hkeeps
    have htoggle : command ≠ .togglePause := by
      rintro rfl
      exact Bool.false_ne_true hkeeps
    rw [report_turn c hquit, inspect_handle]
    by_cases hlook : command = .step ∨ command = .restore ∧ c.slot ≠ none
    · rw [if_pos (decide_eq_true (.inr hlook)), if_pos hlook]
    · -- Without a step no refresh is due, and the round shows no report of its own.
      have hstep : command ≠ .step := fun hs => hlook (.inl hs)
      rw [if_neg (by simpa [htoggle] using hlook), if_neg hlook, h.run_handle hkeeps hstep]

/-- After a round without a step, the screen is the last frame that was received. -/
theorem displayed (h : Stopped c saved received) (hkeeps : command.keepsPause)
    (hstep : command ≠ .step) :
    (received ++ (c.turn [command]).frame.toList).getLast? =
      some (c.turn [command]).console.machine.pixels := by
  have hmark : (c.turn [command]).console.machine.redraw = false := by
    rw [h.console_of_idle hkeeps hstep, Machine.present_eq]
  exact (h.turn hkeeps).upToDate.resolve_left (by rw [hmark]; exact Bool.false_ne_true)

/-- Whatever commands it is given, a stopped console stays stopped if none of them ends the pause. -/
theorem serve (h : Stopped c saved received) {commands : List Command}
    (hkeeps : ∀ x ∈ commands, x.keepsPause) :
    Stopped (c.serve (commands.map ([·]))) (c.lastSaved saved commands)
      (received ++ c.framesBy (commands.map ([·]))) := by
  induction commands generalizing c saved received with
  | nil =>
    rw [List.map_nil, framesBy, List.append_nil]
    exact h
  | cons command commands ih =>
    rw [List.map_cons, framesBy, ← List.append_assoc]
    exact ih (h.turn (hkeeps _ List.mem_cons_self)) fun x hx => hkeeps x (List.mem_cons_of_mem _ hx)

end Stopped

/-- A new console that is paused in its first round presents the marked screen of its machine, and stands
still. -/
theorem stopped_first {m : Machine KeyState} (h : m.Sound) (hmark : m.redraw = true) :
    let first := (new m).turn [.togglePause]
    Stopped first.console none first.frame.toList ∧ first.cycled = false ∧
      first.report = some first.console.machine.report ∧
      first.frame = some first.console.machine.pixels := by
  intro first
  have hfirst : first =
      { console := { new m with machine := m.present.2, debugger := ⟨true, 0⟩ }
        frame := m.present.1
        report := some m.present.2.report } := rfl
  rw [hfirst, Machine.present_eq, if_pos hmark]
  exact ⟨⟨⟨h.valid, h.running⟩, rfl, rfl, .inr rfl⟩, rfl, rfl, rfl⟩

/-- What becomes of the emulator when it is paused in its first round and then given commands that do not end
the pause, one in each round. The first round executes nothing, shows the report, and presents the screen.
Then every command has its effect: a step executes one cycle, a state that was saved comes back and nothing
else with it, and so on (`Effect`). And after every round but that of a step, the screen is the frame that
was received last. -/
theorem paused_commands (o : Emulator.Options) (entropy : ChaCha.Key) (program : List UInt8)
    (before : List Command) (command : Command) (hbefore : ∀ x ∈ before, x.keepsPause)
    (hcommand : command.keepsPause) :
    let start := new ((o.machine entropy).loadProgram program).machine
    let first := start.turn [.togglePause]
    let rounds := [.togglePause] :: before.map ([·])
    let c := start.serve rounds
    let t := c.turn [command]
    (first.cycled = false ∧ first.report = some first.console.machine.report ∧
        first.frame = some first.console.machine.pixels) ∧
      Effect c command (first.console.lastSaved none before) t ∧
      (command ≠ .step →
        (start.framesBy (rounds ++ [[command]])).getLast? = some t.console.machine.pixels) := by
  intro start first rounds c t
  have hfresh : (o.machine entropy).Sound := Machine.sound_new _ _ _
  have hmark : ((o.machine entropy).loadProgram program).machine.redraw = true := by
    rcases Machine.screen_loadProgram (o.machine entropy) program with hmark | ⟨hmark, -⟩
    · exact hmark
    · rw [hmark]
      rfl
  obtain ⟨hstopped, hround⟩ := stopped_first (hfresh.loadProgram program) hmark
  have hc : Stopped c (first.console.lastSaved none before) (start.framesBy rounds) :=
    hstopped.serve hbefore
  have hframes : start.framesBy (rounds ++ [[command]]) = start.framesBy rounds ++ t.frame.toList := by
    rw [framesBy_append]
    exact congrArg _ (List.append_nil _)
  refine ⟨hround, hc.effect hcommand, fun hstep => ?_⟩
  rw [hframes]
  exact hc.displayed hcommand hstep

/-- A program that sets a register and the delay timer, at a rate at which every cycle is followed by a tick.
The state after its first step is saved, two steps and a faster rate follow, and then that state comes back,
with its program counter and its delay timer. -/
theorem paused_commands_back :
    let o : Emulator.Options := { clockRate := 1 }
    let start := new ((o.machine (Vector.replicate 8 0)).loadProgram [0x60, 5, 0xF0, 0x15]).machine
    let before : List Command := [.step, .save, .step, .faster, .step]
    let stepped := (start.turn [.togglePause]).console.turn [.step]
    let c := start.serve ([.togglePause] :: before.map ([·]))
    (∀ x ∈ before, x.keepsPause) ∧
      (c.turn [.restore]).console.machine.toState = stepped.console.machine.toState ∧
      (c.machine.pc = 0x206 ∧ c.machine.delay = 4) ∧
      (stepped.console.machine.pc = 0x202 ∧ stepped.console.machine.delay = 0) := by
  have hkeeps : ∀ x ∈ [Command.step, .save, .step, .faster, .step], x.keepsPause := by decide
  -- The local names of the statement stay out of the way here: a comparison under a name that stands for a
  -- whole run would carry the run out.
  have heffect := (paused_commands { clockRate := 1 } (Vector.replicate 8 0) [0x60, 5, 0xF0, 0x15] _ .restore
    hkeeps rfl).2.1
  exact ⟨hkeeps, heffect.restored rfl _ (by simp [lastSaved]), by decide +kernel, by decide +kernel⟩

end Console

end Chip8
