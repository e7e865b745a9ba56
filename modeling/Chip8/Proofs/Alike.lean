import Chip8.Proofs.Footprint
import Chip8.Proofs.Snapshot.Restore

/-!
# What a program cannot see

A program never reads the sound timer, the mark that the screen has changed, the preferences, or a
slot of the stack that no call is in. `Machine.Alike` says that two machines agree on everything else,
and every step keeps two machines alike (`Alike.step`), so they stay alike whatever is played.

The relation moves with the stack pointer. A call turns a slot on which the machines may differ into one
on which they have to agree, and fills it with the same place in both (`Alike.call`); a return reads the
last slot on which they agree and then gives it up (`Alike.ret`).

A machine that was restored from a snapshot is even closer to the one that saved it: the sound timer and
the whole stack are the same too. `IsCopy` says this, and as only one instruction writes the sound timer
and one the stack, a copy stays one (`IsCopy.play`).
-/

namespace Chip8

namespace Machine

variable {κ : Type}

/-- Two machines agree on all that a program can see. They may differ in the sound timer, the mark that
the screen has changed, the preferences, and the slots of the stack that no call is in. -/
structure Alike (m t : Machine κ) : Prop where
  /-- The stack pointer is within the stack. -/
  sp_le : m.sp.toNat ≤ 16
  /-- As many calls are in progress. -/
  sp : t.sp = m.sp
  /-- The places of the calls are the same. -/
  stack : ∀ i : Fin 16, i.val < m.sp.toNat → t.stack.get i = m.stack.get i
  /-- The next instruction is fetched from the same place. -/
  pc : t.pc = m.pc
  /-- I is the same. -/
  index : t.index = m.index
  /-- V0 to VF are the same. -/
  registers : t.registers = m.registers
  /-- Every byte of memory is the same. -/
  memory : t.memory = m.memory
  /-- Every pixel is the same. -/
  pixels : t.pixels = m.pixels
  /-- The delay timer is the same. -/
  delay : t.delay = m.delay
  /-- The keypad is the same. -/
  keypad : t.keypad = m.keypad
  /-- The random numbers to come are the same. -/
  random : t.random = m.random
  /-- Both machines are held, or neither is. -/
  paused : t.paused = m.paused

namespace Alike

variable {m t : Machine κ}

/-- A machine is alike itself with another sound timer, mark and preferences, and with leftovers in the
slots that no call is in. -/
theorem leftovers {m : Machine κ} (hsp : m.sp.toNat ≤ 16) {stack : Vector UInt16 16}
    (hstack : ∀ i : Fin 16, i.val < m.sp.toNat → stack.get i = m.stack.get i) {sound : UInt8}
    {redraw : Bool} {config : Config} :
    Alike m { m with sound := sound, redraw := redraw, config := config, stack := stack } :=
  ⟨hsp, rfl, hstack, rfl, rfl, rfl, rfl, rfl, rfl, rfl, rfl, rfl⟩

/-! ## The parts of an instruction -/

theorem advance (h : Alike m t) : Alike m.advance t.advance :=
  { h with pc := congrArg (· + 2) h.pc }

theorem jump (h : Alike m t) (target : Address) : Alike (m.jump target) (t.jump target) :=
  { h with pc := rfl }

theorem setIndex (h : Alike m t) (index : UInt16) :
    Alike { m with index := index } { t with index := index } :=
  { h with index := rfl }

theorem setDelay (h : Alike m t) (delay : UInt8) :
    Alike { m with delay := delay } { t with delay := delay } :=
  { h with delay := rfl }

theorem setRandom (h : Alike m t) (random : Random) :
    Alike { m with random := random } { t with random := random } :=
  { h with random := rfl }

/-- The sound timers may be set to anything. -/
theorem setSound (h : Alike m t) (sound sound' : UInt8) :
    Alike { m with sound := sound } { t with sound := sound' } :=
  { h with }

theorem reg (h : Alike m t) (x : Register) : t.reg x = m.reg x := by
  rw [Machine.reg, Machine.reg, h.registers]

theorem setReg (h : Alike m t) (x : Register) (value : UInt8) :
    Alike (m.setReg x value) (t.setReg x value) :=
  { h with registers := by rw [Machine.setReg, Machine.setReg, h.registers] }

theorem setFlag (h : Alike m t) (flag : Bool) : Alike (m.setFlag flag) (t.setFlag flag) :=
  h.setReg 15 _

theorem darken (h : Alike m t) : Alike m.darken t.darken :=
  { h with pixels := rfl }

theorem drawSprite (h : Alike m t) (x y : Register) (height : Fin 16) :
    Alike (m.drawSprite x y height) (t.drawSprite x y height) := by
  simp only [Machine.drawSprite, h.reg, h.memory, h.index, h.pixels]
  apply setFlag
  exact { h with index := rfl, memory := rfl, pixels := rfl }

theorem writeAtIndex (h : Alike m t) (bytes : List UInt8) :
    Alike (m.writeAtIndex bytes) (t.writeAtIndex bytes) :=
  { h with memory := by rw [Machine.writeAtIndex, Machine.writeAtIndex, h.memory, h.index] }

theorem readRegisters (h : Alike m t) (x : Register) :
    Alike (m.readRegisters x) (t.readRegisters x) := by
  simp only [Machine.readRegisters, h.memory, h.index, h.registers]
  -- Field by field: whole machines are not compared, which would evaluate the registers.
  exact ⟨h.sp_le, h.sp, h.stack, h.pc, rfl, rfl, rfl, h.pixels, h.delay, h.keypad, h.random,
    h.paused⟩

/-! ## Calls and returns -/

/-- The slots that a call is in are the same. -/
theorem slot (h : Alike m t) {i : UInt8} (hi : i.toNat < m.sp.toNat) : t.slot i = m.slot i := by
  have hlt : i.toNat < 16 := Nat.lt_of_lt_of_le hi h.sp_le
  rw [State.slot, State.slot, Vector.getElem?_eq_getElem hlt, Vector.getElem?_eq_getElem hlt]
  exact h.stack ⟨i.toNat, hlt⟩ hi

/-- A call takes the first slot in which the stacks may differ, and the place it puts there is the
same. -/
theorem call (h : Alike m t) (target : Address) :
    Alike (m.call target).machine (t.call target).machine := by
  unfold Machine.call
  by_cases hroom : m.sp.toNat < 16
  · have hroom' : t.sp.toNat < 16 := by
      rw [h.sp]
      exact hroom
    rw [dif_pos hroom, dif_pos hroom']
    have hnext := toNat_sp_add_one hroom
    have hpush :
        Alike { m with stack := m.stack.set m.sp.toNat m.pc, sp := m.sp + 1 }
          { t with stack := t.stack.set t.sp.toNat t.pc, sp := t.sp + 1 } :=
      { h with
        sp_le := by
          show (m.sp + 1).toNat ≤ 16
          omega
        sp := congrArg (· + 1) h.sp
        stack := by
          intro i hi
          -- The slot that was free holds the same place now; the slots below it are left alone.
          show (t.stack.set t.sp.toNat t.pc)[i.val] = (m.stack.set m.sp.toNat m.pc)[i.val]
          simp only [Vector.getElem_set, h.sp, h.pc]
          split
          · rfl
          · next hne =>
            have hlive : i.val < m.sp.toNat := by
              have hi' : i.val < (m.sp + 1).toNat := hi
              omega
            exact h.stack i hlive }
    exact hpush.jump target
  · have hfull : ¬ t.sp.toNat < 16 := by
      rw [h.sp]
      exact hroom
    rw [dif_neg hroom, dif_neg hfull]
    exact h.advance

/-- A return reads the last slot in which the stacks have to agree, and gives it up. -/
theorem ret (h : Alike m t) : Alike m.ret.machine t.ret.machine := by
  unfold Machine.ret
  by_cases hsp : m.sp = 0
  · have hsp' : t.sp = 0 := h.sp.trans hsp
    rw [if_pos hsp, if_pos hsp']
    exact h.advance
  · have hsp' : t.sp ≠ 0 := by
      rw [h.sp]
      exact hsp
    rw [if_neg hsp, if_neg hsp']
    have hnext := toNat_sp_sub_one hsp
    have hle := h.sp_le
    have hslot : t.slot (t.sp - 1) = m.slot (m.sp - 1) := by
      -- The slot is read before it is given up, so it is one on which the stacks agree.
      rw [h.sp]
      exact h.slot (by omega)
    have hpop :
        Alike { m with sp := m.sp - 1, pc := m.slot (m.sp - 1) }
          { t with sp := t.sp - 1, pc := t.slot (t.sp - 1) } :=
      { h with
        sp_le := by
          show (m.sp - 1).toNat ≤ 16
          omega
        sp := congrArg (· - 1) h.sp
        stack := by
          intro i hi
          have hi' : i.val < (m.sp - 1).toNat := hi
          exact h.stack i (by omega)
        pc := hslot }
    exact hpop.advance

/-! ## Steps -/

/-- The timers count down alike, and the sound timers count for themselves. -/
theorem tick (h : Alike m t) : Alike m.tick t.tick :=
  { h with delay := by rw [Machine.tick, Machine.tick, h.delay] }

theorem withKeypad (h : Alike m t) (change : κ → κ) :
    Alike (m.withKeypad change) (t.withKeypad change) :=
  { h with keypad := congrArg change h.keypad }

/-- Alike machines fetch the same word. -/
theorem fetch (h : Alike m t) : t.fetch t.pc = m.fetch m.pc := by
  rw [State.fetch, State.fetch, h.memory, h.pc]

/-- Alike machines execute instructions of the same pattern. -/
theorem executes (h : Alike m t) (p : Pattern) : t.executes p = m.executes p := by
  rw [Machine.executes, Machine.executes, h.paused, h.fetch]

variable [Keypad κ]

/-- The same conditions hold, and the same keys are asked for. -/
theorem test (h : Alike m t) (condition : Condition) : t.test condition = m.test condition := by
  cases condition with
  | pressed x | released x => simp only [Machine.test, keyOf, h.reg, h.keypad]
  | _ => simp only [Machine.test, h.reg]

theorem skip (h : Alike m t) (condition : Condition) :
    Alike (m.skip condition).machine (t.skip condition).machine := by
  simp only [Machine.skip, Outcome.quiet, h.test]
  split
  · exact h.advance.advance
  · exact h.advance

theorem awaitKey (h : Alike m t) (x : Register) :
    Alike (m.awaitKey x).machine (t.awaitKey x).machine := by
  simp only [Machine.awaitKey, Outcome.quiet, h.keypad]
  split
  · exact (h.setReg x _).advance
  · exact h

/-- The same instruction keeps machines alike. -/
theorem execute (h : Alike m t) (i : Instruction) :
    Alike (m.execute i).machine (t.execute i).machine := by
  cases i with
  | clear => exact h.darken.advance
  | ret => exact h.ret
  | jump target => exact h.jump target
  | call target => exact h.call target
  | skip condition => exact h.skip condition
  | setByte x byte => exact (h.setReg x byte).advance
  | addByte x byte =>
    simp only [Machine.execute, h.reg]
    exact (h.setReg x _).advance
  | combine operator x y =>
    simp only [Machine.execute, h.reg]
    split
    · exact ((h.setReg x _).setFlag _).advance
    · exact (h.setReg x _).advance
  | shift direction x =>
    simp only [Machine.execute, h.reg]
    exact ((h.setReg x _).setFlag _).advance
  | setIndex target => exact (h.setIndex _).advance
  | jumpOffset target =>
    simp only [Machine.execute, h.reg]
    exact { h with pc := rfl }
  | random x mask =>
    simp only [Machine.execute, h.random]
    exact ((h.setRandom _).setReg x _).advance
  | draw x y height => exact (h.drawSprite x y height).advance
  | readDelay x =>
    simp only [Machine.execute, h.delay]
    exact (h.setReg x _).advance
  | awaitKey x => exact h.awaitKey x
  | setDelay x =>
    simp only [Machine.execute, h.reg]
    exact (h.setDelay _).advance
  | setSound x => exact (h.setSound _ _).advance
  | addIndex x =>
    simp only [Machine.execute, h.reg, h.index]
    exact ((h.setIndex _).setFlag _).advance
  | glyph x =>
    simp only [Machine.execute, h.reg]
    exact (h.setIndex _).advance
  | decimal x =>
    simp only [Machine.execute, h.reg]
    exact (h.writeAtIndex _).advance
  | store x =>
    simp only [Machine.execute, firstRegisters, h.registers]
    exact (h.writeAtIndex _).advance
  | load x => exact (h.readRegisters x).advance
  | unsupported word => exact h.advance

theorem cycle (h : Alike m t) : Alike m.cycle.machine t.cycle.machine := by
  by_cases hheld : m.paused
  · have hheld' : t.paused := h.paused.trans hheld
    rw [Machine.cycle, Machine.cycle, if_pos hheld, if_pos hheld']
    exact h
  · have hfree : m.paused = false := by simpa using hheld
    rw [machine_cycle hfree, machine_cycle (h.paused.trans hfree), h.fetch]
    exact h.execute _

/-- Every step keeps machines alike. -/
theorem step (h : Alike m t) (s : Step κ) : Alike (m.perform s.operation) (t.perform s.operation) := by
  cases s with
  | cycle => exact h.cycle
  | tick => exact h.tick
  | keys change => exact h.withKeypad change

/-- Alike machines stay alike, whatever they play. -/
theorem play (h : Alike m t) (steps : List (Step κ)) : Alike (m.play steps) (t.play steps) := by
  induction steps generalizing m t with
  | nil => exact h
  | cons s steps ih => exact ih (h.step s)

/-- A part that neither machine writes is left alone in both. -/
theorem same_cycle (h : Alike m t) {part : Part} (hnone : ∀ p ∈ part.writers, ¬ m.executes p) :
    part.Same m m.cycle.machine ∧ part.Same t t.cycle.machine := by
  constructor
  · refine (Machine.same_cycle m part).resolve_right ?_
    rintro ⟨p, hp, hexec⟩
    exact hnone p hp hexec
  · refine (Machine.same_cycle t part).resolve_right ?_
    rintro ⟨p, hp, hexec⟩
    rw [h.executes] at hexec
    exact hnone p hp hexec

end Alike

/-! ## Copies -/

/-- Two machines have the same state, and the same keypad and random numbers. They may differ in the
mark that the screen has changed and the preferences. -/
structure IsCopy (m t : Machine κ) : Prop extends Alike m t where
  /-- The sound timer is the same. -/
  sound : t.sound = m.sound
  /-- Every slot of the stack is the same. -/
  slots : t.stack = m.stack

namespace IsCopy

variable {m t : Machine κ}

theorem toState_eq (h : IsCopy m t) : t.toState = m.toState := by
  rw [State.mk.injEq]
  exact ⟨h.pc, h.sp, h.index, h.registers, h.slots, h.memory, h.pixels, h.delay, h.sound⟩

variable [Keypad κ]

/-- The sound timer is set in both machines or in neither, and from the same register. -/
theorem sound_cycle (h : IsCopy m t) : t.cycle.machine.sound = m.cycle.machine.sound := by
  by_cases hexec : m.executes .setSound
  · have hexec' : t.executes .setSound := (h.executes _).trans hexec
    rw [cycle_of_executes hexec, cycle_of_executes hexec', h.fetch]
    exact h.reg _
  · have hnone : ∀ p ∈ Part.sound.writers, ¬ m.executes p := by simpa [Part.writers] using hexec
    obtain ⟨hm, ht⟩ := h.same_cycle hnone
    exact ht.trans (h.sound.trans hm.symm)

/-- A slot is written in both machines or in neither, with the same place. -/
theorem stack_cycle (h : IsCopy m t) : t.cycle.machine.stack = m.cycle.machine.stack := by
  by_cases hexec : m.executes .call
  · have hexec' : t.executes .call := (h.executes _).trans hexec
    by_cases hroom : m.sp.toNat < 16
    · have hroom' : t.sp.toNat < 16 := by
        rw [h.sp]
        exact hroom
      rw [cycle_call hexec hroom, cycle_call hexec' hroom']
      simp only [h.slots, h.sp, h.pc]
    · have hfull : 16 ≤ m.sp.toNat := Nat.not_lt.1 hroom
      have hfull' : 16 ≤ t.sp.toNat := by
        rw [h.sp]
        exact hfull
      rw [cycle_call_full hexec hfull, cycle_call_full hexec' hfull']
      exact h.slots
  · have hnone : ∀ p ∈ Part.stack.writers, ¬ m.executes p := by simpa [Part.writers] using hexec
    obtain ⟨hm, ht⟩ := h.same_cycle hnone
    exact ht.trans (h.slots.trans hm.symm)

/-- Every step keeps a copy one. -/
theorem step (h : IsCopy m t) (s : Step κ) :
    IsCopy (m.perform s.operation) (t.perform s.operation) := by
  refine ⟨h.toAlike.step s, ?_, ?_⟩
  · cases s with
    | cycle => exact h.sound_cycle
    | tick =>
      show t.tick.sound = m.tick.sound
      rw [tick, tick, h.sound]
    | keys change => exact h.sound
  · cases s with
    | cycle => exact h.stack_cycle
    | tick | keys => exact h.slots

/-- A copy stays one, whatever both play. -/
theorem play (h : IsCopy m t) (steps : List (Step κ)) : IsCopy (m.play steps) (t.play steps) := by
  induction steps generalizing m t with
  | nil => exact h
  | cons s steps ih => exact ih (h.step s)

end IsCopy

/-- A machine that takes over what a sound machine saved is a copy of it, if it has the same keypad and
the same random numbers. -/
theorem isCopy_restore_save {m : Machine κ} (h : m.Sound) {t : Machine κ}
    (hkeypad : t.keypad = m.keypad) (hrandom : t.random = m.random) :
    IsCopy m (t.restore m.save.result).machine := by
  rw [restore_of_ok t (stateOf_save h.valid)]
  exact ⟨⟨h.valid.sp_le, rfl, fun _ _ => rfl, rfl, rfl, rfl, rfl, rfl, rfl, hkeypad, hrandom,
    h.running.symm⟩, rfl, rfl⟩

variable [Keypad κ]

/-- Machines that are alike stay alike, whatever is played. And a machine that was restored from what a
session saved, with the keypad and the random numbers of the session, plays on just as the machine of
the session does: at the end of any steps their states are the same, and so are their keypads and random
numbers. -/
theorem play_alike :
    (∀ m t : Machine κ, Alike m t → ∀ steps, Alike (m.play steps) (t.play steps)) ∧
      ∀ (keypad : κ) (config : Config) (entropy : ChaCha.Key) (ops : List (Operation κ))
        (t : Machine κ),
        let s := session keypad config entropy ops
        let restored := (t.restore s.save.result).machine
        t.keypad = s.keypad → t.random = s.random → ∀ steps,
          (restored.play steps).toState = (s.play steps).toState ∧
            (restored.play steps).keypad = (s.play steps).keypad ∧
            (restored.play steps).random = (s.play steps).random := by
  refine ⟨fun m t h => h.play, ?_⟩
  intro keypad config entropy ops t s restored hkeypad hrandom steps
  have hcopy : IsCopy s restored :=
    isCopy_restore_save (sound_session keypad config entropy ops) hkeypad hrandom
  have hplayed := hcopy.play steps
  exact ⟨hplayed.toState_eq, hplayed.keypad, hplayed.random⟩

/-- A program that calls a subroutine and returns, on a machine and on one with another sound timer,
other preferences and leftovers in its stack. They are alike to the end, although they still differ
then. And a machine that starts over and is then restored plays the program to the same end. -/
theorem play_alike_leftovers :
    let program : List UInt8 := [0x22, 0x04, 0x00, 0x00, 0x00, 0xEE]
    let entropy : ChaCha.Key := Vector.replicate 8 0
    let s := session KeyState.allUp {} entropy [.loadProgram program]
    let t : Machine KeyState :=
      { s with sound := 9, redraw := false, config := ⟨1, none⟩, stack := Vector.replicate 16 7 }
    let steps : List (Step KeyState) := [.cycle, .tick, .cycle]
    Alike s t ∧ Alike (s.play steps) (t.play steps) ∧
      (t.play steps).sound ≠ (s.play steps).sound ∧ (t.play steps).stack ≠ (s.play steps).stack ∧
      ((s.reset.restore s.save.result).machine.play steps).toState = (s.play steps).toState := by
  intro program entropy s t steps
  have hsp : s.sp.toNat = 0 := by decide +kernel
  have halike : Alike s t := by
    refine .leftovers (hsp ▸ Nat.zero_le 16) fun i hi => ?_
    rw [hsp] at hi
    exact absurd hi (Nat.not_lt_zero _)
  -- Of any machine, so that the program is not loaded to see it.
  have hreset (m : Machine KeyState) : m.reset.keypad = m.keypad ∧ m.reset.random = m.random :=
    ⟨rfl, rfl⟩
  obtain ⟨hplay, hrestore⟩ := play_alike (κ := KeyState)
  have hrestored := hrestore .allUp {} entropy [.loadProgram program] s.reset (hreset s).1
    (hreset s).2 steps
  have hdiffer : (t.play steps).sound ≠ (s.play steps).sound ∧
      (t.play steps).stack ≠ (s.play steps).stack := by decide +kernel
  exact ⟨halike, hplay s t halike steps, hdiffer.1, hdiffer.2, hrestored.1⟩

end Machine

end Chip8
