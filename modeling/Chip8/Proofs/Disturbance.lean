import Chip8.Proofs.Pattern

/-!
# Changes from outside

The timers, the keypad and the random numbers of a machine change without its program doing anything: the
host counts the timers down and moves the keys, and the random numbers are wherever the past has left them.
A `Disturbance` is such a change, of any of these parts and each by itself.

An instruction that looks at none of the parts that are disturbed does the same before the disturbance as
after it. `execute_disturb` is the one case analysis over the instructions that says so, for every
disturbance; from it a cycle and a disturbance can be exchanged (`cycle_disturb`), unless the word that is
executed belongs to one of the few patterns that look at a disturbed part (`Disturbance.Spares`).
-/

namespace Chip8

/-- A change of the parts that are not a program's own, each by itself. -/
structure Disturbance (κ : Type) where
  /-- What becomes of the delay timer. -/
  delay : UInt8 → UInt8 := id
  /-- What becomes of the sound timer. -/
  sound : UInt8 → UInt8 := id
  /-- What becomes of the keypad. -/
  keypad : κ → κ := id
  /-- What becomes of the source of random numbers. -/
  random : Random → Random := id

namespace Disturbance

variable {κ : Type}

/-- The instruction looks at no part that is disturbed. -/
def Spares (d : Disturbance κ) : Instruction → Prop
  | .readDelay _ | .setDelay _ => d.delay = id
  | .setSound _ => d.sound = id
  | .awaitKey _ | .skip (.pressed _) | .skip (.released _) => d.keypad = id
  | .random .. => d.random = id
  | _ => True

/-- What is spared with every pattern that a word fits is spared with the word, because a word that fits
none does nothing. -/
theorem spares_ofWord {d : Disturbance κ} {word : UInt16}
    (h : ∀ p : Pattern, p.fits word → d.Spares (p.instruction word)) : d.Spares (.ofWord word) := by
  rcases Instruction.ofWord_cases word with ⟨p, hp, hword⟩ | ⟨-, hword⟩
  · rw [hword]
    exact h p hp
  · rw [hword]
    trivial

end Disturbance

namespace Machine

variable {κ : Type}

/-- The machine after a disturbance. -/
def disturb (m : Machine κ) (d : Disturbance κ) : Machine κ :=
  { m with
    delay := d.delay m.delay
    sound := d.sound m.sound
    keypad := d.keypad m.keypad
    random := d.random m.random }

variable [Keypad κ]

/-- A condition that does not ask for a disturbed key is tested after the disturbance as before. -/
theorem test_disturb (m : Machine κ) {d : Disturbance κ} {condition : Condition}
    (h : d.Spares (.skip condition)) : (m.disturb d).test condition = m.test condition := by
  cases condition with
  | pressed x | released x =>
    have hkeypad : d.keypad m.keypad = m.keypad := congrFun h _
    simp only [test, keyOf, reg, disturb, hkeypad]
  | _ => rfl

/-- An instruction does the same before a disturbance as after it, if it looks at nothing that is
disturbed. -/
theorem execute_disturb (m : Machine κ) {d : Disturbance κ} {i : Instruction} (h : d.Spares i) :
    ((m.disturb d).execute i).machine = (m.execute i).machine.disturb d := by
  cases i with
  | ret =>
    by_cases hsp : m.sp = 0
    · have hsp' : (m.disturb d).sp = 0 := hsp
      rw [execute, execute, ret, ret, if_pos hsp, if_pos hsp']
      rfl
    · have hsp' : (m.disturb d).sp ≠ 0 := hsp
      rw [execute, execute, ret, ret, if_neg hsp, if_neg hsp']
      rfl
  | call target =>
    by_cases hroom : m.sp.toNat < 16
    · have hroom' : (m.disturb d).sp.toNat < 16 := hroom
      rw [execute, execute, call, call, dif_pos hroom, dif_pos hroom']
      rfl
    · have hfull : ¬ (m.disturb d).sp.toNat < 16 := hroom
      rw [execute, execute, call, call, dif_neg hroom, dif_neg hfull]
      rfl
  | skip condition =>
    simp only [execute, skip, Outcome.quiet, m.test_disturb h]
    split <;> rfl
  | combine operator x y =>
    have hreg (z : Register) : (m.disturb d).reg z = m.reg z := rfl
    simp only [execute, hreg]
    split <;> rfl
  | awaitKey x =>
    have hkeypad : d.keypad m.keypad = m.keypad := congrFun h _
    simp only [execute, awaitKey, Outcome.quiet, disturb, hkeypad]
    split <;> simp only [setReg, advance, hkeypad]
  | random x mask =>
    have hrandom (r : Random) : d.random r = r := congrFun h r
    simp only [execute, Outcome.quiet, disturb, setReg, advance, hrandom]
  | readDelay x | setDelay x =>
    have hdelay (v : UInt8) : d.delay v = v := congrFun h v
    simp only [execute, Outcome.quiet, disturb, setReg, reg, advance, hdelay]
  | setSound x =>
    have hsound (v : UInt8) : d.sound v = v := congrFun h v
    simp only [execute, Outcome.quiet, disturb, reg, advance, hsound]
  | load x =>
    -- Unfolded first: whole machines are not compared, which would evaluate the registers.
    simp only [execute, readRegisters, advance, Outcome.quiet, disturb]
  | _ => rfl

/-- So does a cycle, if its word belongs to no pattern that looks at what is disturbed. -/
theorem cycle_disturb {m : Machine κ} {d : Disturbance κ}
    (h : ∀ p, m.executes p → d.Spares (p.instruction (m.fetch m.pc))) :
    (m.disturb d).cycle.machine = m.cycle.machine.disturb d := by
  by_cases hheld : m.paused
  · have hheld' : (m.disturb d).paused := hheld
    rw [cycle, cycle, if_pos hheld, if_pos hheld']
    rfl
  · have hfree : m.paused = false := by simpa using hheld
    have hfree' : (m.disturb d).paused = false := hfree
    have hspares : d.Spares (.ofWord (m.fetch m.pc)) :=
      Disturbance.spares_ofWord fun p hp => h p (executes_iff.2 ⟨hfree, hp⟩)
    rw [machine_cycle hfree, machine_cycle hfree']
    exact execute_disturb m hspares

end Machine

end Chip8
