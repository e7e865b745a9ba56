import Chip8.Machine.Cycle

/-!
# What instructions leave alone

Only four instructions reach beyond the registers, memory, I, the timers, the random numbers and the
program counter: `00E0` and `DXYN` change the screen, and `2NNN` and `00EE` the stack. Every other
instruction is plain, and `sameStackAndScreen_execute` says that a plain instruction leaves the
stack and the screen as they are. No instruction at all touches the keypad, the preferences and the
mark that the machine is held (`sameHost_execute`).
-/

namespace Chip8

/-- An instruction that changes neither the screen nor the stack. -/
def Instruction.IsPlain : Instruction → Prop
  | .clear | .draw .. | .call _ | .ret => False
  | _ => True

namespace Machine

variable {κ : Type}

/-- Two machines have the same stack and show the same screen. -/
structure SameStackAndScreen (m m' : Machine κ) : Prop where
  /-- As many calls are in progress. -/
  sp : m'.sp = m.sp
  /-- Every slot of the stack is the same. -/
  stack : m'.stack = m.stack
  /-- Every pixel is the same. -/
  pixels : m'.pixels = m.pixels
  /-- The mark that the screen has changed is the same. -/
  redraw : m'.redraw = m.redraw

/-- Two machines have the same keypad and preferences, and both are held or neither is. -/
structure SameHost (m m' : Machine κ) : Prop where
  /-- The mark that the machine is held is the same. -/
  paused : m'.paused = m.paused
  /-- The keypad is the same. -/
  keypad : m'.keypad = m.keypad
  /-- The preferences are the same. -/
  config : m'.config = m.config

/-! ## The stack pointer -/

/-- The stack pointer after a call that finds room. -/
theorem toNat_sp_add_one {sp : UInt8} (h : sp.toNat < 16) : (sp + 1).toNat = sp.toNat + 1 := by
  rw [UInt8.toNat_add]
  exact Nat.mod_eq_of_lt (by simp; omega)

/-- The stack pointer after a return from a call. -/
theorem toNat_sp_sub_one {sp : UInt8} (h : sp ≠ 0) : (sp - 1).toNat + 1 = sp.toNat := by
  have hpos : 0 < sp.toNat := Nat.pos_of_ne_zero fun h0 => h (UInt8.toNat_inj.1 h0)
  have hle : (1 : UInt8) ≤ sp := UInt8.le_iff_toNat_le.2 hpos
  rw [UInt8.toNat_sub_of_le _ _ hle]
  exact Nat.sub_add_cancel hpos

/-! ## Instructions -/

variable [Keypad κ]

/-- A plain instruction leaves the stack and the screen alone. -/
theorem sameStackAndScreen_execute (m : Machine κ) {i : Instruction} (h : i.IsPlain) :
    SameStackAndScreen m (m.execute i).machine := by
  cases i with
  | clear | draw | call | ret => exact h.elim
  | skip condition =>
    -- Both ways of a skip only move the program counter.
    simp only [execute, skip, Outcome.quiet]
    split <;> exact ⟨rfl, rfl, rfl, rfl⟩
  | combine operator x y =>
    simp only [execute, Outcome.quiet]
    split <;> exact ⟨rfl, rfl, rfl, rfl⟩
  | awaitKey x =>
    simp only [execute, awaitKey, Outcome.quiet]
    split <;> exact ⟨rfl, rfl, rfl, rfl⟩
  | load x =>
    -- Unfolded first: whole machines are not compared, which would evaluate the registers.
    simp only [execute, readRegisters, advance, Outcome.quiet]
    exact ⟨rfl, rfl, rfl, rfl⟩
  | _ => exact ⟨rfl, rfl, rfl, rfl⟩

/-- No instruction reaches what the host owns. -/
theorem sameHost_execute (m : Machine κ) (i : Instruction) : SameHost m (m.execute i).machine := by
  cases i with
  | ret =>
    simp only [execute, ret, Outcome.quiet]
    split <;> exact ⟨rfl, rfl, rfl⟩
  | call target =>
    simp only [execute, call, Outcome.quiet]
    split <;> exact ⟨rfl, rfl, rfl⟩
  | skip condition =>
    simp only [execute, skip, Outcome.quiet]
    split <;> exact ⟨rfl, rfl, rfl⟩
  | combine operator x y =>
    simp only [execute, Outcome.quiet]
    split <;> exact ⟨rfl, rfl, rfl⟩
  | awaitKey x =>
    simp only [execute, awaitKey, Outcome.quiet]
    split <;> exact ⟨rfl, rfl, rfl⟩
  | draw x y height =>
    simp only [execute, drawSprite, setFlag, setReg, advance, Outcome.quiet]
    exact ⟨rfl, rfl, rfl⟩
  | load x =>
    simp only [execute, readRegisters, advance, Outcome.quiet]
    exact ⟨rfl, rfl, rfl⟩
  | _ => exact ⟨rfl, rfl, rfl⟩

end Machine

end Chip8
