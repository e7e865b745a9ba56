import Chip8.Proofs.Frame
import Chip8.Proofs.Memory
import Chip8.Proofs.Pattern

/-!
# The footprint of a cycle

A cycle executes one instruction, and each part of a machine has few instructions that write it:
`Part.writers` lists their patterns. `Machine.same_cycle` says that a part is left alone wherever none
of its writers is executed. It comes from one case analysis over the patterns (`same_execute`), and
everything finer is about the writers alone: a call changes one slot of the stack (`slot_of_cycle`),
the stack pointer moves by one (`sp_cycle`), and the bytes that go to memory go to the cells behind I
(`exists_cell_of_cycle`).

The registers have no list of writers, because most instructions write the register they name. Only
VF is looked at, as the place of the flag (`flag_cycle`). `cycle_footprint` puts all of this together.
-/

namespace Chip8

/-! ## Parts and their writers -/

/-- The patterns whose instructions leave a flag in VF. -/
def Pattern.flagWriters : List Pattern :=
  [.add, .subtract, .shiftRight, .subtractFrom, .shiftLeft, .draw, .addIndex]

/-- The patterns whose instructions write Vx, or V0 to Vx, and leave no flag. -/
def Pattern.registerWriters : List Pattern :=
  [.setByte, .addByte, .assign, .or, .and, .xor, .random, .readDelay, .awaitKey, .load]

/-- A part of a machine that only some instructions change. -/
inductive Part where
  | memory | pixels | redraw | stack | sp | index | delay | sound | random

namespace Part

/-- The patterns whose instructions change a part. -/
def writers : Part → List Pattern
  | memory => [.decimal, .store]
  | pixels | redraw => [.clear, .draw]
  | stack => [.call]
  | sp => [.call, .ret]
  | index => [.setIndex, .addIndex, .glyph]
  | delay => [.setDelay]
  | sound => [.setSound]
  | random => [.random]

/-- The part is the same in both machines. -/
def Same {κ : Type} (m m' : Machine κ) : Part → Prop
  | memory => m'.memory = m.memory
  | pixels => m'.pixels = m.pixels
  | redraw => m'.redraw = m.redraw
  | stack => m'.stack = m.stack
  | sp => m'.sp = m.sp
  | index => m'.index = m.index
  | delay => m'.delay = m.delay
  | sound => m'.sound = m.sound
  | random => m'.random = m.random

end Part

namespace Machine

variable {κ : Type}

/-- A register that was set has the value. -/
theorem reg_setReg_self (m : Machine κ) (x : Register) (value : UInt8) :
    (m.setReg x value).reg x = value :=
  Vector.getElem_set_self x.isLt

/-- Setting a register leaves the others alone. -/
theorem reg_setReg_of_ne (m : Machine κ) {x y : Register} (value : UInt8) (h : x ≠ y) :
    (m.setReg x value).reg y = m.reg y :=
  Vector.getElem_set_ne x.isLt y.isLt fun hval => h (Fin.ext hval)

/-- Reading registers up to one from memory leaves those behind it alone. -/
theorem reg_readRegisters_of_lt (m : Machine κ) {x y : Register} (h : x < y) :
    (m.readRegisters x).reg y = m.reg y := by
  simp [readRegisters, reg, Fin.not_le.2 h]

variable [Keypad κ]

/-- An instruction leaves every part alone that its pattern is no writer of. -/
theorem same_execute (m : Machine κ) (word : UInt16) {p : Pattern} {part : Part}
    (h : p ∉ part.writers) : part.Same m (m.execute (p.instruction word)).machine := by
  -- One case for each group of patterns with the same parts: these are excluded by `h`, and the
  -- others are not touched.
  cases p with
  | clear | draw =>
    cases part with
    | pixels | redraw => exact absurd (by decide) h
    | _ => rfl
  | call =>
    simp only [Pattern.instruction, execute, call, Outcome.quiet]
    cases part with
    | stack | sp => exact absurd (by decide) h
    | _ => split <;> rfl
  | ret =>
    simp only [Pattern.instruction, execute, ret, Outcome.quiet]
    cases part with
    | sp => exact absurd (by decide) h
    | _ => split <;> rfl
  | setIndex | addIndex | glyph =>
    cases part with
    | index => exact absurd (by decide) h
    | _ => rfl
  | decimal | store =>
    cases part with
    | memory => exact absurd (by decide) h
    | _ => rfl
  | setDelay =>
    cases part with
    | delay => exact absurd (by decide) h
    | _ => rfl
  | setSound =>
    cases part with
    | sound => exact absurd (by decide) h
    | _ => rfl
  | random =>
    cases part with
    | random => exact absurd (by decide) h
    | _ => rfl
  | skipEqualsByte | skipDiffersByte | skipEquals | skipDiffers | skipPressed | skipReleased =>
    simp only [Pattern.instruction, execute, skip, Outcome.quiet]
    cases part <;> split <;> rfl
  | awaitKey =>
    simp only [Pattern.instruction, execute, awaitKey, Outcome.quiet]
    cases part <;> split <;> rfl
  | load =>
    simp only [Pattern.instruction, execute, readRegisters, advance, Outcome.quiet]
    cases part <;> rfl
  | _ => cases part <;> rfl

/-- A cycle changes a part only where it executes an instruction that writes the part. -/
theorem same_cycle (m : Machine κ) (part : Part) :
    part.Same m m.cycle.machine ∨ ∃ p ∈ part.writers, m.executes p := by
  by_cases hsome : ∃ p, m.executes p
  · obtain ⟨p, hp⟩ := hsome
    by_cases hwriter : p ∈ part.writers
    · exact .inr ⟨p, hwriter, hp⟩
    · left
      rw [cycle_of_executes hp]
      exact same_execute m _ hwriter
  · left
    rcases cycle_of_forall_not_executes fun p hp => hsome ⟨p, hp⟩ with h | h
    · rw [h]
      cases part <;> rfl
    · rw [h]
      cases part <;> rfl

/-- Both instructions that write the screen mark it. -/
theorem redraw_cycle {m : Machine κ} {p : Pattern} (hp : p ∈ Part.pixels.writers)
    (h : m.executes p) : m.cycle.machine.redraw = true := by
  rw [cycle_of_executes h]
  simp only [Part.writers, List.mem_cons, List.not_mem_nil, or_false] at hp
  rcases hp with rfl | rfl
  · rfl
  · rfl

/-! ## Calls and returns -/

/-- A call that finds room takes the free slot for its own place. -/
theorem cycle_call {m : Machine κ} (h : m.executes .call) (hroom : m.sp.toNat < 16) :
    m.cycle.machine =
      { m with
        stack := m.stack.set m.sp.toNat m.pc
        sp := m.sp + 1
        pc := UInt16.ofNat (Opcode.address (m.fetch m.pc)).val } := by
  rw [cycle_of_executes h]
  simp only [Pattern.instruction, execute, call, dif_pos hroom]
  rfl

/-- A call without room is passed over. -/
theorem cycle_call_full {m : Machine κ} (h : m.executes .call) (hfull : 16 ≤ m.sp.toNat) :
    m.cycle.machine = m.advance := by
  rw [cycle_of_executes h]
  simp only [Pattern.instruction, execute, call, dif_neg (Nat.not_lt.2 hfull)]
  rfl

/-- A return goes on behind the place of the most recent call. -/
theorem cycle_ret {m : Machine κ} (h : m.executes .ret) (hsp : m.sp ≠ 0) :
    m.cycle.machine = { m with sp := m.sp - 1, pc := m.slot (m.sp - 1) + 2 } := by
  rw [cycle_of_executes h]
  simp only [Pattern.instruction, execute, ret, if_neg hsp]
  rfl

/-- A return without a call is passed over. -/
theorem cycle_ret_empty {m : Machine κ} (h : m.executes .ret) (hsp : m.sp = 0) :
    m.cycle.machine = m.advance := by
  rw [cycle_of_executes h]
  simp only [Pattern.instruction, execute, ret, if_pos hsp]
  rfl

/-- A cycle moves the stack pointer by one at the most. -/
theorem sp_cycle (m : Machine κ) :
    m.cycle.machine.sp.toNat ≤ m.sp.toNat + 1 ∧ m.sp.toNat ≤ m.cycle.machine.sp.toNat + 1 := by
  rcases same_cycle m .sp with hsame | ⟨p, hp, hexec⟩
  · have hsp : m.cycle.machine.sp = m.sp := hsame
    rw [hsp]
    omega
  simp only [Part.writers, List.mem_cons, List.not_mem_nil, or_false] at hp
  rcases hp with rfl | rfl
  · by_cases hroom : m.sp.toNat < 16
    · have hnext := toNat_sp_add_one hroom
      rw [cycle_call hexec hroom]
      dsimp only
      omega
    · rw [cycle_call_full hexec (Nat.not_lt.1 hroom)]
      exact ⟨Nat.le_succ _, Nat.le_succ _⟩
  · by_cases hsp : m.sp = 0
    · rw [cycle_ret_empty hexec hsp]
      exact ⟨Nat.le_succ _, Nat.le_succ _⟩
    · have hnext := toNat_sp_sub_one hsp
      rw [cycle_ret hexec hsp]
      dsimp only
      omega

/-- The slot that a cycle can change: the free one, if a call finds room. -/
theorem slot_of_cycle {m : Machine κ} {i : Fin 16}
    (h : m.cycle.machine.stack.get i ≠ m.stack.get i) :
    m.executes .call ∧ m.sp.toNat < 16 ∧ i.val = m.sp.toNat := by
  rcases same_cycle m .stack with hsame | ⟨p, hp, hexec⟩
  · exact absurd (congrArg (·.get i) hsame) h
  rw [Part.writers, List.mem_singleton] at hp
  subst hp
  by_cases hroom : m.sp.toNat < 16
  · refine ⟨hexec, hroom, ?_⟩
    by_cases hi : i.val = m.sp.toNat
    · exact hi
    · rw [cycle_call hexec hroom] at h
      exact absurd (Vector.getElem_set_ne hroom i.isLt fun hval => hi hval.symm) h
  · rw [cycle_call_full hexec (Nat.not_lt.1 hroom)] at h
    exact absurd rfl h

/-! ## Where memory changes -/

/-- The cells that a cycle can change: three for a decimal conversion, and one for each register
that is stored. -/
theorem exists_cell_of_cycle {m : Machine κ} {a : Fin memorySize}
    (h : m.cycle.machine.memory.get a ≠ m.memory.get a) :
    (m.executes .decimal ∧ ∃ k < 3, a = Memory.cell m.index k) ∨
      (m.executes .store ∧ ∃ k ≤ (Opcode.x (m.fetch m.pc)).val, a = Memory.cell m.index k) := by
  rcases same_cycle m .memory with hsame | ⟨p, hp, hexec⟩
  · exact absurd (congrArg (·.get a) hsame) h
  rw [cycle_of_executes hexec] at h
  simp only [Part.writers, List.mem_cons, List.not_mem_nil, or_false] at hp
  rcases hp with rfl | rfl
  · obtain ⟨k, hk, ha⟩ := Memory.exists_cell_of_get_write_ne h
    rw [Nat.zero_add] at ha
    exact .inl ⟨hexec, k, hk, ha⟩
  · obtain ⟨k, hk, ha⟩ := Memory.exists_cell_of_get_write_ne h
    rw [Nat.zero_add] at ha
    have hlength : (m.firstRegisters (Opcode.x (m.fetch m.pc))).length ≤
        (Opcode.x (m.fetch m.pc)).val + 1 := List.length_take_le _ _
    exact .inr ⟨hexec, k, by omega, ha⟩

/-! ## The flag register -/

/-- An instruction that writes no register, or one other than VF, changes VF only to leave a flag
there. -/
theorem flag_execute (m : Machine κ) {word : UInt16} {p : Pattern} (h : p ∉ Pattern.flagWriters)
    (hx : p ∈ Pattern.registerWriters → Opcode.x word ≠ 15) :
    (m.execute (p.instruction word)).machine.reg 15 = m.reg 15 := by
  cases p with
  | add | subtract | shiftRight | subtractFrom | shiftLeft | draw | addIndex =>
    exact absurd (by decide) h
  | setByte | addByte | assign | or | and | xor | random | readDelay =>
    exact reg_setReg_of_ne m _ (hx (by decide))
  | awaitKey =>
    simp only [Pattern.instruction, execute, awaitKey, Outcome.quiet]
    split
    · exact reg_setReg_of_ne m _ (hx (by decide))
    · rfl
  | load =>
    have hne : (Opcode.x word).val ≠ 15 := fun hval => hx (by decide) (Fin.ext hval)
    have hlt : (Opcode.x word).val < 15 := by
      have hle := (Opcode.x word).isLt
      omega
    exact reg_readRegisters_of_lt m hlt
  | call =>
    simp only [Pattern.instruction, execute, call, Outcome.quiet]
    split <;> rfl
  | ret =>
    simp only [Pattern.instruction, execute, ret, Outcome.quiet]
    split <;> rfl
  | skipEqualsByte | skipDiffersByte | skipEquals | skipDiffers | skipPressed | skipReleased =>
    simp only [Pattern.instruction, execute, skip, Outcome.quiet]
    split <;> rfl
  | _ => rfl

/-- A cycle changes VF to leave a flag there, or as the register that the instruction names. -/
theorem flag_cycle (m : Machine κ) :
    m.cycle.machine.reg 15 = m.reg 15 ∨ (∃ p ∈ Pattern.flagWriters, m.executes p) ∨
      (Opcode.x (m.fetch m.pc) = 15 ∧ ∃ p ∈ Pattern.registerWriters, m.executes p) := by
  by_cases hsome : ∃ p, m.executes p
  · obtain ⟨p, hp⟩ := hsome
    by_cases hflag : p ∈ Pattern.flagWriters
    · exact .inr (.inl ⟨p, hflag, hp⟩)
    by_cases hnamed : p ∈ Pattern.registerWriters ∧ Opcode.x (m.fetch m.pc) = 15
    · exact .inr (.inr ⟨hnamed.2, p, hnamed.1, hp⟩)
    · left
      rw [cycle_of_executes hp]
      exact flag_execute m hflag fun hwriter hx => hnamed ⟨hwriter, hx⟩
  · left
    rcases cycle_of_forall_not_executes fun p hp => hsome ⟨p, hp⟩ with h | h
    · rw [h]
    · rw [h]
      rfl

/-- Reading registers from memory up to one before VF leaves VF alone. -/
theorem flag_cycle_load {m : Machine κ} (h : m.executes .load)
    (hx : Opcode.x (m.fetch m.pc) ≠ 15) : m.cycle.machine.reg 15 = m.reg 15 := by
  rw [cycle_of_executes h]
  exact flag_execute m (by decide) fun _ => hx

/-- No cycle reaches what the host owns. -/
theorem sameHost_cycle (m : Machine κ) : SameHost m m.cycle.machine := by
  by_cases hheld : m.paused
  · rw [cycle, if_pos hheld]
    exact ⟨rfl, rfl, rfl⟩
  · rw [machine_cycle (by simpa using hheld)]
    exact sameHost_execute m _

/-- What a cycle changes, whatever the state of the machine and the word at its program counter. -/
theorem cycle_footprint (m : Machine κ) :
    let m' := m.cycle.machine
    (∀ part : Part, part.Same m m' ∨ ∃ p ∈ part.writers, m.executes p) ∧
      (∀ a : Fin memorySize, m'.memory.get a ≠ m.memory.get a →
        (m.executes .decimal ∧ ∃ k < 3, a.val = (m.index.toNat + k) % 4096) ∨
          (m.executes .store ∧
            ∃ k ≤ (Opcode.x (m.fetch m.pc)).val, a.val = (m.index.toNat + k) % 4096)) ∧
      (m'.redraw = m.redraw ∨ m'.redraw = true) ∧
      (∀ i : Fin 16, m'.stack.get i ≠ m.stack.get i →
        m.executes .call ∧ m.sp.toNat < 16 ∧ i.val = m.sp.toNat) ∧
      (m'.sp.toNat ≤ m.sp.toNat + 1 ∧ m.sp.toNat ≤ m'.sp.toNat + 1) ∧
      ((m'.reg 15 ≠ m.reg 15 → (∃ p ∈ Pattern.flagWriters, m.executes p) ∨
          (Opcode.x (m.fetch m.pc) = 15 ∧ ∃ p ∈ Pattern.registerWriters, m.executes p)) ∧
        (m.executes .load → Opcode.x (m.fetch m.pc) ≠ 15 → m'.reg 15 = m.reg 15)) ∧
      (m.executes .random →
        m'.random.key = m.random.key ∧ m'.random.taken = m.random.taken + 1) ∧
      (m'.keypad = m.keypad ∧ m'.config = m.config) ∧
      ((∀ p, ¬ m.executes p) → m' = { m with pc := m'.pc }) := by
  intro m'
  have hhost := sameHost_cycle m
  refine ⟨same_cycle m, fun a ha => ?_, ?_, fun i => slot_of_cycle, sp_cycle m,
    ⟨(flag_cycle m).resolve_left, flag_cycle_load⟩, fun hrandom => ?_,
    ⟨hhost.keypad, hhost.config⟩, fun hnone => ?_⟩
  · -- A cell is a number within memory, which `Memory.cell_val` writes as a remainder.
    simpa only [Fin.ext_iff, Memory.cell_val] using exists_cell_of_cycle ha
  · rcases same_cycle m .redraw with hsame | ⟨p, hp, hexec⟩
    · exact .inl hsame
    · exact .inr (redraw_cycle hp hexec)
  · have hcycle := cycle_of_executes hrandom
    exact ⟨congrArg (·.random.key) hcycle, congrArg (·.random.taken) hcycle⟩
  · rcases cycle_of_forall_not_executes hnone with h | h
    · rw [show m' = m from h]
    · rw [show m' = m.advance from h]
      rfl

end Machine

end Chip8
