import Chip8.Proofs.Footprint

/-!
# Between registers and memory

Three instructions move bytes to or from the cells behind I, around the end of memory: `FX55` writes
V0 to Vx, `FX65` reads them, and `FX33` writes the decimal digits of Vx. There are sixteen registers
and many more cells, so the cells of one transfer are different ones, wherever I stands. Each
register is therefore found in its own cell, and to read registers after they were written, or to
write them after they were read, brings back what was there (`transfer_windows`).
-/

namespace Chip8

/-- The digits of a byte are decimal digits, and make up the byte. -/
theorem decimalDigits_toNat (v : UInt8) :
    ((v / 100).toNat ≤ 9 ∧ (v / 10 % 10).toNat ≤ 9 ∧ (v % 10).toNat ≤ 9) ∧
      100 * (v / 100).toNat + 10 * (v / 10 % 10).toNat + (v % 10).toNat = v.toNat := by
  have hlt := v.toNat_lt
  have hhundreds : (v / 100).toNat = v.toNat / 100 := UInt8.toNat_div _ _
  have htens : (v / 10 % 10).toNat = v.toNat / 10 % 10 := by
    rw [UInt8.toNat_mod, UInt8.toNat_div]
    rfl
  have hones : (v % 10).toNat = v.toNat % 10 := UInt8.toNat_mod _ _
  rw [hhundreds, htens, hones]
  omega

namespace Machine

variable {κ : Type}

/-! ## Bytes behind I -/

/-- Bytes that are written from I on are found there. -/
theorem get_writeAtIndex (m : Machine κ) {bytes : List UInt8}
    (hfits : bytes.length ≤ memorySize) {k : Nat} (hk : k < bytes.length) :
    (m.writeAtIndex bytes).memory.get (Memory.cell m.index k) = bytes[k] := by
  have hget : (m.writeAtIndex bytes).memory.get (Memory.cell m.index (0 + k)) = bytes[k] :=
    Memory.get_write_cell hfits hk
  rwa [Nat.zero_add] at hget

/-- The other cells are left alone. -/
theorem get_writeAtIndex_of_forall_ne (m : Machine κ) {bytes : List UInt8} {a : Fin memorySize}
    (h : ∀ k < bytes.length, a ≠ Memory.cell m.index k) :
    (m.writeAtIndex bytes).memory.get a = m.memory.get a := by
  refine Memory.get_write_of_forall_ne fun k hk => ?_
  rw [Nat.zero_add]
  exact h k hk

/-! ## Registers behind I -/

/-- The registers up to one are as many as its number says, and one more. -/
theorem length_firstRegisters (m : Machine κ) (x : Register) :
    (m.firstRegisters x).length = x.val + 1 := by
  have hx := x.isLt
  rw [firstRegisters, List.length_take, Vector.length_toList]
  omega

/-- The registers up to one are in order. -/
theorem getElem_firstRegisters (m : Machine κ) {x r : Register}
    (hr : r.val < (m.firstRegisters x).length) :
    (m.firstRegisters x)[r.val] = m.reg r := by
  simp only [firstRegisters, List.getElem_take, Vector.getElem_toList]
  rfl

/-- A register that is stored is found in its cell. -/
theorem get_store (m : Machine κ) {x r : Register} (hr : r ≤ x) :
    (m.writeAtIndex (m.firstRegisters x)).memory.get (Memory.cell m.index r.val) = m.reg r := by
  have hfits : (m.firstRegisters x).length ≤ memorySize := by
    rw [length_firstRegisters]
    exact Nat.le_trans x.isLt (by decide)
  have hlt : r.val < (m.firstRegisters x).length := by
    rw [length_firstRegisters]
    exact Nat.lt_succ_of_le hr
  rw [m.get_writeAtIndex hfits hlt, getElem_firstRegisters]

/-- A cell that is not that of a stored register is left alone. -/
theorem get_store_of_forall_ne (m : Machine κ) {x : Register} {a : Fin memorySize}
    (h : ∀ r ≤ x, a ≠ Memory.cell m.index r.val) :
    (m.writeAtIndex (m.firstRegisters x)).memory.get a = m.memory.get a := by
  refine m.get_writeAtIndex_of_forall_ne fun k hk => ?_
  rw [length_firstRegisters] at hk
  exact h ⟨k, Nat.lt_of_lt_of_le hk x.isLt⟩ (Nat.le_of_lt_succ hk)

/-- A register that is loaded is what its cell holds. -/
theorem reg_readRegisters_of_le (m : Machine κ) {x r : Register} (hr : r ≤ x) :
    (m.readRegisters x).reg r = m.memory.get (Memory.cell m.index r.val) := by
  simp only [readRegisters, reg, Fin.getElem_fin, Vector.getElem_ofFn, if_pos hr]
  rfl

/-- V0 to Vx are what their cells behind I hold. -/
def Mirrors (m : Machine κ) (x : Register) : Prop :=
  ∀ r ≤ x, m.reg r = m.memory.get (Memory.cell m.index r.val)

variable [Keypad κ]

/-! ## The instructions -/

/-- A store changes memory and moves the program counter. -/
theorem machine_execute_store (m : Machine κ) (x : Register) :
    (m.execute (.store x)).machine =
      { m with memory := (m.writeAtIndex (m.firstRegisters x)).memory, pc := m.pc + 2 } :=
  rfl

/-- A load changes registers and moves the program counter. -/
theorem machine_execute_load (m : Machine κ) (x : Register) :
    (m.execute (.load x)).machine =
      { m with registers := (m.readRegisters x).registers, pc := m.pc + 2 } := by
  -- Unfolded first: whole machines are not compared, which would evaluate the registers.
  simp only [execute, readRegisters, advance, Outcome.quiet]

/-- After registers were stored, their cells hold the same. -/
theorem mirrors_store (m : Machine κ) (x : Register) :
    (m.execute (.store x)).machine.Mirrors x := by
  rw [machine_execute_store]
  exact fun _ hr => (m.get_store hr).symm

/-- After registers were loaded, they are what their cells hold. -/
theorem mirrors_load (m : Machine κ) (x : Register) :
    (m.execute (.load x)).machine.Mirrors x := by
  rw [machine_execute_load]
  exact fun _ hr => m.reg_readRegisters_of_le hr

/-- To load what the registers are already leaves them as they are. -/
theorem Mirrors.registers_load {m : Machine κ} {x : Register} (h : m.Mirrors x) :
    (m.execute (.load x)).machine.registers = m.registers := by
  rw [machine_execute_load]
  refine Vector.ext fun i hi => ?_
  have hreg : (m.readRegisters x).reg ⟨i, hi⟩ = m.reg ⟨i, hi⟩ := by
    by_cases hle : ⟨i, hi⟩ ≤ x
    · rw [m.reg_readRegisters_of_le hle]
      exact (h _ hle).symm
    · exact m.reg_readRegisters_of_lt (Fin.not_le.1 hle)
  exact hreg

/-- To store what the cells hold already leaves memory as it is. -/
theorem Mirrors.memory_store {m : Machine κ} {x : Register} (h : m.Mirrors x) :
    (m.execute (.store x)).machine.memory = m.memory := by
  rw [machine_execute_store]
  refine Vector.ext fun i hi => ?_
  have hget : (m.writeAtIndex (m.firstRegisters x)).memory.get ⟨i, hi⟩ = m.memory.get ⟨i, hi⟩ := by
    by_cases hcell : ∃ r ≤ x, ⟨i, hi⟩ = Memory.cell m.index r.val
    · obtain ⟨r, hr, ha⟩ := hcell
      rw [ha, m.get_store hr]
      exact h r hr
    · exact m.get_store_of_forall_ne fun r hr ha => hcell ⟨r, hr, ha⟩
  exact hget

/-- Each digit of a register is found in its cell. -/
theorem get_decimal (m : Machine κ) (x : Register) {k : Nat} (hk : k < 3) :
    (m.execute (.decimal x)).machine.memory.get (Memory.cell m.index k) =
      (decimalDigits (m.reg x)).get ⟨k, hk⟩ := by
  have hfits : (decimalDigits (m.reg x)).length ≤ memorySize := show 3 ≤ 4096 by decide
  exact m.get_writeAtIndex hfits hk

/-- Bytes move between the registers up to Vx and the cells behind I, wherever I stands. To store a
register puts it into its cell and changes no other cell. To load one takes it from its cell, and
changes no register behind Vx. The digits of Vx go to three cells, and no other cell is changed.
None of it moves I. To store and then load leaves the registers as they were, and to load and then
store leaves memory as it was. A cycle that executes such a word does no more. -/
theorem transfer_windows (m : Machine κ) (x : Register) :
    let stored := (m.execute (.store x)).machine
    let loaded := (m.execute (.load x)).machine
    let converted := (m.execute (.decimal x)).machine
    let cell (k : Nat) : Fin memorySize := Fin.ofNat memorySize (m.index.toNat + k)
    let digit (k : Nat) := (converted.memory.get (cell k)).toNat
    ((∀ r ≤ x, stored.memory.get (cell r.val) = m.reg r) ∧
        (∀ a, (∀ r ≤ x, a ≠ cell r.val) → stored.memory.get a = m.memory.get a) ∧
        stored = { m with memory := stored.memory, pc := m.pc + 2 }) ∧
      ((∀ r ≤ x, loaded.reg r = m.memory.get (cell r.val)) ∧
        (∀ r, x < r → loaded.reg r = m.reg r) ∧
        loaded = { m with registers := loaded.registers, pc := m.pc + 2 }) ∧
      (((digit 0 ≤ 9 ∧ digit 1 ≤ 9 ∧ digit 2 ≤ 9) ∧
          100 * digit 0 + 10 * digit 1 + digit 2 = (m.reg x).toNat) ∧
        (∀ a, a ≠ cell 0 → a ≠ cell 1 → a ≠ cell 2 → converted.memory.get a = m.memory.get a) ∧
        converted = { m with memory := converted.memory, pc := m.pc + 2 }) ∧
      (stored.execute (.load x)).machine.registers = m.registers ∧
      (loaded.execute (.store x)).machine.memory = m.memory ∧
      (Opcode.x (m.fetch m.pc) = x →
        (m.executes .store → m.cycle.machine = stored) ∧
          (m.executes .load → m.cycle.machine = loaded) ∧
          (m.executes .decimal → m.cycle.machine = converted)) := by
  intro stored loaded converted cell digit
  have hcell (k : Nat) : cell k = Memory.cell m.index k := (Memory.cell_eq_ofNat m.index k).symm
  have hstored : stored = _ := m.machine_execute_store x
  have hloaded : loaded = _ := m.machine_execute_load x
  refine ⟨⟨fun r hr => ?_, fun a ha => ?_, rfl⟩, ⟨fun r hr => ?_, fun r hr => ?_, ?_⟩,
    ⟨?_, fun a h0 h1 h2 => ?_, rfl⟩, ?_, ?_, ?_⟩
  · rw [hcell, hstored]
    exact m.get_store hr
  · rw [hstored]
    refine m.get_store_of_forall_ne fun r hr => ?_
    rw [← hcell]
    exact ha r hr
  · rw [hcell, hloaded]
    exact m.reg_readRegisters_of_le hr
  · rw [hloaded]
    exact m.reg_readRegisters_of_lt hr
  · rw [hloaded]
  · simp only [digit, converted, hcell]
    rw [get_decimal m x (by decide : 0 < 3), get_decimal m x (by decide : 1 < 3),
      get_decimal m x (by decide : 2 < 3)]
    exact decimalDigits_toNat (m.reg x)
  · refine m.get_writeAtIndex_of_forall_ne fun k hk => ?_
    have hk : k < 3 := hk
    rw [← hcell]
    match k with
    | 0 => exact h0
    | 1 => exact h1
    | 2 => exact h2
  · rw [(m.mirrors_store x).registers_load, machine_execute_store]
  · rw [(m.mirrors_load x).memory_store, machine_execute_load]
  · intro hx
    refine ⟨fun hexec => ?_, fun hexec => ?_, fun hexec => ?_⟩ <;>
      rw [cycle_of_executes hexec, Pattern.instruction, hx]

end Machine

end Chip8
