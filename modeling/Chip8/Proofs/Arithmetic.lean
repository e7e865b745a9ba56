import Mathlib.Data.Nat.Bitwise
import Chip8.Proofs.Footprint

/-!
# Arithmetic is exact

An operation on bytes loses nothing where its flag is taken into account: the byte that is left in
Vx and the flag in VF together give the sum, the difference or the shifted number that the registers
stood for. The first part of the module says so of bytes, one equation between natural numbers for
each way to compute a flag.

In a machine the flag is written after the result, and a register can be named twice or be VF
itself. `LeavesFlag` and `LeavesResult` say what an instruction leaves behind in all of these cases,
and `arithmetic_exact` joins them with the equations.
-/

namespace Chip8

/-! ## Bytes and flags as numbers -/

/-- A number below twice a size is what is left of it at that size and the carry. -/
theorem mod_add_carry {size n : Nat} (h : n < 2 * size) :
    n % size + size * (decide (size ≤ n)).toNat = n := by
  by_cases hcarry : size ≤ n
  · have hrest : n % size = n - size := by
      rw [Nat.mod_eq_sub_mod hcarry]
      exact Nat.mod_eq_of_lt (by omega)
    rw [hrest, decide_eq_true hcarry, Bool.toNat_true, Nat.mul_one]
    exact Nat.sub_add_cancel hcarry
  · rw [Nat.mod_eq_of_lt (Nat.lt_of_not_le hcarry), decide_eq_false hcarry]
    rfl

/-- A sum of bytes is what is left of it and the carry. -/
theorem add_toNat_carry (a b : UInt8) :
    (a + b).toNat + 256 * (decide (256 ≤ a.toNat + b.toNat)).toNat = a.toNat + b.toNat := by
  have ha := a.toNat_lt
  have hb := b.toNat_lt
  rw [UInt8.toNat_add]
  exact mod_add_carry (by omega)

/-- A sum with an index is what is left of it and the carry. -/
theorem index_add_toNat_carry (index : UInt16) (v : UInt8) :
    (index + v.toUInt16).toNat + 65536 * (decide (65536 ≤ index.toNat + v.toNat)).toNat =
      index.toNat + v.toNat := by
  have hindex := index.toNat_lt
  have hv := v.toNat_lt
  rw [UInt16.toNat_add, UInt8.toNat_toUInt16]
  exact mod_add_carry (by omega)

/-- A difference of bytes and the byte that was taken away make up what it was taken from, and the
number that was borrowed if the flag is not set. -/
theorem sub_toNat_borrow (a b : UInt8) :
    (a - b).toNat + b.toNat = a.toNat + 256 * (1 - (decide (b ≤ a)).toNat) := by
  have ha := a.toNat_lt
  have hb := b.toNat_lt
  rw [UInt8.toNat_sub]
  by_cases hle : b ≤ a
  · have hle' := UInt8.le_iff_toNat_le.1 hle
    rw [decide_eq_true hle, Bool.toNat_true]
    omega
  · have hlt : a.toNat < b.toNat := Nat.lt_of_not_le fun h => hle (UInt8.le_iff_toNat_le.2 h)
    rw [decide_eq_false hle, Bool.toNat_false]
    omega

/-- A mask of one bit tells whether the bit is set. -/
theorem mask_toNat_bit (v mask : UInt8) (i : Nat) (hmask : mask.toNat = 2 ^ i) :
    (v &&& mask != 0).toNat = v.toNat / 2 ^ i % 2 := by
  have hand : (v &&& mask).toNat = (v.toNat.testBit i).toNat * 2 ^ i := by
    rw [UInt8.toNat_and, hmask, Nat.and_two_pow]
  have hzero : v &&& mask = 0 ↔ v.toNat.testBit i = false := by
    rw [← UInt8.toNat_inj, hand]
    cases v.toNat.testBit i <;> simp
  rw [Nat.testBit_eq_decide_div_mod_eq, decide_eq_false_iff_not] at hzero
  rcases Nat.mod_two_eq_zero_or_one (v.toNat / 2 ^ i) with hbit | hbit
  · rw [bne_eq_false_iff_eq.2 (hzero.2 (by omega)), hbit]
    rfl
  · rw [bne_iff_ne.2 (mt hzero.1 (by omega)), hbit]
    rfl

/-- A byte that was shifted to the right is half of what it was, and the bit that was shifted out is
the remainder. -/
theorem shiftRight_toNat_bit (v : UInt8) :
    2 * (v >>> 1).toNat + (v &&& 0x01 != 0).toNat = v.toNat := by
  have hhalf : (v >>> 1).toNat = v.toNat / 2 := Nat.shiftRight_eq_div_pow _ _
  rw [hhalf, mask_toNat_bit v 0x01 0 rfl]
  omega

/-- A byte that was shifted to the left is twice what it was, without the bit that was shifted out.
-/
theorem shiftLeft_toNat_bit (v : UInt8) :
    (v <<< 1).toNat + 256 * (v &&& 0x80 != 0).toNat = 2 * v.toNat := by
  have hlt := v.toNat_lt
  have htwice : (v <<< 1).toNat = 2 * v.toNat % 256 := by
    show v.toNat <<< 1 % 2 ^ 8 = _
    rw [Nat.shiftLeft_eq, Nat.mul_comm]
  rw [htwice, mask_toNat_bit v 0x80 7 rfl]
  omega

/-! ## Results and flags in a machine -/

namespace Machine

variable {κ : Type}

/-- An instruction left a result in Vx, and nothing else but the program counter changed. -/
structure LeavesResult (m m' : Machine κ) (x : Register) (result : UInt8) : Prop where
  /-- Vx is the result. -/
  result : m'.reg x = result
  /-- The other registers are as they were. -/
  others : ∀ z, z ≠ x → m'.reg z = m.reg z
  /-- The program counter moved past the instruction, and the rest is as it was. -/
  rest : m' = { m with registers := m'.registers, pc := m.pc + 2 }

/-- An instruction left a result in Vx and a flag in VF, and nothing else but the program counter
changed. If Vx is VF, then the flag is what is left. -/
structure LeavesFlag (m m' : Machine κ) (x : Register) (result : UInt8) (flag : Bool) : Prop where
  /-- VF is the flag, as 1 or 0. -/
  flag : (m'.reg 15).toNat = flag.toNat
  /-- Vx is the result. -/
  result : x ≠ 15 → m'.reg x = result
  /-- The other registers are as they were. -/
  others : ∀ z, z ≠ x → z ≠ 15 → m'.reg z = m.reg z
  /-- The program counter moved past the instruction, and the rest is as it was. -/
  rest : m' = { m with registers := m'.registers, pc := m.pc + 2 }

/-- VF is the flag that was set, as a number. -/
theorem toNat_reg_setFlag (m : Machine κ) (flag : Bool) :
    ((m.setFlag flag).reg 15).toNat = flag.toNat := by
  rw [setFlag, reg_setReg_self]
  cases flag <;> rfl

/-- Setting a register leaves a result. -/
theorem leavesResult_setReg (m : Machine κ) (x : Register) (result : UInt8) :
    LeavesResult m (m.setReg x result).advance x result where
  result := m.reg_setReg_self x result
  others := fun _ hz => m.reg_setReg_of_ne result hz.symm
  rest := rfl

/-- Setting a register and then the flag leaves both, unless they are the same. -/
theorem leavesFlag_setFlag (m : Machine κ) (x : Register) (result : UInt8) (flag : Bool) :
    LeavesFlag m ((m.setReg x result).setFlag flag).advance x result flag where
  flag := toNat_reg_setFlag _ flag
  result := fun hx => by
    show ((m.setReg x result).setFlag flag).reg x = result
    rw [setFlag, reg_setReg_of_ne _ _ hx.symm, reg_setReg_self]
  others := fun z hz hflag => by
    show ((m.setReg x result).setFlag flag).reg z = m.reg z
    rw [setFlag, reg_setReg_of_ne _ _ hflag.symm, reg_setReg_of_ne _ _ hz.symm]
  rest := rfl

variable [Keypad κ]

/-- What the arithmetic of an instruction comes to, whichever registers its word names, the same one
twice and VF among them. An operation with a flag leaves the result and the flag that solve an
equation between natural numbers. The others leave their result and write no flag. A sum with I
solves an equation of the same kind, with the value that Vx had before the flag was written. A cycle
that executes such a word does no more. -/
theorem arithmetic_exact (m : Machine κ) (word : UInt16) :
    let x := Opcode.x word
    let y := Opcode.y word
    let vx := (m.reg x).toNat
    let vy := (m.reg y).toNat
    let after (p : Pattern) := (m.execute (p.instruction word)).machine
    ((∃ r f, LeavesFlag m (after .add) x r f ∧ r.toNat + 256 * f.toNat = vx + vy) ∧
        (∃ r f, LeavesFlag m (after .subtract) x r f ∧
          r.toNat + vy = vx + 256 * (1 - f.toNat)) ∧
        (∃ r f, LeavesFlag m (after .subtractFrom) x r f ∧
          r.toNat + vx = vy + 256 * (1 - f.toNat)) ∧
        (∃ r f, LeavesFlag m (after .shiftRight) x r f ∧ 2 * r.toNat + f.toNat = vx) ∧
        ∃ r f, LeavesFlag m (after .shiftLeft) x r f ∧ r.toNat + 256 * f.toNat = 2 * vx) ∧
      (LeavesResult m (after .assign) x (m.reg y) ∧
        LeavesResult m (after .or) x (m.reg x ||| m.reg y) ∧
        LeavesResult m (after .and) x (m.reg x &&& m.reg y) ∧
        LeavesResult m (after .xor) x (m.reg x ^^^ m.reg y) ∧
        ∃ r, LeavesResult m (after .addByte) x r ∧
          r.toNat = (vx + (Opcode.byte word).toNat) % 256) ∧
      ((after .addIndex).index.toNat + 65536 * ((after .addIndex).reg 15).toNat =
            m.index.toNat + vx ∧
        (∀ z, z ≠ 15 → (after .addIndex).reg z = m.reg z) ∧
        after .addIndex =
          { m with
            index := (after .addIndex).index
            registers := (after .addIndex).registers
            pc := m.pc + 2 }) ∧
      ∀ p, m.executes p → m.fetch m.pc = word → m.cycle.machine = after p := by
  intro x y vx vy after
  refine ⟨⟨⟨_, _, m.leavesFlag_setFlag x _ _, add_toNat_carry _ _⟩,
      ⟨_, _, m.leavesFlag_setFlag x _ _, sub_toNat_borrow _ _⟩,
      ⟨_, _, m.leavesFlag_setFlag x _ _, sub_toNat_borrow _ _⟩,
      ⟨_, _, m.leavesFlag_setFlag x _ _, shiftRight_toNat_bit _⟩,
      ⟨_, _, m.leavesFlag_setFlag x _ _, shiftLeft_toNat_bit _⟩⟩,
    ⟨m.leavesResult_setReg x _, m.leavesResult_setReg x _, m.leavesResult_setReg x _,
      m.leavesResult_setReg x _, _, m.leavesResult_setReg x _, UInt8.toNat_add _ _⟩,
    ⟨?_, fun z hz => ?_, rfl⟩, fun p hp hword => ?_⟩
  · show (m.index + (m.reg x).toUInt16).toNat + 65536 * (reg (setFlag _ _) 15).toNat =
      m.index.toNat + vx
    rw [toNat_reg_setFlag]
    exact index_add_toNat_carry _ _
  · exact reg_setReg_of_ne _ _ hz.symm
  · rw [cycle_of_executes hp, hword]

end Machine

end Chip8
