import Chip8.Machine.Cycle

/-!
# The patterns of the instruction set

A reference of the instruction set lists every instruction as four hexadecimal digits, with letters
where an operand stands: `FX33` is any word whose first digit is F and whose last two are 3. `Pattern`
is that list, one entry a line, and `Pattern.fits` says whether a word is written as an entry says.

The decoder follows the list. A word that fits a pattern is decoded to the instruction of the pattern
with the operands that stand in the word (`ofWord_of_fits`), and a word that fits none is outside the
instruction set (`ofWord_of_forall_not_fits`). What a machine does in a cycle can therefore be told by
the pattern of the word at the program counter, which is what `Machine.executes` asks for.
-/

namespace Chip8

/-- An entry of the list of instructions. -/
inductive Pattern where
  | clear | ret | jump | call | skipEqualsByte | skipDiffersByte | skipEquals | setByte | addByte
  | assign | or | and | xor | add | subtract | shiftRight | subtractFrom | shiftLeft | skipDiffers
  | setIndex | jumpOffset | random | draw | skipPressed | skipReleased | readDelay | awaitKey
  | setDelay | setSound | addIndex | glyph | decimal | store | load
  deriving DecidableEq

/-- The four hexadecimal digits of a word, the first of them the group. -/
def Opcode.digits (word : UInt16) : List Nat :=
  [(group word).val, (x word).val, (y word).val, (n word).val]

namespace Pattern

/-- The four digits of a pattern; an operand is left open. -/
def digits : Pattern → List (Option Nat)
  | clear => [some 0x0, some 0x0, some 0xE, some 0x0] -- 00E0
  | ret => [some 0x0, some 0x0, some 0xE, some 0xE] -- 00EE
  | jump => [some 0x1, none, none, none] -- 1NNN
  | call => [some 0x2, none, none, none] -- 2NNN
  | skipEqualsByte => [some 0x3, none, none, none] -- 3XKK
  | skipDiffersByte => [some 0x4, none, none, none] -- 4XKK
  | skipEquals => [some 0x5, none, none, some 0x0] -- 5XY0
  | setByte => [some 0x6, none, none, none] -- 6XKK
  | addByte => [some 0x7, none, none, none] -- 7XKK
  | assign => [some 0x8, none, none, some 0x0] -- 8XY0
  | or => [some 0x8, none, none, some 0x1] -- 8XY1
  | and => [some 0x8, none, none, some 0x2] -- 8XY2
  | xor => [some 0x8, none, none, some 0x3] -- 8XY3
  | add => [some 0x8, none, none, some 0x4] -- 8XY4
  | subtract => [some 0x8, none, none, some 0x5] -- 8XY5
  | shiftRight => [some 0x8, none, none, some 0x6] -- 8XY6
  | subtractFrom => [some 0x8, none, none, some 0x7] -- 8XY7
  | shiftLeft => [some 0x8, none, none, some 0xE] -- 8XYE
  | skipDiffers => [some 0x9, none, none, some 0x0] -- 9XY0
  | setIndex => [some 0xA, none, none, none] -- ANNN
  | jumpOffset => [some 0xB, none, none, none] -- BNNN
  | random => [some 0xC, none, none, none] -- CXKK
  | draw => [some 0xD, none, none, none] -- DXYN
  | skipPressed => [some 0xE, none, some 0x9, some 0xE] -- EX9E
  | skipReleased => [some 0xE, none, some 0xA, some 0x1] -- EXA1
  | readDelay => [some 0xF, none, some 0x0, some 0x7] -- FX07
  | awaitKey => [some 0xF, none, some 0x0, some 0xA] -- FX0A
  | setDelay => [some 0xF, none, some 0x1, some 0x5] -- FX15
  | setSound => [some 0xF, none, some 0x1, some 0x8] -- FX18
  | addIndex => [some 0xF, none, some 0x1, some 0xE] -- FX1E
  | glyph => [some 0xF, none, some 0x2, some 0x9] -- FX29
  | decimal => [some 0xF, none, some 0x3, some 0x3] -- FX33
  | store => [some 0xF, none, some 0x5, some 0x5] -- FX55
  | load => [some 0xF, none, some 0x6, some 0x5] -- FX65

/-- Whether the digits of a word are those of the pattern, wherever it leaves none open. -/
def fits (p : Pattern) (word : UInt16) : Bool :=
  (p.digits.zip (Opcode.digits word)).all fun (expected, digit) => expected.all (digit == ·)

/-- The instruction of a pattern, with the operands that stand in a word. -/
def instruction (p : Pattern) (word : UInt16) : Instruction :=
  let x := Opcode.x word
  let y := Opcode.y word
  let byte := Opcode.byte word
  let address := Opcode.address word
  match p with
  | clear => .clear
  | ret => .ret
  | jump => .jump address
  | call => .call address
  | skipEqualsByte => .skip (.equalsByte x byte)
  | skipDiffersByte => .skip (.differsByte x byte)
  | skipEquals => .skip (.equals x y)
  | setByte => .setByte x byte
  | addByte => .addByte x byte
  | assign => .combine .assign x y
  | or => .combine .or x y
  | and => .combine .and x y
  | xor => .combine .xor x y
  | add => .combine .add x y
  | subtract => .combine .subtract x y
  | shiftRight => .shift .right x
  | subtractFrom => .combine .subtractFrom x y
  | shiftLeft => .shift .left x
  | skipDiffers => .skip (.differs x y)
  | setIndex => .setIndex address
  | jumpOffset => .jumpOffset address
  | random => .random x byte
  | draw => .draw x y (Opcode.n word)
  | skipPressed => .skip (.pressed x)
  | skipReleased => .skip (.released x)
  | readDelay => .readDelay x
  | awaitKey => .awaitKey x
  | setDelay => .setDelay x
  | setSound => .setSound x
  | addIndex => .addIndex x
  | glyph => .glyph x
  | decimal => .decimal x
  | store => .store x
  | load => .load x

end Pattern

namespace Opcode

/-- The low byte of a word is its last two digits. -/
theorem toNat_byte (word : UInt16) : (byte word).toNat = (y word).val * 16 + (n word).val := by
  simp only [byte, y, n, Fin.val_ofNat, UInt16.toNat_toUInt8]
  omega

/-- The address of a word is its last three digits. -/
theorem val_address (word : UInt16) :
    (address word).val = (x word).val * 256 + (y word).val * 16 + (n word).val := by
  simp only [address, x, y, n, Fin.val_ofNat]
  omega

end Opcode

namespace Instruction

open Opcode

/-- A word that fits a pattern is decoded to the instruction of the pattern. -/
theorem ofWord_of_fits {p : Pattern} {word : UInt16} (h : p.fits word) :
    ofWord word = p.instruction word := by
  have hbyte := toNat_byte word
  have haddress := val_address word
  cases p <;>
    simp only [Pattern.fits, Pattern.digits, digits, List.zip_cons_cons, List.zip_nil_right,
      List.all_cons, List.all_nil, Option.all_some, Option.all_none, Bool.and_true, Bool.true_and,
      Bool.and_eq_true, beq_iff_eq] at h
  -- The digits are known now. Where the decoder looks at more than one of them together, its number
  -- is formed first.
  case clear | ret =>
    simp only [h, Nat.reduceMul, Nat.reduceAdd] at haddress
    simp only [ofWord, h, haddress, Pattern.instruction]
  case skipEquals | skipDiffers =>
    have hn : n word = 0 := Fin.ext h.2
    simp only [ofWord, h, hn, if_true, Pattern.instruction]
  case skipPressed | skipReleased | readDelay | awaitKey | setDelay | setSound | addIndex | glyph |
      decimal | store | load =>
    simp only [h, Nat.reduceMul, Nat.reduceAdd] at hbyte
    simp only [ofWord, system, h, hbyte, Pattern.instruction]
  all_goals simp only [ofWord, arithmetic, h, Pattern.instruction]

/-- A word of group 8 that fits no pattern is outside the instruction set. -/
theorem arithmetic_of_forall_not_fits {word : UInt16} (hgroup : (group word).val = 8)
    (h : ∀ p : Pattern, ¬ p.fits word) : arithmetic word = .unsupported word := by
  -- The last digit alone decides between the nine operations of the group.
  have hlast (p : Pattern) (k : Nat) (hp : p.digits = [some 8, none, none, some k]) :
      (n word).val ≠ k := by
    intro hk
    exact h p (by simp [Pattern.fits, hp, digits, hgroup, hk])
  unfold arithmetic
  dsimp only
  split
  · next hn => exact absurd hn (hlast .assign 0 rfl)
  · next hn => exact absurd hn (hlast .or 1 rfl)
  · next hn => exact absurd hn (hlast .and 2 rfl)
  · next hn => exact absurd hn (hlast .xor 3 rfl)
  · next hn => exact absurd hn (hlast .add 4 rfl)
  · next hn => exact absurd hn (hlast .subtract 5 rfl)
  · next hn => exact absurd hn (hlast .shiftRight 6 rfl)
  · next hn => exact absurd hn (hlast .subtractFrom 7 rfl)
  · next hn => exact absurd hn (hlast .shiftLeft 14 rfl)
  · rfl

/-- A word of a group whose patterns fix the last two digits does not have the digits of one of them
as its low byte. -/
theorem byte_ne_of_not_fits {word : UInt16} {p : Pattern} (h : ¬ p.fits word) {g j k : Nat}
    (hp : p.digits = [some g, none, some j, some k]) (hgroup : (group word).val = g) (hk : k < 16) :
    (byte word).toNat ≠ j * 16 + k := by
  intro hbyte
  rw [toNat_byte] at hbyte
  have hn := (n word).isLt
  have hy : (y word).val = j := by omega
  have hlast : (n word).val = k := by omega
  exact h (by simp [Pattern.fits, hp, digits, hgroup, hy, hlast])

/-- A word of group F that fits no pattern is outside the instruction set. -/
theorem system_of_forall_not_fits {word : UInt16} (hgroup : (group word).val = 15)
    (h : ∀ p : Pattern, ¬ p.fits word) : system word = .unsupported word := by
  unfold system
  dsimp only
  split
  · next hb => exact absurd hb (byte_ne_of_not_fits (h .readDelay) rfl hgroup (by decide))
  · next hb => exact absurd hb (byte_ne_of_not_fits (h .awaitKey) rfl hgroup (by decide))
  · next hb => exact absurd hb (byte_ne_of_not_fits (h .setDelay) rfl hgroup (by decide))
  · next hb => exact absurd hb (byte_ne_of_not_fits (h .setSound) rfl hgroup (by decide))
  · next hb => exact absurd hb (byte_ne_of_not_fits (h .addIndex) rfl hgroup (by decide))
  · next hb => exact absurd hb (byte_ne_of_not_fits (h .glyph) rfl hgroup (by decide))
  · next hb => exact absurd hb (byte_ne_of_not_fits (h .decimal) rfl hgroup (by decide))
  · next hb => exact absurd hb (byte_ne_of_not_fits (h .store) rfl hgroup (by decide))
  · next hb => exact absurd hb (byte_ne_of_not_fits (h .load) rfl hgroup (by decide))
  · rfl

/-- A word that fits no pattern is outside the instruction set. -/
theorem ofWord_of_forall_not_fits {word : UInt16} (h : ∀ p : Pattern, ¬ p.fits word) :
    ofWord word = .unsupported word := by
  -- Where only the group is fixed, every word of the group fits.
  have hfirst (p : Pattern) (g : Nat) (hp : p.digits = [some g, none, none, none]) :
      (group word).val ≠ g := by
    intro hg
    exact h p (by simp [Pattern.fits, hp, digits, hg])
  -- Both words of group 0 are written `00E` and a last digit.
  have hzero (p : Pattern) (k : Nat) (hp : p.digits = [some 0, some 0, some 14, some k])
      (hk : k < 16) (hgroup : (group word).val = 0) : (address word).val ≠ 14 * 16 + k := by
    intro ha
    rw [val_address] at ha
    have hylt := (y word).isLt
    have hnlt := (n word).isLt
    have hx : (x word).val = 0 := by omega
    have hy : (y word).val = 14 := by omega
    have hn : (n word).val = k := by omega
    exact h p (by simp [Pattern.fits, hp, digits, hgroup, hx, hy, hn])
  unfold ofWord
  dsimp only
  split
  · next hgroup =>
    split
    · next ha => exact absurd ha (hzero .clear 0 rfl (by decide) hgroup)
    · next ha => exact absurd ha (hzero .ret 14 rfl (by decide) hgroup)
    · rfl
  · next hgroup => exact absurd hgroup (hfirst .jump 1 rfl)
  · next hgroup => exact absurd hgroup (hfirst .call 2 rfl)
  · next hgroup => exact absurd hgroup (hfirst .skipEqualsByte 3 rfl)
  · next hgroup => exact absurd hgroup (hfirst .skipDiffersByte 4 rfl)
  · next hgroup =>
    refine if_neg fun hn => h .skipEquals ?_
    simp [Pattern.fits, Pattern.digits, digits, hgroup, hn]
  · next hgroup => exact absurd hgroup (hfirst .setByte 6 rfl)
  · next hgroup => exact absurd hgroup (hfirst .addByte 7 rfl)
  · next hgroup => exact arithmetic_of_forall_not_fits hgroup h
  · next hgroup =>
    refine if_neg fun hn => h .skipDiffers ?_
    simp [Pattern.fits, Pattern.digits, digits, hgroup, hn]
  · next hgroup => exact absurd hgroup (hfirst .setIndex 10 rfl)
  · next hgroup => exact absurd hgroup (hfirst .jumpOffset 11 rfl)
  · next hgroup => exact absurd hgroup (hfirst .random 12 rfl)
  · next hgroup => exact absurd hgroup (hfirst .draw 13 rfl)
  · next hgroup =>
    split
    · next hb => exact absurd hb (byte_ne_of_not_fits (h .skipPressed) rfl hgroup (by decide))
    · next hb => exact absurd hb (byte_ne_of_not_fits (h .skipReleased) rfl hgroup (by decide))
    · rfl
  · -- Only one group is left.
    have hgroup : (group word).val = 15 := by
      have hlt := (group word).isLt
      simp only [imp_false] at *
      omega
    exact system_of_forall_not_fits hgroup h

/-- Every word either fits a pattern, or is outside the instruction set. -/
theorem ofWord_cases (word : UInt16) :
    (∃ p : Pattern, p.fits word ∧ ofWord word = p.instruction word) ∨
      ((∀ p : Pattern, ¬ p.fits word) ∧ ofWord word = .unsupported word) := by
  by_cases hsome : ∃ p : Pattern, p.fits word
  · obtain ⟨p, hp⟩ := hsome
    exact .inl ⟨p, hp, ofWord_of_fits hp⟩
  · have hnone : ∀ p : Pattern, ¬ p.fits word := not_exists.1 hsome
    exact .inr ⟨hnone, ofWord_of_forall_not_fits hnone⟩

end Instruction

namespace Machine

variable {κ : Type}

/-- Whether the next cycle executes a word of the pattern. A machine that is held executes none. -/
def executes (m : Machine κ) (p : Pattern) : Bool := !m.paused && p.fits (m.fetch m.pc)

/-- A word is executed where it fits and the machine is not held. -/
theorem executes_iff {m : Machine κ} {p : Pattern} :
    m.executes p ↔ m.paused = false ∧ p.fits (m.fetch m.pc) := by
  rw [executes, Bool.and_eq_true, Bool.not_eq_true']

variable [Keypad κ]

/-- A machine that is not held carries out the instruction at its program counter. -/
theorem machine_cycle {m : Machine κ} (h : m.paused = false) :
    m.cycle.machine = (m.execute (.ofWord (m.fetch m.pc))).machine := by
  rw [cycle, if_neg (by simp [h])]

/-- A cycle that executes a word of a pattern carries out the instruction of the pattern. -/
theorem cycle_of_executes {m : Machine κ} {p : Pattern} (h : m.executes p) :
    m.cycle.machine = (m.execute (p.instruction (m.fetch m.pc))).machine := by
  obtain ⟨hrunning, hfits⟩ := executes_iff.1 h
  rw [machine_cycle hrunning, Instruction.ofWord_of_fits hfits]

/-- A word outside the instruction set is passed over. -/
theorem cycle_of_forall_not_fits {m : Machine κ} (hrunning : m.paused = false)
    (h : ∀ p : Pattern, ¬ p.fits (m.fetch m.pc)) : m.cycle.machine = m.advance := by
  rw [machine_cycle hrunning, Instruction.ofWord_of_forall_not_fits h]
  rfl

/-- A cycle that executes no word of the instruction set moves the program counter at the most. -/
theorem cycle_of_forall_not_executes {m : Machine κ} (h : ∀ p, ¬ m.executes p) :
    m.cycle.machine = m ∨ m.cycle.machine = m.advance := by
  by_cases hheld : m.paused
  · left
    rw [cycle, if_pos hheld]
    rfl
  · right
    have hrunning : m.paused = false := by simpa using hheld
    have hnone : ∀ p : Pattern, ¬ p.fits (m.fetch m.pc) := fun p hp =>
      h p (executes_iff.2 ⟨hrunning, hp⟩)
    exact cycle_of_forall_not_fits hrunning hnone

end Machine

end Chip8
