import Chip8.Proofs.Checked
import Chip8.Proofs.Sprite

/-!
# The checks never fail

`Checked.cycle` ends with the result of `Machine.cycle` on every machine whose stack pointer is
within the stack (`Checked.cycle_eq`), whatever its program counter, index and registers are. The
bounds come from different places: register numbers are nibbles of a word, places in memory are
remainders, pixels are remainders of a column and a row, the fetch looks at the address first, and
calls and returns look at the stack pointer. Only the last of them needs a fact about the machine.

The proof goes bottom up. `Instruction.hasOperands_ofWord` says that a decoded instruction and the
numbers that shifts and masks leave have the same operands. The loops that draw, store and load are
the folds of the machine (`draw_eq`, `storeRegisters_eq`, `loadRegisters_eq`), and every instruction
is then a short chain of accesses in range (`execute_eq`).
-/

namespace Chip8

/-! ## Operands -/

/-- The operands of the condition are the numbers. -/
def Condition.HasOperands (o : Operands) : Condition → Prop
  | .equalsByte x byte | .differsByte x byte => o.x.toNat = x.val ∧ o.byte = byte
  | .equals x y | .differs x y => o.x.toNat = x.val ∧ o.y.toNat = y.val
  | .pressed x | .released x => o.x.toNat = x.val

namespace Instruction

/-- The operands of the instruction are the numbers. -/
def HasOperands (o : Operands) : Instruction → Prop
  | .clear | .ret | .unsupported _ => True
  | .jump target | .call target | .setIndex target | .jumpOffset target =>
    o.address = UInt16.ofNat target.val
  | .skip condition => condition.HasOperands o
  | .setByte x byte | .addByte x byte | .random x byte => o.x.toNat = x.val ∧ o.byte = byte
  | .combine _ x y => o.x.toNat = x.val ∧ o.y.toNat = y.val
  | .draw x y height => o.x.toNat = x.val ∧ o.y.toNat = y.val ∧ o.n.toNat = height.val
  | .shift _ x | .readDelay x | .awaitKey x | .setDelay x | .setSound x | .addIndex x | .glyph x
  | .decimal x | .store x | .load x => o.x.toNat = x.val

end Instruction

namespace Operands

/-- The mask of a nibble leaves a remainder. -/
theorem toNat_nibble (word : UInt16) : (word &&& 0xF).toUInt8.toNat = word.toNat % 16 := by
  -- A mask of ones is a remainder, and eight bits are enough for this one.
  have hand : word.toNat &&& 15 = word.toNat % 16 := Nat.and_two_pow_sub_one_eq_mod _ 4
  rw [UInt16.toNat_toUInt8, UInt16.toNat_and]
  show (word.toNat &&& 15) % 2 ^ 8 = _
  omega

theorem x_ofWord (word : UInt16) : (ofWord word).x.toNat = (Opcode.x word).val := by
  show ((word >>> 8) &&& 0xF).toUInt8.toNat = word.toNat / 256 % 16
  rw [toNat_nibble, UInt16.toNat_shiftRight, Nat.shiftRight_eq_div_pow]
  rfl

theorem y_ofWord (word : UInt16) : (ofWord word).y.toNat = (Opcode.y word).val := by
  show ((word >>> 4) &&& 0xF).toUInt8.toNat = word.toNat / 16 % 16
  rw [toNat_nibble, UInt16.toNat_shiftRight, Nat.shiftRight_eq_div_pow]
  rfl

theorem n_ofWord (word : UInt16) : (ofWord word).n.toNat = (Opcode.n word).val :=
  toNat_nibble word

theorem byte_ofWord (word : UInt16) : (ofWord word).byte = Opcode.byte word := by
  have hand : word.toNat &&& 255 = word.toNat % 256 := Nat.and_two_pow_sub_one_eq_mod _ 8
  rw [← UInt8.toNat_inj]
  show (word &&& 0xFF).toUInt8.toNat = word.toUInt8.toNat
  rw [UInt16.toNat_toUInt8, UInt16.toNat_and, UInt16.toNat_toUInt8]
  show (word.toNat &&& 255) % 2 ^ 8 = _
  omega

theorem address_ofWord (word : UInt16) :
    (ofWord word).address = UInt16.ofNat (Opcode.address word).val := by
  have hand : word.toNat &&& 4095 = word.toNat % 4096 := Nat.and_two_pow_sub_one_eq_mod _ 12
  rw [← UInt16.toNat_inj]
  show (word &&& 0xFFF).toNat = word.toNat % 4096 % 2 ^ 16
  rw [UInt16.toNat_and]
  show word.toNat &&& 4095 = _
  omega

end Operands

namespace Instruction

open Operands

/-- The operations of group 8 have the operands of their word. -/
theorem hasOperands_arithmetic (word : UInt16) :
    (arithmetic word).HasOperands (Operands.ofWord word) := by
  have hx := x_ofWord word
  have hxy := And.intro hx (y_ofWord word)
  unfold arithmetic
  dsimp only
  split
  -- The six operations before the first shift, the subtraction between the shifts, and the rest.
  iterate 6 exact hxy
  · exact hx
  · exact hxy
  · exact hx
  · trivial

/-- The operations of group F have the operands of their word. -/
theorem hasOperands_system (word : UInt16) :
    (system word).HasOperands (Operands.ofWord word) := by
  have hx := x_ofWord word
  unfold system
  dsimp only
  split
  -- Nine operations on one register, and the rest.
  iterate 9 exact hx
  trivial

/-- A decoded instruction has the operands of its word. -/
theorem hasOperands_ofWord (word : UInt16) :
    (Instruction.ofWord word).HasOperands (Operands.ofWord word) := by
  have hx := x_ofWord word
  have hxb := And.intro hx (byte_ofWord word)
  have hxy := And.intro hx (y_ofWord word)
  have ha := address_ofWord word
  -- The cases follow the groups; a group with holes has a case for the words that fall into them.
  unfold Instruction.ofWord
  dsimp only
  split
  · split <;> trivial
  · exact ha
  · exact ha
  · exact hxb
  · exact hxb
  · split
    · exact hxy
    · trivial
  · exact hxb
  · exact hxb
  · exact hasOperands_arithmetic word
  · split
    · exact hxy
    · trivial
  · exact ha
  · exact ha
  · exact hxb
  · exact ⟨hx, y_ofWord word, n_ofWord word⟩
  · split
    · exact hx
    · exact hx
    · trivial
  · exact hasOperands_system word

end Instruction

namespace Checked

variable {κ : Type}

/-! ## Memory -/

/-- A number of at most 17 bits is a possible index. -/
theorem index_eq {n : Nat} (h : n < 2 ^ 17) : within indexBits n = .ok n :=
  within_eq (h.trans (by decide))

/-- A remainder is a place in memory, and its entry is the cell. -/
theorem entry_place (memory : Memory) (index : UInt16) (offset : Nat) :
    entry memory (place index offset) = .ok (memory.get (Memory.cell index offset)) :=
  entry_eq memory (Nat.mod_lt _ (by decide))

/-- The cell at a remainder can be changed. -/
theorem update_place (memory : Memory) (index : UInt16) (offset : Nat) (byte : UInt8) :
    update memory (place index offset) byte = .ok (Memory.write memory index offset [byte]) :=
  update_eq memory (Nat.mod_lt _ (by decide)) byte

/-- Writing bytes never leaves memory. -/
theorem write_eq (memory : Memory) (index : UInt16) (offset : Nat) (bytes : List UInt8) :
    write memory index offset bytes = .ok (Memory.write memory index offset bytes) := by
  induction bytes generalizing memory offset with
  | nil => rfl
  | cons byte bytes ih =>
    rw [write, update_place, ok_bind, ih]
    rfl

/-- The fetch looks at its address before it reads. -/
theorem fetch_eq (m : Machine κ) (address : UInt16) : fetch m address = .ok (m.fetch address) := by
  have haddress := address.toNat_lt
  rw [fetch, index_eq (by omega), ok_bind, State.fetch, Memory.fetch]
  by_cases h : address.toNat + 1 < memorySize
  · rw [if_neg (by omega), dif_pos h, entry_eq _ (by omega), ok_bind, entry_eq _ h]
    rfl
  · rw [if_pos (by omega), dif_neg h]
    rfl

/-! ## Registers -/

/-- A register that is named by a nibble can be read. -/
theorem reg_eq (m : Machine κ) {x : UInt8} {r : Register} (h : x.toNat = r.val) :
    reg m x = .ok (m.reg r) := by
  rw [reg, entry_eq _ (h ▸ r.isLt)]
  simp only [h]
  rfl

/-- A register that is named by a nibble can be changed. -/
theorem setReg_eq (m : Machine κ) {x : UInt8} {r : Register} (h : x.toNat = r.val) (value : UInt8) :
    setReg m x value = .ok (m.setReg r value) := by
  rw [setReg, update_eq _ (h ▸ r.isLt)]
  simp only [h]
  rfl

/-- VF is one of the registers. -/
theorem setFlag_eq (m : Machine κ) (flag : Bool) : setFlag m flag = .ok (m.setFlag flag) :=
  setReg_eq m (r := 15) rfl _

/-- A loop whose steps all end is a fold. -/
theorem foldlM_eq {α β : Type} {f : β → α → Checked β} {g : β → α → β} (l : List α) (b : β)
    (h : ∀ a ∈ l, ∀ b, f b a = .ok (g b a)) : l.foldlM f b = .ok (l.foldl g b) := by
  induction l generalizing b with
  | nil => rfl
  | cons a l ih =>
    rw [List.foldlM_cons, h a (by simp) b, ok_bind, ih _ fun a' ha' => h a' (by simp [ha'])]
    rfl

/-- Storing registers from some number on writes their values one after another. -/
theorem storeFrom_eq (m : Machine κ) (count r : Nat) (hr : r + count ≤ 16) (memory : Memory) :
    (List.range' r count).foldlM
        (fun memory r => do
          let value ← entry m.registers r
          update memory (place m.index r) value)
        memory =
      .ok (Memory.write memory m.index r ((m.registers.toList.drop r).take count)) := by
  -- The induction takes the first register off, and memory is what the step before left.
  induction count generalizing r memory with
  | zero => rfl
  | succ count ih =>
    have hlt : r < m.registers.toList.length := by simp; omega
    rw [List.range'_succ, List.foldlM_cons, entry_eq _ (by omega), ok_bind, update_place, ok_bind,
      ih (r + 1) (by omega), List.drop_eq_getElem_cons hlt, List.take_succ_cons]
    rfl

/-- The registers to be stored are registers, and their places are in memory. -/
theorem storeRegisters_eq (m : Machine κ) {x : UInt8} {r : Register} (h : x.toNat = r.val) :
    storeRegisters m x = .ok (m.writeAtIndex (m.firstRegisters r)).memory := by
  have hr := r.isLt
  rw [storeRegisters, h, List.range_eq_range', storeFrom_eq m _ 0 (by omega)]
  rfl

/-- Loading the first registers replaces them by the cells from I on. -/
theorem loadFirst_eq (m : Machine κ) (count : Nat) (hcount : count ≤ 16) :
    (List.range count).foldlM
        (fun registers r => do
          let byte ← entry m.memory (place m.index r)
          update registers r byte)
        m.registers =
      .ok (Vector.ofFn fun r : Register =>
        if r.val < count then m.memory[Memory.cell m.index r.val] else m.registers[r]) := by
  -- Here the last register comes off: the result is a table, and the step changes one entry of it.
  induction count with
  | zero =>
    refine congrArg Except.ok (Vector.ext fun i hi => ?_)
    simp
  | succ count ih =>
    rw [List.range_succ, List.foldlM_append, ih (by omega), ok_bind, List.foldlM_cons, entry_place,
      ok_bind, update_eq _ (by omega), ok_bind]
    refine congrArg Except.ok (Vector.ext fun i hi => ?_)
    rw [Vector.getElem_set, Vector.getElem_ofFn, Vector.getElem_ofFn]
    dsimp only
    rcases Nat.lt_trichotomy i count with hlt | rfl | hgt
    · rw [if_neg (by omega), if_pos hlt, if_pos (by omega)]
    · rw [if_pos rfl, if_pos (Nat.lt_succ_self i)]
      rfl
    · rw [if_neg (by omega), if_neg (by omega), if_neg (by omega)]

/-- The registers to be loaded are registers, and their places are in memory. -/
theorem loadRegisters_eq (m : Machine κ) {x : UInt8} {r : Register} (h : x.toNat = r.val) :
    loadRegisters m x = .ok (m.readRegisters r).registers := by
  have hr := r.isLt
  rw [loadRegisters, h, loadFirst_eq m _ (by omega)]
  refine congrArg Except.ok (Vector.ext fun i hi => ?_)
  simp only [Machine.readRegisters, Vector.getElem_ofFn, Nat.lt_succ_iff, Fin.le_def]

/-! ## Sprites -/

/-- The shifted mask leaves nothing just when the bit of the column is not set. -/
theorem mask_eq_zero_iff (byte : UInt8) {k : Nat} (hk : k < 8) :
    byte &&& (0x80 >>> UInt8.ofNat k) = 0 ↔ byte.toNat.testBit (7 - k) = false := by
  have hmask : ((0x80 : UInt8) >>> UInt8.ofNat k).toNat = 2 ^ (7 - k) := by
    have hmod : (UInt8.ofNat k).toNat % 8 = k := by simp; omega
    have htop : (0x80 : UInt8).toNat = 2 ^ 7 := rfl
    rw [UInt8.toNat_shiftRight, hmod, Nat.shiftRight_eq_div_pow, htop,
      Nat.pow_div (by omega) (by decide)]
  rw [← UInt8.toNat_inj, UInt8.toNat_and, hmask, Nat.and_two_pow]
  cases byte.toNat.testBit (7 - k) <;> simp

/-- A remainder of a column and one of a row make a pixel. -/
theorem pixelPlace_eq (column row : Nat) :
    pixelPlace column row = .ok (pixelAt column row).val := by
  have hc := Nat.mod_lt column (show 0 < screenWidth by decide)
  have hr := Nat.mod_lt row (show 0 < screenHeight by decide)
  simp only [screenWidth, screenHeight] at hc hr
  rw [pixelPlace, index_eq (by simp only [screenWidth, screenHeight]; omega), ok_bind,
    index_eq (by simp only [screenWidth, screenHeight]; omega)]
  rfl

/-- One pixel is drawn where the bit of its column is set. -/
theorem plot_eq {x y r : Nat} (hx : x < 256) (hy : y < 256) (hr : r < 16) (byte : UInt8)
    (screen : Pixels × Bool) {k : Nat} (hk : k < 8) :
    plot x y r byte screen k =
      .ok (if byte.toNat.testBit (7 - k) then Pixels.plot screen (pixelAt (x + k) (y + r))
        else screen) := by
  rw [plot]
  by_cases hbit : byte.toNat.testBit (7 - k) = false
  · rw [if_pos ((mask_eq_zero_iff byte hk).2 hbit), hbit]
    rfl
  · rw [if_neg (mt (mask_eq_zero_iff byte hk).1 hbit), index_eq (by omega), ok_bind,
      index_eq (by omega), ok_bind, pixelPlace_eq, ok_bind, entry_eq _ (pixelAt _ _).isLt, ok_bind,
      update_eq _ (pixelAt _ _).isLt, if_pos (by simpa using hbit)]
    rfl

/-- A row of a sprite is drawn pixel by pixel, at the columns of its set bits. -/
theorem plotRow_eq (m : Machine κ) {x y r : Nat} (hx : x < 256) (hy : y < 256) (hr : r < 16)
    (screen : Pixels × Bool) :
    plotRow m x y screen r =
      .ok (((Sprite.columns x m.memory[Memory.cell m.index r]).map (pixelAt · (y + r))).foldl
        Pixels.plot screen) := by
  rw [plotRow, entry_place, ok_bind,
    foldlM_eq _ _ fun k hk screen => plot_eq hx hy hr _ screen (List.mem_range.1 hk)]
  rw [Sprite.columns, List.foldl_map, List.foldl_map, List.foldl_filter]
  rfl

/-- The rows of a sprite are drawn one after another. -/
theorem plotRows_eq (m : Machine κ) {x y : Nat} (hx : x < 256) (hy : y < 256) (count r : Nat)
    (hr : r + count ≤ 16) (screen : Pixels × Bool) :
    (List.range' r count).foldlM (plotRow m x y) screen =
      .ok ((Sprite.cover x (y + r) ((List.range' r count).map fun k =>
        m.memory[Memory.cell m.index k])).foldl Pixels.plot screen) := by
  induction count generalizing r screen with
  | zero => rfl
  | succ count ih =>
    -- The rows below the first are a sprite that starts one row lower.
    rw [List.range'_succ, List.foldlM_cons, plotRow_eq m hx hy (by omega), ok_bind,
      ih (r + 1) (by omega), List.map_cons, Sprite.cover, List.foldl_append]
    rfl

/-- A sprite that is drawn pixel by pixel is drawn. -/
theorem draw_eq (m : Machine κ) {o : Operands} {x y : Register} {height : Fin 16}
    (h : o.x.toNat = x.val ∧ o.y.toNat = y.val ∧ o.n.toNat = height.val) :
    draw m o.x o.y o.n = .ok (m.drawSprite x y height) := by
  obtain ⟨hx, hy, hn⟩ := h
  have hheight := height.isLt
  -- A collision is looked for before each pixel here, and before the whole sprite by the machine;
  -- the two agree because a sprite of fewer rows than the screen covers no pixel twice.
  have hnodup : (Sprite.cover (m.reg x).toNat (m.reg y).toNat
      (m.memory.read m.index height.val)).Nodup :=
    Sprite.cover_nodup _ _ _ (by simp [Memory.read, screenHeight]; omega)
  rw [draw, reg_eq m hx, ok_bind, reg_eq m hy, ok_bind, hn, List.range_eq_range',
    plotRows_eq m (UInt8.toNat_lt _) (UInt8.toNat_lt _) _ 0 (by omega), ok_bind, Nat.add_zero,
    ← List.range_eq_range', ← Memory.read, Pixels.foldl_plot _ _ hnodup]
  simp only [setFlag_eq, ok_bind, Bool.false_or]
  rfl

/-! ## Instructions -/

/-- A result goes to a register, and a flag to VF after it. -/
theorem combine_eq (m : Machine κ) {o : Operands} {x y : Register} (hx : o.x.toNat = x.val)
    {y' : UInt8} (hy : y'.toNat = y.val) (f : UInt8 → UInt8 → UInt8 × Option Bool) :
    combine m o.x y' f =
      .ok (match f (m.reg x) (m.reg y) with
        | (value, some flag) => (m.setReg x value).setFlag flag
        | (value, none) => m.setReg x value) := by
  rw [combine, reg_eq m hx, ok_bind, reg_eq m hy, ok_bind]
  rcases f (m.reg x) (m.reg y) with ⟨value, _ | flag⟩
  · rw [setReg_eq m hx]
    rfl
  · rw [setReg_eq m hx, ok_bind]
    exact setFlag_eq _ flag

/-- A call looks whether there is room before it stores. -/
theorem call_eq (m : Machine κ) (target : Address) :
    call m (UInt16.ofNat target.val) = .ok (m.call target) := by
  unfold call Machine.call
  by_cases h : m.sp.toNat < 16
  · -- The guard bounds the slot that is written and the sum.
    have hsp : UInt8.ofNat (m.sp.toNat + 1) = m.sp + 1 := by
      rw [UInt8.ofNat_add, UInt8.ofNat_toNat]
      rfl
    rw [if_pos h, dif_pos h, update_eq _ h, ok_bind, within_eq (by omega), ok_bind, hsp]
    rfl
  · rw [if_neg h, dif_neg h]
    rfl

/-- A return looks whether a call is in progress before it counts down, and what it counts down to
is a slot of the stack because at most sixteen calls are in progress. -/
theorem ret_eq (m : Machine κ) (h : m.sp.toNat ≤ 16) : ret m = .ok m.ret := by
  unfold ret Machine.ret
  by_cases h0 : m.sp = 0
  · rw [if_pos h0, if_pos h0]
    rfl
  · -- The guard bounds the difference, and the bound on the stack pointer the slot that is read.
    have hpos : 1 ≤ m.sp.toNat := Nat.one_le_iff_ne_zero.2 fun hz => h0 (UInt8.toNat_inj.1 hz)
    have hdiff : (m.sp - 1).toNat = m.sp.toNat - 1 :=
      UInt8.toNat_sub_of_le _ _ (UInt8.le_iff_toNat_le.2 hpos)
    have hsp : UInt8.ofNat (m.sp.toNat - 1) = m.sp - 1 := by rw [← hdiff, UInt8.ofNat_toNat]
    have hslot : m.slot (m.sp - 1) = m.stack[m.sp.toNat - 1] := by
      rw [State.slot, hdiff, Vector.getElem?_eq_getElem (by omega)]
      rfl
    rw [if_neg h0, if_neg h0, minus_eq hpos, ok_bind, entry_eq _ (by omega), ok_bind, hsp, hslot]
    rfl

variable [Keypad κ]

/-- A condition looks at registers only, and the keys that it asks for come from one. -/
theorem test_eq (m : Machine κ) {o : Operands} {condition : Condition}
    (h : condition.HasOperands o) : test m o condition = .ok (m.test condition) := by
  cases condition with
  | equalsByte x byte | differsByte x byte =>
    obtain ⟨hx, rfl⟩ := h
    rw [test, reg_eq m hx]
    rfl
  | equals x y | differs x y =>
    rw [test, reg_eq m h.1, ok_bind, reg_eq m h.2]
    rfl
  | pressed x | released x =>
    rw [test, reg_eq m h]
    rfl

/-- A wait that ends stores a key in a register. -/
theorem awaitKey_eq (m : Machine κ) {x : UInt8} {r : Register} (h : x.toNat = r.val) :
    awaitKey m x = .ok (m.awaitKey r) := by
  unfold awaitKey Machine.awaitKey
  rcases Keypad.firstPressed m.keypad Keypad.scanOrder with ⟨_ | key, asked⟩
  · rfl
  · show (setReg m x key >>= _) = _
    rw [setReg_eq m h]
    rfl

/-- An address behind V0 fits into 16 bits, and the remainder is taken afterwards. -/
theorem jumpOffset_eq (v : UInt8) (target : Address) :
    within 16 (v.toNat + (UInt16.ofNat target.val).toNat) =
      .ok (v.toUInt16 + UInt16.ofNat target.val).toNat := by
  -- At most 255 + 4095.
  have hv := v.toNat_lt
  have htarget : target.val < 4096 := target.isLt
  have hsum : v.toNat + (UInt16.ofNat target.val).toNat < 2 ^ 16 := by
    rw [UInt16.toNat_ofNat']
    omega
  rw [within_eq hsum, UInt16.toNat_add, UInt8.toNat_toUInt16, Nat.mod_eq_of_lt hsum]

/-- The glyph of a byte starts within 16 bits. -/
theorem glyph_eq (v : UInt8) : within 16 (v.toNat * 5) = .ok (v.toUInt16 * 5).toNat := by
  have hv := v.toNat_lt
  have hproduct : v.toNat * 5 < 2 ^ 16 := by omega
  rw [within_eq hproduct, UInt16.toNat_mul, UInt8.toNat_toUInt16]
  exact congrArg Except.ok (Nat.mod_eq_of_lt hproduct).symm

/-- Every instruction ends with its result. -/
theorem execute_eq (m : Machine κ) {o : Operands} {i : Instruction} (h : i.HasOperands o)
    (hsp : m.sp.toNat ≤ 16) : execute m o i = .ok (m.execute i) := by
  cases i with
  | clear | unsupported => rfl
  | ret => exact ret_eq m hsp
  | jump target | setIndex target =>
    have ha : o.address = UInt16.ofNat target.val := h
    rw [execute, ha]
    rfl
  | call target =>
    have ha : o.address = UInt16.ofNat target.val := h
    rw [execute, ha, call_eq]
    rfl
  | skip condition =>
    rw [execute, skip, test_eq m h]
    rfl
  | setByte x byte =>
    obtain ⟨hx, rfl⟩ := h
    rw [execute, setReg_eq m hx]
    rfl
  | addByte x byte =>
    obtain ⟨hx, rfl⟩ := h
    rw [execute, reg_eq m hx, ok_bind, setReg_eq m hx]
    rfl
  | combine operator x y =>
    rw [execute, combine_eq m h.1 h.2, ok_bind, Machine.execute]
    rcases operator.apply (m.reg x) (m.reg y) with ⟨value, _ | flag⟩ <;> rfl
  | shift direction x =>
    rw [execute, combine_eq m h h]
    rfl
  | jumpOffset target =>
    have ha : o.address = UInt16.ofNat target.val := h
    rw [execute, reg_eq m (r := 0) rfl, ok_bind, ha, jumpOffset_eq, ok_bind, UInt16.ofNat_toNat]
    rfl
  | random x mask =>
    obtain ⟨hx, rfl⟩ := h
    rw [execute, setReg_eq _ hx]
    rfl
  | draw x y height =>
    rw [execute, draw_eq m h]
    rfl
  | readDelay x =>
    rw [execute, setReg_eq m h]
    rfl
  | awaitKey x => exact awaitKey_eq m h
  | setDelay x | setSound x =>
    rw [execute, reg_eq m h]
    rfl
  | addIndex x =>
    rw [execute, reg_eq m h]
    simp only [ok_bind, setFlag_eq]
    rfl
  | glyph x =>
    rw [execute, reg_eq m h, ok_bind, glyph_eq, ok_bind, UInt16.ofNat_toNat]
    rfl
  | decimal x =>
    rw [execute, reg_eq m h, ok_bind, write_eq]
    rfl
  | store x =>
    rw [execute, storeRegisters_eq m h]
    rfl
  | load x =>
    rw [execute, loadRegisters_eq m h]
    rfl

/-- A cycle ends with its result on every machine whose stack pointer is within the stack. -/
theorem cycle_eq (m : Machine κ) (hsp : m.sp.toNat ≤ 16) : cycle m = .ok m.cycle := by
  rw [cycle, Machine.cycle]
  split
  · rfl
  · rw [fetch_eq, ok_bind]
    dsimp only
    rw [execute_eq m (Instruction.hasOperands_ofWord _) hsp]
    rfl

end Checked

end Chip8
