import Mathlib.Data.List.GetD
import Chip8.Machine.Storage
import Chip8.Proofs.Memory

/-!
# What a new program finds

A program that fits replaces the whole state of a machine, whatever it was: memory holds the glyphs,
the program from `0x200` on, and zeros everywhere else, and all other fields are those of a machine
that was just switched on. `toList_memory_loaded` tells memory as one list, from which every byte
and every word can be read off. A program that does not fit changes nothing. `loadProgram_image`
joins the two cases.
-/

namespace Chip8

/-- The state of a machine that was just given a program. -/
def State.loaded (program : List UInt8) : State :=
  { State.initial with memory := Memory.write Memory.blank (UInt16.ofNat programStart) 0 program }

/-- Memory after a program was loaded: the glyphs, zeros up to the program, the program, and zeros
up to the end. -/
theorem State.toList_memory_loaded {program : List UInt8} (h : program.length ≤ maxProgramSize) :
    (State.loaded program).memory.toList =
      glyphs.toList ++ List.replicate 432 0 ++ program ++
        List.replicate (3584 - program.length) 0 := by
  have hblank : Memory.blank.toList = glyphs.toList ++ List.replicate 4016 0 := rfl
  have hglyphs : glyphs.toList.length = 80 := Vector.length_toList
  have hstart : (UInt16.ofNat programStart).toNat = glyphs.toList.length + 432 := by
    rw [hglyphs]
    rfl
  have hend : (UInt16.ofNat programStart).toNat + program.length ≤ memorySize := by
    have hlength : program.length ≤ 4096 - 512 := h
    show 512 + program.length ≤ 4096
    omega
  -- What the program leaves of the zeros behind the glyphs.
  have hzeros : 4016 - (432 + program.length) = 3584 - program.length := Nat.sub_add_eq _ _ _
  show (Memory.write Memory.blank (UInt16.ofNat programStart) 0 program).toList = _
  rw [Memory.toList_write hend, hblank, hstart, List.take_length_add_append, List.take_replicate,
    Nat.add_assoc, List.drop_length_add_append, List.drop_replicate, hzeros]
  rfl

/-- A byte of the program is found as many places behind `0x200`, and behind the program there are
zeros. -/
theorem State.getElem?_memory_loaded {program : List UInt8} (h : program.length ≤ maxProgramSize)
    {i : Nat} (hi : 0x200 + i < memorySize) :
    (State.loaded program).memory[0x200 + i]? = some (program.getD i 0) := by
  have hfront : (glyphs.toList ++ List.replicate 432 0).length = 0x200 := by
    rw [List.length_append, Vector.length_toList, List.length_replicate]
  rw [← Vector.getElem?_toList, toList_memory_loaded h, List.append_assoc, ← hfront,
    List.getElem?_append_right (Nat.le_add_right _ _), Nat.add_sub_cancel_left,
    List.getD_eq_getElem?_getD]
  by_cases hin : i < program.length
  · rw [List.getElem?_append_left hin, List.getElem?_eq_getElem hin]
    rfl
  · have hzeros : i - program.length < 3584 - program.length := by
      have hmemory : 512 + i < 4096 := hi
      omega
    rw [List.getElem?_append_right (Nat.le_of_not_lt hin), List.getElem?_replicate, if_pos hzeros,
      List.getElem?_eq_none (Nat.le_of_not_lt hin)]
    rfl

/-- The word at an address in the room for a program consists of two of its bytes. -/
theorem State.toNat_fetch_loaded {program : List UInt8} (h : program.length ≤ maxProgramSize)
    {a : UInt16} {i : Nat} (ha : a.toNat = 0x200 + i) (hlt : a.toNat < 0xFFF) :
    ((State.loaded program).fetch a).toNat =
      256 * (program.getD i 0).toNat + (program.getD (i + 1) 0).toNat := by
  rw [ha] at hlt
  refine Memory.toNat_fetch ?_ ?_ <;> rw [ha]
  · exact getElem?_memory_loaded h (Nat.lt_succ_of_lt hlt)
  · have hnext : 0x200 + (i + 1) < memorySize := Nat.succ_lt_succ hlt
    exact getElem?_memory_loaded h hnext

namespace Machine

variable {κ : Type}

/-- A program that fits replaces the state, and leaves the keypad, the random numbers and the
preferences alone. -/
theorem machine_loadProgram (m : Machine κ) {program : List UInt8}
    (h : program.length ≤ maxProgramSize) :
    (m.loadProgram program).machine =
      { m with toState := .loaded program, redraw := true, paused := false } := by
  rw [loadProgram, if_neg (Nat.not_lt.2 h)]
  rfl

/-- A program that fits is taken, and its size is the result. -/
theorem result_loadProgram (m : Machine κ) {program : List UInt8}
    (h : program.length ≤ maxProgramSize) :
    (m.loadProgram program).result = .ok program.length := by
  rw [loadProgram, if_neg (Nat.not_lt.2 h)]

/-- A program that does not fit is refused, and changes nothing. -/
theorem loadProgram_of_lt (m : Machine κ) {program : List UInt8}
    (h : maxProgramSize < program.length) :
    m.loadProgram program = { result := .error (.programTooLarge program.length), machine := m } :=
  if_pos h

/-- A program of more than 3584 bytes is refused with its size, and changes nothing. Every other
program is taken, and its size is the result. Memory then holds the glyphs, the program at its
place, and zeros. All other fields of the state are those of a machine that was just switched on,
whatever they were. The mark that the screen has changed is set, and the keypad, the random numbers
and the preferences are as they were. So two bytes of the program that follow each other make up the
word at their place, a last byte below the end of memory makes one up with a zero, and where memory
holds no two bytes the word is zero. -/
theorem loadProgram_image (m : Machine κ) (program : List UInt8) :
    let o := m.loadProgram program
    let m' := o.machine
    ((∃ error, o.result = .error error) ↔ 3584 < program.length) ∧
      (3584 < program.length →
        (o.result = .error (.programTooLarge program.length) ∧
          (LoadError.programTooLarge program.length).message =
            "program is " ++ toString program.length ++ " bytes, but at most " ++ toString 3584 ++
              " bytes fit into memory") ∧
          m' = m) ∧
      (program.length ≤ 3584 →
        o.result = .ok program.length ∧
          m'.memory.toList =
            glyphs.toList ++ List.replicate 432 0 ++ program ++
              List.replicate (3584 - program.length) 0 ∧
          (m'.registers = Vector.replicate 16 0 ∧ m'.stack = Vector.replicate 16 0 ∧ m'.sp = 0 ∧
            m'.index = 0 ∧ m'.delay = 0 ∧ m'.sound = 0 ∧ m'.pixels = Vector.replicate 2048 0 ∧
            m'.pc = 0x200 ∧ m'.redraw = true) ∧
          (m'.keypad = m.keypad ∧ m'.config = m.config ∧ m'.random = m.random) ∧
          (∀ (a : UInt16) (i : Nat), a.toNat = 0x200 + i →
            (∀ _ : i + 1 < program.length,
              (m'.fetch a).toNat = 256 * program[i].toNat + program[i + 1].toNat) ∧
            (∀ _ : i + 1 = program.length,
              a.toNat < 0xFFF → (m'.fetch a).toNat = 256 * program[i].toNat)) ∧
          ∀ a : UInt16, 0xFFF ≤ a.toNat → m'.fetch a = 0) := by
  intro o m'
  refine ⟨⟨fun ⟨error, herror⟩ => ?_, fun hlarge => ?_⟩, fun hlarge => ?_, fun hsize => ?_⟩
  · refine Nat.lt_of_not_le fun hsize => ?_
    rw [show o.result = _ from m.result_loadProgram hsize] at herror
    exact nomatch herror
  · exact ⟨_, congrArg Outcome.result (m.loadProgram_of_lt hlarge)⟩
  · have ho : o = _ := m.loadProgram_of_lt hlarge
    exact ⟨⟨congrArg Outcome.result ho, rfl⟩, congrArg Outcome.machine ho⟩
  have hmachine : m' = { m with toState := .loaded program, redraw := true, paused := false } :=
    m.machine_loadProgram hsize
  refine ⟨m.result_loadProgram hsize, ?_, ?_, ?_,
    fun a i ha => ⟨fun hi => ?_, fun hi hlt => ?_⟩, fun a ha => ?_⟩
  · rw [hmachine]
    exact State.toList_memory_loaded hsize
  · rw [hmachine]
    exact ⟨rfl, rfl, rfl, rfl, rfl, rfl, rfl, rfl, rfl⟩
  · rw [hmachine]
    exact ⟨rfl, rfl, rfl⟩
  · -- The second byte is one of the program, so its place is before the end of memory.
    rw [hmachine, State.toNat_fetch_loaded hsize ha (by omega)]
    rw [List.getD_eq_getElem _ _ (by omega), List.getD_eq_getElem _ _ hi]
  · rw [hmachine, State.toNat_fetch_loaded hsize ha hlt]
    rw [List.getD_eq_getElem _ _ (by omega), List.getD_eq_default _ _ (by omega)]
    rfl
  · exact Memory.fetch_eq_zero (Nat.succ_le_succ ha)

end Machine

end Chip8
