import Chip8.State

/-!
# What memory holds after bytes were written

Bytes are written from an index on, around the end of memory. Cells that lie less than a whole
memory apart are different ones (`cell_inj`), so bytes that fit into memory do not overwrite each
other: each of them is found in its cell (`get_write_cell`), and a cell that none of them goes to is
as it was (`get_write_of_forall_ne`). The two together tell every cell of memory after a write.

A word is read from two cells, the first of them its high byte (`toNat_fetch`).
-/

namespace Chip8

namespace Memory

variable {memory : Memory} {index : UInt16} {offset : Nat} {bytes : List UInt8}

/-- The cell behind an index is found without regard to the range of an index. -/
theorem cell_eq_ofNat (index : UInt16) (offset : Nat) :
    cell index offset = Fin.ofNat memorySize (index.toNat + offset) :=
  Fin.ext (cell_val index offset)

/-- Cells that lie less than a whole memory apart are different ones, also around both ends: that of
memory and that of the numbers of an index. -/
theorem cell_inj {j k : Nat} (hj : j < k + memorySize) (hk : k < j + memorySize) :
    cell index j = cell index k ↔ j = k := by
  rw [Fin.ext_iff, cell_val, cell_val]
  simp only [memorySize] at *
  omega

/-- Up to the end of memory, the cells behind an index are the places behind it. -/
theorem eq_cell_iff {i k : Nat} {hi : i < memorySize} (h : index.toNat + k < memorySize) :
    ⟨i, hi⟩ = cell index k ↔ i = index.toNat + k := by
  rw [Fin.ext_iff, cell_val, Nat.mod_eq_of_lt h]

/-- Writing bytes changes only the cells that the bytes go to. -/
theorem exists_cell_of_get_write_ne {a : Fin memorySize}
    (h : (write memory index offset bytes).get a ≠ memory.get a) :
    ∃ k < bytes.length, a = cell index (offset + k) := by
  induction bytes generalizing memory offset with
  | nil => exact absurd rfl h
  | cons byte bytes ih =>
    by_cases hfirst : a = cell index offset
    · exact ⟨0, Nat.zero_lt_succ _, hfirst⟩
    · -- The first byte went elsewhere, so a later one has changed the cell.
      have hset : (memory.set (cell index offset) byte).get a = memory.get a :=
        Vector.getElem_set_ne _ _ fun hval => hfirst (Fin.ext hval.symm)
      rw [write, ← hset] at h
      obtain ⟨k, hk, ha⟩ := ih h
      refine ⟨k + 1, Nat.succ_lt_succ hk, ?_⟩
      rw [ha, Nat.add_assoc, Nat.add_comm 1 k]

/-- A cell that no byte goes to is left alone. -/
theorem get_write_of_forall_ne {a : Fin memorySize}
    (h : ∀ k < bytes.length, a ≠ cell index (offset + k)) :
    (write memory index offset bytes).get a = memory.get a := by
  refine Decidable.byContradiction fun hne => ?_
  obtain ⟨k, hk, ha⟩ := exists_cell_of_get_write_ne hne
  exact h k hk ha

/-- Bytes that fit into memory are found in the cells that they were written to. -/
theorem get_write_cell (hfits : bytes.length ≤ memorySize) {k : Nat} (hk : k < bytes.length) :
    (write memory index offset bytes).get (cell index (offset + k)) = bytes[k] := by
  induction bytes generalizing memory offset k with
  | nil => exact absurd hk (Nat.not_lt_zero k)
  | cons byte bytes ih =>
    rw [List.length_cons] at hfits hk
    cases k with
    | zero =>
      -- The bytes behind the first one go to other cells, and leave it where it is.
      have hothers :
          ∀ j < bytes.length, cell index (offset + 0) ≠ cell index (offset + 1 + j) := by
        intro j hj hcell
        have heq := (cell_inj (by omega) (by omega)).1 hcell
        omega
      rw [write, get_write_of_forall_ne hothers]
      exact Vector.getElem_set_self (Fin.isLt _)
    | succ k =>
      have hnext : offset + (k + 1) = offset + 1 + k := by omega
      rw [hnext]
      exact ih (by omega) (by omega)

/-- Bytes that end before memory does take the place of as many bytes, and the others stay. -/
theorem toList_write (hfits : index.toNat + bytes.length ≤ memorySize) :
    (write memory index 0 bytes).toList =
      memory.toList.take index.toNat ++ bytes ++
        memory.toList.drop (index.toNat + bytes.length) := by
  have hfront : (memory.toList.take index.toNat).length = index.toNat := by
    rw [List.length_take, Vector.length_toList]
    omega
  refine List.ext_getElem ?_ fun i hi hi' => ?_
  · rw [List.length_append, List.length_append, hfront, List.length_drop, Vector.length_toList,
      Vector.length_toList]
    omega
  rw [Vector.length_toList] at hi
  rw [Vector.getElem_toList]
  by_cases hin : index.toNat ≤ i ∧ i < index.toNat + bytes.length
  · -- The place is the cell of one of the bytes.
    have hcell : (⟨i, hi⟩ : Fin memorySize) = cell index (0 + (i - index.toNat)) :=
      (eq_cell_iff (by omega)).2 (by omega)
    have hget :
        (write memory index 0 bytes).get ⟨i, hi⟩ = bytes.get ⟨i - index.toNat, by omega⟩ := by
      rw [hcell]
      exact get_write_cell (by omega) (by omega)
    refine hget.trans ?_
    rw [List.getElem_append_left (by rw [List.length_append, hfront]; exact hin.2),
      List.getElem_append_right (by rw [hfront]; exact hin.1)]
    simp only [hfront]
    rfl
  · have hother : ∀ k < bytes.length, (⟨i, hi⟩ : Fin memorySize) ≠ cell index (0 + k) := by
      intro k hk hcell
      have hplace : i = index.toNat + (0 + k) := (eq_cell_iff (by omega)).1 hcell
      omega
    have hget : (write memory index 0 bytes).get ⟨i, hi⟩ = memory.get ⟨i, hi⟩ :=
      get_write_of_forall_ne hother
    refine hget.trans ?_
    by_cases hbefore : i < index.toNat
    · have hstart : i < (memory.toList.take index.toNat).length := hfront.symm ▸ hbefore
      rw [List.getElem_append_left (by rw [List.length_append]; omega),
        List.getElem_append_left hstart, List.getElem_take, Vector.getElem_toList]
      rfl
    · have hbehind : index.toNat + bytes.length + (i - (index.toNat + bytes.length)) = i := by omega
      rw [List.getElem_append_right (by rw [List.length_append, hfront]; omega), List.getElem_drop,
        Vector.getElem_toList]
      simp only [List.length_append, hfront, hbehind]
      rfl

/-- The word at an address is a number of two digits to the base 256, the high one first. -/
theorem toNat_fetch {address : UInt16} {high low : UInt8}
    (hhigh : memory[address.toNat]? = some high) (hlow : memory[address.toNat + 1]? = some low) :
    (memory.fetch address).toNat = 256 * high.toNat + low.toNat := by
  obtain ⟨_, hhigh⟩ := Vector.getElem?_eq_some_iff.1 hhigh
  obtain ⟨hroom, hlow⟩ := Vector.getElem?_eq_some_iff.1 hlow
  have hlt := high.toNat_lt
  have hshift : (high.toUInt16 <<< 8).toNat = high.toNat <<< 8 := by
    show high.toNat <<< 8 % 2 ^ 16 = _
    rw [Nat.shiftLeft_eq]
    omega
  -- The low byte takes the eight bits that the shift has cleared.
  rw [fetch, dif_pos hroom, hhigh, hlow, UInt16.toNat_or, hshift, UInt8.toNat_toUInt16,
    ← Nat.shiftLeft_add_eq_or_of_lt low.toNat_lt, Nat.shiftLeft_eq, Nat.mul_comm]

/-- Memory holds no two bytes from its last one on. -/
theorem fetch_eq_zero {address : UInt16} (h : memorySize ≤ address.toNat + 1) :
    memory.fetch address = 0 := dif_neg (Nat.not_lt.2 h)

end Memory

end Chip8
