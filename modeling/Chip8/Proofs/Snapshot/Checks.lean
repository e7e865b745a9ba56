import Chip8.Snapshot.RoundTrip

/-!
# The checks of a snapshot

A snapshot is well formed when its four lists have the lengths of a state and its stack pointer and
pixels are in range. `Snapshot.FirstFault` says which error a snapshot that is not well formed
deserves: the lengths come before the stack pointer and that before the pixels, and among the
lengths and among the pixels the first at fault counts.

`Snapshot.state` follows these two descriptions exactly. It gives a state just for the snapshots
that are well formed, and then a valid one whose snapshot it was given (`state_eq_ok_iff`), and it
gives an error just for its first fault (`state_eq_error_iff`).
-/

namespace Chip8

namespace Snapshot

/-! ## Well-formed snapshots -/

/-- The four lists with their lengths, in the order in which they are checked. -/
def lengths (s : Snapshot) : List (Field × Nat) :=
  [(.registers, s.registers.length), (.stack, s.stack.length), (.memory, s.memory.length),
    (.pixels, s.pixels.length)]

/-- Every list is as long as its field is in a state. -/
def FullLength (s : Snapshot) : Prop := ∀ l ∈ s.lengths, l.2 = l.1.size

/-- The snapshot passes every check. -/
structure WellFormed (s : Snapshot) : Prop where
  /-- Every list has its length. -/
  fullLength : s.FullLength
  /-- The stack pointer is within the stack. -/
  sp_le : s.sp.toNat ≤ 16
  /-- Every pixel is dark or lit. -/
  pixel_le : ∀ p ∈ s.pixels, p ≤ 1

/-- The lengths of a state, one by one. -/
theorem fullLength_iff (s : Snapshot) :
    s.FullLength ↔ s.registers.length = 16 ∧ s.stack.length = 16 ∧ s.memory.length = 4096 ∧
      s.pixels.length = 2048 := by
  simp [FullLength, lengths, Field.size]

/-- A well-formed snapshot is the snapshot of a valid state. -/
theorem WellFormed.exists_state {s : Snapshot} (h : s.WellFormed) :
    ∃ st : State, st.Valid ∧ st.snapshot = s := by
  obtain ⟨hregisters, hstack, hmemory, hpixels⟩ := (fullLength_iff s).1 h.fullLength
  refine ⟨{ s with
    registers := ⟨s.registers.toArray, by simpa using hregisters⟩
    stack := ⟨s.stack.toArray, by simpa using hstack⟩
    memory := ⟨s.memory.toArray, by simpa using hmemory⟩
    pixels := ⟨s.pixels.toArray, by simpa using hpixels⟩ }, ⟨h.sp_le, ?_⟩, rfl⟩
  intro p hp
  exact h.pixel_le p (by simpa using hp)

/-- The checks of a snapshot, one by one. -/
theorem wellFormed_iff (s : Snapshot) :
    s.WellFormed ↔
      s.registers.length = 16 ∧ s.stack.length = 16 ∧ s.memory.length = 4096 ∧
        s.pixels.length = 2048 ∧ s.sp.toNat ≤ 16 ∧ ∀ p ∈ s.pixels, p ≤ 1 := by
  constructor
  · intro h
    obtain ⟨hregisters, hstack, hmemory, hpixels⟩ := (fullLength_iff s).1 h.fullLength
    exact ⟨hregisters, hstack, hmemory, hpixels, h.sp_le, h.pixel_le⟩
  · rintro ⟨hregisters, hstack, hmemory, hpixels, hsp, hpixel⟩
    exact ⟨(fullLength_iff s).2 ⟨hregisters, hstack, hmemory, hpixels⟩, hsp, hpixel⟩

end Snapshot

/-- The snapshot of a valid state is well formed. -/
theorem State.Valid.wellFormed {st : State} (h : st.Valid) : st.snapshot.WellFormed where
  fullLength := by simp [Snapshot.fullLength_iff, State.snapshot]
  sp_le := h.sp_le
  pixel_le := fun p hp => h.pixel_le p (by simpa [State.snapshot] using hp)

namespace Snapshot

/-! ## The first fault -/

/-- The error of the first check that a snapshot fails. -/
inductive FirstFault (s : Snapshot) : SnapshotError → Prop where
  /-- A list has a wrong length, and the lists before it have theirs. -/
  | length (before after : List (Field × Nat)) (field : Field) (actual : Nat)
      (split : s.lengths = before ++ (field, actual) :: after)
      (good : ∀ l ∈ before, l.2 = l.1.size) (bad : actual ≠ field.size) :
      FirstFault s (.length field actual)
  /-- The stack pointer is too large, and every list has its length. -/
  | stackPointer (full : s.FullLength) (bad : 16 < s.sp.toNat) :
      FirstFault s (.stackPointer s.sp)
  /-- A pixel is too large, the pixels before it are not, and all else is well. -/
  | pixel (before after : List UInt8) (value : UInt8) (full : s.FullLength)
      (sp_le : s.sp.toNat ≤ 16) (split : s.pixels = before ++ value :: after)
      (good : ∀ p ∈ before, p ≤ 1) (bad : 1 < value) :
      FirstFault s (.pixel value)

/-- A list of a wrong length is one of the four, and its error names the length that it has and the
one that it should have. -/
theorem FirstFault.length_spec {s : Snapshot} {field : Field} {actual : Nat}
    (h : s.FirstFault (.length field actual)) :
    ∃ expected,
      (field, actual, expected) ∈
          [(.registers, s.registers.length, 16), (.stack, s.stack.length, 16),
            (.memory, s.memory.length, 4096), (.pixels, s.pixels.length, 2048)] ∧
        actual ≠ expected ∧
        (SnapshotError.length field actual).message =
          "snapshot field `" ++ field.name ++ "` holds " ++ toString actual ++
            " entries, expected " ++ toString expected := by
  cases h with
  | length before after _ _ split good bad =>
    have hmem : (field, actual) ∈ s.lengths := by simp [split]
    refine ⟨field.size, ?_, bad, rfl⟩
    simp only [lengths, List.mem_cons, List.not_mem_nil, or_false, Prod.mk.injEq] at hmem
    rcases hmem with ⟨rfl, rfl⟩ | ⟨rfl, rfl⟩ | ⟨rfl, rfl⟩ | ⟨rfl, rfl⟩ <;>
      simp [Field.size]

/-- A list of the wrong length is refused with its length. -/
theorem exactly_of_ne {α : Type} (field : Field) {n : Nat} {items : List α} (h : items.length ≠ n) :
    exactly field n items = .error (.length field items.length) := dif_neg h

/-- A list of the right length is taken. -/
theorem exactly_of_eq {α : Type} (field : Field) {n : Nat} {items : List α} (h : items.length = n) :
    exactly field n items = .ok ⟨items.toArray, by simpa using h⟩ := dif_pos h

/-- Every snapshot is well formed or has a first fault. -/
theorem wellFormed_or_firstFault (s : Snapshot) : s.WellFormed ∨ ∃ e, s.FirstFault e := by
  -- A search that finds something also tells what came before it, which is what a first fault asks.
  rcases hl : s.lengths.find? fun l => l.2 ≠ l.1.size with _ | ⟨field, actual⟩
  · have hfull : s.FullLength := by simpa [FullLength] using hl
    rcases Nat.lt_or_ge 16 s.sp.toNat with hsp | hsp
    · exact .inr ⟨_, .stackPointer hfull hsp⟩
    rcases hp : s.pixels.find? (1 < ·) with _ | value
    · exact .inl ⟨hfull, hsp, by simpa using hp⟩
    · obtain ⟨hbad, before, after, hsplit, hgood⟩ := List.find?_eq_some_iff_append.1 hp
      exact .inr ⟨_, .pixel before after value hfull hsp hsplit (by simpa using hgood)
        (by simpa using hbad)⟩
  · obtain ⟨hbad, before, after, hsplit, hgood⟩ := List.find?_eq_some_iff_append.1 hl
    exact .inr ⟨_, .length before after field actual hsplit (by simpa using hgood)
      (by simpa using hbad)⟩

/-- The lengths are checked in the order of the list: the first list at fault is refused. -/
theorem state_of_lengths {s : Snapshot} {before after : List (Field × Nat)} {field : Field}
    {actual : Nat} (split : s.lengths = before ++ (field, actual) :: after)
    (good : ∀ l ∈ before, l.2 = l.1.size) (bad : actual ≠ field.size) :
    s.state = .error (.length field actual) := by
  -- The list at fault is one of the four, so at most three stand before it.
  rcases before with _ | ⟨l₀, _ | ⟨l₁, _ | ⟨l₂, _ | ⟨l₃, before⟩⟩⟩⟩
  · simp only [lengths, List.nil_append, List.cons.injEq, Prod.mk.injEq] at split
    obtain ⟨⟨rfl, rfl⟩, -⟩ := split
    have hbad : s.registers.length ≠ 16 := bad
    rw [state, exactly_of_ne .registers hbad]
    rfl
  · simp only [lengths, List.cons_append, List.nil_append, List.cons.injEq, Prod.mk.injEq] at split
    obtain ⟨rfl, ⟨rfl, rfl⟩, -⟩ := split
    have h₀ : s.registers.length = 16 := good (.registers, s.registers.length) (by simp)
    have hbad : s.stack.length ≠ 16 := bad
    rw [state, exactly_of_eq .registers h₀, exactly_of_ne .stack hbad]
    rfl
  · simp only [lengths, List.cons_append, List.nil_append, List.cons.injEq, Prod.mk.injEq] at split
    obtain ⟨rfl, rfl, ⟨rfl, rfl⟩, -⟩ := split
    have h₀ : s.registers.length = 16 := good (.registers, s.registers.length) (by simp)
    have h₁ : s.stack.length = 16 := good (.stack, s.stack.length) (by simp)
    have hbad : s.memory.length ≠ memorySize := bad
    rw [state, exactly_of_eq .registers h₀, exactly_of_eq .stack h₁, exactly_of_ne .memory hbad]
    rfl
  · simp only [lengths, List.cons_append, List.nil_append, List.cons.injEq, Prod.mk.injEq] at split
    obtain ⟨rfl, rfl, rfl, ⟨rfl, rfl⟩, -⟩ := split
    have h₀ : s.registers.length = 16 := good (.registers, s.registers.length) (by simp)
    have h₁ : s.stack.length = 16 := good (.stack, s.stack.length) (by simp)
    have h₂ : s.memory.length = memorySize := good (.memory, s.memory.length) (by simp)
    have hbad : s.pixels.length ≠ pixelCount := bad
    rw [state, exactly_of_eq .registers h₀, exactly_of_eq .stack h₁, exactly_of_eq .memory h₂,
      exactly_of_ne .pixels hbad]
    rfl
  · have hlen := congrArg List.length split
    simp [lengths] at hlen

/-- Once the lengths are right, the stack pointer and the pixels decide. -/
theorem state_of_fullLength {s : Snapshot} (h : s.FullLength) {e : SnapshotError}
    (he : (if 16 < s.sp.toNat then some (.stackPointer s.sp)
      else (s.pixels.find? (1 < ·)).map .pixel) = some e) :
    s.state = .error e := by
  obtain ⟨hregisters, hstack, hmemory, hpixels⟩ := (fullLength_iff s).1 h
  rw [state, exactly_of_eq .registers hregisters, exactly_of_eq .stack hstack,
    exactly_of_eq .memory hmemory, exactly_of_eq .pixels hpixels]
  simp only [bind, Except.bind]
  split at he
  · next hsp =>
    rw [if_pos hsp]
    obtain rfl := Option.some.inj he
    rfl
  · next hsp =>
    obtain ⟨value, hvalue, rfl⟩ := Option.map_eq_some_iff.1 he
    rw [if_neg hsp]
    simp only [hvalue]
    rfl

/-- A snapshot is refused for its first fault. -/
theorem FirstFault.state_eq {s : Snapshot} {e : SnapshotError} (h : s.FirstFault e) :
    s.state = .error e := by
  cases h with
  | length before after field actual split good bad => exact state_of_lengths split good bad
  | stackPointer full bad => exact state_of_fullLength full (if_pos bad)
  | pixel before after value full sp_le split good bad =>
    have hfind : s.pixels.find? (1 < ·) = some value :=
      List.find?_eq_some_iff_append.2
        ⟨by simpa using bad, before, after, split, by simpa using good⟩
    refine state_of_fullLength full ?_
    rw [if_neg (by omega), hfind]
    rfl

/-! ## What a snapshot is judged to be -/

/-- A state is made of the well-formed snapshots and of no others, and it is the valid state that
the snapshot is of. -/
theorem state_eq_ok_iff (s : Snapshot) (st : State) :
    s.state = .ok st ↔ st.Valid ∧ st.snapshot = s := by
  constructor
  · intro h
    rcases wellFormed_or_firstFault s with hw | ⟨e, he⟩
    · obtain ⟨st', hvalid, rfl⟩ := hw.exists_state
      obtain rfl := Except.ok.inj (hvalid.state_snapshot.symm.trans h)
      exact ⟨hvalid, rfl⟩
    · rw [he.state_eq] at h
      cases h
  · rintro ⟨hvalid, rfl⟩
    exact hvalid.state_snapshot

/-- A state is made of a snapshot just when it is well formed. -/
theorem exists_state_eq_ok_iff (s : Snapshot) : (∃ st, s.state = .ok st) ↔ s.WellFormed := by
  constructor
  · rintro ⟨st, hst⟩
    obtain ⟨hvalid, rfl⟩ := (state_eq_ok_iff s st).1 hst
    exact hvalid.wellFormed
  · intro h
    obtain ⟨st, hvalid, rfl⟩ := h.exists_state
    exact ⟨st, hvalid.state_snapshot⟩

/-- A snapshot is refused with an error just when that is its first fault. -/
theorem state_eq_error_iff (s : Snapshot) (e : SnapshotError) :
    s.state = .error e ↔ s.FirstFault e := by
  refine ⟨fun h => ?_, FirstFault.state_eq⟩
  rcases wellFormed_or_firstFault s with hw | ⟨e', he'⟩
  · obtain ⟨st, hvalid, rfl⟩ := hw.exists_state
    rw [hvalid.state_snapshot] at h
    cases h
  · obtain rfl := Except.error.inj (he'.state_eq.symm.trans h)
    exact he'

/-- Whatever the bytes, a state that is read in them is valid. -/
theorem valid_of_stateOf {bytes : List UInt8} {st : State} (h : stateOf bytes = .ok st) :
    st.Valid := by
  unfold stateOf at h
  split at h
  · cases h
  · next snapshot _ => exact ((state_eq_ok_iff snapshot st).1 h).1

end Snapshot

end Chip8
