import Chip8.MessagePack.RoundTrip
import Chip8.Snapshot.Decode

/-!
# Snapshots read back

`Snapshot.decode?_encode`: a snapshot whose lists have lengths of 32 bits reads back from what is
written for it, whatever bytes follow. The snapshot of a state has the lengths that a state asks
for, so a state whose stack pointer and pixels are in range is restored
(`State.Valid.state_snapshot`).
-/

namespace Chip8

open MessagePack

namespace Snapshot

/-- The lists are short enough for the format. -/
structure Fits (s : Snapshot) : Prop where
  /-- The registers. -/
  registers : s.registers.length < 2 ^ 32
  /-- The slots of the stack. -/
  stack : s.stack.length < 2 ^ 32
  /-- The bytes of memory. -/
  memory : s.memory.length < 2 ^ 32
  /-- The pixels. -/
  pixels : s.pixels.length < 2 ^ 32

/-- The nine values that are written for a snapshot. -/
def values (s : Snapshot) : List Value :=
  [.natural s.pc.toNat, .natural s.sp.toNat, .natural s.index.toNat,
    .array ((s.registers.map (·.toNat)).map .natural),
    .array ((s.stack.map (·.toNat)).map .natural),
    .array ((s.memory.map (·.toNat)).map .natural),
    .array ((s.pixels.map (·.toNat)).map .natural),
    .natural s.delay.toNat, .natural s.sound.toNat]

/-- A field that was read is handed on to the rest of the reading. -/
theorem some_bind {α β : Type} (a : α) (f : α → Option β) : (some a >>= f) = f a := rfl

/-- Nine values are the values of the nine fields in order. -/
theorem entries?_values (s : Snapshot) :
    entries? (.array s.values) = some (Field.all.zip s.values) := rfl

/-- The nine values hold the snapshot. -/
theorem ofValue?_values (s : Snapshot) : ofValue? (.array s.values) = some s := by
  have hpc : field? (Field.all.zip s.values) (·.word?) .pc = some s.pc :=
    Value.word?_natural s.pc
  have hsp : field? (Field.all.zip s.values) (·.byte?) .sp = some s.sp :=
    Value.byte?_natural s.sp
  have hindex : field? (Field.all.zip s.values) (·.word?) .index = some s.index :=
    Value.word?_natural s.index
  have hregisters : field? (Field.all.zip s.values) (·.bytes?) .registers = some s.registers :=
    Value.bytes?_naturals s.registers
  have hstack : field? (Field.all.zip s.values) (·.words?) .stack = some s.stack :=
    Value.words?_naturals s.stack
  have hmemory : field? (Field.all.zip s.values) (·.bytes?) .memory = some s.memory :=
    Value.bytes?_naturals s.memory
  have hpixels : field? (Field.all.zip s.values) (·.bytes?) .pixels = some s.pixels :=
    Value.bytes?_naturals s.pixels
  have hdelay : field? (Field.all.zip s.values) (·.byte?) .delay = some s.delay :=
    Value.byte?_natural s.delay
  have hsound : field? (Field.all.zip s.values) (·.byte?) .sound = some s.sound :=
    Value.byte?_natural s.sound
  rw [ofValue?, entries?_values, some_bind, hpc, some_bind, hsp, some_bind, hindex, some_bind,
    hregisters, some_bind, hstack, some_bind, hmemory, some_bind, hpixels, some_bind, hdelay,
    some_bind, hsound, some_bind]
  rfl

/-- The numbers of bytes have 64 bits. -/
theorem toNat_byte_lt (bs : List UInt8) : ∀ n ∈ bs.map (·.toNat), n < 2 ^ 64 := by
  intro n hn
  obtain ⟨b, -, rfl⟩ := List.mem_map.1 hn
  have := b.toNat_lt
  omega

/-- The numbers of words have 64 bits. -/
theorem toNat_word_lt (ws : List UInt16) : ∀ n ∈ ws.map (·.toNat), n < 2 ^ 64 := by
  intro n hn
  obtain ⟨w, -, rfl⟩ := List.mem_map.1 hn
  have := w.toNat_lt
  omega

/-- What is written for a snapshot is the array of its nine values. -/
theorem read_encode (s : Snapshot) (h : s.Fits) (depth : Nat) (rest : List UInt8) :
    Value.read (depth + 2) (s.encode ++ rest) = some (.array s.values, rest) := by
  have h8 : ∀ b : UInt8, b.toNat < 2 ^ 64 := fun b => by have := b.toNat_lt; omega
  have h16 : ∀ w : UInt16, w.toNat < 2 ^ 64 := fun w => by have := w.toNat_lt; omega
  simp only [encode, List.append_assoc]
  rw [Value.read_arrayHeader (depth + 1) 9 (by decide)]
  simp only [takeMany, Value.read_natural _ _ (h8 _), Value.read_natural _ _ (h16 _),
    Value.read_naturals _ _ (by simpa using h.registers) (toNat_byte_lt _),
    Value.read_naturals _ _ (by simpa using h.stack) (toNat_word_lt _),
    Value.read_naturals _ _ (by simpa using h.memory) (toNat_byte_lt _),
    Value.read_naturals _ _ (by simpa using h.pixels) (toNat_byte_lt _)]
  simp [values]

/-- A snapshot reads back from what is written for it. -/
theorem decode?_encode (s : Snapshot) (h : s.Fits) (rest : List UInt8) :
    decode? (s.encode ++ rest) = some s := by
  simp [decode?, read_encode s h, ofValue?_values]

end Snapshot

namespace State

/-- The snapshot of a state has four lists of a few thousand entries at most. -/
theorem fits_snapshot (s : State) : s.snapshot.Fits := by
  constructor <;> simp [snapshot, memorySize, pixelCount]

/-- The snapshot of a valid state passes every check and is the state again. -/
theorem Valid.state_snapshot {s : State} (h : s.Valid) : s.snapshot.state = .ok s := by
  have hpixels : s.pixels.toList.find? (1 < ·) = none := by
    rw [List.find?_eq_none]
    intro p hp
    simpa using h.pixel_le p (by simpa using hp)
  have hsp : ¬ 16 < s.sp.toNat := by have := h.sp_le; omega
  simp only [Snapshot.state, snapshot, Snapshot.exactly_toList, bind, Except.bind, hsp, if_false,
    hpixels, pure, Except.pure]

end State

end Chip8
