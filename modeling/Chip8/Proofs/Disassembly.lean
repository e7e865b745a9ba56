import Chip8.MessagePack.Writer
import Chip8.Proofs.Address
import Chip8.Proofs.Assembly
import Chip8.Proofs.Checked.Agreement
import Chip8.Proofs.CommandLine
import Chip8.Proofs.Loading

/-!
# What the disassembler prints

The slots of a listing are every second address from the first one on, up to the number of lines or
the end of memory (`slots_eq`). None of the numbers on the way leaves its width, however many lines
are asked for, because the loop ends behind memory (`checkedSlots_eq`). The address, the word and the
mnemonic of a line stand at fixed places of its text, where `shownAddress`, `shownWord` and
`shownMnemonic` read them. The mnemonic is the text of the statement that the word stands for.

Two bytes of memory make up a word, so words of slots that follow each other are the bytes in order,
without a gap and without an overlap (`flatMap_fetch`). A program that is printed as a whole is
therefore shown once, with a zero behind a last byte that stands alone (`flatMap_fetch_program`).
There is one byte that is never shown from an odd address: the last one of memory, where no word
begins.

`run_prints` joins all this for a run of the disassembler.
-/

namespace Chip8

namespace Disassembler

open Numeral

/-! ## Arguments for options -/

/-- Arguments that give options. -/
def Options.arguments (o : Options) : List String :=
  ("--" ++ "start" ++ "=" ++ String.ofList (Nat.toDigits 16 o.start.toNat)) ::
    o.count.toList.map (fun count =>
      "--" ++ "count" ++ "=" ++ String.ofList (Nat.toDigits 10 count.toNat)) ++
    ["--", o.rom]

/-- The digits of an address are read as the address. -/
theorem readStart_digits (a : UInt16) :
    readStart (String.ofList (Nat.toDigits 16 a.toNat)) = .ok a := by
  have hspells : SpellsAddress (Nat.toDigits 16 a.toNat) a.toNat :=
    @spellsAddress_digits [] _ (by decide) 0 _ List.mem_cons_self
  have hread := @readAddress_of_spells (String.ofList (Nat.toDigits 16 a.toNat)) a.toNat
    (by rwa [String.toList_ofList])
  rw [if_pos (Nat.le_of_lt_succ a.toNat_lt), UInt16.ofNat_toNat] at hread
  exact readStart_of_ok hread

/-- The digits of a number of 64 bits are read as the number. -/
theorem readWord64_digits (n : UInt64) :
    readWord64 (String.ofList (Nat.toDigits 10 n.toNat)) = .ok n := by
  have hspells : Spells 10 (Nat.toDigits 10 n.toNat) n.toNat :=
    ⟨[], _, .inl rfl, rfl, Nat.toDigits_ne_nil,
      fun c hc => (digit?_of_mem_toDigits (by decide) (by decide) hc).1,
      value_toDigits (by decide) (by decide) _⟩
  have hle : n.toNat ≤ UInt64.size - 1 := Nat.le_of_lt_succ n.toNat_lt
  rw [readWord64, String.toList_ofList, natural_of_spells (by decide) hspells, if_pos hle]
  exact congrArg Except.ok UInt64.ofNat_toNat

section Arguments

variable {s : Scan Options} (hliteral : s.literal = false) (hidle : s.waiting = none)

include hliteral hidle

/-- The first address is taken into the settings. -/
theorem read_start (hgiven : "--start <START>" ∉ s.given) (start : UInt16) :
    s.read grammar ("--" ++ "start" ++ "=" ++ String.ofList (Nat.toDigits 16 start.toNat)) =
      .ok { s with
            settings := { s.settings with start }, given := "--start <START>" :: s.given,
            waiting := none } := by
  have hvalue : (do return { s.settings with
      start := ← readStart (String.ofList (Nat.toDigits 16 start.toNat)) } :
      Except Refusal Options) = .ok { s.settings with start } := by
    rw [readStart_digits]
    rfl
  exact @Scan.read_attached _ grammar s _ _ _ "start" (by decide) (by decide) rfl hliteral hidle
    hgiven hvalue

/-- The number of slots is taken into the settings. -/
theorem read_count (hgiven : "--count <COUNT>" ∉ s.given) (count : UInt64) :
    s.read grammar ("--" ++ "count" ++ "=" ++ String.ofList (Nat.toDigits 10 count.toNat)) =
      .ok { s with
            settings := { s.settings with count := some count },
            given := "--count <COUNT>" :: s.given, waiting := none } := by
  have hvalue : (do return { s.settings with
      count := some (← readWord64 (String.ofList (Nat.toDigits 10 count.toNat))) } :
      Except Refusal Options) = .ok { s.settings with count := some count } := by
    rw [readWord64_digits]
    rfl
  exact @Scan.read_attached _ grammar s _ _ _ "count" (by decide) (by decide) rfl hliteral hidle
    hgiven hvalue

end Arguments

/-- Options with a path are those that their arguments give. -/
theorem Options.parse_arguments {o : Options} (h : o.rom ≠ "") : parse o.arguments = .ok o := by
  have hpath (s : Options) : (do return { s with rom := ← readPath o.rom } :
      Except Refusal Options) = .ok { s with rom := o.rom } := by
    rw [readPath, if_neg h]
    rfl
  -- The arguments up to the path set everything but the path.
  obtain ⟨s, hread, hsettings, hliteral, hidle, hremaining, hgiven⟩ :
      ∃ s : Scan Options,
        Scan.readAll grammar { settings := {}, remaining := grammar.positionals } o.arguments =
          s.readAll grammar ["--", o.rom] ∧
        { s.settings with rom := o.rom } = o ∧ s.literal = false ∧ s.waiting = none ∧
        s.remaining = grammar.positionals ∧ "<ROM>" ∉ s.given := by
    have hstart := Scan.readAll_cons (@read_start
      { settings := {}, remaining := grammar.positionals } rfl rfl List.not_mem_nil o.start)
    obtain ⟨rom, start, _ | count⟩ := o
    · exact ⟨_, hstart _, rfl, rfl, rfl, rfl, by simp⟩
    · have hcount := Scan.readAll_cons (@read_count
        { settings := { start }, given := ["--start <START>"], remaining := grammar.positionals }
        rfl rfl (by simp) count)
      exact ⟨_, (hstart _).trans (hcount _), rfl, rfl, rfl, rfl, by simp⟩
  rw [parse, Grammar.parse_of_last hread hliteral hidle hremaining hgiven (hpath s.settings)]
  exact congrArg _ hsettings

/-! ## Slots -/

/-- The slots are every second address from the first one on, up to the number that is asked for or
the end of memory. -/
theorem slots_eq (start count : Nat) :
    slots start count =
      (List.range (min count ((memorySize - start + 1) / 2))).map fun k => start + 2 * k := by
  induction count generalizing start with
  | zero => rw [Nat.zero_min]; rfl
  | succ count ih =>
    rw [slots]
    split
    · next hend =>
      have hnone : (memorySize - start + 1) / 2 = 0 := by omega
      rw [hnone, Nat.min_zero]
      rfl
    · next hmemory =>
      -- The first address leaves one slot less to the next one.
      have hone : min (count + 1) ((memorySize - start + 1) / 2) =
          min count ((memorySize - (start + 2) + 1) / 2) + 1 := by omega
      rw [ih, hone, List.range_succ_eq_map, List.map_cons, List.map_map]
      refine congrArg (start :: ·) (List.map_congr_left fun k _ => ?_)
      show start + 2 + 2 * k = start + 2 * (k + 1)
      omega

/-- How many lines are printed for a program of `size` bytes. -/
def lineCount (o : Options) (size : Nat) : Nat :=
  match o.count with
  | some count => min count.toNat ((4096 - o.start.toNat + 1) / 2)
  | none => (0x200 + size - o.start.toNat + 1) / 2

/-- There is a line for every slot up to the number of lines. -/
theorem lines_eq (s : State) (o : Options) {size : Nat} (hsize : size ≤ 3584) :
    lines s o size =
      (List.range (lineCount o size)).map fun k => line s (.ofNat (o.start.toNat + 2 * k)) := by
  obtain ⟨rom, start, _ | count⟩ := o
  · -- A program that is printed as a whole ends in memory.
    have hmemory : min ((0x200 + size - start.toNat + 1) / 2) ((4096 - start.toNat + 1) / 2) =
        (0x200 + size - start.toNat + 1) / 2 := Nat.min_eq_left (by omega)
    show (slots start.toNat ((0x200 + size - start.toNat + 1) / 2)).map _ = _
    rw [slots_eq, hmemory, List.map_map]
    rfl
  · show (slots start.toNat count.toNat).map _ = _
    rw [slots_eq, List.map_map]
    rfl

/-- No line is printed from behind memory, and none of a program that ends before the first
address. -/
theorem lineCount_eq_zero {o : Options} {size : Nat} (hsize : size ≤ 3584)
    (h : 0xFFF < o.start.toNat ∨ o.count = none ∧ 0x200 + size ≤ o.start.toNat) :
    lineCount o size = 0 := by
  unfold lineCount
  split
  · next hcount =>
    have hlt := h.resolve_right fun hend => nomatch hcount.symm.trans hend.1
    omega
  · omega

/-- Every slot that is printed begins in memory. -/
theorem lt_of_lt_lineCount {o : Options} {size k : Nat} (hsize : size ≤ 3584)
    (hk : k < lineCount o size) : o.start.toNat + 2 * k < 4096 := by
  unfold lineCount at hk
  split at hk <;> omega

/-! ## Checks -/

section Checks

variable {κ : Type} (m : Machine κ)

/-- Prints slot after slot, `count` of them at the most, with checked numbers. -/
def checkedSlots (start slot : Nat) : (count : Nat) → Checked (List String)
  | 0 => return []
  | count + 1 => do
    let offset ← Checked.within 64 (slot * 2)
    let address ← Checked.within 64 (start + offset)
    if 0xFFF < address then return []
    else do
      let word ← Checked.fetch m (UInt16.ofNat address)
      let line := "0x" ++ Hex.text 3 address ++ "  " ++ Hex.text 4 word.toNat ++ "  " ++
        (Instruction.ofWord word).mnemonic
      let next ← Checked.within 64 (slot + 1)
      return line :: (← checkedSlots start next count)

/-- The number of slots that a program ending at `stop` takes from `start` on, rounded up. Only the
distance is cut off at zero. -/
def checkedCount (start stop : Nat) : Checked Nat :=
  if (stop - start) % 2 = 0 then return (stop - start) / 2
  else Checked.within 64 ((stop - start) / 2 + 1)

/-- Prints a program of `size` bytes with checked numbers. -/
def checkedLines (o : Options) (size : Nat) : Checked (List String) := do
  let stop ← Checked.within 64 (0x200 + size)
  match o.count with
  | some count => checkedSlots m o.start.toNat 0 count.toNat
  | none => checkedSlots m o.start.toNat 0 (← checkedCount o.start.toNat stop)

/-- No number in the loop leaves its width, because the loop ends behind the last slot of memory. -/
theorem checkedSlots_eq {start slot : Nat} (hstart : start < 65536) (hslot : slot ≤ 2048)
    (count : Nat) :
    checkedSlots m start slot count =
      .ok ((slots (start + 2 * slot) count).map fun a => line m.toState (.ofNat a)) := by
  induction count generalizing slot with
  | zero => rfl
  | succ count ih =>
    have haddress : start + slot * 2 = start + 2 * slot := by omega
    rw [checkedSlots, slots, Checked.within_eq (by omega), Checked.ok_bind,
      Checked.within_eq (by omega), Checked.ok_bind, haddress]
    by_cases hend : 0xFFF < start + 2 * slot
    · have hmemory : memorySize ≤ start + 2 * slot := hend
      rw [if_pos hend, if_pos hmemory]
      rfl
    · -- An address in memory bounds the slot, and so the numbers of the next round.
      have hmemory : ¬ memorySize ≤ start + 2 * slot := hend
      have hnext : start + 2 * (slot + 1) = start + 2 * slot + 2 := by omega
      have htoNat : (UInt16.ofNat (start + 2 * slot)).toNat = start + 2 * slot :=
        toNat_word (by omega)
      rw [if_neg hend, if_neg hmemory, Checked.fetch_eq, Checked.ok_bind,
        Checked.within_eq (by omega), Checked.ok_bind, ih (by omega), hnext, Checked.ok_bind,
        List.map_cons, line, htoNat]
      rfl

/-- The number of slots is far from leaving its width. -/
theorem checkedCount_eq {start size : Nat} (hsize : size ≤ 3584) :
    checkedCount start (0x200 + size) = .ok (slotCount start size) := by
  have hslots : slotCount start size = (0x200 + size - start + 1) / 2 := rfl
  rw [hslots, checkedCount]
  split
  · exact congrArg Except.ok (by omega)
  · rw [Checked.within_eq (by omega)]
    exact congrArg Except.ok (by omega)

/-- The disassembler prints what it prints with checked numbers. -/
theorem checkedLines_eq (o : Options) {size : Nat} (hsize : size ≤ 3584) :
    checkedLines m o size = .ok (lines m.toState o size) := by
  have hstart := o.start.toNat_lt
  rw [checkedLines, Checked.within_eq (by omega), Checked.ok_bind, lines]
  cases o.count with
  | some count => exact checkedSlots_eq m hstart (Nat.zero_le _) count.toNat
  | none =>
    rw [checkedCount_eq hsize, Checked.ok_bind]
    exact checkedSlots_eq m hstart (Nat.zero_le _) _

end Checks

/-! ## What a line shows -/

/-- The address that a line shows. -/
def shownAddress (line : String) : Nat := value 16 0 ((line.toList.drop 2).take 3)

/-- The word that a line shows. -/
def shownWord (line : String) : Nat := value 16 0 ((line.toList.drop 7).take 4)

/-- The mnemonic that a line shows. -/
def shownMnemonic (line : String) : String := String.ofList (line.toList.drop 13)

/-- The characters of a line. -/
theorem toList_line (s : State) (a : UInt16) :
    (line s a).toList =
      ['0', 'x'] ++ (Hex.digits 3 a.toNat ++ ([' ', ' '] ++ (Hex.digits 4 (s.fetch a).toNat ++
        ([' ', ' '] ++ (s.mnemonicAt a).toList)))) := by
  simp [line, Hex.text]

/-- A line shows its address, if that is in memory. -/
theorem shownAddress_line (s : State) {a : Nat} (h : a < 4096) :
    shownAddress (line s (.ofNat a)) = a := by
  have hfront : ['0', 'x'].length = 2 := rfl
  rw [shownAddress, toList_line, toNat_word (by omega), List.drop_left' hfront,
    List.take_left' (Hex.length_digits 3 a), value_digits]
  exact Nat.mod_eq_of_lt h

/-- A line shows the word at its address. -/
theorem shownWord_line (s : State) (a : UInt16) : shownWord (line s a) = (s.fetch a).toNat := by
  have hfront : (['0', 'x'] ++ (Hex.digits 3 a.toNat ++ [' ', ' '])).length = 7 := by simp
  rw [shownWord, toList_line, ← List.append_assoc (Hex.digits 3 a.toNat), ← List.append_assoc,
    List.drop_left' hfront, List.take_left' (Hex.length_digits 4 _), value_digits]
  exact Nat.mod_eq_of_lt (s.fetch a).toNat_lt

/-- A line shows the text of the statement that its word stands for. -/
theorem shownMnemonic_line (s : State) (a : UInt16) :
    shownMnemonic (line s a) = (Instruction.ofWord (s.fetch a)).assembly.text := by
  have hfront : (['0', 'x'] ++ (Hex.digits 3 a.toNat ++ ([' ', ' '] ++
      (Hex.digits 4 (s.fetch a).toNat ++ [' ', ' '])))).length = 13 := by simp
  rw [shownMnemonic, toList_line, ← List.append_assoc (Hex.digits 4 _), ← List.append_assoc [' ', ' '],
    ← List.append_assoc (Hex.digits 3 _), ← List.append_assoc, List.drop_left' hfront,
    String.ofList_toList, Instruction.text_assembly]
  rfl

section Listing

variable (s : State) (o : Options) {size : Nat} (hsize : size ≤ 3584)

include hsize

/-- The texts of the lines. -/
theorem lines_text :
    lines s o size = (List.range (lineCount o size)).map fun k =>
      "0x" ++ Hex.text 3 (o.start.toNat + 2 * k) ++ "  " ++
        Hex.text 4 (s.fetch (.ofNat (o.start.toNat + 2 * k))).toNat ++ "  " ++
        s.mnemonicAt (.ofNat (o.start.toNat + 2 * k)) := by
  rw [lines_eq s o hsize]
  refine List.map_congr_left fun k hk => ?_
  have hmemory := lt_of_lt_lineCount hsize (List.mem_range.1 hk)
  rw [line, toNat_word (by omega)]

/-- The lines show the addresses of their slots. -/
theorem map_shownAddress_lines :
    (lines s o size).map shownAddress =
      (List.range (lineCount o size)).map fun k => o.start.toNat + 2 * k := by
  rw [lines_eq s o hsize, List.map_map]
  refine List.map_congr_left fun k hk => ?_
  rw [Function.comp_apply, shownAddress_line s (lt_of_lt_lineCount hsize (List.mem_range.1 hk))]

/-- The lines show the words of their slots. -/
theorem map_shownWord_lines :
    (lines s o size).map shownWord =
      (List.range (lineCount o size)).map fun k =>
        (s.fetch (.ofNat (o.start.toNat + 2 * k))).toNat := by
  rw [lines_eq s o hsize, List.map_map]
  refine List.map_congr_left fun k _ => ?_
  rw [Function.comp_apply, shownWord_line]

/-- The lines show the statements of their slots. -/
theorem map_shownMnemonic_lines :
    (lines s o size).map shownMnemonic =
      (List.range (lineCount o size)).map fun k =>
        (Instruction.ofWord (s.fetch (.ofNat (o.start.toNat + 2 * k)))).assembly.text := by
  rw [lines_eq s o hsize, List.map_map]
  refine List.map_congr_left fun k _ => ?_
  rw [Function.comp_apply, shownMnemonic_line]

end Listing

/-! ## Bytes that are shown -/

/-- Memory up to the end of a program. -/
def image (program : List UInt8) : List UInt8 :=
  glyphs.toList ++ List.replicate 432 0 ++ program

theorem length_image (program : List UInt8) : (image program).length = 0x200 + program.length := by
  rw [image, List.length_append, List.length_append, Vector.length_toList, List.length_replicate]

/-- Pairs at every second place are all entries in order. -/
theorem flatMap_pairs {α : Type} (f : Nat → α) (start n : Nat) :
    ((List.range n).flatMap fun k => [f (start + 2 * k), f (start + 2 * k + 1)]) =
      (List.range (2 * n)).map fun i => f (start + i) := by
  induction n with
  | zero => rfl
  | succ n ih =>
    rw [Nat.mul_succ, List.range_succ, List.range_succ, List.range_succ, List.flatMap_append, ih,
      List.map_append, List.map_append, List.append_assoc]
    rfl

/-- Entries of a list from a place on, and zeros behind its end. -/
theorem map_getD (bytes : List UInt8) (start n : Nat) :
    ((List.range n).map fun i => bytes.getD (start + i) 0) =
      (bytes.drop start).take n ++ List.replicate (n - (bytes.length - start)) 0 := by
  have hlength : ((bytes.drop start).take n).length = min n (bytes.length - start) := by
    rw [List.length_take, List.length_drop]
  -- Both lists have `n` entries, and the bytes end where the zeros begin.
  refine List.ext_getElem (by simp; omega) fun i hi _ => ?_
  have hlt : i < n := by simpa using hi
  rw [List.getElem_map, List.getElem_range]
  by_cases hin : start + i < bytes.length
  · rw [List.getD_eq_getElem _ _ hin, List.getElem_append_left (by omega), List.getElem_take,
      List.getElem_drop]
  · rw [List.getD_eq_default _ _ (Nat.le_of_not_lt hin), List.getElem_append_right (by omega),
      List.getElem_replicate]

section Loaded

variable {program : List UInt8} (hsize : program.length ≤ 3584)

include hsize

/-- Memory is the image and zeros behind it. -/
theorem toList_memory_eq :
    (State.loaded program).memory.toList =
      image program ++ List.replicate (3584 - program.length) 0 :=
  State.toList_memory_loaded hsize

/-- The image is memory up to the end of the program. -/
theorem take_memory :
    (State.loaded program).memory.toList.take (0x200 + program.length) = image program := by
  rw [toList_memory_eq hsize, List.take_left' (length_image program)]

/-- From a place on, the image is what is below the program and what is left of the program. -/
theorem drop_image (start : Nat) :
    (image program).drop start =
      ((State.loaded program).memory.toList.take 0x200).drop start ++
        program.drop (start - 0x200) := by
  have hfront : (glyphs.toList ++ List.replicate 432 0).length = 0x200 := by
    rw [List.length_append, Vector.length_toList, List.length_replicate]
  rw [toList_memory_eq hsize, image, List.append_assoc _ program, List.take_left' hfront,
    List.drop_append, hfront]

/-- A byte of memory is that of the image, and behind the image there are zeros. -/
theorem getElem?_memory {a : Nat} (ha : a < 4096) :
    (State.loaded program).memory[a]? = some ((image program).getD a 0) := by
  have hlength := length_image program
  rw [← Vector.getElem?_toList, toList_memory_eq hsize, List.getD_eq_getElem?_getD]
  by_cases hin : a < (image program).length
  · rw [List.getElem?_append_left hin, List.getElem?_eq_getElem hin]
    rfl
  · rw [List.getElem?_append_right (Nat.le_of_not_lt hin), List.getElem?_replicate,
      if_pos (by omega), List.getElem?_eq_none (Nat.le_of_not_lt hin)]
    rfl

/-- The two bytes of a word below the end of memory are those at its address. -/
theorem bigEndian_fetch {a : Nat} (ha : a + 1 < 4096) :
    MessagePack.bigEndian 2 ((State.loaded program).fetch (.ofNat a)).toNat =
      [(image program).getD a 0, (image program).getD (a + 1) 0] := by
  have hbytes (high low : UInt8) :
      MessagePack.bigEndian 2 (256 * high.toNat + low.toNat) = [high, low] := by
    have hlt := low.toNat_lt
    have hhigh : (256 * high.toNat + low.toNat) / 256 = high.toNat := by omega
    have hlow : UInt8.ofNat (256 * high.toNat + low.toNat) = low := by
      rw [← UInt8.toNat_inj, UInt8.toNat_ofNat']
      omega
    show [UInt8.ofNat ((256 * high.toNat + low.toNat) / 256), UInt8.ofNat _] = _
    rw [hhigh, hlow, UInt8.ofNat_toNat]
  have haddress : (UInt16.ofNat a).toNat = a := toNat_word (by omega)
  have hhigh : (State.loaded program).memory[(UInt16.ofNat a).toNat]? = _ :=
    haddress.symm ▸ getElem?_memory hsize (Nat.lt_of_succ_lt ha)
  have hlow : (State.loaded program).memory[(UInt16.ofNat a).toNat + 1]? = _ :=
    haddress.symm ▸ getElem?_memory hsize ha
  rw [State.fetch, Memory.toNat_fetch hhigh hlow, hbytes, haddress]

/-- The words at the slots of a program below the last byte of memory are its bytes. -/
theorem flatMap_fetch {start n : Nat} (hn : 2 * n ≤ 4096 - start) :
    ((List.range n).flatMap fun k =>
        MessagePack.bigEndian 2 ((State.loaded program).fetch (.ofNat (start + 2 * k))).toNat) =
      ((image program).drop start).take (2 * n) ++
        List.replicate (2 * n - (0x200 + program.length - start)) 0 := by
  have hwords : ∀ k ∈ List.range n,
      MessagePack.bigEndian 2 ((State.loaded program).fetch (.ofNat (start + 2 * k))).toNat =
        [(image program).getD (start + 2 * k) 0, (image program).getD (start + 2 * k + 1) 0] := by
    intro k hk
    have hlt := List.mem_range.1 hk
    exact bigEndian_fetch hsize (by omega)
  rw [List.flatMap_congr hwords, flatMap_pairs fun i => (image program).getD i 0, map_getD,
    length_image]

/-- The words of a program that is printed as a whole are its bytes and a zero if one is missing.
Only where the last byte of memory stands alone, it is not shown. -/
theorem flatMap_fetch_program (start : Nat) :
    ((List.range ((0x200 + program.length - start + 1) / 2)).flatMap fun k =>
        MessagePack.bigEndian 2 ((State.loaded program).fetch (.ofNat (start + 2 * k))).toNat) =
      if start % 2 = 1 ∧ program.length = 3584 ∧ start < 4096 then
        ((image program).drop start).dropLast ++ [0, 0]
      else
        (image program).drop start ++
          List.replicate ((0x200 + program.length - start) % 2) 0 := by
  have hlength : ((image program).drop start).length = 0x200 + program.length - start := by
    rw [List.length_drop, length_image]
  split
  · next h =>
    obtain ⟨hodd, hfull, hmemory⟩ := h
    -- The last slot is the last byte of memory, so its word is zero.
    have hcount : (0x200 + program.length - start + 1) / 2 = (4095 - start) / 2 + 1 := by omega
    have hlast : (State.loaded program).fetch (.ofNat (start + 2 * ((4095 - start) / 2))) = 0 := by
      refine Memory.fetch_eq_zero ?_
      rw [toNat_word (by omega)]
      show 4096 ≤ _
      omega
    have hfront : 2 * ((4095 - start) / 2) = 0x200 + program.length - start - 1 := by omega
    have hnone : 0x200 + program.length - start - 1 - (0x200 + program.length - start) = 0 := by
      omega
    rw [hcount, List.range_succ, List.flatMap_append, flatMap_fetch hsize (by omega),
      List.flatMap_singleton, hlast, List.dropLast_eq_take, hlength, hfront, hnone,
      List.replicate_zero, List.append_nil]
    rfl
  · next h =>
    have hzeros : 2 * ((0x200 + program.length - start + 1) / 2) -
        (0x200 + program.length - start) = (0x200 + program.length - start) % 2 := by omega
    rw [flatMap_fetch hsize (by omega), List.take_of_length_le (by omega), hzeros]

/-- So are the words that the lines show. -/
theorem flatMap_shownWord_lines {o : Options} (hall : o.count = none) :
    ((lines (.loaded program) o program.length).map shownWord).flatMap (MessagePack.bigEndian 2) =
      if o.start.toNat % 2 = 1 ∧ program.length = 3584 ∧ o.start.toNat < 4096 then
        ((image program).drop o.start.toNat).dropLast ++ [0, 0]
      else
        (image program).drop o.start.toNat ++
          List.replicate ((0x200 + program.length - o.start.toNat) % 2) 0 := by
  have hcount : lineCount o program.length =
      (0x200 + program.length - o.start.toNat + 1) / 2 := by
    rw [lineCount, hall]
  rw [map_shownWord_lines _ o hsize, hcount, List.flatMap_map]
  exact flatMap_fetch_program hsize o.start.toNat

end Loaded

/-! ## A run -/

/-- What is printed of a program that is found and fits. -/
theorem run_eq {contents : String → Option (List UInt8)} {arguments : List String} {o : Options}
    {program : List UInt8} (hoptions : Options.parse arguments = .ok o)
    (hfile : contents o.rom = some program) (hsize : program.length ≤ 3584) :
    run contents arguments =
      { code := 0, output := lines (.loaded program) o program.length } := by
  have hresult := (Machine.new KeyState.allUp {} (Vector.replicate 8 0)).result_loadProgram hsize
  have hmachine := (Machine.new KeyState.allUp {} (Vector.replicate 8 0)).machine_loadProgram hsize
  rw [run, hoptions]
  simp only [hfile, Machine.loadFile, hresult, hmachine]

/-- Any path, first address and number of slots can be asked for. If the program is found and fits,
the disassembler ends well, and printing with checked numbers of 64 bits prints the same. There is a
line for every slot from the first address on, as many as were asked for and begin in memory, or as
many as it takes to the end of the program, rounded up. Line `k` shows the address of slot `k`, the
word there and its mnemonic, and all three can be read off it, the mnemonic as the text of the
statement that the word stands for.

Where the program is printed as a whole, the words are the bytes of memory from the first address to
the end of the program, in order, and a zero behind them if they are odd in number. Only if the last
slot is the last byte of memory, that byte is not shown and the word is zero. The bytes are those
below the program, if the first address is, and those of the program from the first address on. -/
theorem run_prints (contents : String → Option (List UInt8)) :
    (∀ o : Options, o.rom ≠ "" → ∃ arguments, Options.parse arguments = .ok o) ∧
      ∀ (arguments : List String) (o : Options) (program : List UInt8),
        Options.parse arguments = .ok o → contents o.rom = some program →
        program.length ≤ 3584 →
          let blank := Machine.new KeyState.allUp {} (Vector.replicate 8 0)
          let m := (blank.loadProgram program).machine
          let start := o.start.toNat
          let count := lineCount o program.length
          let printed := (run contents arguments).output
          let bytes := (m.memory.toList.take (0x200 + program.length)).drop start
          ((run contents arguments).code = 0 ∧ (run contents arguments).complaint = none ∧
            checkedLines m o program.length = .ok printed) ∧
          printed = (List.range count).map (fun k =>
            "0x" ++ Hex.text 3 (start + 2 * k) ++ "  " ++
              Hex.text 4 (m.fetch (.ofNat (start + 2 * k))).toNat ++ "  " ++
              m.mnemonicAt (.ofNat (start + 2 * k))) ∧
          (0xFFF < start ∨ o.count = none ∧ 0x200 + program.length ≤ start → printed = []) ∧
          printed.map shownAddress = (List.range count).map (fun k => start + 2 * k) ∧
          printed.map shownWord =
            (List.range count).map (fun k => (m.fetch (.ofNat (start + 2 * k))).toNat) ∧
          printed.map shownMnemonic =
            (List.range count).map (fun k =>
              (Instruction.ofWord (m.fetch (.ofNat (start + 2 * k)))).assembly.text) ∧
          (o.count = none →
            (printed.map shownWord).flatMap (MessagePack.bigEndian 2) =
              if start % 2 = 1 ∧ program.length = 3584 ∧ start < 4096 then bytes.dropLast ++ [0, 0]
              else bytes ++ List.replicate ((0x200 + program.length - start) % 2) 0) ∧
          bytes = (m.memory.toList.take 0x200).drop start ++ program.drop (start - 0x200) := by
  refine ⟨fun o ho => ⟨o.arguments, Options.parse_arguments ho⟩,
    fun arguments o program hoptions hfile hsize => ?_⟩
  intro blank m start count printed bytes
  have hm : m.toState = .loaded program :=
    congrArg Machine.toState (blank.machine_loadProgram hsize)
  -- Of the machine only its state matters from here on.
  clear_value m
  have hrun : run contents arguments =
      { code := 0, output := lines m.toState o program.length } := by
    rw [hm]
    exact run_eq hoptions hfile hsize
  have hprinted : printed = lines m.toState o program.length := congrArg Exit.output hrun
  have hbytes : bytes = (image program).drop start := by
    show (m.toState.memory.toList.take _).drop start = _
    rw [hm, take_memory hsize]
  refine ⟨⟨congrArg Exit.code hrun, congrArg Exit.complaint hrun, ?_⟩, ?_, fun hnone => ?_, ?_, ?_, ?_,
    fun hall => ?_, ?_⟩
  · rw [checkedLines_eq m o hsize, hprinted]
  · rw [hprinted, lines_text m.toState o hsize]
  · rw [hprinted, lines_eq m.toState o hsize, lineCount_eq_zero hsize hnone]
    rfl
  · rw [hprinted, map_shownAddress_lines m.toState o hsize]
  · rw [hprinted, map_shownWord_lines m.toState o hsize]
  · rw [hprinted, map_shownMnemonic_lines m.toState o hsize]
  · rw [hprinted, hbytes, hm, flatMap_shownWord_lines hsize hall]
  · have hfront : m.memory.toList.take 0x200 = (State.loaded program).memory.toList.take 0x200 := by
      rw [← hm]
    rw [hbytes, hfront, drop_image hsize]

end Disassembler

end Chip8
