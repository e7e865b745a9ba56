import Chip8.Machine.Cycle
import Chip8.Proofs.Numeral

/-!
# Mnemonics read back

The text of an instruction can be assembled again. To say so at its full reach, `Assembly` lets an
operand be any byte or word: a register number or a height above 15 takes two digits, and an address
above `0xFFF` four. A text is a name and operands with commas between them, so it is cut at its
blanks and commas (`splitOn_text`), and each operand tells by its first characters what it is
(`Operand.read_text`). The names are shared by many instructions, but a name and the kinds of its
operands belong to one (`ofParts?_eq`). So two statements with the same text are the same
(`text_inj`), unless the text is `NOP`, which all words outside the instruction set have.

Decoded instructions have the texts of their statements (`text_assembly`), and `mnemonic_determines`
says what that means for words and for their execution.
-/

namespace Chip8

/-- The hexadecimal digits of a number, and zeros in front if they are fewer than `width`. -/
def Hex.atLeast (width n : Nat) : List Char :=
  ((Nat.toDigits 16 n).map Char.toUpper).leftpad width '0'

/-- An instruction with operands of any size. -/
inductive Assembly where
  /-- Darkens the screen. -/
  | clear
  /-- Returns from a subroutine. -/
  | ret
  /-- Goes on at the address. -/
  | jump (target : UInt16)
  /-- Calls the subroutine at the address. -/
  | call (target : UInt16)
  /-- Skips if Vx is the byte. -/
  | skipEqualsByte (x byte : UInt8)
  /-- Skips if Vx is not the byte. -/
  | skipDiffersByte (x byte : UInt8)
  /-- Skips if Vx is Vy. -/
  | skipEquals (x y : UInt8)
  /-- Skips if Vx is not Vy. -/
  | skipDiffers (x y : UInt8)
  /-- Skips if the key that Vx names is pressed. -/
  | skipPressed (x : UInt8)
  /-- Skips if the key that Vx names is not pressed. -/
  | skipReleased (x : UInt8)
  /-- Vx becomes the byte. -/
  | setByte (x byte : UInt8)
  /-- Adds the byte to Vx. -/
  | addByte (x byte : UInt8)
  /-- Combines Vx and Vy into Vx. -/
  | combine (operator : Operator) (x y : UInt8)
  /-- Shifts Vx. -/
  | shift (direction : Direction) (x : UInt8)
  /-- I becomes the address. -/
  | setIndex (target : UInt16)
  /-- Goes on at V0 + the address. -/
  | jumpOffset (target : UInt16)
  /-- Vx becomes a random byte, masked. -/
  | random (x mask : UInt8)
  /-- Draws a sprite. -/
  | draw (x y height : UInt8)
  /-- Vx becomes the delay timer. -/
  | readDelay (x : UInt8)
  /-- Waits for a key. -/
  | awaitKey (x : UInt8)
  /-- The delay timer becomes Vx. -/
  | setDelay (x : UInt8)
  /-- The sound timer becomes Vx. -/
  | setSound (x : UInt8)
  /-- Adds Vx to I. -/
  | addIndex (x : UInt8)
  /-- I becomes the place of the glyph of Vx. -/
  | glyph (x : UInt8)
  /-- Writes the decimal digits of Vx. -/
  | decimal (x : UInt8)
  /-- Writes V0 to Vx. -/
  | store (x : UInt8)
  /-- Reads V0 to Vx. -/
  | load (x : UInt8)
  /-- A word outside the instruction set. -/
  | unsupported (word : UInt16)
  deriving DecidableEq

/-! ## Operands -/

/-- An operand that is neither a register nor a number. -/
inductive Place where
  /-- The index register. -/
  | index
  /-- The memory behind the index register. -/
  | memory
  /-- The delay timer. -/
  | delay
  /-- The sound timer. -/
  | sound
  /-- A key. -/
  | key
  /-- The glyph of a digit. -/
  | glyph
  /-- Decimal digits. -/
  | decimal
  deriving DecidableEq

/-- The text of a place. -/
def Place.text : Place → String
  | index => "I"
  | memory => "[I]"
  | delay => "DT"
  | sound => "ST"
  | key => "K"
  | glyph => "F"
  | decimal => "B"

/-- The place with a text. -/
def Place.ofText? : String → Option Place
  | "I" => some index
  | "[I]" => some memory
  | "DT" => some delay
  | "ST" => some sound
  | "K" => some key
  | "F" => some glyph
  | "B" => some decimal
  | _ => none

/-- An operand of a statement. -/
inductive Operand where
  /-- A register. -/
  | register (x : UInt8)
  /-- A number, which is written with at least `width` digits. -/
  | number (width n : Nat)
  /-- A place. -/
  | place (p : Place)
  deriving DecidableEq

namespace Operand

/-- The text of an operand. -/
def text : Operand → List Char
  | register x => 'V' :: Hex.atLeast 1 x.toNat
  | number width n => '0' :: 'x' :: Hex.atLeast width n
  | place p => p.text.toList

/-- The operand without the width of its number, which its text does not tell. -/
def plain : Operand → Operand
  | number _ n => number 0 n
  | operand => operand

/-- The operand with a text. -/
def read : List Char → Option Operand
  | 'V' :: digits => some (register (UInt8.ofNat (Numeral.value 16 0 digits)))
  | '0' :: 'x' :: digits => some (number 0 (Numeral.value 16 0 digits))
  | cs => (Place.ofText? (String.ofList cs)).map place

end Operand

/-! ## Statements -/

namespace Assembly

/-- The name of a statement and its operands. -/
def parts : Assembly → String × List Operand
  | clear => ("CLS", [])
  | ret => ("RET", [])
  | jump target => ("JP", [.number 3 target.toNat])
  | call target => ("CALL", [.number 3 target.toNat])
  | skipEqualsByte x byte => ("SE", [.register x, .number 2 byte.toNat])
  | skipDiffersByte x byte => ("SNE", [.register x, .number 2 byte.toNat])
  | skipEquals x y => ("SE", [.register x, .register y])
  | skipDiffers x y => ("SNE", [.register x, .register y])
  | skipPressed x => ("SKP", [.register x])
  | skipReleased x => ("SKNP", [.register x])
  | setByte x byte => ("LD", [.register x, .number 2 byte.toNat])
  | addByte x byte => ("ADD", [.register x, .number 2 byte.toNat])
  | combine operator x y => (operator.mnemonic, [.register x, .register y])
  | shift direction x => (direction.mnemonic, [.register x])
  | setIndex target => ("LD", [.place .index, .number 3 target.toNat])
  | jumpOffset target => ("JP", [.register 0, .number 3 target.toNat])
  | random x mask => ("RND", [.register x, .number 2 mask.toNat])
  | draw x y height => ("DRW", [.register x, .register y, .number 1 height.toNat])
  | readDelay x => ("LD", [.register x, .place .delay])
  | awaitKey x => ("LD", [.register x, .place .key])
  | setDelay x => ("LD", [.place .delay, .register x])
  | setSound x => ("LD", [.place .sound, .register x])
  | addIndex x => ("ADD", [.place .index, .register x])
  | glyph x => ("LD", [.place .glyph, .register x])
  | decimal x => ("LD", [.place .decimal, .register x])
  | store x => ("LD", [.place .memory, .register x])
  | load x => ("LD", [.register x, .place .memory])
  | unsupported _ => ("NOP", [])

/-- The statement of a name and operands, found by the kinds of the operands first. -/
def ofParts? (name : String) : List Operand → Option Assembly
  | [] =>
    match name with
    | "CLS" => some clear
    | "RET" => some ret
    | _ => none
  | [.number _ target] =>
    match name with
    | "JP" => some (jump (.ofNat target))
    | "CALL" => some (call (.ofNat target))
    | _ => none
  | [.register x] =>
    match name with
    | "SKP" => some (skipPressed x)
    | "SKNP" => some (skipReleased x)
    | "SHL" => some (shift .left x)
    | "SHR" => some (shift .right x)
    | _ => none
  | [.register x, .number _ n] =>
    match name with
    | "SE" => some (skipEqualsByte x (.ofNat n))
    | "SNE" => some (skipDiffersByte x (.ofNat n))
    | "LD" => some (setByte x (.ofNat n))
    | "ADD" => some (addByte x (.ofNat n))
    | "RND" => some (random x (.ofNat n))
    | "JP" => some (jumpOffset (.ofNat n))
    | _ => none
  | [.register x, .register y] =>
    match name with
    | "SE" => some (skipEquals x y)
    | "SNE" => some (skipDiffers x y)
    | "LD" => some (combine .assign x y)
    | "OR" => some (combine .or x y)
    | "AND" => some (combine .and x y)
    | "XOR" => some (combine .xor x y)
    | "ADD" => some (combine .add x y)
    | "SUB" => some (combine .subtract x y)
    | "SUBN" => some (combine .subtractFrom x y)
    | _ => none
  | [.register x, .register y, .number _ height] =>
    match name with
    | "DRW" => some (draw x y (.ofNat height))
    | _ => none
  | [.register x, .place p] =>
    match name, p with
    | "LD", .delay => some (readDelay x)
    | "LD", .key => some (awaitKey x)
    | "LD", .memory => some (load x)
    | _, _ => none
  | [.place p, .register x] =>
    match name, p with
    | "LD", .delay => some (setDelay x)
    | "LD", .sound => some (setSound x)
    | "LD", .glyph => some (glyph x)
    | "LD", .decimal => some (decimal x)
    | "LD", .memory => some (store x)
    | "ADD", .index => some (addIndex x)
    | _, _ => none
  | [.place .index, .number _ target] =>
    match name with
    | "LD" => some (setIndex (.ofNat target))
    | _ => none
  | _ => none

/-- Puts a comma behind every text but the last. -/
def commas : List (List Char) → List (List Char)
  | [] => []
  | [last] => [last]
  | first :: second :: rest => (first ++ [',']) :: commas (second :: rest)

/-- The words of a statement, which stand between its blanks. -/
def words (a : Assembly) : List (List Char) :=
  a.parts.1.toList :: commas (a.parts.2.map Operand.text)

/-- The text of a statement: its name, and its operands with commas between them. -/
def text (a : Assembly) : String := String.ofList ([' '].intercalate a.words)

/-- The statement with a text. -/
def read (text : String) : Option Assembly :=
  match text.toList.splitOn ' ' with
  | [] => none
  | name :: operands => do
    ofParts? (String.ofList name) (← operands.mapM fun w => Operand.read (w.takeWhile (· != ',')))

/-- The statement is a word outside the instruction set. -/
def IsNop (a : Assembly) : Prop := ∃ word, a = unsupported word

/-- A name and the kinds of the operands belong to one statement. -/
theorem ofParts?_eq {a : Assembly} (h : ¬ a.IsNop) :
    ofParts? a.parts.1 (a.parts.2.map Operand.plain) = some a := by
  -- A number comes back as the byte or word that it was.
  have hbyte (f : UInt8 → Assembly) (b : UInt8) : some (f (.ofNat b.toNat)) = some (f b) := by
    rw [UInt8.ofNat_toNat]
  have hword (f : UInt16 → Assembly) (w : UInt16) : some (f (.ofNat w.toNat)) = some (f w) := by
    rw [UInt16.ofNat_toNat]
  cases a with
  | unsupported word => exact absurd ⟨word, rfl⟩ h
  | combine operator x y => cases operator <;> rfl
  | shift direction x => cases direction <;> rfl
  | jump target => exact hword jump target
  | call target => exact hword call target
  | setIndex target => exact hword setIndex target
  | jumpOffset target => exact hword jumpOffset target
  | skipEqualsByte x byte => exact hbyte (skipEqualsByte x) byte
  | skipDiffersByte x byte => exact hbyte (skipDiffersByte x) byte
  | setByte x byte => exact hbyte (setByte x) byte
  | addByte x byte => exact hbyte (addByte x) byte
  | random x mask => exact hbyte (random x) mask
  | draw x y height => exact hbyte (draw x y) height
  | _ => rfl

end Assembly

/-! ## Digits of a least width -/

namespace Hex

open Numeral

/-- All digits that are written stand for the number. -/
theorem value_atLeast (width n : Nat) : value 16 0 (atLeast width n) = n := by
  rw [atLeast, List.leftpad, value_replicate_zero (by decide), value_upper (by decide) (by decide)]

/-- All characters that are written are digits. -/
theorem isSome_of_mem_atLeast {width n : Nat} {c : Char} (h : c ∈ atLeast width n) :
    (digit? 16 c).isSome := by
  rcases List.mem_append.1 h with hzero | hdigit
  · rw [List.eq_of_mem_replicate hzero]
    rfl
  · obtain ⟨d, hd, rfl⟩ := List.mem_map.1 hdigit
    obtain ⟨hsome, hupper⟩ := digit?_of_mem_toDigits (by decide) (by decide) hd
    rwa [hupper]

/-- A digit that is appended takes one place of the width. -/
theorem leftpad_concat (width : Nat) (cs : List Char) (c : Char) :
    (cs ++ [c]).leftpad (width + 1) '0' = cs.leftpad width '0' ++ [c] := by
  rw [List.leftpad, List.leftpad, List.length_append, List.length_singleton, Nat.add_sub_add_right,
    List.append_assoc]

/-- Where the width is enough for the number, exactly so many digits are written. -/
theorem atLeast_eq_digits {width n : Nat} (h : n < 16 ^ (width + 1)) :
    atLeast (width + 1) n = digits (width + 1) n := by
  induction width generalizing n with
  | zero =>
    have hlt : n < 16 := h
    have hlast := toUpper_digitChar (Fin.ofNat 16 n)
    rw [Fin.val_ofNat, Nat.mod_eq_of_lt hlt] at hlast
    rw [atLeast, Nat.toDigits_of_lt_base hlt, List.map_singleton, hlast]
    rfl
  | succ width ih =>
    have hlast := toUpper_digitChar (Fin.ofNat 16 n)
    rw [Fin.val_ofNat] at hlast
    rw [digits]
    by_cases hlt : n < 16
    · rw [Nat.mod_eq_of_lt hlt] at hlast
      have hpad : ([] : List Char).leftpad (width + 1) '0' = List.replicate (width + 1) '0' :=
        List.append_nil _
      rw [atLeast, Nat.toDigits_of_lt_base hlt, List.map_singleton, hlast,
        Nat.div_eq_of_lt hlt, digits_zero, ← hpad]
      exact leftpad_concat (width + 1) [] _
    · have hfront : n / 16 < 16 ^ (width + 1) :=
        Nat.div_lt_of_lt_mul (by rwa [Nat.mul_comm, ← Nat.pow_succ])
      rw [atLeast, Nat.toDigits_of_base_le (by decide) (Nat.le_of_not_lt hlt), List.map_append,
        List.map_singleton, hlast, leftpad_concat, ← ih hfront]
      rfl

end Hex

/-! ## Reading operands -/

namespace Operand

/-- An operand is read back from its text, without the width of its number. -/
theorem read_text (o : Operand) : read o.text = some o.plain := by
  cases o with
  | register x =>
    show some (register (.ofNat (Numeral.value 16 0 (Hex.atLeast 1 x.toNat)))) = _
    rw [Hex.value_atLeast, UInt8.ofNat_toNat]
    rfl
  | number width n =>
    show some (number 0 (Numeral.value 16 0 (Hex.atLeast width n))) = _
    rw [Hex.value_atLeast]
    rfl
  | place p => cases p <;> rfl

/-- There is no blank and no comma in the text of an operand. -/
theorem ne_of_mem_text {o : Operand} {c : Char} (h : c ∈ o.text) : c ≠ ' ' ∧ c ≠ ',' := by
  have hdigits {width n : Nat} (h : c ∈ Hex.atLeast width n) : c ≠ ' ' ∧ c ≠ ',' := by
    have hsome := Hex.isSome_of_mem_atLeast h
    constructor <;> rintro rfl <;> exact nomatch hsome
  cases o with
  | register x =>
    rcases List.mem_cons.1 h with rfl | h
    · decide
    · exact hdigits h
  | number width n =>
    rcases List.mem_cons.1 h with rfl | h
    · decide
    rcases List.mem_cons.1 h with rfl | h
    · decide
    · exact hdigits h
  | place p =>
    have hplace : ∀ c ∈ p.text.toList, c ≠ ' ' ∧ c ≠ ',' := by cases p <;> simp [Place.text]
    exact hplace c h

end Operand

/-! ## Reading statements -/

namespace Assembly

/-- There is no blank in the name of a statement. -/
theorem not_mem_name (a : Assembly) : ' ' ∉ a.parts.1.toList := by
  cases a with
  | combine operator x y =>
    show ' ' ∉ operator.mnemonic.toList
    cases operator <;> decide
  | shift direction x =>
    show ' ' ∉ direction.mnemonic.toList
    cases direction <;> decide
  | _ => simp [parts]

/-- Texts without a comma are found in front of their commas. -/
theorem map_takeWhile_commas {ws : List (List Char)} (h : ∀ w ∈ ws, ∀ c ∈ w, c ≠ ',') :
    (commas ws).map (·.takeWhile (· != ',')) = ws := by
  have hall {w : List Char} (hw : w ∈ ws) : ∀ c ∈ w, (c != ',') = true :=
    fun c hc => bne_iff_ne.2 (h w hw c hc)
  fun_induction commas ws with
  | case1 => rfl
  | case2 last =>
    have hlast := hall List.mem_cons_self
    rw [List.map_singleton, ← List.append_nil last, List.takeWhile_append_of_pos hlast]
    rfl
  | case3 first second rest ih =>
    have hfirst := hall List.mem_cons_self
    have hrest := fun w hw => h w (List.mem_cons_of_mem _ hw)
    rw [List.map_cons, ih hrest fun hw => hall (List.mem_cons_of_mem _ hw),
      List.takeWhile_append_of_pos hfirst]
    simp

/-- A comma brings no blank. -/
theorem not_mem_of_mem_commas {ws : List (List Char)} (h : ∀ w ∈ ws, ' ' ∉ w) :
    ∀ w ∈ commas ws, ' ' ∉ w := by
  fun_induction commas ws with
  | case1 => exact h
  | case2 last => exact h
  | case3 first second rest ih =>
    refine List.forall_mem_cons.2 ⟨fun hmem => ?_, ih fun w hw => h w (List.mem_cons_of_mem _ hw)⟩
    rcases List.mem_append.1 hmem with hfirst | hcomma
    · exact h first List.mem_cons_self hfirst
    · exact absurd hcomma (by decide)

/-- Operands are read back from their texts. -/
theorem mapM_read (os : List Operand) :
    (os.map Operand.text).mapM Operand.read = some (os.map Operand.plain) := by
  induction os with
  | nil => rfl
  | cons o os ih => simp [Operand.read_text, ih]

/-- A text is cut into its words at its blanks. -/
theorem splitOn_text (a : Assembly) : a.text.toList.splitOn ' ' = a.words := by
  have hoperands : ∀ w ∈ a.parts.2.map Operand.text, ' ' ∉ w := by
    intro w hw hmem
    obtain ⟨o, -, rfl⟩ := List.mem_map.1 hw
    exact (Operand.ne_of_mem_text hmem).1 rfl
  -- Neither a name nor an operand holds a blank, so all blanks stand between words.
  rw [text, String.toList_ofList]
  refine List.splitOn_intercalate ' ' ?_ (List.cons_ne_nil _ _)
  exact List.forall_mem_cons.2 ⟨a.not_mem_name, not_mem_of_mem_commas hoperands⟩

/-- What is read from the text of a statement is what its name and the kinds of its operands tell.
-/
theorem read_text (a : Assembly) :
    read a.text = ofParts? a.parts.1 (a.parts.2.map Operand.plain) := by
  have hcommas : ∀ w ∈ a.parts.2.map Operand.text, ∀ c ∈ w, c ≠ ',' := by
    intro w hw c hc
    obtain ⟨o, -, rfl⟩ := List.mem_map.1 hw
    exact (Operand.ne_of_mem_text hc).2
  have hoperands : (commas (a.parts.2.map Operand.text)).mapM
      (fun w => Operand.read (w.takeWhile (· != ','))) = some (a.parts.2.map Operand.plain) := by
    have hread := mapM_read a.parts.2
    rwa [← map_takeWhile_commas hcommas, List.mapM_map] at hread
  rw [read, splitOn_text, words]
  simp only [hoperands, String.ofList_toList]
  rfl

/-- No statement is read from the text of a word outside the instruction set. -/
theorem read_text_of_isNop {a : Assembly} (h : a.IsNop) : read a.text = none := by
  obtain ⟨word, rfl⟩ := h
  rw [read_text]
  rfl

/-- Two statements with the same text are the same, or both are words outside the instruction set.
-/
theorem text_inj {a b : Assembly} (h : a.text = b.text) : a = b ∨ a.IsNop ∧ b.IsNop := by
  -- What is read tells the statement, and nothing is read from the text that many words share.
  have hread : read a.text = read b.text := congrArg read h
  by_cases ha : a.IsNop <;> by_cases hb : b.IsNop
  · exact .inr ⟨ha, hb⟩
  · rw [read_text_of_isNop ha, read_text b, ofParts?_eq hb] at hread
    exact nomatch hread
  · rw [read_text_of_isNop hb, read_text a, ofParts?_eq ha] at hread
    exact nomatch hread
  · rw [read_text a, read_text b, ofParts?_eq ha, ofParts?_eq hb] at hread
    exact .inl (Option.some.inj hread)

end Assembly

/-! ## Decoded instructions -/

/-- The statement of a skip. -/
def Condition.assembly : Condition → Assembly
  | equalsByte x byte => .skipEqualsByte (.ofNat x.val) byte
  | differsByte x byte => .skipDiffersByte (.ofNat x.val) byte
  | equals x y => .skipEquals (.ofNat x.val) (.ofNat y.val)
  | differs x y => .skipDiffers (.ofNat x.val) (.ofNat y.val)
  | pressed x => .skipPressed (.ofNat x.val)
  | released x => .skipReleased (.ofNat x.val)

namespace Instruction

/-- The statement of an instruction. -/
def assembly : Instruction → Assembly
  | clear => .clear
  | ret => .ret
  | jump target => .jump (.ofNat target.val)
  | call target => .call (.ofNat target.val)
  | skip condition => condition.assembly
  | setByte x byte => .setByte (.ofNat x.val) byte
  | addByte x byte => .addByte (.ofNat x.val) byte
  | combine operator x y => .combine operator (.ofNat x.val) (.ofNat y.val)
  | shift direction x => .shift direction (.ofNat x.val)
  | setIndex target => .setIndex (.ofNat target.val)
  | jumpOffset target => .jumpOffset (.ofNat target.val)
  | random x mask => .random (.ofNat x.val) mask
  | draw x y height => .draw (.ofNat x.val) (.ofNat y.val) (.ofNat height.val)
  | readDelay x => .readDelay (.ofNat x.val)
  | awaitKey x => .awaitKey (.ofNat x.val)
  | setDelay x => .setDelay (.ofNat x.val)
  | setSound x => .setSound (.ofNat x.val)
  | addIndex x => .addIndex (.ofNat x.val)
  | glyph x => .glyph (.ofNat x.val)
  | decimal x => .decimal (.ofNat x.val)
  | store x => .store (.ofNat x.val)
  | load x => .load (.ofNat x.val)
  | unsupported word => .unsupported word

end Instruction

namespace Assembly

/-- The instruction whose operands are the low digits of those of a statement. -/
def narrow : Assembly → Instruction
  | clear => .clear
  | ret => .ret
  | jump target => .jump (.ofNat _ target.toNat)
  | call target => .call (.ofNat _ target.toNat)
  | skipEqualsByte x byte => .skip (.equalsByte (.ofNat _ x.toNat) byte)
  | skipDiffersByte x byte => .skip (.differsByte (.ofNat _ x.toNat) byte)
  | skipEquals x y => .skip (.equals (.ofNat _ x.toNat) (.ofNat _ y.toNat))
  | skipDiffers x y => .skip (.differs (.ofNat _ x.toNat) (.ofNat _ y.toNat))
  | skipPressed x => .skip (.pressed (.ofNat _ x.toNat))
  | skipReleased x => .skip (.released (.ofNat _ x.toNat))
  | setByte x byte => .setByte (.ofNat _ x.toNat) byte
  | addByte x byte => .addByte (.ofNat _ x.toNat) byte
  | combine operator x y => .combine operator (.ofNat _ x.toNat) (.ofNat _ y.toNat)
  | shift direction x => .shift direction (.ofNat _ x.toNat)
  | setIndex target => .setIndex (.ofNat _ target.toNat)
  | jumpOffset target => .jumpOffset (.ofNat _ target.toNat)
  | random x mask => .random (.ofNat _ x.toNat) mask
  | draw x y height => .draw (.ofNat _ x.toNat) (.ofNat _ y.toNat) (.ofNat _ height.toNat)
  | readDelay x => .readDelay (.ofNat _ x.toNat)
  | awaitKey x => .awaitKey (.ofNat _ x.toNat)
  | setDelay x => .setDelay (.ofNat _ x.toNat)
  | setSound x => .setSound (.ofNat _ x.toNat)
  | addIndex x => .addIndex (.ofNat _ x.toNat)
  | glyph x => .glyph (.ofNat _ x.toNat)
  | decimal x => .decimal (.ofNat _ x.toNat)
  | store x => .store (.ofNat _ x.toNat)
  | load x => .load (.ofNat _ x.toNat)
  | unsupported word => .unsupported word

end Assembly

namespace Operand

/-- The digit of a nibble that is kept in a byte. -/
theorem atLeast_nibble (x : Fin 16) :
    Hex.atLeast 1 (UInt8.ofNat x.val).toNat = Hex.digits 1 x.val := by
  rw [UInt8.toNat_ofNat_of_lt' (Nat.lt_trans x.isLt (by decide)), Hex.atLeast_eq_digits x.isLt]

@[simp] theorem text_register (x : Register) :
    (register (.ofNat x.val)).text = (Register.text x).toList := by
  rw [text, atLeast_nibble]
  simp [Register.text, Hex.text]

@[simp] theorem text_register_zero : (register 0).text = ['V', '0'] := rfl

@[simp] theorem text_nibble (n : Fin 16) :
    (number 1 (UInt8.ofNat n.val).toNat).text = '0' :: 'x' :: (Hex.text 1 n.val).toList := by
  rw [text, atLeast_nibble, Hex.text, String.toList_ofList]

@[simp] theorem text_byte (byte : UInt8) :
    (number 2 byte.toNat).text = (byteOperand byte).toList := by
  rw [text, Hex.atLeast_eq_digits byte.toNat_lt]
  simp [byteOperand, Hex.text]

@[simp] theorem text_address (target : Address) :
    (number 3 (UInt16.ofNat target.val).toNat).text = (addressOperand target).toList := by
  rw [text, toNat_word (Nat.lt_trans target.isLt (by decide)), Hex.atLeast_eq_digits target.isLt]
  simp [addressOperand, Hex.text]

@[simp] theorem text_place (p : Place) : (place p).text = p.text.toList := rfl

end Operand

namespace Instruction

/-- The operands of an instruction are small enough to be kept in its statement. -/
theorem narrow_assembly (i : Instruction) : i.assembly.narrow = i := by
  -- A byte holds a nibble and a word holds an address, so the remainders change nothing.
  have hnibble (x : Fin 16) : Fin.ofNat 16 (UInt8.ofNat x.val).toNat = x := by
    revert x
    decide
  have haddress (target : Address) :
      Fin.ofNat 4096 (UInt16.ofNat target.val).toNat = target := by
    rw [toNat_word (Nat.lt_trans target.isLt (by decide))]
    exact Fin.ofNat_val_eq_self target
  cases i with
  | skip condition =>
    cases condition <;> simp only [assembly, Condition.assembly, Assembly.narrow, hnibble]
  | _ => simp only [assembly, Assembly.narrow, hnibble, haddress]

/-- The text of an instruction is that of its statement. -/
theorem text_assembly (i : Instruction) : i.assembly.text = i.mnemonic := by
  rw [← String.toList_inj, Assembly.text, String.toList_ofList]
  cases i with
  | skip condition =>
    cases condition <;>
      simp [assembly, Condition.assembly, Assembly.words, Assembly.parts, Assembly.commas, mnemonic,
        Condition.mnemonic]
  | _ =>
    simp [assembly, Assembly.words, Assembly.parts, Assembly.commas, mnemonic, Place.text,
      -UInt8.toNat_ofNat', -UInt16.toNat_ofNat']

/-- Only the words outside the instruction set have their statement. -/
theorem isNop_assembly {i : Instruction} (h : i.assembly.IsNop) : ∃ word, i = unsupported word := by
  obtain ⟨word, hword⟩ := h
  exact ⟨word, by rw [← i.narrow_assembly, hword]; rfl⟩

/-- Two instructions with the same text are the same, or both are words outside the instruction
set. -/
theorem mnemonic_inj {i j : Instruction} (h : i.mnemonic = j.mnemonic) :
    i = j ∨ (∃ word, i = unsupported word) ∧ ∃ word, j = unsupported word := by
  rw [← i.text_assembly, ← j.text_assembly] at h
  rcases Assembly.text_inj h with heq | ⟨hi, hj⟩
  · exact .inl (by rw [← i.narrow_assembly, heq, j.narrow_assembly])
  · exact .inr ⟨isNop_assembly hi, isNop_assembly hj⟩

end Instruction

namespace Machine

variable {κ : Type} [Keypad κ]

/-- A statement is determined by its text, whatever bytes and words its operands are, except that
all words outside the instruction set have one text. The text of an instruction is that of its
statement, so an instruction is determined by its text with the same exception. Two words that are
disassembled to the same text lead every machine to the same machine, and a word that is
disassembled to `NOP` changes nothing of a machine but the program counter, which moves by two. -/
theorem mnemonic_determines :
    (∀ a b : Assembly, a.text = b.text → a = b ∨ a.IsNop ∧ b.IsNop) ∧
      (∀ i : Instruction, i.assembly.text = i.mnemonic) ∧
      (∀ i j : Instruction, i.mnemonic = j.mnemonic →
        i = j ∨ (∃ word, i = .unsupported word) ∧ ∃ word, j = .unsupported word) ∧
      (∀ (m : Machine κ) (word word' : UInt16),
        (Instruction.ofWord word).mnemonic = (Instruction.ofWord word').mnemonic →
          (m.execute (.ofWord word)).machine = (m.execute (.ofWord word')).machine) ∧
      ∀ (m : Machine κ) (word : UInt16), (Instruction.ofWord word).mnemonic = "NOP" →
        (m.execute (.ofWord word)).machine = { m with pc := m.pc + 2 } := by
  refine ⟨fun a b => Assembly.text_inj, Instruction.text_assembly,
    fun i j => Instruction.mnemonic_inj, fun m word word' h => ?_, fun m word h => ?_⟩
  · rcases Instruction.mnemonic_inj h with heq | ⟨⟨w, hw⟩, w', hw'⟩
    · rw [heq]
    · -- Words outside the instruction set are passed over alike.
      rw [hw, hw']
      rfl
  · have hnop : (Instruction.ofWord word).mnemonic = (Instruction.unsupported word).mnemonic := h
    rcases Instruction.mnemonic_inj hnop with heq | ⟨⟨w, hw⟩, -⟩
    · rw [heq]
      rfl
    · rw [hw]
      rfl

end Machine

end Chip8
