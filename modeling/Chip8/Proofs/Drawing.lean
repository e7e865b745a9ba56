import Mathlib.Data.List.Perm.Basic
import Chip8.Proofs.Footprint
import Chip8.Proofs.Sprite

/-!
# Sprites on the screen

A drawing toggles the pixels it covers, each of them once, so the screen after a drawing is known pixel by
pixel: a place on the screen lies so many columns and rows behind the corner of the sprite, around the
edges, and the bit there says whether its pixel is toggled (`Drawing.mem_cover_iff`). `draw_pixelwise` tells
all that a draw does.

Several drawings together toggle a pixel just when an odd number of them covers it. `Drawn` says how one
screen comes of another by drawings, each of them carried out by any machine that has the screen and the
memory, and `Drawn.get_eq` is that law. Whether a number is odd depends neither on an order nor on pairs, so
drawings can be put in any order, and two equal ones cancel each other (`drawn_unordered`).
-/

namespace Chip8

/-! ## Places behind the corner of a sprite -/

/-- How many places one lies behind another, around the edge after the last of `size` places. -/
def behind (size start place : Nat) : Nat := (((place : Int) - start) % size).toNat

/-- A place is so many places behind the start as lead to it. -/
theorem behind_eq_iff {size start place k : Nat} (hk : k < size) (hplace : place < size) :
    behind size start place = k ↔ (start + k) % size = place := by
  have hk' : (k : Int) % size = k := Int.emod_eq_of_lt (by omega) (by omega)
  have hplace' : (place : Int) % size = place := Int.emod_eq_of_lt (by omega) (by omega)
  have hnn : 0 ≤ ((place : Int) - start) % size := Int.emod_nonneg _ (by omega)
  constructor
  · intro h
    have hz : ((place : Int) - start) % size = k := by
      rw [behind] at h
      omega
    apply Int.ofNat_inj.1
    calc (((start + k) % size : Nat) : Int) = (start + (place - start) % size) % size := by
          rw [hz, Int.natCast_emod, Int.natCast_add]
      _ = (start + (place - start)) % size := Int.add_emod_emod _ _ _
      _ = place := by rw [Int.add_comm, Int.sub_add_cancel, hplace']
  · intro h
    have hz : ((place : Int) - start) % size = k := by
      have hsub : (start : Int) + k - start = k := by omega
      rw [← h, Int.natCast_emod, Int.natCast_add, Int.emod_sub_emod, hsub, hk']
    rw [behind, hz]
    rfl

/-- A pixel by its column and its row. -/
theorem eq_pixelAt_iff (p : Fin pixelCount) (column row : Nat) :
    p = pixelAt column row ↔ column % 64 = p.val % 64 ∧ row % 32 = p.val / 64 := by
  have hp := p.isLt
  rw [Fin.ext_iff]
  simp only [pixelAt, screenWidth, screenHeight, pixelCount] at *
  omega

/-! ## Drawings -/

/-- A sprite to be drawn. -/
structure Drawing where
  /-- The column of its left edge. -/
  x : UInt8
  /-- The row of its top edge. -/
  y : UInt8
  /-- Where its rows are in memory. -/
  index : UInt16
  /-- The number of its rows. -/
  height : Fin 16
  deriving DecidableEq

namespace Drawing

variable (memory : Memory) (d : Drawing)

/-- The pixels that a drawing toggles. -/
def cover : List (Fin pixelCount) :=
  Sprite.cover d.x.toNat d.y.toNat (memory.read d.index d.height.val)

/-- Whether a drawing has a set bit on a column and a row of the screen. The bit is found so many columns and
rows behind the corner as these lie, if that is on the sprite. -/
def bit (column row : Nat) : Bool :=
  let k := behind 64 d.x.toNat column
  let r := behind 32 d.y.toNat row
  r < d.height.val && k < 8 &&
    (memory.get (Fin.ofNat memorySize (d.index.toNat + r))).toNat.testBit (7 - k)

/-- Whether a drawing has a set bit on a pixel. -/
def covers (p : Fin pixelCount) : Bool := d.bit memory (p.val % 64) (p.val / 64)

/-- No pixel is toggled twice. -/
theorem cover_nodup : (d.cover memory).Nodup := by
  have hheight := d.height.isLt
  refine Sprite.cover_nodup _ _ _ ?_
  simp only [Memory.read, List.length_map, List.length_range, screenHeight]
  omega

/-- A drawing covers the pixels on which it has a set bit. -/
theorem mem_cover_iff (p : Fin pixelCount) : p ∈ d.cover memory ↔ d.covers memory p := by
  have hp : p.val < 2048 := p.isLt
  have hheight := d.height.isLt
  have hcolumn : p.val % 64 < 64 := Nat.mod_lt _ (by decide)
  have hrow : p.val / 64 < 32 := by omega
  have hcell : ∀ r, Memory.cell d.index r = Fin.ofNat memorySize (d.index.toNat + r) :=
    fun r => Fin.ext (Memory.cell_val d.index r)
  have hread : ∀ r byte, (memory.read d.index d.height.val)[r]? = some byte ↔
      r < d.height.val ∧ memory.get (Fin.ofNat memorySize (d.index.toNat + r)) = byte := by
    intro r byte
    rw [← hcell]
    simp [Memory.read, List.getElem?_eq_some_iff, Vector.get]
  simp only [cover, Sprite.mem_cover_iff, hread, covers, bit, Bool.and_eq_true, decide_eq_true_eq]
  constructor
  · rintro ⟨r, byte, ⟨hr, rfl⟩, k, hk, hbit, hplace⟩
    -- The row and the column of the bit are those that lead to the pixel, and there are no others.
    obtain ⟨hc, hw⟩ := (eq_pixelAt_iff p _ _).1 hplace
    rw [(behind_eq_iff (by omega) hcolumn).2 hc, (behind_eq_iff (by omega) hrow).2 hw]
    exact ⟨⟨hr, hk⟩, hbit⟩
  · rintro ⟨⟨hr, hk⟩, hbit⟩
    have hc := (behind_eq_iff (by omega) hcolumn).1 (rfl : behind 64 d.x.toNat (p.val % 64) = _)
    have hw := (behind_eq_iff (by omega) hrow).1 (rfl : behind 32 d.y.toNat (p.val / 64) = _)
    exact ⟨_, _, ⟨hr, rfl⟩, _, hk, hbit, (eq_pixelAt_iff p _ _).2 ⟨hc, hw⟩⟩

end Drawing

/-! ## Toggling -/

namespace Pixels

/-- Toggling a pixel changes it, and no other. -/
theorem get_toggle (pixels : Pixels) (p q : Fin pixelCount) :
    (pixels.toggle p).get q = pixels.get q ^^^ (if p = q then 1 else 0) := by
  by_cases h : p = q
  · subst h
    rw [if_pos rfl]
    exact Vector.getElem_set_self p.isLt
  · rw [if_neg h, UInt8.xor_zero]
    exact Vector.getElem_set_ne p.isLt q.isLt fun hval => h (Fin.ext hval)

/-- Of distinct pixels that are toggled, each is changed, and no other pixel is. -/
theorem get_toggleAll (pixels : Pixels) {ps : List (Fin pixelCount)} (h : ps.Nodup) (q : Fin pixelCount)
    [inst : Decidable (q ∈ ps)] :
    (pixels.toggleAll ps).get q = pixels.get q ^^^ (if q ∈ ps then 1 else 0) := by
  induction ps generalizing pixels inst with
  | nil =>
    rw [if_neg List.not_mem_nil, UInt8.xor_zero]
    rfl
  | cons p ps ih =>
    obtain ⟨hp, hps⟩ := List.nodup_cons.1 h
    have hfirst : pixels.toggleAll (p :: ps) = (pixels.toggle p).toggleAll ps := rfl
    rw [hfirst, ih _ hps, get_toggle, UInt8.xor_assoc]
    congr 1
    by_cases hq : p = q
    · -- The first pixel does not come again.
      subst hq
      rw [if_pos rfl, if_neg hp, if_pos List.mem_cons_self]
      rfl
    · rw [if_neg hq, UInt8.zero_xor]
      exact if_congr (by simp [Ne.symm hq]) rfl rfl

/-- Whether one of the pixels is lit. -/
theorem anyLit_iff (pixels : Pixels) (ps : List (Fin pixelCount)) :
    pixels.anyLit ps = true ↔ ∃ p ∈ ps, pixels.get p = 1 := by
  simp only [anyLit, List.any_eq_true, beq_iff_eq]
  rfl

end Pixels

/-! ## One draw -/

namespace Machine

variable {κ : Type}

/-- What a machine draws with its registers and its index. -/
def drawing (m : Machine κ) (x y : Register) (height : Fin 16) : Drawing :=
  ⟨m.reg x, m.reg y, m.index, height⟩

variable [Keypad κ]

/-- A draw toggles what the drawing covers, and VF says whether some of it was lit. -/
theorem machine_execute_draw (m : Machine κ) (x y : Register) (height : Fin 16) :
    (m.execute (.draw x y height)).machine =
      { m with
        pixels := m.pixels.toggleAll ((m.drawing x y height).cover m.memory)
        registers := m.registers.set 15
          (if m.pixels.anyLit ((m.drawing x y height).cover m.memory) then 1 else 0)
        redraw := true
        pc := m.pc + 2 } :=
  rfl

/-- A draw toggles a pixel just when the drawing has a bit there. -/
theorem get_pixels_draw (m : Machine κ) (x y : Register) (height : Fin 16) (p : Fin pixelCount) :
    (m.execute (.draw x y height)).machine.pixels.get p =
      m.pixels.get p ^^^ (if (m.drawing x y height).covers m.memory p then 1 else 0) := by
  rw [machine_execute_draw, Pixels.get_toggleAll _ (Drawing.cover_nodup _ _)]
  exact congrArg _ (if_congr (Drawing.mem_cover_iff _ _ _) rfl rfl)

/-- The flag of a draw says whether some pixel that it covers was lit. -/
theorem flag_draw (m : Machine κ) (x y : Register) (height : Fin 16) :
    (m.execute (.draw x y height)).machine.reg 15 =
      if m.pixels.anyLit ((m.drawing x y height).cover m.memory) then 1 else 0 := by
  rw [machine_execute_draw]
  exact Vector.getElem_set_self (Fin.isLt 15)

/-- All that a draw does, whatever the two registers, the index and the height are. A pixel is toggled just
when the drawing has a bit there, and VF becomes 1 if some pixel with a bit was lit before, and 0 otherwise.
The screen is marked, the program counter moves past the instruction, and nothing else changes. The same
comes of toggling the pixels one by one and taking note of every lit one that is turned off. A cycle that
executes such a word does no more. -/
theorem draw_pixelwise (m : Machine κ) (x y : Register) (height : Fin 16) :
    let m' := (m.execute (.draw x y height)).machine
    let d := m.drawing x y height
    (∀ p, m'.pixels.get p = m.pixels.get p ^^^ (if d.covers m.memory p then 1 else 0)) ∧
      m'.reg 15 = (if ∃ p, d.covers m.memory p ∧ m.pixels.get p = 1 then 1 else 0) ∧
      (∀ r, r ≠ 15 → m'.reg r = m.reg r) ∧
      (m'.redraw = true ∧ m'.pc = m.pc + 2) ∧
      m' = { m with pixels := m'.pixels, registers := m'.registers, redraw := m'.redraw, pc := m'.pc } ∧
      (d.cover m.memory).foldl Pixels.plot (m.pixels, false) = (m'.pixels, m'.reg 15 == 1) ∧
      (m.executes .draw → Opcode.x (m.fetch m.pc) = x → Opcode.y (m.fetch m.pc) = y →
        Opcode.n (m.fetch m.pc) = height → m.cycle.machine = m') := by
  intro m' d
  have hflag : m'.reg 15 = if m.pixels.anyLit (d.cover m.memory) then 1 else 0 := m.flag_draw x y height
  refine ⟨m.get_pixels_draw x y height, ?_, fun r hr => ?_, ⟨rfl, rfl⟩, rfl, ?_, fun hdraw hx hy hn => ?_⟩
  · have hlit : m.pixels.anyLit (d.cover m.memory) = true ↔
        ∃ p, d.covers m.memory p ∧ m.pixels.get p = 1 := by
      simp only [Pixels.anyLit_iff, d.mem_cover_iff]
    rw [hflag]
    exact if_congr hlit rfl rfl
  · exact Vector.getElem_set_ne (Fin.isLt 15) r.isLt fun hval => hr (Fin.ext hval.symm)
  · rw [Pixels.foldl_plot _ _ (d.cover_nodup m.memory), hflag, Bool.false_or]
    cases m.pixels.anyLit (d.cover m.memory) <;> rfl
  · rw [cycle_of_executes hdraw]
    simp only [Pattern.instruction, hx, hy, hn, m']

/-! ## Several draws -/

/-- By drawings one after another, one screen becomes another. Each is drawn by any machine that has the
memory, the screen, and what the drawing asks for in two of its registers and its index. -/
inductive Drawn (κ : Type) [Keypad κ] (memory : Memory) : Pixels → List Drawing → Pixels → Prop where
  /-- Without drawings the screen stays. -/
  | nil (pixels : Pixels) : Drawn κ memory pixels [] pixels
  /-- A drawing, and then others. -/
  | cons {m : Machine κ} {x y : Register} {height : Fin 16} {pixels after : Pixels} {d : Drawing}
      {ds : List Drawing} (hmemory : m.memory = memory) (hpixels : m.pixels = pixels)
      (hdrawing : m.drawing x y height = d)
      (rest : Drawn κ memory (m.execute (.draw x y height)).machine.pixels ds after) :
      Drawn κ memory pixels (d :: ds) after

namespace Drawn

variable {memory : Memory} {pixels after after' : Pixels} {ds ds' : List Drawing}

/-- Drawings toggle a pixel just when an odd number of them covers it. -/
theorem get_eq (h : Drawn κ memory pixels ds after) (p : Fin pixelCount) :
    after.get p = pixels.get p ^^^ (if ds.countP (·.covers memory p) % 2 = 1 then 1 else 0) := by
  induction h with
  | nil => exact UInt8.xor_zero.symm
  | @cons m x y height pixels after d ds hmemory hpixels hdrawing _ ih =>
    rw [ih, get_pixels_draw, hmemory, hpixels, hdrawing, UInt8.xor_assoc, List.countP_cons]
    congr 1
    -- One more drawing that covers the pixel turns odd into even, and even into odd.
    cases d.covers memory p with
    | false => exact UInt8.zero_xor
    | true =>
      rw [if_pos rfl, if_pos rfl]
      rcases Nat.mod_two_eq_zero_or_one (ds.countP (·.covers memory p)) with heven | hodd
      · rw [if_neg (by omega), if_pos (by omega)]
        rfl
      · rw [if_pos hodd, if_neg (by omega)]
        rfl

/-- Drawings come to the same if they cover every pixel equally often, up to pairs. -/
theorem eq_of_parity (h : Drawn κ memory pixels ds after) (h' : Drawn κ memory pixels ds' after')
    (hparity : ∀ p, ds'.countP (·.covers memory p) % 2 = ds.countP (·.covers memory p) % 2) :
    after' = after := by
  refine Vector.ext fun i hi => ?_
  have hafter := h.get_eq ⟨i, hi⟩
  have hafter' := h'.get_eq ⟨i, hi⟩
  rw [hparity] at hafter'
  exact hafter'.trans hafter.symm

/-- Drawings can go on where others stopped. -/
theorem append (h : Drawn κ memory pixels ds after) (h' : Drawn κ memory after ds' after') :
    Drawn κ memory pixels (ds ++ ds') after' := by
  induction h with
  | nil => exact h'
  | cons hmemory hpixels hdrawing _ ih => exact .cons hmemory hpixels hdrawing (ih h')

end Drawn

/-- Where there is a machine, everything can be drawn. -/
theorem exists_drawn (m : Machine κ) (memory : Memory) (pixels : Pixels) (ds : List Drawing) :
    ∃ after, Drawn κ memory pixels ds after := by
  induction ds generalizing pixels with
  | nil => exact ⟨pixels, .nil pixels⟩
  | cons d ds ih =>
    -- The coordinates are put into V0 and V1.
    let ready : Machine κ :=
      ({ m with memory, pixels, index := d.index }.setReg 0 d.x).setReg 1 d.y
    obtain ⟨after, hrest⟩ := ih (ready.execute (.draw 0 1 d.height)).machine.pixels
    have hx : ready.reg 0 = d.x :=
      (reg_setReg_of_ne _ d.y (by decide)).trans (Vector.getElem_set_self (Fin.isLt 0))
    have hy : ready.reg 1 = d.y := Vector.getElem_set_self (Fin.isLt 1)
    have hdrawing : ready.drawing 0 1 d.height = d := by
      rw [drawing, hx, hy]
      rfl
    exact ⟨after, .cons rfl rfl hdrawing hrest⟩

/-- Any drawings can be made on the screen of any machine. A pixel is toggled just when an odd number of them
covers it, so what becomes of the screen does not depend on their order. Two equal ones, wherever they stand,
might as well be left out. To draw the same once more, in any order, brings the screen back. -/
theorem drawn_unordered (m : Machine κ) (ds : List Drawing) :
    (∃ after, Drawn κ m.memory m.pixels ds after) ∧
      ∀ after, Drawn κ m.memory m.pixels ds after →
        (∀ p, after.get p =
            m.pixels.get p ^^^ (if ds.countP (·.covers m.memory p) % 2 = 1 then 1 else 0)) ∧
          (∀ ds' after', ds'.Perm ds → Drawn κ m.memory m.pixels ds' after' → after' = after) ∧
          (∀ d before between rest after', ds = before ++ d :: (between ++ d :: rest) →
            Drawn κ m.memory m.pixels (before ++ (between ++ rest)) after' → after' = after) ∧
          (∀ ds' after', ds'.Perm ds → Drawn κ m.memory after ds' after' → after' = m.pixels) := by
  refine ⟨exists_drawn m m.memory m.pixels ds, fun after h => ⟨h.get_eq, fun ds' after' hperm h' => ?_,
    fun d before between rest after' hds h' => ?_, fun ds' after' hperm h' => ?_⟩⟩
  · exact h.eq_of_parity h' fun p => by rw [hperm.countP_eq]
  · refine h.eq_of_parity h' fun p => ?_
    -- The two equal drawings cover every pixel an even number of times between them.
    rw [hds]
    simp only [List.countP_append, List.countP_cons]
    omega
  · refine Drawn.eq_of_parity (.nil m.pixels) (h.append h') fun p => ?_
    rw [List.countP_append, hperm.countP_eq, List.countP_nil]
    omega

end Machine

end Chip8
