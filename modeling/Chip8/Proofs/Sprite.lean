import Mathlib.Data.List.Nodup
import Mathlib.Data.Nat.Bitwise
import Chip8.Sprite

/-!
# A sprite covers no pixel twice

The eight columns of a sprite row stay apart on a screen of 64 columns, and its rows on a screen of
32 rows, so `Sprite.cover` lists every pixel at most once (`cover_nodup`). A lit pixel that is
turned off while a sprite is drawn pixel by pixel was therefore lit before the sprite was drawn, and
the two ways of noticing a collision agree (`foldl_plot`).
-/

namespace Chip8

/-- Two places are the same pixel when they agree around the edges of the screen. -/
theorem pixelAt_eq_iff (c r c' r' : Nat) :
    pixelAt c r = pixelAt c' r' ↔
      c % screenWidth = c' % screenWidth ∧ r % screenHeight = r' % screenHeight := by
  rw [Fin.ext_iff]
  simp only [pixelAt, screenWidth, screenHeight]
  omega

namespace Sprite

/-- The columns of a row are the places of its set bits behind the first column. -/
theorem mem_columns_iff {x c : Nat} {byte : UInt8} :
    c ∈ columns x byte ↔ ∃ k < 8, byte.toNat.testBit (7 - k) ∧ c = x + k := by
  simp only [columns, List.mem_map, List.mem_filter, List.mem_range, and_assoc, eq_comm]

/-- No column of a row comes twice. -/
theorem columns_nodup (x : Nat) (byte : UInt8) : (columns x byte).Nodup :=
  (List.nodup_range.filter _).map_on fun a _ b _ hab => by omega

/-- The pixels of one row are distinct. -/
theorem row_nodup (x y : Nat) (byte : UInt8) : ((columns x byte).map (pixelAt · y)).Nodup := by
  refine (columns_nodup x byte).map_on fun a ha b hb hab => ?_
  have hmod := ((pixelAt_eq_iff a y b y).1 hab).1
  obtain ⟨k, hk, -, rfl⟩ := mem_columns_iff.1 ha
  obtain ⟨k', hk', -, rfl⟩ := mem_columns_iff.1 hb
  simp only [screenWidth] at hmod
  omega

/-- The covered pixels are the places of the set bits of the rows. -/
theorem mem_cover_iff {x y : Nat} {rows : List UInt8} {p : Fin pixelCount} :
    p ∈ cover x y rows ↔
      ∃ r byte, rows[r]? = some byte ∧
        ∃ k < 8, byte.toNat.testBit (7 - k) ∧ p = pixelAt (x + k) (y + r) := by
  induction rows generalizing y with
  | nil => simp [cover]
  | cons first rows ih =>
    have hrow : p ∈ (columns x first).map (pixelAt · y) ↔
        ∃ k < 8, first.toNat.testBit (7 - k) ∧ p = pixelAt (x + k) y := by
      constructor
      · intro hp
        obtain ⟨c, hc, rfl⟩ := List.mem_map.1 hp
        obtain ⟨k, hk, hbit, rfl⟩ := mem_columns_iff.1 hc
        exact ⟨k, hk, hbit, rfl⟩
      · rintro ⟨k, hk, hbit, rfl⟩
        exact List.mem_map.2 ⟨x + k, mem_columns_iff.2 ⟨k, hk, hbit, rfl⟩, rfl⟩
    rw [cover, List.mem_append, hrow, ih]
    constructor
    · rintro (hfirst | ⟨r, byte, hbyte, hrest⟩)
      · exact ⟨0, first, rfl, hfirst⟩
      · refine ⟨r + 1, byte, hbyte, ?_⟩
        rwa [Nat.add_assoc, Nat.add_comm 1 r] at hrest
    · rintro ⟨r, byte, hbyte, hplace⟩
      cases r with
      | zero =>
        obtain rfl : first = byte := Option.some.inj hbyte
        exact .inl hplace
      | succ r =>
        refine .inr ⟨r, byte, hbyte, ?_⟩
        rwa [Nat.add_assoc, Nat.add_comm 1 r]

/-- A sprite that is not taller than the screen covers no pixel twice. -/
theorem cover_nodup (x y : Nat) (rows : List UInt8) (h : rows.length ≤ screenHeight) :
    (cover x y rows).Nodup := by
  induction rows generalizing y with
  | nil => exact List.nodup_nil
  | cons byte rows ih =>
    have hlen : rows.length + 1 ≤ screenHeight := h
    refine List.nodup_append.2 ⟨row_nodup x y byte, ih (y + 1) (by omega), ?_⟩
    -- A pixel of the first row and one of a later row lie in different rows of the screen.
    intro p hp q hq hpq
    obtain ⟨c, -, rfl⟩ := List.mem_map.1 hp
    obtain ⟨r, byte, hbyte, k, -, -, rfl⟩ := mem_cover_iff.1 hq
    obtain ⟨hr, -⟩ := List.getElem?_eq_some_iff.1 hbyte
    have hmod := ((pixelAt_eq_iff _ _ _ _).1 hpq).2
    simp only [screenHeight] at hmod hlen
    omega

end Sprite

namespace Pixels

/-- Toggling a pixel does not matter to the pixels of a list without it. -/
theorem anyLit_toggle (pixels : Pixels) {p : Fin pixelCount} {ps : List (Fin pixelCount)}
    (h : p ∉ ps) : anyLit (pixels.toggle p) ps = anyLit pixels ps := by
  induction ps with
  | nil => rfl
  | cons q ps ih =>
    obtain ⟨hpq, hps⟩ := not_or.1 (mt List.mem_cons.2 h)
    have hother : (pixels.toggle p)[q] = pixels[q] :=
      Vector.getElem_set_ne p.isLt q.isLt fun hval => hpq (Fin.ext hval)
    simp only [anyLit, List.any_cons] at ih ⊢
    rw [hother, ih hps]

/-- Draws one pixel, and keeps track of whether a lit pixel was turned off. -/
def plot (screen : Pixels × Bool) (p : Fin pixelCount) : Pixels × Bool :=
  (screen.1.toggle p, screen.2 || screen.1.get p == 1)

/-- Drawing distinct pixels one by one toggles them all, and turns a lit pixel off just when one of
them was lit. -/
theorem foldl_plot (pixels : Pixels) (hit : Bool) {ps : List (Fin pixelCount)} (h : ps.Nodup) :
    ps.foldl plot (pixels, hit) = (pixels.toggleAll ps, hit || pixels.anyLit ps) := by
  induction ps generalizing pixels hit with
  | nil => simp [toggleAll, anyLit]
  | cons p ps ih =>
    obtain ⟨hp, hps⟩ := List.nodup_cons.1 h
    rw [List.foldl_cons, plot, ih _ _ hps, anyLit_toggle pixels hp]
    simp only [toggleAll, List.foldl_cons, anyLit, List.any_cons, Bool.or_assoc]
    rfl

end Pixels

end Chip8
