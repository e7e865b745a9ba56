import Chip8.State

/-!
# Sprites

A sprite is a list of bytes, one per row, whose bits are the pixels of the row from left to right.
Drawing it toggles the pixel under every set bit. Rows and columns wrap around at the edges of the
screen. `Sprite.cover` lists the pixels that a sprite toggles, so that drawing is a fold over that
list and a collision is a lit pixel on it.
-/

namespace Chip8

/-- The number of pixels of a row of the screen. -/
abbrev screenWidth : Nat := 64

/-- The number of rows of the screen. -/
abbrev screenHeight : Nat := 32

/-- The pixel in a column and a row, both taken around the edges of the screen. -/
def pixelAt (column row : Nat) : Fin pixelCount :=
  ⟨column % screenWidth + row % screenHeight * screenWidth, by
    have hc := Nat.mod_lt column (show 0 < screenWidth by decide)
    have hr := Nat.mod_lt row (show 0 < screenHeight by decide)
    simp only [screenWidth, screenHeight, pixelCount] at *
    omega⟩

namespace Pixels

/-- Toggles one pixel. -/
def toggle (pixels : Pixels) (p : Fin pixelCount) : Pixels := pixels.set p (pixels[p] ^^^ 1)

/-- Toggles pixels one after another. -/
def toggleAll (pixels : Pixels) (ps : List (Fin pixelCount)) : Pixels := ps.foldl toggle pixels

/-- Whether one of the pixels is lit. -/
def anyLit (pixels : Pixels) (ps : List (Fin pixelCount)) : Bool := ps.any fun p => pixels[p] == 1

/-- A dark screen. -/
def dark : Pixels := Vector.replicate pixelCount 0

end Pixels

namespace Sprite

/-- The columns of the set bits of a row that starts at column `x`, from left to right. -/
def columns (x : Nat) (byte : UInt8) : List Nat :=
  ((List.range 8).filter fun k => byte.toNat.testBit (7 - k)).map (x + ·)

/-- The pixels under the set bits of a sprite whose top left corner is at column `x` and row `y`. -/
def cover (x : Nat) : (y : Nat) → List UInt8 → List (Fin pixelCount)
  | _, [] => []
  | y, byte :: rows => (columns x byte).map (pixelAt · y) ++ cover x (y + 1) rows

end Sprite

end Chip8
