import Chip8.Width

/-!
# Keypads

The machine has sixteen keys, 0 to F, and asks a keypad only whether one of them is down. A keypad
is anything that answers that question; `KeyState` is the one a host sets key by key. Every question
goes through `Keypad.ask`, which hands out the key that was asked for along with the answer.
-/

namespace Chip8

/-- What a machine can ask a keypad. -/
class Keypad (κ : Type) where
  /-- Whether the key is down. -/
  pressed : κ → (key : UInt8) → Bool

/-- The sixteen keys, each up or down. -/
structure KeyState where
  /-- Whether each key is down. -/
  down : Vector Bool 16
  deriving DecidableEq

namespace KeyState

/-- The key that a byte names, by its low nibble. -/
def slot (key : UInt8) : Fin 16 := Fin.ofNat 16 key.toNat

/-- No key is down. -/
def allUp : KeyState := ⟨Vector.replicate 16 false⟩

/-- Puts a key down or up. -/
def set (keys : KeyState) (key : UInt8) (down : Bool) : KeyState :=
  ⟨keys.down.set (slot key) down⟩

/-- Whether a key is down. -/
def isDown (keys : KeyState) (key : UInt8) : Bool := keys.down[slot key]

instance : Keypad KeyState := ⟨isDown⟩

/-- After a key is set, every byte that names it finds it as it was set, and the others are as
before. -/
theorem isDown_set (keys : KeyState) (key other : UInt8) (down : Bool) :
    (keys.set key down).isDown other =
      if slot key = slot other then down else keys.isDown other := by
  simp [isDown, set, Vector.getElem_set, Fin.ext_iff]

end KeyState

namespace Keypad

/-- The keys in the order in which a waiting machine asks for them, the highest first. -/
def scanOrder : List UInt8 := [15, 14, 13, 12, 11, 10, 9, 8, 7, 6, 5, 4, 3, 2, 1, 0]

variable {κ : Type} [Keypad κ]

/-- Asks for one key: whether it is down, and the key that was asked for. -/
def ask (keypad : κ) (key : UInt8) : Bool × List UInt8 := (pressed keypad key, [key])

/-- Asks for the keys in turn until one is down: that key, if any, and the keys asked for. -/
def firstPressed (keypad : κ) : List UInt8 → Option UInt8 × List UInt8
  | [] => (none, [])
  | key :: rest =>
    let (down, asked) := ask keypad key
    if down then (some key, asked)
    else
      let (found, others) := firstPressed keypad rest
      (found, asked ++ others)

end Keypad

end Chip8
