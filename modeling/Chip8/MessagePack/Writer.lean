/-!
# Writing MessagePack

A MessagePack value starts with a byte that says what it is. `natural` and `arrayHeader` choose the
shortest form that holds their number, so there is one way to write each.
-/

namespace Chip8.MessagePack

/-- The low `width` bytes of a number, most significant first. -/
def bigEndian : (width : Nat) → (n : Nat) → List UInt8
  | 0, _ => []
  | width + 1, n => bigEndian width (n / 256) ++ [UInt8.ofNat n]

@[simp] theorem length_bigEndian (width n : Nat) : (bigEndian width n).length = width := by
  induction width generalizing n with
  | zero => rfl
  | succ width ih => simp [bigEndian, ih]

/-- A number below `2^64`. -/
def natural (n : Nat) : List UInt8 :=
  if n < 0x80 then [UInt8.ofNat n]
  else if n < 0x100 then 0xCC :: bigEndian 1 n
  else if n < 0x10000 then 0xCD :: bigEndian 2 n
  else if n < 0x100000000 then 0xCE :: bigEndian 4 n
  else 0xCF :: bigEndian 8 n

/-- The start of an array of `count` values, for a count below `2^32`. -/
def arrayHeader (count : Nat) : List UInt8 :=
  if count < 16 then [UInt8.ofNat (0x90 + count)]
  else if count < 0x10000 then 0xDC :: bigEndian 2 count
  else 0xDD :: bigEndian 4 count

/-- An array of numbers. -/
def naturals (ns : List Nat) : List UInt8 := arrayHeader ns.length ++ ns.flatMap natural

end Chip8.MessagePack
