/-!
# Widths

The numbers of values that a nibble and an address have. Numbers are reduced to them in several
places, which takes that they are not zero. The zero is named, so that it is the one of `Fin.ofNat`
wherever these facts are used.
-/

namespace Chip8

/-- A nibble has sixteen values. -/
instance (priority := 2000) nibble_neZero : @NeZero Nat Zero.ofOfNat0 16 :=
  ⟨Nat.succ_ne_zero 15⟩

/-- An address has 4096 values. -/
instance (priority := 2000) address_neZero : @NeZero Nat Zero.ofOfNat0 4096 :=
  ⟨Nat.succ_ne_zero 4095⟩

end Chip8
