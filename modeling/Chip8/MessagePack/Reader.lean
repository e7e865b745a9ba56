/-!
# Reading MessagePack

`Value.read` takes one value from the front of some bytes and gives it with the rest. It knows every
form of the format, and refuses the one byte that the format leaves unused. Values nest at most as
deep as the caller allows; each array, each map and each value of an application type is one level.

A reader is a function from bytes to a value and the bytes behind it, and `none` means that the
bytes do not start with such a value.
-/

namespace Chip8.MessagePack

/-- A value of the format. Texts are kept as bytes, and the bits of a floating point number are
kept as they are. -/
inductive Value where
  /-- The value nil. -/
  | nil
  /-- A truth value. -/
  | bool (b : Bool)
  /-- A number in one of the unsigned forms. -/
  | natural (n : Nat)
  /-- A number in one of the signed forms. -/
  | integer (z : Int)
  /-- A floating point number. -/
  | float (bits : List UInt8)
  /-- A text. -/
  | text (bytes : List UInt8)
  /-- A byte string. -/
  | binary (bytes : List UInt8)
  /-- An array. -/
  | array (items : List Value)
  /-- A map, as its pairs in order. -/
  | map (entries : List (Value × Value))
  /-- A value of an application type, which only the application can read. -/
  | extension (type : Int) (bytes : List UInt8)

/-- Takes a value from the front of some bytes, and gives it with the rest. -/
abbrev Reader (α : Type) := List UInt8 → Option (α × List UInt8)

/-- The number that bytes stand for, most significant first. -/
def ofBigEndian (bytes : List UInt8) : Nat := bytes.foldl (fun n b => n * 256 + b.toNat) 0

/-- Takes exactly `count` bytes. -/
def takeBytes (count : Nat) : Reader (List UInt8) := fun bytes =>
  let front := bytes.take count
  if front.length = count then some (front, bytes.drop count) else none

/-- Takes a number of `width` bytes. -/
def takeNat (width : Nat) : Reader Nat := fun bytes =>
  (takeBytes width bytes).map fun (front, rest) => (ofBigEndian front, rest)

/-- The number that `width` bytes stand for in two's complement, given the one they stand for
without a sign. -/
def signed (width n : Nat) : Int :=
  let size : Nat := 1 <<< (8 * width)
  if 2 * n < size then n else (n : Int) - size

/-- Takes `count` values one after another. The values taken so far are in `taken`, the last one
first. -/
def takeMany {α : Type} (reader : Reader α) :
    (count : Nat) → (taken : List α) → Reader (List α)
  | 0, taken, bytes => some (taken.reverse, bytes)
  | count + 1, taken, bytes =>
    match reader bytes with
    | none => none
    | some (value, rest) => takeMany reader count (value :: taken) rest

/-- Takes two values. -/
def takePair {α : Type} (reader : Reader α) : Reader (α × α) := fun bytes =>
  match reader bytes with
  | none => none
  | some (first, rest) => (reader rest).map fun (second, rest) => ((first, second), rest)

/-- What the start of a value says: the value itself, or what follows. -/
inductive Head where
  /-- The value is complete. -/
  | leaf (value : Value)
  /-- An array of `count` values follows. -/
  | array (count : Nat)
  /-- A map of `count` pairs follows. -/
  | map (count : Nat)
  /-- An application type follows, and then `size` bytes. -/
  | extension (size : Nat)

namespace Head

/-- Reads a number of `width` bytes and makes a head of it. -/
def ofNat (width : Nat) (make : Nat → Head) : Reader Head := fun bytes =>
  (takeNat width bytes).map fun (n, rest) => (make n, rest)

/-- Takes as many bytes as asked for and makes a complete value of them. -/
def ofBytes (count : Nat) (make : List UInt8 → Value) : Reader Head := fun bytes =>
  (takeBytes count bytes).map fun (front, rest) => (.leaf (make front), rest)

/-- Reads a length of `width` bytes, then as many bytes as it says. -/
def sized (width : Nat) (make : List UInt8 → Value) : Reader Head := fun bytes =>
  match takeNat width bytes with
  | none => none
  | some (count, rest) => ofBytes count make rest

/-- Reads what follows a first byte from `0xC0` to `0xDF`, each of which has a meaning of its
own. -/
def ofMark (mark : Nat) : Reader Head :=
  match mark with
  | 0xC0 => fun rest => some (.leaf .nil, rest)
  | 0xC2 => fun rest => some (.leaf (.bool false), rest)
  | 0xC3 => fun rest => some (.leaf (.bool true), rest)
  | 0xC4 => sized 1 .binary
  | 0xC5 => sized 2 .binary
  | 0xC6 => sized 4 .binary
  | 0xC7 => ofNat 1 .extension
  | 0xC8 => ofNat 2 .extension
  | 0xC9 => ofNat 4 .extension
  | 0xCA => ofBytes 4 .float
  | 0xCB => ofBytes 8 .float
  | 0xCC => ofNat 1 fun n => .leaf (.natural n)
  | 0xCD => ofNat 2 fun n => .leaf (.natural n)
  | 0xCE => ofNat 4 fun n => .leaf (.natural n)
  | 0xCF => ofNat 8 fun n => .leaf (.natural n)
  | 0xD0 => ofNat 1 fun n => .leaf (.integer (signed 1 n))
  | 0xD1 => ofNat 2 fun n => .leaf (.integer (signed 2 n))
  | 0xD2 => ofNat 4 fun n => .leaf (.integer (signed 4 n))
  | 0xD3 => ofNat 8 fun n => .leaf (.integer (signed 8 n))
  | 0xD4 => fun rest => some (.extension 1, rest)
  | 0xD5 => fun rest => some (.extension 2, rest)
  | 0xD6 => fun rest => some (.extension 4, rest)
  | 0xD7 => fun rest => some (.extension 8, rest)
  | 0xD8 => fun rest => some (.extension 16, rest)
  | 0xD9 => sized 1 .text
  | 0xDA => sized 2 .text
  | 0xDB => sized 4 .text
  | 0xDC => ofNat 2 .array
  | 0xDD => ofNat 4 .array
  | 0xDE => ofNat 2 .map
  | 0xDF => ofNat 4 .map
  | _ => fun _ => none

/-- Reads the start of a value. -/
def read : Reader Head
  | [] => none
  | first :: rest =>
    let b := first.toNat
    if b < 0x80 then some (.leaf (.natural b), rest)
    else if b < 0x90 then some (.map (b - 0x80), rest)
    else if b < 0xA0 then some (.array (b - 0x90), rest)
    else if b < 0xC0 then ofBytes (b - 0xA0) .text rest
    else if b < 0xE0 then ofMark b rest
    else some (.leaf (.integer (signed 1 b)), rest)

end Head

/-- Reads an application type, which is one signed byte, and then `size` bytes. -/
def takeExtension (size : Nat) : Reader Value := fun bytes =>
  match takeNat 1 bytes with
  | none => none
  | some (type, rest) =>
    (takeBytes size rest).map fun (front, rest) => (.extension (signed 1 type) front, rest)

/-- Reads a value in which arrays, maps and values of application types nest at most `depth`
deep. -/
def Value.read : (depth : Nat) → Reader Value
  | 0, bytes =>
    match Head.read bytes with
    | some (.leaf value, rest) => some (value, rest)
    | _ => none
  | depth + 1, bytes =>
    match Head.read bytes with
    | none => none
    | some (.leaf value, rest) => some (value, rest)
    | some (.array count, rest) =>
      (takeMany (Value.read depth) count [] rest).map fun (items, rest) => (.array items, rest)
    | some (.map count, rest) =>
      (takeMany (takePair (Value.read depth)) count [] rest).map fun (entries, rest) =>
        (.map entries, rest)
    | some (.extension size, rest) => takeExtension size rest

namespace Value

/-- The number below `limit` that a value is, in a signed or an unsigned form. -/
def natBelow? (limit : Nat) : Value → Option Nat
  | natural n => if n < limit then some n else none
  | integer z => if 0 ≤ z ∧ z < limit then some z.toNat else none
  | _ => none

/-- The byte that a value is. -/
def byte? (v : Value) : Option UInt8 := (v.natBelow? 0x100).map UInt8.ofNat

/-- The 16-bit word that a value is. -/
def word? (v : Value) : Option UInt16 := (v.natBelow? 0x10000).map UInt16.ofNat

/-- The bytes that a value lists, as an array of bytes or as a byte string. -/
def bytes? : Value → Option (List UInt8)
  | array items => items.mapM byte?
  | binary bytes => some bytes
  | _ => none

/-- The words that a value lists; a byte string lists one word for each byte. -/
def words? : Value → Option (List UInt16)
  | array items => items.mapM word?
  | binary bytes => some (bytes.map (·.toUInt16))
  | _ => none

end Value

end Chip8.MessagePack
