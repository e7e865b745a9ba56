import Mathlib.Algebra.Group.Nat.Defs
import Chip8.MessagePack.Reader
import Chip8.MessagePack.Writer

/-!
# What is written reads back

The numbers and arrays that the writer produces are read back by the reader, whatever bytes follow
them. The numbers are those of 64 bits and the arrays those with a count of 32 bits, which is all
that the format has room for.
-/

namespace Chip8.MessagePack

/-! ## Numbers of a fixed width -/

/-- Bytes in front add their value, shifted past the bytes behind them. -/
theorem ofBigEndian_append (a b : List UInt8) :
    ofBigEndian (a ++ b) = ofBigEndian a * 256 ^ b.length + ofBigEndian b := by
  induction b generalizing a with
  | nil => simp [ofBigEndian]
  | cons x xs ih =>
    have hfront := ih (a ++ [x])
    have hone := ih [x]
    simp only [ofBigEndian, List.append_assoc, List.cons_append, List.nil_append, List.foldl_append,
      List.foldl_cons, List.foldl_nil, List.length_cons, Nat.zero_mul, Nat.zero_add]
      at hfront hone ⊢
    rw [hfront, hone, Nat.pow_succ]
    grind

/-- The bytes of a number stand for its remainder. -/
theorem ofBigEndian_bigEndian (width n : Nat) :
    ofBigEndian (bigEndian width n) = n % 256 ^ width := by
  induction width generalizing n with
  | zero => simp [bigEndian, ofBigEndian, Nat.mod_one]
  | succ width ih =>
    have hone : ofBigEndian [UInt8.ofNat n] = n % 256 := by simp [ofBigEndian]
    rw [bigEndian, ofBigEndian_append, ih, hone, List.length_singleton, Nat.pow_one, Nat.pow_succ,
      Nat.mul_comm (256 ^ width), Nat.mod_mul]
    omega

/-- As many bytes as are in front are taken from the front. -/
theorem takeBytes_append (a rest : List UInt8) :
    takeBytes a.length (a ++ rest) = some (a, rest) := by
  simp [takeBytes]

/-- A number that fits reads back from its bytes. -/
theorem takeNat_bigEndian (width n : Nat) (h : n < 256 ^ width) (rest : List UInt8) :
    takeNat width (bigEndian width n ++ rest) = some (n, rest) := by
  have htake := takeBytes_append (bigEndian width n) rest
  rw [length_bigEndian] at htake
  simp [takeNat, htake, ofBigEndian_bigEndian, Nat.mod_eq_of_lt h]

/-! ## Heads -/

/-- A number of 64 bits reads back from its shortest form. -/
theorem Head.read_natural (n : Nat) (h : n < 2 ^ 64) (rest : List UInt8) :
    Head.read (MessagePack.natural n ++ rest) = some (.leaf (.natural n), rest) := by
  unfold MessagePack.natural
  split
  · next hn =>
    have hb : (UInt8.ofNat n).toNat = n := by simp; omega
    simp [Head.read, hb, hn]
  split
  · simp [Head.read, Head.ofMark, Head.ofNat, takeNat_bigEndian 1 n (by omega)]
  split
  · simp [Head.read, Head.ofMark, Head.ofNat, takeNat_bigEndian 2 n (by omega)]
  split
  · simp [Head.read, Head.ofMark, Head.ofNat, takeNat_bigEndian 4 n (by omega)]
  · simp [Head.read, Head.ofMark, Head.ofNat, takeNat_bigEndian 8 n (by omega)]

/-- The start of an array reads back. -/
theorem Head.read_arrayHeader (count : Nat) (h : count < 2 ^ 32) (rest : List UInt8) :
    Head.read (arrayHeader count ++ rest) = some (.array count, rest) := by
  unfold arrayHeader
  split
  · have hb : (UInt8.ofNat (0x90 + count)).toNat = 0x90 + count := by simp; omega
    simp only [Head.read, List.cons_append, List.nil_append, hb]
    rw [if_neg (by omega), if_neg (by omega), if_pos (by omega)]
    simp
  split
  · simp [Head.read, Head.ofMark, Head.ofNat, takeNat_bigEndian 2 count (by omega)]
  · simp [Head.read, Head.ofMark, Head.ofNat, takeNat_bigEndian 4 count (by omega)]

/-! ## Values -/

/-- A number of 64 bits is a value at every depth. -/
theorem Value.read_natural (depth n : Nat) (h : n < 2 ^ 64) (rest : List UInt8) :
    Value.read depth (MessagePack.natural n ++ rest) = some (.natural n, rest) := by
  cases depth <;> simp [Value.read, Head.read_natural n h]

/-- Behind the start of an array its values are read one level deeper. -/
theorem Value.read_arrayHeader (depth count : Nat) (h : count < 2 ^ 32) (rest : List UInt8) :
    Value.read (depth + 1) (arrayHeader count ++ rest) =
      (takeMany (Value.read depth) count [] rest).map fun (items, rest) =>
        (.array items, rest) := by
  simp only [Value.read, Head.read_arrayHeader count h]

/-- Values that a reader takes one by one are taken together. -/
theorem takeMany_flatMap {α β : Type} (reader : Reader β) (write : α → List UInt8) (make : α → β)
    (xs : List α) (taken : List β) (rest : List UInt8)
    (h : ∀ x ∈ xs, ∀ rest, reader (write x ++ rest) = some (make x, rest)) :
    takeMany reader xs.length taken (xs.flatMap write ++ rest) =
      some (taken.reverse ++ xs.map make, rest) := by
  induction xs generalizing taken with
  | nil => simp [takeMany]
  | cons x xs ih =>
    have hx := h x (by simp) (xs.flatMap write ++ rest)
    simp only [List.length_cons, List.flatMap_cons, List.append_assoc, takeMany, hx]
    rw [ih (make x :: taken) fun y hy => h y (by simp [hy])]
    simp

/-- An array of numbers of 64 bits reads back. -/
theorem Value.read_naturals (depth : Nat) (ns : List Nat) (hlen : ns.length < 2 ^ 32)
    (h : ∀ n ∈ ns, n < 2 ^ 64) (rest : List UInt8) :
    Value.read (depth + 1) (naturals ns ++ rest) = some (.array (ns.map .natural), rest) := by
  rw [naturals, List.append_assoc, read_arrayHeader depth _ hlen,
    takeMany_flatMap _ _ Value.natural ns [] rest fun n hn => read_natural depth n (h n hn)]
  simp

/-! ## Bytes and words -/

/-- A byte is found in its number. -/
theorem Value.byte?_natural (b : UInt8) : (Value.natural b.toNat).byte? = some b := by
  simp [byte?, natBelow?, b.toNat_lt]

/-- A word is found in its number. -/
theorem Value.word?_natural (w : UInt16) : (Value.natural w.toNat).word? = some w := by
  simp [word?, natBelow?, w.toNat_lt]

/-- Bytes are found in the array of their numbers. -/
theorem Value.bytes?_naturals (bs : List UInt8) :
    (Value.array ((bs.map (·.toNat)).map .natural)).bytes? = some bs := by
  simp only [bytes?]
  induction bs with
  | nil => rfl
  | cons b bs ih => simp only [List.map_cons, List.mapM_cons, byte?_natural, ih]; rfl

/-- Words are found in the array of their numbers. -/
theorem Value.words?_naturals (ws : List UInt16) :
    (Value.array ((ws.map (·.toNat)).map .natural)).words? = some ws := by
  simp only [words?]
  induction ws with
  | nil => rfl
  | cons w ws ih => simp only [List.map_cons, List.mapM_cons, word?_natural, ih]; rfl

end Chip8.MessagePack
