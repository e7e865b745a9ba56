import Chip8.Width

/-!
# The random numbers

Random bytes come from a ChaCha stream of twelve rounds. The stream is a function of a 256-bit key
and a position, so a generator is the key together with the number of words taken so far, and the
word at a position does not depend on how the generator got there. A 64-bit seed is stretched to a
key by eight steps of a linear congruential generator, each with a permuted output.
-/

namespace Chip8

namespace ChaCha

/-- The sixteen words that the rounds work on. -/
abbrev Block := Vector UInt32 16

/-- A key of 256 bits. -/
abbrev Key := Vector UInt32 8

/-- Rotates a word to the left by `k` bits, for `0 < k < 32`. -/
def rotateLeft (w k : UInt32) : UInt32 := (w <<< k) ||| (w >>> (32 - k))

/-- Mixes four words of a block. -/
def quarterRound (s : Block) (a b c d : Fin 16) : Block :=
  let s := s.set a (s[a] + s[b])
  let s := s.set d (rotateLeft (s[d] ^^^ s[a]) 16)
  let s := s.set c (s[c] + s[d])
  let s := s.set b (rotateLeft (s[b] ^^^ s[c]) 12)
  let s := s.set a (s[a] + s[b])
  let s := s.set d (rotateLeft (s[d] ^^^ s[a]) 8)
  let s := s.set c (s[c] + s[d])
  s.set b (rotateLeft (s[b] ^^^ s[c]) 7)

/-- A round over the columns, then a round over the diagonals. -/
def doubleRound (s : Block) : Block :=
  let s := quarterRound s 0 4 8 12
  let s := quarterRound s 1 5 9 13
  let s := quarterRound s 2 6 10 14
  let s := quarterRound s 3 7 11 15
  let s := quarterRound s 0 5 10 15
  let s := quarterRound s 1 6 11 12
  let s := quarterRound s 2 7 8 13
  quarterRound s 3 4 9 14

/-- `rounds` double rounds. -/
def doubleRounds : (rounds : Nat) → Block → Block
  | 0, s => s
  | rounds + 1, s => doubleRounds rounds (doubleRound s)

/-- The block before the rounds: four constants, the key, a counter of two words with the low word
first, and two zero words. -/
def initial (key : Key) (counter : UInt64) : Block :=
  #v[0x61707865, 0x3320646E, 0x79622D32, 0x6B206574,
    key[0], key[1], key[2], key[3], key[4], key[5], key[6], key[7],
    counter.toUInt32, (counter >>> 32).toUInt32, 0, 0]

/-- The sixteen words of the stream that a counter value gives: six double rounds, then the words
from before the rounds are added. -/
def block (key : Key) (counter : UInt64) : Block :=
  let start := initial key counter
  (doubleRounds 6 start).zipWith (· + ·) start

/-- The word at a position of the stream. -/
def word (key : Key) (position : Nat) : UInt32 :=
  (block key (UInt64.ofNat (position / 16)))[Fin.ofNat 16 position]

end ChaCha

namespace Seed

/-- The next state of the congruential generator. -/
def next (s : UInt64) : UInt64 := s * 6364136223846793005 + 11634580027462260723

/-- The word that a state puts out: the upper bits folded together, rotated to the right by the
amount that the top five bits hold. -/
def output (s : UInt64) : UInt32 :=
  let folded := (((s >>> 18) ^^^ s) >>> 27).toUInt32
  let amount := (s >>> 59).toUInt32
  (folded >>> amount) ||| (folded <<< ((32 - amount) &&& 31))

/-- The first `count` words after the state `s`. -/
def words : (count : Nat) → (s : UInt64) → List UInt32
  | 0, _ => []
  | count + 1, s => output (next s) :: words count (next s)

@[simp] theorem length_words (count : Nat) (s : UInt64) : (words count s).length = count := by
  induction count generalizing s with
  | zero => rfl
  | succ count ih => simp [words, ih]

/-- The key that a seed is stretched to. -/
def key (seed : UInt64) : ChaCha.Key := ⟨(words 8 seed).toArray, by simp⟩

end Seed

/-- A source of random words: a key, and how many words it has given out. -/
structure Random where
  /-- The key of the stream. -/
  key : ChaCha.Key
  /-- The number of words taken so far. -/
  taken : Nat
  deriving DecidableEq

namespace Random

/-- The source at the start of the stream of a seed. -/
def ofSeed (seed : UInt64) : Random := ⟨Seed.key seed, 0⟩

/-- The next word of the stream. -/
def word (r : Random) : UInt32 := ChaCha.word r.key r.taken

/-- The next byte, which is the low byte of the next word. -/
def byte (r : Random) : UInt8 := r.word.toUInt8

/-- The source after one word was taken. -/
def advance (r : Random) : Random := { r with taken := r.taken + 1 }

end Random

end Chip8
