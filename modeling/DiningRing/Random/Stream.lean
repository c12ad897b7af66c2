/-
# A stream of random words

The ChaCha generator with twelve rounds.  A stream is the words of block after block, block
`b` being the scrambled table of four constants, eight key words and the block's number.
-/
namespace DiningRing.Random

/-! ## Blocks -/

/-- The sixteen words on which a block is computed. -/
abbrev Block := Vector UInt32 16

/-- The number of words, `2 ^ 32`. -/
def wordCount : Nat := 4294967296

/-- A word with its bits turned to the left. -/
def turnLeft (w : UInt32) (bits : UInt32) : UInt32 := (w <<< bits) ||| (w >>> (32 - bits))

/-- Adds the word at `b` to the one at `a`, and turns the word at `d` after mixing the sum
into it. -/
def mix (x : Block) (a b d : Fin 16) (bits : UInt32) : Block :=
  let x := x.set a (x[a] + x[b])
  x.set d (turnLeft (x[d] ^^^ x[a]) bits)

/-- One quarter of a round. -/
def quarterRound (x : Block) (a b c d : Fin 16) : Block :=
  mix (mix (mix (mix x a b d 16) c d b 12) a b d 8) c d b 7

/-- Two rounds: along the columns, then along the diagonals. -/
def doubleRound (x : Block) : Block :=
  let x := quarterRound x 0 4 8 12
  let x := quarterRound x 1 5 9 13
  let x := quarterRound x 2 6 10 14
  let x := quarterRound x 3 7 11 15
  let x := quarterRound x 0 5 10 15
  let x := quarterRound x 1 6 11 12
  let x := quarterRound x 2 7 8 13
  quarterRound x 3 4 9 14

/-- A key of eight words. -/
abbrev Key := Vector UInt32 8

/-- The table from which the block of a number is computed. -/
def table (key : Key) (number : Nat) : Block :=
  #v[0x61707865, 0x3320646e, 0x79622d32, 0x6b206574,
    key[0], key[1], key[2], key[3], key[4], key[5], key[6], key[7],
    UInt32.ofNat number, UInt32.ofNat (number / wordCount), 0, 0]

/-- The block of a number. -/
def block (key : Key) (number : Nat) : Block :=
  let start := table key number
  let stirred := (List.range 6).foldl (fun x _ => doubleRound x) start
  start.zipWith (· + ·) stirred

/-! ## Streams -/

/-- A stream of words of which `position` have been drawn.  `current` is the block of the
next word. -/
structure Stream where
  key : Key
  position : Nat
  current : Block
deriving DecidableEq, Repr

namespace Stream

/-- A stream from its first word on. -/
def ofKey (key : Key) : Stream := ⟨key, 0, block key 0⟩

/-- Draws a word. -/
def next (s : Stream) : UInt32 × Stream :=
  let position := s.position + 1
  (s.current.get ⟨s.position % 16, Nat.mod_lt _ (by decide)⟩,
    ⟨s.key, position, if position % 16 = 0 then block s.key (position / 16) else s.current⟩)

/-- Spreads the bits of a seed: the state after one step, and the word it gives. -/
def spread (state : UInt64) : UInt64 × UInt32 :=
  let state := state * 6364136223846793005 + 11634580027462260723
  let word := (((state >>> 18) ^^^ state) >>> 27).toUInt32
  let bits := (state >>> 59).toUInt32
  (state, (word >>> bits) ||| (word <<< ((32 - bits) % 32)))

/-- The states of the spreading that starts at a seed. -/
def spreadStates (seed : UInt64) : Nat → UInt64
  | 0 => seed
  | n + 1 => (spread (spreadStates seed n)).1

/-- The stream of a seed. -/
def ofSeed (seed : Nat) : Stream :=
  ofKey (Vector.ofFn fun i => (spread (spreadStates (UInt64.ofNat seed) i)).2)

/-- Draws a number below `n`, with at most two words: the words are read as the digits of a
fraction to the base `wordCount`, and the second one is drawn only where it can carry. -/
def below (n : Nat) (s : Stream) : Nat × Stream :=
  let (word, s) := s.next
  let product := word.toNat * n
  let high := product / wordCount
  let low := product % wordCount
  if low > (wordCount - n) % wordCount then
    let (word, s) := s.next
    let carry := if low + word.toNat * n / wordCount ≥ wordCount then 1 else 0
    (high + carry, s)
  else (high, s)

end Stream

end DiningRing.Random
