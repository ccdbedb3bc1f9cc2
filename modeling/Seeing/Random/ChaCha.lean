/-!
# The ChaCha stream

A stream of words from a key of eight words. Each block of sixteen words scrambles a square of
constants, key and block number by six double rounds, and adds the square itself. Words of sixty
four bits are taken from two words each, the low one first.
-/

namespace Seeing

/-- The state of a ChaCha stream: the key, the number of the next block, and the words of the
current block with the place of the next one to be taken. -/
structure ChaCha where
  /-- The key. -/
  key : Vector UInt32 8
  /-- The number of the next block. -/
  counter : UInt64
  /-- The words of the current block. -/
  block : Vector UInt64 8
  /-- The place of the next word in the block; there is none left at its end. -/
  position : Nat

namespace ChaCha

/-- A word with its bits rotated to the left. -/
def rotateLeft (x : UInt32) (bits : UInt32) : UInt32 := (x <<< bits) ||| (x >>> (32 - bits))

/-- The quarter round on four places of the square. -/
def quarterRound (s : Vector UInt32 16) (a b c d : Fin 16) : Vector UInt32 16 :=
  let s := s.set a (s[a] + s[b])
  let s := s.set d (rotateLeft (s[d] ^^^ s[a]) 16)
  let s := s.set c (s[c] + s[d])
  let s := s.set b (rotateLeft (s[b] ^^^ s[c]) 12)
  let s := s.set a (s[a] + s[b])
  let s := s.set d (rotateLeft (s[d] ^^^ s[a]) 8)
  let s := s.set c (s[c] + s[d])
  s.set b (rotateLeft (s[b] ^^^ s[c]) 7)

/-- A round on the columns of the square and one on its diagonals. -/
def doubleRound (s : Vector UInt32 16) : Vector UInt32 16 :=
  let s := quarterRound s 0 4 8 12
  let s := quarterRound s 1 5 9 13
  let s := quarterRound s 2 6 10 14
  let s := quarterRound s 3 7 11 15
  let s := quarterRound s 0 5 10 15
  let s := quarterRound s 1 6 11 12
  let s := quarterRound s 2 7 8 13
  quarterRound s 3 4 9 14

/-- The square of constants, key and block number. -/
def square (key : Vector UInt32 8) (counter : UInt64) : Vector UInt32 16 :=
  #v[0x61707865, 0x3320646e, 0x79622d32, 0x6b206574,
    key[0], key[1], key[2], key[3], key[4], key[5], key[6], key[7],
    counter.toUInt32, (counter >>> 32).toUInt32, 0, 0]

/-- The words of a block. -/
def blockOf (key : Vector UInt32 8) (counter : UInt64) : Vector UInt64 8 :=
  let start := square key counter
  let scrambled := Nat.fold 6 (fun _ _ s => doubleRound s) start
  let words : Vector UInt32 16 := Vector.ofFn fun i => scrambled[i] + start[i]
  Vector.ofFn fun i =>
    have := i.isLt
    words[2 * i.val].toUInt64 ||| (words[2 * i.val + 1].toUInt64 <<< 32)

/-- The stream of a key. -/
def ofKey (key : Vector UInt32 8) : ChaCha := ⟨key, 1, blockOf key 0, 0⟩

/-- The next word and the stream after it. -/
def next (c : ChaCha) : UInt64 × ChaCha :=
  if h : c.position < 8 then (c.block[c.position], { c with position := c.position + 1 })
  else
    let block := blockOf c.key c.counter
    (block[0], { c with counter := c.counter + 1, block := block, position := 1 })

/-- One step of the linear congruence that spreads a seed over a key. -/
def spreadStep (s : UInt64) : UInt64 := s * 6364136223846793005 + 11634580027462260723

/-- The key word of a state of the congruence: high bits, rotated by the highest ones. -/
def spreadWord (s : UInt64) : UInt32 :=
  let x := (((s >>> 18) ^^^ s) >>> 27).toUInt32
  let turn := (s >>> 59).toUInt32
  (x >>> turn) ||| (x <<< ((32 - turn) % 32))

/-- The key of a seed. -/
def keyOfSeed (seed : UInt64) : Vector UInt32 8 :=
  (Nat.fold 8 (fun i _ (key, s) =>
    let s := spreadStep s
    (key.set! i (spreadWord s), s)) (Vector.replicate 8 0, seed)).1

/-- The stream of a seed. -/
def ofSeed (seed : UInt64) : ChaCha := ofKey (keyOfSeed seed)

end ChaCha

end Seeing
