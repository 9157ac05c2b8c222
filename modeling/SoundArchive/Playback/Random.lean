import SoundArchive.Playback.Score

/-!
# Random numbers of a seed

Random numbers come from the ChaCha stream cipher with twelve rounds. A seed of 64 bits is
stretched to the key; the words of the key stream, block after block, are the random words. A
number of a range is drawn by multiplication, and words that would favour some numbers are
passed over.
-/

namespace SoundArchive

/-- The words of a block of the cipher. -/
abbrev CipherBlock := Vector UInt32 16

namespace ChaCha

def rotateLeft (x : UInt32) (n : UInt32) : UInt32 := (x <<< n) ||| (x >>> (32 - n))

def rotateRight (x : UInt32) (n : UInt32) : UInt32 :=
  if n = 0 then x else (x >>> n) ||| (x <<< (32 - n))

/-- The step that mixes four words of a block. -/
def quarterRound (s : CipherBlock) (a b c d : Fin 16) : CipherBlock :=
  let wa := s[a] + s[b]
  let wd := rotateLeft (s[d] ^^^ wa) 16
  let wc := s[c] + wd
  let wb := rotateLeft (s[b] ^^^ wc) 12
  let wa := wa + wb
  let wd := rotateLeft (wd ^^^ wa) 8
  let wc := wc + wd
  let wb := rotateLeft (wb ^^^ wc) 7
  (((s.set a wa).set b wb).set c wc).set d wd

/-- A round down the columns and one along the diagonals. -/
def doubleRound (s : CipherBlock) : CipherBlock :=
  let s := quarterRound s 0 4 8 12
  let s := quarterRound s 1 5 9 13
  let s := quarterRound s 2 6 10 14
  let s := quarterRound s 3 7 11 15
  let s := quarterRound s 0 5 10 15
  let s := quarterRound s 1 6 11 12
  let s := quarterRound s 2 7 8 13
  quarterRound s 3 4 9 14

def doubleRounds : Nat := 6

def initial (key : Vector UInt32 8) (number : UInt64) : CipherBlock :=
  #v[0x61707865, 0x3320646E, 0x79622D32, 0x6B206574, key[0], key[1], key[2], key[3], key[4],
    key[5], key[6], key[7], number.toUInt32, (number >>> 32).toUInt32, 0, 0]

def block (key : Vector UInt32 8) (number : UInt64) : CipherBlock :=
  let start := initial key number
  (doubleRounds.repeat doubleRound start).zipWith (· + ·) start

/-! ## The key of a seed -/

def nextState (state : UInt64) : UInt64 := state * 6364136223846793005 + 11634580027462260723

/-- The word that a state of the seed stands for. -/
def seedWord (state : UInt64) : UInt32 :=
  rotateRight (((state >>> 18) ^^^ state) >>> 27).toUInt32 (state >>> 59).toUInt32

def keyOfSeed (seed : UInt64) : Vector UInt32 8 :=
  Vector.ofFn fun i => seedWord ((i.val + 1).repeat nextState seed)

end ChaCha

/-- A word of the key stream. -/
def ChaCha.word (key : Vector UInt32 8) (n : Nat) : UInt32 :=
  (ChaCha.block key (n / 16).toUInt64).get ⟨n % 16, Nat.mod_lt n (by decide)⟩

namespace Randomness

def wordCount : Nat := 0x100000000

/-- Words whose product with `range` has a low half beyond this are passed over. -/
def lastFairHalf (range : Nat) : Nat := wordCount - 1 - wordCount % range

/-- A number below `range`, from the first fair one of at most `tries` words. -/
def below (word : Nat → UInt32) (range : Nat) : (tries : Nat) → (used : Nat) → Nat × Nat
  | 0, used => (0, used)
  | tries + 1, used =>
    let product := (word used).toNat * range
    if product % wordCount ≤ lastFairHalf range then (product / wordCount, used + 1)
    else below word range tries (used + 1)

/-- A word is unfair less than once in 65536 times, so this many in a row do not come up. -/
def maxTries : Nat := 1000

/-- A number between two bounds, both inclusive and in either order. -/
def between (word : Nat → UInt32) (used : Nat) (a b : Int16) : Int16 × Nat :=
  let low := min a b
  let high := max a b
  let range := (high - low + 1).toUInt16.toNat
  if range = 0 then ((word used).toUInt16.toInt16, used + 1)
  else
    let (offset, used) := below word range maxTries used
    (low + offset.toUInt16.toInt16, used)

def ofSeed (seed : UInt64) : Randomness :=
  let key := ChaCha.keyOfSeed seed
  { draw := between (ChaCha.word key) }

end Randomness

end SoundArchive
