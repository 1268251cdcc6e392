import LaneAuction.Bytes

/-!
# SHA-2

SHA-256, which commits to ordered lists of hashes, and SHA-512, which Ed25519 signs with. Both are
one algorithm over words of 32 or 64 bits; what differs is collected in `Word`.
-/

namespace LaneAuction.Sha2

/-- A word size of the family, with the amounts by which its six functions rotate and shift. -/
class Word (W : Type) extends Add W, AndOp W, XorOp W, Complement W where
  bits : Nat
  rounds : Nat
  ofNat : Nat → W
  toNat : W → Nat
  rotate : W → Nat → W
  shift : W → Nat → W
  sum0 : Nat × Nat × Nat
  sum1 : Nat × Nat × Nat
  extend0 : Nat × Nat × Nat
  extend1 : Nat × Nat × Nat

instance : Word UInt32 where
  bits := 32
  rounds := 64
  ofNat := UInt32.ofNat
  toNat := UInt32.toNat
  rotate x n := (x >>> UInt32.ofNat n) ||| (x <<< UInt32.ofNat (32 - n))
  shift x n := x >>> UInt32.ofNat n
  sum0 := (2, 13, 22)
  sum1 := (6, 11, 25)
  extend0 := (7, 18, 3)
  extend1 := (17, 19, 10)

instance : Word UInt64 where
  bits := 64
  rounds := 80
  ofNat := UInt64.ofNat
  toNat := UInt64.toNat
  rotate x n := (x >>> UInt64.ofNat n) ||| (x <<< UInt64.ofNat (64 - n))
  shift x n := x >>> UInt64.ofNat n
  sum0 := (28, 34, 39)
  sum1 := (14, 18, 41)
  extend0 := (1, 8, 7)
  extend1 := (19, 61, 6)

/-! ### Constants -/

/-- The largest `r` below `low + 2 ^ bits` whose `k`-th power is at most `n`, from a `low` that
qualifies. -/
def rootFrom (k n : Nat) : (bits : Nat) → (low : Nat) → Nat
  | 0, low => low
  | bits + 1, low =>
    let next := low + 1 <<< bits
    rootFrom k n bits (if Nat.pow next k ≤ n then next else low)

/-- The first `bits` bits of the fractional part of the `k`-th root of `n`. -/
def rootFraction (k bits n : Nat) : Nat :=
  rootFrom k (n <<< (k * bits)) (bits + 8) 0 % (1 <<< bits)

/-- The first 80 prime numbers. -/
def primes : List Nat :=
  (List.range 410).filter fun n => 2 ≤ n && (List.range n).all fun d => d < 2 || n % d != 0

section
variable {W : Type} [Word W]

/-- The constants of the rounds, from the cube roots of the first primes. -/
def roundConstants (W : Type) [Word W] : List W :=
  (primes.take (Word.rounds W)).map fun n => Word.ofNat (rootFraction 3 (Word.bits W) n)

/-! ### Compression -/

/-- The words of a block. -/
abbrev blockWords : Nat := 16

/-- The eight words of the chaining state. -/
structure State (W : Type) where
  a : W
  b : W
  c : W
  d : W
  e : W
  f : W
  g : W
  h : W

/-- The state before the first block, from the square roots of the first primes. -/
def start (W : Type) [Word W] : State W :=
  let root n : W := Word.ofNat (rootFraction 2 (Word.bits W) n)
  ⟨root 2, root 3, root 5, root 7, root 11, root 13, root 17, root 19⟩

/-- The exclusive or of three rotations. -/
@[specialize] def rotations (x : W) (n : Nat × Nat × Nat) : W :=
  Word.rotate x n.1 ^^^ Word.rotate x n.2.1 ^^^ Word.rotate x n.2.2

/-- The exclusive or of two rotations and a shift. -/
@[specialize] def rotationsShift (x : W) (n : Nat × Nat × Nat) : W :=
  Word.rotate x n.1 ^^^ Word.rotate x n.2.1 ^^^ Word.shift x n.2.2

/-- One round, with the sum of its constant and its message word. -/
@[specialize] def State.round (s : State W) (kw : W) : State W :=
  let choice := (s.e &&& s.f) ^^^ (~~~s.e &&& s.g)
  let majority := (s.a &&& s.b) ^^^ (s.a &&& s.c) ^^^ (s.b &&& s.c)
  let t1 := s.h + rotations s.e (Word.sum1 W) + choice + kw
  let t2 := rotations s.a (Word.sum0 W) + majority
  ⟨t1 + t2, s.a, s.b, s.c, s.d + t1, s.e, s.f, s.g⟩

/-- Drops the first of the sixteen current message words and appends the next. -/
@[specialize] def extend (w : Vector W blockWords) : Vector W blockWords :=
  let next := rotationsShift w[14] (Word.extend1 W) + w[9] +
    rotationsShift w[1] (Word.extend0 W) + w[0]
  (w.drop 1).push next

/-- Word-wise sum of two states. -/
@[specialize] def State.add (s t : State W) : State W :=
  ⟨s.a + t.a, s.b + t.b, s.c + t.c, s.d + t.d, s.e + t.e, s.f + t.f, s.g + t.g, s.h + t.h⟩

/-- Runs all rounds over the sixteen words of one block. -/
@[specialize] def State.compress (s : State W) (constants : List W) (block : Vector W blockWords) :
    State W :=
  -- The message words slide along with the rounds, so that the next one stands in front.
  let final := constants.foldl
    (fun (st : State W × Vector W blockWords) k => (st.1.round (k + st.2[0]), extend st.2))
    (s, block)
  s.add final.1

/-! ### Messages -/

/-- The number that bytes stand for, most significant first. -/
def bigEndian (bs : Bytes) : Nat := Bytes.toNat bs.reverse

/-- The sixteen words at the front of a byte string. -/
@[specialize] def blockOf (bs : Bytes) : Vector W blockWords :=
  -- Words missing at the end of the bytes are read as zero.
  let size := Word.bits W / 8
  Vector.ofFn fun i => Word.ofNat (bigEndian ((bs.drop (size * i.val)).take size))

/-- The message, a single one bit, zeros, and the length in bits, up to a whole block. -/
def pad (bits : Nat) (bs : Bytes) : Bytes :=
  -- A block is sixteen words long, the length field two words.
  let block := 2 * bits
  let lengthBytes := bits / 4
  let zeros := (block - (bs.length + 1 + lengthBytes) % block) % block
  bs ++ 0x80 :: List.replicate zeros 0 ++ (Bytes.ofNat lengthBytes (8 * bs.length)).reverse

/-- Feeds the state with the first `count` blocks of a byte string. -/
@[specialize] def absorb (constants : List W) : (count : Nat) → State W → Bytes → State W
  | 0, s, _ => s
  | count + 1, s, bs =>
    absorb constants count (s.compress constants (blockOf bs)) (bs.drop (2 * Word.bits W))

/-- The bytes of a word, most significant first. -/
@[specialize] def bytesOfWord (w : W) : Bytes :=
  (Bytes.ofNat (Word.bits W / 8) (Word.toNat w)).reverse

/-- The bytes of a state, word by word. -/
@[specialize] def State.toBytes (s : State W) : Bytes :=
  [s.a, s.b, s.c, s.d, s.e, s.f, s.g, s.h].flatMap bytesOfWord

/-- A state is written as its eight words, each in whole bytes. -/
private theorem State.length_toBytes (s : State W) : s.toBytes.length = 8 * (Word.bits W / 8) := by
  simp [State.toBytes, bytesOfWord]
  omega

end

/-- The round constants of SHA-256. -/
def constants256 : List UInt32 := roundConstants UInt32

/-- The round constants of SHA-512. -/
def constants512 : List UInt64 := roundConstants UInt64

/-- The state that SHA-256 starts from. -/
def start256 : State UInt32 := start UInt32

/-- The state that SHA-512 starts from. -/
def start512 : State UInt64 := start UInt64

/-- The final state of SHA-256. -/
def digest256 (bs : Bytes) : State UInt32 :=
  let padded := pad 32 bs
  absorb constants256 (padded.length / 64) start256 padded

/-- The SHA-256 digest of a byte string. -/
def hash256 (bs : Bytes) : Hash := ⟨(digest256 bs).toBytes, State.length_toBytes _⟩

/-- The SHA-512 digest of a byte string, 64 bytes. -/
def hash512 (bs : Bytes) : Bytes :=
  let padded := pad 64 bs
  (absorb constants512 (padded.length / 128) start512 padded).toBytes

/-- The digest of an ordered list of hashes: of their bytes, one after the other. -/
def orderedDigest (hashes : List Hash) : Hash := hash256 (hashes.flatMap (·.toList))

end LaneAuction.Sha2
