import LaneAuction.Digest.Sha2
import LaneAuction.Signature.Edwards25519

/-!
# Ed25519

Signatures over the curve edwards25519 with SHA-512. Signing is deterministic. Verification
recomputes the first half of the signature and compares its bytes, without multiplying by the
cofactor; of the second half it accepts only the least representative.
-/

namespace LaneAuction

/-- A signature: the commitment `R` and the response `s`, 32 bytes each. -/
structure Signature where
  toList : Bytes
  length_toList : toList.length = 64
deriving DecidableEq, Repr

namespace Signature

attribute [simp] length_toList

/-- Signatures are equal if their bytes are. -/
@[ext] theorem ext {a b : Signature} (h : a.toList = b.toList) : a = b := by
  cases a; cases b; simp_all

/-- Takes a byte string that has the right length. -/
def ofList? (bs : Bytes) : Option Signature :=
  if h : bs.length = 64 then some ⟨bs, h⟩ else none

/-- The 64 zero bytes. -/
def zero : Signature := ⟨List.replicate 64 0, by simp⟩

instance : Inhabited Signature := ⟨zero⟩

end Signature

namespace Ed25519

open Edwards25519

/-- The number that a SHA-512 digest stands for, modulo the group order. -/
def challenge (bs : Bytes) : Nat := Bytes.toNat (Sha2.hash512 bs) % order

/-- A secret key expanded: the scalar, and the bytes that make signing deterministic. -/
structure Expanded where
  scalar : Nat
  nonceKey : Bytes

/-- Expands a secret seed. The scalar is a multiple of 8 between `2 ^ 254` and `2 ^ 255`. -/
def expand (seed : Bytes32) : Expanded :=
  -- The lower half gives the scalar: the three lowest bits are cleared, bit 254 is the highest.
  let digest := Sha2.hash512 seed.toList
  let low := Bytes.toNat (digest.take 32)
  ⟨1 <<< 254 + low % (1 <<< 254) / 8 * 8, digest.drop 32⟩

/-- The 32 bytes of a point as a key. -/
def keyOf (P : Point) : Address := ⟨P.compress, Bytes.length_ofNat ..⟩

/-- The public key of a secret seed. -/
def publicKey (seed : Bytes32) : Address := keyOf (Point.smul (expand seed).scalar Point.base)

/-- Signs a message under a secret seed. -/
def sign (seed : Bytes32) (message : Bytes) : Signature :=
  let key := expand seed
  let r := challenge (key.nonceKey ++ message)
  let commitment := (Point.smul r Point.base).compress
  let k := challenge (commitment ++ (publicKey seed).toList ++ message)
  ⟨commitment ++ Bytes.ofNat 32 ((r + k * key.scalar) % order),
    by simp [commitment, Point.compress]⟩

/-- True if the signature is one of the message under the key. -/
def verify (message : Bytes) (signature : Signature) (key : Address) : Bool :=
  match Point.decompress? key.toList with
  | none => false
  | some A =>
    -- The commitment is not decoded: the point found must have these very bytes.
    let commitment := signature.toList.take 32
    let s := Bytes.toNat (signature.toList.drop 32)
    let k := challenge (commitment ++ key.toList ++ message)
    s < order && ((Point.smul s Point.base).add (Point.smul k A).neg).compress == commitment

end Ed25519

end LaneAuction
