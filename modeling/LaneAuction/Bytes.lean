/-!
# Byte strings

Byte strings are lists of bytes, so that every reader and writer of the library can be
reasoned about with list lemmas. `Bytes32` is a byte string of exactly 32 bytes, the form of
both hashes and addresses, ordered lexicographically.

Numbers are laid out in little-endian order. Main statements: `Bytes.toNat_ofNat` and
`Bytes.ofNat_toNat` say that the layout of a number of fixed width is a bijection.
-/

namespace LaneAuction

/-- A string of bytes, first byte first. -/
abbrev Bytes := List UInt8

namespace Bytes

/-- The `width` low bytes of a number, the least significant first. -/
def ofNat : (width : Nat) → Nat → Bytes
  | 0, _ => []
  | width + 1, n => UInt8.ofNat n :: ofNat width (n / 256)

/-- The number whose little-endian bytes these are. -/
def toNat : Bytes → Nat
  | [] => 0
  | b :: bs => b.toNat + 256 * toNat bs

@[simp] theorem length_ofNat (width n : Nat) : (ofNat width n).length = width := by
  induction width generalizing n with
  | zero => rfl
  | succ width ih => simp [ofNat, ih]

/-- One more byte has 256 times the values. -/
private theorem one_shiftLeft_succ (width : Nat) :
    1 <<< (8 * (width + 1)) = 256 * 1 <<< (8 * width) := by
  rw [Nat.mul_add, Nat.shiftLeft_add]
  omega

/-- The bytes of a number determine it modulo the width's range. -/
theorem toNat_ofNat (width n : Nat) : toNat (ofNat width n) = n % 1 <<< (8 * width) := by
  induction width generalizing n with
  | zero => exact (Nat.mod_one n).symm
  | succ width ih =>
    rw [one_shiftLeft_succ, Nat.mod_mul]
    simp only [ofNat, toNat, ih, UInt8.toNat_ofNat']

/-- The value of a byte string is below the range of its length. -/
theorem toNat_lt (bs : Bytes) : toNat bs < 1 <<< (8 * bs.length) := by
  induction bs with
  | nil => exact Nat.zero_lt_one
  | cons b bs ih =>
    have := b.toNat_lt
    rw [List.length_cons, one_shiftLeft_succ, toNat]
    omega

/-- Laying out the number that some bytes stand for gives those bytes again. -/
theorem ofNat_toNat (bs : Bytes) : ofNat bs.length (toNat bs) = bs := by
  induction bs with
  | nil => rfl
  | cons b bs ih =>
    have hlt := b.toNat_lt
    have hdiv : (b.toNat + 256 * toNat bs) / 256 = toNat bs := by omega
    have hmod : UInt8.ofNat (b.toNat + 256 * toNat bs) = b := by
      apply UInt8.toNat_inj.mp
      rw [UInt8.toNat_ofNat']
      omega
    simp only [List.length_cons, toNat, ofNat, hdiv, hmod, ih]

end Bytes

/-- A byte string of exactly 32 bytes. -/
structure Bytes32 where
  toList : Bytes
  length_toList : toList.length = 32
deriving DecidableEq, Repr

/-- The digest that names a transaction, a bundle or a block. -/
abbrev Hash := Bytes32

/-- An account: the Ed25519 public key that signs for it. -/
abbrev Address := Bytes32

namespace Bytes32

attribute [simp] length_toList

/-- Values are equal if their bytes are. -/
@[ext] theorem ext {a b : Bytes32} (h : a.toList = b.toList) : a = b := by
  cases a; cases b; simp_all

/-- Takes a byte string that has the right length. -/
def ofList? (bs : Bytes) : Option Bytes32 :=
  if h : bs.length = 32 then some ⟨bs, h⟩ else none

/-- One byte, 32 times. -/
def replicate (b : UInt8) : Bytes32 := ⟨List.replicate 32 b, by simp⟩

/-- The 32 zero bytes. -/
def zero : Bytes32 := replicate 0

instance : Inhabited Bytes32 := ⟨zero⟩

instance : Ord Bytes32 := ⟨compareOn toList⟩

instance : Std.TransOrd Bytes32 := inferInstanceAs (Std.TransCmp (compareOn toList))

instance : Std.LawfulEqOrd Bytes32 where
  eq_of_compare h := ext (Std.LawfulEqOrd.eq_of_compare (α := Bytes) h)

/-- A list is the bytes of a value if and only if it is the list of that value. -/
theorem ofList?_eq_some_iff {bs : Bytes} {h : Bytes32} : ofList? bs = some h ↔ bs = h.toList := by
  unfold ofList?
  split
  · constructor
    · rintro ⟨⟩; rfl
    · rintro rfl; rfl
  · rename_i hne
    exact ⟨nofun, fun e => absurd (e ▸ h.length_toList) hne⟩

end Bytes32

end LaneAuction
