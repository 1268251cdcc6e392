import LaneAuction.Bytes

/-!
# Hexadecimal text

Two digits a byte, high half first. Writing uses lower-case digits; reading accepts either case.
A `Bytes32` is written after the marker `0x`, which a reader may find or miss.
-/

namespace LaneAuction

namespace Hex

/-- The two digits of one byte. -/
def pair (b : UInt8) : List Char :=
  [Nat.digitChar (b.toNat / 16), Nat.digitChar (b.toNat % 16)]

/-- The value of a hexadecimal digit of either case. -/
def digit? (c : Char) : Option Nat :=
  if '0' ≤ c ∧ c ≤ '9' then some (c.toNat - '0'.toNat)
  else if 'a' ≤ c ∧ c ≤ 'f' then some (c.toNat - 'a'.toNat + 10)
  else if 'A' ≤ c ∧ c ≤ 'F' then some (c.toNat - 'A'.toNat + 10)
  else none

/-- The digits of a byte string. -/
def encode (bs : Bytes) : List Char := bs.flatMap pair

/-- Reads digits two at a time; an odd count or any other character is refused. -/
def decode? : List Char → Option Bytes
  | [] => some []
  | hi :: lo :: rest => do
    let h ← digit? hi
    let l ← digit? lo
    let bs ← decode? rest
    return UInt8.ofNat (16 * h + l) :: bs
  | [_] => none

@[simp] theorem length_encode (bs : Bytes) : (encode bs).length = 2 * bs.length := by
  induction bs with
  | nil => rfl
  | cons b bs ih => simp [encode, pair] at ih ⊢; omega

/-- A digit that is written is read back as its value. -/
private theorem digit?_digitChar : ∀ n < 16, digit? (Nat.digitChar n) = some n := by decide

/-- Reading what was written gives the bytes back. -/
theorem decode?_encode (bs : Bytes) : decode? (encode bs) = some bs := by
  induction bs with
  | nil => rfl
  | cons b bs ih =>
    have hlt := b.toNat_lt
    have hhi := digit?_digitChar (b.toNat / 16) (by omega)
    have hlo := digit?_digitChar (b.toNat % 16) (by omega)
    have hb : UInt8.ofNat (16 * (b.toNat / 16) + b.toNat % 16) = b := by
      rw [Nat.div_add_mod, UInt8.ofNat_toNat]
    -- One step of the decoder, on the two digits of the first byte.
    change (do
      let h ← digit? (b.toNat / 16).digitChar
      let l ← digit? (b.toNat % 16).digitChar
      let rest ← decode? (encode bs)
      return UInt8.ofNat (16 * h + l) :: rest) = _
    rw [hhi, hlo, ih]
    simp only [Option.bind_eq_bind, Option.bind_some, hb, Option.pure_def]

end Hex

namespace Bytes32

/-- The marker `0x` and 64 lower-case digits. -/
def toHex (h : Bytes32) : String := String.ofList ('0' :: 'x' :: Hex.encode h.toList)

/-- The digits of the first four bytes, for messages. -/
def short (h : Bytes32) : String := String.ofList (Hex.encode (h.toList.take 4))

/-- Drops the marker `0x` if the text starts with it. -/
def dropMarker : List Char → List Char
  | '0' :: 'x' :: digits => digits
  | digits => digits

/-- Reads 64 digits, with or without the marker. -/
def ofHex? (text : String) : Option Bytes32 := do
  let bs ← Hex.decode? (dropMarker text.toList)
  ofList? bs

/-- Every value is read back from its own text. -/
theorem ofHex?_toHex (h : Bytes32) : ofHex? h.toHex = some h := by
  simp [ofHex?, toHex, dropMarker, Hex.decode?_encode, ofList?_eq_some_iff]

end Bytes32

end LaneAuction
