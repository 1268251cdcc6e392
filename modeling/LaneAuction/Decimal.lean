import LaneAuction.Coin

/-!
# Decimals

A decimal is a count of units of `10 ^ -18`, below `2 ^ 128` of them, so that all arithmetic on
fractions is exact integer arithmetic. Its text has as few digits as the value needs.
-/

namespace LaneAuction

/-- A non-negative number with 18 places. -/
structure Decimal where
  atomics : Amount
deriving DecidableEq, Repr

namespace Decimal

/-- The number of places. -/
def places : Nat := 18

/-- The units in one. -/
def scale : Nat := Nat.pow 10 places

/-- The units in `n`, if they are in range. -/
def ofAtomics? (n : Nat) : Option Decimal := (Amount.ofNat? n).map mk

def zero : Decimal := ⟨.zero⟩

def one : Decimal := ⟨⟨scale, by decide⟩⟩

instance : Inhabited Decimal := ⟨zero⟩

instance : LE Decimal := ⟨fun a b => a.atomics ≤ b.atomics⟩
instance : LT Decimal := ⟨fun a b => a.atomics < b.atomics⟩
instance : DecidableLE Decimal := fun a b => inferInstanceAs (Decidable (a.atomics ≤ b.atomics))
instance : DecidableLT Decimal := fun a b => inferInstanceAs (Decidable (a.atomics < b.atomics))

/-- True of the empty fraction. -/
def isZero (d : Decimal) : Bool := d.atomics.isZero

/-- True of a fraction of the whole: at most one. -/
def isFraction (d : Decimal) : Bool := d.atomics.toNat ≤ scale

/-- The number `numerator / 10 ^ digits`, if it has at most 18 places and is in range. -/
def ofRatio? (numerator : Amount) (digits : Nat) : Option Decimal :=
  if places < digits then none else ofAtomics? (numerator.toNat * Nat.pow 10 (places - digits))

/-- The sum, unless it is out of range. -/
def add? (a b : Decimal) : Option Decimal := (a.atomics.add? b.atomics).map mk

/-- The whole part of `amount` times the decimal.

The amount is split into multiples of the scale and a rest, each multiplied on its own; the result
is refused if one of the partial products or their sum is out of range. -/
def mulFloor (d : Decimal) (amount : Amount) : Option Amount := do
  -- Multiples of the scale lose nothing, so only the rest is rounded down.
  let high ← Amount.ofNat? (amount.toNat / scale * d.atomics.toNat)
  let low ← Amount.ofNat? (amount.toNat % scale * d.atomics.toNat)
  Amount.ofNat? (high.toNat + low.toNat / scale)

/-- `mulFloor` on 64-bit capacities, such as bytes and gas. -/
def mulFloor64 (d : Decimal) (capacity : UInt64) : Option UInt64 := do
  let amount ← Amount.ofNat? capacity.toNat
  let product ← d.mulFloor amount
  if product.toNat < UInt64.size then some (UInt64.ofNat product.toNat) else none

/-- Drops the zeros at the end of a run of digits. -/
def trimZeros (digits : List Char) : List Char :=
  (digits.reverse.dropWhile (· == '0')).reverse

/-- The text of a count of units: the whole part, and the places up to the last that is not zero. -/
def toChars (d : Decimal) : List Char :=
  let whole := Nat.toDigits 10 (d.atomics.toNat / scale)
  let rest := d.atomics.toNat % scale
  if rest = 0 then whole
  else whole ++ '.' :: trimZeros ((Nat.toDigits 10 rest).leftpad places '0')

def toText (d : Decimal) : String := String.ofList d.toChars

instance : ToString Decimal := ⟨toText⟩

/-- Reads digits, and after a point up to 18 more. A whole part that is out of range as a count is
refused as malformed; one that is out of range only once scaled, as an overflow. -/
def ofText (text : String) : Except AmountError Decimal :=
  let whole := text.toList.takeWhile (· != '.')
  let rest := text.toList.dropWhile (· != '.')
  let fraction := rest.drop 1
  if whole.isEmpty || !whole.all Char.isDigit
      || places < fraction.length || !fraction.all Char.isDigit
      || (!rest.isEmpty && fraction.isEmpty) then
    .error (.notADecimal text)
  else
    let wholePart := Nat.ofDigitChars 10 whole 0
    let fractionUnits := Nat.ofDigitChars 10 fraction 0 * Nat.pow 10 (places - fraction.length)
    match Amount.ofNat? wholePart with
    | none => .error (.notADecimal text)
    | some _ =>
      match ofAtomics? (wholePart * scale + fractionUnits) with
      | some d => .ok d
      | none => .error .overflow

end Decimal

end LaneAuction
