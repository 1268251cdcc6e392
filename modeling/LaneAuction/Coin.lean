import LaneAuction.Amount
import LaneAuction.Text.Quoted

/-!
# Coins

A coin is an amount of one denomination. Its text is the amount in decimal digits followed by the
denomination, as in `100stake`; a denomination starts with a letter, so the text can be split in
only one way.
-/

namespace LaneAuction

/-- The name of a kind of coin. -/
abbrev Denom := String

/-- Why an operation on amounts fails. -/
inductive AmountError where
  /-- The operands are of two denominations. -/
  | denomMismatch (left right : Denom)
  /-- The result is out of range. -/
  | overflow
  /-- The result is below zero. -/
  | underflow
  /-- The text is not that of a coin. -/
  | notACoin (text : String)
  /-- The text is not that of a decimal. -/
  | notADecimal (text : String)
deriving DecidableEq, Repr

/-- The wording of an amount error. -/
def AmountError.message : AmountError → String
  | .denomMismatch left right => s!"denom mismatch: {left} vs {right}"
  | .overflow => "amount overflow"
  | .underflow => "amount underflow"
  | .notACoin text => "parse error: invalid coin: " ++ Text.quote text
  | .notADecimal text => "parse error: invalid decimal: " ++ Text.quote text

namespace Denom

/-- The characters a denomination may hold after its first. -/
def isDenomChar (c : Char) : Bool :=
  c.isAlphanum || c == '/' || c == ':' || c == '.' || c == '_' || c == '-'

/-- A denomination has 3 to 128 characters, the first of them a letter. -/
def isValidList : List Char → Bool
  | [] => false
  | c :: cs => c.isAlpha && cs.all isDenomChar && 2 ≤ cs.length && cs.length ≤ 127

/-- True of a well-formed denomination. -/
def isValid (denom : Denom) : Bool := isValidList denom.toList

end Denom

/-- An amount of one denomination. -/
structure Coin where
  amount : Amount
  denom : Denom
deriving DecidableEq, Repr, Inhabited

namespace Coin

/-- The empty amount of a denomination. -/
def zero (denom : Denom) : Coin := ⟨.zero, denom⟩

/-- True of an empty amount. -/
def isZero (c : Coin) : Bool := c.amount.isZero

/-- True if the denomination is well formed. -/
def isValid (c : Coin) : Bool := Denom.isValid c.denom

/-- Coins are ordered by denomination, then by amount. -/
instance : Ord Coin := ⟨compareLex (compareOn denom) (compareOn amount)⟩

/-- The sum of two coins of one denomination. -/
def add (a b : Coin) : Except AmountError Coin :=
  if a.denom ≠ b.denom then .error (.denomMismatch a.denom b.denom)
  else match a.amount.add? b.amount with
    | some sum => .ok ⟨sum, a.denom⟩
    | none => .error .overflow

/-- The difference of two coins of one denomination. -/
def sub (a b : Coin) : Except AmountError Coin :=
  if a.denom ≠ b.denom then .error (.denomMismatch a.denom b.denom)
  else match a.amount.sub? b.amount with
    | some difference => .ok ⟨difference, a.denom⟩
    | none => .error .underflow

/-- The amount in decimal digits, then the denomination. -/
def toText (c : Coin) : String := toString c.amount.toNat ++ c.denom

instance : ToString Coin := ⟨toText⟩

/-- Reads the leading digits as the amount and all that follows as the denomination. -/
def ofText (text : String) : Except AmountError Coin :=
  let digits := text.toList.takeWhile Char.isDigit
  let denom := String.ofList (text.toList.dropWhile Char.isDigit)
  if digits.isEmpty || !Denom.isValid denom then .error (.notACoin text)
  else match Amount.ofNat? (Nat.ofDigitChars 10 digits 0) with
    | some amount => .ok ⟨amount, denom⟩
    | none => .error .overflow

end Coin

end LaneAuction
