/-!
# JSON values

The values of JSON as they are written: numbers keep their digits, objects keep the order of their
members and members of equal name. A string may escape one half of a surrogate pair without the
other; such a string is a value, but it stands for no text.
-/

namespace LaneAuction.Json

/-- One symbol of a string: a character, or half of a surrogate pair that is escaped. -/
inductive Symbol where
  | char (c : Char)
  | surrogate (code : Nat)
deriving DecidableEq, Repr

/-- The symbols of a string. -/
abbrev Symbols := List Symbol

/-- The character of a surrogate pair. -/
def pairedChar (high low : Nat) : Char :=
  Char.ofNat (0x10000 + (high - 0xd800) * 0x400 + (low - 0xdc00))

/-- The characters that symbols stand for, if no half of a pair is alone. -/
def Symbols.chars? : Symbols → Option (List Char)
  | [] => some []
  | .char c :: rest => (c :: ·) <$> chars? rest
  | .surrogate high :: .surrogate low :: rest =>
    if high < 0xdc00 ∧ 0xdc00 ≤ low then (pairedChar high low :: ·) <$> chars? rest else none
  | .surrogate _ :: _ => none

/-- The text that symbols stand for. -/
def Symbols.text? (s : Symbols) : Option String := (chars? s).map String.ofList

/-- The symbols of a text. -/
def Symbols.ofText (text : String) : Symbols := text.toList.map .char

/-- A JSON value. -/
inductive Value where
  | null
  | bool (b : Bool)
  | number (digits : List Char)
  | string (symbols : Symbols)
  | list (items : List Value)
  | object (members : List (Symbols × Value))
deriving Repr, Inhabited

namespace Value

/-- The string of a text. -/
def ofText (text : String) : Value := .string (.ofText text)

/-- The number with the given value. -/
def ofNat (n : Nat) : Value := .number (Nat.toDigits 10 n)

/-- The object with the given members. -/
def ofFields (fields : List (String × Value)) : Value :=
  .object (fields.map fun (name, v) => (.ofText name, v))

/-- The text of a string. -/
def text? : Value → Option String
  | .string s => s.text?
  | _ => none

/-- The truth value of `true` and `false`. -/
def bool? : Value → Option Bool
  | .bool b => some b
  | _ => none

/-- The number below a bound that is written with digits alone. -/
def natBelow? (bound : Nat) : Value → Option Nat
  | .number digits =>
    if digits.all Char.isDigit ∧ Nat.ofDigitChars 10 digits 0 < bound then
      some (Nat.ofDigitChars 10 digits 0)
    else none
  | _ => none

/-- A 32-bit word. -/
def word32? (v : Value) : Option UInt32 := (v.natBelow? UInt32.size).map UInt32.ofNat

/-- A 64-bit word. -/
def word64? (v : Value) : Option UInt64 := (v.natBelow? UInt64.size).map UInt64.ofNat

/-- The items of a list, each read in the same way. -/
def list? {α : Type} (read : Value → Option α) : Value → Option (List α)
  | .list items => items.mapM read
  | _ => none

/-- The members of an object by name, repeated names included. -/
def members? : Value → Option (List (String × Value))
  | .object members => members.mapM fun (name, v) => return (← name.text?, v)
  | _ => none

/-- The fields of a record with the given names. It is an object, in which each of the names comes
at most once and other names are skipped, or a list that starts with the fields in their order. -/
def fields? (names : List String) : Value → Option (String → Option Value)
  | .list items =>
    if items.length ≤ names.length then some fun name => items[names.idxOf name]? else none
  | v => do
    let members ← v.members?
    if names.all fun name => members.countP (·.1 == name) ≤ 1 then
      some fun name => members.lookup name
    else none

end Value

/-- Reads a field that must be there. -/
def need {α : Type} (fields : String → Option Value) (name : String) (read : Value → Option α) :
    Option α :=
  (fields name).bind read

/-- Reads a field, which is `default` if it is not there. -/
def needOr {α : Type} (fields : String → Option Value) (name : String) (default : α)
    (read : Value → Option α) : Option α :=
  match fields name with
  | some v => read v
  | none => some default

end LaneAuction.Json
