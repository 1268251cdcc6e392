import LaneAuction.Json.Value

/-!
# Writing JSON

A value is written on one line, or laid out with one item a line and two spaces for each level of
nesting; empty lists and objects take no line of their own in either layout.
-/

namespace LaneAuction.Json

/-- A hexadecimal code of four digits. -/
def fourDigits (code : Nat) : List Char := (Nat.toDigits 16 code).leftpad 4 '0'

/-- The written form of one symbol. -/
def Symbol.print : Symbol → List Char
  | .surrogate code => '\\' :: 'u' :: fourDigits code
  | .char c =>
    if c = '"' then ['\\', '"']
    else if c = '\\' then ['\\', '\\']
    else if c = '\x08' then ['\\', 'b']
    else if c = '\x0c' then ['\\', 'f']
    else if c = '\n' then ['\\', 'n']
    else if c = '\r' then ['\\', 'r']
    else if c = '\t' then ['\\', 't']
    else if c.toNat < 0x20 then '\\' :: 'u' :: fourDigits c.toNat
    else [c]

/-- The written form of a string. -/
def Symbols.print (s : Symbols) : List Char := '"' :: s.flatMap Symbol.print ++ ['"']

/-- How a value is laid out: on one line, or with items on lines of their own at a level. -/
abbrev Layout := Option Nat

namespace Layout

/-- What stands before an item. -/
def newline : Layout → List Char
  | none => []
  | some level => '\n' :: List.replicate (2 * level) ' '

/-- What stands between a name and its value. -/
def colon : Layout → List Char
  | none => [':']
  | some _ => [':', ' ']

/-- The layout of the items inside a value. -/
def inner (layout : Layout) : Layout := layout.map (· + 1)

end Layout

mutual

/-- The written form of a value. -/
def Value.print (layout : Layout) : Value → List Char
  | .null => "null".toList
  | .bool true => "true".toList
  | .bool false => "false".toList
  | .number digits => digits
  | .string s => s.print
  | .list [] => ['[', ']']
  | .list (v :: vs) =>
    '[' :: layout.inner.newline ++ v.print layout.inner ++ printItems layout.inner vs
      ++ layout.newline ++ [']']
  | .object [] => ['\x7b', '\x7d']
  | .object (m :: ms) =>
    '\x7b' :: layout.inner.newline ++ printMember layout.inner m ++ printMembers layout.inner ms
      ++ layout.newline ++ ['\x7d']

/-- The written form of a member. -/
def printMember (layout : Layout) : Symbols × Value → List Char
  | (name, v) => name.print ++ layout.colon ++ v.print layout

/-- The written form of further items. -/
def printItems (layout : Layout) : List Value → List Char
  | [] => []
  | v :: vs => ',' :: layout.newline ++ v.print layout ++ printItems layout vs

/-- The written form of further members. -/
def printMembers (layout : Layout) : List (Symbols × Value) → List Char
  | [] => []
  | m :: ms => ',' :: layout.newline ++ printMember layout m ++ printMembers layout ms

end

/-- The text of a value on one line. -/
def Value.toLine (v : Value) : String := String.ofList (v.print none)

/-- The text of a value with one item a line. -/
def Value.toLines (v : Value) : String := String.ofList (v.print (some 0))

end LaneAuction.Json
