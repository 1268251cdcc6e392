import LaneAuction.Text.Inkless

/-!
# Quoted text

Messages quote the texts they mention: between double quotes, with `\` before a quote, a backslash
and the letters of the common controls, and every other character without ink as its code point in
hexadecimal, as in `\u{200b}`.
-/

namespace LaneAuction.Text

/-- The written form of one character of a quoted text. -/
def escape (c : Char) : List Char :=
  match c with
  | '"' => ['\\', '"']
  | '\\' => ['\\', '\\']
  | '\n' => ['\\', 'n']
  | '\r' => ['\\', 'r']
  | '\t' => ['\\', 't']
  | '\x00' => ['\\', '0']
  | c => if isInkless c then ['\\', 'u', '\x7b'] ++ Nat.toDigits 16 c.toNat ++ ['\x7d'] else [c]

/-- The text between double quotes, with every character escaped as it needs. -/
def quote (text : String) : String :=
  String.ofList ('"' :: text.toList.flatMap escape ++ ['"'])

/-- A list between square brackets, its written entries separated by commas. -/
def bracketed (entries : List String) : String :=
  "[" ++ ", ".intercalate entries ++ "]"

end LaneAuction.Text
