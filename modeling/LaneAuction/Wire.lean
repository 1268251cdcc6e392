import LaneAuction.Bytes.Hex
import LaneAuction.Coin
import LaneAuction.Signature.Ed25519

/-!
# The wire form of values

Fields of fixed size stand as they are, numbers in little-endian order; byte strings and texts
follow their length, lists their count, each of 4 bytes; a coin is its denomination and then its
amount.

A reader takes its value from the front of the bytes that are left. It keeps what it has taken when
it fails half-way, so the position of a failure can be told. Each `Write.x` produces what `Read.x`
takes.
-/

namespace LaneAuction.Wire

/-- Why bytes are not the wire form of a value. -/
inductive Error where
  /-- The bytes end before the value does. -/
  | unexpectedEnd
  /-- Some bytes are left after the value. -/
  | trailingBytes (count : Nat)
  /-- No message has this tag. -/
  | unknownMessage (tag : UInt8)
  /-- The bytes of a text are not UTF-8. -/
  | invalidUtf8
  /-- A length or count is above `maxCount`. -/
  | countTooLarge (count : Nat)
  /-- The denomination of a coin is not well formed. -/
  | invalidDenom (denom : Denom)
  /-- A transaction has no message or too many. -/
  | messageCount (count limit : Nat)
deriving DecidableEq, Repr

/-- The wording of a wire error. -/
def Error.message : Error → String
  | .unexpectedEnd => "unexpected end of data"
  | .trailingBytes count => s!"{count} trailing bytes after value"
  | .unknownMessage tag => "unknown message tag: 0x" ++ String.ofList (Hex.pair tag)
  | .invalidUtf8 => "invalid UTF-8"
  | .countTooLarge count => s!"invalid field: prefix too large: {count}"
  | .invalidDenom denom => "invalid field: invalid denom: " ++ Text.quote denom
  | .messageCount count limit => s!"invalid field: message count {count} outside 1..={limit}"

/-- The largest length or count that a reader accepts. -/
def maxCount : Nat := 16 * 1024 * 1024

/-- Takes a value from the front of the bytes that are left. -/
abbrev Reader := ExceptT Error (StateM Bytes)

/-- The value a reader takes, and the bytes it leaves. -/
def Reader.take {α : Type} (reader : Reader α) (bs : Bytes) : Except Error α × Bytes :=
  reader.run.run bs

namespace Read

/-- Takes `n` bytes, or nothing at all if there are fewer. -/
def fixed (n : Nat) : Reader { bs : Bytes // bs.length = n } := do
  let left ← get
  -- Only the front is measured: the rest may be long.
  let front := left.take n
  if h : front.length = n then
    set (left.drop n)
    return ⟨front, h⟩
  else throw .unexpectedEnd

def bytes (n : Nat) : Reader Bytes := return (← fixed n).val

def u8 : Reader UInt8 := return UInt8.ofNat (← fixed 1).val.toNat

def u32 : Reader UInt32 := return UInt32.ofNat (← fixed 4).val.toNat

def u64 : Reader UInt64 := return UInt64.ofNat (← fixed 8).val.toNat

def amount : Reader Amount := do
  let bs ← fixed 16
  return ⟨bs.val.toNat, by have := bs.val.toNat_lt; rw [bs.property] at this; exact this⟩

def bytes32 : Reader Bytes32 := do
  let bs ← fixed 32
  return ⟨bs.val, bs.property⟩

def signature : Reader Signature := do
  let bs ← fixed 64
  return ⟨bs.val, bs.property⟩

/-- Takes a length or count, which is at most `maxCount`. -/
def count : Reader Nat := do
  let n ← u32
  if maxCount < n.toNat then throw (.countTooLarge n.toNat)
  return n.toNat

def varBytes : Reader Bytes := do
  let n ← count
  bytes n

def text : Reader String := do
  let bs ← varBytes
  match String.fromUTF8? ⟨bs.toArray⟩ with
  | some text => return text
  | none => throw .invalidUtf8

def coin : Reader Coin := do
  -- The form of the denomination is looked at only once the whole coin was there.
  let denom ← text
  let amount ← amount
  if Denom.isValid denom then return ⟨amount, denom⟩
  else throw (.invalidDenom denom)

/-- Takes `n` values of one kind. -/
def replicate {α : Type} (reader : Reader α) : Nat → Reader (List α)
  | 0 => return []
  | n + 1 => do
    let a ← reader
    let rest ← replicate reader n
    return a :: rest

/-- Succeeds at the end of the bytes only. -/
def finish : Reader Unit := do
  let left ← get
  if left.length ≠ 0 then throw (.trailingBytes left.length)

end Read

namespace Write

def u8 (n : UInt8) : Bytes := Bytes.ofNat 1 n.toNat

def u32 (n : UInt32) : Bytes := Bytes.ofNat 4 n.toNat

def u64 (n : UInt64) : Bytes := Bytes.ofNat 8 n.toNat

def amount (a : Amount) : Bytes := Bytes.ofNat 16 a.toNat

def count (n : Nat) : Bytes := u32 (UInt32.ofNat n)

def varBytes (bs : Bytes) : Bytes := count bs.length ++ bs

def text (text : String) : Bytes := varBytes text.toByteArray.data.toList

def coin (c : Coin) : Bytes := text c.denom ++ amount c.amount

end Write

end LaneAuction.Wire
