import LaneAuction.Wire

/-!
# Mixed sequences of wire values

A `Kind` names what can be read next, and an `Item` is a value of some kind. Writing items one after
the other and reading their kinds in the same order are inverse to each other.
-/

namespace LaneAuction.Wire

/-- What to read next. -/
inductive Kind where
  | bytes (length : Nat)
  | u8
  | u32
  | u64
  | amount
  | address
  | signature
  | count
  | varBytes
  | text
  | coin
  | finish
deriving DecidableEq, Repr

/-- A value of some kind. -/
inductive Item where
  | bytes (bs : Bytes)
  | u8 (n : UInt8)
  | u32 (n : UInt32)
  | u64 (n : UInt64)
  | amount (a : Amount)
  | address (a : Address)
  | signature (s : Signature)
  | count (n : Nat)
  | varBytes (bs : Bytes)
  | text (t : String)
  | coin (c : Coin)
  | finish

/-- The kind that a value belongs to. -/
def Item.kind : Item → Kind
  | .bytes bs => .bytes bs.length
  | .u8 _ => .u8
  | .u32 _ => .u32
  | .u64 _ => .u64
  | .amount _ => .amount
  | .address _ => .address
  | .signature _ => .signature
  | .count _ => .count
  | .varBytes _ => .varBytes
  | .text _ => .text
  | .coin _ => .coin
  | .finish => .finish

/-- The wire form of a value. -/
def Item.write : Item → Bytes
  | .bytes bs => bs
  | .u8 n => Write.u8 n
  | .u32 n => Write.u32 n
  | .u64 n => Write.u64 n
  | .amount a => Write.amount a
  | .address a => a.toList
  | .signature s => s.toList
  | .count n => Write.count n
  | .varBytes bs => Write.varBytes bs
  | .text t => Write.text t
  | .coin c => Write.coin c
  | .finish => []

/-- Reads a value of a kind. -/
def Kind.read : Kind → Reader Item
  | .bytes n => .bytes <$> Read.bytes n
  | .u8 => .u8 <$> Read.u8
  | .u32 => .u32 <$> Read.u32
  | .u64 => .u64 <$> Read.u64
  | .amount => .amount <$> Read.amount
  | .address => .address <$> Read.bytes32
  | .signature => .signature <$> Read.signature
  | .count => .count <$> Read.count
  | .varBytes => .varBytes <$> Read.varBytes
  | .text => .text <$> Read.text
  | .coin => .coin <$> Read.coin
  | .finish => (fun _ => .finish) <$> Read.finish

/-- Values written one after the other. -/
def writeAll (items : List Item) : Bytes := items.flatMap Item.write

/-- Reads a sequence of kinds from one input. Every answer comes with the bytes left after it, and
a failure does not end the sequence. -/
def readAll : List Kind → Bytes → List (Except Error Item × Bytes)
  | [], _ => []
  | kind :: kinds, bs =>
    let answer := kind.read.take bs
    answer :: readAll kinds answer.2

end LaneAuction.Wire
