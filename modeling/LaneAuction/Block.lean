import LaneAuction.Saturating
import LaneAuction.Transaction

/-!
# Blocks

The body of a block at some height: raw transactions in order, each kept with its hash and the gas
it declares.
-/

namespace LaneAuction

/-- One raw transaction of a block. -/
structure BlockTx where
  hash : Hash
  raw : Bytes
  gas : UInt64
deriving DecidableEq, Inhabited

namespace BlockTx

/-- A raw transaction under its own hash. -/
def ofRaw (raw : Bytes) (gas : UInt64) : BlockTx := ⟨Transaction.hash raw, raw, gas⟩

/-- The size of the raw transaction. -/
def bytes (tx : BlockTx) : UInt64 := .clamp tx.raw.length

end BlockTx

/-- An ordered list of transactions for one height. -/
structure Proposal where
  height : UInt64
  txs : List BlockTx
deriving DecidableEq, Inhabited

namespace Proposal

def empty (height : UInt64) : Proposal := ⟨height, []⟩

/-- The raw transactions in order. -/
def rawTxs (p : Proposal) : List Bytes := p.txs.map BlockTx.raw

/-- The size of all raw transactions. -/
def totalBytes (p : Proposal) : Nat := p.txs.foldl (fun sum tx => sum + tx.raw.length) 0

/-- The gas of all transactions, as far as it can be counted. -/
def totalGas (p : Proposal) : UInt64 := p.txs.foldl (fun gas tx => gas.addSat tx.gas) 0

/-- The digest of the ordered transaction hashes. -/
def hash (p : Proposal) : Hash := Sha2.orderedDigest (p.txs.map BlockTx.hash)

end Proposal

end LaneAuction
