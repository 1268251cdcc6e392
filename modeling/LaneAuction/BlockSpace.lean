import LaneAuction.Block
import LaneAuction.Decimal

/-!
# Block space

Space is counted in bytes and in gas. A lane may use its fraction of the whole block, as far as that
is still free; a lane without a fraction may use all that is free.
-/

namespace LaneAuction

/-- An amount of block space. -/
structure BlockSpace where
  bytes : UInt64
  gas : UInt64
deriving DecidableEq, Repr, Inhabited

namespace BlockSpace

def zero : BlockSpace := ⟨0, 0⟩

/-- The space of a block. A gas limit of zero stands for none. -/
def ofLimits (maxBytes maxGas : UInt64) : BlockSpace :=
  ⟨maxBytes, if maxGas = 0 then .largest else maxGas⟩

/-- The space of one transaction. -/
def ofTx (tx : BlockTx) : BlockSpace := ⟨tx.bytes, tx.gas⟩

/-- Adds in both dimensions, each up to the largest word. -/
def add (a b : BlockSpace) : BlockSpace := ⟨a.bytes.addSat b.bytes, a.gas.addSat b.gas⟩

/-- Subtracts in both dimensions, each down to zero. -/
def sub (a b : BlockSpace) : BlockSpace := ⟨a.bytes.subSat b.bytes, a.gas.subSat b.gas⟩

/-- The smaller value in each dimension. -/
def min (a b : BlockSpace) : BlockSpace :=
  ⟨if a.bytes ≤ b.bytes then a.bytes else b.bytes, if a.gas ≤ b.gas then a.gas else b.gas⟩

/-- The space of a list of transactions. -/
def ofTxs (txs : List BlockTx) : BlockSpace := txs.foldl (fun space tx => space.add (ofTx tx)) zero

/-- True if neither dimension is above the limit. -/
def fits (space limit : BlockSpace) : Bool :=
  space.bytes ≤ limit.bytes && space.gas ≤ limit.gas

/-- The whole part of the fraction in each dimension; a share that is out of range stays whole. -/
def share (space : BlockSpace) (fraction : Decimal) : BlockSpace :=
  ⟨(fraction.mulFloor64 space.bytes).getD space.bytes,
    (fraction.mulFloor64 space.gas).getD space.gas⟩

/-- The space that a lane with the given fraction may use of a block that is partly used. -/
def budget (limits used : BlockSpace) (fraction : Decimal) : BlockSpace :=
  let free := limits.sub used
  if fraction.isZero then free else (limits.share fraction).min free

end BlockSpace

end LaneAuction
