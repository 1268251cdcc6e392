import LaneAuction.Lane
import LaneAuction.Transaction

/-!
# Which lane a transaction belongs to

A transaction with a bid belongs to the auction. Of the others, those whose messages are all of an
exempt type are free, and all else belongs to the base lane. Every transaction has exactly one kind.
-/

namespace LaneAuction

/-- True if there are messages and the type of every one is exempt from fees. -/
def Transaction.isFree (exempt : List String) (tx : Transaction) : Bool :=
  !tx.body.messages.isEmpty && tx.body.messages.all fun m => exempt.contains m.typeUrl

namespace LaneKind

/-- True if a transaction belongs to lanes of the kind. -/
def owns (exempt : List String) (tx : Transaction) : LaneKind → Bool
  | .auction => tx.containsBid
  | .free => !tx.containsBid && tx.isFree exempt
  | .base => !tx.containsBid && !tx.isFree exempt

/-- The kind that owns a transaction. -/
def ofTransaction (exempt : List String) (tx : Transaction) : LaneKind :=
  if tx.containsBid then .auction else if tx.isFree exempt then .free else .base

/-- Exactly one kind owns a transaction. -/
theorem owns_iff {exempt : List String} {tx : Transaction} {kind : LaneKind} :
    owns exempt tx kind ↔ kind = ofTransaction exempt tx := by
  cases kind <;> cases h : tx.containsBid <;> cases h' : tx.isFree exempt <;>
    simp [owns, ofTransaction, h, h']

end LaneKind

/-- The rank of a fee: its amount, if it is paid in the ranking denomination. -/
def feeRank (fee : Coin) (denom : Denom) : Nat :=
  if fee.denom = denom then fee.amount.toNat else 0

end LaneAuction
