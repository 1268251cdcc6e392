import LaneAuction.Bytes.Hex
import LaneAuction.Coin
import Std.Data.ExtTreeMap

/-!
# Ledgers

A ledger keeps the balance of every account in every denomination, and the number of transactions
each account has made. Validation only reads it, through a `LedgerView`; settlement moves coins, by
a `Bank`. Any read or move may fail, because the store behind it may be out of reach.
-/

namespace LaneAuction

/-- Why a ledger does not answer or does not move a coin. -/
inductive LedgerError where
  /-- The account cannot cover what it has to pay. -/
  | insufficientFunds (account : Address) (denom : Denom) (available required : Amount)
  /-- The account's balance would be out of range. -/
  | overflow (account : Address)
  /-- The store is out of reach. -/
  | unavailable (reason : String)
deriving DecidableEq, Repr

/-- The wording of a ledger error. -/
def LedgerError.message : LedgerError → String
  | .insufficientFunds account denom available required =>
    s!"insufficient funds for {account.short}: have {available}{denom}, need {required}{denom}"
  | .overflow account => s!"balance overflow for {account.short}"
  | .unavailable reason => s!"ledger unavailable: {reason}"

/-- What can be read of a ledger. -/
structure LedgerView where
  /-- What the account can spend in the denomination. -/
  balance : Address → Denom → Except LedgerError Amount
  /-- The nonce that the account's next transaction should have. -/
  sequence : Address → Except LedgerError UInt64

/-- A step on a ledger. The state it leaves is kept when it fails. -/
abbrev LedgerAction (σ : Type) := ExceptT LedgerError (StateM σ)

/-- A ledger that can move coins. -/
class Bank (σ : Type) where
  view : σ → LedgerView
  /-- Moves a coin from one account to another. -/
  transfer : (source target : Address) → Coin → LedgerAction σ Unit

/-- One account in one denomination. -/
structure Holding where
  account : Address
  denom : Denom
deriving DecidableEq, Repr

namespace Holding

/-- Holdings are ordered by account, then by denomination. -/
instance : Ord Holding := ⟨compareLex (compareOn account) (compareOn denom)⟩

instance : Std.TransOrd Holding :=
  inferInstanceAs (Std.TransCmp (compareLex (compareOn account) (compareOn denom)))

instance : Std.LawfulEqOrd Holding where
  eq_of_compare {a b} h := by
    have h' := compareLex_eq_eq.1 h
    cases a; cases b
    rw [Holding.mk.injEq]
    exact ⟨Std.LawfulEqOrd.eq_of_compare h'.1, Std.LawfulEqOrd.eq_of_compare h'.2⟩

end Holding

/-- An amount for each of finitely many holdings. -/
abbrev Balances := Std.ExtTreeMap Holding Amount

end LaneAuction
