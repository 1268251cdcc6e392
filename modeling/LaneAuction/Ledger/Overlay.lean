import LaneAuction.Ledger

/-!
# Balances in simulation

An overlay buffers the balances that a sequence of payments would leave, above a ledger that it only
reads. A step that fails leaves the buffer as it was.
-/

namespace LaneAuction

/-- Simulated balances above a ledger. -/
structure Overlay where
  base : LedgerView
  changes : Balances

namespace Overlay

/-- Nothing is simulated yet. -/
def ofView (base : LedgerView) : Overlay := ⟨base, ∅⟩

/-- The simulated balance of a holding: the buffered one, or else the ledger's. -/
def balance (o : Overlay) (account : Address) (denom : Denom) : Except LedgerError Amount :=
  match o.changes[(⟨account, denom⟩ : Holding)]? with
  | some amount => .ok amount
  | none => o.base.balance account denom

/-- Buffers a balance. -/
def setBalance (o : Overlay) (account : Address) (coin : Coin) : Overlay :=
  { o with changes := o.changes.insert ⟨account, coin.denom⟩ coin.amount }

/-- Takes a coin from an account. The empty coin asks nothing of the ledger. -/
def debit (account : Address) (coin : Coin) : LedgerAction Overlay Unit := do
  if coin.isZero then return
  let o ← get
  -- A balance that cannot be read fails the step.
  let available ← o.balance account coin.denom
  match available.sub? coin.amount with
  | some left => set (o.setBalance account ⟨left, coin.denom⟩)
  | none => throw (.insufficientFunds account coin.denom available coin.amount)

/-- Adds a coin to an account. The empty coin asks nothing of the ledger. -/
def credit (account : Address) (coin : Coin) : LedgerAction Overlay Unit := do
  if coin.isZero then return
  let o ← get
  let current ← o.balance account coin.denom
  match current.add? coin.amount with
  | some sum => set (o.setBalance account ⟨sum, coin.denom⟩)
  | none => throw (.overflow account)

/-- Takes a coin from one account and adds it to another; if the second step fails, the first is
taken back. A move from an account to itself must be covered and changes nothing. -/
def transfer (source target : Address) (coin : Coin) : LedgerAction Overlay Unit := do
  let o ← get
  if source = target then
    let available ← o.balance source coin.denom
    if available < coin.amount then
      throw (.insufficientFunds source coin.denom available coin.amount)
  else
    debit source coin
    tryCatch (credit target coin) fun e => do
      -- What the first step buffered is dropped again.
      set o
      throw e

end Overlay

end LaneAuction
