import LaneAuction.Ledger.Accounts

/-!
# A ledger out of reach

A ledger in memory behind an outage: chosen reads and chosen transfer calls fail, and a failed
transfer moves nothing.
-/

namespace LaneAuction

/-- Reads that fail with a reason: those of the listed accounts, or all. -/
structure ReadOutage where
  reason : String
  accounts : Option (List Address)
deriving DecidableEq, Repr

/-- True if reads of the account fail. -/
def ReadOutage.hits (outage : ReadOutage) (account : Address) : Bool :=
  match outage.accounts with
  | none => true
  | some accounts => accounts.contains account

/-- What fails: balance reads, sequence reads, and transfer calls by their number. -/
structure Outage where
  balance : Option ReadOutage
  sequence : Option ReadOutage
  transfers : List Nat
deriving DecidableEq, Repr

/-- Nothing fails. -/
def Outage.none : Outage := ⟨.none, .none, []⟩

/-- A ledger in memory, the outage it is behind, and the transfer calls made since it began. -/
structure RemoteLedger where
  accounts : Accounts
  outage : Outage
  calls : Nat

namespace RemoteLedger

/-- A ledger that answers. -/
def ofAccounts (accounts : Accounts) : RemoteLedger := ⟨accounts, .none, 0⟩

instance : Inhabited RemoteLedger := ⟨ofAccounts .empty⟩

/-- Begins another outage. -/
def setOutage (l : RemoteLedger) (outage : Outage) : RemoteLedger :=
  { l with outage, calls := 0 }

/-- Passes a read on unless the outage hits it. -/
def guardRead {α : Type} (outage : Option ReadOutage) (account : Address)
    (read : Except LedgerError α) : Except LedgerError α :=
  match outage with
  | some o => if o.hits account then .error (.unavailable o.reason) else read
  | none => read

def view (l : RemoteLedger) : LedgerView where
  balance account denom :=
    guardRead l.outage.balance account (l.accounts.view.balance account denom)
  sequence account := guardRead l.outage.sequence account (l.accounts.view.sequence account)

/-- Counts the call, and moves the coin unless the outage lists that call. -/
def transfer (source target : Address) (coin : Coin) : LedgerAction RemoteLedger Unit := do
  let l ← get
  -- Failing calls are counted as well.
  set { l with calls := l.calls + 1 }
  if l.outage.transfers.contains l.calls then throw (.unavailable s!"transfer {l.calls}")
  let (answer, accounts) := (Accounts.transfer source target coin).run.run l.accounts
  modify fun l => { l with accounts }
  answer

instance : Bank RemoteLedger := ⟨view, transfer⟩

end RemoteLedger

end LaneAuction
