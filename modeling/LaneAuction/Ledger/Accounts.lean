import LaneAuction.Ledger
import LaneAuction.Saturating

/-!
# A ledger in memory

Balances and sequences kept in two maps; what is not in them is zero. A transfer checks both of its
ends before it changes either.
-/

namespace LaneAuction

/-- Balances and sequences. -/
structure Accounts where
  balances : Balances
  sequences : Std.ExtTreeMap Address UInt64

namespace Accounts

/-- No account holds anything. -/
def empty : Accounts := ⟨∅, ∅⟩

instance : Inhabited Accounts := ⟨empty⟩

/-- The balance of a holding. -/
def balance (l : Accounts) (account : Address) (denom : Denom) : Amount :=
  l.balances.getD ⟨account, denom⟩ .zero

/-- The sequence of an account. -/
def sequence (l : Accounts) (account : Address) : UInt64 := l.sequences.getD account 0

/-- Replaces a balance. -/
def setBalance (l : Accounts) (account : Address) (coin : Coin) : Accounts :=
  { l with balances := l.balances.insert ⟨account, coin.denom⟩ coin.amount }

/-- Replaces a sequence. -/
def setSequence (l : Accounts) (account : Address) (sequence : UInt64) : Accounts :=
  { l with sequences := l.sequences.insert account sequence }

/-- Counts one more transaction of an account. -/
def bump (l : Accounts) (account : Address) : Accounts :=
  l.setSequence account ((l.sequence account).addSat 1)

/-- The sum of all balances in a denomination, as far as it can be counted. -/
def supply (l : Accounts) (denom : Denom) : Amount :=
  l.balances.toList.foldl
    (fun sum (holding, amount) => if holding.denom = denom then sum.addSat amount else sum) .zero

def view (l : Accounts) : LedgerView where
  balance account denom := .ok (l.balance account denom)
  sequence account := .ok (l.sequence account)

/-- Moves a coin if the source covers it and the target can hold it. A move from an account to
itself must be covered and changes nothing. -/
def transfer (source target : Address) (coin : Coin) : LedgerAction Accounts Unit := do
  let l ← get
  let available := l.balance source coin.denom
  match available.sub? coin.amount with
  | none => throw (.insufficientFunds source coin.denom available coin.amount)
  | some left =>
    -- The move is covered; both ends are one holding.
    if source = target then return
    match (l.balance target coin.denom).add? coin.amount with
    | none => throw (.overflow target)
    | some sum =>
      set ((l.setBalance source ⟨left, coin.denom⟩).setBalance target ⟨sum, coin.denom⟩)

instance : Bank Accounts := ⟨view, transfer⟩

end Accounts

end LaneAuction
