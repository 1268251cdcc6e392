import LaneAuction.Proofs.Ledger.Payments

/-!
# An overlay behaves as the ledger under it would

A ledger in memory looks at both ends of a transfer before it changes either. An overlay takes the
coin first and gives it back if it cannot be added, passes over an empty coin without a look, and
only knows the accounts it has met. None of this shows: whatever transfers are made in a row, on an
overlay and on a copy of the ledger, both give the same answers and the same balances
(`Overlay.agrees_with_accounts`).
-/

namespace LaneAuction

/-- A transfer that is asked for. -/
structure Transfer where
  source : Address
  target : Address
  coin : Coin

/-- Every answer to a sequence of transfers, with the state behind it. A transfer that fails does
not end the sequence. -/
def answers {σ : Type} (transfer : (source target : Address) → Coin → LedgerAction σ Unit) :
    σ → List Transfer → List (Except LedgerError Unit × σ)
  | _, [] => []
  | s, t :: ts =>
    let r := (transfer t.source t.target t.coin).run.run s
    r :: answers transfer r.2 ts

namespace Accounts

/-- Whatever comes of a transfer, every supply is as before. -/
theorem exactSupply_run_transfer (source target : Address) (coin : Coin) (l : Accounts)
    (denom : Denom) :
    ((transfer source target coin).run.run l).2.exactSupply denom = l.exactSupply denom := by
  obtain ⟨cause, hrun⟩ | ⟨l', hrun, hmoved, -⟩ := run_transfer_cases source target coin l
  · rw [hrun]
  · rw [hrun]
    exact exactSupply_eq_of_moved hmoved denom

end Accounts

namespace Overlay

variable {o : Overlay} {l : Accounts}

/-- The balances that an overlay shows in a denomination make up a total: all can be read, and
finitely many accounts hold it. -/
def Totals (o : Overlay) (denom : Denom) (total : Nat) : Prop :=
  ∃ (held : Address → Amount) (accounts : Finset Address),
    (∀ account, o.balance account denom = .ok (held account)) ∧
    (∀ account ∉ accounts, held account = .zero) ∧
    ∑ account ∈ accounts, (held account).toNat = total

/-- The total is the supply of the ledger that shows the same. -/
private theorem Shows.totals (h : o.Shows l.funds) (denom : Denom) :
    o.Totals denom (l.exactSupply denom) :=
  ⟨fun account => l.balance account denom, l.holders denom, fun account => h account denom,
    fun _ hnot => not_not.mp fun hne => hnot (Accounts.mem_holders_of_balance hne),
    (l.exactSupply_eq_sum_holders denom).symm⟩

/-- A transfer gives the same answer on an overlay as on a ledger of the same balances, and leaves
the same balances. -/
theorem Shows.run_transfer (h : o.Shows l.funds) (source target : Address) (coin : Coin) :
    ∃ answer o' l', (transfer source target coin).run.run o = (answer, o') ∧
      (Accounts.transfer source target coin).run.run l = (answer, l') ∧
      o'.Shows l'.funds ∧ o'.base = o.base := by
  have hsource : o.balance source coin.denom = .ok (l.balance source coin.denom) := h source _
  have htarget : o.balance target coin.denom = .ok (l.balance target coin.denom) := h target _
  rw [Accounts.run_transfer_eq]
  by_cases hsame : source = target
  · subst hsame
    simp only [run_transfer_self, hsource, if_true]
    cases (l.balance source coin.denom).sub? coin.amount with
    | none => exact ⟨_, _, _, rfl, rfl, h, rfl⟩
    | some left => exact ⟨_, _, _, rfl, rfl, h, rfl⟩
  simp only [run_transfer_of_ne (Ne.symm hsame), hsource, htarget, if_neg hsame]
  by_cases hzero : coin.isZero
  · -- The ledger writes what it has read.
    simp only [if_pos hzero, Coin.sub?_of_isZero hzero, Coin.add?_of_isZero hzero]
    refine ⟨_, _, _, rfl, rfl, ?_, rfl⟩
    have hkept : ∀ account, Function.update l.funds ⟨account, coin.denom⟩
        (l.balance account coin.denom) = l.funds := fun _ => Function.update_eq_self _ _
    rwa [Accounts.funds_setBalance, Accounts.funds_setBalance, hkept, hkept]
  -- Both read the same numbers, so they fail together or write the same.
  · simp only [if_neg hzero]
    cases (l.balance source coin.denom).sub? coin.amount with
    | none => exact ⟨_, _, _, rfl, rfl, h, rfl⟩
    | some left =>
      cases (l.balance target coin.denom).add? coin.amount with
      | none => exact ⟨_, _, _, rfl, rfl, h, rfl⟩
      | some sum =>
        refine ⟨_, _, _, rfl, rfl, ?_, rfl⟩
        rw [Accounts.funds_setBalance, Accounts.funds_setBalance]
        exact (h.setBalance source ⟨left, coin.denom⟩).setBalance target ⟨sum, coin.denom⟩

/-- An answer of an overlay and one of a ledger are the same, and so is every balance behind them.
The overlay is still above the ledger `start`, and no total has changed since. -/
structure Agree (start : Accounts) (r : Except LedgerError Unit × Overlay)
    (r' : Except LedgerError Unit × Accounts) : Prop where
  answer : r.1 = r'.1
  balance : ∀ account denom, r.2.balance account denom = r'.2.view.balance account denom
  base : r.2.base = start.view
  total : ∀ denom, r.2.Totals denom (start.exactSupply denom)
  supply : ∀ denom, r'.2.exactSupply denom = start.exactSupply denom

/-- Transfers agree one by one, with what is shown and every supply kept in between. -/
private theorem forall₂_agree {start : Accounts} (h : o.Shows l.funds) (hbase : o.base = start.view)
    (hsupply : ∀ denom, l.exactSupply denom = start.exactSupply denom) (ts : List Transfer) :
    List.Forall₂ (Agree start) (answers Overlay.transfer o ts)
      (answers Accounts.transfer l ts) := by
  -- What carries over from one transfer to the next is that both show the same.
  induction ts generalizing o l with
  | nil => exact .nil
  | cons t ts ih =>
    obtain ⟨answer, o', l', hrun, hrun', hshows, hkept⟩ := h.run_transfer t.source t.target t.coin
    have hbase' : o'.base = start.view := hkept.trans hbase
    have hsupply' : ∀ denom, l'.exactSupply denom = start.exactSupply denom := by
      intro denom
      have hsame := Accounts.exactSupply_run_transfer t.source t.target t.coin l denom
      rw [hrun'] at hsame
      exact hsame.trans (hsupply denom)
    rw [answers, answers, hrun, hrun']
    refine .cons ⟨rfl, hshows, hbase', fun denom => ?_, hsupply'⟩ (ih hshows hbase' hsupply')
    rw [← hsupply' denom]
    exact hshows.totals denom

/-- Transfers that are made in a row on an overlay above a ledger, and on a copy of the ledger: each
gives the same answer on both and leaves the same balances, the ledger under the overlay stays as it
is, and the exact total of every denomination is the same as in the beginning. -/
theorem agrees_with_accounts (l : Accounts) (ts : List Transfer) :
    List.Forall₂ (Agree l) (answers Overlay.transfer (ofView l.view) ts)
      (answers Accounts.transfer l ts) :=
  forall₂_agree (shows_ofView l) rfl (fun _ => rfl) ts

end Overlay

end LaneAuction
