import LaneAuction.Auction.Settlement
import LaneAuction.Ledger.Outage
import LaneAuction.Proofs.Ledger.Funds

/-!
# Transfers during an outage

A transfer call on a ledger that is out of reach at times fails and moves nothing, or moves its coin
as the accounts behind it do. Either way it is counted (`run_transferPart`). What was moved by one
call can be moved back by any later one that is not hit (`Pays.exists_back`).
-/

namespace LaneAuction

namespace RemoteLedger

variable {l l' l₁ l₂ : RemoteLedger} {source target : Address} {coin : Coin}

/-- A part of a price went from one account to another: its coin was moved, by one call unless there
is nothing to move, and nothing else was changed. -/
structure Pays (source target : Address) (coin : Coin) (l l' : RemoteLedger) : Prop where
  moved : Funds.Moved source target coin l.accounts.funds l'.accounts.funds
  sequences : l'.accounts.sequences = l.accounts.sequences
  outage : l'.outage = l.outage
  calls : l'.calls = l.calls + if coin.isZero then 0 else 1

/-- A part that is not empty takes a transfer call, which is hit or passed on. -/
theorem run_transferPart (hzero : coin.isZero = false) (source target : Address)
    (l : RemoteLedger) : (transferPart source target coin).run.run l =
      if l.calls ∈ l.outage.transfers then
        (.error (.unavailable s!"transfer {l.calls}"), { l with calls := l.calls + 1 })
      else
        let (answer, accounts) := (Accounts.transfer source target coin).run.run l.accounts
        (answer, { l with accounts, calls := l.calls + 1 }) := by
  rw [transferPart, if_neg (Bool.eq_false_iff.mp hzero)]
  show (transfer source target coin).run.run l = _
  simp only [transfer, ExceptT.run_run_bind, ExceptT.run_run_get, List.contains_iff_mem]
  by_cases hout : l.calls ∈ l.outage.transfers
  · simp only [hout, if_true]
    rfl
  · simp only [hout, if_false]
    rcases (Accounts.transfer source target coin).run.run l.accounts with ⟨cause | ⟨⟩, accounts⟩
    · rfl
    · rfl

/-- A part that is not empty may fail to go, and then nothing is moved; or it goes. -/
theorem run_transferPart_cases (source target : Address) (coin : Coin) (l : RemoteLedger) :
    (∃ cause, coin.isZero = false ∧ (transferPart source target coin).run.run l =
        (.error cause, { l with calls := l.calls + 1 })) ∨
      ∃ l', (transferPart source target coin).run.run l = (.ok (), l') ∧
        Pays source target coin l l' := by
  cases hzero : coin.isZero with
  | true =>
    rw [transferPart, if_pos hzero]
    refine .inr ⟨l, rfl, Funds.moved_of_isZero hzero source target _, rfl, rfl, ?_⟩
    rw [if_pos hzero, Nat.add_zero]
  | false =>
    rw [run_transferPart hzero]
    split
    · exact .inl ⟨_, rfl, rfl⟩
    -- A call that is reached is counted, whether the accounts refuse it or not.
    · obtain ⟨cause, heq⟩ | ⟨accounts, heq, hmoved, hsequences⟩ :=
        Accounts.run_transfer_cases source target coin l.accounts
      · rw [heq]
        exact .inl ⟨cause, rfl, rfl⟩
      · rw [heq]
        refine .inr ⟨_, rfl, hmoved, hsequences, rfl, ?_⟩
        rw [if_neg (Bool.eq_false_iff.mp hzero)]

/-- What went from one account to another goes back by a later call, if that is not hit. -/
theorem Pays.exists_back (h : Pays source target coin l l') {calls : Nat}
    (hreached : calls ∉ l'.outage.transfers) :
    ∃ l'', (transferPart target source coin).run.run { l' with calls } = (.ok (), l'') ∧
      Pays target source coin { l' with calls } l'' ∧ l''.accounts.funds = l.accounts.funds := by
  obtain ⟨cause, hnonzero, heq⟩ | ⟨l'', heq, hpays⟩ :=
    run_transferPart_cases target source coin { l' with calls }
  · -- The accounts would have moved it.
    obtain ⟨accounts, hrun, -⟩ := Accounts.exists_run_transfer h.moved.symm
    rw [run_transferPart hnonzero, if_neg hreached, hrun] at heq
    exact nomatch heq
  · exact ⟨l'', heq, hpays, hpays.moved.unique h.moved.symm⟩

/-- Nothing was changed but balances and the number of calls, and no supply was. -/
structure Keeps (l l' : RemoteLedger) : Prop where
  supply : ∀ denom, l'.accounts.exactSupply denom = l.accounts.exactSupply denom
  sequences : l'.accounts.sequences = l.accounts.sequences
  outage : l'.outage = l.outage

/-- Counting calls changes no supply and no outage. -/
theorem keeps_withCalls (l : RemoteLedger) (calls : Nat) : Keeps l { l with calls } :=
  ⟨fun _ => rfl, rfl, rfl⟩

/-- What is kept twice is kept. -/
theorem Keeps.trans (h : Keeps l l₁) (h' : Keeps l₁ l₂) : Keeps l l₂ where
  supply denom := (h'.supply denom).trans (h.supply denom)
  sequences := h'.sequences.trans h.sequences
  outage := h'.outage.trans h.outage

/-- A payment keeps all supplies and the outage. -/
theorem Pays.keeps (h : Pays source target coin l l') : Keeps l l' :=
  ⟨Accounts.exactSupply_eq_of_moved h.moved, h.sequences, h.outage⟩

end RemoteLedger

end LaneAuction
