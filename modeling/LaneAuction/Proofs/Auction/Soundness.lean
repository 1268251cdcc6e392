import LaneAuction.Proofs.Auction.Rules

/-!
# No bid fails fatally on a sound ledger

A ledger is sound if every balance can be read and no supply is above the largest amount. Payments
keep that, as they raise no supply, and so no balance ever leaves its range: a payment is made or
its source is short of coins (`Overlay.Sound.run_payment`). Whatever else a bid is refused for says
something about the bid, so that no refusal is fatal (`BidContext.isFatal_eq_false_of_accept`).
-/

namespace LaneAuction

namespace Overlay

variable {o : Overlay} {l : Accounts}

/-- Every balance can be read, and no supply is too large. -/
def Sound (o : Overlay) : Prop := ∃ x : Funds, o.Shows x ∧ x.Bounded

/-- Nothing is simulated yet, so the overlay shows the balances of the ledger. -/
private theorem sound_ofView (hsupply : ∀ denom, l.exactSupply denom ≤ Amount.largest.toNat) :
    (ofView l.view).Sound := ⟨l.funds, shows_ofView l, Accounts.bounded_funds hsupply⟩

/-- One payment: it is made, or its source is short of coins. -/
theorem Sound.run_payment (h : o.Sound) (p : Payment) :
    (∃ o', p.run.run.run o = (.ok (), o') ∧ o'.Sound) ∨
      ∃ available, p.run.run.run o =
        (.error (.insufficientFunds p.source p.coin.denom available p.coin.amount), o) := by
  obtain ⟨x, hshows, hbounded⟩ := h
  by_cases hcovered : p.coin.amount ≤ x ⟨p.source, p.coin.denom⟩
  · -- A covered payment goes through, and what it leaves is still bounded.
    obtain ⟨source, coin, target⟩ := p
    cases target with
    | none =>
      obtain ⟨left, hleft⟩ : ∃ left, (x ⟨source, coin.denom⟩).sub? coin.amount = some left :=
        ⟨_, if_pos hcovered⟩
      obtain ⟨o', hrun, hshows'⟩ := exists_run_debit hshows hleft
      exact .inl ⟨o', hrun, _, hshows', hbounded.take hleft⟩
    | some target =>
      obtain ⟨y, hmoved⟩ := Funds.exists_moved hbounded target hcovered
      obtain ⟨o', hrun, hshows'⟩ := exists_run_transfer hshows hmoved
      exact .inl ⟨o', hrun, y, hshows', hmoved.bounded hbounded⟩
  · -- An empty coin would be covered.
    have hlt : x ⟨p.source, p.coin.denom⟩ < p.coin.amount := Nat.not_le.mp hcovered
    have hasks : p.asks := by
      refine .inl (Bool.eq_false_iff.mpr fun hzero => ?_)
      exact hcovered (Funds.moved_of_isZero hzero p.source p.source x).covered
    refine .inr ⟨x ⟨p.source, p.coin.denom⟩, ?_⟩
    rw [Overlay.run_payment, if_pos hasks, hshows p.source]
    simp only [Amount.sub?_eq_none_iff.mpr hlt]

/-- Any sequence of payments. -/
theorem Sound.run_forM (h : o.Sound) (payments : List Payment) :
    (∃ o', (payments.forM Payment.run).run.run o = (.ok (), o') ∧ o'.Sound) ∨
      ∃ p ∈ payments, ∃ available o', (payments.forM Payment.run).run.run o =
        (.error (.insufficientFunds p.source p.coin.denom available p.coin.amount), o') := by
  -- A payment that is made leaves the overlay sound for the next one.
  induction payments generalizing o with
  | nil => exact .inl ⟨o, rfl, h⟩
  | cons p payments ih =>
    rw [List.forM, ExceptT.run_run_bind]
    obtain ⟨o₁, hrun, hsound⟩ | ⟨available, hrun⟩ := h.run_payment p
    · rw [hrun]
      obtain hpaid | ⟨p', hmem, available, o', hshort⟩ := ih hsound
      · exact .inl hpaid
      · exact .inr ⟨p', List.mem_cons_of_mem _ hmem, available, o', hshort⟩
    · rw [hrun]
      exact .inr ⟨p, List.mem_cons_self, available, o, rfl⟩

end Overlay

namespace BidContext

variable {ctx : BidContext} {bid : BidCandidate} {bundle before : List Bundled} {b : Bundled}
  {opened : List Bytes} {raw : Bytes} {e : Rejection} {bidder : Address}
  {carrier : Address × UInt64} {l : Accounts}

/-- A transaction that does not open is the fault of the bid. -/
private theorem Unopened.isFatal_eq_false (h : ctx.Unopened opened raw e) : e.isFatal = false := by
  cases h <;> rfl

/-- A bid that is not well formed is at fault itself. -/
private theorem IllFormed.isFatal_eq_false (h : ctx.IllFormed bid e) : e.isFatal = false := by
  cases h with
  | foreignBidder _ => rfl
  | emptyBundle _ _ => rfl
  | bundleTooLarge _ _ _ => rfl
  | unopened _ _ _ hfails =>
    obtain ⟨_, _, _, _, _, hunopened⟩ := hfails
    exact hunopened.isFatal_eq_false

/-- Where every sequence can be read, a repetition is the bid's fault. -/
private theorem Repeats.isFatal_eq_false (hledger : ctx.ledger = l.view)
    (h : ctx.Repeats carrier before b e) : e.isFatal = false := by
  cases h with
  | unread _ _ _ hsequence =>
    rw [hledger] at hsequence
    exact nomatch hsequence
  | _ => rfl

/-- A sandwich is the fault of the bid. -/
private theorem Sandwiches.isFatal_eq_false (h : Sandwiches bidder before b e) :
    e.isFatal = false := by
  cases h
  rfl

/-- In simulation, only coins can be missing. -/
theorem exists_eq_insufficientFunds_of_payChunk
    (hsupply : ∀ denom, l.exactSupply denom ≤ Amount.largest.toNat) {exempt : List String}
    {cause : LedgerError}
    (h : ((payChunk exempt bid bundle).run.run (.ofView l.view)).1 = .error cause) :
    ∃ account denom available required,
      cause = .insufficientFunds account denom available required := by
  rw [payChunk_eq] at h
  obtain ⟨_, hrun, -⟩ | ⟨p, -, available, _, hrun⟩ :=
    (Overlay.sound_ofView hsupply).run_forM (payments exempt bid bundle)
  · rw [hrun] at h
    exact nomatch h
  · rw [hrun] at h
    exact ⟨_, _, _, _, (Except.error.inj h).symm⟩

/-- On a sound ledger, no bid is refused for a fatal cause. -/
theorem isFatal_eq_false_of_accept (hledger : ctx.ledger = l.view)
    (hsupply : ∀ denom, l.exactSupply denom ≤ Amount.largest.toNat)
    (h : ctx.accept bid = .error e) : e.isFatal = false := by
  cases accept_eq_error_iff.mp h with
  | expired _ => rfl
  | illFormed _ hill => exact hill.isFatal_eq_false
  | repeated _ _ hfails =>
    obtain ⟨_, _, _, _, _, hrepeats⟩ := hfails
    exact hrepeats.isFatal_eq_false hledger
  | sandwich _ _ _ _ hfails =>
    obtain ⟨_, _, _, _, _, hsandwiches⟩ := hfails
    exact hsandwiches.isFatal_eq_false
  | belowReserve _ _ _ _ _ => rfl
  -- Payments on a sound ledger fall short at worst.
  | unpaid _ _ _ _ _ _ hfails =>
    rw [hledger, ← (Overlay.follows_ofView l.view).run_forM_eq_error_iff, ← payChunk_eq] at hfails
    obtain ⟨_, _, _, _, rfl⟩ := exists_eq_insufficientFunds_of_payChunk hsupply hfails
    rfl

end BidContext

end LaneAuction
