import LaneAuction.Proofs.Auction.Settlement
import LaneAuction.Proofs.Ledger.Outage
import LaneAuction.Proofs.Ledger.Payments

/-!
# Settlement is exact, and all or nothing

Paying a price takes up to three transfer calls: one for each part, and one that takes the first
part back if the second one does not go. What becomes of the two parts is one of three things
(`Payout`): both are paid, none is, or the first is paid and the call that should have taken it back
was hit by an outage. There is no other reason why it should not come back (`Pays.exists_back`),
however the accounts coincide and however much they hold.
-/

namespace LaneAuction

/-- What a move changes is what the payment of its coin changes. -/
theorem Funds.Moved.eq_add_change {source target : Address} {coin : Coin} {x y : Funds}
    (h : Moved source target coin x y) (holding : Holding) :
    ((y holding).toNat : Int) =
      (x holding).toNat + (⟨source, coin, some target⟩ : Payment).change holding := by
  have hends : ∀ last, holding = ⟨last, coin.denom⟩ ↔
      last = holding.account ∧ coin.denom = holding.denom := by
    intro last
    cases holding
    simp [eq_comm]
  rw [h.toInt_eq, Payment.change, add_sub_assoc]
  simp only [hends, Option.some.injEq]

/-- What a payout changes is what the payments of its two parts change. -/
theorem Split.PaidOut.eq_add_change {split : Split} {bidder escrow proposer : Address} {x y : Funds}
    (h : split.PaidOut bidder escrow proposer x y) (holding : Holding) :
    ((y holding).toNat : Int) = (x holding).toNat +
      (⟨bidder, split.escrow, some escrow⟩ : Payment).change holding +
      (⟨bidder, split.proposer, some proposer⟩ : Payment).change holding := by
  obtain ⟨_, hescrow, hproposer⟩ := h
  rw [hproposer.eq_add_change, hescrow.eq_add_change]

namespace RemoteLedger

/-- The call that should take the first part back was made, and it is one of those that fail. -/
def ReversalOut (l l' : RemoteLedger) : Prop :=
  l'.calls = l.calls + 3 ∧ l.calls + 2 ∈ l.outage.transfers

instance (l l' : RemoteLedger) : Decidable (ReversalOut l l') := inferInstanceAs (Decidable (_ ∧ _))

/-- What becomes of the two parts of a price. -/
inductive Payout (bidder escrow proposer : Address) (split : Split) (l : RemoteLedger) :
    Except LedgerError Unit × RemoteLedger → Prop where
  /-- Both were paid. -/
  | paid {l₁ l₂ : RemoteLedger} (hescrow : Pays bidder escrow split.escrow l l₁)
      (hproposer : Pays bidder proposer split.proposer l₁ l₂) :
      Payout bidder escrow proposer split l (.ok (), l₂)
  /-- No part was paid, or the first went back. -/
  | unpaid {cause : LedgerError} {l' : RemoteLedger} (hkeeps : Keeps l l')
      (hreversal : ¬ ReversalOut l l') (hfunds : l'.accounts.funds = l.accounts.funds) :
      Payout bidder escrow proposer split l (.error cause, l')
  /-- The first part was paid, and was not taken back. -/
  | stuck {cause : LedgerError} {l' : RemoteLedger} (hkeeps : Keeps l l')
      (hreversal : ReversalOut l l')
      (hmoved : Funds.Moved bidder escrow split.escrow l.accounts.funds l'.accounts.funds) :
      Payout bidder escrow proposer split l (.error cause, l')

variable {l l' l₁ l₂ : RemoteLedger} {bidder escrow proposer : Address} {split : Split}

/-- Nothing was moved by fewer than three calls. -/
private theorem not_reversalOut (h : l'.calls < l.calls + 3) : ¬ ReversalOut l l' :=
  fun hout => Nat.ne_of_lt h hout.1

/-- Taking the first part back, behind a call for the second part that failed. -/
private theorem payout_reverse (hescrow : Pays bidder escrow split.escrow l l₁) (proposer : Address)
    (cause : LedgerError) :
    Payout bidder escrow proposer split l ((do
      transferPart escrow bidder split.escrow
      throw cause : LedgerAction RemoteLedger Unit).run.run
        { l₁ with calls := l₁.calls + 1 }) := by
  have hkeeps := hescrow.keeps.trans (keeps_withCalls l₁ (l₁.calls + 1))
  rw [ExceptT.run_run_bind]
  cases hzero : split.escrow.isZero with
  | true =>
    -- There is nothing to take back.
    have hcalls := hescrow.calls
    rw [if_pos hzero] at hcalls
    rw [transferPart, if_pos hzero]
    refine .unpaid hkeeps (not_reversalOut (by simp only [hcalls]; omega)) ?_
    exact hescrow.moved.unique (Funds.moved_of_isZero hzero bidder escrow _)
  | false =>
    have hcalls := hescrow.calls
    rw [if_neg (Bool.eq_false_iff.mp hzero)] at hcalls
    -- Two calls were made since the start, so the one that takes the part back is the third.
    by_cases hout : l.calls + 2 ∈ l.outage.transfers
    · have hhit : l₁.calls + 1 ∈ l₁.outage.transfers := by
        rw [hescrow.outage, hcalls]
        exact hout
      rw [run_transferPart hzero, if_pos hhit]
      refine .stuck (hkeeps.trans (keeps_withCalls _ _)) ⟨?_, hout⟩ hescrow.moved
      simp only [hcalls]
    · have hreached : l₁.calls + 1 ∉ l₁.outage.transfers := by
        rw [hescrow.outage, hcalls]
        exact hout
      obtain ⟨l₃, hback, hpays, hfunds⟩ := hescrow.exists_back hreached
      rw [hback]
      exact .unpaid (hkeeps.trans hpays.keeps) (fun h => hout h.2) hfunds

/-- Paying the two parts has one of the three outcomes. -/
private theorem payout_transferSplit (bidder escrow proposer : Address) (split : Split)
    (l : RemoteLedger) : Payout bidder escrow proposer split l
      ((transferSplit bidder escrow proposer split).run.run l) := by
  rw [transferSplit, ExceptT.run_run_bind]
  -- Each call fails or goes through. If the second fails, the first is taken back.
  obtain ⟨cause, -, heq⟩ | ⟨l₁, heq, hescrow⟩ :=
    run_transferPart_cases bidder escrow split.escrow l
  · rw [heq]
    exact .unpaid (keeps_withCalls l _) (not_reversalOut (by simp)) rfl
  rw [heq]
  simp only [ExceptT.run_run_tryCatch]
  obtain ⟨cause, -, heq⟩ | ⟨l₂, heq, hproposer⟩ :=
    run_transferPart_cases bidder proposer split.proposer l₁
  · rw [heq]
    exact payout_reverse hescrow proposer cause
  · rw [heq]
    exact .paid hescrow hproposer

/-- Before anything is moved, the bidder's balance is read and compared with the price. -/
theorem payout_pay (bidder : Address) (price : Coin) (escrow proposer : Address) (split : Split)
    (l : RemoteLedger) : Payout bidder escrow proposer split l
      ((pay bidder price escrow proposer split).run.run l) := by
  have hnothing : ∀ cause, Payout bidder escrow proposer split l (.error cause, l) := fun cause =>
    .unpaid (keeps_withCalls l l.calls) (not_reversalOut (by simp)) rfl
  rw [pay, ExceptT.run_run_bind, ExceptT.run_run_get]
  simp only [ExceptT.run_run_bind, ExceptT.run_run_liftM]
  cases (Bank.view l).balance bidder price.denom with
  | error cause => exact hnothing cause
  | ok available =>
    simp only [ExceptT.run_run_check]
    split
    · exact hnothing _
    · exact payout_transferSplit bidder escrow proposer split l

/-- Whatever the outcome, no supply changes and the outage is what it was. -/
private theorem Payout.keeps {outcome : Except LedgerError Unit × RemoteLedger}
    (h : Payout bidder escrow proposer split l outcome) : Keeps l outcome.2 := by
  cases h with
  | paid hescrow hproposer => exact hescrow.keeps.trans hproposer.keeps
  | unpaid hkeeps _ _ => exact hkeeps
  | stuck hkeeps _ _ => exact hkeeps

/-- A price is not split and nothing is called, or it is split and its parts have one of the three
outcomes. -/
theorem settle_cases (params : AuctionParams) (bidder : Address) (price : Coin)
    (proposer : Address) (l : RemoteLedger) :
    (∃ fault, settle params bidder price proposer l = (.error (.params fault), l)) ∨
      ∃ split answer l', distribute price params.proposerFee = .ok split ∧
        Payout bidder params.escrow proposer split l (answer, l') ∧
        settle params bidder price proposer l =
          ((answer.map fun _ => split).mapError .ledger, l') := by
  rw [settle]
  cases hdistribute : distribute price params.proposerFee with
  | error fault => exact .inl ⟨fault, rfl⟩
  | ok split =>
    -- Splitting the price asks nothing of the ledger; what the payout does is known.
    have hpayout := payout_pay bidder price params.escrow proposer split l
    rcases hpay : (pay bidder price params.escrow proposer split).run.run l with ⟨answer, l'⟩
    rw [hpay] at hpayout
    refine .inr ⟨split, answer, l', rfl, hpayout, ?_⟩
    simp only [hpay]
    cases answer with
    | error cause => rfl
    | ok _ => rfl

/-- The first part is taken back, if the call for it is not hit. -/
private theorem exists_reversal {cause : LedgerError}
    (hfirst : (transferPart bidder escrow split.escrow).run.run l = (.ok (), l₁))
    (hsecond : (transferPart bidder proposer split.proposer).run.run l₁ = (.error cause, l₂))
    (hreached : l₂.calls ∉ l₂.outage.transfers) :
    ∃ l₃, (transferPart escrow bidder split.escrow).run.run l₂ = (.ok (), l₃) ∧
      l₃.accounts.funds = l.accounts.funds := by
  obtain ⟨_, -, heq⟩ | ⟨_, heq, hescrow⟩ := run_transferPart_cases bidder escrow split.escrow l
  · exact nomatch heq.symm.trans hfirst
  obtain rfl := (Prod.mk.inj (hfirst.symm.trans heq)).2
  obtain ⟨_, -, heq⟩ | ⟨_, heq, -⟩ := run_transferPart_cases bidder proposer split.proposer l₁
  · obtain ⟨-, rfl⟩ := Prod.mk.inj (heq.symm.trans hsecond)
    obtain ⟨l₃, hback, -, hfunds⟩ := hescrow.exists_back hreached
    exact ⟨l₃, hback, hfunds⟩
  · exact nomatch (Prod.mk.inj (heq.symm.trans hsecond)).1

/-- Settlement is exact and all or nothing, whatever of the ledger is out of reach, whichever of the
accounts coincide and whatever they hold. If it succeeds, the two parts of the price were moved and
nothing else. If it fails, nothing was moved; except that the first part was, if the very call that
should have taken it back is one of those that fail. No supply ever changes, and a call to take the
first part back that is not hit always succeeds. -/
theorem settle_all_or_nothing (params : AuctionParams) (bidder : Address) (price : Coin)
    (proposer : Address) (l : RemoteLedger) :
    let run := settle params bidder price proposer l
    l.Keeps run.2 ∧
    (∀ split, run.1 = .ok split →
      distribute price params.proposerFee = .ok split ∧ split.IsOf price ∧
      ∀ h, ((run.2.accounts.funds h).toNat : Int) = (l.accounts.funds h).toNat +
        (⟨bidder, split.escrow, some params.escrow⟩ : Payment).change h +
        (⟨bidder, split.proposer, some proposer⟩ : Payment).change h) ∧
    (∀ cause, run.1 = .error cause →
      (¬ l.ReversalOut run.2 → run.2.accounts.funds = l.accounts.funds) ∧
      (l.ReversalOut run.2 → ∃ split, distribute price params.proposerFee = .ok split ∧
        ∀ h, ((run.2.accounts.funds h).toNat : Int) = (l.accounts.funds h).toNat +
          (⟨bidder, split.escrow, some params.escrow⟩ : Payment).change h)) ∧
    ∀ (split : Split) (l₁ l₂ : RemoteLedger) (cause : LedgerError),
      (transferPart bidder params.escrow split.escrow).run.run l = (.ok (), l₁) →
      (transferPart bidder proposer split.proposer).run.run l₁ = (.error cause, l₂) →
      l₂.calls ∉ l₂.outage.transfers →
      ∃ l₃, (transferPart params.escrow bidder split.escrow).run.run l₂ = (.ok (), l₃) ∧
        l₃.accounts.funds = l.accounts.funds := by
  intro run
  have hreversal := fun split l₁ l₂ cause => @exists_reversal l l₁ l₂ bidder params.escrow proposer
    split cause
  obtain ⟨fault, heq⟩ | ⟨split, answer, l', hdistribute, hpayout, heq⟩ :=
    settle_cases params bidder price proposer l
  · -- A price that cannot be split is refused before the ledger is called.
    have hrun : run = (.error (.params fault), l) := heq
    rw [hrun]
    refine ⟨keeps_withCalls l l.calls, nofun, fun cause _ => ⟨fun _ => rfl, fun hout => ?_⟩,
      hreversal⟩
    exact absurd hout (not_reversalOut (by simp))
  -- The two calls went through, or neither did, or the first is stuck behind the second.
  have hrun : run = ((answer.map fun _ => split).mapError .ledger, l') := heq
  rw [hrun]
  refine ⟨hpayout.keeps, fun split' hok => ?_, fun cause herror => ?_, hreversal⟩
  -- Success is the first outcome alone; an error is the second or the third.
  · cases hpayout with
    | paid hescrow hproposer =>
      obtain rfl : split = split' := Except.ok.inj hok
      have hpaid : split.PaidOut bidder params.escrow proposer _ _ :=
        ⟨_, hescrow.moved, hproposer.moved⟩
      exact ⟨hdistribute, Split.isOf_of_distribute hdistribute, hpaid.eq_add_change⟩
    | unpaid _ _ _ => exact nomatch hok
    | stuck _ _ _ => exact nomatch hok
  · cases hpayout with
    | paid _ _ => exact nomatch herror
    | unpaid _ hnot hfunds => exact ⟨fun _ => hfunds, fun hout => absurd hout hnot⟩
    | stuck _ hout hmoved =>
      exact ⟨fun hnot => absurd hout hnot, fun _ => ⟨split, hdistribute, hmoved.eq_add_change⟩⟩

/-- Half of a price, rounded down, goes to the proposer. -/
def halves : AuctionParams :=
  { AuctionParams.default with
    proposerFee := ⟨⟨500000000000000000, by decide⟩⟩
    escrow := .replicate 2 }

/-- A ledger on which the bidder is solvent, behind an outage of transfer calls. -/
def stocked (transfers : List Nat) : RemoteLedger where
  accounts := Accounts.empty.setBalance .zero ⟨⟨640, by decide⟩, "stake"⟩
  outage := { Outage.none with transfers }
  calls := 0

/-- A price is paid in halves; the first comes back if only the second call fails, and does not if
the third one fails as well. -/
theorem settle_all_or_nothing_halves :
    let price : Coin := ⟨⟨99, by decide⟩, "stake"⟩
    let first : Payment := ⟨.zero, ⟨⟨50, by decide⟩, "stake"⟩, some (.replicate 2)⟩
    let second : Payment := ⟨.zero, ⟨⟨49, by decide⟩, "stake"⟩, some (.replicate 3)⟩
    let run (transfers : List Nat) :=
      settle halves .zero price (.replicate 3) (stocked transfers)
    (∀ h, (((run []).2.accounts.funds h).toNat : Int) =
        ((stocked []).accounts.funds h).toNat + first.change h + second.change h) ∧
      ((run [1]).1 = .error (.ledger (.unavailable "transfer 1")) ∧
        (run [1]).2.accounts.funds = (stocked [1]).accounts.funds) ∧
      ReversalOut (stocked [1, 2]) (run [1, 2]).2 ∧
      ∀ h, (((run [1, 2]).2.accounts.funds h).toNat : Int) =
        ((stocked [1, 2]).accounts.funds h).toNat + first.change h := by
  intro price first second run
  have hall := fun transfers =>
    settle_all_or_nothing halves .zero price (.replicate 3) (stocked transfers)
  refine ⟨?_, ⟨by decide, ?_⟩, by decide, ?_⟩
  · -- Without an outage, both halves arrive.
    obtain ⟨-, hpaid, -⟩ := hall []
    exact (hpaid ⟨first.coin, second.coin⟩ (by decide)).2.2
  · -- The second call fails, and the first is taken back.
    obtain ⟨-, -, hunpaid, -⟩ := hall [1]
    exact (hunpaid (.ledger (.unavailable "transfer 1")) (by decide)).1 (by decide)
  · -- The call that takes it back fails as well, and the first half stays with the escrow.
    obtain ⟨-, -, hunpaid, -⟩ := hall [1, 2]
    obtain ⟨split, hsplit, hmoved⟩ :=
      (hunpaid (.ledger (.unavailable "transfer 2")) (by decide)).2 (by decide)
    have hhalves : distribute price halves.proposerFee = .ok ⟨first.coin, second.coin⟩ := by decide
    obtain rfl := Except.ok.inj (hhalves.symm.trans hsplit)
    exact hmoved

end RemoteLedger

end LaneAuction
