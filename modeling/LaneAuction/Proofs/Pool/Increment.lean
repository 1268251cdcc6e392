import LaneAuction.Proofs.Auction.ClearedBids
import LaneAuction.Proofs.Pool.Run

/-!
# What a bid must offer over an earlier one

A bid that takes the place of a pending one, or that comes back after it was cleared, must offer at
least the earlier price and the increment. The sum is cut at the largest amount, so the rule is the
exact one as long as there is an amount that large (`increment_rule_exact`). Beyond, the largest
amount passes whatever the increment is: it even outbids itself (`largest_outbids_itself`).
-/

namespace LaneAuction

namespace Coin

variable {price held increment : Coin}

/-- A price clears another by an increment: it is in the same denomination and at least their exact
sum. -/
def Clears (price held increment : Coin) : Prop :=
  price.denom = held.denom ∧
    held.amount.toNat + increment.amount.toNat ≤ price.amount.toNat

/-- A price is the largest of its denomination, and the sum that it would have to reach is out of
range. -/
def IsCeiling (price held increment : Coin) : Prop :=
  price.denom = held.denom ∧ price.amount = .largest ∧
    Amount.largest.toNat < held.amount.toNat + increment.amount.toNat

instance : Decidable (price.Clears held increment) := inferInstanceAs (Decidable (_ ∧ _))

instance : Decidable (price.IsCeiling held increment) := inferInstanceAs (Decidable (_ ∧ _ ∧ _))

/-- The cut sum is reached by what reaches the exact one, and by the largest price. -/
theorem raises_iff : price.Raises held increment ↔
    price.Clears held increment ∨ price.IsCeiling held increment := by
  have hle : price.amount.toNat ≤ Amount.largest.toNat := Nat.le_of_lt_succ price.amount.toNat_lt
  rw [Raises, Clears, IsCeiling, Amount.ext_iff, ← and_or_left]
  refine and_congr_right fun _ => ?_
  show min _ _ ≤ _ ↔ _
  omega

/-- A price raises itself if there is no increment, or if it is the largest. -/
theorem raises_self_iff :
    price.Raises price increment ↔ increment.amount = .zero ∨ price.amount = .largest := by
  have hle : price.amount.toNat ≤ Amount.largest.toNat := Nat.le_of_lt_succ price.amount.toNat_lt
  rw [raises_iff, Clears, IsCeiling, Amount.ext_iff, Amount.ext_iff, Amount.toNat_zero]
  simp only [true_and]
  omega

end Coin

/-- A price fails the increment check if and only if it does not raise the price that is held. -/
theorem checkIncrement_eq_error_iff {price held increment : Coin} {e : Rejection} :
    checkIncrement price held increment = .error e ↔
      ¬ price.Raises held increment ∧ .belowIncrement price held increment = e := by
  rw [← checkIncrement_eq_ok_iff, checkIncrement]
  split <;> simp

/-- What was just recorded is the price that is remembered. -/
private theorem ClearedBids.price?_record_empty {key : BidKey} {clearing : Clearing} :
    (empty.record key clearing).price? key = some clearing.price := by
  rw [price?_eq, get?_record, if_pos rfl, get?_empty, joined_none_some, Option.map_some]

namespace Pool

variable {p q : Pool} {r old : PendingTx} {bid previous : PendingBid} {increment : Coin}
  {maxPending : Nat} {hash : Hash}

/-- A bid that does not raise the price of the pending one under its key is refused. -/
theorem run_insertBid_of_not_raises (hbid : r.bid = some bid)
    (hkey : p.arena.bid? bid.key = some old) (hprevious : old.bid = some previous)
    (hprice : ¬ bid.price.Raises previous.price increment) (maxPending : Nat) :
    (insertBid r increment maxPending).run.run p =
      (.error (.belowIncrement bid.price previous.price increment), p) := by
  rw [run_insertBid_of_pending hbid hkey hprevious,
    checkIncrement_eq_error_iff.mpr ⟨hprice, rfl⟩]

/-- The bid that is replaced is the pending one under the key, and its price is raised. -/
private theorem exists_of_replaced
    (h : (insertBid r increment maxPending).run.run p = (.ok (some hash), q)) :
    ∃ bid old, r.bid = some bid ∧ p.arena.bid? bid.key = some old ∧ old.hash = hash ∧
      ∀ previous, old.bid = some previous → bid.price.Raises previous.price increment := by
  cases hbid : r.bid with
  | none =>
    rw [run_insertBid_of_none hbid] at h
    cases h
  | some bid =>
    cases hkey : p.arena.bid? bid.key with
    | none =>
      -- Nothing is replaced under a new key.
      rw [run_insertBid_of_new hbid hkey] at h
      split at h
      · cases h
      · split at h <;> cases h
    | some old =>
      refine ⟨bid, old, rfl, hkey, ?_, fun previous hprevious => ?_⟩
      · -- Where a bid is replaced, the answer is its hash; there are two such places.
        have hanswer : ∀ {p q}, (do replaceBid r old; pure (some old.hash)).run.run p =
            (.ok (some hash), q) → old.hash = hash := by
          intro p q h
          rw [ExceptT.run_run_bind] at h
          split at h <;> cases h
          rfl
        simp only [insertBid, hbid, ExceptT.run_run_bind, ExceptT.run_run_get, hkey] at h
        split at h
        · rw [ExceptT.run_run_bind, ExceptT.run_run_liftM] at h
          split at h
          · exact hanswer h
          · cases h
        · exact hanswer h
      · -- A price that does not raise the old one is refused, and then nothing is replaced.
        by_contra hprice
        rw [run_insertBid_of_not_raises hbid hkey hprevious hprice] at h
        cases h

/-- The increment rule decides on the exact sum wherever this is an amount. In every pool, a bid
replaces the pending one under its key only if its price clears the pending one by the increment, or
is the largest one while no amount does; all others are refused, and the pool stays as it is. In a
pool that is kept in order, the replaced bid is of the same bidder on the same bundle. A history of
cleared bids lets the same prices pass, over the one that is recorded for the key. -/
theorem increment_rule_exact (p : Pool) (r : PendingTx) (h : ClearedBids) (offer : BundleBid)
    (increment : Coin) (maxPending : Nat) :
    let outcome := (insertBid r increment maxPending).run.run p
    (∀ hash, outcome.1 = .ok (some hash) → ∃ bid old, r.bid = some bid ∧
      p.arena.bid? bid.key = some old ∧ old.hash = hash ∧
      (∀ previous, old.bid = some previous → bid.price.Clears previous.price increment ∨
        bid.price.IsCeiling previous.price increment) ∧
      (p.Filed → p.arena.get? hash = some old ∧
        ∃ previous, old.bid = some previous ∧ previous.key = bid.key)) ∧
    (∀ bid old previous, r.bid = some bid → p.arena.bid? bid.key = some old →
      old.bid = some previous → ¬ bid.price.Clears previous.price increment →
      ¬ bid.price.IsCeiling previous.price increment →
      outcome = (.error (.belowIncrement bid.price previous.price increment), p)) ∧
    ∀ held, h.price? offer.key = some held →
      (h.check offer increment = .ok () ↔
        offer.price.Clears held increment ∨ offer.price.IsCeiling held increment) := by
  intro outcome
  refine ⟨fun hash hreplaced => ?_, ?_, ?_⟩
  · obtain ⟨bid, old, hbid, hkey, rfl, hraises⟩ := exists_of_replaced (Prod.ext hreplaced rfl)
    refine ⟨bid, old, hbid, hkey, rfl, ?_, fun hp => ?_⟩
    · exact fun previous hprevious => Coin.raises_iff.mp (hraises previous hprevious)
    · obtain ⟨hold, -, -, hprevious⟩ := hp.exists_of_bid? hkey
      exact ⟨hold, hprevious⟩
  -- Raising the price is clearing it or being at the ceiling, so neither means refused.
  · intro bid old previous hbid hkey hprevious hclears hceiling
    refine run_insertBid_of_not_raises hbid hkey hprevious ?_ maxPending
    rw [Coin.raises_iff]
    exact not_or.mpr ⟨hclears, hceiling⟩
  -- The history asks the same of an offer, about the one price that it holds.
  · intro held hheld
    rw [ClearedBids.check_eq_ok_iff, ← Coin.raises_iff]
    constructor
    · exact fun hraises => hraises held hheld
    · intro hraises held' hheld'
      rw [hheld] at hheld'
      exact Option.some.inj hheld' ▸ hraises

/-- A bid of one account on one bundle. -/
def rival (hash : UInt8) (price : Amount) : PendingTx :=
  { hash := .replicate hash
    raw := []
    tx := default
    lane := .auction
    arrival := 0
    bid := some ⟨.zero, ⟨price, "stake"⟩, [.replicate 7], .zero⟩ }

/-- The offer of such a bid, as it is sent. -/
def rivalOffer (price : Amount) : BundleBid := ⟨.zero, ⟨price, "stake"⟩, []⟩

/-- A bid keeps its key at another price. -/
private theorem key_rivalOffer (price : Amount) :
    (rivalOffer .zero).key = (rivalOffer price).key := rfl

/-- The first bid of an auction, and an increment for all others. -/
def opening (price : Amount) : List Step :=
  [.insertBid (rival 1 price) ⟨⟨10, by decide⟩, "stake"⟩ 1]

/-- A bid of one hundred is replaced by one of one hundred and ten and by none below, whether it is
pending or was cleared. -/
theorem increment_rule_exact_opening :
    let increment : Coin := ⟨⟨10, by decide⟩, "stake"⟩
    let p := ofSteps default (opening ⟨100, by decide⟩)
    let h := ClearedBids.empty.record (rivalOffer .zero).key ⟨⟨⟨100, by decide⟩, "stake"⟩, 1⟩
    (∃ q, (insertBid (rival 2 ⟨110, by decide⟩) increment 1).run.run p =
      (.ok (some (.replicate 1)), q)) ∧
    (insertBid (rival 2 ⟨109, by decide⟩) increment 1).run.run p =
      (.error (.belowIncrement ⟨⟨109, by decide⟩, "stake"⟩ ⟨⟨100, by decide⟩, "stake"⟩ increment),
        p) ∧
    h.check (rivalOffer ⟨110, by decide⟩) increment = .ok () ∧
    h.check (rivalOffer ⟨109, by decide⟩) increment ≠ .ok () := by
  intro increment p h
  obtain ⟨-, hrefused, hcleared⟩ := increment_rule_exact p (rival 2 ⟨109, by decide⟩) h
    (rivalOffer ⟨109, by decide⟩) increment 1
  obtain ⟨-, -, hcleared'⟩ := increment_rule_exact p (rival 2 ⟨110, by decide⟩) h
    (rivalOffer ⟨110, by decide⟩) increment 1
  -- The history knows the key at the price of the pending bid.
  have hheld : ∀ price, h.price? (rivalOffer price).key = some ⟨⟨100, by decide⟩, "stake"⟩ :=
    fun price => key_rivalOffer price ▸ ClearedBids.price?_record_empty
  refine ⟨⟨_, rfl⟩, ?_, ?_, ?_⟩
  · exact hrefused _ _ _ rfl rfl rfl (by decide) (by decide)
  · exact (hcleared' _ (hheld _)).mpr (by decide)
  · rw [ne_eq, hcleared _ (hheld _)]
    decide

/-- The largest amount outbids itself by any increment, both where the earlier bid is pending and
where it was cleared. -/
theorem largest_outbids_itself :
    let increment : Coin := ⟨⟨10, by decide⟩, "stake"⟩
    let top : Coin := ⟨.largest, "stake"⟩
    let h := ClearedBids.empty.record (rivalOffer .largest).key ⟨top, 1⟩
    (∀ step ∈ opening .largest, step.IsProper) ∧ ¬ top.Clears top increment ∧
    (∃ q, (insertBid (rival 2 .largest) increment 1).run.run (ofSteps default (opening .largest)) =
      (.ok (some (.replicate 1)), q)) ∧
    h.price? (rivalOffer .largest).key = some top ∧
    h.check (rivalOffer .largest) increment = .ok () := by
  intro increment top h
  have hheld : h.price? (rivalOffer .largest).key = some top := ClearedBids.price?_record_empty
  refine ⟨by decide, by decide, ⟨_, rfl⟩, hheld, ?_⟩
  rw [ClearedBids.check, hheld]
  rfl

end Pool

end LaneAuction
