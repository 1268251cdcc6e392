import LaneAuction.Proofs.Ledger.Overlay
import Mathlib.Algebra.Ring.Int.Defs

/-!
# What a sequence of payments asks of a ledger

A payment takes a coin from an account, and may add it to another. What an account holds at some
point of a sequence is what the ledger says, plus what was added and minus what was taken before,
in exact integers (`heldAfter`). That decides if the next payment can be made (`Payment.Covered`) or
how it fails (`Payment.Fails`), and the overlay that buffers balances follows it
(`Overlay.Follows`). So a sequence is paid if every payment of it is covered, and else fails as the
first one does that is not (`Follows.run_forM_eq_ok_iff`, `Follows.run_forM_eq_error_iff`).
-/

namespace LaneAuction

/-- A coin that an account pays: to nobody, if it is a price or a fee, or to a target. -/
structure Payment where
  source : Address
  coin : Coin
  target : Option Address
deriving DecidableEq

namespace Payment

/-- The payment in simulation. -/
def run (p : Payment) : LedgerAction Overlay Unit :=
  match p.target with
  | none => Overlay.debit p.source p.coin
  | some target => Overlay.transfer p.source target p.coin

/-- True if the ledger is asked for the source's balance. An empty coin is passed over, except when
it is paid to oneself. -/
def asks (p : Payment) : Prop := p.coin.isZero = false ∨ p.target = some p.source

instance (p : Payment) : Decidable p.asks := inferInstanceAs (Decidable (_ ∨ _))

/-- By how much the payment changes a holding. Paid to oneself, a coin changes nothing. -/
def change (p : Payment) (h : Holding) : Int :=
  (if p.target = some h.account ∧ p.coin.denom = h.denom then (p.coin.amount.toNat : Int) else 0)
    - if p.source = h.account ∧ p.coin.denom = h.denom then (p.coin.amount.toNat : Int) else 0

end Payment

/-- What an account holds after some payments: what it has on the ledger and all changes since. -/
def heldAfter (ledger : LedgerView) (done : List Payment) (account : Address) (denom : Denom) :
    Except LedgerError Int :=
  (ledger.balance account denom).map fun amount =>
    (amount.toNat : Int) + (done.map fun p => p.change ⟨account, denom⟩).sum

namespace Payment

/-- A payment can be made after others: if it asks the ledger at all, what the source holds is known
and enough, and if somebody else receives the coin, that balance is known and stays in range. -/
def Covered (ledger : LedgerView) (done : List Payment) (p : Payment) : Prop :=
  p.asks → ∃ held, heldAfter ledger done p.source p.coin.denom = .ok held ∧
    (p.coin.amount.toNat : Int) ≤ held ∧
    ∀ target, p.target = some target → target ≠ p.source →
      ∃ current, heldAfter ledger done target p.coin.denom = .ok current ∧
        current + p.coin.amount.toNat ≤ (Amount.largest.toNat : Int)

/-- How a payment fails after others. The source is looked at first. -/
inductive Fails (ledger : LedgerView) (done : List Payment) (p : Payment) : LedgerError → Prop where
  | unread {e : LedgerError} (hasks : p.asks)
      (hread : heldAfter ledger done p.source p.coin.denom = .error e) : Fails ledger done p e
  | short {available : Amount} (hasks : p.asks)
      (hheld : heldAfter ledger done p.source p.coin.denom = .ok available.toNat)
      (hlt : available < p.coin.amount) : Fails ledger done p
        (.insufficientFunds p.source p.coin.denom available p.coin.amount)
  | targetUnread {held : Int} {target : Address} {e : LedgerError} (hasks : p.asks)
      (hheld : heldAfter ledger done p.source p.coin.denom = .ok held)
      (hle : (p.coin.amount.toNat : Int) ≤ held) (htarget : p.target = some target)
      (hne : target ≠ p.source)
      (hread : heldAfter ledger done target p.coin.denom = .error e) : Fails ledger done p e
  | overflow {held current : Int} {target : Address} (hasks : p.asks)
      (hheld : heldAfter ledger done p.source p.coin.denom = .ok held)
      (hle : (p.coin.amount.toNat : Int) ≤ held) (htarget : p.target = some target)
      (hne : target ≠ p.source)
      (hcurrent : heldAfter ledger done target p.coin.denom = .ok current)
      (hlt : (Amount.largest.toNat : Int) < current + p.coin.amount.toNat) :
      Fails ledger done p (.overflow target)

end Payment

namespace Overlay

variable {ledger : LedgerView} {o : Overlay} {done : List Payment} {p : Payment} {e : LedgerError}

/-- The overlay shows, of every account, what it holds after some payments. -/
def Follows (o : Overlay) (ledger : LedgerView) (done : List Payment) : Prop :=
  ∀ account denom, (o.balance account denom).map (fun amount => (amount.toNat : Int)) =
    heldAfter ledger done account denom

/-- An overlay that buffers nothing shows what is held before any payment. -/
theorem follows_ofView (ledger : LedgerView) : (ofView ledger).Follows ledger [] := by
  intro account denom
  simp only [balance, ofView, Std.ExtTreeMap.getElem?_empty, heldAfter, List.map_nil, List.sum_nil,
    add_zero]

/-- Where it is not known what an account holds, its balance is not read. -/
private theorem Follows.balance_eq_error (h : o.Follows ledger done) {account : Address}
    {denom : Denom} (hread : heldAfter ledger done account denom = .error e) :
    o.balance account denom = .error e := by
  rw [← h account denom] at hread
  cases hbalance : o.balance account denom with
  | error e' =>
    rw [hbalance] at hread
    exact congrArg _ (Except.error.inj hread)
  | ok amount =>
    rw [hbalance] at hread
    exact nomatch hread

/-- What an account holds is the balance that is read. -/
private theorem Follows.exists_balance_eq_ok (h : o.Follows ledger done) {account : Address}
    {denom : Denom} {held : Int} (hheld : heldAfter ledger done account denom = .ok held) :
    ∃ amount, o.balance account denom = .ok amount ∧ (amount.toNat : Int) = held := by
  rw [← h account denom] at hheld
  cases hbalance : o.balance account denom with
  | error e =>
    rw [hbalance] at hheld
    exact nomatch hheld
  | ok amount =>
    rw [hbalance] at hheld
    exact ⟨amount, rfl, Except.ok.inj hheld⟩

/-- The balance that is read is what the account holds. -/
private theorem Follows.heldAfter_eq (h : o.Follows ledger done) {account : Address} {denom : Denom}
    {read : Except LedgerError Amount} (hbalance : o.balance account denom = read) :
    heldAfter ledger done account denom = read.map fun amount => (amount.toNat : Int) := by
  rw [← h account denom, hbalance]

/-! ### One payment -/

/-- What a payment to somebody else does: a failure of either step leaves the overlay as it was. -/
theorem run_transfer_of_ne {source target : Address} (hne : target ≠ source) (coin : Coin) :
    (transfer source target coin).run.run o =
      if coin.isZero then (.ok (), o)
      else match o.balance source coin.denom with
        | .error e => (.error e, o)
        | .ok available => match available.sub? coin.amount with
          | none => (.error (.insufficientFunds source coin.denom available coin.amount), o)
          | some left => match o.balance target coin.denom with
            | .error e => (.error e, o)
            | .ok current => match current.add? coin.amount with
              | none => (.error (.overflow target), o)
              | some sum => (.ok (), (o.setBalance source ⟨left, coin.denom⟩).setBalance target
                  ⟨sum, coin.denom⟩) := by
  simp only [transfer, ExceptT.run_run_bind, ExceptT.run_run_get, if_neg hne.symm, run_debit_eq,
    ExceptT.run_run_tryCatch, run_credit_eq]
  -- Every read and every sum decides in its turn, as it stands in the statement.
  by_cases hzero : coin.isZero
  · simp only [hzero, if_true]
  simp only [hzero, Bool.false_eq_true, if_false]
  cases o.balance source coin.denom with
  | error e => rfl
  | ok available =>
    simp only
    cases available.sub? coin.amount with
    | none => rfl
    | some left =>
      -- What was taken from the source does not change what the target holds.
      simp only [balance_setBalance, hne, false_and, if_false]
      cases o.balance target coin.denom with
      | error e => rfl
      | ok current =>
        simp only
        cases current.add? coin.amount <;> rfl

/-- What a payment to oneself does. -/
theorem run_transfer_self (account : Address) (coin : Coin) :
    (transfer account account coin).run.run o =
      match o.balance account coin.denom with
      | .error e => (.error e, o)
      | .ok available => match available.sub? coin.amount with
        | none => (.error (.insufficientFunds account coin.denom available coin.amount), o)
        | some _ => (.ok (), o) := by
  simp only [transfer, ExceptT.run_run_bind, ExceptT.run_run_get, if_true, ExceptT.run_run_liftM]
  cases o.balance account coin.denom with
  | error e => rfl
  | ok available =>
    by_cases hlt : available < coin.amount
    · simp only [hlt, if_true, Amount.sub?_eq_none_iff.mpr hlt]
      rfl
    · obtain ⟨left, hleft⟩ := Option.ne_none_iff_exists'.mp (hlt ∘ Amount.sub?_eq_none_iff.mp)
      simp only [hlt, if_false, hleft]
      rfl

/-- What a payment does to an overlay. -/
theorem run_payment (p : Payment) (o : Overlay) : p.run.run.run o =
    if p.asks then
      match o.balance p.source p.coin.denom with
      | .error e => (.error e, o)
      | .ok available => match available.sub? p.coin.amount with
        | none => (.error (.insufficientFunds p.source p.coin.denom available p.coin.amount), o)
        | some left => match p.target with
          | none => (.ok (), o.setBalance p.source ⟨left, p.coin.denom⟩)
          | some target =>
            if target = p.source then (.ok (), o)
            else match o.balance target p.coin.denom with
              | .error e => (.error e, o)
              | .ok current => match current.add? p.coin.amount with
                | none => (.error (.overflow target), o)
                | some sum => (.ok (), (o.setBalance p.source ⟨left, p.coin.denom⟩).setBalance
                    target ⟨sum, p.coin.denom⟩)
    else (.ok (), o) := by
  obtain ⟨source, coin, target⟩ := p
  cases target with
  | none =>
    simp only [Payment.run, Payment.asks, run_debit_eq, reduceCtorEq, or_false]
    cases coin.isZero with
    | true => rfl
    | false =>
      simp only [Bool.false_eq_true, if_false, if_true]
      cases o.balance source coin.denom with
      | error e => rfl
      | ok available =>
        simp only
        cases available.sub? coin.amount <;> rfl
  | some target =>
    -- A transfer to itself is asked of the ledger even for an empty coin.
    by_cases hself : target = source
    · subst hself
      simp only [Payment.run, Payment.asks, run_transfer_self, or_true, if_true]
      rfl
    · simp only [Payment.run, Payment.asks, run_transfer_of_ne hself, Option.some.injEq, hself,
        or_false, if_false]
      cases coin.isZero with
      | true => rfl
      | false => simp only [Bool.false_eq_true, if_false, if_true]

/-! ### What a payment leaves -/

/-- An overlay goes on to follow the payments if every balance changes as the holding does, and
stays if that does. -/
theorem Follows.append {o' : Overlay} (h : o.Follows ledger done)
    (hbalances : ∀ account denom,
      o'.balance account denom = o.balance account denom ∧ p.change ⟨account, denom⟩ = 0 ∨
      ∃ old new, o.balance account denom = .ok old ∧ o'.balance account denom = .ok new ∧
        (new.toNat : Int) = old.toNat + p.change ⟨account, denom⟩) :
    o'.Follows ledger (done ++ [p]) := by
  intro account denom
  -- What is held after one more payment is what was held before it and its change.
  have hheld : heldAfter ledger (done ++ [p]) account denom =
      (heldAfter ledger done account denom).map (· + p.change ⟨account, denom⟩) := by
    rw [heldAfter, heldAfter]
    cases ledger.balance account denom with
    | error e => rfl
    | ok amount =>
      refine congrArg Except.ok ?_
      rw [List.map_append, List.sum_append, List.map_singleton, List.sum_singleton]
      exact (Int.add_assoc _ _ _).symm
  rw [hheld, ← h account denom]
  obtain ⟨heq, hchange⟩ | ⟨old, new, hold, hnew, hchange⟩ := hbalances account denom
  · rw [heq, hchange]
    cases o.balance account denom with
    | error e => rfl
    | ok amount => exact congrArg Except.ok (Int.add_zero _).symm
  · rw [hold, hnew]
    exact congrArg Except.ok hchange

/-- A price or a fee is missing from its source. -/
private theorem Follows.take (h : o.Follows ledger done) {available left : Amount}
    (htarget : p.target = none) (hbalance : o.balance p.source p.coin.denom = .ok available)
    (hleft : available.sub? p.coin.amount = some left) :
    (o.setBalance p.source ⟨left, p.coin.denom⟩).Follows ledger (done ++ [p]) := by
  have hleft := Amount.sub?_eq_some_iff.mp hleft
  apply h.append
  intro account denom
  -- Either the source's holding is looked at, or one that did not change.
  rw [balance_setBalance]
  by_cases hsource : account = p.source ∧ denom = p.coin.denom
  · obtain ⟨rfl, rfl⟩ := hsource
    refine .inr ⟨available, left, hbalance, by simp, ?_⟩
    simp only [Payment.change, htarget, reduceCtorEq, false_and, and_self, if_true, if_false]
    omega
  · refine .inl ⟨by rw [if_neg hsource], ?_⟩
    have hother : ¬ (p.source = account ∧ p.coin.denom = denom) :=
      fun heq => hsource ⟨heq.1.symm, heq.2.symm⟩
    simp [Payment.change, htarget, hother]

/-- A coin that is paid to somebody else is missing from its source and added to its target. -/
private theorem Follows.move (h : o.Follows ledger done) {target : Address}
    {available left current sum : Amount} (htarget : p.target = some target)
    (hne : target ≠ p.source) (hbalance : o.balance p.source p.coin.denom = .ok available)
    (hleft : available.sub? p.coin.amount = some left)
    (hcurrent : o.balance target p.coin.denom = .ok current)
    (hsum : current.add? p.coin.amount = some sum) :
    ((o.setBalance p.source ⟨left, p.coin.denom⟩).setBalance target ⟨sum, p.coin.denom⟩).Follows
      ledger (done ++ [p]) := by
  have hleft := Amount.sub?_eq_some_iff.mp hleft
  have hsum := Amount.add?_eq_some_iff.mp hsum
  apply h.append
  intro account denom
  -- The target's holding, then the source's, then all others.
  rw [balance_setBalance, balance_setBalance]
  by_cases hdenom : denom = p.coin.denom
  · subst hdenom
    -- The two accounts differ, so no holding is written twice.
    by_cases haccount : account = target
    · subst haccount
      refine .inr ⟨current, sum, hcurrent, by simp, ?_⟩
      simp only [Payment.change, htarget, hne.symm, false_and, and_self, if_true, if_false]
      omega
    · by_cases hsource : account = p.source
      · subst hsource
        refine .inr ⟨available, left, hbalance, by simp [haccount], ?_⟩
        simp only [Payment.change, htarget, Option.some.injEq, hne, false_and, and_self, if_true,
          if_false]
        omega
      · refine .inl ⟨by simp [haccount, hsource], ?_⟩
        simp [Payment.change, htarget, Ne.symm haccount, Ne.symm hsource]
  · exact .inl ⟨by simp [hdenom], by simp [Payment.change, Ne.symm hdenom]⟩

/-- A payment that changes nothing is followed without a change. -/
private theorem Follows.append_same (h : o.Follows ledger done)
    (hsame : p.coin.isZero ∨ p.target = some p.source) : o.Follows ledger (done ++ [p]) := by
  refine h.append fun account denom => .inl ⟨rfl, ?_⟩
  obtain hzero | hself := hsame
  · have hzero : p.coin.amount.toNat = 0 := by simpa [Coin.isZero, Amount.isZero] using hzero
    simp [Payment.change, hzero]
  · simp [Payment.change, hself]

/-! ### Payments that are made, and how others fail -/

/-- A payment that is covered is made. -/
private theorem Follows.exists_run_of_covered (h : o.Follows ledger done)
    (hp : p.Covered ledger done) :
    ∃ o', p.run.run.run o = (.ok (), o') ∧ o'.Follows ledger (done ++ [p]) := by
  rw [run_payment]
  by_cases hasks : p.asks
  · obtain ⟨held, hheld, hle, htargets⟩ := hp hasks
    obtain ⟨available, hbalance, rfl⟩ := h.exists_balance_eq_ok hheld
    obtain ⟨left, hleft⟩ : ∃ left, available.sub? p.coin.amount = some left :=
      ⟨_, if_pos (Amount.le_def.mpr (by omega))⟩
    simp only [if_pos hasks, hbalance, hleft]
    -- Where the coin goes decides what the overlay buffers.
    cases htarget : p.target with
    | none => exact ⟨_, rfl, h.take htarget hbalance hleft⟩
    | some target =>
      by_cases hself : target = p.source
      · simp only [if_pos hself]
        exact ⟨o, rfl, h.append_same (.inr (by rw [htarget, hself]))⟩
      · -- What the target would hold is in range, so the sum exists.
        obtain ⟨_, hcurrent, hrange⟩ := htargets target htarget hself
        obtain ⟨current, hbalance', rfl⟩ := h.exists_balance_eq_ok hcurrent
        obtain ⟨sum, hsum⟩ : ∃ sum, current.add? p.coin.amount = some sum := by
          refine Option.ne_none_iff_exists'.mp fun hnone => ?_
          have := Amount.add?_eq_none_iff.mp hnone
          omega
        simp only [if_neg hself, hbalance', hsum]
        exact ⟨_, rfl, h.move htarget hself hbalance hleft hbalance' hsum⟩
  · -- The ledger is not asked for an empty coin.
    rw [if_neg hasks]
    have hzero : p.coin.isZero := by
      simpa [Payment.asks] using fun hzero => hasks (.inl hzero)
    exact ⟨o, rfl, h.append_same (.inl hzero)⟩

/-- A payment that fails is not made, and reports its failure. -/
private theorem Follows.run_of_fails (h : o.Follows ledger done) (hp : p.Fails ledger done e) :
    p.run.run.run o = (.error e, o) := by
  rw [run_payment]
  -- Each way to fail is one branch of the run, reached when all in front of it was read.
  cases hp with
  | unread hasks hread => simp only [if_pos hasks, h.balance_eq_error hread]
  | short hasks hheld hlt =>
    obtain ⟨available, hbalance, heq⟩ := h.exists_balance_eq_ok hheld
    obtain rfl := Amount.ext (Int.ofNat.inj heq)
    simp only [if_pos hasks, hbalance, Amount.sub?_eq_none_iff.mpr hlt]
  | targetUnread hasks hheld hle htarget hne hread =>
    obtain ⟨available, hbalance, rfl⟩ := h.exists_balance_eq_ok hheld
    obtain ⟨left, hleft⟩ : ∃ left, available.sub? p.coin.amount = some left :=
      ⟨_, if_pos (Amount.le_def.mpr (by omega))⟩
    simp only [if_pos hasks, hbalance, hleft, htarget, if_neg hne, h.balance_eq_error hread]
  | overflow hasks hheld hle htarget hne hcurrent hlt =>
    obtain ⟨available, hbalance, rfl⟩ := h.exists_balance_eq_ok hheld
    obtain ⟨left, hleft⟩ : ∃ left, available.sub? p.coin.amount = some left :=
      ⟨_, if_pos (Amount.le_def.mpr (by omega))⟩
    obtain ⟨current, hbalance', rfl⟩ := h.exists_balance_eq_ok hcurrent
    have hnone : current.add? p.coin.amount = none := Amount.add?_eq_none_iff.mpr (by omega)
    simp only [if_pos hasks, hbalance, hleft, htarget, if_neg hne, hbalance', hnone]

/-- A payment is covered or fails. -/
theorem Follows.covered_or_fails (h : o.Follows ledger done) (p : Payment) :
    p.Covered ledger done ∨ ∃ e, p.Fails ledger done e := by
  by_cases hasks : p.asks
  · -- What the overlay reads is what `done` left, so its reads decide the cases.
    cases hbalance : o.balance p.source p.coin.denom with
    | error e => exact .inr ⟨e, .unread hasks (h.heldAfter_eq hbalance)⟩
    | ok available =>
      have hheld := h.heldAfter_eq hbalance
      by_cases hlt : available < p.coin.amount
      · exact .inr ⟨_, .short hasks hheld hlt⟩
      have hle : (p.coin.amount.toNat : Int) ≤ available.toNat := by
        rw [Amount.lt_def] at hlt
        omega
      -- Only a payment to somebody else can still fail.
      cases htarget : p.target with
      | none => exact .inl fun _ => ⟨_, hheld, hle, fun _ heq => nomatch htarget.symm.trans heq⟩
      | some target =>
        by_cases hself : target = p.source
        · refine .inl fun _ => ⟨_, hheld, hle, fun target' heq hne => ?_⟩
          obtain rfl := Option.some.inj (htarget.symm.trans heq)
          exact absurd hself hne
        cases hbalance' : o.balance target p.coin.denom with
        | error e =>
          exact .inr ⟨e, .targetUnread hasks hheld hle htarget hself (h.heldAfter_eq hbalance')⟩
        | ok current =>
          have hcurrent := h.heldAfter_eq hbalance'
          by_cases hrange : (current.toNat : Int) + p.coin.amount.toNat ≤ Amount.largest.toNat
          · refine .inl fun _ => ⟨_, hheld, hle, fun target' heq _ => ?_⟩
            obtain rfl := Option.some.inj (htarget.symm.trans heq)
            exact ⟨_, hcurrent, hrange⟩
          · exact .inr ⟨_, .overflow hasks hheld hle htarget hself hcurrent
              (Int.not_le.mp hrange)⟩
  · exact .inl fun h => absurd h hasks

/-! ### Sequences of payments -/

/-- A payment is made if it is covered, and else fails in one way. -/
theorem Follows.run_cases (h : o.Follows ledger done) (p : Payment) :
    (p.Covered ledger done ∧ (∀ e, ¬ p.Fails ledger done e) ∧
      ∃ o', p.run.run.run o = (.ok (), o') ∧ o'.Follows ledger (done ++ [p])) ∨
    (¬ p.Covered ledger done ∧ ∃ e, (∀ e', p.Fails ledger done e' ↔ e' = e) ∧
      p.run.run.run o = (.error e, o)) := by
  -- What is covered is made and what fails is not, so a payment does not do both.
  obtain hcovered | ⟨e, hfails⟩ := h.covered_or_fails p
  · obtain ⟨o', hrun, h'⟩ := h.exists_run_of_covered hcovered
    refine .inl ⟨hcovered, fun e hfails => ?_, o', hrun, h'⟩
    rw [h.run_of_fails hfails] at hrun
    exact nomatch hrun
  · have hrun := h.run_of_fails hfails
    refine .inr ⟨fun hcovered => ?_, e,
      fun e' => ⟨fun hfails' => ?_, fun heq => heq ▸ hfails⟩, hrun⟩
    · obtain ⟨o', hok, -⟩ := h.exists_run_of_covered hcovered
      rw [hrun] at hok
      exact nomatch hok
    · rw [h.run_of_fails hfails', Prod.mk.injEq] at hrun
      exact Except.error.inj hrun.1

/-- A sequence of payments is made if each is covered by what those in front of it leave. -/
theorem Follows.run_forM_eq_ok_iff {ps : List Payment} (h : o.Follows ledger done) :
    ((ps.forM Payment.run).run.run o).1 = .ok () ↔
      List.AllPass (Payment.Covered ledger) done ps := by
  induction ps generalizing o done with
  | nil => exact ⟨fun _ => List.allPass_nil, fun _ => rfl⟩
  | cons p ps ih =>
    rw [List.allPass_cons_iff, List.forM, ExceptT.run_run_bind]
    obtain ⟨hcovered, -, o', hrun, h'⟩ | ⟨hcovered, e, -, hrun⟩ := h.run_cases p
    · simp only [hrun, hcovered, true_and]
      exact ih h'
    · simp [hrun, hcovered]

/-- A sequence of payments fails as the first one does that is not covered. -/
theorem Follows.run_forM_eq_error_iff {ps : List Payment} (h : o.Follows ledger done) :
    ((ps.forM Payment.run).run.run o).1 = .error e ↔
      List.FirstFails (Payment.Covered ledger) (Payment.Fails ledger) done ps e := by
  induction ps generalizing o done with
  | nil => exact ⟨nofun, fun hfails => absurd hfails List.not_firstFails_nil⟩
  | cons p ps ih =>
    rw [List.firstFails_cons_iff, List.forM, ExceptT.run_run_bind]
    obtain ⟨hcovered, hnone, o', hrun, h'⟩ | ⟨hcovered, e', hfails, hrun⟩ := h.run_cases p
    · simp only [hrun, hcovered, hnone, false_or, true_and]
      exact ih h'
    · simp only [hrun, hcovered, hfails, false_and, or_false, Except.error.injEq]
      exact eq_comm

end Overlay

end LaneAuction
