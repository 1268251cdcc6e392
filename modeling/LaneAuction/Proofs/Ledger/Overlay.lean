import LaneAuction.Ledger.Overlay
import LaneAuction.Proofs.Ledger.Funds

/-!
# Payments that can be made on less

Payments read an overlay only to see that they are covered. So a sequence of payments that succeeds
on some balances also succeeds on higher ones (`CarriesOver`), unless a balance leaves its range;
and that cannot be where no supply is too large, as payments never raise one.
-/

namespace LaneAuction

namespace Overlay

variable {o o' p : Overlay} {x y : Funds} {account source target : Address} {coin : Coin}
  {left sum : Amount} {action action' : LedgerAction Overlay Unit}

/-- Every balance can be read, and is what is held. -/
def Shows (o : Overlay) (x : Funds) : Prop :=
  ∀ account denom, o.balance account denom = .ok (x ⟨account, denom⟩)

/-- Nothing is simulated yet, so the overlay shows what the accounts hold. -/
theorem shows_ofView (l : Accounts) : (ofView l.view).Shows l.funds := by
  intro account denom
  simp only [balance, ofView, Std.ExtTreeMap.getElem?_empty]
  rfl

/-- Buffering a balance writes one entry. -/
theorem getElem?_changes_setBalance (o : Overlay) (account : Address) (coin : Coin) (h : Holding) :
    (o.setBalance account coin).changes[h]? =
      if h = ⟨account, coin.denom⟩ then some coin.amount else o.changes[h]? := by
  simp only [setBalance, Std.ExtTreeMap.getElem?_insert]
  by_cases heq : h = ⟨account, coin.denom⟩
  · simp [heq]
  · rw [if_neg heq, if_neg (by simpa using Ne.symm heq)]

/-- What is buffered of one holding does not change another. -/
theorem balance_setBalance (o : Overlay) (account account' : Address) (coin : Coin)
    (denom : Denom) : (o.setBalance account coin).balance account' denom =
      if account' = account ∧ denom = coin.denom then .ok coin.amount
      else o.balance account' denom := by
  simp only [balance, getElem?_changes_setBalance, Holding.mk.injEq]
  by_cases heq : account' = account ∧ denom = coin.denom
  · rw [if_pos heq, if_pos heq]
  · rw [if_neg heq, if_neg heq]
    rfl

/-- An overlay shows the balance that is buffered, and all others as before. -/
theorem Shows.setBalance (h : o.Shows x) (account : Address) (coin : Coin) :
    (o.setBalance account coin).Shows
      (Function.update x ⟨account, coin.denom⟩ coin.amount) := by
  intro account' denom
  rw [balance_setBalance, h account' denom, Function.update_apply]
  simp only [Holding.mk.injEq]
  split <;> rfl

/-! ### Single payments -/

/-- What taking a coin does. -/
theorem run_debit_eq (o : Overlay) (account : Address) (coin : Coin) :
    (debit account coin).run.run o =
      if coin.isZero then (.ok (), o)
      else match o.balance account coin.denom with
        | .error e => (.error e, o)
        | .ok available => match available.sub? coin.amount with
          | some left => (.ok (), o.setBalance account ⟨left, coin.denom⟩)
          | none => (.error (.insufficientFunds account coin.denom available coin.amount), o) := by
  rw [debit]
  split
  · rfl
  · simp only [ExceptT.run_run_bind, ExceptT.run_run_get, ExceptT.run_run_liftM]
    cases o.balance account coin.denom with
    | error e => rfl
    | ok available =>
      simp only
      cases available.sub? coin.amount <;> rfl

/-- What taking a coin does, where every balance can be read. -/
theorem run_debit (h : o.Shows x) (account : Address) (coin : Coin) :
    (debit account coin).run.run o =
      if coin.isZero then (.ok (), o)
      else match (x ⟨account, coin.denom⟩).sub? coin.amount with
        | some left => (.ok (), o.setBalance account ⟨left, coin.denom⟩)
        | none => (.error (.insufficientFunds account coin.denom (x ⟨account, coin.denom⟩)
            coin.amount), o) := by
  rw [run_debit_eq, h account]

/-- A coin that an account covers is taken from it. -/
theorem exists_run_debit (h : o.Shows x)
    (hleft : (x ⟨account, coin.denom⟩).sub? coin.amount = some left) :
    ∃ o', (debit account coin).run.run o = (.ok (), o') ∧
      o'.Shows (Function.update x ⟨account, coin.denom⟩ left) := by
  rw [run_debit h]
  split
  · next hzero =>
    obtain rfl := Option.some.inj ((Coin.sub?_of_isZero hzero _).symm.trans hleft)
    exact ⟨o, rfl, by rwa [Function.update_eq_self]⟩
  · rw [hleft]
    exact ⟨_, rfl, h.setBalance account ⟨left, coin.denom⟩⟩

/-- A coin that was taken was covered. -/
theorem exists_of_run_debit (h : o.Shows x)
    (hrun : (debit account coin).run.run o = (.ok (), o')) :
    ∃ left, (x ⟨account, coin.denom⟩).sub? coin.amount = some left ∧
      o'.Shows (Function.update x ⟨account, coin.denom⟩ left) := by
  cases hleft : (x ⟨account, coin.denom⟩).sub? coin.amount with
  | none =>
    have hzero : ¬ coin.isZero := fun hzero => by simp [Coin.sub?_of_isZero hzero] at hleft
    rw [run_debit h, if_neg hzero, hleft] at hrun
    exact nomatch hrun
  | some left =>
    obtain ⟨o'', hrun', hshows⟩ := exists_run_debit h hleft
    rw [hrun'] at hrun
    obtain rfl := (Prod.mk.inj hrun).2
    exact ⟨left, rfl, hshows⟩

/-- What adding a coin does. -/
theorem run_credit_eq (o : Overlay) (account : Address) (coin : Coin) :
    (credit account coin).run.run o =
      if coin.isZero then (.ok (), o)
      else match o.balance account coin.denom with
        | .error e => (.error e, o)
        | .ok current => match current.add? coin.amount with
          | some sum => (.ok (), o.setBalance account ⟨sum, coin.denom⟩)
          | none => (.error (.overflow account), o) := by
  rw [credit]
  split
  · rfl
  · simp only [ExceptT.run_run_bind, ExceptT.run_run_get, ExceptT.run_run_liftM]
    cases o.balance account coin.denom with
    | error e => rfl
    | ok current =>
      simp only
      cases current.add? coin.amount <;> rfl

/-- What adding a coin does, where every balance can be read. -/
theorem run_credit (h : o.Shows x) (account : Address) (coin : Coin) :
    (credit account coin).run.run o =
      if coin.isZero then (.ok (), o)
      else match (x ⟨account, coin.denom⟩).add? coin.amount with
        | some sum => (.ok (), o.setBalance account ⟨sum, coin.denom⟩)
        | none => (.error (.overflow account), o) := by
  rw [run_credit_eq, h account]

/-- A coin that an account has room for is added to it. -/
private theorem exists_run_credit (h : o.Shows x)
    (hsum : (x ⟨account, coin.denom⟩).add? coin.amount = some sum) :
    ∃ o', (credit account coin).run.run o = (.ok (), o') ∧
      o'.Shows (Function.update x ⟨account, coin.denom⟩ sum) := by
  rw [run_credit h]
  split
  · next hzero =>
    obtain rfl := Option.some.inj ((Coin.add?_of_isZero hzero _).symm.trans hsum)
    exact ⟨o, rfl, by rwa [Function.update_eq_self]⟩
  · rw [hsum]
    exact ⟨_, rfl, h.setBalance account ⟨sum, coin.denom⟩⟩

/-- A coin that was added had room. -/
private theorem exists_of_run_credit (h : o.Shows x)
    (hrun : (credit account coin).run.run o = (.ok (), o')) :
    ∃ sum, (x ⟨account, coin.denom⟩).add? coin.amount = some sum ∧
      o'.Shows (Function.update x ⟨account, coin.denom⟩ sum) := by
  cases hsum : (x ⟨account, coin.denom⟩).add? coin.amount with
  | none =>
    have hzero : ¬ coin.isZero := fun hzero => by simp [Coin.add?_of_isZero hzero] at hsum
    rw [run_credit h, if_neg hzero, hsum] at hrun
    exact nomatch hrun
  | some sum =>
    obtain ⟨o'', hrun', hshows⟩ := exists_run_credit h hsum
    rw [hrun'] at hrun
    obtain rfl := (Prod.mk.inj hrun).2
    exact ⟨sum, rfl, hshows⟩

/-- A transfer that succeeds moves its coin. -/
private theorem exists_moved_of_run_transfer (h : o.Shows x)
    (hrun : (transfer source target coin).run.run o = (.ok (), o')) :
    ∃ y, Funds.Moved source target coin x y ∧ o'.Shows y := by
  simp only [transfer, ExceptT.run_run_bind, ExceptT.run_run_get] at hrun
  by_cases hne : source = target
  · -- A move to itself only has to be covered.
    simp only [if_pos hne, ExceptT.run_run_bind, ExceptT.run_run_liftM, h source] at hrun
    split at hrun
    · exact nomatch hrun
    · next hcovered =>
      obtain rfl := (Prod.mk.inj hrun).2
      exact ⟨x, ⟨Nat.not_lt.mp hcovered, fun _ => rfl, fun h' => absurd hne h'⟩, h⟩
  · simp only [if_neg hne, ExceptT.run_run_bind] at hrun
    -- Both parts went through: the debit shows the source's new holding, the credit the target's.
    rcases hdebit : (debit source coin).run.run o with ⟨cause | ⟨⟩, o₁⟩
    · rw [hdebit] at hrun
      exact nomatch hrun
    rw [hdebit] at hrun
    obtain ⟨left, hleft, hshows⟩ := exists_of_run_debit h hdebit
    simp only [ExceptT.run_run_tryCatch] at hrun
    rcases hcredit : (credit target coin).run.run o₁ with ⟨cause | ⟨⟩, o₂⟩
    · rw [hcredit] at hrun
      exact nomatch hrun
    rw [hcredit] at hrun
    obtain rfl := (Prod.mk.inj hrun).2
    obtain ⟨sum, hsum, hshows⟩ := exists_of_run_credit hshows hcredit
    have htarget : (⟨target, coin.denom⟩ : Holding) ≠ ⟨source, coin.denom⟩ := by
      simpa using Ne.symm hne
    rw [Function.update_of_ne htarget] at hsum
    -- The target's holding was not touched by the debit, and the source's was covered.
    have hcovered : coin.amount ≤ x ⟨source, coin.denom⟩ := by
      have := Amount.sub?_eq_some_iff.mp hleft
      rw [Amount.le_def]
      omega
    exact ⟨_, ⟨hcovered, fun h' => absurd h' hne, fun _ => ⟨left, sum, hleft, hsum, rfl⟩⟩, hshows⟩

/-- A move that can be made is made. -/
theorem exists_run_transfer (h : o.Shows x) (hmoved : Funds.Moved source target coin x y) :
    ∃ o', (transfer source target coin).run.run o = (.ok (), o') ∧ o'.Shows y := by
  simp only [transfer, ExceptT.run_run_bind, ExceptT.run_run_get]
  by_cases hne : source = target
  · have hcovered : ¬ x ⟨source, coin.denom⟩ < coin.amount := Nat.not_lt.mpr hmoved.covered
    simp only [if_pos hne, ExceptT.run_run_bind, ExceptT.run_run_liftM, h source, hcovered,
      if_false]
    exact ⟨o, rfl, by rwa [hmoved.same hne]⟩
  · obtain ⟨left, sum, hleft, hsum, rfl⟩ := hmoved.other hne
    obtain ⟨o₁, hdebit, hshows⟩ := exists_run_debit h hleft
    have htarget : (⟨target, coin.denom⟩ : Holding) ≠ ⟨source, coin.denom⟩ := by
      simpa using Ne.symm hne
    rw [← Function.update_of_ne htarget left x] at hsum
    obtain ⟨o₂, hcredit, hshows⟩ := exists_run_credit hshows hsum
    refine ⟨o₂, ?_, hshows⟩
    simp only [if_neg hne, ExceptT.run_run_bind, hdebit, ExceptT.run_run_tryCatch, hcredit]

/-! ### Payments on higher balances -/

/-- Balances that are at least as high everywhere, of a supply in range. -/
def Covers (o' o : Overlay) : Prop :=
  ∃ x x' : Funds, o.Shows x ∧ o'.Shows x' ∧ (∀ h, x h ≤ x' h) ∧ x'.Bounded

/-- What succeeds on some balances succeeds on higher ones, and leaves higher ones. -/
def CarriesOver (action : LedgerAction Overlay Unit) : Prop :=
  ∀ o o' p : Overlay, o'.Covers o → action.run.run o = (.ok (), p) →
    ∃ p', action.run.run o' = (.ok (), p') ∧ p'.Covers p

/-- Doing nothing carries over. -/
theorem carriesOver_pure : CarriesOver (pure ()) := by
  intro o o' p hcovers hrun
  obtain rfl := (Prod.mk.inj hrun).2
  exact ⟨o', rfl, hcovers⟩

/-- Steps that carry over do so one behind the other. -/
theorem CarriesOver.bind (h : CarriesOver action) (h' : CarriesOver action') :
    CarriesOver (action >>= fun _ => action') := by
  intro o o' p hcovers hrun
  rw [ExceptT.run_run_bind] at hrun
  rcases hfirst : action.run.run o with ⟨cause | ⟨⟩, p₁⟩
  · rw [hfirst] at hrun
    exact nomatch hrun
  rw [hfirst] at hrun
  obtain ⟨p₁', hfirst', hcovers⟩ := h o o' p₁ hcovers hfirst
  obtain ⟨p', hrun', hcovers⟩ := h' p₁ p₁' p hcovers hrun
  refine ⟨p', ?_, hcovers⟩
  rw [ExceptT.run_run_bind, hfirst']
  exact hrun'

/-- A step for each element carries over if every one of them does. -/
theorem CarriesOver.forM {α : Type} {f : α → LedgerAction Overlay Unit} {as : List α}
    (h : ∀ a ∈ as, CarriesOver (f a)) : CarriesOver (as.forM f) := by
  induction as with
  | nil => exact carriesOver_pure
  | cons a as ih =>
    obtain ⟨hfirst, hrest⟩ := List.forall_mem_cons.mp h
    exact hfirst.bind (ih hrest)

/-- Taking a coin carries over: what covers it is at least as much. -/
theorem carriesOver_debit (account : Address) (coin : Coin) :
    CarriesOver (debit account coin) := by
  intro o o' p hcovers hrun
  obtain ⟨x, x', hshows, hshows', hle, hbounded⟩ := hcovers
  obtain ⟨left, hleft, hp⟩ := exists_of_run_debit hshows hrun
  have hleft := Amount.sub?_eq_some_iff.mp hleft
  have hhigher := Amount.le_def.mp (hle ⟨account, coin.denom⟩)
  -- Whoever holds more can pay as well, and is left with more.
  obtain ⟨left', hleft'⟩ : ∃ left', (x' ⟨account, coin.denom⟩).sub? coin.amount = some left' :=
    ⟨_, if_pos (Amount.le_def.mpr (by omega))⟩
  obtain ⟨p', hrun', hp'⟩ := exists_run_debit hshows' hleft'
  refine ⟨p', hrun', _, _, hp, hp', ?_, hbounded.take hleft'⟩
  have hleft' := Amount.sub?_eq_some_iff.mp hleft'
  intro h
  -- Both sides lose the same amount, so the one that had more has more.
  by_cases heq : h = ⟨account, coin.denom⟩
  · subst heq
    rw [Function.update_self, Function.update_self, Amount.le_def]
    omega
  · rw [Function.update_of_ne heq, Function.update_of_ne heq]
    exact hle h

/-- Moving a coin carries over: the receiver has room in every supply that is in range. -/
theorem carriesOver_transfer (source target : Address) (coin : Coin) :
    CarriesOver (transfer source target coin) := by
  intro o o' p hcovers hrun
  obtain ⟨x, x', hshows, hshows', hle, hbounded⟩ := hcovers
  obtain ⟨y, hmoved, hp⟩ := exists_moved_of_run_transfer hshows hrun
  have hcovered : coin.amount ≤ x' ⟨source, coin.denom⟩ :=
    Nat.le_trans hmoved.covered (hle ⟨source, coin.denom⟩)
  obtain ⟨y', hmoved'⟩ := Funds.exists_moved hbounded target hcovered
  obtain ⟨p', hrun', hp'⟩ := exists_run_transfer hshows' hmoved'
  refine ⟨p', hrun', y, y', hp, hp', ?_, hmoved'.bounded hbounded⟩
  intro h
  -- The same move on either side leaves the order of the holdings as it was.
  by_cases hne : source = target
  · rw [hmoved.same hne, hmoved'.same hne]
    exact hle h
  · have hhigher := Amount.le_def.mp (hle h)
    rw [Amount.le_def, hmoved.toNat_eq hne, hmoved'.toNat_eq hne]
    split <;> try split
    all_goals omega

end Overlay

end LaneAuction
