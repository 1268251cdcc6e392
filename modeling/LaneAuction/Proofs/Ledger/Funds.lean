import LaneAuction.Ledger.Accounts
import LaneAuction.Proofs.Except
import LaneAuction.Proofs.OrderedMap
import Mathlib.Algebra.BigOperators.Group.Finset.Basic
import Mathlib.Algebra.Order.BigOperators.Group.Finset
import Mathlib.Algebra.BigOperators.Ring.Finset
import Mathlib.Algebra.Ring.Int.Defs

/-!
# What accounts hold

A ledger, seen as the amount that every account holds in every denomination. The supply of a
denomination bounds what any group of accounts holds together, and a move between two accounts keeps
such bounds. So where no supply is above the largest amount, a move fails only if the source does
not cover it, whichever of its ends coincide (`Accounts.exists_run_transfer`).
-/

namespace LaneAuction

namespace Coin

variable {coin : Coin}

/-- An empty coin can be taken from any amount. -/
theorem sub?_of_isZero (hzero : coin.isZero) (amount : Amount) :
    amount.sub? coin.amount = some amount := by
  have hzero : coin.amount.toNat = 0 := by simpa [isZero, Amount.isZero] using hzero
  exact Amount.sub?_eq_some_iff.mpr (by omega)

/-- An empty coin can be added to any amount. -/
theorem add?_of_isZero (hzero : coin.isZero) (amount : Amount) :
    amount.add? coin.amount = some amount := by
  have hzero : coin.amount.toNat = 0 := by simpa [isZero, Amount.isZero] using hzero
  exact Amount.add?_eq_some_iff.mpr (by omega)

end Coin

/-- What every account holds in every denomination. -/
abbrev Funds := Holding → Amount

namespace Funds

variable {x y z : Funds} {source target : Address} {coin : Coin}

/-- No group of accounts holds more of a denomination than the largest amount. -/
def Bounded (x : Funds) : Prop :=
  ∀ (denom : Denom) (accounts : Finset Address),
    ∑ account ∈ accounts, (x ⟨account, denom⟩).toNat ≤ Amount.largest.toNat

/-- Where nobody holds more than before, supplies stay within range. -/
private theorem Bounded.mono (hx : x.Bounded) (hle : ∀ h, y h ≤ x h) : y.Bounded := by
  intro denom accounts
  have hsum : ∑ account ∈ accounts, (y ⟨account, denom⟩).toNat ≤
      ∑ account ∈ accounts, (x ⟨account, denom⟩).toNat :=
    Finset.sum_le_sum fun account _ => hle ⟨account, denom⟩
  exact Nat.le_trans hsum (hx denom accounts)

/-- What was taken is missing in the supply. -/
theorem Bounded.take (hx : x.Bounded) {holding : Holding} {amount left : Amount}
    (hleft : (x holding).sub? amount = some left) : Bounded (Function.update x holding left) := by
  have hleft := Amount.sub?_eq_some_iff.mp hleft
  refine hx.mono fun h => ?_
  by_cases heq : h = holding
  · subst heq
    rw [Function.update_self, Amount.le_def]
    omega
  · rw [Function.update_of_ne heq]
    exact Nat.le_refl _

/-- Two accounts hold together what one account can hold. -/
private theorem Bounded.add_le (hx : x.Bounded) (hne : source ≠ target) (denom : Denom) :
    (x ⟨source, denom⟩).toNat + (x ⟨target, denom⟩).toNat ≤ Amount.largest.toNat := by
  have hsum := hx denom {source, target}
  rwa [Finset.sum_pair hne] at hsum

/-- Coins were moved from one account to another that covers them. A move from an account to itself
changes nothing. -/
structure Moved (source target : Address) (coin : Coin) (x y : Funds) : Prop where
  covered : coin.amount ≤ x ⟨source, coin.denom⟩
  same : source = target → y = x
  other : source ≠ target → ∃ left sum, (x ⟨source, coin.denom⟩).sub? coin.amount = some left ∧
    (x ⟨target, coin.denom⟩).add? coin.amount = some sum ∧
    y = Function.update (Function.update x ⟨source, coin.denom⟩ left) ⟨target, coin.denom⟩ sum

/-- An empty coin can be moved by anybody, and changes nothing. -/
theorem moved_of_isZero (hzero : coin.isZero) (source target : Address) (x : Funds) :
    Moved source target coin x x where
  covered := by
    have := Amount.sub?_eq_some_iff.mp (Coin.sub?_of_isZero hzero (x ⟨source, coin.denom⟩))
    rw [Amount.le_def]
    omega
  same _ := rfl
  other _ := ⟨_, _, Coin.sub?_of_isZero hzero _, Coin.add?_of_isZero hzero _, by
    rw [Function.update_eq_self, Function.update_eq_self]⟩

/-- What is held after a move, as numbers. -/
theorem Moved.toNat_eq (h : Moved source target coin x y) (hne : source ≠ target)
    (holding : Holding) : (y holding).toNat =
      if holding = ⟨target, coin.denom⟩ then (x holding).toNat + coin.amount.toNat
      else if holding = ⟨source, coin.denom⟩ then (x holding).toNat - coin.amount.toNat
      else (x holding).toNat := by
  obtain ⟨left, sum, hleft, hsum, rfl⟩ := h.other hne
  have hleft := Amount.sub?_eq_some_iff.mp hleft
  have hsum := Amount.add?_eq_some_iff.mp hsum
  by_cases htarget : holding = ⟨target, coin.denom⟩
  · subst htarget
    rw [Function.update_self, if_pos rfl]
    exact hsum.symm
  · rw [Function.update_of_ne htarget, if_neg htarget]
    by_cases hsource : holding = ⟨source, coin.denom⟩
    · subst hsource
      rw [Function.update_self, if_pos rfl]
      omega
    · rw [Function.update_of_ne hsource, if_neg hsource]

/-- A move takes no more than the coin, and nothing but from its source. -/
theorem Moved.le_add (h : Moved source target coin x y) (holding : Holding) :
    (x holding).toNat ≤ (y holding).toNat +
      if holding = ⟨source, coin.denom⟩ then coin.amount.toNat else 0 := by
  by_cases hne : source = target
  · rw [h.same hne]
    exact Nat.le_add_right _ _
  · rw [h.toNat_eq hne]
    split <;> split <;> omega

/-- What a move changes, in exact integers. Between an account and itself this is nothing. -/
theorem Moved.toInt_eq (h : Moved source target coin x y) (holding : Holding) :
    ((y holding).toNat : Int) = (x holding).toNat +
      (if holding = ⟨target, coin.denom⟩ then (coin.amount.toNat : Int) else 0) -
      if holding = ⟨source, coin.denom⟩ then (coin.amount.toNat : Int) else 0 := by
  by_cases hne : source = target
  · -- A move to itself adds and takes the same.
    rw [h.same hne, hne]
    omega
  · have hcovered := Amount.le_def.mp h.covered
    rw [h.toNat_eq hne]
    -- Otherwise a holding is the target's, the source's or neither.
    by_cases htarget : holding = ⟨target, coin.denom⟩
    · have hsource : holding ≠ ⟨source, coin.denom⟩ := by simp [htarget, Ne.symm hne]
      rw [if_pos htarget, if_pos htarget, if_neg hsource]
      omega
    · rw [if_neg htarget, if_neg htarget]
      by_cases hsource : holding = ⟨source, coin.denom⟩
      · subst hsource
        rw [if_pos rfl, if_pos rfl]
        omega
      · rw [if_neg hsource, if_neg hsource]
        omega

/-- A group of accounts that has both ends of a move holds after it what it held before. -/
theorem Moved.sum_eq (h : Moved source target coin x y) {accounts : Finset Address}
    (hsource : source ∈ accounts) (htarget : target ∈ accounts) (denom : Denom) :
    ∑ account ∈ accounts, (y ⟨account, denom⟩).toNat =
      ∑ account ∈ accounts, (x ⟨account, denom⟩).toNat := by
  -- What one end takes part in counts once.
  have hend : ∀ last ∈ accounts, ∑ account ∈ accounts,
      (if (⟨account, denom⟩ : Holding) = ⟨last, coin.denom⟩ then (coin.amount.toNat : Int) else 0) =
        if denom = coin.denom then (coin.amount.toNat : Int) else 0 := by
    intro last hlast
    by_cases hdenom : denom = coin.denom
    · simp [hdenom, hlast]
    · simp [hdenom]
  apply Int.ofNat_inj.mp
  push_cast
  simp only [h.toInt_eq]
  rw [Finset.sum_sub_distrib, Finset.sum_add_distrib, hend target htarget, hend source hsource,
    add_sub_cancel_right]

/-- A move keeps what every group of accounts can hold. -/
theorem Moved.bounded (h : Moved source target coin x y) (hx : x.Bounded) : y.Bounded := by
  intro denom accounts
  let all := insert source (insert target accounts)
  have hsub : accounts ⊆ all := fun account hmem => by simp [all, hmem]
  calc ∑ account ∈ accounts, (y ⟨account, denom⟩).toNat
      ≤ ∑ account ∈ all, (y ⟨account, denom⟩).toNat := Finset.sum_le_sum_of_subset hsub
    _ = ∑ account ∈ all, (x ⟨account, denom⟩).toNat :=
        h.sum_eq (by simp [all]) (by simp [all]) denom
    _ ≤ Amount.largest.toNat := hx denom all

/-- A move has one result. -/
theorem Moved.unique (h : Moved source target coin x y) (h' : Moved source target coin x z) :
    y = z := by
  by_cases hne : source = target
  · rw [h.same hne, h'.same hne]
  obtain ⟨left, sum, hleft, hsum, rfl⟩ := h.other hne
  obtain ⟨left', sum', hleft', hsum', rfl⟩ := h'.other hne
  rw [Option.some.inj (hleft.symm.trans hleft'), Option.some.inj (hsum.symm.trans hsum')]

/-- A move can be taken back. -/
theorem Moved.symm (h : Moved source target coin x y) : Moved target source coin y x := by
  by_cases hne : source = target
  · have hcovered := h.covered
    rw [h.same hne]
    exact ⟨hne ▸ hcovered, fun _ => rfl, fun h' => absurd hne.symm h'⟩
  obtain ⟨left, sum, hleft, hsum, rfl⟩ := h.other hne
  -- Both holdings are written again, each with what it held before.
  have hdistinct : (⟨source, coin.denom⟩ : Holding) ≠ ⟨target, coin.denom⟩ := by simpa using hne
  have hleft := Amount.sub?_eq_some_iff.mp hleft
  have hsum := Amount.add?_eq_some_iff.mp hsum
  refine ⟨?_, fun h' => absurd h'.symm hne, fun _ => ⟨x ⟨target, coin.denom⟩,
    x ⟨source, coin.denom⟩, ?_, ?_, ?_⟩⟩
  · -- The target has what it was sent, and the source has room for what it had.
    rw [Function.update_self, Amount.le_def]
    omega
  · rw [Function.update_self, Amount.sub?_eq_some_iff]
    exact hsum.symm
  · rw [Function.update_of_ne hdistinct, Function.update_self, Amount.add?_eq_some_iff]
    exact hleft.symm
  · rw [Function.update_idem, Function.update_comm hdistinct, Function.update_eq_self,
      Function.update_idem, Function.update_eq_self]

/-- Where no supply is too large, every move that is covered can be made. -/
theorem exists_moved (hx : x.Bounded) (target : Address)
    (hcovered : coin.amount ≤ x ⟨source, coin.denom⟩) : ∃ y, Moved source target coin x y := by
  by_cases hne : source = target
  · exact ⟨x, hcovered, fun _ => rfl, fun h => absurd hne h⟩
  · have hadd := hx.add_le hne coin.denom
    have hle := Amount.le_def.mp hcovered
    have hlt : Amount.largest.toNat < 0x1_00000000_00000000_00000000_00000000 := by decide
    let left : Amount := ⟨(x ⟨source, coin.denom⟩).toNat - coin.amount.toNat, by omega⟩
    let sum : Amount := ⟨(x ⟨target, coin.denom⟩).toNat + coin.amount.toNat, by omega⟩
    have hleft : (x ⟨source, coin.denom⟩).sub? coin.amount = some left :=
      Amount.sub?_eq_some_iff.mpr (Nat.sub_add_cancel hle).symm
    have hsum : (x ⟨target, coin.denom⟩).add? coin.amount = some sum :=
      Amount.add?_eq_some_iff.mpr rfl
    exact ⟨_, hcovered, fun h => absurd h hne, fun _ => ⟨left, sum, hleft, hsum, rfl⟩⟩

end Funds

namespace Accounts

variable {l : Accounts} {x y : Funds} {source target : Address} {coin : Coin}

/-- What every account holds. -/
def funds (l : Accounts) : Funds := fun h => l.balance h.account h.denom

/-- The sum of all balances in a denomination, counted without a bound. -/
def exactSupply (l : Accounts) (denom : Denom) : Nat :=
  ((l.balances.toList.filter fun entry => entry.1.denom = denom).map fun entry =>
    entry.2.toNat).sum

/-- The accounts that have an entry in a denomination. -/
def holders (l : Accounts) (denom : Denom) : Finset Address :=
  ((l.balances.toList.filter fun entry => entry.1.denom = denom).map fun entry =>
    entry.1.account).toFinset

/-- Whoever holds anything has an entry. -/
theorem mem_holders_of_balance {account : Address} {denom : Denom}
    (h : l.balance account denom ≠ .zero) : account ∈ l.holders denom := by
  cases hget : l.balances[(⟨account, denom⟩ : Holding)]? with
  | none => simp [balance, Std.ExtTreeMap.getD_eq_getD_getElem?, hget] at h
  | some amount =>
    have hmem := Std.ExtTreeMap.mem_toList_iff_getElem?_eq_some.mpr hget
    rw [holders, List.mem_toFinset, List.mem_map]
    exact ⟨_, List.mem_filter.mpr ⟨hmem, decide_eq_true rfl⟩, rfl⟩

/-- The supply is what those hold together who hold anything. -/
theorem exactSupply_eq_sum_holders (l : Accounts) (denom : Denom) :
    l.exactSupply denom = ∑ account ∈ l.holders denom, (l.balance account denom).toNat := by
  have hnodup : ((l.balances.toList.filter fun entry => entry.1.denom = denom).map fun entry =>
      entry.1.account).Nodup := by
    have hkeys : (l.balances.toList.map Prod.fst).Nodup := by
      rw [Std.ExtTreeMap.map_fst_toList_eq_keys]
      exact Std.ExtTreeMap.nodup_keys
    -- Within a denomination, the account is the whole key.
    rw [List.Nodup, List.pairwise_map] at hkeys ⊢
    refine (hkeys.filter _).imp_of_mem fun {a b} ha hb hne heq => hne ?_
    have hdenom := of_decide_eq_true (List.mem_filter.mp ha).2
    have hdenom' := of_decide_eq_true (List.mem_filter.mp hb).2
    exact Holding.mk.injEq .. |>.mpr ⟨heq, hdenom.trans hdenom'.symm⟩
  rw [holders, List.sum_toFinset _ hnodup, exactSupply, List.map_map]
  refine congrArg List.sum (List.map_congr_left fun entry hmem => ?_)
  obtain ⟨hmem, hdenom⟩ := List.mem_filter.mp hmem
  have hget := Std.ExtTreeMap.mem_toList_iff_getElem?_eq_some.mp hmem
  obtain rfl := of_decide_eq_true hdenom
  rw [Function.comp_apply, balance, Std.ExtTreeMap.getD_eq_getD_getElem?, hget, Option.getD_some]

/-- Everybody else holds nothing. -/
private theorem exactSupply_eq_sum {denom : Denom} {accounts : Finset Address}
    (hall : l.holders denom ⊆ accounts) :
    l.exactSupply denom = ∑ account ∈ accounts, (l.balance account denom).toNat := by
  rw [exactSupply_eq_sum_holders]
  refine Finset.sum_subset hall fun account _ hnot => ?_
  rw [not_not.mp fun h => hnot (mem_holders_of_balance h)]
  rfl

/-- A group of accounts holds at most the supply. -/
theorem sum_balance_le_exactSupply (l : Accounts) (denom : Denom) (accounts : Finset Address) :
    ∑ account ∈ accounts, (l.balance account denom).toNat ≤ l.exactSupply denom := by
  have hall : l.holders denom ⊆ accounts ∪ l.holders denom := Finset.subset_union_right
  rw [exactSupply_eq_sum hall]
  exact Finset.sum_le_sum_of_subset Finset.subset_union_left

/-- A move keeps every supply. -/
theorem exactSupply_eq_of_moved {l' : Accounts}
    (h : Funds.Moved source target coin l.funds l'.funds) (denom : Denom) :
    l'.exactSupply denom = l.exactSupply denom := by
  let all := insert source (insert target (l.holders denom ∪ l'.holders denom))
  have hbefore : l.holders denom ⊆ all := fun account hmem => by simp [all, hmem]
  have hafter : l'.holders denom ⊆ all := fun account hmem => by simp [all, hmem]
  rw [exactSupply_eq_sum hafter, exactSupply_eq_sum hbefore]
  exact h.sum_eq (by simp [all]) (by simp [all]) denom

/-- Where the supplies are within range, so is what any group of accounts holds. -/
theorem bounded_funds (h : ∀ denom, l.exactSupply denom ≤ Amount.largest.toNat) :
    l.funds.Bounded := by
  intro denom accounts
  exact Nat.le_trans (l.sum_balance_le_exactSupply denom accounts) (h denom)

/-- Replacing a balance changes what one account holds in one denomination. -/
theorem funds_setBalance (l : Accounts) (account : Address) (coin : Coin) :
    (l.setBalance account coin).funds =
      Function.update l.funds ⟨account, coin.denom⟩ coin.amount := by
  funext h
  simp only [funds, balance, setBalance, Std.ExtTreeMap.getD_insert, Function.update_apply]
  by_cases heq : h = ⟨account, coin.denom⟩
  · simp [heq]
  · have hne : (⟨account, coin.denom⟩ : Holding) ≠ ⟨h.account, h.denom⟩ := fun h' => heq h'.symm
    rw [if_neg heq, if_neg (by simpa using hne)]

/-- What a transfer does. -/
theorem run_transfer_eq (source target : Address) (coin : Coin) (l : Accounts) :
    (transfer source target coin).run.run l =
      match (l.balance source coin.denom).sub? coin.amount with
      | none => (.error (.insufficientFunds source coin.denom (l.balance source coin.denom)
          coin.amount), l)
      | some left =>
        if source = target then (.ok (), l)
        else match (l.balance target coin.denom).add? coin.amount with
          | none => (.error (.overflow target), l)
          | some sum => (.ok (), (l.setBalance source ⟨left, coin.denom⟩).setBalance target
              ⟨sum, coin.denom⟩) := by
  simp only [transfer, ExceptT.run_run_bind, ExceptT.run_run_get]
  cases (l.balance source coin.denom).sub? coin.amount with
  | none => rfl
  | some left =>
    -- A transfer to itself is checked to be covered, and ends there.
    by_cases hsame : source = target
    · simp only [if_pos hsame]
      rfl
    · simp only [if_neg hsame]
      cases (l.balance target coin.denom).add? coin.amount <;> rfl

/-- A move that is covered is made. -/
theorem exists_run_transfer (h : Funds.Moved source target coin l.funds y) :
    ∃ l', (transfer source target coin).run.run l = (.ok (), l') ∧ l'.funds = y := by
  have hcovered : coin.amount ≤ l.balance source coin.denom := h.covered
  obtain ⟨left, hleft⟩ : ∃ left, (l.balance source coin.denom).sub? coin.amount = some left :=
    ⟨_, if_pos hcovered⟩
  simp only [run_transfer_eq, hleft]
  by_cases hne : source = target
  · rw [if_pos hne]
    exact ⟨l, rfl, (h.same hne).symm⟩
  · rw [if_neg hne]
    obtain ⟨left', sum, hleft', hsum, rfl⟩ := h.other hne
    have heq : left = left' := Option.some.inj (hleft.symm.trans hleft')
    have hsum : (l.balance target coin.denom).add? coin.amount = some sum := hsum
    simp only [hsum]
    refine ⟨_, rfl, ?_⟩
    rw [funds_setBalance, funds_setBalance, heq]

/-- A transfer fails and changes nothing, or moves its coin and counts no transaction. -/
theorem run_transfer_cases (source target : Address) (coin : Coin) (l : Accounts) :
    (∃ cause, (transfer source target coin).run.run l = (.error cause, l)) ∨
      ∃ l', (transfer source target coin).run.run l = (.ok (), l') ∧
        Funds.Moved source target coin l.funds l'.funds ∧ l'.sequences = l.sequences := by
  simp only [run_transfer_eq]
  cases hleft : (l.balance source coin.denom).sub? coin.amount with
  | none => exact .inl ⟨_, rfl⟩
  | some left =>
    have hcovered : coin.amount ≤ l.balance source coin.denom := by
      have := Amount.sub?_eq_some_iff.mp hleft
      rw [Amount.le_def]
      omega
    by_cases hne : source = target
    · exact .inr ⟨l, by simp only [if_pos hne], ⟨hcovered, fun _ => rfl, absurd hne⟩, rfl⟩
    · simp only [if_neg hne]
      -- The source has been checked only, so a sum out of range leaves both as they were.
      cases hsum : (l.balance target coin.denom).add? coin.amount with
      | none => exact .inl ⟨_, rfl⟩
      | some sum =>
        refine .inr ⟨_, rfl, ⟨hcovered, fun h => absurd h hne, fun _ => ?_⟩, rfl⟩
        exact ⟨left, sum, hleft, hsum, by rw [funds_setBalance, funds_setBalance]⟩

end Accounts

end LaneAuction
