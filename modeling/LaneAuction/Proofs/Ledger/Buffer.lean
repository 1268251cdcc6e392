import LaneAuction.Proofs.Ledger.Payments

/-!
# What calls leave in the buffer of an overlay

A call on an overlay names at most a payer and a receiver. If it can be paid for, it changes the
entries of the accounts that it names, by exactly its coin, and no other entry; otherwise it fails
and the buffer is what it was, whatever was in it (`Overlay.calls_all_or_nothing`). That holds above
every ledger, also if some of its balances cannot be read: a transfer whose receiver is not read, or
has no room for the coin, gives back what it took from the payer.
-/

namespace LaneAuction

namespace Overlay

/-- A call that may change an overlay. -/
inductive Call where
  | debit (account : Address) (coin : Coin)
  | credit (account : Address) (coin : Coin)
  | transfer (source target : Address) (coin : Coin)

/-- An account holds an amount: its entry in the buffer says so, or it has none and the ledger below
is read and says so. -/
def Holds (o : Overlay) (h : Holding) (amount : Amount) : Prop :=
  o.changes[h]? = some amount ∨
    o.changes[h]? = none ∧ o.base.balance h.account h.denom = .ok amount

/-- What an account holds is known and covers the coin. -/
def CanPay (o : Overlay) (account : Address) (coin : Coin) : Prop :=
  ∃ available, o.Holds ⟨account, coin.denom⟩ available ∧ coin.amount ≤ available

/-- What an account holds is known and stays in range if the coin is added. -/
def HasRoom (o : Overlay) (account : Address) (coin : Coin) : Prop :=
  ∃ current, o.Holds ⟨account, coin.denom⟩ current ∧
    current.toNat + coin.amount.toNat ≤ Amount.largest.toNat

namespace Call

/-- Runs a call. -/
def run : Call → LedgerAction Overlay Unit
  | debit account coin => Overlay.debit account coin
  | credit account coin => Overlay.credit account coin
  | transfer source target coin => Overlay.transfer source target coin

def coin : Call → Coin
  | debit _ coin | credit _ coin | transfer _ _ coin => coin

/-- Who pays the coin. -/
def payer? : Call → Option Address
  | debit account _ => some account
  | credit _ _ => none
  | transfer source _ _ => some source

/-- Who receives the coin. -/
def receiver? : Call → Option Address
  | debit _ _ => none
  | credit account _ => some account
  | transfer _ target _ => some target

/-- A call moves something, unless its coin is empty or it is a transfer to oneself. -/
def Moves (c : Call) : Prop := c.coin.isZero = false ∧ c.payer? ≠ c.receiver?

/-- The holding is one of an account that the call names, in the denomination of the coin. -/
def Names (c : Call) (h : Holding) : Prop :=
  h.denom = c.coin.denom ∧ (c.payer? = some h.account ∨ c.receiver? = some h.account)

/-- By how much a call changes a holding that it names: minus the coin for the payer, plus the coin
for the receiver. -/
def change (c : Call) (h : Holding) : Int :=
  (if c.receiver? = some h.account then (c.coin.amount.toNat : Int) else 0) -
    if c.payer? = some h.account then (c.coin.amount.toNat : Int) else 0

/-- A call can be paid for: the payer covers the coin, and a receiver who is somebody else has room
for it. The empty coin asks for nothing, except in a transfer to oneself. -/
def Payable (c : Call) (o : Overlay) : Prop :=
  c.coin.isZero = false ∨ c.payer? = c.receiver? →
    (∀ account, c.payer? = some account → o.CanPay account c.coin) ∧
    ∀ account, c.receiver? = some account → c.payer? ≠ some account → o.HasRoom account c.coin

/-- What a call leaves that succeeds. -/
structure Changes (c : Call) (o o' : Overlay) : Prop where
  /-- An entry that is changed is one that the call names. -/
  named : ∀ h, o'.changes[h]? ≠ o.changes[h]? → c.Names h
  /-- The entries that it names are what was held before and the change, in exact integers; this is
  neither negative nor too large. -/
  exact : c.Moves → ∀ h, c.Names h → ∃ before after, o.Holds h before ∧
    o'.changes[h]? = some after ∧ (after.toNat : Int) = before.toNat + c.change h ∧
    0 ≤ before.toNat + c.change h ∧ before.toNat + c.change h ≤ Amount.largest.toNat
  /-- An empty coin and a transfer to oneself change nothing. -/
  same : ¬ c.Moves → o' = o
  /-- A transfer to oneself is covered. -/
  covered : ∀ account, c.payer? = some account → c.receiver? = some account →
    o.CanPay account c.coin
  base : o'.base = o.base

/-- A call was made that could be paid for, or was not made and left the overlay alone. -/
def Settled (c : Call) (o : Overlay) : Prop :=
  (∃ o', c.run.run.run o = (.ok (), o') ∧ c.Payable o ∧ c.Changes o o') ∨
    ∃ e, c.run.run.run o = (.error e, o) ∧ ¬ c.Payable o

end Call

/-- The overlay behind some calls, whatever their answers. -/
def after (o : Overlay) (calls : List Call) : Overlay :=
  calls.foldl (fun o c => (c.run.run.run o).2) o

variable {o o' : Overlay} {c : Call} {account source target : Address} {coin : Coin}

/-- An overlay reads what is held: its own entry first, and behind it the ledger below. -/
theorem balance_eq_ok_iff {denom : Denom} {amount : Amount} :
    o.balance account denom = .ok amount ↔ o.Holds ⟨account, denom⟩ amount := by
  rw [balance, Holds]
  cases o.changes[(⟨account, denom⟩ : Holding)]? with
  | none => simp
  | some entry => simp

/-- A payment is covered if the payer's balance is read and what it leaves is an amount. -/
theorem canPay_iff : o.CanPay account coin ↔
    ∃ available left, o.balance account coin.denom = .ok available ∧
      available.sub? coin.amount = some left := by
  simp only [balance_eq_ok_iff]
  constructor
  · rintro ⟨available, hholds, hle⟩
    exact ⟨available, _, hholds, if_pos hle⟩
  · rintro ⟨available, left, hholds, hleft⟩
    have := Amount.sub?_eq_some_iff.mp hleft
    exact ⟨available, hholds, Amount.le_def.mpr (by omega)⟩

/-- A payment that is not covered fails on the payer's balance, or on what it would leave. -/
private theorem cases_of_not_canPay (h : ¬ o.CanPay account coin) :
    (∃ e, o.balance account coin.denom = .error e) ∨
      ∃ available, o.balance account coin.denom = .ok available ∧
        available.sub? coin.amount = none := by
  cases hread : o.balance account coin.denom with
  | error e => exact .inl ⟨e, rfl⟩
  | ok available =>
    refine .inr ⟨available, rfl, ?_⟩
    rw [Option.eq_none_iff_forall_ne_some]
    exact fun left hleft => h (canPay_iff.mpr ⟨available, left, hread, hleft⟩)

/-- A receiver has room if its balance is read and the sum with the coin is an amount. -/
theorem hasRoom_iff : o.HasRoom account coin ↔
    ∃ current sum, o.balance account coin.denom = .ok current ∧
      current.add? coin.amount = some sum := by
  simp only [balance_eq_ok_iff]
  constructor
  · rintro ⟨current, hholds, hle⟩
    obtain ⟨sum, hsum⟩ := Option.ne_none_iff_exists'.mp
      fun hnone => Nat.not_lt.mpr hle (Amount.add?_eq_none_iff.mp hnone)
    exact ⟨current, sum, hholds, hsum⟩
  · rintro ⟨current, sum, hholds, hsum⟩
    have := Amount.add?_eq_some_iff.mp hsum
    exact ⟨current, hholds, this ▸ Nat.le_of_lt_succ sum.toNat_lt⟩

/-- A receiver without room fails on its balance, or on the sum with the coin. -/
private theorem cases_of_not_hasRoom (h : ¬ o.HasRoom account coin) :
    (∃ e, o.balance account coin.denom = .error e) ∨
      ∃ current, o.balance account coin.denom = .ok current ∧
        current.add? coin.amount = none := by
  cases hread : o.balance account coin.denom with
  | error e => exact .inl ⟨e, rfl⟩
  | ok current =>
    refine .inr ⟨current, rfl, ?_⟩
    rw [Option.eq_none_iff_forall_ne_some]
    exact fun sum hsum => h (hasRoom_iff.mpr ⟨current, sum, hread, hsum⟩)

namespace Call

/-! ### One call -/

/-- A debit names the account that pays. -/
private theorem names_debit {h : Holding} :
    (debit account coin).Names h ↔ h = ⟨account, coin.denom⟩ := by
  obtain ⟨account', denom⟩ := h
  simp [Names, payer?, receiver?, Call.coin, and_comm, eq_comm]

/-- A credit names the account that receives. -/
private theorem names_credit {h : Holding} :
    (credit account coin).Names h ↔ h = ⟨account, coin.denom⟩ := by
  obtain ⟨account', denom⟩ := h
  simp [Names, payer?, receiver?, Call.coin, and_comm, eq_comm]

/-- A transfer names both accounts. -/
private theorem names_transfer {h : Holding} : (transfer source target coin).Names h ↔
    h = ⟨source, coin.denom⟩ ∨ h = ⟨target, coin.denom⟩ := by
  obtain ⟨account', denom⟩ := h
  simp [Names, payer?, receiver?, Call.coin, and_or_left, and_comm, eq_comm]

/-- A call that moves nothing leaves all entries. -/
private theorem changes_of_not_moves (hmoves : ¬ c.Moves)
    (hcovered : ∀ account, c.payer? = some account → c.receiver? = some account →
      o.CanPay account c.coin) : c.Changes o o :=
  ⟨fun _ hne => absurd rfl hne, fun h => absurd h hmoves, fun _ => rfl, hcovered, rfl⟩

/-- A call that moves something changes the entries that it names, and no others. -/
private theorem changes_of_moves (hmoves : c.Moves) (hbase : o'.base = o.base)
    (hframe : ∀ h, ¬ c.Names h → o'.changes[h]? = o.changes[h]?)
    (hnamed : ∀ h, c.Names h → ∃ before after, o.Holds h before ∧
      o'.changes[h]? = some after ∧ (after.toNat : Int) = before.toNat + c.change h) :
    c.Changes o o' where
  named h hne := not_not.mp fun hnot => hne (hframe h hnot)
  exact _ h hh := by
    obtain ⟨before, after, hbefore, hafter, heq⟩ := hnamed h hh
    -- What is written is an amount.
    have hle : after.toNat ≤ Amount.largest.toNat := Nat.le_of_lt_succ after.toNat_lt
    exact ⟨before, after, hbefore, hafter, heq, by omega, by omega⟩
  same hnot := absurd hmoves hnot
  covered account hpayer hreceiver := absurd (hpayer.trans hreceiver.symm) hmoves.2
  base := hbase

/-- Nothing is asked for an empty coin, except by a transfer to oneself. -/
private theorem settled_of_isZero (hrun : c.run.run.run o = (.ok (), o)) (hzero : c.coin.isZero)
    (hother : c.payer? ≠ c.receiver?) : c.Settled o := by
  refine .inl ⟨o, hrun, fun hasks => ?_, changes_of_not_moves (fun h => ?_) ?_⟩
  · simp [hzero, hother] at hasks
  · simp [Moves, hzero] at h
  · exact fun _ hpayer hreceiver => absurd (hpayer.trans hreceiver.symm) hother

/-- A debit takes its coin, or fails and leaves the overlay alone. -/
private theorem settled_debit (o : Overlay) (account : Address) (coin : Coin) :
    (debit account coin).Settled o := by
  by_cases hzero : coin.isZero
  · exact settled_of_isZero (by rw [run, run_debit_eq, if_pos hzero]) hzero nofun
  rw [Settled, run, run_debit_eq, if_neg hzero]
  have hasks : coin.isZero = false := by simpa using hzero
  -- A debit writes the entry that it has read; what cannot be read or covered writes nothing.
  by_cases hpay : o.CanPay account coin
  · obtain ⟨available, left, hread, hleft⟩ := canPay_iff.mp hpay
    simp only [hread, hleft]
    have hleft := Amount.sub?_eq_some_iff.mp hleft
    refine .inl ⟨_, rfl, fun _ => ⟨?_, nofun⟩, changes_of_moves ⟨hasks, nofun⟩ rfl ?_ ?_⟩
    · rintro _ ⟨⟩
      exact hpay
    -- Every other entry is as it was.
    · intro h hnot
      rw [getElem?_changes_setBalance, if_neg (hnot ∘ names_debit.mpr)]
    · intro h hnames
      obtain rfl := names_debit.mp hnames
      refine ⟨available, left, balance_eq_ok_iff.mp hread,
        (getElem?_changes_setBalance ..).trans (if_pos rfl), ?_⟩
      simp only [change, payer?, receiver?, Call.coin, reduceCtorEq, if_false, if_true]
      omega
  · have hnot : ¬ (debit account coin).Payable o := fun h => hpay ((h (.inl hasks)).1 account rfl)
    obtain ⟨e, hread⟩ | ⟨available, hread, hleft⟩ := cases_of_not_canPay hpay
    · simp only [hread]
      exact .inr ⟨_, rfl, hnot⟩
    · simp only [hread, hleft]
      exact .inr ⟨_, rfl, hnot⟩

/-- A credit adds its coin, or fails and leaves the overlay alone. -/
private theorem settled_credit (o : Overlay) (account : Address) (coin : Coin) :
    (credit account coin).Settled o := by
  by_cases hzero : coin.isZero
  · exact settled_of_isZero (by rw [run, run_credit_eq, if_pos hzero]) hzero nofun
  rw [Settled, run, run_credit_eq, if_neg hzero]
  have hasks : coin.isZero = false := by simpa using hzero
  -- A credit is the debit's mirror: it writes an entry where the sum is in range.
  by_cases hroom : o.HasRoom account coin
  · obtain ⟨current, sum, hread, hsum⟩ := hasRoom_iff.mp hroom
    simp only [hread, hsum]
    have hsum := Amount.add?_eq_some_iff.mp hsum
    refine .inl ⟨_, rfl, fun _ => ⟨nofun, ?_⟩, changes_of_moves ⟨hasks, nofun⟩ rfl ?_ ?_⟩
    · rintro _ ⟨⟩ -
      exact hroom
    · intro h hnot
      rw [getElem?_changes_setBalance, if_neg (hnot ∘ names_credit.mpr)]
    · intro h hnames
      obtain rfl := names_credit.mp hnames
      refine ⟨current, sum, balance_eq_ok_iff.mp hread,
        (getElem?_changes_setBalance ..).trans (if_pos rfl), ?_⟩
      simp only [change, payer?, receiver?, Call.coin, reduceCtorEq, if_false, if_true]
      omega
  · have hnot : ¬ (credit account coin).Payable o :=
      fun h => hroom ((h (.inl hasks)).2 account rfl nofun)
    -- Without room, the entry cannot be read or the sum is out of range.
    obtain ⟨e, hread⟩ | ⟨current, hread, hsum⟩ := cases_of_not_hasRoom hroom
    · simp only [hread]
      exact .inr ⟨_, rfl, hnot⟩
    · simp only [hread, hsum]
      exact .inr ⟨_, rfl, hnot⟩

/-- A transfer to oneself is covered, and does nothing. -/
private theorem settled_transfer_self (o : Overlay) (account : Address) (coin : Coin) :
    (transfer account account coin).Settled o := by
  rw [Settled, run, run_transfer_self]
  by_cases hpay : o.CanPay account coin
  · obtain ⟨available, left, hread, hleft⟩ := canPay_iff.mp hpay
    simp only [hread, hleft]
    refine .inl ⟨_, rfl, fun _ => ⟨?_, ?_⟩, changes_of_not_moves (fun h => h.2 rfl) ?_⟩
    · rintro _ ⟨⟩
      exact hpay
    · exact fun _ hreceiver hne => absurd hreceiver hne
    · rintro _ ⟨⟩ -
      exact hpay
  · have hnot : ¬ (transfer account account coin).Payable o :=
      fun h => hpay ((h (.inr rfl)).1 account rfl)
    obtain ⟨e, hread⟩ | ⟨available, hread, hleft⟩ := cases_of_not_canPay hpay
    · simp only [hread]
      exact .inr ⟨_, rfl, hnot⟩
    · simp only [hread, hleft]
      exact .inr ⟨_, rfl, hnot⟩

/-- A transfer to somebody else writes the entry of the payer, then that of the receiver. -/
private theorem changes_transfer {available left current sum : Amount} (hne : target ≠ source)
    (hasks : coin.isZero = false)
    (hpayer : o.balance source coin.denom = .ok available)
    (hleft : available.sub? coin.amount = some left)
    (hreceiver : o.balance target coin.denom = .ok current)
    (hsum : current.add? coin.amount = some sum) :
    (transfer source target coin).Changes o
      ((o.setBalance source ⟨left, coin.denom⟩).setBalance target ⟨sum, coin.denom⟩) := by
  have hother : (transfer source target coin).payer? ≠ (transfer source target coin).receiver? :=
    fun h => hne (Option.some.inj h).symm
  have hleft := Amount.sub?_eq_some_iff.mp hleft
  have hsum := Amount.add?_eq_some_iff.mp hsum
  refine changes_of_moves ⟨hasks, hother⟩ rfl ?_ ?_
  -- The two entries are distinct, so each is read as it was before and written once.
  · intro h hnot
    obtain ⟨hsource, htarget⟩ := not_or.mp (hnot ∘ names_transfer.mpr)
    rw [getElem?_changes_setBalance, if_neg htarget, getElem?_changes_setBalance, if_neg hsource]
  · intro h hnames
    simp only [getElem?_changes_setBalance]
    obtain rfl | rfl := names_transfer.mp hnames
    -- The payer has the amount less, the receiver has it more.
    · refine ⟨available, left, balance_eq_ok_iff.mp hpayer, by simp [hne.symm], ?_⟩
      simp only [change, payer?, receiver?, Call.coin, Option.some.injEq, hne, if_false, if_true]
      omega
    · refine ⟨current, sum, balance_eq_ok_iff.mp hreceiver, by simp, ?_⟩
      simp only [change, payer?, receiver?, Call.coin, Option.some.injEq, hne.symm, if_false,
        if_true]
      omega

/-- A transfer that fails on the receiver takes nothing from the payer either. -/
private theorem settled_transfer_of_ne (o : Overlay) (hne : target ≠ source) (coin : Coin) :
    (transfer source target coin).Settled o := by
  have hother : (transfer source target coin).payer? ≠ (transfer source target coin).receiver? :=
    fun h => hne (Option.some.inj h).symm
  by_cases hzero : coin.isZero
  · exact settled_of_isZero (by rw [run, run_transfer_of_ne hne, if_pos hzero]) hzero hother
  rw [Settled, run, run_transfer_of_ne hne, if_neg hzero]
  have hasks : coin.isZero = false := by simpa using hzero
  have hnot : ¬ (o.CanPay source coin ∧ o.HasRoom target coin) →
      ¬ (transfer source target coin).Payable o := fun hnot h =>
    hnot ⟨(h (.inl hasks)).1 source rfl, (h (.inl hasks)).2 target rfl hother⟩
  -- The payer is looked at first.
  by_cases hpay : o.CanPay source coin
  case neg =>
    have hnot := hnot fun h => hpay h.1
    obtain ⟨e, hread⟩ | ⟨available, hread, hleft⟩ := cases_of_not_canPay hpay
    · simp only [hread]
      exact .inr ⟨_, rfl, hnot⟩
    · simp only [hread, hleft]
      exact .inr ⟨_, rfl, hnot⟩
  obtain ⟨available, left, hread, hleft⟩ := canPay_iff.mp hpay
  by_cases hroom : o.HasRoom target coin
  case neg =>
    -- The payer's entry was written already, and is given back.
    have hnot := hnot fun h => hroom h.2
    obtain ⟨e, hread'⟩ | ⟨current, hread', hsum⟩ := cases_of_not_hasRoom hroom
    · simp only [hread, hleft, hread']
      exact .inr ⟨_, rfl, hnot⟩
    · simp only [hread, hleft, hread', hsum]
      exact .inr ⟨_, rfl, hnot⟩
  obtain ⟨current, sum, hread', hsum⟩ := hasRoom_iff.mp hroom
  simp only [hread, hleft, hread', hsum]
  refine .inl ⟨_, rfl, fun _ => ⟨?_, ?_⟩, changes_transfer hne hasks hread hleft hread' hsum⟩
  · rintro _ ⟨⟩
    exact hpay
  · rintro _ ⟨⟩ -
    exact hroom

/-- Every call is made if it can be paid for, and else leaves the overlay alone. -/
theorem settled (c : Call) (o : Overlay) : c.Settled o := by
  cases c with
  | debit account coin => exact settled_debit o account coin
  | credit account coin => exact settled_credit o account coin
  | transfer source target coin =>
    by_cases hself : target = source
    · subst hself
      exact settled_transfer_self o target coin
    · exact settled_transfer_of_ne o hself coin

/-- No call changes the ledger below. -/
theorem base_run (c : Call) (o : Overlay) : (c.run.run.run o).2.base = o.base := by
  obtain ⟨o', hrun, -, hchanges⟩ | ⟨e, hrun, -⟩ := c.settled o
  · rw [hrun]
    exact hchanges.base
  · rw [hrun]

end Call

/-- No calls change the ledger below. -/
theorem base_after (o : Overlay) (calls : List Call) : (o.after calls).base = o.base := by
  induction calls generalizing o with
  | nil => rfl
  | cons c calls ih => exact (ih _).trans (c.base_run o)

/-- Behind any calls on an overlay of any ledger, the next call succeeds if and only if it can be
paid for. If it fails, the overlay is exactly what it was. If it succeeds, it has changed the
entries that it names by exactly its coin, within the range of amounts, and no others; it has
changed none if its coin is empty or it is a transfer to oneself, which then was covered. -/
theorem calls_all_or_nothing (base : LedgerView) (calls : List Call) (c : Call) :
    let o := (ofView base).after calls
    o.base = base ∧
    ((c.run.run.run o).1 = .ok () ↔ c.Payable o) ∧
    (∀ e o', c.run.run.run o = (.error e, o') → o' = o) ∧
    ∀ o', c.run.run.run o = (.ok (), o') → c.Changes o o' := by
  intro o
  refine ⟨base_after _ calls, ?_⟩
  obtain ⟨o', hrun, hpayable, hchanges⟩ | ⟨e, hrun, hnot⟩ := c.settled o
  · rw [hrun]
    refine ⟨iff_of_true rfl hpayable, nofun, ?_⟩
    rintro _ ⟨⟩
    exact hchanges
  · rw [hrun]
    refine ⟨iff_of_false nofun hnot, ?_, nofun⟩
    rintro _ _ ⟨⟩
    rfl

end Overlay

end LaneAuction
