import LaneAuction.Proofs.Except
import LaneAuction.Proofs.Pool.Claims

/-!
# The arena and its invariant

Every change of the arena is one of two: a transaction is put in, or a pending one is taken out
(`put`, `forget`). `Arena.Filed` says that the claims and the keys are what the records make of
them and that no pending bundle holds a pending transaction, unless it is that of the bid itself;
both changes keep it, and putting back what was taken out restores the very arena.

That no bid is part of its own bundle is left open here, because nothing checks it.
-/

namespace LaneAuction

namespace PendingTx

/-- The key of a transaction's bid, if it is one. -/
def key? (r : PendingTx) : Option BidKey := r.bid.map PendingBid.key

/-- Without a bid there is no bundle. -/
theorem bundle_of_bid_eq_none {r : PendingTx} (h : r.bid = none) : r.bundle = [] := by
  simp [bundle, h]

end PendingTx

namespace Arena

variable {a : Arena} {r s : PendingTx} {hash : Hash}

/-- A hash is pending if something is stored under it. -/
theorem isPending_iff : a.isPending hash ↔ ∃ r, a.get? hash = some r := by
  rw [isPending, Std.ExtTreeMap.contains_eq_isSome_getElem?, get?, Option.isSome_iff_exists]

/-- A hash is not pending if nothing is stored under it. -/
theorem isPending_eq_false_iff : a.isPending hash = false ↔ a.get? hash = none := by
  rw [isPending, Std.ExtTreeMap.contains_eq_isSome_getElem?, get?, Option.isSome_eq_false_iff,
    Option.isNone_iff_eq_none]

/-- The arena with one more transaction, whatever was there before. -/
def put (a : Arena) (r : PendingTx) : Arena where
  records := a.records.insert r.hash r
  claims := r.bundle.foldl (claim r.hash) a.claims
  bids :=
    match r.key? with
    | some key => a.bids.insert key r.hash
    | none => a.bids
  next := max a.next (r.arrival + 1)

/-- What is asked of a transaction: neither it nor anything of its bundle is pending, and no pending
bundle holds it. -/
structure Admits (a : Arena) (r : PendingTx) : Prop where
  notPending : a.isPending r.hash = false
  notClaimed : a.isClaimed r.hash = false
  bundle : ∀ hash ∈ r.bundle, a.isPending hash = false

/-- Storing a transaction changes what is under its hash. -/
theorem get?_put : (a.put r).get? hash = if r.hash = hash then some r else a.get? hash := by
  simp [get?, put, Std.ExtTreeMap.getElem?_insert]

/-- Forgetting a transaction changes what is under its hash. -/
theorem get?_forget : (a.forget r).get? hash = if r.hash = hash then none else a.get? hash := by
  unfold forget
  split <;> simp [get?, Std.ExtTreeMap.getElem?_erase]

/-- Behind storing one, a pending transaction is that one or was pending before. -/
theorem get?_put_eq_some_iff :
    (a.put r).get? hash = some s ↔
      hash = r.hash ∧ s = r ∨ hash ≠ r.hash ∧ a.get? hash = some s := by
  rw [get?_put]
  by_cases h : r.hash = hash
  · subst h
    simp [eq_comm]
  · simp [h, Ne.symm h]

/-- Behind forgetting one, a pending transaction is another one. -/
private theorem get?_forget_eq_some_iff :
    (a.forget r).get? hash = some s ↔ hash ≠ r.hash ∧ a.get? hash = some s := by
  rw [get?_forget]
  by_cases h : r.hash = hash
  · simp [h]
  · simp [h, Ne.symm h]

/-- Forgetting a bid releases its bundle. -/
private theorem claims_forget : (a.forget r).claims = r.bundle.foldl (release r.hash) a.claims := by
  unfold forget PendingTx.bundle
  split <;> simp_all

/-- Storing a bid puts its hash under its key. -/
private theorem getElem?_bids_put {key : BidKey} :
    (a.put r).bids[key]? = if r.key? = some key then some r.hash else a.bids[key]? := by
  unfold put
  cases hkey : r.key? <;> simp [Std.ExtTreeMap.getElem?_insert]

/-- Forgetting a bid frees its key, if the key leads to it. -/
private theorem getElem?_bids_forget {key : BidKey} :
    (a.forget r).bids[key]? =
      if r.key? = some key ∧ a.bids[key]? = some r.hash then none else a.bids[key]? := by
  unfold forget PendingTx.key?
  cases hbid : r.bid with
  | none => simp
  | some bid =>
    by_cases hkey : bid.key = key
    · subst hkey
      by_cases hown : a.bids[bid.key]? = some r.hash <;> simp [hown]
    · by_cases hown : a.bids[bid.key]? = some r.hash <;>
        simp [hown, hkey, Std.ExtTreeMap.getElem?_erase]

@[simp] theorem next_forget : (a.forget r).next = a.next := by
  unfold forget
  split <;> rfl

/-- A transaction is added if it is admitted, and then it is put in. -/
theorem add_eq_ok_iff {a' : Arena} :
    a.add r = .ok a' ↔ a.Admits r ∧ a' = { a.put r with next := a.next } := by
  -- The three checks in their order; the last one looks for what it names.
  have hadmits : a.Admits r ↔
      ¬ a.isPending r.hash ∧ ¬ a.isClaimed r.hash ∧ r.bundle.find? a.isPending = none := by
    rw [List.find?_eq_none]
    constructor
    · intro h
      exact ⟨by simp [h.notPending], by simp [h.notClaimed], fun hash hmem => by
        simp [h.bundle hash hmem]⟩
    · intro h
      obtain ⟨hpending, hclaimed, hbundle⟩ := h
      exact ⟨by simpa using hpending, by simpa using hclaimed, fun hash hmem => by
        simpa using hbundle hash hmem⟩
  simp only [hadmits, add, Except.check_eq_ok_iff, and_assoc]
  -- What is left is the last check and the three maps, which only a bid changes.
  refine and_congr_right fun _ => and_congr_right fun _ => ?_
  -- A transaction without a bid bundles nothing, and enters no key.
  cases hbid : r.bid with
  | none => simp [put, PendingTx.key?, PendingTx.bundle, hbid, eq_comm]
  | some bid =>
    cases hfind : bid.bundle.find? a.isPending with
    | some hash => simp [PendingTx.bundle, hbid, hfind]
    | none => simp [put, PendingTx.key?, PendingTx.bundle, hbid, hfind, eq_comm]

/-- A new transaction is admitted or not, and takes the next number. -/
theorem insert_eq_ok_iff {a' : Arena} :
    a.insert r = .ok a' ↔ a.Admits r ∧ a' = a.put { r with arrival := a.next } := by
  have hadmits : a.Admits { r with arrival := a.next } ↔ a.Admits r :=
    ⟨fun h => ⟨h.notPending, h.notClaimed, h.bundle⟩,
      fun h => ⟨h.notPending, h.notClaimed, h.bundle⟩⟩
  simp only [insert, Except.bind_eq_ok_iff, add_eq_ok_iff, hadmits, Except.pure_eq_ok,
    Except.ok.injEq]
  constructor
  · intro h
    obtain ⟨_, ⟨h, rfl⟩, rfl⟩ := h
    exact ⟨h, by simp [put]⟩
  · intro h
    obtain ⟨h, rfl⟩ := h
    exact ⟨_, ⟨h, rfl⟩, by simp [put]⟩

/-! ### The invariant -/

/-- The arena keeps what its records say: each is filed under its hash, a bid belongs to the
auction, the claims and the keys are those of the pending bids, what is pending is part of no bundle
but its own, and arrivals are numbered below `next` without repetition. -/
structure Filed (a : Arena) : Prop where
  hash_eq : ∀ {hash r}, a.get? hash = some r → r.hash = hash
  lane_eq : ∀ {hash r}, a.get? hash = some r → r.bid.isSome → r.lane = .auction
  tight : Tight a.claims
  mem_holders_iff : ∀ {hash bid},
    bid ∈ holders a.claims hash ↔ ∃ r, a.get? bid = some r ∧ hash ∈ r.bundle
  own : ∀ {hash bid r s}, a.get? bid = some r → a.get? hash = some s → hash ∈ r.bundle →
    hash = bid
  bids_iff : ∀ {key hash},
    a.bids[key]? = some hash ↔ ∃ r, a.get? hash = some r ∧ r.key? = some key
  arrival_lt : ∀ {hash r}, a.get? hash = some r → r.arrival < a.next
  arrival_inj : ∀ {hash hash' r r'}, a.get? hash = some r → a.get? hash' = some r' →
    r.arrival = r'.arrival → hash = hash'

/-- Nothing is pending, claimed or under a key. -/
theorem filed_empty : empty.Filed where
  hash_eq h := by simp [get?, empty] at h
  lane_eq h := by simp [get?, empty] at h
  tight := fun _ _ h => by simp [empty] at h
  mem_holders_iff := by simp [holders, get?, empty]
  own h := by simp [get?, empty] at h
  bids_iff := by simp [get?, empty]
  arrival_lt h := by simp [get?, empty] at h
  arrival_inj h := by simp [get?, empty] at h

namespace Filed

/-- A hash is claimed if some pending bundle holds it. -/
theorem isClaimed_iff (ha : a.Filed) :
    a.isClaimed hash ↔ ∃ bid r, a.get? bid = some r ∧ hash ∈ r.bundle := by
  simp only [isClaimed, ha.tight.contains_iff, ha.mem_holders_iff]

/-- Without a transaction, the claims are those of the bids that are left. -/
private theorem mem_holders_forget_iff (ha : a.Filed) {bid : Hash} (hr : a.get? r.hash = some r) :
    bid ∈ holders (a.forget r).claims hash ↔
      ∃ s, (a.forget r).get? bid = some s ∧ hash ∈ s.bundle := by
  rw [claims_forget, mem_holders_foldl_release, ha.mem_holders_iff]
  simp only [get?_forget_eq_some_iff]
  by_cases hbid : bid = r.hash
  · subst hbid
    simp [hr]
  · simp [hbid]

/-- Without a transaction, the keys are those of the bids that are left. -/
private theorem bids_forget_iff (ha : a.Filed) {key : BidKey} (hr : a.get? r.hash = some r) :
    (a.forget r).bids[key]? = some hash ↔
      ∃ s, (a.forget r).get? hash = some s ∧ s.key? = some key := by
  rw [getElem?_bids_forget]
  simp only [get?_forget_eq_some_iff]
  by_cases hkey : r.key? = some key
  · -- The entry of the key is the transaction's own, and no other bid has the key.
    have hown : a.bids[key]? = some r.hash := ha.bids_iff.mpr ⟨r, hr, hkey⟩
    simp only [hkey, hown, and_self, if_true, reduceCtorEq, false_iff]
    intro h
    obtain ⟨s, ⟨hne, hs⟩, hskey⟩ := h
    rw [ha.bids_iff.mpr ⟨s, hs, hskey⟩] at hown
    exact hne (Option.some.inj hown)
  · -- The entry belongs to another transaction, and that one stays.
    rw [if_neg (fun h => hkey h.1), ha.bids_iff]
    constructor
    · intro h
      obtain ⟨s, hs, hskey⟩ := h
      refine ⟨s, ⟨?_, hs⟩, hskey⟩
      intro heq
      rw [heq, hr] at hs
      exact hkey (Option.some.inj hs ▸ hskey)
    · intro h
      obtain ⟨s, ⟨-, hs⟩, hskey⟩ := h
      exact ⟨s, hs, hskey⟩

/-- Taking a pending transaction out keeps the arena filed. -/
theorem forget (ha : a.Filed) (hr : a.get? r.hash = some r) : (a.forget r).Filed := by
  have htight : Tight (a.forget r).claims := by
    rw [claims_forget]
    exact ha.tight.foldl_release _ _
  constructor
  case tight => exact htight
  case mem_holders_iff => exact ha.mem_holders_forget_iff hr
  case bids_iff => exact ha.bids_forget_iff hr
  -- What is left was there before, so the rest of the invariant is inherited.
  case hash_eq =>
    intro hash s h
    exact ha.hash_eq (get?_forget_eq_some_iff.mp h).2
  case lane_eq =>
    intro hash s h
    exact ha.lane_eq (get?_forget_eq_some_iff.mp h).2
  case own =>
    intro hash bid s s' h h'
    exact ha.own (get?_forget_eq_some_iff.mp h).2 (get?_forget_eq_some_iff.mp h').2
  case arrival_lt =>
    intro hash s h
    rw [next_forget]
    exact ha.arrival_lt (get?_forget_eq_some_iff.mp h).2
  case arrival_inj =>
    intro hash hash' s s' h h'
    exact ha.arrival_inj (get?_forget_eq_some_iff.mp h).2 (get?_forget_eq_some_iff.mp h').2

/-- With a new transaction, the claims are those of the bids, the new one among them. -/
private theorem mem_holders_put_iff (ha : a.Filed) {bid : Hash} (hnew : a.get? r.hash = none) :
    bid ∈ holders (a.put r).claims hash ↔
      ∃ s, (a.put r).get? bid = some s ∧ hash ∈ s.bundle := by
  have hclaims : (a.put r).claims = r.bundle.foldl (claim r.hash) a.claims := rfl
  rw [hclaims, mem_holders_foldl_claim, ha.mem_holders_iff]
  simp only [get?_put_eq_some_iff]
  by_cases hbid : bid = r.hash
  · subst hbid
    simp [hnew]
  · simp [hbid]

/-- With a new transaction under a new key, the keys are those of the bids, the new one among
them. -/
private theorem bids_put_iff (ha : a.Filed) {key : BidKey} (hnew : a.get? r.hash = none)
    (hkey : ∀ key, r.key? = some key → a.bids[key]? = none) :
    (a.put r).bids[key]? = some hash ↔
      ∃ s, (a.put r).get? hash = some s ∧ s.key? = some key := by
  rw [getElem?_bids_put]
  simp only [get?_put_eq_some_iff]
  by_cases hr : r.key? = some key
  · -- No pending bid has the key, so that the new entry hides none.
    have hfree : ∀ hash s, a.get? hash = some s → s.key? ≠ some key := by
      intro hash s hs hskey
      have hfiled := ha.bids_iff.mpr ⟨s, hs, hskey⟩
      rw [hkey key hr] at hfiled
      exact nomatch hfiled
    simp only [hr, if_true, Option.some.injEq]
    constructor
    · intro h
      exact ⟨r, .inl ⟨h.symm, rfl⟩, hr⟩
    · intro h
      -- Who is under the key now is the new transaction, as no other has it.
      obtain ⟨s, ⟨rfl, -⟩ | ⟨-, hs⟩, hskey⟩ := h
      · rfl
      · exact absurd hskey (hfree hash s hs)
  · -- The entry is as it was, and the new transaction is not under the key.
    rw [if_neg hr, ha.bids_iff]
    constructor
    · intro h
      obtain ⟨s, hs, hskey⟩ := h
      refine ⟨s, .inr ⟨?_, hs⟩, hskey⟩
      intro heq
      rw [heq, hnew] at hs
      exact nomatch hs
    · intro h
      obtain ⟨s, ⟨-, rfl⟩ | ⟨-, hs⟩, hskey⟩ := h
      · exact absurd hskey hr
      · exact ⟨s, hs, hskey⟩

/-- Putting an admitted transaction in keeps the arena filed, if no pending bid has its key and no
arrival has its number. -/
theorem put (ha : a.Filed) (hadmits : a.Admits r) (hlane : r.bid.isSome → r.lane = .auction)
    (hkey : ∀ key, r.key? = some key → a.bids[key]? = none)
    (harrival : ∀ hash s, a.get? hash = some s → s.arrival ≠ r.arrival) : (a.put r).Filed := by
  have hnew : a.get? r.hash = none := isPending_eq_false_iff.mp hadmits.notPending
  have htight : Tight (a.put r).claims := ha.tight.foldl_claim _ _
  constructor
  case tight => exact htight
  case mem_holders_iff => exact ha.mem_holders_put_iff hnew
  case bids_iff => exact ha.bids_put_iff hnew hkey
  -- What is pending now is the new transaction or was pending before.
  case hash_eq =>
    intro hash s h
    obtain ⟨rfl, rfl⟩ | ⟨-, h⟩ := get?_put_eq_some_iff.mp h
    · rfl
    · exact ha.hash_eq h
  case lane_eq =>
    intro hash s h
    obtain ⟨-, rfl⟩ | ⟨-, h⟩ := get?_put_eq_some_iff.mp h
    · exact hlane
    · exact ha.lane_eq h
  case own =>
    intro hash bid s s' h h' hin
    -- The new transaction may be the one that bundles, the one that is bundled, neither or both.
    obtain ⟨rfl, rfl⟩ | ⟨-, h⟩ := get?_put_eq_some_iff.mp h
    · obtain ⟨rfl, -⟩ | ⟨-, h'⟩ := get?_put_eq_some_iff.mp h'
      · rfl
      · rw [isPending_eq_false_iff.mp (hadmits.bundle hash hin)] at h'
        exact nomatch h'
    · obtain ⟨rfl, -⟩ | ⟨-, h'⟩ := get?_put_eq_some_iff.mp h'
      · have hclaimed := ha.isClaimed_iff.mpr ⟨bid, s, h, hin⟩
        rw [hadmits.notClaimed] at hclaimed
        exact nomatch hclaimed
      · exact ha.own h h' hin
  case arrival_lt =>
    intro hash s h
    obtain ⟨-, rfl⟩ | ⟨-, h⟩ := get?_put_eq_some_iff.mp h
    · simp only [Arena.put]
      omega
    · have := ha.arrival_lt h
      simp only [Arena.put]
      omega
  -- No pending transaction has the number of the new one.
  case arrival_inj =>
    intro hash hash' s s' h h' heq
    obtain ⟨hnew, rfl⟩ | ⟨-, hold⟩ := get?_put_eq_some_iff.mp h
    · obtain ⟨hnew', -⟩ | ⟨-, hold'⟩ := get?_put_eq_some_iff.mp h'
      · rw [hnew, hnew']
      · exact absurd heq.symm (harrival _ _ hold')
    · obtain ⟨-, rfl⟩ | ⟨-, hold'⟩ := get?_put_eq_some_iff.mp h'
      · exact absurd heq (harrival _ _ hold)
      · exact ha.arrival_inj hold hold' heq

/-- A transaction that was taken out is admitted again. -/
theorem admits_forget (ha : a.Filed) (hr : a.get? r.hash = some r) : (a.forget r).Admits r where
  notPending := by
    rw [isPending_eq_false_iff, get?_forget, if_pos rfl]
  notClaimed := by
    -- Only its own bundle could hold it, and that was taken out with it.
    rw [Bool.eq_false_iff, ne_eq, (ha.forget hr).isClaimed_iff]
    intro h
    obtain ⟨bid, s, hs, hmem⟩ := h
    obtain ⟨hne, hs⟩ := get?_forget_eq_some_iff.mp hs
    exact hne (ha.own hs hr hmem).symm
  bundle := by
    intro hash hmem
    rw [isPending_eq_false_iff, Option.eq_none_iff_forall_ne_some]
    intro s hs
    obtain ⟨hne, hs⟩ := get?_forget_eq_some_iff.mp hs
    exact hne (ha.own hr hs hmem)

/-- Putting back what was taken out gives the arena as it was. -/
theorem put_forget (ha : a.Filed) (hr : a.get? r.hash = some r) :
    { (a.forget r).put r with next := a.next } = a := by
  have hrecords : ((a.forget r).put r).records = a.records := by
    apply Std.ExtTreeMap.ext_getElem?
    intro hash
    show ((a.forget r).put r).get? hash = a.get? hash
    rw [get?_put, get?_forget]
    by_cases h : r.hash = hash
    · rw [if_pos h, ← h, hr]
    · rw [if_neg h, if_neg h]
  have hclaims : ((a.forget r).put r).claims = a.claims := by
    apply Tight.ext ((ha.forget hr).tight.foldl_claim _ _) ha.tight
    intro hash bid
    rw [mem_holders_foldl_claim, claims_forget, mem_holders_foldl_release]
    -- What is claimed again was held by the transaction before.
    have hheld : hash ∈ r.bundle ∧ bid = r.hash → bid ∈ holders a.claims hash := by
      intro h
      exact ha.mem_holders_iff.mpr ⟨r, h.2 ▸ hr, h.1⟩
    tauto
  -- Its key was freed, and is taken by the same hash.
  have hbids : ((a.forget r).put r).bids = a.bids := by
    apply Std.ExtTreeMap.ext_getElem?
    intro key
    rw [getElem?_bids_put, getElem?_bids_forget]
    by_cases h : r.key? = some key
    · rw [if_pos h, ha.bids_iff.mpr ⟨r, hr, h⟩]
    · rw [if_neg h, if_neg (fun hand => h hand.1)]
  simp only [hrecords, hclaims, hbids]

end Filed

end Arena

end LaneAuction
