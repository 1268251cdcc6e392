import LaneAuction.Auction.ClearedBids
import LaneAuction.Proofs.Except
import Mathlib.Data.List.Nodup

/-!
# The history of cleared bids by key

What recording a bid and pruning do to the entry of one key, and what a bid must offer that the
history lets pass. A history is rebuilt from its own list of entries (`ofList_toList`).
-/

namespace LaneAuction

/-- A price raises another by an increment: it is in the same denomination and at least the sum, as
far as there is an amount that large. -/
def Coin.Raises (price held increment : Coin) : Prop :=
  price.denom = held.denom ∧
    Nat.min (held.amount.toNat + increment.amount.toNat) Amount.largest.toNat ≤ price.amount.toNat

/-- A price passes the increment check if and only if it raises the price that is held. -/
theorem checkIncrement_eq_ok_iff {price held increment : Coin} :
    checkIncrement price held increment = .ok () ↔ price.Raises held increment := by
  rw [checkIncrement, Coin.Raises, ← Amount.toNat_addSat]
  by_cases hdenom : price.denom = held.denom
  · by_cases hamount : price.amount < held.amount.addSat increment.amount
    · have hnot := Nat.not_le.mpr (Amount.lt_def.mp hamount)
      simp [hdenom, hamount, hnot]
    · have hle := Nat.not_lt.mp fun h => hamount (Amount.lt_def.mpr h)
      simp [hdenom, hamount, hle]
  · simp [hdenom]

namespace Clearing

/-- A new price that raises the old one in its denomination takes its place. -/
theorem price_join_cases (old new : Clearing) :
    (old.price.denom = new.price.denom ∧ old.price.amount < new.price.amount) ∧
        (old.join new).price = new.price ∨
      ¬ (old.price.denom = new.price.denom ∧ old.price.amount < new.price.amount) ∧
        (old.join new).price = old.price := by
  rw [join]
  dsimp only
  split
  · next hraise => exact .inl ⟨hraise, rfl⟩
  · next hkeep => exact .inr ⟨hkeep, rfl⟩

/-- A later height takes the place of the old one. -/
theorem height_join_cases (old new : Clearing) :
    old.height < new.height ∧ (old.join new).height = new.height ∨
      new.height ≤ old.height ∧ (old.join new).height = old.height := by
  rw [join]
  dsimp only
  split
  · next hlt => exact .inl ⟨hlt, rfl⟩
  · next hnot => exact .inr ⟨UInt64.not_lt.mp hnot, rfl⟩

end Clearing

namespace ClearedBids

variable {h : ClearedBids} {key key' : BidKey} {clearing : Clearing} {bids : List ClearedBid}

/-- The entry of a key. -/
def get? (h : ClearedBids) (key : BidKey) : Option Clearing := h.entries[key]?

/-- The price that is remembered for a key is that of its entry. -/
theorem price?_eq : h.price? key = (h.get? key).map Clearing.price := rfl

/-- A bid that the history lets pass raises the price that its key was cleared at. -/
theorem check_eq_ok_iff {offer : BundleBid} {increment : Coin} :
    h.check offer increment = .ok () ↔
      ∀ held, h.price? offer.key = some held → offer.price.Raises held increment := by
  rw [check]
  cases h.price? offer.key with
  | none => simp
  | some held => simp [checkIncrement_eq_ok_iff]

/-- Histories with the same entries are equal. -/
@[ext] theorem ext {h h' : ClearedBids} (heq : ∀ key, h.get? key = h'.get? key) : h = h' := by
  cases h
  cases h'
  exact congrArg mk (Std.ExtTreeMap.ext_getElem? fun key => heq key)

@[simp] theorem get?_empty : empty.get? key = none := by
  simp [get?, empty]

/-- The entry of a key after another clearing of it, or none. -/
def joined (entry new : Option Clearing) : Option Clearing :=
  match new with
  | some clearing => some ((entry.map (·.join clearing)).getD clearing)
  | none => entry

@[simp] theorem joined_none (entry : Option Clearing) : joined entry none = entry := rfl

@[simp] theorem joined_none_some (clearing : Clearing) :
    joined none (some clearing) = some clearing := rfl

@[simp] theorem joined_some_some (old clearing : Clearing) :
    joined (some old) (some clearing) = some (old.join clearing) := rfl

/-- Recording changes the entry of its key, to the join with what was there. -/
theorem get?_record : (h.record key clearing).get? key' =
    if key = key' then joined (h.get? key) (some clearing)
    else h.get? key' := by
  rw [get?, record, Std.ExtTreeMap.getElem?_alter]
  simp only [Std.compare_eq_iff_eq, get?]
  split
  · cases h.entries[key]? <;> rfl
  · rfl

/-- Pruning keeps the entries that are young enough, as they are. -/
theorem get?_prune {height retention : UInt64} : (h.prune height retention).get? key =
    (h.get? key).filter fun clearing => height < clearing.height.addSat retention := by
  simp [get?, prune, Std.ExtTreeMap.getElem?_filter]

/-! ### Prices -/

/-- Every price in the history is of a well-formed denomination. -/
def PricesValid (h : ClearedBids) : Prop :=
  ∀ key clearing, h.get? key = some clearing → clearing.price.isValid

/-- Recording a clearing with a valid price keeps all prices valid. -/
theorem PricesValid.record (hh : h.PricesValid) (hprice : clearing.price.isValid) :
    (h.record key clearing).PricesValid := by
  intro key' clearing' hget
  rw [get?_record] at hget
  split at hget
  · cases hold : h.get? key with
    | none =>
      rw [hold] at hget
      exact Option.some.inj hget ▸ hprice
    | some old =>
      rw [hold] at hget
      obtain rfl := Option.some.inj hget
      show (old.join clearing).price.isValid
      -- A merged entry has one of the two prices.
      obtain ⟨-, heq⟩ | ⟨-, heq⟩ := old.price_join_cases clearing <;> rw [heq]
      · exact hprice
      · exact hh key old hold
  · exact hh key' clearing' hget

/-- Pruning keeps all prices valid. -/
theorem PricesValid.prune {height retention : UInt64} (hh : h.PricesValid) :
    (h.prune height retention).PricesValid := by
  intro key clearing hget
  rw [get?_prune, Option.filter_eq_some_iff] at hget
  exact hh key clearing hget.1

/-! ### Lists of entries -/

/-- Recording bids with distinct new keys adds them to the history as they are. -/
private theorem get?_foldl_record (hkeys : (bids.map ClearedBid.key).Nodup)
    (hnew : ∀ bid ∈ bids, h.get? bid.key = none) :
    (bids.foldl (fun h b => h.record b.key ⟨b.price, b.height⟩) h).get? key = some clearing ↔
      (∃ bid ∈ bids, bid.key = key ∧ ⟨bid.price, bid.height⟩ = clearing) ∨
        h.get? key = some clearing := by
  -- For any history in front that no bid of the list has an entry in.
  induction bids generalizing h with
  | nil => simp
  | cons bid bids ih =>
    obtain ⟨honce, hkeys⟩ := List.nodup_cons.mp hkeys
    obtain ⟨hfirst, hnew⟩ := List.forall_mem_cons.mp hnew
    have hrecord : ∀ key', (h.record bid.key ⟨bid.price, bid.height⟩).get? key' =
        if bid.key = key' then some ⟨bid.price, bid.height⟩ else h.get? key' := by
      intro key'
      rw [get?_record, hfirst]
      rfl
    -- The first bid's entry does not stand in the way of the others.
    have hnew' : ∀ bid' ∈ bids,
        (h.record bid.key ⟨bid.price, bid.height⟩).get? bid'.key = none := by
      intro bid' hbid'
      have hne : bid.key ≠ bid'.key := fun heq => honce (List.mem_map.mpr ⟨bid', hbid', heq.symm⟩)
      rw [hrecord, if_neg hne, hnew bid' hbid']
    rw [List.foldl_cons, ih hkeys hnew', hrecord]
    by_cases hkey : bid.key = key
    · -- The entry is the one of the first bid, as no later bid has its key.
      have hrest : ¬ ∃ bid' ∈ bids, bid'.key = key ∧ ⟨bid'.price, bid'.height⟩ = clearing := by
        rintro ⟨bid', hbid', heq, -⟩
        exact honce (List.mem_map.mpr ⟨bid', hbid', heq.trans hkey.symm⟩)
      have hnone : h.get? key = none := hkey ▸ hfirst
      simp [hkey, hrest, hnone]
    · simp [hkey]

/-- A history that is read from a list with distinct keys has the entries of the list. -/
theorem get?_ofList (hkeys : (bids.map ClearedBid.key).Nodup) :
    (ofList bids).get? key = some clearing ↔
      ∃ bid ∈ bids, bid.key = key ∧ ⟨bid.price, bid.height⟩ = clearing := by
  rw [ofList, get?_foldl_record hkeys (fun _ _ => get?_empty)]
  simp

/-- The entry of a key is the first one of the list, which has no other. -/
theorem get?_ofList_eq_find? (hkeys : (bids.map ClearedBid.key).Nodup) :
    (ofList bids).get? key =
      (bids.find? fun bid => bid.key = key).map fun bid => ⟨bid.price, bid.height⟩ := by
  cases hfind : bids.find? fun bid => bid.key = key with
  | none =>
    rw [Option.map_none, Option.eq_none_iff_forall_ne_some]
    intro clearing hget
    obtain ⟨bid, hbid, hkey, -⟩ := (get?_ofList hkeys).mp hget
    exact absurd hkey (by simpa using List.find?_eq_none.mp hfind bid hbid)
  | some bid =>
    have hkey : bid.key = key := by simpa using List.find?_some hfind
    rw [Option.map_some]
    exact (get?_ofList hkeys).mpr ⟨bid, List.mem_of_find?_eq_some hfind, hkey, rfl⟩

/-- A history that is read from a list of valid prices has valid prices. -/
theorem pricesValid_ofList (hkeys : (bids.map ClearedBid.key).Nodup)
    (hprices : ∀ bid ∈ bids, bid.price.isValid) : (ofList bids).PricesValid := by
  intro key clearing hget
  obtain ⟨bid, hbid, -, rfl⟩ := (get?_ofList hkeys).mp hget
  exact hprices bid hbid

/-- The list of a history has exactly its entries. -/
theorem mem_toList_iff {bid : ClearedBid} :
    bid ∈ h.toList ↔ h.get? bid.key = some ⟨bid.price, bid.height⟩ := by
  simp only [toList, get?, List.mem_map, Prod.exists,
    Std.ExtTreeMap.mem_toList_iff_getElem?_eq_some]
  constructor
  · rintro ⟨key, clearing, hget, rfl⟩
    exact hget
  · intro hget
    exact ⟨_, _, hget, rfl⟩

/-- The list of a history has each key once. -/
theorem nodup_keys_toList : (h.toList.map ClearedBid.key).Nodup := by
  have hkeys : h.toList.map ClearedBid.key = h.entries.keys := by
    rw [toList, List.map_map, ← Std.ExtTreeMap.map_fst_toList_eq_keys]
    rfl
  rw [hkeys]
  exact Std.ExtTreeMap.nodup_keys

/-- A history is rebuilt from its own entries. -/
theorem ofList_toList : ofList h.toList = h := by
  ext key : 1
  apply Option.ext
  intro clearing
  rw [get?_ofList nodup_keys_toList]
  constructor
  · rintro ⟨bid, hbid, rfl, rfl⟩
    exact mem_toList_iff.mp hbid
  · intro hget
    exact ⟨⟨key.bidder, key.digest, clearing.price, clearing.height⟩, mem_toList_iff.mpr hget, rfl,
      rfl⟩

end ClearedBids

end LaneAuction
