import LaneAuction.Proofs.Except
import LaneAuction.Proofs.Pool.Invariant

/-!
# What the operations of the pool do

Each operation is described by the two changes `put` and `eraseAll`. An admission that fails leaves
the very pool it was given, also when a pending bid was taken out in between.
-/

namespace LaneAuction

namespace Arena

variable {a : Arena} {r : PendingTx} {key : BidKey}

/-- The pending bid with a key is looked up through its hash. -/
theorem Filed.bid?_eq_some_iff (ha : a.Filed) :
    a.bid? key = some r ↔ a.get? r.hash = some r ∧ r.key? = some key := by
  rw [bid?, Option.bind_eq_some_iff]
  constructor
  · intro h
    obtain ⟨hash, hhash, hget⟩ := h
    obtain ⟨s, hs, hskey⟩ := ha.bids_iff.mp hhash
    rw [hget] at hs
    obtain rfl := Option.some.inj hs
    obtain rfl := ha.hash_eq hget
    exact ⟨hget, hskey⟩
  · intro h
    obtain ⟨hget, hkey⟩ := h
    exact ⟨r.hash, ha.bids_iff.mpr ⟨r, hget, hkey⟩, hget⟩

/-- No bid is pending under a key if and only if the key leads nowhere. -/
theorem Filed.bid?_eq_none_iff (ha : a.Filed) : a.bid? key = none ↔ a.bids[key]? = none := by
  cases hhash : a.bids[key]? with
  | none => simp [bid?, hhash]
  | some hash =>
    obtain ⟨r, hget, -⟩ := ha.bids_iff.mp hhash
    simp [bid?, hhash, hget]

/-- An insertion fails, or admits and stores under the next number. -/
private theorem insert_eq_error_or_admits :
    (∃ e, a.insert r = .error e) ∨
      a.Admits r ∧ a.insert r = .ok (a.put { r with arrival := a.next }) := by
  cases h : a.insert r with
  | error e => exact .inl ⟨e, rfl⟩
  | ok a' =>
    obtain ⟨hadmits, rfl⟩ := insert_eq_ok_iff.mp h
    exact .inr ⟨hadmits, rfl⟩

/-- Taking a pending transaction out and putting it back under its number changes nothing. -/
private theorem Filed.restore_forget (ha : a.Filed) (hr : a.get? r.hash = some r) :
    (a.forget r).restore r = .ok a := by
  rw [restore, add_eq_ok_iff, next_forget, ha.put_forget hr]
  exact ⟨ha.admits_forget hr, rfl⟩

/-- The overlapping bids are those that hold one of the hashes. -/
private theorem mem_overlapping_iff {hashes : List Hash} {bid : Hash} :
    bid ∈ a.overlapping hashes ↔ ∃ hash ∈ hashes, bid ∈ holders a.claims hash := by
  -- The union is built up from any set of bids.
  have hfold : ∀ bids : Hashes,
      bid ∈ hashes.foldl (fun bids hash => bids ∪ (a.claims[hash]?).getD ∅) bids ↔
        bid ∈ bids ∨ ∃ hash ∈ hashes, bid ∈ holders a.claims hash := by
    induction hashes with
    | nil => simp
    | cons first rest ih =>
      intro bids
      rw [List.foldl_cons, ih]
      simp [holders, or_assoc]
  rw [overlapping, Std.ExtTreeSet.mem_toList, hfold]
  simp only [Std.ExtTreeSet.not_mem_empty, false_or]

/-- The overlapping bids are the pending ones that bundle one of the hashes. -/
theorem Filed.mem_overlapping_iff (ha : a.Filed) {hashes : List Hash} {bid : Hash} :
    bid ∈ a.overlapping hashes ↔
      ∃ r, a.get? bid = some r ∧ ∃ hash ∈ hashes, hash ∈ r.bundle := by
  simp only [Arena.mem_overlapping_iff, ha.mem_holders_iff]
  constructor
  · intro h
    obtain ⟨hash, hmem, r, hr, hbundle⟩ := h
    exact ⟨r, hr, hash, hmem, hbundle⟩
  · intro h
    obtain ⟨r, hr, hash, hmem, hbundle⟩ := h
    exact ⟨hash, hmem, r, hr, hbundle⟩

/-- The expired bids are the pending ones whose timeout is reached. -/
theorem Filed.mem_expired_iff (ha : a.Filed) {height : UInt64} {bid : Hash} :
    bid ∈ a.expired height ↔
      ∃ r, a.get? bid = some r ∧ r.bid.isSome ∧ r.tx.body.timeout ≤ height := by
  simp only [expired, List.mem_map, List.mem_filter, Std.ExtTreeMap.mem_values_iff,
    Bool.and_eq_true, decide_eq_true_eq]
  constructor
  · intro h
    obtain ⟨r, ⟨⟨hash, hr⟩, hbid, htimeout⟩, rfl⟩ := h
    obtain rfl := ha.hash_eq hr
    exact ⟨r, hr, hbid, htimeout⟩
  · intro h
    obtain ⟨r, hr, hbid, htimeout⟩ := h
    exact ⟨r, ⟨⟨bid, hr⟩, hbid, htimeout⟩, ha.hash_eq hr⟩

end Arena

namespace Pool

variable {p q : Pool} {r s old : PendingTx} {hash : Hash} {hashes : List Hash}

/-! ### Admissions -/

/-- The pool with a new transaction, which takes the next number. -/
def enlist (p : Pool) (r : PendingTx) : Pool := p.put { r with arrival := p.arena.next }

/-- What an admission needs to keep the pool filed. -/
structure CanEnlist (p : Pool) (r : PendingTx) : Prop where
  admits : p.arena.Admits r
  lane : r.bid.isSome → r.lane = .auction
  key : ∀ key, r.key? = some key → p.arena.bids[key]? = none

/-- A pool that can enlist a transaction is filed with it. -/
theorem Filed.enlist (hp : p.Filed) (hr : p.CanEnlist r) : (p.enlist r).Filed := by
  have hadmits : p.arena.Admits { r with arrival := p.arena.next } :=
    ⟨hr.admits.notPending, hr.admits.notClaimed, hr.admits.bundle⟩
  apply hp.put
  · apply hp.arena.put hadmits hr.lane hr.key
    intro hash s hs
    exact Nat.ne_of_lt (hp.arena.arrival_lt hs)
  · exact hr.admits.notPending

@[simp] theorem ranking_enlist : (p.enlist r).ranking = p.ranking := by
  simp [enlist]

@[simp] theorem next_enlist : (p.enlist r).arena.next = p.arena.next + 1 := by
  simp [enlist, Arena.put]

/-- Enlisting adds what is under one hash. -/
theorem get?_enlist : (p.enlist r).arena.get? hash =
    if r.hash = hash then some { r with arrival := p.arena.next } else p.arena.get? hash := by
  rw [enlist, arena_put, Arena.get?_put]

/-- What is pending after an admission was pending before, or is what was admitted. -/
theorem get?_enlist_cases (h : (p.enlist r).arena.get? hash = some s) :
    p.arena.get? hash = some s ∨ s = { r with arrival := p.arena.next } := by
  rw [get?_enlist] at h
  split at h
  · exact .inr (Option.some.inj h).symm
  · exact .inl h

/-- An admission leaves what is pending where it is. -/
theorem CanEnlist.get?_enlist_of_get? (hr : p.CanEnlist r) (hs : p.arena.get? hash = some s) :
    (p.enlist r).arena.get? hash = some s := by
  rw [get?_enlist, if_neg, hs]
  rintro rfl
  rw [Arena.isPending_eq_false_iff.mp hr.admits.notPending] at hs
  exact nomatch hs

/-- A transaction that the arena refuses is placed nowhere. -/
theorem run_place_error (kind : LaneKind) (e : Rejection) :
    (place kind hash (.error e)).run.run p = (.error e, p) := by
  rw [place, ExceptT.run_run_bind, ExceptT.run_run_liftM]

/-- A transaction that the arena stores is placed in the index of its lane. -/
private theorem run_place_ok (kind : LaneKind) {a : Arena} (hget : a.get? hash = some r) :
    (place kind hash (.ok a)).run.run p = (.ok (), { p with arena := a }.setIndex kind
      ((p.index kind).insert (p.ranking.position r) hash)) := by
  simp only [place, ExceptT.run_run_bind, ExceptT.run_run_liftM, ExceptT.run_run_modify, hget]
  cases kind <;> rfl

/-- A transaction that the arena admits is put into its lane. -/
theorem run_place_insert_of_admits (hr : p.arena.Admits r) :
    (place r.lane r.hash (p.arena.insert r)).run.run p = (.ok (), p.enlist r) := by
  have hget : (p.arena.put { r with arrival := p.arena.next }).get? r.hash =
      some { r with arrival := p.arena.next } := by
    simp [Arena.get?_put]
  rw [Arena.insert_eq_ok_iff.mpr ⟨hr, rfl⟩, run_place_ok _ hget, enlist, put]

/-- A transaction is admitted to its lane, or the pool stays as it is. -/
private theorem run_place_insert (p : Pool) (r : PendingTx) :
    (∃ e, (place r.lane r.hash (p.arena.insert r)).run.run p = (.error e, p)) ∨
      p.arena.Admits r ∧
        (place r.lane r.hash (p.arena.insert r)).run.run p = (.ok (), p.enlist r) := by
  obtain ⟨e, he⟩ | ⟨hadmits, -⟩ := Arena.insert_eq_error_or_admits (a := p.arena) (r := r)
  · rw [he]
    exact .inl ⟨e, run_place_error _ e⟩
  · exact .inr ⟨hadmits, run_place_insert_of_admits hadmits⟩

/-- Inserting is placing what the arena stores. -/
theorem run_insert_eq (p : Pool) (r : PendingTx) : (insert r).run.run p =
    (place r.lane r.hash (p.arena.insert r)).run.run p := by
  rw [insert, ExceptT.run_run_bind, ExceptT.run_run_get]

/-- A transaction that is no bid is admitted, or the pool stays as it is. -/
theorem run_insert (p : Pool) (hbid : r.bid = none) :
    (∃ e, (insert r).run.run p = (.error e, p)) ∨
      p.CanEnlist r ∧ (insert r).run.run p = (.ok (), p.enlist r) := by
  rw [run_insert_eq]
  obtain herror | ⟨hadmits, hok⟩ := run_place_insert p r
  · exact .inl herror
  · exact .inr ⟨⟨hadmits, by simp [hbid], by simp [PendingTx.key?, hbid]⟩, hok⟩

/-- Taking a bid out of the auction lane is taking it out of the pool. -/
private theorem Filed.dropBid_eq_erase (hp : p.Filed)
    (hlane : ∀ r, p.arena.get? hash = some r → r.lane = .auction) :
    p.dropBid hash = p.erase hash := by
  cases h : p.arena.get? hash with
  | none =>
    -- The auction is asked for the hash all the same; it has no position there.
    have hposition : p.auction.positions[hash]? = none := by
      rw [← index_auction, (hp.index .auction).positions_eq]
      simp [place?, h]
    rw [erase_of_get?_eq_none h]
    simp [dropBid, Arena.remove, h, LaneIndex.erase, hposition]
  | some r =>
    rw [erase_of_get?_eq_some h, hlane r h]
    simp [dropBid, Arena.remove, h, setIndex]

/-- Dropping a pending bid is erasing it. -/
theorem Filed.dropBid_eq_erase_of_get? (hp : p.Filed) (hold : p.arena.get? old.hash = some old)
    (hlane : old.lane = .auction) : p.dropBid old.hash = p.erase old.hash := by
  apply hp.dropBid_eq_erase
  intro s hs
  rw [hold] at hs
  exact Option.some.inj hs ▸ hlane

/-- A pending bid that was taken out goes back to where it was. -/
theorem Filed.run_place_restore (hp : p.Filed) (hold : p.arena.get? old.hash = some old)
    (hlane : old.lane = .auction) :
    (place .auction old.hash ((p.erase old.hash).arena.restore old)).run.run (p.erase old.hash) =
      (.ok (), p) := by
  have hposition : p.place? .auction old.hash = some (p.ranking.position old) :=
    place?_eq_some_iff.mpr ⟨old, hold, hlane, rfl⟩
  have hindex := (hp.index .auction).insert_erase hposition
  rw [erase_of_get?_eq_some hold, arena_setIndex, hp.arena.restore_forget hold,
    run_place_ok _ hold, hlane]
  simp only [setIndex, index_auction] at hindex ⊢
  rw [hindex]

/-- A bid that is refused in place of a pending one leaves the pool as it was: the old bid goes back
into the pool that it came from. -/
theorem Filed.run_replaceBid_of_refused (hp : p.Filed) (hold : p.arena.get? old.hash = some old)
    (hlane : old.lane = .auction) {e : Rejection}
    (hrefused : (place .auction r.hash ((p.erase old.hash).arena.insert r)).run.run
      (p.erase old.hash) = (.error e, p.erase old.hash)) :
    (replaceBid r old).run.run p = (.error e, p) := by
  simp only [replaceBid, ExceptT.run_run_bind, ExceptT.run_run_modify, ExceptT.run_run_tryCatch,
    ExceptT.run_run_get, hp.dropBid_eq_erase_of_get? hold hlane, hrefused,
    hp.run_place_restore hold hlane, ExceptT.run_run_throw]

/-- A bid that can be placed without the old one takes its place. -/
theorem Filed.run_replaceBid_of_placed (hp : p.Filed) (hold : p.arena.get? old.hash = some old)
    (hlane : old.lane = .auction)
    (hplaced : (place .auction r.hash ((p.erase old.hash).arena.insert r)).run.run
      (p.erase old.hash) = (.ok (), q)) :
    (replaceBid r old).run.run p = (.ok (), q) := by
  simp only [replaceBid, ExceptT.run_run_bind, ExceptT.run_run_modify, ExceptT.run_run_tryCatch,
    ExceptT.run_run_get, hp.dropBid_eq_erase_of_get? hold hlane, hplaced]

/-- A bid replaces a pending one, or the pool stays as it is. -/
private theorem Filed.run_replaceBid (hp : p.Filed) (hold : p.arena.get? old.hash = some old)
    (hlane : old.lane = .auction) (hr : r.lane = .auction) :
    (∃ e, (replaceBid r old).run.run p = (.error e, p)) ∨
      (p.erase old.hash).arena.Admits r ∧
        (replaceBid r old).run.run p = (.ok (), (p.erase old.hash).enlist r) := by
  obtain ⟨e, he⟩ | ⟨hadmits, hok⟩ := hr ▸ run_place_insert (p.erase old.hash) r
  · exact .inl ⟨e, hp.run_replaceBid_of_refused hold hlane he⟩
  · exact .inr ⟨hadmits, hp.run_replaceBid_of_placed hold hlane hok⟩

/-- Two pending bids do not share a key. -/
theorem Filed.key_inj {key : BidKey} {hash' : Hash} (hp : p.Filed)
    (hr : p.arena.get? hash = some r) (hs : p.arena.get? hash' = some s)
    (hrkey : r.key? = some key) (hskey : s.key? = some key) : hash = hash' := by
  have h := hp.arena.bids_iff.mpr ⟨r, hr, hrkey⟩
  rw [hp.arena.bids_iff.mpr ⟨s, hs, hskey⟩] at h
  exact (Option.some.inj h).symm

/-- Taking out the pending bid under a key frees the key. -/
private theorem Filed.getElem?_bids_erase {key : BidKey} (hp : p.Filed)
    (hold : p.arena.get? old.hash = some old) (hkey : old.key? = some key) :
    (p.erase old.hash).arena.bids[key]? = none := by
  rw [Option.eq_none_iff_forall_ne_some]
  intro hash h
  obtain ⟨s, hs, hskey⟩ := (hp.erase old.hash).arena.bids_iff.mp h
  obtain ⟨hne, hs⟩ := hp.get?_erase_eq_some_iff.mp hs
  exact hne (hp.key_inj hold hs hkey hskey)

/-- The pending bid under a key is a bid of the auction lane. -/
theorem Filed.exists_of_bid? {key : BidKey} (hp : p.Filed) (h : p.arena.bid? key = some old) :
    p.arena.get? old.hash = some old ∧ old.lane = .auction ∧ old.key? = some key ∧
      ∃ previous, old.bid = some previous ∧ previous.key = key := by
  obtain ⟨hold, hkey⟩ := hp.arena.bid?_eq_some_iff.mp h
  obtain ⟨previous, hprevious, hsame⟩ := Option.map_eq_some_iff.mp hkey
  exact ⟨hold, hp.arena.lane_eq hold (by rw [hprevious]; rfl), hkey, previous, hprevious, hsame⟩

/-- A transaction without a bid is refused as a bid. -/
theorem run_insertBid_of_none (hbid : r.bid = none) (increment : Coin) (maxPending : Nat) :
    (insertBid r increment maxPending).run.run p = (.error (.malformed .notABid), p) := by
  simp only [insertBid, hbid, ExceptT.run_run_throw]

/-- A bid under a new key needs room, and then has to be admitted. -/
theorem run_insertBid_of_new {bid : PendingBid} (hbid : r.bid = some bid)
    (hkey : p.arena.bid? bid.key = none) (increment : Coin) (maxPending : Nat) :
    (insertBid r increment maxPending).run.run p =
      if 0 < maxPending ∧ maxPending ≤ p.auction.size then (.error (.laneFull "auction"), p)
      else match (place .auction r.hash (p.arena.insert r)).run.run p with
        | (.ok (), q) => (.ok none, q)
        | (.error e, q) => (.error e, q) := by
  simp only [insertBid, hbid, ExceptT.run_run_bind, ExceptT.run_run_get, hkey,
    ExceptT.run_run_check]
  congr 1
  rcases (place .auction r.hash (p.arena.insert r)).run.run p with ⟨_ | ⟨⟩, _⟩ <;> rfl

/-- A bid under the key of a pending one has to raise its price, and then replaces it. -/
theorem run_insertBid_of_pending {bid previous : PendingBid} (hbid : r.bid = some bid)
    (hkey : p.arena.bid? bid.key = some old) (hprevious : old.bid = some previous)
    (increment : Coin) (maxPending : Nat) :
    (insertBid r increment maxPending).run.run p =
      match checkIncrement bid.price previous.price increment with
      | .error e => (.error e, p)
      | .ok () => match (replaceBid r old).run.run p with
        | (.ok (), q) => (.ok (some old.hash), q)
        | (.error e, q) => (.error e, q) := by
  simp only [insertBid, hbid, ExceptT.run_run_bind, ExceptT.run_run_get, hkey, hprevious,
    ExceptT.run_run_liftM]
  cases checkIncrement bid.price previous.price increment with
  | error e => rfl
  | ok _ =>
    dsimp only
    rcases (replaceBid r old).run.run p with ⟨_ | ⟨⟩, _⟩ <;> rfl

/-- A new bid finds the pool as it was, or room in it, or takes the place of the pending bid under
its key. -/
theorem Filed.run_insertBid (hp : p.Filed) (hr : r.lane = .auction) (increment : Coin)
    (maxPending : Nat) :
    (∃ e, (insertBid r increment maxPending).run.run p = (.error e, p)) ∨
    (r.bid.isSome ∧ (0 < maxPending → p.auction.size < maxPending) ∧ p.CanEnlist r ∧
      (insertBid r increment maxPending).run.run p = (.ok none, p.enlist r)) ∨
    (∃ bid old previous, r.bid = some bid ∧ p.arena.get? old.hash = some old ∧
      old.bid = some previous ∧ previous.key = bid.key ∧
      checkIncrement bid.price previous.price increment = .ok () ∧
      (p.erase old.hash).CanEnlist r ∧
      (insertBid r increment maxPending).run.run p =
        (.ok (some old.hash), (p.erase old.hash).enlist r)) := by
  cases hbid : r.bid with
  | none => exact .inl ⟨_, run_insertBid_of_none hbid increment maxPending⟩
  | some bid =>
    have hrkey : r.key? = some bid.key := by rw [PendingTx.key?, hbid, Option.map_some]
    cases hkey : p.arena.bid? bid.key with
    | none =>
      -- Nothing was found under the key.
      have hfree : ∀ key, r.key? = some key → p.arena.bids[key]? = none := by
        intro key h
        obtain rfl := Option.some.inj (hrkey.symm.trans h)
        exact hp.arena.bid?_eq_none_iff.mp hkey
      rw [run_insertBid_of_new hbid hkey]
      -- The limit is asked for a new key only.
      by_cases hfull : 0 < maxPending ∧ maxPending ≤ p.auction.size
      · rw [if_pos hfull]
        exact .inl ⟨_, rfl⟩
      · rw [if_neg hfull]
        obtain ⟨e, he⟩ | ⟨hadmits, hok⟩ := hr ▸ run_place_insert p r
        · rw [he]
          exact .inl ⟨e, rfl⟩
        · rw [hok]
          exact .inr (.inl ⟨rfl, by omega, ⟨hadmits, fun _ => hr, hfree⟩, rfl⟩)
    | some old =>
      -- The pending bid gives way, and then nothing is under the key.
      obtain ⟨hold, hlane, holdkey, previous, hprevious, hsame⟩ := hp.exists_of_bid? hkey
      have hfree : ∀ key, r.key? = some key → (p.erase old.hash).arena.bids[key]? = none := by
        intro key h
        obtain rfl := Option.some.inj (hrkey.symm.trans h)
        exact hp.getElem?_bids_erase hold holdkey
      rw [run_insertBid_of_pending hbid hkey hprevious]
      cases hcheck : checkIncrement bid.price previous.price increment with
      | error e => exact .inl ⟨e, rfl⟩
      | ok _ =>
        obtain ⟨e, he⟩ | ⟨hadmits, hok⟩ := hp.run_replaceBid hold hlane hr
        · rw [he]
          exact .inl ⟨e, rfl⟩
        · rw [hok]
          exact .inr (.inr ⟨bid, old, previous, rfl, hold, hprevious, hsame, hcheck,
            ⟨hadmits, fun _ => hr, hfree⟩, rfl⟩)

/-! ### Removals -/

/-- Erasing keeps a pool filed. -/
theorem Filed.eraseAll (hp : p.Filed) (hashes : List Hash) : (p.eraseAll hashes).Filed := by
  induction hashes generalizing p with
  | nil => exact hp
  | cons hash rest ih => exact ih (hp.erase hash)

@[simp] theorem ranking_eraseAll : (p.eraseAll hashes).ranking = p.ranking := by
  induction hashes generalizing p with
  | nil => rfl
  | cons hash rest ih =>
    rw [Pool.eraseAll, List.foldl_cons, ← Pool.eraseAll, ih, ranking_erase]

@[simp] theorem next_eraseAll : (p.eraseAll hashes).arena.next = p.arena.next := by
  induction hashes generalizing p with
  | nil => rfl
  | cons hash rest ih =>
    rw [Pool.eraseAll, List.foldl_cons, ← Pool.eraseAll, ih, next_erase]

/-- Erasing takes out what is pending under the given hashes. -/
theorem Filed.get?_eraseAll (hp : p.Filed) : (p.eraseAll hashes).arena.get? hash =
    if hash ∈ hashes then none else p.arena.get? hash := by
  induction hashes generalizing p with
  | nil => rfl
  | cons first rest ih =>
    rw [Pool.eraseAll, List.foldl_cons, ← Pool.eraseAll, ih (hp.erase first), hp.get?_erase]
    by_cases hrest : hash ∈ rest
    · simp [hrest]
    · simp [hrest, eq_comm]

/-- Behind erasing, a pending transaction is one that was not erased. -/
theorem Filed.get?_eraseAll_eq_some_iff (hp : p.Filed) :
    (p.eraseAll hashes).arena.get? hash = some r ↔
      hash ∉ hashes ∧ p.arena.get? hash = some r := by
  rw [hp.get?_eraseAll]
  by_cases h : hash ∈ hashes <;> simp [h]

/-- Taking bids out of the auction lane one by one is taking them out of the pool. -/
private theorem Filed.foldl_dropBid (hp : p.Filed)
    (hlane : ∀ hash ∈ hashes, ∀ r, p.arena.get? hash = some r → r.lane = .auction) :
    hashes.foldl dropBid p = p.eraseAll hashes := by
  induction hashes generalizing p with
  | nil => rfl
  | cons first rest ih =>
    rw [Pool.eraseAll, List.foldl_cons, List.foldl_cons, ← Pool.eraseAll,
      hp.dropBid_eq_erase (hlane first List.mem_cons_self)]
    apply ih (hp.erase first)
    intro hash hmem r hr
    exact hlane hash (List.mem_cons_of_mem _ hmem) r (hp.get?_erase_eq_some_iff.mp hr).2

/-- Dropping what overlaps a block is erasing the bids whose bundle names one of its hashes. -/
theorem Filed.dropOverlapping_eq_eraseAll (hp : p.Filed) :
    p.dropOverlapping hashes = p.eraseAll (p.arena.overlapping hashes) := by
  apply hp.foldl_dropBid
  intro hash hmem r hr
  obtain ⟨s, hs, other, -, hbundle⟩ := hp.arena.mem_overlapping_iff.mp hmem
  rw [hr] at hs
  obtain rfl := Option.some.inj hs
  -- It bundles something, so it is a bid.
  apply hp.arena.lane_eq hr
  rw [Option.isSome_iff_ne_none]
  intro hnone
  rw [PendingTx.bundle_of_bid_eq_none hnone] at hbundle
  exact nomatch hbundle

/-- Dropping what has expired is erasing the bids that have. -/
theorem Filed.dropExpired_eq_eraseAll (hp : p.Filed) {height : UInt64} :
    p.dropExpired height = p.eraseAll (p.arena.expired height) := by
  apply hp.foldl_dropBid
  intro hash hmem r hr
  obtain ⟨s, hs, hbid, -⟩ := hp.arena.mem_expired_iff.mp hmem
  rw [hr] at hs
  obtain rfl := Option.some.inj hs
  exact hp.arena.lane_eq hr hbid

/-- What is left after a block's hashes is what bundles none of them. -/
theorem Filed.get?_dropOverlapping_eq_some_iff (hp : p.Filed) :
    (p.dropOverlapping hashes).arena.get? hash = some r ↔
      p.arena.get? hash = some r ∧ ∀ other ∈ hashes, other ∉ r.bundle := by
  rw [hp.dropOverlapping_eq_eraseAll, hp.get?_eraseAll_eq_some_iff, hp.arena.mem_overlapping_iff,
    and_comm]
  refine and_congr_right fun hr => ?_
  simp only [hr, Option.some.injEq, exists_eq_left', not_exists, not_and]

/-- What is left at a height is what is no bid or may still be included. -/
theorem Filed.get?_dropExpired_eq_some_iff (hp : p.Filed) {height : UInt64} :
    (p.dropExpired height).arena.get? hash = some r ↔
      p.arena.get? hash = some r ∧ ¬ (r.bid.isSome ∧ r.tx.body.timeout ≤ height) := by
  rw [hp.dropExpired_eq_eraseAll, hp.get?_eraseAll_eq_some_iff, hp.arena.mem_expired_iff, and_comm]
  refine and_congr_right fun hr => ?_
  simp only [hr, Option.some.injEq, exists_eq_left']

/-- Erasing two lists is erasing one behind the other. -/
theorem eraseAll_append (p : Pool) (hashes hashes' : List Hash) :
    p.eraseAll (hashes ++ hashes') = (p.eraseAll hashes).eraseAll hashes' := List.foldl_append

end Pool

end LaneAuction
