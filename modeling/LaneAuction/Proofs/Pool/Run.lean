import LaneAuction.Proofs.Pool.Operations

/-!
# Pools that operations lead to

A run applies a list of operations to an empty pool. Every operation keeps the pool valid
(`Valid.apply`), so that every run ends in a valid pool, and what a valid pool looks like from the
outside (`Consistent`) holds of every pool that operations lead to.

The limit on pending bids is not part of validity: it is an invariant of runs that keep to one
limit.
-/

namespace LaneAuction

namespace Pool

variable {p : Pool} {r s : PendingTx} {kind : LaneKind} {hash : Hash}

/-! ### What a pool lists -/

namespace Filed

/-- The index of a lane lists what is pending in it. -/
private theorem mem_toList_index_iff (hp : p.Filed) :
    hash ∈ (p.index kind).toList ↔ ∃ r, p.arena.get? hash = some r ∧ r.lane = kind := by
  rw [LaneIndex.toList, Std.ExtTreeMap.mem_values_iff]
  simp only [(hp.index kind).order_iff, place?_eq_some_iff]
  constructor
  · intro h
    obtain ⟨-, r, hr, hlane, -⟩ := h
    exact ⟨r, hr, hlane⟩
  · intro h
    obtain ⟨r, hr, hlane⟩ := h
    exact ⟨_, r, hr, hlane, rfl⟩

/-- A lane lists what is pending in it. -/
theorem mem_ordered_iff (hp : p.Filed) :
    r ∈ p.ordered kind ↔ p.arena.get? r.hash = some r ∧ r.lane = kind := by
  rw [ordered, List.mem_filterMap]
  simp only [hp.mem_toList_index_iff]
  constructor
  · intro h
    obtain ⟨hash, ⟨s, hs, hlane⟩, hr⟩ := h
    rw [hs] at hr
    obtain rfl := Option.some.inj hr
    obtain rfl := hp.arena.hash_eq hs
    exact ⟨hs, hlane⟩
  · intro h
    obtain ⟨hr, hlane⟩ := h
    exact ⟨r.hash, ⟨r, hr, hlane⟩, hr⟩

/-- A lane lists its transactions in the order of its ranking. -/
theorem pairwise_ordered (hp : p.Filed) : (p.ordered kind).Pairwise p.ranking.Before := by
  rw [ordered, List.pairwise_filterMap]
  apply Std.ExtTreeMap.pairwise_values
  intro position position' hash hash' h h' hlt s hs s' hs'
  obtain ⟨r, hr, hlane, hposition⟩ := place?_eq_some_iff.mp ((hp.index kind).order_iff.mp h)
  obtain ⟨r', hr', hlane', hposition'⟩ := place?_eq_some_iff.mp ((hp.index kind).order_iff.mp h')
  rw [hs] at hr
  rw [hs'] at hr'
  obtain rfl := Option.some.inj hr
  obtain rfl := Option.some.inj hr'
  rw [← hposition, ← hposition'] at hlt
  exact (Ranking.compare_position_eq_lt_iff (hlane.trans hlane'.symm)).mp hlt

/-- A lane lists nothing twice. -/
private theorem nodup_ordered (hp : p.Filed) : (p.ordered kind).Nodup :=
  hp.pairwise_ordered.imp Ranking.Before.ne

/-- A lane lists no hash twice. -/
theorem nodup_hashes_ordered (hp : p.Filed) : ((p.ordered kind).map PendingTx.hash).Nodup := by
  rw [List.Nodup, List.pairwise_map]
  refine hp.nodup_ordered.imp_of_mem fun hr hs hne heq => hne ?_
  have hr' := (hp.mem_ordered_iff.mp hr).1
  rw [heq, (hp.mem_ordered_iff.mp hs).1] at hr'
  exact (Option.some.inj hr').symm

/-- A lane in which one transaction alone is pending lists that one. -/
theorem ordered_eq_singleton (hp : p.Filed) (hr : p.arena.get? r.hash = some r)
    (honly : ∀ hash s, p.arena.get? hash = some s → s.lane = r.lane → s = r) :
    p.ordered r.lane = [r] := by
  have hmem : ∀ s, s ∈ p.ordered r.lane ↔ s ∈ [r] := by
    intro s
    rw [hp.mem_ordered_iff, List.mem_singleton]
    constructor
    · rintro ⟨hs, hlane⟩
      exact honly s.hash s hs hlane
    · rintro rfl
      exact ⟨hr, rfl⟩
  have hperm := (List.perm_ext_iff_of_nodup hp.nodup_ordered (List.pairwise_singleton _ r)).mpr
    hmem
  exact List.perm_singleton.mp hperm

/-- A pool that holds a part of another one lists that part in the same order. -/
theorem ordered_eq_filter (hp : p.Filed) {q : Pool} (hq : q.Filed)
    (hranking : q.ranking = p.ranking) {keep : PendingTx → Prop} [DecidablePred keep]
    (hget : ∀ hash r, q.arena.get? hash = some r ↔ p.arena.get? hash = some r ∧ keep r)
    (kind : LaneKind) : q.ordered kind = (p.ordered kind).filter keep := by
  have hsorted : ((p.ordered kind).filter keep).Pairwise p.ranking.Before :=
    hp.pairwise_ordered.filter _
  have hperm : (q.ordered kind).Perm ((p.ordered kind).filter keep) := by
    rw [List.perm_ext_iff_of_nodup hq.nodup_ordered (hp.nodup_ordered.filter _)]
    intro r
    rw [hq.mem_ordered_iff, hget, List.mem_filter, hp.mem_ordered_iff, decide_eq_true_iff,
      and_right_comm]
  -- Within a lane, no two transactions stand before each other.
  refine hperm.eq_of_pairwise (fun r s hr hs h h' => ?_) (hranking ▸ hq.pairwise_ordered) hsorted
  have hlane := (hq.mem_ordered_iff.mp hr).2
  have hlane' := (hp.mem_ordered_iff.mp (List.mem_of_mem_filter hs)).2
  exact absurd h' (h.asymm (hlane.trans hlane'.symm))

end Filed

/-- What holds of the maps of a pool. -/
structure Consistent (p : Pool) : Prop where
  hash_eq : ∀ {hash r}, p.arena.get? hash = some r → r.hash = hash
  lane_eq : ∀ {hash r}, p.arena.get? hash = some r → r.bid.isSome → r.lane = .auction
  /-- A hash has an entry if some pending bid bundles it, and the entry is the set of those bids. -/
  claims : ∀ {hash bids}, p.arena.claims[hash]? = some bids ↔
    bids ≠ ∅ ∧ ∀ bid, bid ∈ bids ↔ ∃ r, p.arena.get? bid = some r ∧ hash ∈ r.bundle
  isClaimed : ∀ {hash}, p.arena.isClaimed hash ↔
    ∃ bid r, p.arena.get? bid = some r ∧ hash ∈ r.bundle
  /-- Nothing is both pending on its own and part of a pending bundle. -/
  exclusive : ∀ {hash}, ¬ (p.arena.isPending hash ∧ p.arena.isClaimed hash)
  /-- The entry of a key is the pending bid that has it. -/
  bids : ∀ {key hash}, p.arena.bids[key]? = some hash ↔
    ∃ r, p.arena.get? hash = some r ∧ r.key? = some key
  /-- No two pending bids have one key. -/
  key_inj : ∀ {hash hash' r r' key}, p.arena.get? hash = some r → p.arena.get? hash' = some r' →
    r.key? = some key → r'.key? = some key → hash = hash'
  arrival_inj : ∀ {hash hash' r r'}, p.arena.get? hash = some r → p.arena.get? hash' = some r' →
    r.arrival = r'.arrival → hash = hash'
  arrival_lt : ∀ {hash r}, p.arena.get? hash = some r → r.arrival < p.arena.next
  /-- The two maps of an index are inverse to each other. -/
  inverse : ∀ {kind hash} {position : Position}, (p.index kind).order[position]? = some hash ↔
    (p.index kind).positions[hash]? = some position
  /-- An index has the positions of what is pending in its lane. -/
  positions : ∀ {kind position hash}, (p.index kind).positions[hash]? = some position ↔
    ∃ r, p.arena.get? hash = some r ∧ r.lane = kind ∧ p.ranking.position r = position
  mem_ordered : ∀ {kind r}, r ∈ p.ordered kind ↔ p.arena.get? r.hash = some r ∧ r.lane = kind
  nodup_ordered : ∀ {kind}, (p.ordered kind).Nodup
  pairwise_ordered : ∀ {kind}, (p.ordered kind).Pairwise p.ranking.Before

/-- A valid pool is consistent. -/
theorem Valid.consistent (hp : p.Valid) : p.Consistent where
  hash_eq := hp.arena.hash_eq
  lane_eq := hp.arena.lane_eq
  claims {hash bids} := by
    -- An entry is the set of holders, since no entry is empty.
    have hholders : ∀ bid, bid ∈ Arena.holders p.arena.claims hash ↔
        ∃ r, p.arena.get? bid = some r ∧ hash ∈ r.bundle := fun bid => hp.arena.mem_holders_iff
    constructor
    · intro h
      rw [Arena.holders, h, Option.getD_some] at hholders
      exact ⟨hp.arena.tight hash bids h, hholders⟩
    · intro h
      obtain ⟨hne, hmem⟩ := h
      have heq : Arena.holders p.arena.claims hash = bids :=
        Std.ExtTreeSet.ext_mem fun bid => (hholders bid).trans (hmem bid).symm
      rw [Arena.holders] at heq
      cases hentry : p.arena.claims[hash]? with
      | none =>
        rw [hentry, Option.getD_none] at heq
        exact absurd heq.symm hne
      | some bids' =>
        rw [hentry, Option.getD_some] at heq
        rw [heq]
  isClaimed := hp.arena.isClaimed_iff
  -- What is claimed is in some bundle, and what is in a bundle is not pending.
  exclusive := by
    intro hash h
    obtain ⟨hpending, hclaimed⟩ := h
    obtain ⟨s, hs⟩ := Arena.isPending_iff.mp hpending
    obtain ⟨bid, r, hr, hmem⟩ := hp.arena.isClaimed_iff.mp hclaimed
    exact hp.notMem_bundle hr hs hmem
  bids := hp.arena.bids_iff
  key_inj := hp.key_inj
  arrival_inj := hp.arena.arrival_inj
  arrival_lt := hp.arena.arrival_lt
  -- Both directions of an index say where the record ranks.
  inverse {kind hash position} := by
    rw [(hp.index kind).order_iff, (hp.index kind).positions_eq]
  positions {kind position hash} := by
    rw [(hp.index kind).positions_eq, place?_eq_some_iff]
  mem_ordered := hp.mem_ordered_iff
  nodup_ordered := hp.nodup_ordered
  pairwise_ordered := hp.pairwise_ordered

/-! ### Runs -/

/-- One operation on a pool. -/
inductive Step where
  | insert (r : PendingTx)
  | insertBid (r : PendingTx) (increment : Coin) (maxPending : Nat)
  | remove (hash : Hash)
  | removeAll (hashes : List Hash)
  | dropOverlapping (hashes : List Hash)
  | dropExpired (height : UInt64)

namespace Step

/-- The pool after an operation, whatever its answer. -/
def apply (p : Pool) : Step → Pool
  | insert r => ((Pool.insert r).run.run p).2
  | insertBid r increment maxPending => ((Pool.insertBid r increment maxPending).run.run p).2
  | remove hash => p.erase hash
  | removeAll hashes => p.eraseAll hashes
  | dropOverlapping hashes => p.dropOverlapping hashes
  | dropExpired height => p.dropExpired height

/-- What the pool relies on: bids go the way of bids, to the auction, and none bundles itself. -/
def IsProper : Step → Prop
  | insert r => r.bid = none
  | insertBid r _ _ => r.lane = .auction ∧ r.hash ∉ r.bundle
  | _ => True

instance : DecidablePred IsProper
  | insert r => inferInstanceAs (Decidable (r.bid = none))
  | insertBid r _ _ => inferInstanceAs (Decidable (r.lane = .auction ∧ r.hash ∉ r.bundle))
  | remove _ | removeAll _ | dropOverlapping _ | dropExpired _ => inferInstanceAs (Decidable True)

end Step

/-- The pool that operations lead to, from one that holds nothing. -/
def ofSteps (ranking : Ranking) (steps : List Step) : Pool :=
  steps.foldl Step.apply (ofRanking ranking)

/-- An operation takes transactions out of a pool, none at all among the cases, or enlists one; to
enlist a bid it takes out the pending bid under its key, if there is one. -/
theorem Valid.apply_cases (hp : p.Valid) {step : Step} (hstep : step.IsProper) :
    (∃ hashes, step.apply p = p.eraseAll hashes) ∨
    (∃ r, step = .insert r ∧ p.CanEnlist r ∧ step.apply p = p.enlist r) ∨
    (∃ r increment maxPending, step = .insertBid r increment maxPending ∧ r.bid.isSome ∧
      (0 < maxPending → p.auction.size < maxPending) ∧ p.CanEnlist r ∧
      step.apply p = p.enlist r) ∨
    (∃ r increment maxPending old, step = .insertBid r increment maxPending ∧ r.bid.isSome ∧
      p.arena.get? old.hash = some old ∧ old.bid.isSome ∧ (p.erase old.hash).CanEnlist r ∧
      step.apply p = (p.erase old.hash).enlist r) := by
  cases step with
  | insert r =>
    obtain ⟨e, he⟩ | ⟨hcan, hok⟩ := run_insert p hstep
    · exact .inl ⟨[], by rw [Step.apply, he]; rfl⟩
    · exact .inr (.inl ⟨r, rfl, hcan, by rw [Step.apply, hok]⟩)
  -- A step that is refused leaves the pool, as if it had erased nothing.
  | insertBid r increment maxPending =>
    obtain ⟨e, he⟩ | ⟨hbid, hroom, hcan, hok⟩ |
      ⟨bid, old, previous, hbid, hold, hprevious, -, -, hcan, hok⟩ :=
        hp.run_insertBid hstep.1 increment maxPending
    · exact .inl ⟨[], by rw [Step.apply, he]; rfl⟩
    · exact .inr (.inr (.inl ⟨r, increment, maxPending, rfl, hbid, hroom, hcan,
        by rw [Step.apply, hok]⟩))
    · exact .inr (.inr (.inr ⟨r, increment, maxPending, old, rfl, by simp [hbid], hold,
        by simp [hprevious], hcan, by rw [Step.apply, hok]⟩))
  -- The other steps only take records out.
  | remove hash => exact .inl ⟨[hash], rfl⟩
  | removeAll hashes => exact .inl ⟨hashes, rfl⟩
  | dropOverlapping hashes => exact .inl ⟨_, hp.dropOverlapping_eq_eraseAll⟩
  | dropExpired height => exact .inl ⟨_, hp.dropExpired_eq_eraseAll⟩

/-- Erasing keeps a pool valid. -/
private theorem Valid.eraseAll (hp : p.Valid) (hashes : List Hash) : (p.eraseAll hashes).Valid where
  toFiled := hp.toFiled.eraseAll hashes
  notOwn h := hp.notOwn (hp.get?_eraseAll_eq_some_iff.mp h).2

/-- A bid that does not bundle itself keeps the pool valid. -/
private theorem Valid.enlist (hp : p.Valid) (hr : p.CanEnlist r) (hown : r.hash ∉ r.bundle) :
    (p.enlist r).Valid where
  toFiled := hp.toFiled.enlist hr
  notOwn {hash s} h := by
    rw [get?_enlist] at h
    split at h
    · next heq =>
      obtain rfl := Option.some.inj h
      exact heq ▸ hown
    · exact hp.notOwn h

/-- What an operation inserts does not bundle itself. -/
private theorem Step.IsProper.notOwn {step : Step} (hstep : step.IsProper)
    (h : step = .insert r ∨ ∃ increment maxPending, step = .insertBid r increment maxPending) :
    r.hash ∉ r.bundle := by
  obtain rfl | ⟨increment, maxPending, rfl⟩ := h
  · rw [PendingTx.bundle_of_bid_eq_none hstep]
    exact List.not_mem_nil
  · exact hstep.2

/-- Every operation keeps a pool valid. -/
theorem Valid.apply (hp : p.Valid) {step : Step} (hstep : step.IsProper) :
    (step.apply p).Valid := by
  obtain ⟨hashes, heq⟩ | ⟨r, hr, hcan, heq⟩ | ⟨r, _, _, hr, -, -, hcan, heq⟩ |
    ⟨r, _, _, old, hr, -, -, -, hcan, heq⟩ := hp.apply_cases hstep
  · rw [heq]
    exact hp.eraseAll hashes
  · rw [heq]
    exact hp.enlist hcan (hstep.notOwn (.inl hr))
  · rw [heq]
    exact hp.enlist hcan (hstep.notOwn (.inr ⟨_, _, hr⟩))
  · rw [heq]
    exact (hp.eraseAll [old.hash]).enlist hcan (hstep.notOwn (.inr ⟨_, _, hr⟩))

/-- No operation changes the ranking. -/
private theorem Valid.ranking_apply (hp : p.Valid) {step : Step} (hstep : step.IsProper) :
    (step.apply p).ranking = p.ranking := by
  obtain ⟨hashes, heq⟩ | ⟨r, -, -, heq⟩ | ⟨r, -, -, -, -, -, -, heq⟩ |
    ⟨r, -, -, old, -, -, -, -, -, heq⟩ := hp.apply_cases hstep <;> simp [heq]

/-- What is preserved by every operation on a valid pool holds at the end of a run. -/
theorem ofSteps_induction {ranking : Ranking} {steps : List Step} {I : Pool → Prop}
    (hproper : ∀ step ∈ steps, step.IsProper) (hinit : I (ofRanking ranking))
    (hstep : ∀ (p : Pool) (step : Step), step ∈ steps → p.Valid → I p → I (step.apply p)) :
    (ofSteps ranking steps).Valid ∧ I (ofSteps ranking steps) := by
  -- Validity goes along, because what a step does is known of valid pools only.
  have hrun : ∀ (rest : List Step) (p : Pool), (∀ step ∈ rest, step ∈ steps) →
      p.Valid ∧ I p → (rest.foldl Step.apply p).Valid ∧ I (rest.foldl Step.apply p) := by
    intro rest
    -- For every tail of the steps, from any pool that is valid and has the property.
    induction rest with
    | nil =>
      intro p _ h
      exact h
    | cons step rest ih =>
      intro p hsub h
      have hmem : step ∈ steps := hsub step List.mem_cons_self
      apply ih
      · intro step' hstep'
        exact hsub step' (List.mem_cons_of_mem _ hstep')
      · exact ⟨h.1.apply (hproper step hmem), hstep p step hmem h.1 h.2⟩
  exact hrun steps _ (fun _ h => h) ⟨valid_ofRanking ranking, hinit⟩

/-- Operations lead to a valid pool. -/
theorem valid_ofSteps {ranking : Ranking} {steps : List Step}
    (hproper : ∀ step ∈ steps, step.IsProper) : (ofSteps ranking steps).Valid :=
  (ofSteps_induction (I := fun _ => True) hproper trivial fun _ _ _ _ _ => trivial).1

/-! ### The limit on pending bids -/

/-- At most so many bids are pending. -/
def HoldsAtMost (p : Pool) (limit : Nat) : Prop :=
  ∀ hashes : List Hash, hashes.Nodup →
    (∀ hash ∈ hashes, ∃ r, p.arena.get? hash = some r ∧ r.bid.isSome) → hashes.length ≤ limit

namespace HoldsAtMost

variable {limit : Nat}

/-- A pool whose pending bids are all pending in another holds no more bids than that one. -/
private theorem mono {q : Pool} (h : p.HoldsAtMost limit)
    (hsub : ∀ hash r, q.arena.get? hash = some r → r.bid.isSome → p.arena.get? hash = some r) :
    q.HoldsAtMost limit := by
  intro hashes hnodup hbids
  apply h hashes hnodup
  intro hash hmem
  obtain ⟨r, hr, hbid⟩ := hbids hash hmem
  exact ⟨r, hsub hash r hr hbid, hbid⟩

/-- Enlisting adds at most one bid. -/
private theorem enlist (h : p.HoldsAtMost limit) : (p.enlist r).HoldsAtMost (limit + 1) := by
  intro hashes hnodup hbids
  -- Apart from the new one, all of the bids were pending before.
  have hrest : (hashes.erase r.hash).length ≤ limit := by
    apply h _ (hnodup.erase r.hash)
    intro hash hmem
    obtain ⟨hne, hmem⟩ := hnodup.mem_erase_iff.mp hmem
    obtain ⟨s, hs, hbid⟩ := hbids hash hmem
    rw [Pool.enlist, arena_put, Arena.get?_put_eq_some_iff] at hs
    obtain ⟨heq, -⟩ | ⟨-, hs⟩ := hs
    · exact absurd heq hne
    · exact ⟨s, hs, hbid⟩
  have := List.le_length_erase (a := r.hash) (l := hashes)
  omega

/-- Erasing a bid makes room for one. -/
private theorem erase (h : p.HoldsAtMost (limit + 1)) (hp : p.Valid)
    (hr : p.arena.get? hash = some r) (hbid : r.bid.isSome) : (p.erase hash).HoldsAtMost limit := by
  intro hashes hnodup hbids
  have hleft : ∀ other ∈ hashes,
      hash ≠ other ∧ ∃ s, p.arena.get? other = some s ∧ s.bid.isSome := by
    intro other hmem
    obtain ⟨s, hs, hsbid⟩ := hbids other hmem
    obtain ⟨hne, hs⟩ := hp.get?_erase_eq_some_iff.mp hs
    exact ⟨hne, s, hs, hsbid⟩
  -- With the bid that is taken out, the others were pending before.
  have hlength : (hash :: hashes).length ≤ limit + 1 := by
    apply h
    · exact List.nodup_cons.mpr ⟨fun hmem => (hleft hash hmem).1 rfl, hnodup⟩
    · intro other hmem
      obtain rfl | hmem := List.mem_cons.mp hmem
      · exact ⟨r, hr, hbid⟩
      · exact (hleft other hmem).2
  simpa using hlength

end HoldsAtMost

/-- The auction lane bounds the number of pending bids. -/
private theorem Valid.holdsAtMost (hp : p.Valid) : p.HoldsAtMost p.auction.size := by
  intro hashes hnodup hbids
  apply Std.ExtTreeMap.length_le_size hnodup
  intro hash hmem
  obtain ⟨r, hr, hbid⟩ := hbids hash hmem
  have hplace : p.place? .auction hash = some (p.ranking.position r) :=
    place?_eq_some_iff.mpr ⟨r, hr, hp.arena.lane_eq hr hbid, rfl⟩
  rw [← index_auction, Std.ExtTreeMap.mem_iff_isSome_getElem?,
    (hp.index .auction).positions_eq, hplace]
  rfl

/-- A pool that takes bids up to a limit keeps to it. -/
theorem HoldsAtMost.apply {limit : Nat} {step : Step} (h : p.HoldsAtMost (limit + 1)) (hp : p.Valid)
    (hstep : step.IsProper)
    (hlimit : ∀ r increment maxPending, step = .insertBid r increment maxPending →
      maxPending = limit + 1) :
    (step.apply p).HoldsAtMost (limit + 1) := by
  obtain ⟨hashes, heq⟩ | ⟨r, hr, -, heq⟩ | ⟨r, increment, maxPending, hr, -, hroom, -, heq⟩ |
    ⟨r, -, -, old, -, -, hold, holdbid, -, heq⟩ := hp.apply_cases hstep
  -- Records leave, a plain one comes, a bid comes, or a bid takes the place of another.
  · rw [heq]
    apply h.mono
    intro hash s hs _
    exact (hp.get?_eraseAll_eq_some_iff.mp hs).2
  · rw [heq]
    apply h.mono
    intro hash s hs hbid
    obtain hs | rfl := get?_enlist_cases hs
    · exact hs
    · subst hr
      have hnone : r.bid = none := hstep
      simp [hnone] at hbid
  · rw [heq]
    obtain rfl := hlimit r increment maxPending hr
    -- There was room in the lane, and so there was for one more bid.
    have hsize : p.HoldsAtMost limit := by
      intro hashes hnodup hbids
      have := hp.holdsAtMost hashes hnodup hbids
      have := hroom (Nat.succ_pos limit)
      omega
    exact hsize.enlist
  · rw [heq]
    exact (h.erase hp hold holdbid).enlist

/-- The number of bids that the auction lane lists. -/
private theorem HoldsAtMost.countP_ordered_le {limit : Nat} (h : p.HoldsAtMost limit)
    (hp : p.Valid) : (p.ordered .auction).countP (fun r => r.bid.isSome) ≤ limit := by
  rw [List.countP_eq_length_filter, ← List.length_map PendingTx.hash]
  apply h
  · exact hp.nodup_hashes_ordered.sublist (List.filter_sublist.map PendingTx.hash)
  · intro hash hmem
    obtain ⟨r, hr, rfl⟩ := List.mem_map.mp hmem
    obtain ⟨hr, hbid⟩ := List.mem_filter.mp hr
    exact ⟨r, (hp.mem_ordered_iff.mp hr).1, hbid⟩

/-- The auction lane holds nothing but bids. -/
def OnlyBids (p : Pool) : Prop :=
  ∀ hash r, p.arena.get? hash = some r → r.lane = .auction → r.bid.isSome

/-- Operations add nothing but bids to the auction lane, if nothing else is inserted there. -/
theorem OnlyBids.apply {step : Step} (h : p.OnlyBids) (hp : p.Valid) (hstep : step.IsProper)
    (hinsert : ∀ r, step = .insert r → r.lane ≠ .auction) : (step.apply p).OnlyBids := by
  intro hash s hs hlane
  obtain ⟨hashes, heq⟩ | ⟨r, hr, -, heq⟩ | ⟨r, -, -, -, hbid, -, -, heq⟩ |
    ⟨r, -, -, old, -, hbid, -, -, -, heq⟩ := hp.apply_cases hstep
  · rw [heq, hp.get?_eraseAll_eq_some_iff] at hs
    exact h hash s hs.2 hlane
  · obtain hs | rfl := get?_enlist_cases (heq ▸ hs)
    · exact h hash s hs hlane
    · exact absurd hlane (hinsert r hr)
  · obtain hs | rfl := get?_enlist_cases (heq ▸ hs)
    · exact h hash s hs hlane
    · exact hbid
  · obtain hs | rfl := get?_enlist_cases (heq ▸ hs)
    · exact h hash s (hp.get?_erase_eq_some_iff.mp hs).2 hlane
    · exact hbid

/-- An auction lane of nothing but bids is as long as there are bids. -/
private theorem HoldsAtMost.size_auction_le {limit : Nat} (h : p.HoldsAtMost limit) (hp : p.Valid)
    (honly : p.OnlyBids) : p.auction.size ≤ limit := by
  rw [LaneIndex.size, ← Std.ExtTreeMap.length_keys]
  apply h _ Std.ExtTreeMap.nodup_keys
  intro hash hmem
  rw [Std.ExtTreeMap.mem_keys, Std.ExtTreeMap.mem_iff_isSome_getElem?, ← index_auction,
    (hp.index .auction).positions_eq, Option.isSome_iff_exists] at hmem
  obtain ⟨position, hposition⟩ := hmem
  obtain ⟨r, hr, hlane, -⟩ := place?_eq_some_iff.mp hposition
  exact ⟨r, hr, honly hash r hr hlane⟩

/-! ### The theorem -/

/-- The maps of a pool that operations lead to are consistent. If every bid is inserted under one
limit, no more bids than that are pending; and if nothing but bids is inserted into the auction
lane, that bounds the size of the lane. -/
theorem ofSteps_consistent {ranking : Ranking} {steps : List Step}
    (hproper : ∀ step ∈ steps, step.IsProper) :
    (ofSteps ranking steps).Consistent ∧ (ofSteps ranking steps).ranking = ranking ∧
    ∀ limit, 0 < limit →
      (∀ r increment maxPending, .insertBid r increment maxPending ∈ steps → maxPending = limit) →
      ((ofSteps ranking steps).ordered .auction).countP (fun r => r.bid.isSome) ≤ limit ∧
      ((∀ r, .insert r ∈ steps → r.lane ≠ .auction) →
        (ofSteps ranking steps).auction.size ≤ limit) := by
  have hvalid : (ofSteps ranking steps).Valid ∧ (ofSteps ranking steps).ranking = ranking :=
    ofSteps_induction (I := fun p => p.ranking = ranking) hproper rfl
      fun p step hmem hp h => (hp.ranking_apply (hproper step hmem)).trans h
  refine ⟨hvalid.1.consistent, hvalid.2, ?_⟩
  intro limit hpos hlimit
  obtain ⟨limit, rfl⟩ := Nat.exists_eq_add_one.mpr hpos
  -- That no more bids are pending than the limit allows is an invariant of the run.
  have hbound : (ofSteps ranking steps).HoldsAtMost (limit + 1) := by
    refine (ofSteps_induction (I := fun p => p.HoldsAtMost (limit + 1)) hproper ?_ ?_).2
    · intro hashes hnodup hbids
      exact Nat.le_trans ((valid_ofRanking ranking).holdsAtMost hashes hnodup hbids) (Nat.zero_le _)
    · intro p step hmem hp h
      apply h.apply hp (hproper step hmem)
      intro r increment maxPending heq
      exact hlimit r increment maxPending (heq ▸ hmem)
  -- If only bids are inserted into the lane, its size is their number.
  refine ⟨hbound.countP_ordered_le hvalid.1, ?_⟩
  intro hinsert
  apply hbound.size_auction_le hvalid.1
  refine (ofSteps_induction (I := OnlyBids) hproper ?_ ?_).2
  · intro hash r hr
    simp [ofRanking, Arena.empty, Arena.get?] at hr
  · intro p step hmem hp h
    apply h.apply hp (hproper step hmem)
    intro r heq
    exact hinsert r (heq ▸ hmem)

/-- A free transaction, and a bid on a bundle that names one hash twice, which is outbid by half. -/
def outbid : List Step :=
  let bid (hash : UInt8) (price : Amount) : PendingTx :=
    { hash := .replicate hash
      raw := []
      tx := default
      lane := .auction
      arrival := 0
      bid := some ⟨.zero, ⟨price, "stake"⟩, [.replicate 7, .replicate 7], .zero⟩ }
  [.insert ⟨.replicate 1, [], default, .free, 0, none⟩,
    .insertBid (bid 2 ⟨100, by decide⟩) ⟨⟨50, by decide⟩, "stake"⟩ 1,
    .insertBid (bid 3 ⟨150, by decide⟩) ⟨⟨50, by decide⟩, "stake"⟩ 1,
    .dropExpired 0]

/-- A pool in which a bid is outbid, at a limit of one bid, is consistent and holds one. -/
theorem ofSteps_consistent_outbid :
    (∀ step ∈ outbid, step.IsProper) ∧ (ofSteps default outbid).Consistent ∧
      (ofSteps default outbid).auction.size ≤ 1 := by
  have hproper : ∀ step ∈ outbid, step.IsProper := by decide
  have hlimit : ∀ r increment maxPending,
      .insertBid r increment maxPending ∈ outbid → maxPending = 1 := by
    intro r increment maxPending h
    simp only [outbid, List.mem_cons, Step.insertBid.injEq, reduceCtorEq, List.not_mem_nil,
      false_or, or_false] at h
    obtain ⟨-, -, rfl⟩ | ⟨-, -, rfl⟩ := h <;> rfl
  have hlanes : ∀ r, .insert r ∈ outbid → r.lane ≠ .auction := by
    simp [outbid]
  have h := @ofSteps_consistent default outbid hproper
  exact ⟨hproper, h.1, (h.2.2 1 (by decide) hlimit).2 hlanes⟩

end Pool

end LaneAuction
