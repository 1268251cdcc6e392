import LaneAuction.Proofs.Engine.Chain
import LaneAuction.Proofs.Pool.Run

/-!
# What is pending was admitted

A submission fails and changes nothing, or enlists one record that is admitted: decoded, signed,
under its own hash and in the lane of its kind (`Filed.submit_cases`). All other calls take
transactions out of the pool or leave it alone (`Filed.pool_apply_cases`). So whatever the calls, an
engine is filed (`Filed.after`).

One thing that is not checked is that no bid is part of its own bundle. A bid's transaction holds
the whole bundle, so this can fail only where two byte strings have one hash. An engine is valid if
it holds, and stays so under calls for which it does (`Valid.after`).
-/

namespace LaneAuction

namespace Engine

/-- A record as an engine admits it. -/
structure Admitted (config : Config) (isSigned : Transaction → Bool) (r : PendingTx) : Prop where
  hash_eq : r.hash = Transaction.hash r.raw
  decode : Transaction.decode r.raw = .ok r.tx
  signed : isSigned r.tx
  lane_eq : r.lane = LaneKind.ofTransaction config.free.exempt r.tx
  bid_eq : r.bid = r.tx.bid?.map PendingBid.ofOffer
  isSome_bid : r.lane = .auction → r.bid.isSome

/-- The pool is filed, ranked by the configuration, and holds what the engine admits; and no two
lanes have one id. -/
structure Filed (e : Engine) : Prop where
  pool : e.pool.Filed
  ranking : e.pool.ranking = .ofConfig e.config
  admitted : ∀ hash r, e.pool.arena.get? hash = some r → Admitted e.config e.isSigned r
  ids : (e.registry.lanes.map Lane.id).Nodup

/-- The engine is filed, and no pending bid bundles itself. -/
structure Valid (e : Engine) : Prop extends e.Filed where
  notOwn : ∀ {hash r}, e.pool.arena.get? hash = some r → hash ∉ r.bundle

variable {e : Engine} {config : Config} {isSigned : Transaction → Bool} {call : Call}
  {calls : List Call} {r : PendingTx} {raw : Bytes} {tx : Transaction} {height : UInt64}
  {ledger : LedgerView}

/-- The number of its arrival is no part of what a record is admitted for. -/
theorem Admitted.withArrival (h : Admitted config isSigned r) (arrival : Nat) :
    Admitted config isSigned { r with arrival } :=
  ⟨h.hash_eq, h.decode, h.signed, h.lane_eq, h.bid_eq, h.isSome_bid⟩

/-- An engine that is started has nothing pending, so it is filed. -/
theorem filed_ofConfig (h : ofConfig config isSigned = .ok e) : e.Filed := by
  obtain ⟨-, registry, hregistry, rfl⟩ := ofConfig_eq_ok_iff.mp h
  constructor
  case pool => exact Pool.filed_ofRanking _
  case ranking => rfl
  case admitted =>
    intro hash r hr
    simp [Pool.ofRanking, Arena.empty, Arena.get?] at hr
  case ids => exact Registry.nodup_ids_of_ofLanes hregistry

/-- An engine that is started has nothing pending, so no bid bundles itself. -/
theorem valid_ofConfig (h : ofConfig config isSigned = .ok e) : e.Valid where
  toFiled := filed_ofConfig h
  notOwn hr := by
    obtain ⟨-, registry, -, rfl⟩ := ofConfig_eq_ok_iff.mp h
    simp [Pool.ofRanking, Arena.empty, Arena.get?] at hr

/-! ### Submissions -/

/-- What a step that admits a record can come to: it fails and changes nothing, or the record is
enlisted, for which the pending bid under its key is taken out. -/
def Enlists {α : Type} (e : Engine) (r : PendingTx) (answer : α)
    (outcome : Except Rejection α × Engine) : Prop :=
  (∃ cause, outcome = (.error cause, e)) ∨
  (e.pool.CanEnlist r ∧ outcome = (.ok answer, { e with pool := e.pool.enlist r })) ∨
  ∃ old key, e.pool.arena.get? old.hash = some old ∧ old.key? = some key ∧ r.key? = some key ∧
    (e.pool.erase old.hash).CanEnlist r ∧
    outcome = (.ok answer, { e with pool := (e.pool.erase old.hash).enlist r })

/-- Inserting a transaction without a bid enlists it, or fails and changes nothing. -/
private theorem insert_enlists {α : Type} (e : Engine) (hbid : r.bid = none) (answer : α) :
    e.Enlists r answer ((do onPool (Pool.insert r); pure answer).run.run e) := by
  rw [ExceptT.run_run_bind, run_onPool]
  obtain ⟨cause, heq⟩ | ⟨hcan, heq⟩ := Pool.run_insert e.pool hbid
  · rw [heq]
    exact .inl ⟨cause, rfl⟩
  · rw [heq]
    exact .inr (.inl ⟨hcan, rfl⟩)

/-- Inserting a bid enlists it, also in the place of a pending one, or fails and changes nothing. -/
private theorem Filed.insertBid_enlists {α : Type} (he : e.Filed) (hlane : r.lane = .auction)
    (increment : Coin) (maxPending : Nat) (answer : α) : e.Enlists r answer
      (match (Pool.insertBid r increment maxPending).run.run e.pool with
      | (.ok _, p) => (.ok answer, { e with pool := p })
      | (.error cause, p) => (.error cause, { e with pool := p })) := by
  obtain ⟨cause, heq⟩ | ⟨-, -, hcan, heq⟩ |
    ⟨bid, old, previous, hbid, hold, hprevious, hkey, -, hcan, heq⟩ :=
      he.pool.run_insertBid hlane increment maxPending
  · rw [heq]
    exact .inl ⟨cause, rfl⟩
  · rw [heq]
    exact .inr (.inl ⟨hcan, rfl⟩)
  · rw [heq]
    refine .inr (.inr ⟨old, bid.key, hold, ?_, ?_, hcan, rfl⟩)
    · rw [PendingTx.key?, hprevious, Option.map_some, hkey]
    · rw [PendingTx.key?, hbid, Option.map_some]

/-- What a raw transaction is pending as. -/
def record (e : Engine) (raw : Bytes) (tx : Transaction) : PendingTx :=
  ⟨Transaction.hash raw, raw, tx, LaneKind.ofTransaction e.config.free.exempt tx, 0,
    tx.bid?.map PendingBid.ofOffer⟩

@[simp] theorem hash_record (e : Engine) (raw : Bytes) (tx : Transaction) :
    (e.record raw tx).hash = Transaction.hash raw := rfl

/-- What is pending for a raw transaction has the key of its bid. -/
theorem key?_record_eq_some_iff {key : BidKey} :
    (e.record raw tx).key? = some key ↔ ∃ offer, tx.bid? = some offer ∧ offer.key = key := by
  rw [PendingTx.key?, record, Option.map_map, Option.map_eq_some_iff]
  rfl

/-- A transaction with a bid passes all checks in front of the pool. -/
structure ReachesPool (e : Engine) (raw : Bytes) (tx : Transaction) (height : UInt64)
    (ledger : LedgerView) : Prop where
  signed : e.isSigned tx
  lane : (e.registry.find? (e.config.laneId .auction)).isSome
  admissible : ∃ chunk,
    (e.context height ledger e.pool.arena.isPending).pendingChunk (e.record raw tx) = .ok chunk

/-- A transaction with a bid fails in front of the pool, or is left to it. -/
theorem run_submit_bid_cases (hdecode : Transaction.decode raw = .ok tx) (hbid : tx.containsBid) :
    (¬ e.ReachesPool raw tx height ledger ∧
      ∃ cause, (submit raw height ledger).run.run e = (.error cause, e)) ∨
    (e.ReachesPool raw tx height ledger ∧ (submit raw height ledger).run.run e =
      match (Pool.insertBid (e.record raw tx) e.params.increment
          e.config.auction.maxPending.toNat).run.run e.pool with
      | (.ok _, p) => (.ok (Transaction.hash raw), { e with pool := p })
      | (.error cause, p) => (.error cause, { e with pool := p })) := by
  have hkind : LaneKind.ofTransaction e.config.free.exempt tx = .auction :=
    LaneKind.ofTransaction_eq_auction_iff.mpr hbid
  simp only [submit, ExceptT.run_run_bind, ExceptT.run_run_get, ExceptT.run_run_liftM, hdecode,
    Except.mapError_ok, ExceptT.run_run_check, hkind]
  -- The checks in their order. The first that fails decides, and nothing has been changed then.
  cases hsigned : e.isSigned tx with
  | false => exact .inl ⟨fun h => absurd h.signed (by simp [hsigned]), _, rfl⟩
  | true =>
  cases hlane : e.registry.find? (e.config.laneId .auction) with
  | none => exact .inl ⟨fun h => absurd h.lane (by simp [hlane]), _, rfl⟩
  | some lane =>
  -- The shape of the bid and the rules for it; together they say that the record is admissible.
  cases hcandidate : BidCandidate.ofTransaction (Transaction.hash raw) raw tx with
  | error cause =>
    refine .inl ⟨fun h => ?_, cause, rfl⟩
    obtain ⟨chunk, hchunk⟩ := h.admissible
    rw [LaneContext.pendingChunk, record, hcandidate] at hchunk
    exact nomatch hchunk
  | ok bid =>
    obtain ⟨offer, hoffer, rfl⟩ := BidCandidate.ofTransaction_eq_ok_iff.mp hcandidate
    -- The record that the pool is asked to file, with the price and the bundle of the offer.
    have hrecord : e.record raw tx =
        ⟨Transaction.hash raw, raw, tx, .auction, 0, some (.ofOffer offer)⟩ := by
      rw [record, hkind, hoffer, Option.map_some]
    have hadmissible : (e.context height ledger e.pool.arena.isPending).pendingChunk
          (e.record raw tx) =
        (e.context height ledger e.pool.arena.isPending).chunk
          ⟨Transaction.hash raw, raw, tx, offer⟩ := by
      rw [LaneContext.pendingChunk, record, hcandidate, Except.ok_bind]
    cases hchunk : (e.context height ledger e.pool.arena.isPending).chunk
        ⟨Transaction.hash raw, raw, tx, offer⟩ with
    | error cause =>
      refine .inl ⟨fun h => ?_, cause, ?_⟩
      · obtain ⟨chunk, hok⟩ := h.admissible
        rw [hadmissible, hchunk] at hok
        exact nomatch hok
      · simp only [ExceptT.run_run_bind, ExceptT.run_run_liftM, submitBid, ExceptT.run_run_get,
          hchunk]
        rfl
    | ok chunk =>
      -- From here on the pool has the word.
      refine .inr ⟨⟨hsigned, by rw [hlane]; rfl, chunk, hadmissible.trans hchunk⟩, ?_⟩
      simp only [ExceptT.run_run_bind, ExceptT.run_run_liftM, submitBid, ExceptT.run_run_get,
        hchunk, run_onPool, ← hrecord]
      rcases (Pool.insertBid (e.record raw tx) e.params.increment
        e.config.auction.maxPending.toNat).run.run e.pool with ⟨_ | _, _⟩ <;> rfl

/-- Only a transaction that has a bid passes the checks for bids. -/
private theorem ReachesPool.exists_bid (h : e.ReachesPool raw tx height ledger) :
    ∃ offer, tx.bid? = some offer := by
  obtain ⟨chunk, hchunk⟩ := h.admissible
  rw [LaneContext.pendingChunk, Except.bind_eq_ok_iff] at hchunk
  obtain ⟨bid, hcandidate, -⟩ := hchunk
  obtain ⟨offer, hoffer, -⟩ := BidCandidate.ofTransaction_eq_ok_iff.mp hcandidate
  exact ⟨offer, hoffer⟩

/-- A bid that is submitted successfully has passed all checks in front of the pool. -/
theorem reachesPool_of_submit {hash : Hash} (hdecode : Transaction.decode raw = .ok tx)
    (hbid : tx.containsBid) (h : ((submit raw height ledger).run.run e).1 = .ok hash) :
    e.ReachesPool raw tx height ledger := by
  obtain ⟨-, cause, heq⟩ | ⟨hreaches, -⟩ := run_submit_bid_cases hdecode hbid
  · rw [heq] at h
    exact nomatch h
  · exact hreaches

/-- What is pending outside the auction has no bid. -/
private theorem bid_record_eq_none
    (hkind : LaneKind.ofTransaction e.config.free.exempt tx ≠ .auction) :
    (e.record raw tx).bid = none := by
  rw [record, LaneKind.bid?_eq_none_of_ne_auction hkind]
  rfl

/-- A transaction that is no bid fails in front of the pool, or is inserted: the free and the base
lane do so in the same way. -/
theorem run_submit_plain_cases (hdecode : Transaction.decode raw = .ok tx)
    (hkind : LaneKind.ofTransaction e.config.free.exempt tx ≠ .auction) :
    (¬ (e.isSigned tx ∧ (e.registry.find?
        (e.config.laneId (LaneKind.ofTransaction e.config.free.exempt tx))).isSome) ∧
      ∃ cause, (submit raw height ledger).run.run e = (.error cause, e)) ∨
    ((e.isSigned tx ∧ (e.registry.find?
        (e.config.laneId (LaneKind.ofTransaction e.config.free.exempt tx))).isSome) ∧
      (submit raw height ledger).run.run e = (do
        onPool (Pool.insert (e.record raw tx))
        pure (Transaction.hash raw) : EngineAction Hash).run.run e) := by
  have hrecord : e.record raw tx = ⟨Transaction.hash raw, raw, tx,
      LaneKind.ofTransaction e.config.free.exempt tx, 0, none⟩ := by
    rw [record, LaneKind.bid?_eq_none_of_ne_auction hkind]
    rfl
  simp only [submit, ExceptT.run_run_bind, ExceptT.run_run_get, ExceptT.run_run_liftM, hdecode,
    Except.mapError_ok, ExceptT.run_run_check]
  -- Only the signature and the lane can be refused in front of the pool.
  cases hsigned : e.isSigned tx with
  | false => exact .inl ⟨fun h => Bool.false_ne_true h.1, _, rfl⟩
  | true =>
  cases hlane : e.registry.find?
      (e.config.laneId (LaneKind.ofTransaction e.config.free.exempt tx)) with
  | none => exact .inl ⟨fun h => Bool.false_ne_true h.2, _, rfl⟩
  | some lane =>
    refine .inr ⟨⟨rfl, rfl⟩, ?_⟩
    rw [hrecord]
    -- Free and base transactions are inserted in the same way, each under its lane.
    cases hlaneKind : LaneKind.ofTransaction e.config.free.exempt tx with
    | auction => exact absurd hlaneKind hkind
    | free | base => rfl

/-- A submission fails and changes nothing, or admits its record and comes to one of the outcomes of
enlisting it. -/
theorem Filed.submit_enlists (he : e.Filed) (raw : Bytes) (height : UInt64) (ledger : LedgerView) :
    (∃ cause, (submit raw height ledger).run.run e = (.error cause, e)) ∨
      ∃ tx, Admitted e.config e.isSigned (e.record raw tx) ∧
        e.Enlists (e.record raw tx) (Transaction.hash raw)
          ((submit raw height ledger).run.run e) := by
  cases hdecode : Transaction.decode raw with
  | error cause =>
    simp only [submit, ExceptT.run_run_bind, ExceptT.run_run_get, ExceptT.run_run_liftM, hdecode]
    exact .inl ⟨_, rfl⟩
  | ok tx =>
  -- A bid and a plain transaction pass different checks, and are filed in one way.
  by_cases hkind : LaneKind.ofTransaction e.config.free.exempt tx = .auction
  · have hbid := LaneKind.ofTransaction_eq_auction_iff.mp hkind
    obtain ⟨-, herror⟩ | ⟨hreaches, heq⟩ := run_submit_bid_cases hdecode hbid
    · exact .inl herror
    · obtain ⟨offer, hoffer⟩ := hreaches.exists_bid
      refine .inr ⟨tx, ⟨rfl, hdecode, hreaches.signed, rfl, rfl, fun _ => ?_⟩, ?_⟩
      · rw [record, hoffer]
        rfl
      · rw [heq]
        exact he.insertBid_enlists hkind _ _ _
  -- A plain transaction has no bid, and nothing to supersede.
  · obtain ⟨-, herror⟩ | ⟨⟨hsigned, -⟩, heq⟩ := run_submit_plain_cases hdecode hkind
    · exact .inl herror
    · refine .inr ⟨tx, ⟨rfl, hdecode, hsigned, rfl, rfl, fun h => absurd h hkind⟩, ?_⟩
      rw [heq]
      exact e.insert_enlists (bid_record_eq_none hkind) _

/-- A submission fails and changes nothing, or its record is admitted and enlisted, for which the
pending bid under its key is taken out. -/
theorem Filed.submit_cases (he : e.Filed) (raw : Bytes) (height : UInt64) (ledger : LedgerView) :
    (∃ cause, (submit raw height ledger).run.run e = (.error cause, e)) ∨
    ∃ tx, Admitted e.config e.isSigned (e.record raw tx) ∧
      (e.pool.CanEnlist (e.record raw tx) ∧ (submit raw height ledger).run.run e =
          (.ok (Transaction.hash raw), { e with pool := e.pool.enlist (e.record raw tx) }) ∨
        ∃ old key, e.pool.arena.get? old.hash = some old ∧ old.key? = some key ∧
          (e.record raw tx).key? = some key ∧
          (e.pool.erase old.hash).CanEnlist (e.record raw tx) ∧
          (submit raw height ledger).run.run e = (.ok (Transaction.hash raw),
            { e with pool := (e.pool.erase old.hash).enlist (e.record raw tx) })) := by
  obtain herror | ⟨tx, hadmitted, henlists⟩ := he.submit_enlists raw height ledger
  · exact .inl herror
  obtain herror | henlists := henlists
  · exact .inl herror
  · exact .inr ⟨tx, hadmitted, henlists⟩

/-- A raw transaction is no bid, is signed and finds its lane. -/
def Welcomes (e : Engine) (raw : Bytes) : Prop :=
  ∃ tx, Transaction.decode raw = .ok tx ∧ e.isSigned tx ∧
    LaneKind.ofTransaction e.config.free.exempt tx ≠ .auction ∧
    (e.registry.find? (e.config.laneId (LaneKind.ofTransaction e.config.free.exempt tx))).isSome

/-- What is no bid is admitted if nothing is pending under its hash and no pending bundle holds
it. -/
theorem Welcomes.run_submit (h : e.Welcomes raw)
    (hnew : e.pool.arena.isPending (Transaction.hash raw) = false)
    (hclaimed : e.pool.arena.isClaimed (Transaction.hash raw) = false) (height : UInt64)
    (ledger : LedgerView) :
    ∃ tx, (e.record raw tx).bid = none ∧ e.pool.CanEnlist (e.record raw tx) ∧
      (submit raw height ledger).run.run e =
        (.ok (Transaction.hash raw), { e with pool := e.pool.enlist (e.record raw tx) }) := by
  obtain ⟨tx, hdecode, hsigned, hkind, hlane⟩ := h
  have hbid : (e.record raw tx).bid = none := bid_record_eq_none hkind
  have hadmits : e.pool.arena.Admits (e.record raw tx) := by
    refine ⟨hnew, hclaimed, fun hash hmem => ?_⟩
    rw [PendingTx.bundle_of_bid_eq_none hbid] at hmem
    exact absurd hmem List.not_mem_nil
  refine ⟨tx, hbid, ⟨hadmits, by simp [hbid], by simp [PendingTx.key?, hbid]⟩, ?_⟩
  obtain ⟨hnot, -⟩ | ⟨-, heq⟩ := run_submit_plain_cases hdecode hkind
  · exact absurd ⟨hsigned, hlane⟩ hnot
  · rw [heq, ExceptT.run_run_bind, run_onPool, Pool.run_insert_eq,
      Pool.run_place_insert_of_admits hadmits]
    rfl

/-! ### Calls -/

/-- A committed block takes transactions out of the pool. -/
theorem Filed.exists_poolAfter_eq (he : e.Filed) (height : UInt64) (raws : List Bytes) :
    ∃ hashes, e.poolAfter height raws = e.pool.eraseAll hashes := by
  have hpool := he.pool.eraseAll (raws.map Transaction.hash)
  obtain ⟨hashes, hdropped⟩ : ∃ hashes,
      (e.pool.eraseAll (raws.map Transaction.hash)).dropOverlapping (raws.map Transaction.hash) =
        e.pool.eraseAll hashes :=
    ⟨_, hpool.dropOverlapping_eq_eraseAll.trans (Pool.eraseAll_append _ _ _).symm⟩
  rw [poolAfter, hdropped]
  exact ⟨_, (he.pool.eraseAll hashes).dropExpired_eq_eraseAll.trans
    (Pool.eraseAll_append _ _ _).symm⟩

/-- A call takes transactions out of the pool, none at all among the cases, and a submission then
may enlist its record. -/
theorem Filed.pool_apply_cases (he : e.Filed) (call : Call) : ∃ hashes,
    (call.apply e).pool = e.pool.eraseAll hashes ∨
    ∃ raw height ledger tx, call = .submit raw height ledger ∧
      Admitted e.config e.isSigned (e.record raw tx) ∧
      (e.pool.eraseAll hashes).CanEnlist (e.record raw tx) ∧
      (call.apply e).pool = (e.pool.eraseAll hashes).enlist (e.record raw tx) := by
  cases call with
  | submit raw height ledger =>
    rw [Call.apply]
    obtain ⟨cause, heq⟩ | ⟨tx, hadmitted, ⟨hcan, heq⟩ | ⟨old, key, -, -, -, hcan, heq⟩⟩ :=
      he.submit_cases raw height ledger
    · exact ⟨[], .inl (by rw [heq]; rfl)⟩
    · exact ⟨[], .inr ⟨raw, height, ledger, tx, rfl, hadmitted, hcan, by rw [heq]; rfl⟩⟩
    · -- A bid that supersedes another is filed when the other is gone.
      exact ⟨[old.hash], .inr ⟨raw, height, ledger, tx, rfl, hadmitted, hcan, by rw [heq]; rfl⟩⟩
  -- Building takes out what it refused, and nothing else.
  | prepare maxBytes maxGas height ledger =>
    exact ⟨_, .inl (by rw [Call.apply, prepare_eq])⟩
  | commit height raws =>
    obtain ⟨hashes, heq⟩ := he.exists_poolAfter_eq height raws
    exact ⟨hashes, .inl heq⟩
  | registerLane caller lane => exact ⟨[], .inl (pool_apply_registerLane e caller lane)⟩
  | updateLane caller lane => exact ⟨[], .inl (pool_apply_updateLane e caller lane)⟩
  | updateParams caller params => exact ⟨[], .inl (pool_apply_updateParams e caller params)⟩

/-- Every call keeps an engine filed. -/
theorem Filed.apply (he : e.Filed) (call : Call) : (call.apply e).Filed := by
  obtain ⟨hashes, hpool⟩ := he.pool_apply_cases call
  have herased := he.pool.eraseAll hashes
  -- A call leaves a part of the pool, to which a submission adds an admitted record.
  constructor
  case pool =>
    obtain heq | ⟨_, _, _, _, -, -, hcan, heq⟩ := hpool
    · rw [heq]
      exact herased
    · rw [heq]
      exact herased.enlist hcan
  case ranking =>
    rw [config_apply, ← he.ranking]
    obtain heq | ⟨_, _, _, _, -, -, -, heq⟩ := hpool <;> simp [heq]
  case admitted =>
    rw [config_apply, isSigned_apply]
    intro hash r hr
    -- A record that is left was admitted before; a new one is, under its number.
    obtain heq | ⟨_, _, _, _, -, hadmitted, -, heq⟩ := hpool
    · rw [heq, he.pool.get?_eraseAll_eq_some_iff] at hr
      exact he.admitted hash r hr.2
    · rw [heq] at hr
      obtain hr | rfl := Pool.get?_enlist_cases hr
      · exact he.admitted hash r (he.pool.get?_eraseAll_eq_some_iff.mp hr).2
      · exact hadmitted.withArrival _
  -- Governance alone changes the lanes, and keeps their ids apart.
  case ids =>
    obtain ⟨_, heq⟩ | ⟨_, _, rfl⟩ | ⟨_, _, _, hregister, heq⟩ | ⟨_, _, _, hupdate, heq⟩ |
      ⟨_, _, -, -, heq⟩ := call.apply_cases e
    · rw [heq]
      exact he.ids
    · exact he.ids
    · rw [heq]
      exact Registry.nodup_ids_of_register hregister he.ids
    · rw [heq]
      exact Registry.nodup_ids_of_update hupdate he.ids
    · rw [heq]
      exact he.ids

/-- Calls keep an engine filed. -/
theorem Filed.after (he : e.Filed) (calls : List Call) : (e.after calls).Filed := by
  induction calls generalizing e with
  | nil => exact he
  | cons call calls ih => exact ih (he.apply call)

/-- A proper submission is of a bid that does not bundle itself, or of no bid. -/
private theorem Call.IsProper.notOwn {raw : Bytes} {tx : Transaction}
    (hcall : (Call.submit raw height ledger).IsProper)
    (hr : Admitted config isSigned (e.record raw tx)) :
    Transaction.hash raw ∉ (e.record raw tx).bundle := by
  rw [PendingTx.bundle, record]
  cases hoffer : tx.bid? with
  | none => exact List.not_mem_nil
  | some offer => exact hcall tx offer hr.decode hoffer

/-- Every proper call keeps an engine valid. -/
theorem Valid.apply (he : e.Valid) (hcall : call.IsProper) : (call.apply e).Valid where
  toFiled := he.toFiled.apply call
  notOwn {hash r} hr := by
    obtain ⟨hashes, heq | ⟨raw, height, ledger, tx, rfl, hadmitted, -, heq⟩⟩ :=
      he.pool_apply_cases call
    · rw [heq, he.pool.get?_eraseAll_eq_some_iff] at hr
      exact he.notOwn hr.2
    · rw [heq, Pool.get?_enlist] at hr
      split at hr
      · next hhash =>
        obtain rfl := Option.some.inj hr
        rw [← hhash]
        exact hcall.notOwn hadmitted
      · exact he.notOwn (he.pool.get?_eraseAll_eq_some_iff.mp hr).2

/-- Proper calls keep an engine valid. -/
theorem Valid.after (he : e.Valid) (hcalls : ∀ call ∈ calls, call.IsProper) :
    (e.after calls).Valid := by
  induction calls generalizing e with
  | nil => exact he
  | cons call calls ih =>
    obtain ⟨hcall, hcalls⟩ := List.forall_mem_cons.mp hcalls
    exact ih (he.apply hcall) hcalls

end Engine

end LaneAuction
