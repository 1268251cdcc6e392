import LaneAuction.Proofs.Block.Bids
import LaneAuction.Proofs.Engine.Admitted
import LaneAuction.Proofs.Engine.Limits

/-!
# The history of cleared bids over a run

Every committed block records its first bid, at its height, and drops what has become too old. Over
a run of calls the entry of a key depends on what was recorded for the key alone: it is there as
long as the last recording is young enough (`Tracks`), with the highest price recorded since it was
last absent (`HoldsHighest`). As long as it is there, no bid is admitted that does not raise the
price (`cleared_history`).
-/

namespace LaneAuction

/-- One of the messages of a raw transaction is a bid. -/
def Transaction.Bids (raw : Bytes) (offer : BundleBid) : Prop :=
  ∃ tx, decode raw = .ok tx ∧ Message.bid offer ∈ tx.body.messages

/-- The entry of a key in the genesis. -/
def Genesis.clearing? (g : Genesis) (key : BidKey) : Option Clearing :=
  (g.clearedBids.find? fun bid => bid.key = key).map fun bid => ⟨bid.price, bid.height⟩

namespace Engine

/-- The height of a committed block. -/
def Call.height? : Call → Option UInt64
  | commit height _ => some height
  | _ => none

/-- What a call records for a key: the price and the height of a committed block, if its first bid
is under the key. -/
def Call.recording? (key : BidKey) : Call → Option Clearing
  | commit height raws =>
    ((winningBid? raws).filter fun bid => bid.key = key).map fun bid => ⟨bid.price, height⟩
  | _ => none

/-- All that was ever recorded for a key: by the genesis, then by the calls. -/
def recordings (genesis : Genesis) (key : BidKey) (calls : List Call) : List Clearing :=
  (genesis.clearing? key).toList ++ calls.filterMap (Call.recording? key)

/-- What was recorded for a key since the history last had no entry for it, if `recorded` was before
the calls. -/
def recordedSince (key : BidKey) : Engine → (recorded : List Clearing) → List Call → List Clearing
  | _, recorded, [] => recorded
  | e, recorded, call :: calls =>
    let next := call.apply e
    if (next.cleared.price? key).isSome then
      recordedSince key next (recorded ++ (call.recording? key).toList) calls
    else recordedSince key next [] calls

variable {e start : Engine} {config : Config} {isSigned : Transaction → Bool} {call : Call}
  {calls : List Call} {key : BidKey} {retention last height : UInt64} {recorded : List Clearing}
  {entry new : Option Clearing}

/-! ### The entry of a key -/

/-- Only a commit changes the history. -/
private theorem cleared_apply (e : Engine) (h : call.height? = none) :
    (call.apply e).cleared = e.cleared := by
  obtain ⟨_, heq⟩ | ⟨_, _, rfl⟩ | ⟨_, _, _, -, heq⟩ | ⟨_, _, _, -, heq⟩ | ⟨_, _, -, -, heq⟩ :=
    call.apply_cases e
  case inr.inl => exact nomatch h
  all_goals rw [heq]

/-- Only a commit records a clearing. -/
private theorem recording?_eq_none (h : call.height? = none) : call.recording? key = none := by
  cases call with
  | commit height raws => exact nomatch h
  | _ => rfl

/-- A clearing is recorded at the height of its block. -/
private theorem height_of_recording? {c : Clearing} (h : (call.recording? key) = some c) :
    call.height? = some c.height := by
  cases call with
  | commit height raws =>
    obtain ⟨bid, -, rfl⟩ := Option.map_eq_some_iff.mp h
    rfl
  | _ => exact nomatch h

/-- A block records its first bid, and then what has become too old is dropped. -/
private theorem get?_cleared_apply (e : Engine) (key : BidKey) (h : call.height? = some height) :
    (call.apply e).cleared.get? key =
      (ClearedBids.joined (e.cleared.get? key) (call.recording? key)).filter fun clearing =>
        height < clearing.height.addSat e.params.retention := by
  cases call with
  | commit height' raws =>
    obtain rfl := Option.some.inj h
    show (e.clearedAfter height' raws).get? key = _
    rw [clearedAfter, ClearedBids.get?_prune, Call.recording?]
    cases winningBid? raws with
    | none => rfl
    | some bid =>
      by_cases hkey : bid.key = key
      · subst hkey
        simp [ClearedBids.get?_record, Option.filter_some]
      · simp [ClearedBids.get?_record, Option.filter_some, hkey]
  | _ => cases h

/-! ### How long an entry is held -/

/-- The entry of a key, after a block at height `last`, against all that was recorded for the key:
it is at the greatest height recorded, and there as long as that is young enough. -/
structure Tracks (retention last : UInt64) (recorded : List Clearing) (entry : Option Clearing) :
    Prop where
  absent : entry = none → ∀ r ∈ recorded, r.height.toNat + retention.toNat ≤ last.toNat
  latest : ∀ c, entry = some c →
    (∃ r ∈ recorded, r.height = c.height) ∧ ∀ r ∈ recorded, r.height ≤ c.height
  young : ∀ c, entry = some c → last.toNat < c.height.toNat + retention.toNat

/-- An entry is there if and only if the last recording is young enough. -/
private theorem Tracks.isSome_iff (h : Tracks retention last recorded entry) :
    entry.isSome ↔ ∃ latest, (recorded.map fun r => r.height.toNat).max? = some latest ∧
      last.toNat < latest + retention.toNat := by
  cases entry with
  | none =>
    refine ⟨nofun, ?_⟩
    rintro ⟨latest, hlatest, hyoung⟩
    obtain ⟨r, hr, rfl⟩ := List.mem_map.mp (List.max?_eq_some_iff.mp hlatest).1
    have hold := h.absent rfl r hr
    omega
  | some c =>
    obtain ⟨⟨r, hr, heq⟩, hle⟩ := h.latest c rfl
    refine ⟨fun _ => ⟨c.height.toNat, List.max?_eq_some_iff.mpr ⟨?_, ?_⟩, h.young c rfl⟩,
      fun _ => rfl⟩
    · exact List.mem_map.mpr ⟨r, hr, congrArg UInt64.toNat heq⟩
    · exact List.forall_mem_map.mpr fun r hr => UInt64.le_iff_toNat_le.mp (hle r hr)

/-- What the genesis holds for a key is tracked as if it had been recorded. -/
private theorem tracks_toList (hretention : retention ≠ 0) (entry : Option Clearing) :
    Tracks retention 0 entry.toList entry where
  absent h := by simp [h]
  latest c h := by simp [h]
  young c h := by
    have hne : retention.toNat ≠ 0 := fun hzero => hretention (UInt64.toNat_inj.mp hzero)
    rw [UInt64.toNat_zero]
    omega

/-- Where a recording leaves no entry, all that was ever recorded had become too old before. -/
private theorem Tracks.absent_joined (h : Tracks retention last recorded entry)
    (hlast : last ≤ height) (hjoined : ClearedBids.joined entry new = none) :
    ∀ r ∈ recorded ++ new.toList, r.height.toNat + retention.toNat ≤ height.toNat := by
  rw [UInt64.le_iff_toNat_le] at hlast
  cases new with
  | some n => cases entry <;> cases hjoined
  | none =>
    rw [ClearedBids.joined_none] at hjoined
    rw [Option.toList_none, List.append_nil]
    exact fun r hr => Nat.le_trans (h.absent hjoined r hr) hlast

/-- A recording leaves the entry at the greatest height, also where an earlier one was dropped. -/
private theorem Tracks.latest_joined (h : Tracks retention last recorded entry)
    (hlast : last ≤ height) (hnew : ∀ c, new = some c → c.height = height) {c : Clearing}
    (hjoined : ClearedBids.joined entry new = some c) :
    (∃ r ∈ recorded ++ new.toList, r.height = c.height) ∧
      ∀ r ∈ recorded ++ new.toList, r.height ≤ c.height := by
  rw [UInt64.le_iff_toNat_le] at hlast
  cases new with
  -- Nothing is recorded, and the entry stays.
  | none =>
    rw [ClearedBids.joined_none] at hjoined
    rw [Option.toList_none, List.append_nil]
    exact h.latest c hjoined
  | some n =>
    obtain rfl := hnew n rfl
    simp only [Option.toList_some, List.mem_append, List.mem_singleton]
    cases entry with
    | none =>
      rw [ClearedBids.joined_none_some] at hjoined
      obtain rfl := Option.some.inj hjoined
      refine ⟨⟨n, .inr rfl, rfl⟩, ?_⟩
      rintro r (hr | rfl)
      · -- What was dropped was too old at the last block, and is older than the new one.
        have hold := h.absent rfl r hr
        rw [UInt64.le_iff_toNat_le]
        omega
      · exact UInt64.le_refl _
    | some old =>
      obtain ⟨⟨r, hr, hheight⟩, hle⟩ := h.latest old rfl
      rw [ClearedBids.joined_some_some] at hjoined
      obtain rfl := Option.some.inj hjoined
      -- A merged entry has the greater of the two heights.
      obtain ⟨hlt, heq⟩ | ⟨hge, heq⟩ := old.height_join_cases n <;> rw [heq]
      · refine ⟨⟨n, .inr rfl, rfl⟩, ?_⟩
        rintro r (hr | rfl)
        · exact UInt64.le_trans (hle r hr) (UInt64.le_of_lt hlt)
        · exact UInt64.le_refl _
      · refine ⟨⟨r, .inl hr, hheight⟩, ?_⟩
        rintro r (hr | rfl)
        · exact hle r hr
        · exact hge

/-- A block keeps track of what it records. -/
private theorem Tracks.commit (h : Tracks retention last recorded entry) (hlast : last ≤ height)
    (hheight : height < .largest)
    (hnew : ∀ c, new = some c → c.height = height) :
    Tracks retention height (recorded ++ new.toList)
      ((ClearedBids.joined entry new).filter fun c => height < c.height.addSat retention) := by
  have hyoung : ∀ c : Clearing, height < c.height.addSat retention ↔
      height.toNat < c.height.toNat + retention.toNat :=
    fun c => UInt64.lt_addSat_iff hheight
  constructor
  case absent =>
    intro hnone r hr
    cases hj : ClearedBids.joined entry new with
    | none => exact h.absent_joined hlast hj r hr
    | some c =>
      -- The entry is dropped by this block, and it is at the greatest height.
      rw [hj] at hnone
      have hle := UInt64.le_iff_toNat_le.mp ((h.latest_joined hlast hnew hj).2 r hr)
      have hold : ¬ height.toNat < c.height.toNat + retention.toNat := by
        simpa [hyoung] using hnone
      omega
  -- An entry that is kept is the joined one, and it was kept for its age.
  case latest =>
    intro c hc
    exact h.latest_joined hlast hnew (Option.filter_eq_some_iff.mp hc).1
  case young =>
    intro c hc
    exact (hyoung c).mp (by simpa using (Option.filter_eq_some_iff.mp hc).2)

/-- Calls keep track of what they record, if the retention stays and heights do not decrease. -/
theorem Tracks.after (h : Tracks retention last recorded (e.cleared.get? key))
    (hretention : ∀ before, before <+: calls → (e.after before).params.retention = retention)
    (hheights : (last :: calls.filterMap Call.height?).Pairwise (· ≤ ·))
    (hbelow : ∀ height ∈ calls.filterMap Call.height?, height < .largest) :
    Tracks retention ((calls.filterMap Call.height?).getLast?.getD last)
      (recorded ++ calls.filterMap (Call.recording? key)) ((e.after calls).cleared.get? key) := by
  -- What is recorded grows along the calls, and so does the height of the last block.
  induction calls generalizing e last recorded with
  | nil => simpa [Engine.after] using h
  | cons call calls ih =>
    have hrest : ∀ before, before <+: calls →
        ((call.apply e).after before).params.retention = retention := by
      intro before hbefore
      exact hretention (call :: before) (List.cons_prefix_cons.mpr ⟨rfl, hbefore⟩)
    cases hheight : call.height? with
    | none =>
      -- A call that commits no block leaves the history and records nothing.
      rw [List.filterMap_cons_none hheight] at hheights hbelow ⊢
      rw [List.filterMap_cons_none (recording?_eq_none hheight)]
      rw [← cleared_apply e hheight] at h
      exact ih h hrest hheights hbelow
    | some height =>
      rw [List.filterMap_cons_some hheight] at hheights hbelow ⊢
      obtain ⟨hlast, hheights⟩ := List.pairwise_cons.mp hheights
      obtain ⟨hheightBelow, hbelow⟩ := List.forall_mem_cons.mp hbelow
      have hnew : ∀ c, call.recording? key = some c → c.height = height := by
        intro c hc
        have heq := height_of_recording? hc
        rw [hheight] at heq
        exact (Option.some.inj heq).symm
      -- The block is one step: it joins what it records, and prunes by the retention in force.
      have hstep := h.commit (hlast height List.mem_cons_self) hheightBelow hnew
      rw [← show e.params.retention = retention from hretention [] List.nil_prefix,
        ← get?_cleared_apply e key hheight,
        show e.params.retention = retention from hretention [] List.nil_prefix] at hstep
      have hafter := ih hstep hrest hheights hbelow
      rw [List.getLast?_cons, Option.getD_some]
      cases hrecording : call.recording? key with
      | none =>
        rw [hrecording, Option.toList_none, List.append_nil] at hafter
        rwa [List.filterMap_cons_none hrecording]
      | some c =>
        rw [hrecording, Option.toList_some, List.append_assoc] at hafter
        rwa [List.filterMap_cons_some hrecording]

/-! ### The price of an entry -/

/-- The entry of a key against what was recorded since it was last absent: its price was recorded,
and in one denomination no higher one was. -/
structure HoldsHighest (recorded : List Clearing) (entry : Option Clearing) : Prop where
  absent : entry = none → recorded = []
  held : ∀ c, entry = some c → ∃ r ∈ recorded, r.price = c.price
  highest : ∀ c, entry = some c → (∀ r ∈ recorded, r.price.denom = c.price.denom) →
    ∀ r ∈ recorded, r.price.amount ≤ c.price.amount

/-- The price of an entry is the greatest recorded one, if all are in one denomination. -/
private theorem HoldsHighest.max?_eq {c : Clearing} {denom : Denom}
    (h : HoldsHighest recorded (some c)) (hdenom : ∀ r ∈ recorded, r.price.denom = denom) :
    c.price.denom = denom ∧
      (recorded.map fun r => r.price.amount.toNat).max? = some c.price.amount.toNat := by
  obtain ⟨r, hr, hprice⟩ := h.held c rfl
  have hc : c.price.denom = denom := hprice ▸ hdenom r hr
  refine ⟨hc, List.max?_eq_some_iff.mpr ⟨?_, ?_⟩⟩
  · exact List.mem_map.mpr ⟨r, hr, by rw [hprice]⟩
  · exact List.forall_mem_map.mpr (h.highest c rfl fun r hr => (hdenom r hr).trans hc.symm)

/-- What the genesis holds for a key is the highest price recorded so far. -/
private theorem holdsHighest_toList (entry : Option Clearing) :
    HoldsHighest entry.toList entry where
  absent h := by rw [h, Option.toList_none]
  held c h := by simp [h]
  highest c h := by simp [h, Amount.le_def]

/-- A recording keeps the highest price, whichever of the two it is. -/
private theorem HoldsHighest.joined (h : HoldsHighest recorded entry) (new : Option Clearing) :
    HoldsHighest (recorded ++ new.toList) (ClearedBids.joined entry new) := by
  cases new with
  | none => simpa using h
  | some n =>
    cases entry with
    | none =>
      -- Nothing was held, so nothing was recorded before.
      rw [h.absent rfl]
      exact holdsHighest_toList (some n)
    | some old =>
      obtain ⟨r, hr, hprice⟩ := h.held old rfl
      have hall : ∀ P : Clearing → Prop, (∀ r ∈ recorded ++ (some n).toList, P r) ↔
          (∀ r ∈ recorded, P r) ∧ P n := by
        simp [or_imp, forall_and]
      rw [ClearedBids.joined_some_some]
      -- A new price is held only where it raises the old one.
      obtain ⟨hraise, heq⟩ | ⟨hkeep, heq⟩ := old.price_join_cases n
      · constructor
        case absent => exact nofun
        case held =>
          rintro _ ⟨⟩
          exact ⟨n, by simp, heq.symm⟩
        case highest =>
          rintro _ ⟨⟩ hdenom
          rw [heq] at hdenom ⊢
          rw [hall] at hdenom ⊢
          have hold := h.highest old rfl fun r hr => (hdenom.1 r hr).trans hraise.1.symm
          exact ⟨fun r hr => Nat.le_trans (hold r hr) (Nat.le_of_lt hraise.2), Nat.le_refl _⟩
      · constructor
        case absent => exact nofun
        case held =>
          rintro _ ⟨⟩
          exact ⟨r, by simp [hr], hprice.trans heq.symm⟩
        case highest =>
          -- In one denomination, what does not raise the old price is no higher.
          rintro _ ⟨⟩ hdenom
          rw [heq] at hdenom ⊢
          rw [hall] at hdenom ⊢
          have hle := Nat.not_lt.mp fun hlt => hkeep ⟨hdenom.2.symm, hlt⟩
          exact ⟨h.highest old rfl hdenom.1, hle⟩

/-- A call that leaves an entry leaves the highest price in it. -/
private theorem HoldsHighest.apply (h : HoldsHighest recorded (e.cleared.get? key)) (call : Call)
    (hheld : ((call.apply e).cleared.price? key).isSome) :
    HoldsHighest (recorded ++ (call.recording? key).toList) ((call.apply e).cleared.get? key) := by
  cases hheight : call.height? with
  | none =>
    rw [cleared_apply e hheight, recording?_eq_none hheight]
    simpa using h
  | some height =>
    have hjoined := h.joined (call.recording? key)
    rw [ClearedBids.price?_eq, Option.isSome_map] at hheld
    obtain ⟨c, hc⟩ := Option.isSome_iff_exists.mp hheld
    have hget := get?_cleared_apply e key hheight
    rw [hget, Option.filter_eq_some_iff] at hc
    rw [hget, Option.filter_eq_some_iff.mpr hc, ← hc.1]
    exact hjoined

/-- Calls keep the highest price of those recorded since the entry was last absent. -/
theorem HoldsHighest.after (h : HoldsHighest recorded (e.cleared.get? key)) (calls : List Call) :
    HoldsHighest (recordedSince key e recorded calls) ((e.after calls).cleared.get? key) := by
  induction calls generalizing e recorded with
  | nil => exact h
  | cons call calls ih =>
    rw [recordedSince]
    split
    · next hheld => exact ih (h.apply call hheld)
    · next habsent =>
      have hnone : (call.apply e).cleared.get? key = none := by
        simpa [ClearedBids.price?_eq] using habsent
      refine ih ?_
      rw [hnone]
      exact holdsHighest_toList none

/-! ### Admission -/

/-- What is admitted to the pool has passed the check against the history. -/
theorem check_of_submit {raw : Bytes} {offer : BundleBid} {ledger : LedgerView} {hash : Hash}
    (h : ((submit raw height ledger).run.run e).1 = .ok hash) (hbid : Transaction.Bids raw offer) :
    e.cleared.check offer e.params.increment = .ok () := by
  obtain ⟨tx, hdecode, hoffer⟩ := hbid
  obtain ⟨chunk, hchunk⟩ :=
    (reachesPool_of_submit hdecode (Transaction.containsBid_of_mem hoffer) h).admissible
  rw [LaneContext.pendingChunk, Except.bind_eq_ok_iff] at hchunk
  obtain ⟨bid, hcandidate, hchunk⟩ := hchunk
  obtain ⟨winner, hwinner, rfl⟩ := BidCandidate.ofTransaction_eq_ok_iff.mp hcandidate
  obtain rfl := Transaction.eq_of_mem_of_bid? hwinner hoffer
  rw [LaneContext.chunk, Except.bind_eq_ok_iff] at hchunk
  obtain ⟨_, hcheck, -⟩ := hchunk
  exact hcheck

/-- Each lane lists decoded transactions of its kind. -/
private theorem Filed.sorted (he : e.Filed) (ledger : LedgerView) (isPending : Hash → Bool)
    (kind : LaneKind) :
    (e.context height ledger isPending).Sorted kind (e.pool.ordered kind) := by
  intro r hr
  obtain ⟨hget, hlane⟩ := he.pool.mem_ordered_iff.mp hr
  have hadmitted := he.admitted r.hash r hget
  exact ⟨hadmitted.decode, hadmitted.lane_eq.symm.trans hlane⟩

/-- The bids of a proposal pass every check. -/
theorem Filed.takesBid_of_prepare (he : e.Filed) {maxBytes maxGas : UInt64} {ledger : LedgerView}
    {raw : Bytes} {tx : Transaction}
    (hraw : raw ∈ (e.prepare maxBytes maxGas height ledger).1.rawTxs)
    (hdecode : Transaction.decode raw = .ok tx) (hbid : tx.containsBid) :
    (e.context height ledger e.pool.arena.isPending).TakesBid tx := by
  obtain ⟨only, runs, hruns, htxs⟩ := e.exists_fills_of_prepare maxBytes maxGas height ledger
  rw [Proposal.rawTxs, htxs] at hraw
  obtain ⟨b, hb, rfl⟩ := List.mem_map.mp hraw
  exact hruns.takesBid_of_mem (fun kind => he.sorted ledger _ kind) hb hdecode hbid

/-- The bids of a proposal have passed the check against the history. -/
theorem Filed.check_of_prepare (he : e.Filed) {maxBytes maxGas : UInt64} {ledger : LedgerView}
    {raw : Bytes} {offer : BundleBid}
    (hraw : raw ∈ (e.prepare maxBytes maxGas height ledger).1.rawTxs)
    (hbid : Transaction.Bids raw offer) : e.cleared.check offer e.params.increment = .ok () := by
  obtain ⟨tx, hdecode, hoffer⟩ := hbid
  exact (he.takesBid_of_prepare hraw hdecode (Transaction.containsBid_of_mem hoffer)).check hoffer

/-- A bid in one of the raw transactions bundles another one than `raw` with the same hash. -/
def BundlesCollision (raws : List Bytes) (raw : Bytes) : Prop :=
  ∃ other ∈ raws, ∃ offer, Transaction.Bids other offer ∧
    ∃ bundled ∈ offer.bundle, bundled ≠ raw ∧ Transaction.hash bundled = Transaction.hash raw

/-- The bids of an accepted block pass every check, except behind a collision. -/
theorem takesBid_of_process {maxBytes maxGas : UInt64} {ledger : LedgerView} {raws : List Bytes}
    {raw : Bytes} {tx : Transaction}
    (h : e.process raws maxBytes maxGas height ledger = .ok ()) (hraw : raw ∈ raws)
    (hdecode : Transaction.decode raw = .ok tx) (hbid : tx.containsBid) :
    (e.context height ledger fun _ => false).TakesBid tx ∨ BundlesCollision raws raw := by
  obtain ⟨txs, hdecodes, -, -, -, cut, rfl, hcut⟩ := LaneContext.exists_isCut_of_review h
  have hraws : ∀ t ∈ cut.flatten, t.block.raw ∈ raws ∧
      Transaction.decode t.block.raw = .ok t.tx := by
    intro t ht
    obtain ⟨raw, hraw, ht⟩ := ReceivedTx.exists_raw_of_mem hdecodes ht
    obtain ⟨htx, hblock⟩ := ReceivedTx.decode_eq_ok_iff.mp ht
    rw [hblock]
    exact ⟨hraw, htx⟩
  -- The checker has received the bid as the transaction that its bytes decode to.
  obtain ⟨t, ht, hreceived⟩ := ReceivedTx.exists_of_mem_raws hdecodes hraw
  obtain ⟨htx, hblock⟩ := ReceivedTx.decode_eq_ok_iff.mp hreceived
  obtain rfl : t.tx = tx := Except.ok.inj (htx.symm.trans hdecode)
  obtain htakes | ⟨first, hfirst, winner, hwinner, bundled, hbundled, hne, hhash⟩ :=
    hcut.takesBid_or_shares (fun t ht => (hraws t ht).2) ht hbid
  · exact .inl htakes
  · -- It stands in a bundle for another transaction with its hash.
    obtain ⟨hmem, hdecodeFirst⟩ := hraws first hfirst
    rw [hblock] at hne hhash
    exact .inr ⟨_, hmem, winner, ⟨_, hdecodeFirst, Transaction.mem_of_bid? hwinner⟩, bundled,
      hbundled, hne, hhash⟩

/-- The bids of an accepted block have passed the check against the history. -/
theorem check_of_process {maxBytes maxGas : UInt64} {ledger : LedgerView} {raws : List Bytes}
    {raw : Bytes} {offer : BundleBid}
    (h : e.process raws maxBytes maxGas height ledger = .ok ()) (hraw : raw ∈ raws)
    (hbid : Transaction.Bids raw offer) :
    e.cleared.check offer e.params.increment = .ok () ∨ BundlesCollision raws raw := by
  obtain ⟨tx, hdecode, hoffer⟩ := hbid
  exact (takesBid_of_process h hraw hdecode (Transaction.containsBid_of_mem hoffer)).imp_left
    fun htakes => htakes.check hoffer

/-! ### The theorem -/

/-- An engine is started with the entries of its genesis. -/
theorem get?_cleared_ofConfig (h : ofConfig config isSigned = .ok start) (key : BidKey) :
    start.cleared.get? key = config.genesis.clearing? key := by
  obtain ⟨hvalid, registry, -, rfl⟩ := ofConfig_eq_ok_iff.mp h
  exact ClearedBids.get?_ofList_eq_find? (Config.validate_eq_ok_iff.mp hvalid).keys

/-- After a block the history has an entry for exactly the keys that were last recorded less than
the retention ago; in one denomination, the price held is the highest recorded since the key was
last absent; and as long as it is held, no bid under the key that does not raise it is admitted: not
to the pool, not to a proposal, and to an accepted block at most in the place of a bundled
transaction with the same hash. -/
theorem cleared_history (hstart : ofConfig config isSigned = .ok start)
    (hretention : ∀ before, before <+: calls → (start.after before).params.retention = retention)
    (hheights : (calls.filterMap Call.height?).Pairwise (· ≤ ·))
    (hbelow : ∀ height ∈ calls.filterMap Call.height?, height < .largest) (key : BidKey) :
    (∀ height, (calls.filterMap Call.height?).getLast? = some height →
      (((start.after calls).cleared.price? key).isSome ↔
        ∃ latest, ((recordings config.genesis key calls).map fun r => r.height.toNat).max? =
            some latest ∧
          height.toNat < latest + retention.toNat)) ∧
      ∀ held, (start.after calls).cleared.price? key = some held →
        (∀ denom, (∀ r ∈ recordedSince key start (config.genesis.clearing? key).toList calls,
            r.price.denom = denom) →
          held.denom = denom ∧
            ((recordedSince key start (config.genesis.clearing? key).toList calls).map
              fun r => r.price.amount.toNat).max? = some held.amount.toNat) ∧
        ∀ offer : BundleBid, offer.key = key →
          ¬ offer.price.Raises held (start.after calls).params.increment →
          (∀ raw height ledger hash, Transaction.Bids raw offer →
            ((submit raw height ledger).run.run (start.after calls)).1 ≠ .ok hash) ∧
          (∀ maxBytes maxGas height ledger,
            ∀ raw ∈ ((start.after calls).prepare maxBytes maxGas height ledger).1.rawTxs,
              ¬ Transaction.Bids raw offer) ∧
          ∀ raws maxBytes maxGas height ledger,
            (start.after calls).process raws maxBytes maxGas height ledger = .ok () →
            ∀ raw ∈ raws, Transaction.Bids raw offer → BundlesCollision raws raw := by
  have hget := get?_cleared_ofConfig hstart key
  have hchain := chainValid_ofConfig hstart
  -- Valid parameters keep an entry for at least one block, so what genesis holds is young enough.
  have hpositive : retention ≠ 0 := by
    rw [← hretention [] List.nil_prefix]
    exact (AuctionParams.validate_eq_ok_iff.mp hchain.params).retention
  refine ⟨fun height hlast => ?_, fun held hheld => ⟨fun denom hdenom => ?_, ?_⟩⟩
  · -- The genesis entry is followed from height zero, in front of all blocks.
    have htracks : Tracks retention 0 (config.genesis.clearing? key).toList
        (start.cleared.get? key) := hget ▸ tracks_toList hpositive _
    have hzero : (0 :: calls.filterMap Call.height?).Pairwise (· ≤ ·) :=
      List.pairwise_cons.mpr ⟨fun _ _ => UInt64.zero_le, hheights⟩
    have h := htracks.after hretention hzero hbelow
    rw [hlast, Option.getD_some, ← recordings] at h
    rw [ClearedBids.price?_eq, Option.isSome_map]
    exact h.isSome_iff
  -- What is held is the highest of what was recorded since the key was last absent.
  · have hholds : HoldsHighest (config.genesis.clearing? key).toList (start.cleared.get? key) :=
      hget ▸ holdsHighest_toList _
    rw [ClearedBids.price?_eq] at hheld
    obtain ⟨c, hc, rfl⟩ := Option.map_eq_some_iff.mp hheld
    have h := hholds.after calls
    rw [hc] at h
    exact h.max?_eq hdenom
  · intro offer hkey hlow
    -- Each way into a block or the pool checks the offer against the history, and this check fails.
    have hcheck : (start.after calls).cleared.check offer (start.after calls).params.increment ≠
        .ok () := by
      intro hcheck
      exact hlow (ClearedBids.check_eq_ok_iff.mp hcheck held (hkey ▸ hheld))
    refine ⟨?_, ?_, ?_⟩
    · intro raw height ledger hash hbid hsubmit
      exact hcheck (check_of_submit hsubmit hbid)
    · intro maxBytes maxGas height ledger raw hraw hbid
      exact hcheck (((filed_ofConfig hstart).after calls).check_of_prepare hraw hbid)
    · intro raws maxBytes maxGas height ledger hprocess raw hraw hbid
      exact (check_of_process hprocess hraw hbid).resolve_left hcheck

open Transaction

/-- A block with a bid, and two blocks later an empty one. -/
def biddingCalls : List Call := [.commit 5 [rawOfBody bidding], .commit 7 []]

/-- Only the block at height 5 records the key of the bid. -/
private theorem recordings_bidding : recordings .default biddingOffer.key biddingCalls =
    [⟨biddingOffer.price, 5⟩] := by
  have hwinner : winningBid? [rawOfBody bidding] = some biddingOffer := by
    rw [winningBid?, List.findSome?_cons,
      decode_rawOfBody bidding_wellFormed]
    rfl
  have hnone : winningBid? [] = none := rfl
  simp [recordings, biddingCalls, Call.recording?, hwinner, hnone, Genesis.clearing?,
    Genesis.default, Option.filter_some]

/-- The bid of a committed block is remembered while its block is recent. -/
theorem cleared_history_bidding :
    (∀ before, before <+: biddingCalls → (plain.after before).params.retention = 1000) ∧
      (biddingCalls.filterMap Call.height?).Pairwise (· ≤ ·) ∧
      (∀ height ∈ biddingCalls.filterMap Call.height?, height < .largest) ∧
      ((plain.after biddingCalls).cleared.price? biddingOffer.key).isSome := by
  -- The two calls have three prefixes, and none of them changes the parameters.
  have hretention : ∀ before, before <+: biddingCalls →
      (plain.after before).params.retention = 1000 := by
    intro before hbefore
    obtain rfl | ⟨first, rfl, hfirst⟩ := List.prefix_cons_iff.mp hbefore
    · rfl
    obtain rfl | ⟨second, rfl, hsecond⟩ := List.prefix_cons_iff.mp hfirst
    · rfl
    · rw [List.prefix_nil.mp hsecond]
      rfl
  have hheights : (biddingCalls.filterMap Call.height?).Pairwise (· ≤ ·) := by decide
  have hbelow : ∀ height ∈ biddingCalls.filterMap Call.height?, height < .largest := by
    show ∀ height ∈ [5, 7], height < UInt64.largest
    simp only [List.forall_mem_cons]
    exact ⟨by decide, by decide, nofun⟩
  obtain ⟨hheld, -⟩ := cleared_history ofConfig_default hretention hheights hbelow biddingOffer.key
  refine ⟨hretention, hheights, hbelow, (hheld 7 rfl).mpr ⟨5, ?_, by decide⟩⟩
  show List.max? (List.map _ (recordings .default _ _)) = _
  rw [recordings_bidding]
  rfl

end Engine

end LaneAuction
