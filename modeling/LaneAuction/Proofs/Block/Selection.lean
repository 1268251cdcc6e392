import LaneAuction.Proofs.Block.Clearing
import LaneAuction.Proofs.Block.Grammar
import LaneAuction.Proofs.Block.Greedy

/-!
# What is selected is a segment

Filling a lane picks some candidates in their order, and clearing the auction picks the chunk of
one admissible bid. Both keep within the cap and the budget and repeat nothing, so that what a lane
selects satisfies the rules by which it is checked (`LaneContext.exists_run_of_select`). The rules
are those of a checker, which knows of no pending transaction.
-/

namespace LaneAuction

/-- Candidates picked in their order, behind `count` transactions that use some space already. -/
structure Picks (budget : BlockSpace) (cap : Option Nat) (included : List Hash) (count : Nat)
    (used : BlockSpace) (candidates picked : List PendingTx) : Prop where
  sublist : picked.Sublist candidates
  new : ∀ r ∈ picked, r.hash ∉ included
  fits : (used.add (.ofTxs (picked.map PendingTx.toBlockTx))).fits budget
  cap : ∀ n, cap = some n → count ≤ n → count + picked.length ≤ n

namespace Picks

variable {budget used : BlockSpace} {cap : Option Nat} {included : List Hash} {count : Nat}
  {r : PendingTx} {candidates picked : List PendingTx}

/-- Nothing is picked of any candidates. -/
private theorem nil (hused : used.fits budget) :
    Picks budget cap included count used candidates [] where
  sublist := List.nil_sublist _
  new := by simp
  fits := by simpa [BlockSpace.ofTxs] using hused
  cap n _ h := h

/-- A candidate may be passed over. -/
private theorem skip (h : Picks budget cap included count used candidates picked) :
    Picks budget cap included count used (r :: candidates) picked :=
  { h with sublist := h.sublist.cons r }

/-- A candidate that is new may be picked below the cap, if it fits with the rest. -/
private theorem take
    (h : Picks budget cap included (count + 1) (used.add (.ofTx r.toBlockTx)) candidates picked)
    (hcap : ¬ reachesCap cap count) (hnew : r.hash ∉ included) :
    Picks budget cap included count used (r :: candidates) (r :: picked) where
  sublist := h.sublist.cons_cons r
  new := List.forall_mem_cons.mpr ⟨hnew, h.new⟩
  fits := by
    have hfits := h.fits
    rwa [BlockSpace.add_assoc, ← BlockSpace.ofTxs_cons] at hfits
  cap n hn hle := by
    subst hn
    have hlt : count < n := by simpa [reachesCap] using hcap
    have := h.cap n rfl hlt
    simp only [List.length_cons]
    omega

end Picks

/-- What is chosen greedily is picked, behind what was taken before. -/
theorem Greedy.picks {budget : BlockSpace} {cap : Option Nat} {included : List Hash}
    {taken candidates chosen : List PendingTx}
    (h : Greedy budget cap included taken candidates chosen)
    (htaken : (spaceOf taken).fits budget) :
    Picks budget cap included taken.length (spaceOf taken) candidates chosen := by
  induction h with
  | nil => exact .nil htaken
  | take htake _ ih =>
    obtain ⟨hcap, hnew, -⟩ := canTake_iff.mp htake
    have hpicks := ih htake.fits
    rw [List.length_append, List.length_singleton, spaceOf_concat] at hpicks
    exact hpicks.take hcap hnew
  | skip _ _ ih => exact (ih htaken).skip

/-- Filling a lane picks candidates and adds up their space. -/
theorem exists_picks_of_fill (budget : BlockSpace) (cap : Option Nat) (included : List Hash)
    (candidates : List PendingTx) :
    ∃ picked, Picks budget cap included 0 .zero candidates picked ∧
      fill budget cap included candidates =
        ⟨picked.map PendingTx.toBlockTx, .ofTxs (picked.map PendingTx.toBlockTx), []⟩ := by
  obtain ⟨picked, hpicked⟩ := exists_greedy budget cap included [] candidates
  exact ⟨picked, hpicked.picks (BlockSpace.zero_fits budget), hpicked.fill_eq⟩

/-- A pending transaction as it is received in a block. -/
def PendingTx.received (r : PendingTx) : ReceivedTx := ⟨r.toBlockTx, r.tx⟩

/-- A bundled transaction as it is received in a block. -/
def Bundled.received (b : Bundled) : ReceivedTx := ⟨b.toBlockTx, b.tx⟩

/-- What pending transactions place in a block is what is received of them. -/
private theorem PendingTx.map_block_received (rs : List PendingTx) :
    (rs.map received).map ReceivedTx.block = rs.map toBlockTx := by
  rw [List.map_map]
  rfl

/-- What a bundle places in a block is what is received of it. -/
private theorem Bundled.map_block_received (bundle : List Bundled) :
    (bundle.map received).map ReceivedTx.block = bundle.map toBlockTx := by
  rw [List.map_map]
  rfl

namespace LaneContext

variable {ctx : LaneContext} {kind : LaneKind} {budget : BlockSpace} {included : List Hash}
  {candidates : List PendingTx} {s : Selection} {r : PendingTx} {chunk : List BlockTx}

/-- The same context where nothing is pending, as a checker has it. -/
def unpending (ctx : LaneContext) : LaneContext := { ctx with isPending := fun _ => false }

/-- What a lane's candidates are: decoded and signed transactions of its kind, none twice, those of
a base lane in the order of their fees, and no bid part of its own bundle. -/
structure Offers (ctx : LaneContext) (kind : LaneKind) (candidates : List PendingTx) : Prop where
  decode : ∀ r ∈ candidates, ReceivedTx.decode r.raw = .ok ⟨r.toBlockTx, r.tx⟩
  signed : ∀ r ∈ candidates, ctx.isSigned r.tx
  kind_eq : ∀ r ∈ candidates, LaneKind.ofTransaction ctx.exempt r.tx = kind
  nodup : (candidates.map PendingTx.hash).Nodup
  fees : kind = .base → candidates.Pairwise fun a b =>
    feeRank b.tx.body.fee ctx.config.feeDenom ≤ feeRank a.tx.body.fee ctx.config.feeDenom
  own : ∀ r ∈ candidates, ∀ offer, r.tx.bid? = some offer → r.hash ∉ offer.hashes

/-- Transactions as they come out of a block: decoded, signed, and none twice or included
already. -/
structure Arrives (ctx : LaneContext) (included : List Hash) (run : List ReceivedTx) : Prop where
  decode : ∀ t ∈ run, ReceivedTx.decode t.block.raw = .ok t
  signed : ∀ t ∈ run, ctx.isSigned t.tx
  nodup : (run.map fun t => t.block.hash).Nodup
  new : ∀ t ∈ run, t.block.hash ∉ included

/-! ### What is filled in -/

/-- What is picked keeps the kind of the candidates and the order of their fees. -/
private theorem isSegment_of_picks {picked : List PendingTx} (hkind : kind ≠ .auction)
    (hoffers : ctx.Offers kind candidates)
    (hpicks : Picks budget (ctx.cap kind) included 0 .zero candidates picked) :
    ctx.unpending.IsSegment kind budget (picked.map PendingTx.received) where
  isRun := by
    -- What is picked is offered, and the lane is offered its own kind only.
    have hkinds : ∀ t ∈ picked.map PendingTx.received,
        LaneKind.ofTransaction ctx.exempt t.tx = kind :=
      List.forall_mem_map.mpr fun r hr => hoffers.kind_eq r (hpicks.sublist.subset hr)
    cases kind with
    | auction => exact absurd rfl hkind
    | free => exact fun t ht => LaneKind.ofTransaction_eq_free_iff.mp (hkinds t ht)
    | base =>
      refine ⟨fun t ht => LaneKind.ofTransaction_eq_base_iff.mp (hkinds t ht), ?_⟩
      rw [List.pairwise_map]
      exact (hoffers.fees rfl).sublist hpicks.sublist
  cap n hn := by
    have := hpicks.cap n hn (Nat.zero_le n)
    rw [List.length_map]
    omega
  fits := by
    rw [PendingTx.map_block_received]
    simpa using hpicks.fits

/-- What is picked of candidates arrives at a checker as they were admitted. -/
private theorem arrives_of_picks {picked : List PendingTx} {cap : Option Nat}
    (hoffers : ctx.Offers kind candidates)
    (hpicks : Picks budget cap included 0 .zero candidates picked) :
    ctx.Arrives included (picked.map PendingTx.received) where
  decode := List.forall_mem_map.mpr fun r hr => hoffers.decode r (hpicks.sublist.subset hr)
  signed := List.forall_mem_map.mpr fun r hr => hoffers.signed r (hpicks.sublist.subset hr)
  nodup := by
    rw [List.map_map]
    exact hoffers.nodup.sublist (hpicks.sublist.map PendingTx.hash)
  new := List.forall_mem_map.mpr hpicks.new

/-- What fills a lane is a segment of that lane in the eyes of a checker. -/
private theorem exists_run_of_fill (budget : BlockSpace) (included : List Hash)
    (hkind : kind ≠ .auction) (hoffers : ctx.Offers kind candidates) :
    ∃ run, fill budget (ctx.cap kind) included candidates =
        ⟨run.map ReceivedTx.block, .ofTxs (run.map ReceivedTx.block), []⟩ ∧
      ctx.unpending.IsSegment kind budget run ∧ ctx.Arrives included run := by
  obtain ⟨picked, hpicks, heq⟩ := exists_picks_of_fill budget (ctx.cap kind) included candidates
  exact ⟨picked.map PendingTx.received, by rw [heq, PendingTx.map_block_received],
    isSegment_of_picks hkind hoffers hpicks, arrives_of_picks hoffers hpicks⟩

/-! ### What clears the auction -/

/-- A bundled transaction is received as it was opened. -/
private theorem decode_of_opens {raw : Bytes} {b : Bundled} (h : ctx.toBidContext.Opens raw b) :
    ReceivedTx.decode b.raw = .ok b.received := by
  have hraw := h.raw_eq
  subst hraw
  simp only [ReceivedTx.decode, h.decode, Except.ok_bind, Bundled.received, Bundled.toBlockTx,
    BlockTx.ofRaw, h.hash_eq]
  rfl

/-- A bundle is received under the hashes that its bid names. -/
private theorem hashes_received_of_opens {raws : List Bytes} {bundle : List Bundled}
    (h : List.Forall₂ ctx.toBidContext.Opens raws bundle) :
    (bundle.map Bundled.received).map (fun t => t.block.hash) = raws.map Transaction.hash := by
  rw [List.map_map]
  exact BidContext.hashes_of_opens h

/-- A bid and its bundle arrive as a block, if none of it is included already. -/
private theorem arrives_of_admissible {offer : BundleBid} {bundle : List Bundled}
    (hoffers : ctx.Offers .auction candidates) (hr : r ∈ candidates)
    (hoffer : r.tx.bid? = some offer)
    (hbid : ctx.toBidContext.Admissible ⟨r.hash, r.raw, r.tx, offer⟩ bundle)
    (hnew : ∀ t ∈ r.received :: bundle.map Bundled.received, t.block.hash ∉ included) :
    ctx.Arrives included (r.received :: bundle.map Bundled.received) where
  decode := by
    -- The bid was pending, its bundle was opened, and both decode and are signed.
    refine List.forall_mem_cons.mpr ⟨hoffers.decode r hr, List.forall_mem_map.mpr fun b hb => ?_⟩
    obtain ⟨raw, hopens⟩ := BidContext.exists_opens_of_mem hbid.opens hb
    exact decode_of_opens hopens
  signed := by
    refine List.forall_mem_cons.mpr ⟨hoffers.signed r hr, List.forall_mem_map.mpr fun b hb => ?_⟩
    obtain ⟨raw, hopens⟩ := BidContext.exists_opens_of_mem hbid.opens hb
    exact hopens.signed
  nodup := by
    -- The bid is not in its own bundle, and the bundle was checked for repeats.
    have hhashes := BidContext.hashes_of_opens hbid.opens
    rw [List.map_cons, hashes_received_of_opens hbid.opens, List.nodup_cons]
    refine ⟨hoffers.own r hr offer hoffer, ?_⟩
    rw [← hhashes]
    exact hbid.fresh.hashes_nodup
  new := hnew

/-- What the auction places is a segment of its lane in the eyes of a checker. -/
private theorem exists_run_of_clear (hoffers : ctx.Offers .auction candidates)
    (h : ctx.clear budget included candidates = .ok s) :
    ∃ run, s.txs = run.map ReceivedTx.block ∧ s.used = .ofTxs (run.map ReceivedTx.block) ∧
      ctx.unpending.IsSegment .auction budget run ∧ ctx.Arrives included run := by
  obtain ⟨htxs, hused⟩ | ⟨r, hr, hadmits, ⟨hfits, hnew⟩, hused⟩ := clear_cases h
  · -- No bid was cleared, and the segment is empty.
    exact ⟨[], htxs, hused, isSegment_nil, by constructor <;> simp⟩
  · -- The segment is the bid and its opened bundle; what was accepted among pending bids is so
    -- without.
    have hlength := hadmits.length_le
    obtain ⟨offer, hoffer, hcheck, haccept⟩ := hadmits
    obtain ⟨bundle, hbid, hs⟩ := BidContext.accept_eq_ok_iff.mp haccept
    have hhash : r.hash = Transaction.hash r.raw := hash_eq_of_decode (hoffers.decode r hr)
    have htxs : s.txs = (r.received :: bundle.map Bundled.received).map ReceivedTx.block := by
      rw [hs, List.map_cons, Bundled.map_block_received, PendingTx.received, PendingTx.toBlockTx,
        hhash]
      rfl
    refine ⟨_, htxs, by rw [hused, htxs], ⟨.inr ?_, ?_, htxs ▸ hfits⟩,
      arrives_of_admissible hoffers hr hoffer hbid ?_⟩
    · exact ⟨r.received, _, offer, rfl, hoffer, hcheck,
        ⟨s.txs, BidContext.accept_of_accept (by nofun) haccept⟩,
        hashes_received_of_opens hbid.opens⟩
    · intro n hn
      obtain rfl := Option.some.inj hn
      rwa [htxs, List.length_map] at hlength
    · intro t ht
      exact hnew t.block (htxs ▸ List.mem_map_of_mem ht)

/-! ### What a lane selects -/

/-- What a lane selects is a segment by the rules of a checker, and arrives as such. -/
theorem exists_run_of_select (hoffers : ctx.Offers kind candidates)
    (h : ctx.select kind budget included candidates = .ok s) :
    ∃ run, s.txs = run.map ReceivedTx.block ∧ s.used = .ofTxs (run.map ReceivedTx.block) ∧
      ctx.unpending.IsSegment kind budget run ∧ ctx.Arrives included run := by
  by_cases hkind : kind = .auction
  · subst hkind
    exact exists_run_of_clear hoffers h
  · obtain ⟨run, heq, hrun, harrives⟩ := exists_run_of_fill budget included hkind hoffers
    have hfill : ctx.select kind budget included candidates =
        .ok (fill budget (ctx.cap kind) included candidates) := by
      cases kind with
      | auction => exact absurd rfl hkind
      | free => rfl
      | base => rfl
    rw [hfill, heq] at h
    obtain rfl := Except.ok.inj h
    exact ⟨run, rfl, rfl, hrun, harrives⟩

end LaneContext

end LaneAuction
