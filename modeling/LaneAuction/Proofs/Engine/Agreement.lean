import LaneAuction.Proofs.Block.Assembly
import LaneAuction.Proofs.Engine.Admitted

/-!
# Every node accepts what any node builds

The block that an engine builds depends on its pool, the check of a block does not. Still the block
is accepted by every engine in the same chain state, whatever is pending there
(`Valid.process_prepare`): the lanes are filled by the rules by which they are checked.
-/

namespace LaneAuction

namespace Engine

variable {e verifier : Engine} {kind : LaneKind} {height : UInt64} {ledger : LedgerView}

/-- The lanes of one kind or all are the lanes of the chain, some of them without their kind. -/
private theorem plan_eq_map (e : Engine) (only : Option LaneKind) :
    e.plan only = (e.plan none).map fun l =>
      ⟨l.lane, l.kind.filter fun kind => only.all (· == kind)⟩ := by
  simp only [plan, List.map_map]
  congr 1
  funext lane
  cases h : e.config.kindOf? lane.id <;> simp [h]

/-- No two lanes of a plan have one kind, because no two registered lanes have one id. -/
theorem Filed.nodup_kinds (he : e.Filed) : ((e.plan none).filterMap PlannedLane.kind).Nodup := by
  have hkinds : (e.plan none).filterMap PlannedLane.kind =
      (e.registry.lanes.map Lane.id).filterMap e.config.kindOf? := by
    simp only [plan, List.filterMap_map]
    congr 1
    funext lane
    cases h : e.config.kindOf? lane.id <;> simp [h]
  rw [hkinds]
  exact he.ids.filterMap fun id id' kind h h' => Config.kindOf?_inj h h'

/-- What is pending in a lane, in the order of the lane, is what the lane asks of its candidates. -/
theorem Valid.offers (he : e.Valid) :
    (e.context height ledger e.pool.arena.isPending).Offers kind (e.pool.ordered kind) := by
  -- All is read off what holds of an admitted record.
  have hadmitted : ∀ r ∈ e.pool.ordered kind, Admitted e.config e.isSigned r ∧ r.lane = kind := by
    intro r hr
    obtain ⟨hget, hlane⟩ := he.pool.mem_ordered_iff.mp hr
    exact ⟨he.admitted r.hash r hget, hlane⟩
  constructor
  case decode =>
    intro r hr
    obtain ⟨h, -⟩ := hadmitted r hr
    simp only [ReceivedTx.decode, h.decode, Except.ok_bind, PendingTx.toBlockTx, h.hash_eq]
    rfl
  case signed =>
    intro r hr
    exact (hadmitted r hr).1.signed
  case kind_eq =>
    intro r hr
    obtain ⟨h, hlane⟩ := hadmitted r hr
    exact h.lane_eq.symm.trans hlane
  case nodup => exact he.pool.nodup_hashes_ordered
  case fees =>
    -- In a base lane the pool ranks by the fee.
    intro hkind
    subst hkind
    refine he.pool.pairwise_ordered.imp_of_mem fun {r s} hr hs hbefore => ?_
    have hrank : ∀ r ∈ e.pool.ordered .base,
        e.pool.ranking.rank r = feeRank r.tx.body.fee e.config.feeDenom := by
      intro r hr
      rw [Ranking.rank, (hadmitted r hr).2, he.ranking]
      rfl
    have hle := hbefore.rank_le
    rwa [hrank r hr, hrank s hs] at hle
  -- No pending bid has its own hash among those of its bundle.
  case own =>
    intro r hr offer hoffer
    obtain ⟨hget, -⟩ := he.pool.mem_ordered_iff.mp hr
    have hown := he.notOwn hget
    rwa [PendingTx.bundle, (hadmitted r hr).1.bid_eq, hoffer] at hown

/-- A block is built if every lane can select for it. -/
theorem exists_build (e : Engine) (maxBytes maxGas height : UInt64) (ledger : LedgerView)
    {only : Option LaneKind} (hselect : ∀ kind ∈ (e.plan only).filterMap PlannedLane.kind,
      ∀ budget included, ∃ s, (e.context height ledger e.pool.arena.isPending).select kind budget
        included (e.pool.ordered kind) = .ok s) :
    ∃ built, e.build maxBytes maxGas height ledger only = .ok built := by
  obtain ⟨s, hassemble⟩ := LaneContext.exists_ok_of_assembleFrom _ (.ofLimits maxBytes maxGas)
    e.pool.ordered .empty hselect
  exact ⟨_, build_eq_ok_iff.mpr ⟨s, hassemble, rfl⟩⟩

/-- A proposal is built from all lanes or from the base lane alone. -/
theorem exists_build_eq_prepare (e : Engine) (maxBytes maxGas height : UInt64)
    (ledger : LedgerView) :
    ∃ only, e.build maxBytes maxGas height ledger only =
      .ok (e.prepare maxBytes maxGas height ledger) := by
  cases htry : e.tryPrepare maxBytes maxGas height ledger with
  | ok built => exact ⟨none, by rw [prepare, htry, ← htry, tryPrepare]⟩
  | error cause =>
    -- The base lane alone cannot fail.
    have hbase : ∀ kind ∈ (e.plan (some .base)).filterMap PlannedLane.kind, kind ≠ .auction := by
      rintro kind hmem rfl
      obtain ⟨l, hl, hkind⟩ := List.mem_filterMap.mp hmem
      obtain ⟨lane, -, rfl⟩ := List.mem_map.mp hl
      simp [Option.filter_eq_some_iff] at hkind
    obtain ⟨built, hbuilt⟩ := e.exists_build maxBytes maxGas height ledger fun kind hkind =>
      fun budget included => LaneContext.exists_select_of_ne_auction _ (hbase kind hkind) budget
        included _
    refine ⟨some .base, ?_⟩
    simp only [prepare, htry, hbuilt]

/-- The block that an engine builds is accepted by every engine with the same configuration, lanes,
parameters and history. -/
theorem Valid.process_prepare (he : e.Valid) (hconfig : verifier.config = e.config)
    (hregistry : verifier.registry = e.registry) (hparams : verifier.params = e.params)
    (hcleared : verifier.cleared = e.cleared) (hsigned : verifier.isSigned = e.isSigned)
    (maxBytes maxGas height : UInt64) (ledger : LedgerView) :
    verifier.process (e.prepare maxBytes maxGas height ledger).1.rawTxs maxBytes maxGas height
      ledger = .ok () := by
  -- The verifier checks by the rules of the builder, with nothing pending.
  have hprocess : ∀ raws, verifier.process raws maxBytes maxGas height ledger =
      (e.context height ledger e.pool.arena.isPending).unpending.review
        (.ofLimits maxBytes maxGas) (e.plan none) raws := by
    intro raws
    simp only [process, context, plan, hconfig, hregistry, hparams, hcleared, hsigned]
    rfl
  -- From all lanes or the base lane alone, what is built passes.
  obtain ⟨only, hbuild⟩ := e.exists_build_eq_prepare maxBytes maxGas height ledger
  obtain ⟨s, hassemble, hs⟩ := build_eq_ok_iff.mp hbuild
  rw [plan_eq_map] at hassemble
  rw [hprocess, ← hs]
  exact LaneContext.review_of_assemble (fun kind => he.offers) he.nodup_kinds hassemble

/-- Whatever calls an engine has had, the block that it builds is accepted by every engine with the
same configuration, lanes, parameters and history. -/
theorem prepared_block_accepted {config : Config} {isSigned : Transaction → Bool} {start : Engine}
    {calls : List Call} (hstart : ofConfig config isSigned = .ok start)
    (hcalls : ∀ call ∈ calls, call.IsProper)
    (hconfig : verifier.config = (start.after calls).config)
    (hregistry : verifier.registry = (start.after calls).registry)
    (hparams : verifier.params = (start.after calls).params)
    (hcleared : verifier.cleared = (start.after calls).cleared)
    (hsigned : verifier.isSigned = (start.after calls).isSigned)
    (maxBytes maxGas height : UInt64) (ledger : LedgerView) :
    verifier.process ((start.after calls).prepare maxBytes maxGas height ledger).1.rawTxs maxBytes
      maxGas height ledger = .ok () :=
  ((valid_ofConfig hstart).after hcalls).process_prepare hconfig hregistry hparams hcleared hsigned
    maxBytes maxGas height ledger

open Transaction

/-- A payment is submitted and a lane is registered. -/
def paymentCalls : List Call :=
  [.submit (rawOfBody payment) 1 LaneContext.plain.ledger,
    .registerLane .zero ⟨"spare", .zero, 3⟩]

/-- The block that is built then holds the payment. -/
theorem txs_prepare_paymentCalls :
    ((plain.after paymentCalls).prepare 1000 0 1 LaneContext.plain.ledger).1.txs =
      [.ofRaw (rawOfBody payment) payment.gas] := by
  decide +kernel

/-- A payment is no bid, so it cannot bundle itself. -/
theorem isProper_paymentCalls : ∀ call ∈ paymentCalls, call.IsProper := by
  refine List.forall_mem_cons.mpr ⟨?_, List.forall_mem_cons.mpr ⟨trivial, nofun⟩⟩
  intro tx offer htx hoffer
  rw [decode_rawOfBody payment_wellFormed] at htx
  obtain rfl := Except.ok.inj htx
  simp [Transaction.bid?, ofBody, payment] at hoffer

/-- The block that holds a payment is accepted by a node on which nothing is pending. -/
theorem prepared_block_accepted_payment :
    (∀ call ∈ paymentCalls, call.IsProper) ∧
      ((plain.after paymentCalls).prepare 1000 0 1 LaneContext.plain.ledger).1.rawTxs =
        [rawOfBody payment] ∧
      { plain.after paymentCalls with pool := plain.pool }.process
        ((plain.after paymentCalls).prepare 1000 0 1 LaneContext.plain.ledger).1.rawTxs 1000 0 1
        LaneContext.plain.ledger = .ok () := by
  refine ⟨isProper_paymentCalls, ?_, ?_⟩
  · rw [Proposal.rawTxs, txs_prepare_paymentCalls]
    rfl
  · apply prepared_block_accepted ofConfig_default isProper_paymentCalls <;> rfl

end Engine

end LaneAuction
