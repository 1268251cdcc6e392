import LaneAuction.Proofs.Config.Json
import LaneAuction.Proofs.Engine.History

/-!
# Restarting from the exported state

An engine that is started from the exported state of another votes like it from then on. What an
engine exports is a genesis that a chain can start from, and it is rebuilt from its text. The two
engines then differ at most in their pools and in the genesis (`SameChain`), and neither has a part
in checking, settling or exporting, or in the calls that change the chain's state.
-/

namespace LaneAuction

namespace LaneContext

variable {ctx : LaneContext} {genesis : Genesis} {limits : BlockSpace} {plan : List PlannedLane}

/-- The same lanes, but another genesis in their configuration. -/
def withGenesis (ctx : LaneContext) (genesis : Genesis) : LaneContext :=
  { ctx with config := { ctx.config with genesis } }

/-- The check of a block decodes its transactions without looking at the genesis. -/
private theorem receive_withGenesis (seen : List Hash) (index : Nat) (raws : List Bytes) :
    (ctx.withGenesis genesis).receive seen index raws = ctx.receive seen index raws := by
  induction raws generalizing seen index with
  | nil => rfl
  | cons raw raws ih =>
    simp only [receive, ih]
    rfl

/-- The check of a block goes along the lanes without looking at the genesis. -/
private theorem consume_withGenesis (used : BlockSpace) (txs : List ReceivedTx) :
    (ctx.withGenesis genesis).consume limits used plan txs = ctx.consume limits used plan txs := by
  induction plan generalizing used txs with
  | nil => rfl
  | cons planned plan ih =>
    obtain ⟨lane, kind⟩ := planned
    cases kind with
    | none => exact ih used txs
    | some kind =>
      have htake : (ctx.withGenesis genesis).take kind = ctx.take kind := rfl
      simp only [consume, ih, htake]

/-- The check of a block does not depend on the genesis. -/
theorem review_withGenesis (ctx : LaneContext) (genesis : Genesis) (raws : List Bytes) :
    (ctx.withGenesis genesis).review limits plan raws = ctx.review limits plan raws := by
  simp only [review, receive_withGenesis, consume_withGenesis]

end LaneContext

namespace Engine

/-- A call that changes the chain's state. -/
inductive ChainCall where
  | commit (height : UInt64) (raws : List Bytes)
  | registerLane (caller : Address) (lane : Lane)
  | updateLane (caller : Address) (lane : Lane)
  | updateParams (caller : Address) (params : AuctionParams)

namespace ChainCall

def toCall : ChainCall → Call
  | commit height raws => .commit height raws
  | registerLane caller lane => .registerLane caller lane
  | updateLane caller lane => .updateLane caller lane
  | updateParams caller params => .updateParams caller params

/-- What the call returns. -/
def answer (e : Engine) : ChainCall → Except GovernanceError Unit
  | commit _ _ => .ok ()
  | registerLane caller lane => (e.registerLane caller lane).map fun _ => ()
  | updateLane caller lane => (e.updateLane caller lane).map fun _ => ()
  | updateParams caller params => (e.updateParams caller params).map fun _ => ()

end ChainCall

/-- What calls return, each of them on the engine that the calls before it lead to. -/
def answers : Engine → List ChainCall → List (Except GovernanceError Unit)
  | _, [] => []
  | e, call :: calls => call.answer e :: answers (call.toCall.apply e) calls

/-- The second engine has the chain state of the first; it may have another pool, and may have been
started from another genesis. -/
def SameChain (e e' : Engine) : Prop :=
  ∃ genesis pool, e' = { e with config := { e.config with genesis }, pool }

variable {e e' start : Engine} {config : Config} {isSigned : Transaction → Bool}

/-- A call of the chain keeps two engines in one chain state, and both return the same. -/
theorem SameChain.apply (h : e.SameChain e') (call : ChainCall) :
    (call.toCall.apply e).SameChain (call.toCall.apply e') ∧ call.answer e' = call.answer e := by
  obtain ⟨genesis, pool, rfl⟩ := h
  cases call with
  | commit height raws => exact ⟨⟨genesis, _, rfl⟩, rfl⟩
  | registerLane caller lane =>
    simp only [ChainCall.toCall, ChainCall.answer, Call.apply, Engine.registerLane]
    cases e.registry.register e.config.authority caller lane <;> exact ⟨⟨genesis, pool, rfl⟩, rfl⟩
  | updateLane caller lane =>
    simp only [ChainCall.toCall, ChainCall.answer, Call.apply, Engine.updateLane]
    cases e.registry.update e.config.authority caller lane <;> exact ⟨⟨genesis, pool, rfl⟩, rfl⟩
  | updateParams caller params =>
    simp only [ChainCall.toCall, ChainCall.answer, Call.apply, Engine.updateParams]
    cases authorize e.config.authority caller with
    | error cause => exact ⟨⟨genesis, pool, rfl⟩, rfl⟩
    | ok _ => cases params.validate <;> exact ⟨⟨genesis, pool, rfl⟩, rfl⟩

/-- Calls of the chain keep two engines in one chain state, and all of them return the same. -/
theorem SameChain.after (h : e.SameChain e') (calls : List ChainCall) :
    (e.after (calls.map ChainCall.toCall)).SameChain (e'.after (calls.map ChainCall.toCall)) ∧
      e'.answers calls = e.answers calls := by
  induction calls generalizing e e' with
  | nil => exact ⟨h, rfl⟩
  | cons call calls ih =>
    obtain ⟨hsame, hanswer⟩ := h.apply call
    obtain ⟨hafter, hanswers⟩ := ih hsame
    exact ⟨hafter, by rw [answers, answers, hanswer, hanswers]⟩

/-- In one chain state every block gets the same verdict. -/
theorem SameChain.process_eq (h : e.SameChain e') (raws : List Bytes)
    (maxBytes maxGas height : UInt64) (ledger : LedgerView) :
    e'.process raws maxBytes maxGas height ledger =
      e.process raws maxBytes maxGas height ledger := by
  obtain ⟨genesis, pool, rfl⟩ := h
  exact (e.context height ledger fun _ => false).review_withGenesis genesis raws

/-- Engines in one chain state settle a block alike. -/
theorem SameChain.settleWinner_eq {σ : Type} [Bank σ] (h : e.SameChain e') (raws : List Bytes)
    (proposer : Address) (ledger : σ) :
    e'.settleWinner raws proposer ledger = e.settleWinner raws proposer ledger := by
  obtain ⟨genesis, pool, rfl⟩ := h
  rfl

/-- Engines in one chain state export the same genesis. -/
theorem SameChain.exportGenesis_eq (h : e.SameChain e') : e'.exportGenesis = e.exportGenesis := by
  obtain ⟨genesis, pool, rfl⟩ := h
  rfl

/-! ### Restarting -/

/-- The configuration to restart an engine from. -/
def exportConfig (e : Engine) : Config := { e.config with genesis := e.exportGenesis }

/-- What an engine exports is valid. -/
theorem ChainValid.validate_exportConfig (he : e.ChainValid)
    (hconfig : e.config.validate = .ok ()) : e.exportConfig.validate = .ok () := by
  have hvalid := Config.validate_eq_ok_iff.mp hconfig
  refine Config.validate_eq_ok_iff.mpr ⟨he.params, ⟨_, he.registry.ofLanes_eq⟩, ?_,
    ClearedBids.nodup_keys_toList, hvalid.feeDenom, hvalid.ids, hvalid.bids⟩
  intro bid hbid
  exact he.cleared bid.key _ (ClearedBids.mem_toList_iff.mp hbid)

/-- The engine that is started from what another exports. -/
theorem ChainValid.ofConfig_exportConfig (he : e.ChainValid)
    (hconfig : e.config.validate = .ok ()) (isSigned : Transaction → Bool) :
    ofConfig e.exportConfig isSigned = .ok { e with
      config := e.exportConfig, pool := .ofRanking (.ofConfig e.exportConfig), isSigned } := by
  have hlanes : Registry.ofLanes e.exportConfig.genesis.lanes = .ok e.registry :=
    he.registry.ofLanes_eq
  have hcleared : ClearedBids.ofList e.exportConfig.genesis.clearedBids = e.cleared :=
    ClearedBids.ofList_toList
  rw [ofConfig, he.validate_exportConfig hconfig, hlanes, hcleared]
  rfl

/-- What an engine exports is read back from its text, and a node can be started from it. Whatever
calls change the chain's state from then on, the running and the restarted engine return the same
from them, give every block the same verdict, settle it in the same way and export the same, though
the pool of the restarted engine is empty at first. -/
theorem restart_equivalent (hstart : ofConfig config isSigned = .ok start) (calls : List Call) :
    Config.ofText (start.after calls).exportConfig.toText =
        .ok (start.after calls).exportConfig ∧
      ∃ rebuilt, ofConfig (start.after calls).exportConfig isSigned = .ok rebuilt ∧
        rebuilt.pool = .ofRanking (.ofConfig (start.after calls).exportConfig) ∧
        ∀ more : List ChainCall,
          rebuilt.answers more = (start.after calls).answers more ∧
          (∀ raws maxBytes maxGas height ledger,
            (rebuilt.after (more.map ChainCall.toCall)).process raws maxBytes maxGas height ledger =
              ((start.after calls).after (more.map ChainCall.toCall)).process raws maxBytes maxGas
                height ledger) ∧
          (∀ (σ : Type) [Bank σ] raws proposer (ledger : σ),
            (rebuilt.after (more.map ChainCall.toCall)).settleWinner raws proposer ledger =
              ((start.after calls).after (more.map ChainCall.toCall)).settleWinner raws proposer
                ledger) ∧
          (rebuilt.after (more.map ChainCall.toCall)).exportGenesis =
            ((start.after calls).after (more.map ChainCall.toCall)).exportGenesis := by
  have hchain := (chainValid_ofConfig hstart).after calls
  -- No call changes the configuration, which was checked at the start, nor the verifier.
  have hconfig : (start.after calls).config.validate = .ok () := by
    obtain ⟨hvalid, registry, -, rfl⟩ := ofConfig_eq_ok_iff.mp hstart
    rwa [config_after]
  have hsigned : (start.after calls).isSigned = isSigned := by
    obtain ⟨-, registry, -, rfl⟩ := ofConfig_eq_ok_iff.mp hstart
    rw [isSigned_after]
  refine ⟨Config.ofText_toText (hchain.validate_exportConfig hconfig), _,
    hchain.ofConfig_exportConfig hconfig isSigned, rfl, fun more => ?_⟩
  -- The restarted engine has the state of the chain, and a pool of its own.
  have hsame : (start.after calls).SameChain { start.after calls with
      config := (start.after calls).exportConfig
      pool := .ofRanking (.ofConfig (start.after calls).exportConfig), isSigned } := by
    rw [← hsigned]
    exact ⟨_, _, rfl⟩
  obtain ⟨hafter, hanswers⟩ := hsame.after more
  exact ⟨hanswers, hafter.process_eq, fun σ _ => hafter.settleWinner_eq, hafter.exportGenesis_eq⟩

/-- An engine that committed a bid and exported its state is restarted, and answers further calls.
-/
theorem restart_equivalent_bidding : ofConfig .default (fun _ => true) = .ok plain ∧
    ∃ rebuilt, ofConfig (plain.after biddingCalls).exportConfig (fun _ => true) = .ok rebuilt ∧
      rebuilt.answers [.registerLane .zero ⟨"spare", .zero, 3⟩, .commit 8 []] =
        [.ok (), .ok ()] := by
  obtain ⟨-, rebuilt, hrebuilt, -, h⟩ := restart_equivalent ofConfig_default biddingCalls
  refine ⟨ofConfig_default, rebuilt, hrebuilt, ?_⟩
  rw [(h _).1]
  rfl

end Engine

end LaneAuction
