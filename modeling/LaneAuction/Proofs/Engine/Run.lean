import LaneAuction.Engine
import LaneAuction.Proofs.Except
import LaneAuction.Proofs.Lane.Genesis

/-!
# Engines that calls lead to

An engine starts from a configuration and is changed by calls, whatever their answers. What a block
is built of is the selection of all lanes or, if that fails, of the base lane (`prepare_eq`).
-/

namespace LaneAuction

namespace Engine

/-- One call of an engine. -/
inductive Call where
  | submit (raw : Bytes) (height : UInt64) (ledger : LedgerView)
  | prepare (maxBytes maxGas height : UInt64) (ledger : LedgerView)
  | commit (height : UInt64) (raws : List Bytes)
  | registerLane (caller : Address) (lane : Lane)
  | updateLane (caller : Address) (lane : Lane)
  | updateParams (caller : Address) (params : AuctionParams)

namespace Call

/-- The engine after a call, whatever its answer. A governance call that is refused changes
nothing. -/
def apply (e : Engine) : Call → Engine
  | submit raw height ledger => ((Engine.submit raw height ledger).run.run e).2
  | prepare maxBytes maxGas height ledger => (e.prepare maxBytes maxGas height ledger).2
  | commit height raws => e.commit height raws
  | registerLane caller lane => (e.registerLane caller lane).toOption.getD e
  | updateLane caller lane => (e.updateLane caller lane).toOption.getD e
  | updateParams caller params => (e.updateParams caller params).toOption.getD e

/-- A submitted bid does not have the hash of a transaction of its own bundle. -/
def IsProper : Call → Prop
  | submit raw _ _ => ∀ tx offer, Transaction.decode raw = .ok tx → tx.bid? = some offer →
      Transaction.hash raw ∉ offer.hashes
  | _ => True

end Call

/-- The engine that calls lead to. -/
def after (e : Engine) (calls : List Call) : Engine := calls.foldl Call.apply e

variable {e : Engine} {config : Config} {isSigned : Transaction → Bool}

/-- An engine is started from a valid configuration, with its lanes and without transactions. -/
theorem ofConfig_eq_ok_iff : ofConfig config isSigned = .ok e ↔
    config.validate = .ok () ∧ ∃ registry, Registry.ofLanes config.genesis.lanes = .ok registry ∧
      { config, registry, params := config.genesis.params,
        cleared := .ofList config.genesis.clearedBids,
        pool := .ofRanking (.ofConfig config), isSigned } = e := by
  simp only [ofConfig, Except.bind_eq_ok_iff, Except.mapError_eq_ok_iff, Except.pure_eq_ok,
    Except.ok.injEq]
  constructor
  · rintro ⟨_, hvalid, hrest⟩
    exact ⟨hvalid, hrest⟩
  · rintro ⟨hvalid, hrest⟩
    exact ⟨(), hvalid, hrest⟩

/-- An engine is started with the configuration that is given. -/
theorem config_ofConfig (h : ofConfig config isSigned = .ok e) : e.config = config := by
  obtain ⟨-, registry, -, rfl⟩ := ofConfig_eq_ok_iff.mp h
  rfl

/-- An engine is started with the test for signatures that is given. -/
theorem isSigned_ofConfig (h : ofConfig config isSigned = .ok e) : e.isSigned = isSigned := by
  obtain ⟨-, registry, -, rfl⟩ := ofConfig_eq_ok_iff.mp h
  rfl

/-- An engine is started with an empty pool, ranked as configured. -/
theorem pool_ofConfig (h : ofConfig config isSigned = .ok e) :
    e.pool = .ofRanking (.ofConfig config) := by
  obtain ⟨-, registry, -, rfl⟩ := ofConfig_eq_ok_iff.mp h
  rfl

/-! ### Calls -/

/-- Governance does not change the pool. -/
@[simp] theorem pool_apply_registerLane (e : Engine) (caller : Address) (lane : Lane) :
    ((Call.registerLane caller lane).apply e).pool = e.pool := by
  simp only [Call.apply, Engine.registerLane]
  cases e.registry.register e.config.authority caller lane <;> rfl

@[simp] theorem pool_apply_updateLane (e : Engine) (caller : Address) (lane : Lane) :
    ((Call.updateLane caller lane).apply e).pool = e.pool := by
  simp only [Call.apply, Engine.updateLane]
  cases e.registry.update e.config.authority caller lane <;> rfl

@[simp] theorem pool_apply_updateParams (e : Engine) (caller : Address) (params : AuctionParams) :
    ((Call.updateParams caller params).apply e).pool = e.pool := by
  simp only [Call.apply, Engine.updateParams]
  cases authorize e.config.authority caller with
  | error cause => rfl
  | ok _ => cases params.validate <;> rfl

/-- A step on the pool has its answer and leaves its pool, with the rest of the engine as it was. -/
theorem run_onPool {α : Type} (action : PoolAction α) :
    (onPool action).run.run e =
      ((action.run.run e.pool).1, { e with pool := (action.run.run e.pool).2 }) := by
  simp only [onPool, ExceptT.run_run_bind, ExceptT.run_run_get]
  rcases action.run.run e.pool with ⟨answer, pool⟩
  simp only [ExceptT.run_run_bind, ExceptT.run_run_set, ExceptT.run_run_liftM]

/-- A block is built of what its lanes select, and what they refuse is erased from the pool. -/
theorem build_eq_ok_iff {maxBytes maxGas height : UInt64} {ledger : LedgerView}
    {only : Option LaneKind} {built : Proposal × Engine} :
    e.build maxBytes maxGas height ledger only = .ok built ↔
      ∃ s, (e.context height ledger e.pool.arena.isPending).assemble (.ofLimits maxBytes maxGas)
          e.pool.ordered (e.plan only) = .ok s ∧
        (⟨height, s.txs⟩, { e with pool := e.pool.eraseAll (s.refused.map Prod.fst) }) = built := by
  simp only [build, Except.bind_eq_ok_iff, Except.pure_eq_ok, Except.ok.injEq]

/-- What a block is built of: what all lanes select or, if that fails, what the base lane does. -/
def selection (e : Engine) (maxBytes maxGas height : UInt64) (ledger : LedgerView) : Selection :=
  let assemble (only : Option LaneKind) :=
    (e.context height ledger e.pool.arena.isPending).assemble (.ofLimits maxBytes maxGas)
      e.pool.ordered (e.plan only)
  match assemble none with
  | .ok s => s
  | .error _ =>
    match assemble (some .base) with
    | .ok s => s
    | .error _ => .empty

/-- Building a block drops what was refused from the pool and changes nothing else. -/
theorem prepare_eq (e : Engine) (maxBytes maxGas height : UInt64) (ledger : LedgerView) :
    e.prepare maxBytes maxGas height ledger =
      let s := e.selection maxBytes maxGas height ledger
      (⟨height, s.txs⟩, { e with pool := e.pool.eraseAll (s.refused.map Prod.fst) }) := by
  simp only [prepare, tryPrepare, build, selection]
  cases (e.context height ledger e.pool.arena.isPending).assemble (.ofLimits maxBytes maxGas)
      e.pool.ordered (e.plan none) with
  | ok s => rfl
  | error cause =>
    simp only [Except.error_bind]
    cases (e.context height ledger e.pool.arena.isPending).assemble (.ofLimits maxBytes maxGas)
        e.pool.ordered (e.plan (some .base)) with
    | ok s => rfl
    | error cause' => rfl

/-! ### The default engine -/

/-- An engine of the default configuration that takes every transaction as signed. -/
def plain : Engine where
  config := .default
  registry := ⟨Genesis.default.lanes⟩
  params := .default
  cleared := .empty
  pool := .ofRanking (.ofConfig .default)
  isSigned _ := true

/-- The default configuration is valid and starts the default engine. -/
theorem ofConfig_default : ofConfig .default (fun _ => true) = .ok plain := by
  have hlanes : Registry.ofLanes Config.default.genesis.lanes = .ok ⟨Genesis.default.lanes⟩ :=
    Registry.ofLanes_default
  have hvalid : Config.default.validate = .ok () := by
    rw [Config.validate, hlanes]
    decide
  rw [ofConfig, hvalid, hlanes]
  rfl

end Engine

end LaneAuction
