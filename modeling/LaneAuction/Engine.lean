import LaneAuction.Auction.Settlement
import LaneAuction.Block.Assembly
import LaneAuction.Block.Review

/-!
# The engine

What a node keeps between blocks: the lanes, parameters and cleared bids in force, and the pool. It
admits transactions, builds and checks blocks, and takes notice of committed ones. The ledger is
not part of it and is passed to every call that reads it.
-/

namespace LaneAuction

/-- The state of a node. -/
structure Engine where
  config : Config
  registry : Registry
  params : AuctionParams
  cleared : ClearedBids
  pool : Pool
  /-- True if a transaction is signed. -/
  isSigned : Transaction → Bool

/-- A step on an engine. The engine it leaves is kept when it fails. -/
abbrev EngineAction := ExceptT Rejection (StateM Engine)

/-- The first bid in a list of raw transactions. -/
def winningBid? (raws : List Bytes) : Option BundleBid :=
  raws.findSome? fun raw => (Transaction.decode raw).toOption.bind Transaction.bid?

namespace Engine

/-- Starts an engine from a valid configuration. -/
def ofConfig (config : Config) (isSigned : Transaction → Bool) : Except ConfigFault Engine := do
  config.validate
  let registry ← (Registry.ofLanes config.genesis.lanes).mapError .lanes
  return {
    config
    registry
    params := config.genesis.params
    cleared := .ofList config.genesis.clearedBids
    pool := .ofRanking (.ofConfig config)
    isSigned }

/-- What the lanes of a block at some height read, when the given hashes are pending. -/
def context (e : Engine) (height : UInt64) (ledger : LedgerView) (isPending : Hash → Bool) :
    LaneContext where
  height
  config := e.config
  params := e.params
  cleared := e.cleared
  ledger
  isSigned := e.isSigned
  isPending

/-- Runs a step on the pool. -/
def onPool {α : Type} (action : PoolAction α) : EngineAction α := do
  let e ← get
  let (answer, pool) := action.run.run e.pool
  set { e with pool }
  answer

/-! ### Admission -/

/-- Admits a bid that is admissible in a block at some height. -/
def submitBid (bid : BidCandidate) (height : UInt64) (ledger : LedgerView) :
    EngineAction Unit := do
  let e ← get
  -- The pool takes only bids that are admissible at this height.
  let _ ← (e.context height ledger e.pool.arena.isPending).chunk bid
  let r : PendingTx := ⟨bid.hash, bid.raw, bid.tx, .auction, 0, some (.ofOffer bid.offer)⟩
  let _ ← onPool (Pool.insertBid r e.params.increment e.config.auction.maxPending.toNat)

/-- Admits a raw transaction to its lane and returns its hash. -/
def submit (raw : Bytes) (height : UInt64) (ledger : LedgerView) : EngineAction Hash := do
  let e ← get
  let tx ← (Transaction.decode raw).mapError fun cause => Rejection.malformed (.undecodable cause)
  -- A transaction without a valid signature never reaches the pool.
  if !e.isSigned tx then throw (.malformed .badSignature)
  let hash := Transaction.hash raw
  let kind := LaneKind.ofTransaction e.config.free.exempt tx
  if (e.registry.find? (e.config.laneId kind)).isNone then throw (.noLane (e.config.laneId kind))
  match kind with
  | .auction => submitBid (← BidCandidate.ofTransaction hash raw tx) height ledger
  | kind => onPool (Pool.insert ⟨hash, raw, tx, kind, 0, none⟩)
  return hash

/-! ### Blocks -/

/-- The lanes in order with their kinds; those of another kind than `only` stay empty. -/
def plan (e : Engine) (only : Option LaneKind) : List PlannedLane :=
  e.registry.lanes.map fun lane =>
    ⟨lane, (e.config.kindOf? lane.id).filter fun kind => only.all (· == kind)⟩

/-- Builds a block, with the lanes of one kind or all, and drops refused bids from the pool. -/
def build (e : Engine) (maxBytes maxGas height : UInt64) (ledger : LedgerView)
    (only : Option LaneKind) : Except AssemblyError (Proposal × Engine) := do
  let ctx := e.context height ledger e.pool.arena.isPending
  let s ← ctx.assemble (.ofLimits maxBytes maxGas) e.pool.ordered (e.plan only)
  return (⟨height, s.txs⟩, { e with pool := e.pool.eraseAll (s.refused.map Prod.fst) })

/-- Builds a block from all lanes. -/
def tryPrepare (e : Engine) (maxBytes maxGas height : UInt64) (ledger : LedgerView) :
    Except AssemblyError (Proposal × Engine) :=
  e.build maxBytes maxGas height ledger none

/-- Builds a block from all lanes, or from the base lane if that fails. -/
def prepare (e : Engine) (maxBytes maxGas height : UInt64) (ledger : LedgerView) :
    Proposal × Engine :=
  match e.tryPrepare maxBytes maxGas height ledger with
  | .ok built => built
  | .error _ =>
    -- The ledger failed on a bid; the base lane asks nothing of it.
    match e.build maxBytes maxGas height ledger (some .base) with
    | .ok built => built
    | .error _ => (.empty height, e)

/-- Accepts a received block, or says why not. -/
def process (e : Engine) (raws : List Bytes) (maxBytes maxGas height : UInt64)
    (ledger : LedgerView) : Except BlockFault Unit :=
  (e.context height ledger fun _ => false).review (.ofLimits maxBytes maxGas) (e.plan none) raws

/-! ### Commits -/

/-- The history after a block at some height. -/
def clearedAfter (e : Engine) (height : UInt64) (raws : List Bytes) : ClearedBids :=
  let recorded := match winningBid? raws with
    | some bid => e.cleared.record bid.key ⟨bid.price, height⟩
    | none => e.cleared
  recorded.prune height e.params.retention

/-- The pool after a block at some height: without what the block holds, without the bids whose
bundle overlaps it, and without the bids that cannot make the next block. -/
def poolAfter (e : Engine) (height : UInt64) (raws : List Bytes) : Pool :=
  let hashes := raws.map Transaction.hash
  ((e.pool.eraseAll hashes).dropOverlapping hashes).dropExpired (height.addSat 1)

/-- Takes notice of a committed block. -/
def commit (e : Engine) (height : UInt64) (raws : List Bytes) : Engine :=
  { e with cleared := e.clearedAfter height raws, pool := e.poolAfter height raws }

/-- Pays the winning bid of a committed block, if there is one. -/
def settleWinner {σ : Type} [Bank σ] (e : Engine) (raws : List Bytes) (proposer : Address)
    (ledger : σ) : Except SettlementError (Option Split) × σ :=
  match winningBid? raws with
  | none => (.ok none, ledger)
  | some bid =>
    let (answer, ledger) := settle e.params bid.bidder bid.price proposer ledger
    (answer.map some, ledger)

/-! ### Chain state -/

/-- The chain state in force, from which an equal engine can be started. -/
def exportGenesis (e : Engine) : Genesis := ⟨e.registry.lanes, e.params, e.cleared.toList⟩

/-- Adds a lane behind all others. -/
def registerLane (e : Engine) (caller : Address) (lane : Lane) :
    Except GovernanceError Engine := do
  return { e with registry := ← e.registry.register e.config.authority caller lane }

/-- Changes the fraction of a lane. -/
def updateLane (e : Engine) (caller : Address) (lane : Lane) : Except GovernanceError Engine := do
  return { e with registry := ← e.registry.update e.config.authority caller lane }

/-- Changes the parameters of the auction. -/
def updateParams (e : Engine) (caller : Address) (params : AuctionParams) :
    Except GovernanceError Engine := do
  authorize e.config.authority caller
  params.validate.mapError .params
  return { e with params }

end Engine

end LaneAuction
