import LaneAuction.Proofs.Auction.ClearedBids
import LaneAuction.Proofs.Block.Grammar
import LaneAuction.Proofs.Config
import LaneAuction.Proofs.Engine.Run
import LaneAuction.Proofs.Lane.Validity

/-!
# The chain's state

The lanes, the parameters and the history of cleared bids are the chain's: every node has the same.
What a call can do to them is said once (`Call.apply_cases`): submitting and building leave them
alone, a committed block changes the history, and each governance call changes one of the others.
Whatever the calls, the lanes and the parameters in force are valid, and every price in the history
is of a well-formed denomination (`ChainValid.after`). None of this asks anything of the hashes.
-/

namespace LaneAuction

/-- The price of a bid that was read from raw bytes is of a well-formed denomination. -/
theorem Transaction.price_isValid_of_decode {raw : Bytes} {tx : Transaction} {offer : BundleBid}
    (h : decode raw = .ok tx) (hoffer : tx.bid? = some offer) : offer.price.isValid := by
  obtain ⟨hbody, -, -⟩ := decode_eq_ok_iff.mp h
  have hmessages := bid?_eq_some_iff.mp hoffer
  exact (hbody.messages _ (hmessages ▸ List.mem_singleton_self _)).coin

/-- The only message of a raw transaction is a bid. -/
def Transaction.SoleBid (raw : Bytes) (offer : BundleBid) : Prop :=
  ∃ tx, decode raw = .ok tx ∧ tx.body.messages = [.bid offer]

/-- The first raw transaction of a list whose only message is a bid has this one. -/
def FirstBid (raws : List Bytes) (offer : BundleBid) : Prop :=
  ∃ before raw behind, raws = before ++ raw :: behind ∧ Transaction.SoleBid raw offer ∧
    ∀ other ∈ before, ∀ offer', ¬ Transaction.SoleBid other offer'

/-- A raw transaction is a sole bid if and only if it decodes to a transaction with that bid. -/
private theorem Transaction.soleBid_iff {raw : Bytes} {offer : BundleBid} :
    SoleBid raw offer ↔ (decode raw).toOption.bind bid? = some offer := by
  rw [SoleBid]
  cases decode raw with
  | error cause => simp [Except.toOption]
  | ok tx => simp [Except.toOption, bid?_eq_some_iff]

/-- The winner of a block is its first bid. -/
theorem winningBid?_eq_some_iff {raws : List Bytes} {offer : BundleBid} :
    winningBid? raws = some offer ↔ FirstBid raws offer := by
  simp only [winningBid?, List.findSome?_eq_some_iff, FirstBid, Transaction.soleBid_iff,
    Option.eq_none_iff_forall_ne_some, ne_eq]

/-- The winning bid of a block is that of one of its transactions. -/
private theorem exists_decode_of_winningBid? {raws : List Bytes} {offer : BundleBid}
    (h : winningBid? raws = some offer) :
    ∃ raw ∈ raws, ∃ tx, Transaction.decode raw = .ok tx ∧ tx.bid? = some offer := by
  obtain ⟨before, raw, behind, rfl, ⟨tx, hdecode, hmessages⟩, -⟩ := winningBid?_eq_some_iff.mp h
  exact ⟨raw, by simp, tx, hdecode, Transaction.bid?_eq_some_iff.mpr hmessages⟩

namespace Engine

variable {e start : Engine} {config : Config} {isSigned : Transaction → Bool} {call : Call}
  {calls : List Call} {α β : Type}

/-! ### What calls change -/

/-- A step on an engine that changes nothing but the pool. -/
def ChangesPoolOnly (action : EngineAction α) : Prop :=
  ∀ e, ∃ pool, (action.run.run e).2 = { e with pool }

/-- Returning a value changes nothing. -/
private theorem changesPoolOnly_pure (a : α) : ChangesPoolOnly (pure a) := fun e => ⟨e.pool, rfl⟩

/-- Reading the engine changes nothing. -/
private theorem changesPoolOnly_get : ChangesPoolOnly get := fun e => ⟨e.pool, rfl⟩

/-- An answer that does not depend on the engine changes nothing. -/
private theorem changesPoolOnly_liftM (x : Except Rejection α) : ChangesPoolOnly (liftM x) := by
  intro e
  rw [ExceptT.run_run_liftM]
  exact ⟨e.pool, rfl⟩

/-- A step on the pool changes the pool only. -/
private theorem changesPoolOnly_onPool (action : PoolAction α) :
    ChangesPoolOnly (onPool action) := by
  intro e
  rw [run_onPool]
  exact ⟨_, rfl⟩

/-- Steps that change the pool only do so one behind the other. -/
private theorem ChangesPoolOnly.bind {x : EngineAction α} {f : α → EngineAction β}
    (hx : ChangesPoolOnly x) (hf : ∀ a, ChangesPoolOnly (f a)) : ChangesPoolOnly (x >>= f) := by
  intro e
  obtain ⟨pool, hpool⟩ := hx e
  rw [ExceptT.run_run_bind]
  rcases hrun : x.run.run e with ⟨cause | a, e'⟩
  · rw [hrun] at hpool
    exact ⟨pool, hpool⟩
  · rw [hrun] at hpool
    obtain rfl : e' = { e with pool } := hpool
    obtain ⟨pool', hpool'⟩ := hf a { e with pool }
    exact ⟨pool', hpool'⟩

/-- Submitting a bid changes the pool only. -/
private theorem changesPoolOnly_submitBid (bid : BidCandidate) (height : UInt64)
    (ledger : LedgerView) : ChangesPoolOnly (submitBid bid height ledger) := by
  refine changesPoolOnly_get.bind fun e => ?_
  refine (changesPoolOnly_liftM _).bind fun _ => ?_
  exact (changesPoolOnly_onPool _).bind fun _ => changesPoolOnly_pure _

/-- Submitting a transaction changes the pool only. -/
theorem changesPoolOnly_submit (raw : Bytes) (height : UInt64) (ledger : LedgerView) :
    ChangesPoolOnly (submit raw height ledger) := by
  have hcheck : ∀ {c : Prop} [Decidable c] {cause : Rejection} {f : PUnit → EngineAction Hash}
      {x : EngineAction Hash}, ChangesPoolOnly x →
      ChangesPoolOnly (if c then throw cause >>= f else x) := by
    intro c _ cause f x hx
    split
    · exact fun e => ⟨e.pool, rfl⟩
    · exact hx
  refine changesPoolOnly_get.bind fun e => ?_
  refine (changesPoolOnly_liftM _).bind fun tx => ?_
  refine hcheck (hcheck ?_)
  split
  · refine (changesPoolOnly_liftM _).bind fun bid => ?_
    exact (changesPoolOnly_submitBid bid height ledger).bind fun _ => changesPoolOnly_pure _
  · exact (changesPoolOnly_onPool _).bind fun _ => changesPoolOnly_pure _

/-- What a call can do: change the pool, take notice of a block, or one of the changes of the
authority, which are checked. -/
theorem Call.apply_cases (e : Engine) (call : Call) :
    (∃ pool, call.apply e = { e with pool }) ∨
    (∃ height raws, call = .commit height raws) ∨
    (∃ caller lane registry, e.registry.register e.config.authority caller lane = .ok registry ∧
      call.apply e = { e with registry }) ∨
    (∃ caller lane registry, e.registry.update e.config.authority caller lane = .ok registry ∧
      call.apply e = { e with registry }) ∨
    (∃ caller params, call = .updateParams caller params ∧ params.validate = .ok () ∧
      call.apply e = { e with params }) := by
  cases call with
  | submit raw height ledger => exact .inl (changesPoolOnly_submit raw height ledger e)
  | prepare maxBytes maxGas height ledger =>
    exact .inl ⟨_, congrArg Prod.snd (e.prepare_eq maxBytes maxGas height ledger)⟩
  | commit height raws => exact .inr (.inl ⟨height, raws, rfl⟩)
  | registerLane caller lane =>
    -- A change that is refused leaves everything, and so the pool, as it was.
    simp only [Call.apply, Engine.registerLane]
    cases h : e.registry.register e.config.authority caller lane with
    | error cause => exact .inl ⟨e.pool, rfl⟩
    | ok registry => exact .inr (.inr (.inl ⟨caller, lane, registry, h, rfl⟩))
  | updateLane caller lane =>
    simp only [Call.apply, Engine.updateLane]
    -- Updating a lane goes the same way.
    cases h : e.registry.update e.config.authority caller lane with
    | error cause => exact .inl ⟨e.pool, rfl⟩
    | ok registry => exact .inr (.inr (.inr (.inl ⟨caller, lane, registry, h, rfl⟩)))
  -- Parameters are refused for the caller or for what they say.
  | updateParams caller params =>
    simp only [Call.apply, Engine.updateParams]
    cases hcaller : authorize e.config.authority caller with
    | error cause => exact .inl ⟨e.pool, rfl⟩
    | ok _ =>
      cases hparams : params.validate with
      | error fault => exact .inl ⟨e.pool, rfl⟩
      | ok _ => exact .inr (.inr (.inr (.inr ⟨caller, params, rfl, hparams, rfl⟩)))

/-- No call changes the configuration. -/
theorem config_apply (e : Engine) (call : Call) : (call.apply e).config = e.config := by
  obtain ⟨_, heq⟩ | ⟨_, _, rfl⟩ | ⟨_, _, _, -, heq⟩ | ⟨_, _, _, -, heq⟩ | ⟨_, _, -, -, heq⟩ :=
    call.apply_cases e
  case inr.inl => rfl
  all_goals rw [heq]

/-- No call changes what counts as signed. -/
theorem isSigned_apply (e : Engine) (call : Call) : (call.apply e).isSigned = e.isSigned := by
  obtain ⟨_, heq⟩ | ⟨_, _, rfl⟩ | ⟨_, _, _, -, heq⟩ | ⟨_, _, _, -, heq⟩ | ⟨_, _, -, -, heq⟩ :=
    call.apply_cases e
  case inr.inl => rfl
  all_goals rw [heq]

/-- No calls change the configuration. -/
theorem config_after (e : Engine) (calls : List Call) : (e.after calls).config = e.config := by
  induction calls generalizing e with
  | nil => rfl
  | cons call calls ih => rw [after, List.foldl_cons, ← after, ih, config_apply]

/-- No calls change what counts as signed. -/
theorem isSigned_after (e : Engine) (calls : List Call) :
    (e.after calls).isSigned = e.isSigned := by
  induction calls generalizing e with
  | nil => rfl
  | cons call calls ih => rw [after, List.foldl_cons, ← after, ih, isSigned_apply]

/-! ### What every call keeps -/

/-- The lanes and the parameters in force are valid, and the prices of the history are of
well-formed denominations. -/
structure ChainValid (e : Engine) : Prop where
  registry : e.registry.Valid
  params : e.params.validate = .ok ()
  cleared : e.cleared.PricesValid

/-- An engine is started with valid lanes, parameters and prices. -/
theorem chainValid_ofConfig (h : ofConfig config isSigned = .ok start) : start.ChainValid := by
  obtain ⟨hvalid, registry, hregistry, rfl⟩ := ofConfig_eq_ok_iff.mp h
  have hvalid := Config.validate_eq_ok_iff.mp hvalid
  exact ⟨Registry.valid_of_ofLanes hregistry, hvalid.params,
    ClearedBids.pricesValid_ofList hvalid.keys hvalid.prices⟩

/-- A commit keeps all recorded prices valid. -/
private theorem ChainValid.clearedAfter (he : e.ChainValid) (height : UInt64) (raws : List Bytes) :
    (e.clearedAfter height raws).PricesValid := by
  rw [Engine.clearedAfter]
  split
  · next offer hwinner =>
    obtain ⟨raw, -, tx, hdecode, hoffer⟩ := exists_decode_of_winningBid? hwinner
    have hprice := Transaction.price_isValid_of_decode hdecode hoffer
    exact (he.cleared.record hprice).prune
  · exact he.cleared.prune

/-- Every call keeps the chain's state valid. -/
theorem ChainValid.apply (he : e.ChainValid) (call : Call) : (call.apply e).ChainValid := by
  obtain ⟨pool, heq⟩ | ⟨height, raws, rfl⟩ | ⟨_, _, registry, hregister, heq⟩ |
    ⟨_, _, registry, hupdate, heq⟩ | ⟨_, params, -, hparams, heq⟩ := call.apply_cases e
  · rw [heq]
    exact ⟨he.registry, he.params, he.cleared⟩
  · exact ⟨he.registry, he.params, he.clearedAfter height raws⟩
  · rw [heq]
    exact ⟨he.registry.register hregister, he.params, he.cleared⟩
  · rw [heq]
    exact ⟨he.registry.update hupdate, he.params, he.cleared⟩
  · rw [heq]
    exact ⟨he.registry, hparams, he.cleared⟩

/-- Calls keep the chain's state valid. -/
theorem ChainValid.after (he : e.ChainValid) (calls : List Call) :
    (e.after calls).ChainValid := by
  induction calls generalizing e with
  | nil => exact he
  | cons call calls ih => exact ih (he.apply call)

end Engine

end LaneAuction
