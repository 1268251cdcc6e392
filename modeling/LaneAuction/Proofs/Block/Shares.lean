import LaneAuction.Proofs.Block.Limits
import LaneAuction.Proofs.Lane.Changes

/-!
# The share of a lane

What the lanes before it use never cuts into the share of a lane. A lane with a fraction uses at
most its share, rounded down (`WithinShares.add`), and the fractions of all lanes sum to at most
one, so that their shares together leave what is due to the next lane (`WithinShares.budget_eq`).
So a lane is handed its exact share, whether a block is built or checked
(`LaneContext.lane_share_guaranteed`).
-/

namespace LaneAuction

/-! ### Shares of a number -/

/-- Rounded down, shares of a whole do not add up to more than it. -/
private theorem Decimal.sum_floorOf_le {fractions : List Decimal} (n : Nat)
    (h : (fractions.map fun d => d.atomics.toNat).sum ≤ scale) :
    (fractions.map (floorOf · n)).sum ≤ n := by
  -- Rounding every term down gives no more than rounding the sum down.
  have hfloors : ∀ fractions : List Decimal, (fractions.map (floorOf · n)).sum ≤
      n * (fractions.map fun d => d.atomics.toNat).sum / scale := by
    intro fractions
    induction fractions with
    | nil => simp
    | cons d fractions ih =>
      simp only [List.map_cons, List.sum_cons, Nat.mul_add]
      exact Nat.le_trans (Nat.add_le_add_left ih _) Nat.div_add_div_le_add_div
  apply Nat.le_trans (hfloors fractions)
  apply Nat.div_le_of_le_mul
  rw [Nat.mul_comm scale]
  exact Nat.mul_le_mul_left n h

namespace BlockSpace

variable {limits used space : BlockSpace} {fraction : Decimal} {fractions : List Decimal}

/-- What lanes with some fractions use is at most what is due to them together. -/
structure WithinShares (limits : BlockSpace) (fractions : List Decimal) (used : BlockSpace) :
    Prop where
  bytes : used.bytes.toNat ≤ (fractions.map (Decimal.floorOf · limits.bytes.toNat)).sum
  gas : used.gas.toNat ≤ (fractions.map (Decimal.floorOf · limits.gas.toNat)).sum

namespace WithinShares

/-- Where nothing is shared out, nothing is used. -/
private theorem zero : WithinShares limits [] zero where
  bytes := by simp [BlockSpace.zero]
  gas := by simp [BlockSpace.zero]

/-- A lane that uses nothing leaves its share. -/
private theorem skip (h : WithinShares limits fractions used) :
    WithinShares limits (fractions ++ [fraction]) used where
  bytes := by
    rw [List.map_append, List.sum_append]
    exact Nat.le_trans h.bytes (Nat.le_add_right _ _)
  gas := by
    rw [List.map_append, List.sum_append]
    exact Nat.le_trans h.gas (Nat.le_add_right _ _)

/-- A lane with a fraction uses at most its share. -/
private theorem add (h : WithinShares limits fractions used) (hfraction : fraction.isFraction)
    (hzero : fraction.isZero = false) (hspace : space.fits (budget limits used fraction)) :
    WithinShares limits (fractions ++ [fraction]) (used.add space) := by
  obtain ⟨hbytes, hgas⟩ := fits_iff.mp (fits_share_of_budget hzero hspace)
  obtain ⟨hbytesShare, hgasShare⟩ := toNat_share hfraction limits
  rw [UInt64.le_iff_toNat_le] at hbytes hgas
  constructor
  case bytes =>
    rw [List.map_append, List.sum_append, List.map_singleton, List.sum_singleton, ← hbytesShare]
    apply Nat.le_trans _ (Nat.add_le_add h.bytes hbytes)
    rw [BlockSpace.add, UInt64.toNat_addSat]
    exact Nat.min_le_left _ _
  case gas =>
    rw [List.map_append, List.sum_append, List.map_singleton, List.sum_singleton, ← hgasShare]
    apply Nat.le_trans _ (Nat.add_le_add h.gas hgas)
    rw [BlockSpace.add, UInt64.toNat_addSat]
    exact Nat.min_le_left _ _

/-- As long as the fractions sum to at most one, the share of the next lane is free. -/
private theorem budget_eq (h : WithinShares limits fractions used) (hfraction : fraction.isFraction)
    (hzero : fraction.isZero = false)
    (hsum : ((fractions ++ [fraction]).map fun d => d.atomics.toNat).sum ≤ Decimal.scale) :
    budget limits used fraction = limits.share fraction := by
  have hshares := fun n => Decimal.sum_floorOf_le n hsum
  simp only [List.map_append, List.sum_append, List.map_singleton, List.sum_singleton] at hshares
  obtain ⟨hbytesShare, hgasShare⟩ := toNat_share hfraction limits
  -- Behind the shares of the lanes in front, there is room for this one.
  have hbytes : (limits.share fraction).bytes ≤ (limits.sub used).bytes := by
    have hsum := hshares limits.bytes.toNat
    have hused := h.bytes
    rw [sub, UInt64.le_iff_toNat_le, UInt64.toNat_subSat, hbytesShare]
    omega
  have hgas : (limits.share fraction).gas ≤ (limits.sub used).gas := by
    have hsum := hshares limits.gas.toNat
    have hused := h.gas
    rw [sub, UInt64.le_iff_toNat_le, UInt64.toNat_subSat, hgasShare]
    omega
  simp only [budget, hzero, Bool.false_eq_true, if_false, min, if_pos hbytes, if_pos hgas]

end WithinShares

end BlockSpace

namespace LaneContext

variable {ctx : LaneContext} {kind : LaneKind} {limits used budget : BlockSpace}
  {pending : LaneKind → List PendingTx} {filled s : Selection} {before behind : List PlannedLane}
  {txs left : List ReceivedTx} {fractions : List Decimal}

/-! ### What the lanes before use -/

/-- What the remaining lanes of a plan leave to those behind them: the space in use, and what none
of them takes. -/
def consumed (ctx : LaneContext) (limits : BlockSpace) : (used : BlockSpace) → List PlannedLane →
    List ReceivedTx → Except BlockFault (BlockSpace × List ReceivedTx)
  | used, [], txs => .ok (used, txs)
  | used, ⟨_, none⟩ :: plan, txs => ctx.consumed limits used plan txs
  | used, ⟨lane, some kind⟩ :: plan, txs => do
    let budget := BlockSpace.budget limits used lane.fraction
    let s ← (ctx.take kind budget txs).mapError (.segment lane.id)
    ctx.consumed limits (used.add s.used) plan (txs.drop s.length)

/-- A block is checked lane by lane. -/
private theorem consume_append (ctx : LaneContext) (limits used : BlockSpace)
    (before behind : List PlannedLane) (txs : List ReceivedTx) :
    ctx.consume limits used (before ++ behind) txs = (do
      let (used, left) ← ctx.consumed limits used before txs
      ctx.consume limits used behind left) := by
  induction before generalizing used txs with
  | nil => rfl
  | cons planned before ih =>
    obtain ⟨lane, kind⟩ := planned
    cases kind with
    | none => exact ih used txs
    | some kind =>
      rw [List.cons_append, consume, consumed]
      cases (ctx.take kind (BlockSpace.budget limits used lane.fraction) txs).mapError
          (BlockFault.segment lane.id) with
      | error fault => rfl
      | ok s => exact ih (used.add s.used) (txs.drop s.length)

/-- A block is built lane by lane. -/
theorem assembleFrom_append (ctx : LaneContext) (limits : BlockSpace)
    (pending : LaneKind → List PendingTx) (filled : Selection) (before behind : List PlannedLane) :
    ctx.assembleFrom limits pending filled (before ++ behind) = (do
      let filled ← ctx.assembleFrom limits pending filled before
      ctx.assembleFrom limits pending filled behind) := by
  induction before generalizing filled with
  | nil => rfl
  | cons planned before ih =>
    obtain ⟨lane, kind⟩ := planned
    cases kind with
    | none => exact ih filled
    | some kind =>
      rw [List.cons_append, assembleFrom, assembleFrom]
      cases (ctx.select kind (BlockSpace.budget limits filled.used lane.fraction)
          (filled.txs.map BlockTx.hash) (pending kind)).mapError (AssemblyError.mk lane.id) with
      | error e => rfl
      | ok s => exact ih _

/-- What a lane takes fits its budget. -/
private theorem fits_of_take {s : Segment} (h : ctx.take kind budget txs = .ok s) :
    s.used.fits budget := by
  -- Whichever transactions a lane takes, their space is checked in the end.
  have hofTxs : ∀ {cap run}, Segment.ofTxs budget cap run = .ok s → s.used.fits budget := by
    intro cap run h
    obtain ⟨-, hfits, rfl⟩ := Segment.ofTxs_eq_ok_iff.mp h
    exact hfits
  cases kind with
  | auction =>
    simp only [take, takeBid] at h
    split at h
    · -- Nothing to take, or no bid in front: an empty segment, which is not checked.
      obtain rfl := Except.ok.inj h
      exact BlockSpace.zero_fits budget
    · split at h
      · obtain rfl := Except.ok.inj h
        exact BlockSpace.zero_fits budget
      · simp only [Except.bind_eq_ok_iff, Except.check_eq_ok_iff] at h
        obtain ⟨bid, -, _, -, chunk, -, -, h⟩ := h
        exact hofTxs h
  | free => exact hofTxs h
  | base =>
    simp only [take, Except.bind_eq_ok_iff] at h
    obtain ⟨_, -, h⟩ := h
    exact hofTxs h

/-- The lanes of a plan that are of some kind have fractions, none of them zero. -/
def HaveShares (plan : List PlannedLane) : Prop :=
  ∀ l ∈ plan, l.lane.fraction.isFraction ∧ (l.kind.isSome → l.lane.fraction.isZero = false)

/-- Lanes with shares that are filled use no more than their shares. -/
theorem withinShares_of_assembleFrom (hplan : HaveShares before)
    (hfilled : BlockSpace.WithinShares limits fractions filled.used)
    (h : ctx.assembleFrom limits pending filled before = .ok s) :
    BlockSpace.WithinShares limits (fractions ++ before.map fun l => l.lane.fraction) s.used := by
  induction h using assembleFrom_induction generalizing fractions with
  | nil => rwa [List.map_nil, List.append_nil]
  | skip _ ih =>
    obtain ⟨-, hrest⟩ := List.forall_mem_cons.mp hplan
    rw [List.map_cons, List.append_cons]
    exact ih hrest hfilled.skip
  | select hselect _ ih =>
    obtain ⟨⟨hfraction, hzero⟩, hrest⟩ := List.forall_mem_cons.mp hplan
    obtain ⟨hused, hfits⟩ := fits_of_select hselect
    rw [← hused] at hfits
    rw [List.map_cons, List.append_cons]
    exact ih hrest (hfilled.add hfraction (hzero rfl) hfits)

/-- Lanes with shares that are checked use no more than their shares. -/
theorem withinShares_of_consumed (hplan : HaveShares before)
    (hused : BlockSpace.WithinShares limits fractions used)
    (h : ctx.consumed limits used before txs = .ok (space, left)) :
    BlockSpace.WithinShares limits (fractions ++ before.map fun l => l.lane.fraction) space := by
  induction before generalizing used fractions txs with
  | nil =>
    obtain ⟨rfl, rfl⟩ := Prod.mk.inj (Except.ok.inj h)
    rwa [List.map_nil, List.append_nil]
  | cons planned before ih =>
    obtain ⟨⟨hfraction, hzero⟩, hrest⟩ := List.forall_mem_cons.mp hplan
    obtain ⟨lane, kind⟩ := planned
    rw [List.map_cons, List.append_cons]
    cases kind with
    | none => exact ih hrest hused.skip h
    | some kind =>
      simp only [consumed, Except.bind_eq_ok_iff, Except.mapError_eq_ok_iff] at h
      obtain ⟨segment, htake, h⟩ := h
      exact ih hrest (hused.add hfraction (hzero rfl) (fits_of_take htake)) h

/-! ### The share of the next lane -/

/-- The lanes of a plan in front of one with a fraction leave it its share. -/
private theorem budget_eq_of_withinShares {r : Registry} (hr : r.Valid) {lane : Lane}
    (hplan : (before ++ ⟨lane, some kind⟩ :: behind).map PlannedLane.lane = r.lanes)
    (hlane : lane.fraction.isZero = false)
    (h : BlockSpace.WithinShares limits (before.map fun l => l.lane.fraction) used) :
    BlockSpace.budget limits used lane.fraction = limits.share lane.fraction := by
  have hmem : lane ∈ r.lanes := by
    rw [← hplan, List.map_append, List.map_cons]
    exact List.mem_append_right _ List.mem_cons_self
  apply h.budget_eq (Decimal.isFraction_iff.mpr (hr.fraction_le lane hmem)) hlane
  -- The fractions of the lanes behind make up the rest of the sum.
  have hsum := (Registry.valid_iff.mp hr).1.fractions
  rw [← hplan] at hsum
  simp only [List.map_append, List.map_cons, List.map_map, List.sum_append, List.sum_cons,
    List.map_nil, List.sum_nil, Function.comp_def] at hsum ⊢
  omega

/-- The lanes of a valid registry have shares, if those that are governed have a fraction. -/
private theorem haveShares_of_valid {r : Registry} (hr : r.Valid)
    (hplan : (before ++ behind).map PlannedLane.lane = r.lanes)
    (hbefore : ∀ l ∈ before, l.kind.isSome → l.lane.fraction.isZero = false) :
    HaveShares before := by
  intro l hl
  have hmem : l.lane ∈ r.lanes := by
    rw [← hplan, List.map_append]
    exact List.mem_append_left _ (List.mem_map_of_mem hl)
  exact ⟨Decimal.isFraction_iff.mpr (hr.fraction_le l.lane hmem), hbefore l hl⟩

/-- Whatever the lanes before it select or take, a lane with a fraction is handed its exact share of
the limits, unless one of them may use all that is free. -/
theorem lane_share_guaranteed {lanes : List Lane} {start : Registry}
    (hstart : Registry.ofLanes lanes = .ok start) (changes : List Registry.Change) {lane : Lane}
    (hplan : (before ++ ⟨lane, some kind⟩ :: behind).map PlannedLane.lane =
      (start.after changes).lanes)
    (hlane : lane.fraction.isZero = false)
    (hbefore : ∀ l ∈ before, l.kind.isSome → l.lane.fraction.isZero = false)
    (ctx : LaneContext) (limits : BlockSpace) :
    ∃ share : BlockSpace,
      share.bytes.toNat = lane.fraction.floorOf limits.bytes.toNat ∧
      share.gas.toNat = lane.fraction.floorOf limits.gas.toNat ∧
      (∀ pending filled, ctx.assemble limits pending before = .ok filled →
        BlockSpace.budget limits filled.used lane.fraction = share) ∧
      (∀ pending, ctx.assemble limits pending (before ++ ⟨lane, some kind⟩ :: behind) = (do
        let filled ← ctx.assemble limits pending before
        let s ← (ctx.select kind share (filled.txs.map BlockTx.hash) (pending kind)).mapError
          (⟨lane.id, ·⟩)
        ctx.assembleFrom limits pending
          ⟨filled.txs ++ s.txs, filled.used.add s.used, filled.refused ++ s.refused⟩ behind)) ∧
      (∀ txs used left, ctx.consumed limits .zero before txs = .ok (used, left) →
        BlockSpace.budget limits used lane.fraction = share) ∧
      ∀ txs, ctx.consume limits .zero (before ++ ⟨lane, some kind⟩ :: behind) txs = (do
        let (used, left) ← ctx.consumed limits .zero before txs
        let s ← (ctx.take kind share left).mapError (.segment lane.id)
        ctx.consume limits (used.add s.used) behind (left.drop s.length)) := by
  have hr := (Registry.valid_of_ofLanes hstart).after changes
  have hshares := haveShares_of_valid hr hplan hbefore
  have hmem : lane ∈ (start.after changes).lanes := by
    rw [← hplan, List.map_append, List.map_cons]
    exact List.mem_append_right _ List.mem_cons_self
  -- A share is rounded down once, from the limits of the whole block.
  obtain ⟨hbytes, hgas⟩ :=
    BlockSpace.toNat_share (Decimal.isFraction_iff.mpr (hr.fraction_le lane hmem)) limits
  -- The lanes in front keep to their own shares, whoever builds or receives the block, and all
  -- shares together are one at most.
  have hassemble : ∀ pending filled, ctx.assemble limits pending before = .ok filled →
      BlockSpace.budget limits filled.used lane.fraction = limits.share lane.fraction :=
    fun pending filled h => budget_eq_of_withinShares hr hplan hlane
      (withinShares_of_assembleFrom hshares .zero h)
  have hconsume : ∀ txs used left, ctx.consumed limits .zero before txs = .ok (used, left) →
      BlockSpace.budget limits used lane.fraction = limits.share lane.fraction :=
    fun txs used left h => budget_eq_of_withinShares hr hplan hlane
      (withinShares_of_consumed hshares .zero h)
  refine ⟨limits.share lane.fraction, hbytes, hgas, hassemble, ?_, hconsume, ?_⟩
  · -- Building stops in front of the lane with the same error, or reaches it with the share.
    intro pending
    rw [assemble, assembleFrom_append, ← assemble]
    cases hfilled : ctx.assemble limits pending before with
    | error e => rfl
    | ok filled =>
      rw [Except.ok_bind, Except.ok_bind, assembleFrom, hassemble pending filled hfilled]
  · -- Reading a received block does the same.
    intro txs
    rw [consume_append]
    cases hconsumed : ctx.consumed limits .zero before txs with
    | error fault => rfl
    | ok rest =>
      obtain ⟨used, left⟩ := rest
      rw [Except.ok_bind, Except.ok_bind]
      show ctx.consume limits used (⟨lane, some kind⟩ :: behind) left = _
      rw [consume, hconsume txs used left hconsumed]

/-- The free lane of the default configuration, behind the auction. -/
theorem lane_share_guaranteed_free :
    Registry.ofLanes Genesis.default.lanes = .ok ⟨Genesis.default.lanes⟩ ∧
      (plainPlan.take 1 ++ ⟨⟨"free", .fifth, 1⟩, some .free⟩ :: plainPlan.drop 2).map
        PlannedLane.lane = (Registry.after ⟨Genesis.default.lanes⟩
          [.register .zero .zero ⟨"spare", .zero, 3⟩]).lanes ∧
      Decimal.fifth.isZero = false ∧
      (∀ l ∈ plainPlan.take 1, l.kind.isSome → l.lane.fraction.isZero = false) ∧
      (∀ pending filled, plain.assemble ⟨1004, 7⟩ pending (plainPlan.take 1) = .ok filled →
        BlockSpace.budget ⟨1004, 7⟩ filled.used .fifth = ⟨200, 1⟩) ∧
      ∀ txs used left, plain.consumed ⟨1004, 7⟩ .zero (plainPlan.take 1) txs = .ok (used, left) →
        BlockSpace.budget ⟨1004, 7⟩ used .fifth = ⟨200, 1⟩ := by
  have hplan : (plainPlan.take 1 ++ ⟨⟨"free", .fifth, 1⟩, some .free⟩ :: plainPlan.drop 2).map
      PlannedLane.lane = (Registry.after ⟨Genesis.default.lanes⟩
        [.register .zero .zero ⟨"spare", .zero, 3⟩]).lanes := by decide
  have hlane : Decimal.fifth.isZero = false := by decide
  have hbefore : ∀ l ∈ plainPlan.take 1, l.kind.isSome → l.lane.fraction.isZero = false := by
    decide
  obtain ⟨share, hbytes, hgas, hassemble, -, hconsume, -⟩ := lane_share_guaranteed
    Registry.ofLanes_default _ hplan hlane hbefore plain ⟨1004, 7⟩
  -- A fifth of 1004 bytes and 7 gas, rounded down.
  have hshare : share = ⟨200, 1⟩ := by
    obtain ⟨bytes, gas⟩ := share
    rw [BlockSpace.mk.injEq]
    exact ⟨UInt64.toNat_inj.mp hbytes, UInt64.toNat_inj.mp hgas⟩
  subst hshare
  exact ⟨Registry.ofLanes_default, hplan, hlane, hbefore, hassemble, hconsume⟩

end LaneContext

end LaneAuction
