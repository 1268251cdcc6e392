import LaneAuction.Proofs.Block.Assembly
import LaneAuction.Proofs.Decimal
import Mathlib.Algebra.Ring.Nat

/-!
# Block space in exact arithmetic

Sums of block space saturate, so a sum alone does not tell how much is used. But all terms are
non-negative: a saturated sum is the exact one, cut off at the largest word (`ofTxs_eq`), and below
the largest word a limit that holds of the one holds of the other. So no excess can hide: whatever
gas transactions declare, what fits the budget of a lane keeps within the exact share of the lane,
rounded down (`keepsWithin_of_fits_budget`).
-/

namespace UInt64

/-- Sums that are cut at the largest word may be cut at every step. -/
private theorem clamp_addSat_clamp (m n : Nat) : (clamp m).addSat (clamp n) = clamp (m + n) := by
  apply UInt64.toNat_inj.mp
  rw [toNat_addSat, toNat_clamp, toNat_clamp, toNat_clamp]
  show min (min m (size - 1) + min n (size - 1)) (size - 1) = min (m + n) (size - 1)
  omega

@[simp] theorem clamp_toNat (w : UInt64) : clamp w.toNat = w := by
  have hlt := w.toNat_lt
  apply UInt64.toNat_inj.mp
  rw [toNat_clamp]
  exact Nat.min_eq_left (Nat.le_sub_one_of_lt hlt)

/-- Nothing is cut off from a number that stays below a limit in range. -/
private theorem le_of_clamp_le {n : Nat} {limit : UInt64} (h : clamp n ≤ limit)
    (hlimit : limit < largest) : n ≤ limit.toNat := by
  rw [le_iff_toNat_le, toNat_clamp] at h
  rw [lt_iff_toNat_lt, toNat_largest] at hlimit
  have hmin : min n (size - 1) ≤ limit.toNat := h
  omega

end UInt64

namespace LaneAuction

/-- The size of raw transactions, counted without a bound. -/
def exactBytes (txs : List BlockTx) : Nat := (txs.map fun tx => tx.raw.length).sum

/-- The gas that transactions declare, counted without a bound. -/
def exactGas (txs : List BlockTx) : Nat := (txs.map fun tx => tx.gas.toNat).sum

/-- Transactions use, in exact arithmetic, at most some part of the limits of a block. A gas limit
of zero or of the largest word limits nothing. -/
structure KeepsWithin (maxBytes maxGas : UInt64) (part : Nat → Nat) (txs : List BlockTx) :
    Prop where
  bytes : exactBytes txs ≤ part maxBytes.toNat
  gas : maxGas ≠ 0 → maxGas < .largest → exactGas txs ≤ part maxGas.toNat

namespace BlockSpace

variable {limits used : BlockSpace} {fraction : Decimal} {txs : List BlockTx}
  {maxBytes maxGas : UInt64}

/-- A sum of block space is the exact sum, cut off once. -/
theorem ofTxs_eq (txs : List BlockTx) :
    ofTxs txs = ⟨.clamp (exactBytes txs), .clamp (exactGas txs)⟩ := by
  induction txs with
  | nil => rfl
  | cons tx txs ih =>
    have hbytes := UInt64.clamp_addSat_clamp tx.raw.length (exactBytes txs)
    have hgas := UInt64.clamp_addSat_clamp tx.gas.toNat (exactGas txs)
    rw [UInt64.clamp_toNat] at hgas
    rw [ofTxs_cons, ih, add]
    show BlockSpace.mk ((UInt64.clamp tx.raw.length).addSat _) (tx.gas.addSat _) = _
    rw [hbytes, hgas]
    rfl

/-- What fits a limit of bytes below the largest word is exactly within it. -/
private theorem exactBytes_le_of_fits (h : (ofTxs txs).fits limits)
    (hlimit : limits.bytes < .largest) : exactBytes txs ≤ limits.bytes.toNat := by
  rw [ofTxs_eq, fits_iff] at h
  exact UInt64.le_of_clamp_le h.1 hlimit

/-- What fits a limit of gas below the largest word is exactly within it. -/
private theorem exactGas_le_of_fits (h : (ofTxs txs).fits limits) (hlimit : limits.gas < .largest) :
    exactGas txs ≤ limits.gas.toNat := by
  rw [ofTxs_eq, fits_iff] at h
  exact UInt64.le_of_clamp_le h.2 hlimit

/-- What fits the limits of a block keeps within them in exact arithmetic. -/
theorem keepsWithin_of_fits (hbytes : maxBytes < .largest)
    (h : (ofTxs txs).fits (ofLimits maxBytes maxGas)) :
    KeepsWithin maxBytes maxGas (fun limit => limit) txs where
  bytes := exactBytes_le_of_fits h hbytes
  gas hne hlt := by
    have hlimit : (ofLimits maxBytes maxGas).gas = maxGas := if_neg hne
    have hgas := exactGas_le_of_fits h (by rwa [hlimit])
    rwa [hlimit] at hgas

/-- The share of a fraction is exact, rounded down in each dimension. -/
theorem toNat_share (hfraction : fraction.isFraction) (space : BlockSpace) :
    (space.share fraction).bytes.toNat = fraction.floorOf space.bytes.toNat ∧
      (space.share fraction).gas.toNat = fraction.floorOf space.gas.toNat := by
  obtain ⟨bytes, hbytes, hbytesFloor⟩ := Decimal.mulFloor64_eq_some hfraction space.bytes
  obtain ⟨gas, hgas, hgasFloor⟩ := Decimal.mulFloor64_eq_some hfraction space.gas
  rw [share, hbytes, hgas]
  exact ⟨hbytesFloor, hgasFloor⟩

/-- A lane with a fraction never has more than its share, whatever is used already. -/
theorem fits_share_of_budget {space : BlockSpace} (hzero : fraction.isZero = false)
    (h : space.fits (budget limits used fraction)) : space.fits (limits.share fraction) := by
  rw [budget, hzero] at h
  simp only [Bool.false_eq_true, if_false, fits_iff, min] at h ⊢
  obtain ⟨hbytes, hgas⟩ := h
  constructor
  · split at hbytes
    · exact hbytes
    · next hle => exact UInt64.le_trans hbytes (UInt64.le_of_lt (UInt64.not_le.mp hle))
  · split at hgas
    · exact hgas
    · next hle => exact UInt64.le_trans hgas (UInt64.le_of_lt (UInt64.not_le.mp hle))

/-- What fits the budget of a lane with a fraction keeps within the lane's exact share. -/
theorem keepsWithin_of_fits_budget (hbytes : maxBytes < .largest)
    (hfraction : fraction.isFraction) (hzero : fraction.isZero = false)
    (h : (ofTxs txs).fits (budget (ofLimits maxBytes maxGas) used fraction)) :
    KeepsWithin maxBytes maxGas fraction.floorOf txs := by
  have hshare := fits_share_of_budget hzero h
  obtain ⟨hbytesShare, hgasShare⟩ := toNat_share hfraction (ofLimits maxBytes maxGas)
  have hbytesLe := Decimal.floorOf_le hfraction maxBytes.toNat
  -- The share is below the largest word, so nothing was cut off from a sum that fits it.
  constructor
  case bytes =>
    have hlimit : ((ofLimits maxBytes maxGas).share fraction).bytes < .largest := by
      rw [UInt64.lt_iff_toNat_lt, hbytesShare]
      exact Nat.lt_of_le_of_lt hbytesLe (UInt64.lt_iff_toNat_lt.mp hbytes)
    have hle := exactBytes_le_of_fits hshare hlimit
    rwa [hbytesShare] at hle
  case gas =>
    intro hne hlt
    have hgas : (ofLimits maxBytes maxGas).gas = maxGas := if_neg hne
    rw [hgas] at hgasShare
    have hlimit : ((ofLimits maxBytes maxGas).share fraction).gas < .largest := by
      rw [UInt64.lt_iff_toNat_lt, hgasShare]
      exact Nat.lt_of_le_of_lt (Decimal.floorOf_le hfraction maxGas.toNat)
        (UInt64.lt_iff_toNat_lt.mp hlt)
    have hle := exactGas_le_of_fits hshare hlimit
    rwa [hgasShare] at hle

end BlockSpace

namespace LaneContext

variable {ctx : LaneContext} {kind : LaneKind} {budget limits used : BlockSpace}
  {included : List Hash} {candidates : List PendingTx} {pending : LaneKind → List PendingTx}
  {plan : List PlannedLane} {cut : List (List ReceivedTx)} {filled s : Selection}
  {txs : List BlockTx} {runs : List (List BlockTx)}

/-! ### Received blocks -/

/-- Every segment of a cut fits a budget of its lane. -/
theorem IsCut.forall₂_fits (h : ctx.IsCut limits used plan cut) :
    List.Forall₂ (fun l run => ∃ used,
      (BlockSpace.ofTxs run).fits (BlockSpace.budget limits used l.lane.fraction)) plan
      (cut.map fun run => run.map ReceivedTx.block) := by
  induction h using IsCut.induction with
  | nil => exact .nil
  | skip _ ih => exact .cons ⟨.zero, BlockSpace.zero_fits _⟩ ih
  | segment hrun _ ih => exact .cons ⟨_, hrun.fits⟩ ih

/-! ### Built blocks -/

/-- What a lane selects fits its budget. -/
theorem fits_of_select (h : ctx.select kind budget included candidates = .ok s) :
    s.used = .ofTxs s.txs ∧ (BlockSpace.ofTxs s.txs).fits budget := by
  -- Free and base lanes are filled in one way, up to a cap.
  have hfill : ∀ cap, fill budget cap included candidates = s →
      s.used = .ofTxs s.txs ∧ (BlockSpace.ofTxs s.txs).fits budget := by
    intro cap heq
    obtain ⟨picked, hpicks, hfill⟩ := exists_picks_of_fill budget cap included candidates
    have hfits := hpicks.fits
    rw [BlockSpace.zero_add] at hfits
    rw [← heq, hfill]
    exact ⟨rfl, hfits⟩
  cases kind with
  | auction =>
    obtain ⟨htxs, hused⟩ | ⟨r, -, -, hplaces, hused⟩ := clear_cases h
    · rw [htxs]
      exact ⟨hused, BlockSpace.zero_fits budget⟩
    · exact ⟨hused, hplaces.fits⟩
  | free => exact hfill (ctx.cap .free) (Except.ok.inj h)
  | base => exact hfill (ctx.cap .base) (Except.ok.inj h)

/-- The transactions that each lane of a plan selects, behind those that the block has already. A
lane of no kind selects nothing. -/
def Fills (ctx : LaneContext) (limits : BlockSpace) (pending : LaneKind → List PendingTx) :
    (txs : List BlockTx) → List PlannedLane → List (List BlockTx) → Prop
  | _, [], [] => True
  | txs, ⟨_, none⟩ :: plan, run :: runs => run = [] ∧ ctx.Fills limits pending txs plan runs
  | txs, ⟨lane, some kind⟩ :: plan, run :: runs =>
    (∃ refused, ctx.select kind (BlockSpace.budget limits (.ofTxs txs) lane.fraction)
      (txs.map BlockTx.hash) (pending kind) = .ok ⟨run, .ofTxs run, refused⟩) ∧
      ctx.Fills limits pending (txs ++ run) plan runs
  | _, _, _ => False

/-- The induction over what the lanes of a plan select: a lane of no kind is passed over. -/
theorem Fills.induction
    {motive : (txs : List BlockTx) → (plan : List PlannedLane) → (runs : List (List BlockTx)) →
      ctx.Fills limits pending txs plan runs → Prop}
    (nil : ∀ {txs}, motive txs [] [] trivial)
    (skip : ∀ {txs lane plan runs} (h : ctx.Fills limits pending txs plan runs),
      motive txs plan runs h → motive txs (⟨lane, none⟩ :: plan) ([] :: runs) ⟨rfl, h⟩)
    (select : ∀ {txs lane kind plan run runs refused}
      (hselect : ctx.select kind (BlockSpace.budget limits (.ofTxs txs) lane.fraction)
        (txs.map BlockTx.hash) (pending kind) = .ok ⟨run, .ofTxs run, refused⟩)
      (h : ctx.Fills limits pending (txs ++ run) plan runs), motive (txs ++ run) plan runs h →
      motive txs (⟨lane, some kind⟩ :: plan) (run :: runs) ⟨⟨refused, hselect⟩, h⟩)
    {txs : List BlockTx} {plan : List PlannedLane} {runs : List (List BlockTx)}
    (h : ctx.Fills limits pending txs plan runs) : motive txs plan runs h := by
  -- `Fills` is a recursive definition, so its cases are found by those of the plan and the runs.
  induction plan generalizing txs runs with
  | nil =>
    cases runs with
    | nil => exact nil
    | cons run runs => exact nomatch h
  | cons planned plan ih =>
    obtain ⟨lane, kind⟩ := planned
    cases runs with
    | nil => cases kind <;> exact nomatch h
    | cons run runs =>
      cases kind with
      | none =>
        obtain ⟨rfl, h⟩ := h
        exact skip h (ih h)
      | some kind =>
        obtain ⟨⟨refused, hselect⟩, h⟩ := h
        exact select hselect h (ih h)

/-- A block is built of what its lanes select. -/
theorem exists_fills_of_assembleFrom (hused : filled.used = .ofTxs filled.txs)
    (h : ctx.assembleFrom limits pending filled plan = .ok s) :
    ∃ runs, ctx.Fills limits pending filled.txs plan runs ∧ s.txs = filled.txs ++ runs.flatten := by
  induction h using assembleFrom_induction with
  | nil => exact ⟨[], trivial, by simp⟩
  | skip _ ih =>
    obtain ⟨runs, hruns, htxs⟩ := ih hused
    exact ⟨[] :: runs, ⟨rfl, hruns⟩, htxs⟩
  | @select filled _ _ _ selected hselect _ ih =>
    have hselected := (fits_of_select hselect).1
    have hused' : filled.used.add selected.used = .ofTxs (filled.txs ++ selected.txs) := by
      rw [hused, hselected, BlockSpace.ofTxs_append]
    obtain ⟨runs, hruns, htxs⟩ := ih hused'
    refine ⟨selected.txs :: runs, ⟨⟨selected.refused, ?_⟩, hruns⟩, ?_⟩
    · rw [← hused, hselect, ← hselected]
    · rw [htxs, List.flatten_cons, List.append_assoc]

/-- Every run that fills a lane fits the budget of the lane. -/
theorem Fills.forall₂_fits (h : ctx.Fills limits pending txs plan runs) :
    List.Forall₂ (fun l run => ∃ used,
      (BlockSpace.ofTxs run).fits (BlockSpace.budget limits used l.lane.fraction)) plan runs := by
  induction h using Fills.induction with
  | nil => exact .nil
  | skip _ ih => exact .cons ⟨.zero, BlockSpace.zero_fits _⟩ ih
  | select hselect _ ih => exact .cons ⟨_, (fits_of_select hselect).2⟩ ih

/-- What is built keeps within the limits. -/
theorem Fills.fits (h : ctx.Fills limits pending txs plan runs)
    (htxs : (BlockSpace.ofTxs txs).fits limits) :
    (BlockSpace.ofTxs (txs ++ runs.flatten)).fits limits := by
  induction h using Fills.induction with
  | nil => rwa [List.flatten_nil, List.append_nil]
  | skip _ ih => exact ih htxs
  | select hselect _ ih =>
    have hrun := BlockSpace.fits_add_of_budget htxs (fits_of_select hselect).2
    rw [← BlockSpace.ofTxs_append] at hrun
    rw [List.flatten_cons, ← List.append_assoc]
    exact ih hrun

end LaneContext

end LaneAuction
