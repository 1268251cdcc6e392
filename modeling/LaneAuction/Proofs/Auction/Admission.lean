import LaneAuction.Auction.Admission
import LaneAuction.Proofs.Except
import Mathlib.Data.List.Forall2

/-!
# What an admissible bid is

The checks of `BidContext.accept`, as the conditions that they stand for: `Admissible` holds of a
bid and its opened bundle if every check is passed, and then the bid places itself and its bundle.
-/

namespace LaneAuction

namespace BidContext

variable {ctx : BidContext} {bid : BidCandidate} {bundle : List Bundled} {chunk : List BlockTx}

/-- A transaction that a bundle may hold, as it is decoded. -/
structure Opens (ctx : BidContext) (raw : Bytes) (b : Bundled) : Prop where
  decode : Transaction.decode raw = .ok b.tx
  noBid : b.tx.containsBid = false
  signed : ctx.isSigned b.tx
  raw_eq : b.raw = raw
  hash_eq : b.hash = Transaction.hash raw

/-- Only signatures depend on the context. -/
theorem Opens.of_isSigned {ctx' : BidContext} {raw : Bytes} {b : Bundled} (h : ctx.Opens raw b)
    (hsigned : ctx'.isSigned = ctx.isSigned) : ctx'.Opens raw b :=
  ⟨h.decode, h.noBid, hsigned ▸ h.signed, h.raw_eq, h.hash_eq⟩

/-- So two contexts with the same signatures open the same bundles. -/
theorem openBundle_congr {ctx' : BidContext} (hsigned : ctx'.isSigned = ctx.isSigned) (index : Nat)
    (raws : List Bytes) : ctx'.openBundle index raws = ctx.openBundle index raws := by
  induction raws generalizing index with
  | nil => rfl
  | cons raw raws ih => simp only [openBundle, hsigned, ih]

/-- Repetitions depend on what is pending and on the sequences of those who sign the bundle. -/
theorem checkRepeats_congr {ctx' : BidContext} {hashes : List Hash}
    {nonces : List (Address × UInt64)} {index : Nat} (hpending : ctx'.isPending = ctx.isPending)
    (hsequence : ∀ b ∈ bundle, ctx'.ledger.sequence b.tx.body.signer =
      ctx.ledger.sequence b.tx.body.signer) :
    ctx'.checkRepeats hashes nonces index bundle = ctx.checkRepeats hashes nonces index bundle := by
  induction bundle generalizing hashes nonces index with
  | nil => rfl
  | cons b bundle ih =>
    obtain ⟨hfirst, hrest⟩ := List.forall_mem_cons.mp hsequence
    simp only [checkRepeats, hpending, hfirst, ih hrest]

/-- Every transaction of an opened bundle was opened from some raw one. -/
theorem exists_opens_of_mem {raws : List Bytes} {b : Bundled}
    (h : List.Forall₂ ctx.Opens raws bundle) (hb : b ∈ bundle) : ∃ raw, ctx.Opens raw b := by
  induction h with
  | nil => exact nomatch hb
  | cons hopens _ ih =>
    obtain rfl | hb := List.mem_cons.mp hb
    · exact ⟨_, hopens⟩
    · exact ih hb

/-- Every raw transaction of a bundle that opens was opened. -/
theorem exists_opens_of_mem_raws {raws : List Bytes} {raw : Bytes}
    (h : List.Forall₂ ctx.Opens raws bundle) (hraw : raw ∈ raws) : ∃ b, ctx.Opens raw b := by
  induction h with
  | nil => exact nomatch hraw
  | cons hopens _ ih =>
    obtain rfl | hraw := List.mem_cons.mp hraw
    · exact ⟨_, hopens⟩
    · exact ih hraw

/-- A bundle opens if and only if all of its transactions do, each on its own. -/
theorem openBundle_eq_ok_iff {index : Nat} {raws : List Bytes} :
    ctx.openBundle index raws = .ok bundle ↔ List.Forall₂ ctx.Opens raws bundle := by
  induction raws generalizing index bundle with
  | nil => simp [openBundle, eq_comm]
  | cons raw raws ih =>
    simp only [openBundle, Except.bind_eq_ok_iff, Except.mapError_eq_ok_iff,
      Except.check_eq_ok_iff, ih, Except.pure_eq_ok, Except.ok.injEq, List.forall₂_cons_left_iff]
    constructor
    · intro h
      obtain ⟨tx, htx, hbid, hsigned, rest, hrest, rfl⟩ := h
      exact ⟨_, rest, ⟨htx, by simpa using hbid, by simpa using hsigned, rfl, rfl⟩, hrest, rfl⟩
    · intro h
      obtain ⟨b, rest, hb, hrest, rfl⟩ := h
      refine ⟨b.tx, hb.decode, by simp [hb.noBid], by simp [hb.signed], rest, hrest, ?_⟩
      rw [← hb.hash_eq, ← hb.raw_eq]

/-- The account and the nonce that a transaction uses up. -/
def nonceKey (b : Bundled) : Address × UInt64 := (b.tx.body.signer, b.tx.body.nonce)

/-- Nothing comes twice: no hash and no nonce, among the bundle and what is in front of it; nothing
is pending, and every nonce is still to be used. -/
structure Fresh (ctx : BidContext) (hashes : List Hash) (nonces : List (Address × UInt64))
    (bundle : List Bundled) : Prop where
  hashes_nodup : (bundle.map Bundled.hash).Nodup
  hashes_new : ∀ b ∈ bundle, b.hash ∉ hashes
  notPending : ∀ b ∈ bundle, ctx.isPending b.hash = false
  nonces_nodup : (bundle.map nonceKey).Nodup
  nonces_new : ∀ b ∈ bundle, nonceKey b ∉ nonces
  unused : ∀ b ∈ bundle, ∃ sequence, ctx.ledger.sequence b.tx.body.signer = .ok sequence ∧
    sequence ≤ b.tx.body.nonce

/-- Nothing is repeated if and only if the bundle is fresh behind what was seen. -/
theorem checkRepeats_eq_ok_iff {hashes : List Hash} {nonces : List (Address × UInt64)}
    {index : Nat} :
    ctx.checkRepeats hashes nonces index bundle = .ok () ↔ ctx.Fresh hashes nonces bundle := by
  -- For whatever was seen in front: a step adds the hash and the nonce of the first transaction.
  induction bundle generalizing hashes nonces index with
  | nil =>
    simp only [checkRepeats, true_iff]
    constructor <;> simp
  | cons b bundle ih =>
    simp only [checkRepeats, Except.check_eq_ok_iff, Except.bind_eq_ok_iff,
      Except.mapError_eq_ok_iff, ih]
    constructor
    · -- What the step lets pass of the first transaction joins what holds of the others.
      intro h
      obtain ⟨hhash, hpending, hnonce, sequence, hsequence, hunused, hrest⟩ := h
      have hhash : b.hash ∉ hashes := by simpa using hhash
      have hnonce : nonceKey b ∉ nonces := by simpa [nonceKey] using hnonce
      obtain ⟨hhashes, hnewHashes⟩ :=
        List.nodup_map_cons_and_new_iff.mpr ⟨hhash, hrest.hashes_nodup, hrest.hashes_new⟩
      obtain ⟨hnonces, hnewNonces⟩ :=
        List.nodup_map_cons_and_new_iff.mpr ⟨hnonce, hrest.nonces_nodup, hrest.nonces_new⟩
      have hpendings : ∀ b' ∈ b :: bundle, ctx.isPending b'.hash = false :=
        List.forall_mem_cons.mpr ⟨by simpa using hpending, hrest.notPending⟩
      have hunuseds : ∀ b' ∈ b :: bundle, ∃ sequence,
          ctx.ledger.sequence b'.tx.body.signer = .ok sequence ∧ sequence ≤ b'.tx.body.nonce :=
        List.forall_mem_cons.mpr ⟨⟨sequence, hsequence, UInt64.not_lt.mp hunused⟩, hrest.unused⟩
      exact ⟨hhashes, hnewHashes, hpendings, hnonces, hnewNonces, hunuseds⟩
    · -- Of a list without repeats, the first is new and the others are new behind it.
      intro h
      obtain ⟨hhash, hhashes, hnewHashes⟩ :=
        List.nodup_map_cons_and_new_iff.mp ⟨h.hashes_nodup, h.hashes_new⟩
      obtain ⟨hnonce, hnonces, hnewNonces⟩ :=
        List.nodup_map_cons_and_new_iff.mp ⟨h.nonces_nodup, h.nonces_new⟩
      obtain ⟨hpending, hpendings⟩ := List.forall_mem_cons.mp h.notPending
      obtain ⟨⟨sequence, hsequence, hunused⟩, hunuseds⟩ := List.forall_mem_cons.mp h.unused
      exact ⟨by simpa using hhash, by simp [hpending], by simpa [nonceKey] using hnonce, sequence,
        hsequence, UInt64.not_lt.mpr hunused, hhashes, hnewHashes, hpendings, hnonces, hnewNonces,
        hunuseds⟩

/-- A bid with its opened bundle passes every check. -/
structure Admissible (ctx : BidContext) (bid : BidCandidate) (bundle : List Bundled) : Prop where
  inTime : ctx.height < bid.tx.body.timeout
  bidder : bid.offer.bidder = bid.tx.body.signer
  nonempty : bid.offer.bundle ≠ []
  size : bid.offer.bundle.length ≤ ctx.params.maxBundleSize.toNat
  opens : List.Forall₂ ctx.Opens bid.offer.bundle bundle
  fresh : ctx.Fresh [] [(bid.tx.body.signer, bid.tx.body.nonce)] bundle
  sandwich : ctx.params.frontRunningProtection →
    checkSandwich bid.offer.bidder false 0 bundle = .ok ()
  denom : bid.offer.price.denom = ctx.params.denom
  reserve : ctx.params.reserve.amount ≤ bid.offer.price.amount
  solvent : ctx.checkSolvency bid bundle = .ok ()

/-- The hash that a bid is known under is no part of what is checked. -/
theorem Admissible.withHash (h : ctx.Admissible bid bundle) (hash : Hash) :
    ctx.Admissible { bid with hash } bundle :=
  ⟨h.inTime, h.bidder, h.nonempty, h.size, h.opens, h.fresh, h.sandwich, h.denom, h.reserve,
    h.solvent⟩

/-- A bid is accepted if and only if it is admissible, and then places its own transaction and the
bundle behind it. -/
theorem accept_eq_ok_iff : ctx.accept bid = .ok chunk ↔ ∃ bundle, ctx.Admissible bid bundle ∧
    chunk = .ofRaw bid.raw bid.tx.body.gas :: bundle.map Bundled.toBlockTx := by
  -- Each check in its order, and what it lets pass.
  simp only [accept, checkStructure, Except.bind_eq_ok_iff, Except.ite_bind_eq_ok_iff,
    Except.throw_eq_error, reduceCtorEq, exists_false, imp_false, openBundle_eq_ok_iff,
    Except.pure_eq_ok, Except.ok.injEq, ne_eq, not_not, not_or, UInt64.not_le, Nat.not_lt]
  constructor
  · intro h
    obtain ⟨htime, bundle, ⟨hbidder, hne, hsize, hopens⟩, _, hrepeats, hsandwich,
      ⟨hdenom, hreserve⟩, _, hsolvent, rfl⟩ := h
    -- The sandwich rule is checked under a parameter only, so it stays an implication.
    refine ⟨bundle, ⟨htime, hbidder, by simpa using hne, hsize, hopens,
      checkRepeats_eq_ok_iff.mp hrepeats, ?_, hdenom,
      Nat.not_lt.mp hreserve, hsolvent⟩, rfl⟩
    intro hprotect
    obtain ⟨_, h⟩ := hsandwich hprotect
    exact h
  · intro h
    obtain ⟨bundle, h, rfl⟩ := h
    exact ⟨h.inTime, bundle, ⟨h.bidder, by simpa using h.nonempty, h.size, h.opens⟩, (),
      checkRepeats_eq_ok_iff.mpr h.fresh,
      fun hprotect => ⟨(), h.sandwich hprotect⟩, ⟨h.denom, Nat.not_lt.mpr h.reserve⟩, (), h.solvent,
      rfl⟩

/-- An opened bundle has the hashes of its raw transactions. -/
theorem hashes_of_opens {raws : List Bytes} (h : List.Forall₂ ctx.Opens raws bundle) :
    bundle.map Bundled.hash = raws.map Transaction.hash := by
  induction h with
  | nil => rfl
  | cons hb _ ih => rw [List.map_cons, List.map_cons, hb.hash_eq, ih]

/-- What an accepted bid places has the hashes of the bid and of its bundle. -/
theorem hashes_of_accept (h : ctx.accept bid = .ok chunk) :
    chunk.map BlockTx.hash = Transaction.hash bid.raw :: bid.offer.hashes := by
  obtain ⟨bundle, hbid, rfl⟩ := accept_eq_ok_iff.mp h
  rw [List.map_cons, List.map_map, BundleBid.hashes, ← hashes_of_opens hbid.opens]
  rfl

/-- What is accepted is accepted also where less is pending. -/
theorem accept_of_accept {isPending : Hash → Bool}
    (hless : ∀ hash, isPending hash → ctx.isPending hash) (h : ctx.accept bid = .ok chunk) :
    { ctx with isPending }.accept bid = .ok chunk := by
  obtain ⟨bundle, hbid, rfl⟩ := accept_eq_ok_iff.mp h
  have hfresh := hbid.fresh
  have hnotPending : ∀ b ∈ bundle, isPending b.hash = false := by
    intro b hb
    rw [Bool.eq_false_iff]
    exact fun hpending => Bool.eq_false_iff.mp (hfresh.notPending b hb) (hless _ hpending)
  refine accept_eq_ok_iff.mpr ⟨bundle, ⟨hbid.inTime, hbid.bidder, hbid.nonempty, hbid.size,
    hbid.opens.imp fun _ _ h => h.of_isSigned rfl, ?_, hbid.sandwich, hbid.denom, hbid.reserve,
    hbid.solvent⟩, rfl⟩
  exact ⟨hfresh.hashes_nodup, hfresh.hashes_new, hnotPending, hfresh.nonces_nodup,
    hfresh.nonces_new, hfresh.unused⟩

end BidContext

end LaneAuction
