import LaneAuction.Proofs.Auction.Admission
import LaneAuction.Proofs.Ledger.Payments

/-!
# The rules of admission and the first that is broken

A bid is accepted if it satisfies all rules (`BidContext.Satisfies`), and else rejected for the
first that it breaks (`BidContext.Rejects`). The rules come in groups, and a group that goes along
the bundle, or along the payments of the chunk, stops at the first element that fails.

The rules are not the checks over again. They keep nothing while going along the bundle: what was
seen is what stands in front. The bundle is cut once into what the bidder signs and what others
sign, and payments are compared in exact integers with what earlier ones leave.
-/

namespace LaneAuction

namespace BidContext

variable {ctx : BidContext} {bid : BidCandidate} {bundle before : List Bundled} {b : Bundled}
  {raws opened : List Bytes} {raw : Bytes} {e : Rejection} {bidder : Address}
  {carrier : Address × UInt64}

/-! ### Opening the bundle -/

/-- Why a raw transaction, behind others, cannot be part of a bundle. -/
inductive Unopened (ctx : BidContext) (opened : List Bytes) (raw : Bytes) : Rejection → Prop where
  | undecodable {cause : Wire.Error} (hdecode : Transaction.decode raw = .error cause) :
      ctx.Unopened opened raw (.malformed (.undecodableBundled opened.length cause))
  | nestedBid {tx : Transaction} (hdecode : Transaction.decode raw = .ok tx)
      (hbid : tx.containsBid) : ctx.Unopened opened raw (.nestedBid opened.length)
  | unsigned {tx : Transaction} (hdecode : Transaction.decode raw = .ok tx)
      (hbid : tx.containsBid = false) (hsigned : ctx.isSigned tx = false) :
      ctx.Unopened opened raw (.malformed (.badBundledSignature opened.length))

/-- Opening fails on the first transaction, or opens it and fails on the rest. -/
private theorem openBundle_cons_eq_error_iff :
    ctx.openBundle opened.length (raw :: raws) = .error e ↔ ctx.Unopened opened raw e ∨
      (∃ b, ctx.Opens raw b) ∧ ctx.openBundle (opened.length + 1) raws = .error e := by
  simp only [openBundle, Except.bind_eq_error_iff, Except.mapError_eq_error_iff,
    Except.mapError_eq_ok_iff, Except.check_eq_error_iff, Except.pure_eq_ok, reduceCtorEq,
    and_false, exists_false, or_false]
  constructor
  · -- Either this one does not open, in one of three ways, or it opens and a later one does not.
    intro h
    obtain ⟨cause, hdecode, rfl⟩ | ⟨tx, hdecode, h⟩ := h
    · exact .inl (.undecodable hdecode)
    obtain ⟨hbid, rfl⟩ | ⟨hbid, ⟨hsigned, rfl⟩ | ⟨hsigned, hrest⟩⟩ := h
    · exact .inl (.nestedBid hdecode hbid)
    · exact .inl (.unsigned hdecode (by simpa using hbid) (by simpa using hsigned))
    · have hopens : ctx.Opens raw ⟨Transaction.hash raw, raw, tx⟩ :=
        ⟨hdecode, by simpa using hbid, by simpa using hsigned, rfl, rfl⟩
      exact .inr ⟨⟨_, hopens⟩, hrest⟩
  · intro h
    obtain h | ⟨⟨b, hopens⟩, hrest⟩ := h
    · cases h with
      | undecodable hdecode => exact .inl ⟨_, hdecode, rfl⟩
      | nestedBid hdecode hbid => exact .inr ⟨_, hdecode, .inl ⟨hbid, rfl⟩⟩
      | unsigned hdecode hbid hsigned =>
        exact .inr ⟨_, hdecode, .inr ⟨by simp [hbid], .inl ⟨by simp [hsigned], rfl⟩⟩⟩
    · -- It opens, so the error is that of the rest.
      exact .inr ⟨b.tx, hopens.decode, .inr ⟨by simp [hopens.noBid],
        .inr ⟨by simp [hopens.signed], hrest⟩⟩⟩

/-- A bundle is not opened for the first transaction of it that is not. -/
theorem openBundle_eq_error_iff : ctx.openBundle opened.length raws = .error e ↔
    List.FirstFails (fun _ raw => ∃ b, ctx.Opens raw b) ctx.Unopened opened raws e := by
  induction raws generalizing opened with
  | nil => simp [openBundle]
  | cons raw raws ih =>
    rw [openBundle_cons_eq_error_iff, List.firstFails_cons_iff, ← ih, List.length_append,
      List.length_singleton]

/-! ### Repetitions -/

/-- Nothing of a bundled transaction comes in front of it: not its hash, and not its nonce, which
the bid's own transaction may have used up, too. It is not pending, and its nonce is to be used. -/
structure FreshBehind (ctx : BidContext) (carrier : Address × UInt64) (before : List Bundled)
    (b : Bundled) : Prop where
  hash_new : b.hash ∉ before.map Bundled.hash
  notPending : ctx.isPending b.hash = false
  nonce_new : nonceKey b ∉ carrier :: before.map nonceKey
  unused : ∃ sequence, ctx.ledger.sequence b.tx.body.signer = .ok sequence ∧
    sequence ≤ b.tx.body.nonce

/-- What a bundled transaction repeats, or why that is not known. -/
inductive Repeats (ctx : BidContext) (carrier : Address × UInt64) (before : List Bundled)
    (b : Bundled) : Rejection → Prop where
  | twice (hhash : b.hash ∈ before.map Bundled.hash) :
      ctx.Repeats carrier before b (.repeated (.bundledTwice before.length))
  | pending (hhash : b.hash ∉ before.map Bundled.hash) (hpending : ctx.isPending b.hash) :
      ctx.Repeats carrier before b (.repeated (.bundledPendingAt before.length))
  | nonceTwice (hhash : b.hash ∉ before.map Bundled.hash) (hpending : ctx.isPending b.hash = false)
      (hnonce : nonceKey b ∈ carrier :: before.map nonceKey) :
      ctx.Repeats carrier before b (.repeated (.nonceTwice before.length b.tx.body.nonce))
  | unread {cause : LedgerError} (hhash : b.hash ∉ before.map Bundled.hash)
      (hpending : ctx.isPending b.hash = false)
      (hnonce : nonceKey b ∉ carrier :: before.map nonceKey)
      (hsequence : ctx.ledger.sequence b.tx.body.signer = .error cause) :
      ctx.Repeats carrier before b (.ofLedger cause)
  | nonceUsed {sequence : UInt64} (hhash : b.hash ∉ before.map Bundled.hash)
      (hpending : ctx.isPending b.hash = false)
      (hnonce : nonceKey b ∉ carrier :: before.map nonceKey)
      (hsequence : ctx.ledger.sequence b.tx.body.signer = .ok sequence)
      (hused : b.tx.body.nonce < sequence) :
      ctx.Repeats carrier before b
        (.repeated (.nonceUsed before.length b.tx.body.nonce sequence))

/-- The check for repetitions, with what it has seen given by what stands in front. -/
def checkRepeatsBehind (ctx : BidContext) (carrier : Address × UInt64)
    (before bundle : List Bundled) : Except Rejection Unit :=
  ctx.checkRepeats (before.map Bundled.hash).reverse ((before.map nonceKey).reverse ++ [carrier])
    before.length bundle

/-- The check fails on the first transaction, or finds it fresh and fails on the rest. -/
private theorem checkRepeatsBehind_cons_eq_error_iff :
    ctx.checkRepeatsBehind carrier before (b :: bundle) = .error e ↔
      ctx.Repeats carrier before b e ∨ ctx.FreshBehind carrier before b ∧
        ctx.checkRepeatsBehind carrier (before ++ [b]) bundle = .error e := by
  -- What was seen is kept latest first, and only looked up.
  have hhashes : (before.map Bundled.hash).reverse.contains b.hash ↔
      b.hash ∈ before.map Bundled.hash := by simp
  have hnonces : ((before.map nonceKey).reverse ++ [carrier]).contains
      (b.tx.body.signer, b.tx.body.nonce) ↔ nonceKey b ∈ carrier :: before.map nonceKey := by
    simp [nonceKey, or_comm]
  have hrest : ctx.checkRepeats (b.hash :: (before.map Bundled.hash).reverse)
      ((b.tx.body.signer, b.tx.body.nonce) :: ((before.map nonceKey).reverse ++ [carrier]))
      (before.length + 1) bundle = ctx.checkRepeatsBehind carrier (before ++ [b]) bundle := by
    simp [checkRepeatsBehind, nonceKey]
  rw [checkRepeatsBehind, checkRepeats]
  simp only [Except.check_eq_error_iff, Except.bind_eq_error_iff, Except.mapError_eq_error_iff,
    Except.mapError_eq_ok_iff, hhashes, hnonces, hrest]
  -- Five checks in this order, and each reason carries that the ones before it passed.
  constructor
  · intro h
    obtain ⟨hhash, rfl⟩ | ⟨hhash, h⟩ := h
    · exact .inl (.twice hhash)
    obtain ⟨hpending, rfl⟩ | ⟨hpending, h⟩ := h
    · exact .inl (.pending hhash hpending)
    have hpending : ctx.isPending b.hash = false := by simpa using hpending
    obtain ⟨hnonce, rfl⟩ | ⟨hnonce, h⟩ := h
    · exact .inl (.nonceTwice hhash hpending hnonce)
    obtain ⟨cause, hsequence, rfl⟩ | ⟨sequence, hsequence, h⟩ := h
    · exact .inl (.unread hhash hpending hnonce hsequence)
    obtain ⟨hused, rfl⟩ | ⟨hused, hbehind⟩ := h
    · exact .inl (.nonceUsed hhash hpending hnonce hsequence hused)
    · exact .inr ⟨⟨hhash, hpending, hnonce, sequence, hsequence, UInt64.not_lt.mp hused⟩, hbehind⟩
  · intro h
    obtain h | ⟨h, hbehind⟩ := h
    · cases h with
      | twice hhash => exact .inl ⟨hhash, rfl⟩
      | pending hhash hpending => exact .inr ⟨hhash, .inl ⟨hpending, rfl⟩⟩
      | nonceTwice hhash hpending hnonce =>
        exact .inr ⟨hhash, .inr ⟨by simp [hpending], .inl ⟨hnonce, rfl⟩⟩⟩
      | unread hhash hpending hnonce hsequence =>
        exact .inr ⟨hhash, .inr ⟨by simp [hpending], .inr ⟨hnonce, .inl ⟨_, hsequence, rfl⟩⟩⟩⟩
      | nonceUsed hhash hpending hnonce hsequence hused =>
        exact .inr ⟨hhash, .inr ⟨by simp [hpending], .inr ⟨hnonce,
          .inr ⟨_, hsequence, .inl ⟨hused, rfl⟩⟩⟩⟩⟩
    · -- All five checks pass, and the rest of the bundle is checked behind one more.
      obtain ⟨sequence, hsequence, hunused⟩ := h.unused
      exact .inr ⟨h.hash_new, .inr ⟨by simp [h.notPending], .inr ⟨h.nonce_new,
        .inr ⟨sequence, hsequence, .inr ⟨UInt64.not_lt.mpr hunused, hbehind⟩⟩⟩⟩⟩

/-- Repetitions are reported for the first transaction that is not fresh. -/
private theorem checkRepeatsBehind_eq_error_iff :
    ctx.checkRepeatsBehind carrier before bundle = .error e ↔
      List.FirstFails (ctx.FreshBehind carrier) (ctx.Repeats carrier) before bundle e := by
  induction bundle generalizing before with
  | nil => simp [checkRepeatsBehind, checkRepeats]
  | cons b bundle ih => rw [checkRepeatsBehind_cons_eq_error_iff, List.firstFails_cons_iff, ih]

/-- Repetitions in a whole bundle are reported for the first transaction that is not fresh. -/
theorem checkRepeats_eq_error_iff : ctx.checkRepeats [] [carrier] 0 bundle = .error e ↔
    List.FirstFails (ctx.FreshBehind carrier) (ctx.Repeats carrier) [] bundle e := by
  rw [← checkRepeatsBehind_eq_error_iff]
  rfl

/-! ### The bidder's own transactions -/

/-- The bundle starts with what the bidder signs, if anything, and others sign the rest. -/
def OwnFirst (bidder : Address) (bundle : List Bundled) : Prop :=
  ∃ own others, bundle = own ++ others ∧ (∀ b ∈ own, b.tx.body.signer = bidder) ∧
    ∀ b ∈ others, b.tx.body.signer ≠ bidder

/-- Once another signer was seen, the check passes if the bidder signs nothing more. -/
private theorem checkSandwich_true_eq_ok_iff {index : Nat} :
    checkSandwich bidder true index bundle = .ok () ↔ ∀ b ∈ bundle, b.tx.body.signer ≠ bidder := by
  induction bundle generalizing index with
  | nil => simp [checkSandwich]
  | cons b bundle ih =>
    rw [checkSandwich, List.forall_mem_cons]
    by_cases hown : b.tx.body.signer = bidder <;> simp [hown, ih]

/-- A bundle starts with what the bidder signs if its first transaction is the bidder's and the rest
starts so, or if nothing of it is the bidder's. -/
private theorem ownFirst_cons_iff : OwnFirst bidder (b :: bundle) ↔
    (b.tx.body.signer = bidder ∧ OwnFirst bidder bundle) ∨
      ∀ b' ∈ b :: bundle, b'.tx.body.signer ≠ bidder := by
  constructor
  · intro h
    obtain ⟨own, others, heq, hown, hothers⟩ := h
    -- The bidder's part is empty, or the bundle's first transaction is the first of it.
    cases own with
    | nil =>
      rw [List.nil_append] at heq
      exact .inr (heq ▸ hothers)
    | cons first own =>
      obtain ⟨rfl, hrest⟩ := List.cons.inj heq
      obtain ⟨hfirst, hown⟩ := List.forall_mem_cons.mp hown
      exact .inl ⟨hfirst, own, others, hrest, hown, hothers⟩
  · intro h
    obtain ⟨hfirst, own, others, rfl, hown, hothers⟩ | hothers := h
    · exact ⟨b :: own, others, rfl, List.forall_mem_cons.mpr ⟨hfirst, hown⟩, hothers⟩
    · exact ⟨[], b :: bundle, rfl, nofun, hothers⟩

/-- A bundle has no sandwich if and only if it starts with all that the bidder signs. -/
theorem checkSandwich_eq_ok_iff {index : Nat} :
    checkSandwich bidder false index bundle = .ok () ↔ OwnFirst bidder bundle := by
  induction bundle generalizing index with
  | nil => exact iff_of_true rfl ⟨[], [], rfl, nofun, nofun⟩
  | cons b bundle ih =>
    rw [checkSandwich, ownFirst_cons_iff, List.forall_mem_cons]
    by_cases hown : b.tx.body.signer = bidder
    · simp [hown, ih]
    · -- The cut is here: nothing behind may be the bidder's.
      simp [hown, checkSandwich_true_eq_ok_iff]

/-- A bundled transaction is in order if only the bidder's stand in front of one of the bidder. -/
def InOrder (bidder : Address) (before : List Bundled) (b : Bundled) : Prop :=
  b.tx.body.signer = bidder → ∀ b' ∈ before, b'.tx.body.signer = bidder

/-- The bidder signs a transaction behind another signer's. -/
inductive Sandwiches (bidder : Address) (before : List Bundled) (b : Bundled) :
    Rejection → Prop where
  | behind {other : Bundled} (hown : b.tx.body.signer = bidder) (hmem : other ∈ before)
      (hother : other.tx.body.signer ≠ bidder) :
      Sandwiches bidder before b (.sandwich before.length)

/-- The check for sandwiches, with what it has seen given by what stands in front. -/
def checkSandwichBehind (bidder : Address) (before bundle : List Bundled) : Except Rejection Unit :=
  checkSandwich bidder (before.any (·.tx.body.signer ≠ bidder)) before.length bundle

/-- The check fails on the first transaction, or finds it in order and fails on the rest. -/
private theorem checkSandwichBehind_cons_eq_error_iff :
    checkSandwichBehind bidder before (b :: bundle) = .error e ↔
      Sandwiches bidder before b e ∨ InOrder bidder before b ∧
        checkSandwichBehind bidder (before ++ [b]) bundle = .error e := by
  rw [checkSandwichBehind, checkSandwich, checkSandwichBehind, List.any_append, List.any_cons,
    List.any_nil, List.length_append, List.length_singleton]
  -- Only what the bidder signs can be out of order, and is if another signer was seen.
  by_cases hown : b.tx.body.signer = bidder
  · cases hseen : before.any (·.tx.body.signer ≠ bidder) with
    | true =>
      obtain ⟨other, hmem, hother⟩ := List.any_eq_true.mp hseen
      have hother : other.tx.body.signer ≠ bidder := by simpa using hother
      -- Some other signer was seen, and the bidder signs behind it.
      have hnot : ¬ InOrder bidder before b := fun hin => hother (hin hown other hmem)
      simp only [hown, if_true, Except.error.injEq, hnot, false_and, or_false]
      exact ⟨fun heq => heq ▸ .behind hown hmem hother, fun h => by cases h; rfl⟩
    | false =>
      have hin : InOrder bidder before b := fun _ => by simpa using hseen
      have hnone : ¬ Sandwiches bidder before b e := by
        intro h
        obtain ⟨-, hmem, hother⟩ := h
        exact hother (hin hown _ hmem)
      simp [hown, hin, hnone]
  · have hin : InOrder bidder before b := fun h => absurd h hown
    have hnone : ¬ Sandwiches bidder before b e := by
      intro h
      obtain ⟨h, -, -⟩ := h
      exact hown h
    simp [hown, hin, hnone]

/-- A sandwich is reported at the first transaction of the bidder that is out of order. -/
private theorem checkSandwichBehind_eq_error_iff :
    checkSandwichBehind bidder before bundle = .error e ↔
      List.FirstFails (InOrder bidder) (Sandwiches bidder) before bundle e := by
  induction bundle generalizing before with
  | nil => simp [checkSandwichBehind, checkSandwich]
  | cons b bundle ih => rw [checkSandwichBehind_cons_eq_error_iff, List.firstFails_cons_iff, ih]

/-- A sandwich in a whole bundle is reported at the first transaction that is out of order. -/
theorem checkSandwich_eq_error_iff : checkSandwich bidder false 0 bundle = .error e ↔
    List.FirstFails (InOrder bidder) (Sandwiches bidder) [] bundle e := by
  rw [← checkSandwichBehind_eq_error_iff]
  rfl

/-! ### Payments of the chunk -/

/-- What a message of a signer pays: a send and a delegation pay their coin to the account that they
name. A redelegation moves no coin of the signer's balance, and a bid is not paid as a message. -/
def messagePayment? (signer : Address) : Message → Option Payment
  | .send target amount => some ⟨signer, amount, some target⟩
  | .delegate validator amount => some ⟨signer, amount, some validator⟩
  | .redelegate .. => none
  | .bid _ => none

/-- What a bundled transaction pays: its fee, unless it is exempt, and the coins of its messages. -/
def bundledPayments (exempt : List String) (b : Bundled) : List Payment :=
  (if b.tx.isFree exempt then [] else [⟨b.tx.body.signer, b.tx.body.fee, none⟩]) ++
    b.tx.body.messages.filterMap (messagePayment? b.tx.body.signer)

/-- What a chunk pays, in order: the price, the fee of the bid's transaction, and the bundle. -/
def payments (exempt : List String) (bid : BidCandidate) (bundle : List Bundled) : List Payment :=
  ⟨bid.offer.bidder, bid.offer.price, none⟩ :: ⟨bid.offer.bidder, bid.tx.body.fee, none⟩ ::
    bundle.flatMap (bundledPayments exempt)

/-- Paying for messages is making their payments in order. -/
private theorem payMessages_eq (signer : Address) (messages : List Message) :
    payMessages signer messages =
      (messages.filterMap (messagePayment? signer)).forM Payment.run := by
  induction messages with
  | nil => rfl
  | cons m messages ih =>
    rw [payMessages, List.forM, ← payMessages, ih, List.filterMap_cons]
    cases m with
    | send target amount => rfl
    | delegate validator amount => rfl
    | redelegate source target amount => exact pure_bind _ _
    | bid offer => exact pure_bind _ _

/-- Paying for a bundled transaction is making its payments in order. -/
private theorem payBundled_eq (exempt : List String) (b : Bundled) :
    payBundled exempt b = (bundledPayments exempt b).forM Payment.run := by
  rw [payBundled, payMessages_eq, bundledPayments]
  -- The fee stands in front of the coins, or is left out.
  cases b.tx.isFree exempt <;> rfl

/-- Paying for a chunk is making its payments in order. -/
theorem payChunk_eq (exempt : List String) (bid : BidCandidate) (bundle : List Bundled) :
    payChunk exempt bid bundle = (payments exempt bid bundle).forM Payment.run := by
  have hbundle : bundle.forM (payBundled exempt) =
      (bundle.flatMap (bundledPayments exempt)).forM Payment.run := by
    induction bundle with
    | nil => rfl
    | cons b bundle ih =>
      rw [List.forM, ih, payBundled_eq, List.flatMap_cons]
      simp only [List.forM_eq_forM, List.forM_append]
  rw [payChunk, hbundle]
  rfl

/-- A chunk can be paid if and only if every payment of it is covered behind those in front of it.
-/
theorem checkSolvency_eq_ok_iff : ctx.checkSolvency bid bundle = .ok () ↔
    List.AllPass (Payment.Covered ctx.ledger) [] (payments ctx.exempt bid bundle) := by
  rw [checkSolvency, Except.mapError_eq_ok_iff, payChunk_eq]
  exact (Overlay.follows_ofView ctx.ledger).run_forM_eq_ok_iff

/-- A chunk that cannot be paid is rejected for the first payment that is not covered. -/
theorem checkSolvency_eq_error_iff : ctx.checkSolvency bid bundle = .error e ↔
    ∃ cause, List.FirstFails (Payment.Covered ctx.ledger) (Payment.Fails ctx.ledger) []
      (payments ctx.exempt bid bundle) cause ∧ .ofLedger cause = e := by
  simp only [checkSolvency, Except.mapError_eq_error_iff, payChunk_eq,
    (Overlay.follows_ofView ctx.ledger).run_forM_eq_error_iff]

/-! ### All rules -/

/-- A bid of its bidder on a bundle of a permitted size, which is opened. -/
structure WellFormed (ctx : BidContext) (bid : BidCandidate) (bundle : List Bundled) : Prop where
  bidder : bid.offer.bidder = bid.tx.body.signer
  nonempty : bid.offer.bundle ≠ []
  size : bid.offer.bundle.length ≤ ctx.params.maxBundleSize.toNat
  opens : List.Forall₂ ctx.Opens bid.offer.bundle bundle

/-- What is wrong with the form of a bid. -/
inductive IllFormed (ctx : BidContext) (bid : BidCandidate) : Rejection → Prop where
  | foreignBidder (hbidder : bid.offer.bidder ≠ bid.tx.body.signer) :
      ctx.IllFormed bid (.malformed .foreignBidder)
  | emptyBundle (hbidder : bid.offer.bidder = bid.tx.body.signer)
      (hempty : bid.offer.bundle = []) : ctx.IllFormed bid (.malformed .emptyBundle)
  | bundleTooLarge (hbidder : bid.offer.bidder = bid.tx.body.signer)
      (hne : bid.offer.bundle ≠ [])
      (hlarge : ctx.params.maxBundleSize.toNat < bid.offer.bundle.length) :
      ctx.IllFormed bid (.bundleTooLarge bid.offer.bundle.length ctx.params.maxBundleSize)
  | unopened {e : Rejection} (hbidder : bid.offer.bidder = bid.tx.body.signer)
      (hne : bid.offer.bundle ≠ [])
      (hsize : bid.offer.bundle.length ≤ ctx.params.maxBundleSize.toNat)
      (hfails : List.FirstFails (fun _ raw => ∃ b, ctx.Opens raw b) ctx.Unopened []
        bid.offer.bundle e) : ctx.IllFormed bid e

/-- A bid satisfies all rules of admission, with its opened bundle. -/
structure Satisfies (ctx : BidContext) (bid : BidCandidate) (bundle : List Bundled) : Prop where
  inTime : ctx.height < bid.tx.body.timeout
  formed : ctx.WellFormed bid bundle
  fresh : ctx.Fresh [] [(bid.tx.body.signer, bid.tx.body.nonce)] bundle
  ownFirst : ctx.params.frontRunningProtection → OwnFirst bid.offer.bidder bundle
  denom : bid.offer.price.denom = ctx.params.denom
  reserve : ctx.params.reserve.amount ≤ bid.offer.price.amount
  covered : List.AllPass (Payment.Covered ctx.ledger) [] (payments ctx.exempt bid bundle)

/-- The first rule that a bid breaks, and how that is reported: all groups of rules in front of it
are satisfied, and of its own group all that stands in front of what fails. -/
inductive Rejects (ctx : BidContext) (bid : BidCandidate) : Rejection → Prop where
  | expired (hlate : bid.tx.body.timeout ≤ ctx.height) :
      ctx.Rejects bid (.expired bid.tx.body.timeout ctx.height)
  | illFormed {e : Rejection} (htime : ctx.height < bid.tx.body.timeout)
      (hill : ctx.IllFormed bid e) : ctx.Rejects bid e
  | repeated {bundle : List Bundled} {e : Rejection} (htime : ctx.height < bid.tx.body.timeout)
      (hformed : ctx.WellFormed bid bundle)
      (hfails : List.FirstFails (ctx.FreshBehind (bid.tx.body.signer, bid.tx.body.nonce))
        (ctx.Repeats (bid.tx.body.signer, bid.tx.body.nonce)) [] bundle e) : ctx.Rejects bid e
  | sandwich {bundle : List Bundled} {e : Rejection} (htime : ctx.height < bid.tx.body.timeout)
      (hformed : ctx.WellFormed bid bundle)
      (hfresh : ctx.Fresh [] [(bid.tx.body.signer, bid.tx.body.nonce)] bundle)
      (hprotect : ctx.params.frontRunningProtection)
      (hfails : List.FirstFails (InOrder bid.offer.bidder) (Sandwiches bid.offer.bidder) [] bundle
        e) : ctx.Rejects bid e
  | belowReserve {bundle : List Bundled} (htime : ctx.height < bid.tx.body.timeout)
      (hformed : ctx.WellFormed bid bundle)
      (hfresh : ctx.Fresh [] [(bid.tx.body.signer, bid.tx.body.nonce)] bundle)
      (hown : ctx.params.frontRunningProtection → OwnFirst bid.offer.bidder bundle)
      (hlow : bid.offer.price.denom ≠ ctx.params.denom ∨
        bid.offer.price.amount < ctx.params.reserve.amount) :
      ctx.Rejects bid (.belowReserve bid.offer.price ctx.params.reserve)
  | unpaid {bundle : List Bundled} {cause : LedgerError}
      (htime : ctx.height < bid.tx.body.timeout) (hformed : ctx.WellFormed bid bundle)
      (hfresh : ctx.Fresh [] [(bid.tx.body.signer, bid.tx.body.nonce)] bundle)
      (hown : ctx.params.frontRunningProtection → OwnFirst bid.offer.bidder bundle)
      (hdenom : bid.offer.price.denom = ctx.params.denom)
      (hreserve : ctx.params.reserve.amount ≤ bid.offer.price.amount)
      (hfails : List.FirstFails (Payment.Covered ctx.ledger) (Payment.Fails ctx.ledger) []
        (payments ctx.exempt bid bundle) cause) : ctx.Rejects bid (.ofLedger cause)

/-- The structure of a bid passes if and only if the bid is well formed. -/
theorem checkStructure_eq_ok_iff : ctx.checkStructure bid = .ok bundle ↔
    ctx.WellFormed bid bundle := by
  simp only [checkStructure, Except.check_eq_ok_iff, openBundle_eq_ok_iff, ne_eq, not_not,
    List.isEmpty_iff, Nat.not_lt]
  constructor
  · intro h
    obtain ⟨hbidder, hne, hsize, hopens⟩ := h
    exact ⟨hbidder, hne, hsize, hopens⟩
  · intro h
    exact ⟨h.bidder, h.nonempty, h.size, h.opens⟩

/-- The structure of a bid fails for the first thing that is wrong with its form. -/
theorem checkStructure_eq_error_iff : ctx.checkStructure bid = .error e ↔
    ctx.IllFormed bid e := by
  -- Opening is counted from the front of the bundle, where nothing was opened yet.
  have hopen : ctx.openBundle 0 bid.offer.bundle = .error e ↔
      List.FirstFails (fun _ raw => ∃ b, ctx.Opens raw b) ctx.Unopened [] bid.offer.bundle e := by
    rw [← openBundle_eq_error_iff]
    rfl
  simp only [checkStructure, Except.check_eq_error_iff, hopen, ne_eq, not_not, List.isEmpty_iff,
    Nat.not_lt]
  constructor
  · -- The checks are in order, so each reason says that those before it passed.
    intro h
    obtain ⟨hbidder, rfl⟩ | ⟨hbidder, h⟩ := h
    · exact .foreignBidder hbidder
    obtain ⟨hempty, rfl⟩ | ⟨hne, ⟨hlarge, rfl⟩ | ⟨hsize, hfails⟩⟩ := h
    · exact .emptyBundle hbidder hempty
    · exact .bundleTooLarge hbidder hne hlarge
    · exact .unopened hbidder hne hsize hfails
  · intro h
    cases h with
    | foreignBidder hbidder => exact .inl ⟨hbidder, rfl⟩
    | emptyBundle hbidder hempty => exact .inr ⟨hbidder, .inl ⟨hempty, rfl⟩⟩
    | bundleTooLarge hbidder hne hlarge =>
      exact .inr ⟨hbidder, .inr ⟨hne, .inl ⟨hlarge, rfl⟩⟩⟩
    | unopened hbidder hne hsize hfails =>
      exact .inr ⟨hbidder, .inr ⟨hne, .inr ⟨hsize, hfails⟩⟩⟩

/-- The rules say what the checks let pass. -/
theorem satisfies_iff_admissible : ctx.Satisfies bid bundle ↔ ctx.Admissible bid bundle := by
  constructor
  · intro h
    exact ⟨h.inTime, h.formed.bidder, h.formed.nonempty, h.formed.size, h.formed.opens, h.fresh,
      fun hprotect => checkSandwich_eq_ok_iff.mpr (h.ownFirst hprotect), h.denom, h.reserve,
      checkSolvency_eq_ok_iff.mpr h.covered⟩
  · intro h
    exact ⟨h.inTime, ⟨h.bidder, h.nonempty, h.size, h.opens⟩, h.fresh,
      fun hprotect => checkSandwich_eq_ok_iff.mp (h.sandwich hprotect), h.denom, h.reserve,
      checkSolvency_eq_ok_iff.mp h.solvent⟩

/-- A bid is rejected for the first rule that it breaks, and for no other reason. -/
theorem accept_eq_error_iff : ctx.accept bid = .error e ↔ ctx.Rejects bid e := by
  -- Each check in its order, with what passes those in front of it.
  simp only [accept, Except.bind_eq_error_iff, Except.ite_bind_eq_error_iff, Except.throw_eq_error,
    Except.error.injEq, reduceCtorEq, imp_false, UInt64.not_le, checkStructure_eq_error_iff,
    checkStructure_eq_ok_iff, checkRepeats_eq_error_iff, checkRepeats_eq_ok_iff,
    checkSandwich_eq_error_iff, checkSandwich_eq_ok_iff, checkSolvency_eq_error_iff,
    Unique.exists_iff, PUnit.default_eq_unit, Except.pure_eq_ok, and_false, or_false]
  constructor
  · intro h
    obtain ⟨hlate, rfl⟩ | ⟨htime, h⟩ := h
    · exact .expired hlate
    obtain hill | ⟨bundle, hformed, h⟩ := h
    · exact .illFormed htime hill
    obtain hfails | ⟨hfresh, h⟩ := h
    · exact .repeated htime hformed hfails
    obtain ⟨hprotect, hfails⟩ | ⟨hown, h⟩ := h
    · exact .sandwich htime hformed hfresh hprotect hfails
    obtain ⟨hlow, rfl⟩ | ⟨hprice, cause, hfails, rfl⟩ := h
    · exact .belowReserve htime hformed hfresh hown hlow
    -- The price is in the denomination of the auction and above the reserve, so solvency is left.
    · obtain ⟨hdenom, hreserve⟩ := not_or.mp hprice
      exact .unpaid htime hformed hfresh hown (not_not.mp hdenom) (Nat.not_lt.mp hreserve) hfails
  · intro h
    -- The other way, a reason carries all that passed in front of it.
    cases h with
    | expired hlate => exact .inl ⟨hlate, rfl⟩
    | illFormed htime hill => exact .inr ⟨htime, .inl hill⟩
    | repeated htime hformed hfails => exact .inr ⟨htime, .inr ⟨_, hformed, .inl hfails⟩⟩
    | sandwich htime hformed hfresh hprotect hfails =>
      exact .inr ⟨htime, .inr ⟨_, hformed, .inr ⟨hfresh, .inl ⟨hprotect, hfails⟩⟩⟩⟩
    | belowReserve htime hformed hfresh hown hlow =>
      exact .inr ⟨htime, .inr ⟨_, hformed, .inr ⟨hfresh, .inr ⟨hown, .inl ⟨hlow, rfl⟩⟩⟩⟩⟩
    | unpaid htime hformed hfresh hown hdenom hreserve hfails =>
      have hprice : ¬ (bid.offer.price.denom ≠ ctx.params.denom ∨
          bid.offer.price.amount < ctx.params.reserve.amount) :=
        not_or.mpr ⟨not_not.mpr hdenom, Nat.not_lt.mpr hreserve⟩
      exact .inr ⟨htime, .inr ⟨_, hformed, .inr ⟨hfresh, .inr ⟨hown, .inr ⟨hprice, _, hfails,
        rfl⟩⟩⟩⟩⟩

/-- Admission decides the rules. A bid is accepted if it satisfies all of them, and then places its
own transaction and the bundle; otherwise it is rejected for the first that it breaks. -/
theorem accept_decides_rules (ctx : BidContext) (bid : BidCandidate) :
    (∀ chunk, ctx.accept bid = .ok chunk ↔ ∃ bundle, ctx.Satisfies bid bundle ∧
      chunk = .ofRaw bid.raw bid.tx.body.gas :: bundle.map Bundled.toBlockTx) ∧
    ∀ e, ctx.accept bid = .error e ↔ ctx.Rejects bid e := by
  refine ⟨fun chunk => ?_, fun e => accept_eq_error_iff⟩
  simp only [satisfies_iff_admissible]
  exact accept_eq_ok_iff

end BidContext

end LaneAuction
