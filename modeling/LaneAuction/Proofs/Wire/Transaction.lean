import LaneAuction.Proofs.Wire.Reads
import LaneAuction.Transaction

/-!
# The wire form of transactions

Decoding is the inverse of writing a body and its signature one behind the other, on the bodies that
are well formed: raw bytes and the transactions they decode to determine each other
(`decode_eq_ok_iff`). So a transaction has one raw form, and its hash cannot be changed without
changing what it says.
-/

namespace LaneAuction

namespace Message

/-- The coin that a message names. -/
def coin : Message → Coin
  | .send _ amount => amount
  | .delegate _ amount => amount
  | .redelegate _ _ amount => amount
  | .bid offer => offer.price

/-- The raw transactions that a message carries. -/
def carried : Message → List Bytes
  | .bid offer => offer.bundle
  | _ => []

/-- A message that can be written: its coin is of a well-formed denomination, and what it carries
is within the bounds of counts and lengths. -/
structure WellFormed (m : Message) : Prop where
  coin : m.coin.isValid
  count : m.carried.length ≤ Wire.maxCount
  lengths : ∀ raw ∈ m.carried, raw.length ≤ Wire.maxCount

open Wire Wire.Read

/-- Each kind of message has its own tag, and behind the tag the forms of its fields. -/
theorem read_inverts : read.Inverts write WellFormed := by
  intro bs m left
  simp only [read, u8_inverts.take_bind_iff, true_and]
  constructor
  · intro h
    obtain ⟨tag, mid, rfl, h⟩ := h
    -- The tag decides which fields were read behind it; any other tag was refused.
    split at h <;>
      simp only [bytes32_inverts.take_bind_iff, coin_inverts.take_bind_iff,
        count_inverts.take_bind_iff, (replicate_inverts varBytes_inverts _).take_bind_iff,
        Reader.take_pure, Reader.take_throw, Prod.mk.injEq, Except.ok.injEq, true_and] at h
    · obtain ⟨target, _, rfl, amount, _, ⟨hcoin, rfl⟩, rfl, rfl⟩ := h
      exact ⟨⟨hcoin, by simp [carried], by simp [carried]⟩, by simp [write]⟩
    · obtain ⟨validator, _, rfl, amount, _, ⟨hcoin, rfl⟩, rfl, rfl⟩ := h
      exact ⟨⟨hcoin, by simp [carried], by simp [carried]⟩, by simp [write]⟩
    · obtain ⟨source, _, rfl, target, _, rfl, amount, _, ⟨hcoin, rfl⟩, rfl, rfl⟩ := h
      exact ⟨⟨hcoin, by simp [carried], by simp [carried]⟩, by simp [write]⟩
    · obtain ⟨bidder, _, rfl, price, _, ⟨hcoin, rfl⟩, n, _, ⟨hn, rfl⟩, bundle, _,
        ⟨⟨rfl, hlengths⟩, rfl⟩, rfl, rfl⟩ := h
      exact ⟨⟨hcoin, hn, hlengths⟩, by simp [write]⟩
    · exact nomatch h.1
  · intro h
    obtain ⟨⟨hcoin, hcount, hlengths⟩, rfl⟩ := h
    -- The other way, each message is written behind its own tag.
    cases m with
    | send target amount =>
      refine ⟨1, target.toList ++ Write.coin amount ++ left, by simp [write], ?_⟩
      simp only [bytes32_inverts.take_bind_iff, coin_inverts.take_bind_iff, Reader.take_pure]
      exact ⟨target, _, ⟨trivial, by simp⟩, amount, left, ⟨hcoin, rfl⟩, rfl⟩
    | delegate validator amount =>
      refine ⟨2, validator.toList ++ Write.coin amount ++ left, by simp [write], ?_⟩
      simp only [bytes32_inverts.take_bind_iff, coin_inverts.take_bind_iff, Reader.take_pure]
      exact ⟨validator, _, ⟨trivial, by simp⟩, amount, left, ⟨hcoin, rfl⟩, rfl⟩
    | redelegate source target amount =>
      refine ⟨3, source.toList ++ target.toList ++ Write.coin amount ++ left, by simp [write], ?_⟩
      simp only [bytes32_inverts.take_bind_iff, coin_inverts.take_bind_iff, Reader.take_pure]
      exact ⟨source, _, ⟨trivial, by simp⟩, target, _, ⟨trivial, rfl⟩, amount, left,
        ⟨hcoin, rfl⟩, rfl⟩
    | bid offer =>
      -- A bid carries a list of transactions, which are counted first.
      refine ⟨4, offer.bidder.toList ++ Write.coin offer.price ++ Write.count offer.bundle.length ++
        offer.bundle.flatMap Write.varBytes ++ left, by simp [write], ?_⟩
      simp only [bytes32_inverts.take_bind_iff, coin_inverts.take_bind_iff,
        count_inverts.take_bind_iff, (replicate_inverts varBytes_inverts _).take_bind_iff,
        Reader.take_pure]
      exact ⟨offer.bidder, _, ⟨trivial, by simp⟩, offer.price, _, ⟨hcoin, rfl⟩,
        offer.bundle.length, _, ⟨hcount, rfl⟩, offer.bundle, left, ⟨⟨rfl, hlengths⟩, rfl⟩, rfl⟩

end Message

namespace Transaction

open Wire Wire.Read

/-- A body that can be written: its fee and its messages are well formed, and there are at least
one and at most `maxMessages` of them. -/
structure Body.WellFormed (b : Body) : Prop where
  fee : b.fee.isValid
  count : 1 ≤ b.messages.length ∧ b.messages.length ≤ maxMessages
  messages : ∀ m ∈ b.messages, m.WellFormed

/-- The bound on messages is stricter than that on counts, so a body is refused by its own bound
only. -/
theorem Body.read_inverts : Body.read.Inverts Body.write Body.WellFormed := by
  intro bs b left
  have hmax : maxMessages ≤ maxCount := by decide
  simp only [Body.read, bytes32_inverts.take_bind_iff, u64_inverts.take_bind_iff,
    coin_inverts.take_bind_iff, count_inverts.take_bind_iff, true_and]
  constructor
  · intro h
    obtain ⟨signer, _, rfl, nonce, _, rfl, fee, _, ⟨hfee, rfl⟩, gas, _, rfl, timeout, _, rfl,
      n, _, ⟨-, rfl⟩, h⟩ := h
    -- The bound on messages is checked before any of them is read.
    split at h
    · simp at h
    · rename_i hcount
      simp only [(replicate_inverts Message.read_inverts _).take_bind_iff,
        Reader.take_pure, Prod.mk.injEq, Except.ok.injEq] at h
      obtain ⟨messages, _, ⟨⟨rfl, hmessages⟩, rfl⟩, rfl, rfl⟩ := h
      exact ⟨⟨hfee, by simp only; omega, hmessages⟩, by simp [Body.write]⟩
  · intro h
    obtain ⟨hb, rfl⟩ := h
    -- A well-formed body has few enough messages, so the bound lets them pass.
    have hcount := hb.count
    refine ⟨b.signer, _, by simp only [Body.write, List.append_assoc]; rfl, b.nonce, _, rfl, b.fee,
      _, ⟨hb.fee, rfl⟩, b.gas, _, rfl, b.timeout, _, rfl, b.messages.length, _, ⟨by omega, rfl⟩, ?_⟩
    rw [if_neg (by omega)]
    simp only [(replicate_inverts Message.read_inverts _).take_bind_iff,
      Reader.take_pure]
    exact ⟨b.messages, left, ⟨⟨rfl, hb.messages⟩, rfl⟩, rfl⟩

/-- Raw bytes decode to a transaction if its body is well formed and they are the body's form with
the signature behind it. -/
theorem decode_eq_ok_iff {raw : Bytes} {tx : Transaction} :
    decode raw = .ok tx ↔
      tx.body.WellFormed ∧ tx.signed = tx.body.write ∧
        raw = tx.body.write ++ tx.signature.toList := by
  -- Decoding drops what the reader has left, which is nothing if it succeeds.
  have hdecode : decode raw = .ok tx ↔ ∃ left, (read raw).take raw = (.ok tx, left) := by
    rw [decode]
    rcases (read raw).take raw with ⟨answer, left⟩
    simp
  rw [hdecode]
  simp only [read, Body.read_inverts.take_bind_iff, Reader.take_get_bind,
    signature_inverts.take_bind_iff, @Reader.take_bind_eq_ok_iff _ _ finish, finish_take,
    Reader.take_pure, Prod.mk.injEq, Except.ok.injEq, true_and]
  constructor
  · intro h
    obtain ⟨left, body, _, ⟨hbody, hraw⟩, signature, mid, rfl, _, _, hfinish, rfl, rfl⟩ := h
    -- Nothing may be left behind the signature.
    split at hfinish
    · rename_i hmid
      rw [hmid, List.append_nil] at hraw
      exact ⟨hbody, by simp [hraw, hmid], hraw⟩
    · simp at hfinish
  · intro h
    obtain ⟨hbody, hsigned, rfl⟩ := h
    refine ⟨[], tx.body, _, ⟨hbody, rfl⟩, tx.signature, [], (List.append_nil _).symm, (), [], rfl,
      ?_, rfl⟩
    simp [← hsigned]

/-- Raw bytes and well-formed transactions determine each other. In particular a signed body is
decoded to itself, the bytes that a signature covers are those the body is written to, and no two
raw transactions say the same. -/
theorem wire_form_bijective :
    (∀ (raw : Bytes) (tx : Transaction), decode raw = .ok tx ↔
      tx.body.WellFormed ∧ tx.signed = tx.body.write ∧
        raw = tx.body.write ++ tx.signature.toList) ∧
    (∀ (body : Body) (seed : Bytes32), body.WellFormed →
      decode (body.sign seed) = .ok ⟨body, Ed25519.sign seed body.write, body.write⟩) ∧
    (∀ (raw : Bytes) (tx : Transaction), decode raw = .ok tx → tx.body.write = tx.signed) ∧
    (∀ (raw raw' : Bytes) (tx : Transaction), decode raw = .ok tx → decode raw' = .ok tx →
      raw = raw') := by
  refine ⟨fun raw tx => decode_eq_ok_iff, ?_, ?_, ?_⟩
  · intro body seed hbody
    exact decode_eq_ok_iff.mpr ⟨hbody, rfl, rfl⟩
  · intro raw tx h
    exact (decode_eq_ok_iff.mp h).2.1.symm
  · intro raw raw' tx h h'
    rw [(decode_eq_ok_iff.mp h).2.2, (decode_eq_ok_iff.mp h').2.2]

/-- A payment with a fee. -/
def payment : Body where
  signer := .zero
  nonce := 0
  fee := ⟨⟨5, by decide⟩, "stake"⟩
  gas := 100
  timeout := 0
  messages := [.send (.replicate 1) ⟨⟨1000, by decide⟩, "stake"⟩]

/-- The payment is well formed. -/
theorem payment_wellFormed : payment.WellFormed := by
  refine ⟨by decide, by decide, ?_⟩
  intro m hm
  obtain rfl := List.mem_singleton.mp hm
  exact ⟨by decide, by decide, by simp [Message.carried]⟩

/-- The payment is read back with its signature. -/
theorem wire_form_bijective_payment :
    payment.WellFormed ∧ decode (payment.sign .zero) =
      .ok ⟨payment, Ed25519.sign .zero payment.write, payment.write⟩ :=
  ⟨payment_wellFormed, wire_form_bijective.2.1 payment .zero payment_wellFormed⟩

/-- The transaction of a body under an empty signature. -/
def ofBody (body : Body) : Transaction := ⟨body, .zero, body.write⟩

/-- The raw bytes of a body under an empty signature. -/
def rawOfBody (body : Body) : Bytes := body.write ++ Signature.zero.toList

/-- The bytes of a body under an empty signature are read back. -/
theorem decode_rawOfBody {body : Body} (h : body.WellFormed) :
    decode (rawOfBody body) = .ok (ofBody body) :=
  decode_eq_ok_iff.mpr ⟨h, rfl, rfl⟩

/-- Transactions have different hashes if the texts of the hashes differ. -/
theorem hash_ne_of_toHex {raw raw' : Bytes} {text text' : String} (h : (hash raw).toHex = text)
    (h' : (hash raw').toHex = text') (hne : text ≠ text') : hash raw ≠ hash raw' := by
  intro heq
  rw [heq, h'] at h
  exact hne h.symm

/-- The hash of the payment. -/
theorem toHex_hash_payment : (Transaction.hash (rawOfBody payment)).toHex =
    "0xb30a6ae75aa1ba872ecc87db5cede244248d8ef3e82fa35174cabfedfea98bfa" := by
  decide +kernel

/-- The payment that follows it. -/
def laterPayment : Body := { payment with nonce := 1 }

/-- The later payment is well formed. -/
theorem laterPayment_wellFormed : laterPayment.WellFormed :=
  ⟨by decide, by decide, payment_wellFormed.messages⟩

/-- The hash of the later payment. -/
theorem toHex_hash_laterPayment : (Transaction.hash (rawOfBody laterPayment)).toHex =
    "0x2ee7752c5c6450b6a4f17bc67f7d4a3f536d367ba04fba477a94da06c794a30b" := by
  decide +kernel

/-- A bid of the payment's signer on a bundle of the payment. -/
def biddingOffer : BundleBid := ⟨.zero, ⟨⟨250, by decide⟩, "stake"⟩, [rawOfBody payment]⟩

/-- A transaction with that bid. -/
def bidding : Body where
  signer := .zero
  nonce := 1
  fee := ⟨⟨5, by decide⟩, "stake"⟩
  gas := 100
  timeout := 10
  messages := [.bid biddingOffer]

/-- The body of the bid is well formed. -/
theorem bidding_wellFormed : bidding.WellFormed := by
  refine ⟨by decide, by decide, ?_⟩
  intro m hm
  obtain rfl := List.mem_singleton.mp hm
  have hlength : (rawOfBody payment).length ≤ Wire.maxCount := by decide +kernel
  exact ⟨by decide, by decide, by simpa [Message.carried, biddingOffer] using hlength⟩

end Transaction

end LaneAuction
