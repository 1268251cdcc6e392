import LaneAuction.Proofs.Wire.Transaction

/-!
# Cut and extended bytes

A reader takes its value from the front of the bytes and does not look behind it. Where the bytes
end inside the value, the reader says that they end, and nothing else: no check of a field looks at
a part of the field. `Reader.SelfDelimiting` says both. Readers in sequence inherit it from their
parts, so it is shown once for bytes of a fixed number, and holds of every field, of a message and
of a body by the way they are built.

A whole transaction is a body and a signature with nothing behind them. So a transaction of which
the end is missing, and one with something behind it, are refused for just that
(`truncation_detected`).
-/

namespace List

variable {α : Type} {xs ys cut : List α}

/-- A prefix ends inside the first of two lists, or behind it. -/
private theorem IsPrefix.append_cases (h : cut <+: xs ++ ys) :
    (cut <+: xs ∧ cut ≠ xs) ∨ ∃ rest, cut = xs ++ rest ∧ rest <+: ys := by
  obtain hinside | ⟨rest, rfl⟩ := prefix_or_prefix_of_prefix h (prefix_append xs ys)
  · by_cases heq : cut = xs
    · exact .inr ⟨[], by rw [heq, append_nil], nil_prefix⟩
    · exact .inl ⟨hinside, heq⟩
  · exact .inr ⟨rest, rfl, (prefix_append_right_inj xs).mp h⟩

end List

namespace LaneAuction

namespace Wire

namespace Reader

variable {α β : Type} {reader : Reader α} {a : α} {taken : Bytes}

/-- The reader takes these bytes for the value, whatever is behind them. Of a proper prefix of them
it says that the bytes end. -/
structure Takes (reader : Reader α) (taken : Bytes) (a : α) : Prop where
  take_append : ∀ more, reader.take (taken ++ more) = (.ok a, more)
  take_cut : ∀ cut, cut <+: taken → cut ≠ taken →
    ∃ left, reader.take cut = (.error .unexpectedEnd, left)

/-- Every value is delimited by the bytes that it is taken from. -/
def SelfDelimiting (reader : Reader α) : Prop :=
  ∀ bs a left, reader.take bs = (.ok a, left) → ∃ taken, bs = taken ++ left ∧ reader.Takes taken a

/-- The bytes that a value is taken from are those that it is written to. -/
private theorem SelfDelimiting.takes {write : α → Bytes} {P : α → Prop} (h : reader.SelfDelimiting)
    (hinverts : reader.Inverts write P) (ha : P a) : reader.Takes (write a) a := by
  have hread : reader.take (write a) = (.ok a, []) :=
    (hinverts ..).mpr ⟨ha, (List.append_nil _).symm⟩
  obtain ⟨taken, htaken, htakes⟩ := h _ _ _ hread
  rw [List.append_nil] at htaken
  rwa [htaken]

/-- A reader that takes nothing delimits its value. -/
private theorem selfDelimiting_pure (a : α) : SelfDelimiting (pure a) := by
  intro bs b left h
  obtain ⟨rfl, rfl⟩ : a = b ∧ bs = left := by simpa using h
  refine ⟨[], rfl, fun more => rfl, fun cut hcut hne => ?_⟩
  exact absurd (List.prefix_nil.mp hcut) hne

/-- A reader that refuses everything takes nothing. -/
private theorem selfDelimiting_throw (e : Error) : SelfDelimiting (throw e : Reader α) := by
  intro bs a left h
  simp at h

/-- A cut falls into the bytes of the first reader, or into those of the second. -/
private theorem Takes.bind {f : α → Reader β} {taken' : Bytes} {b : β} (h : reader.Takes taken a)
    (hf : (f a).Takes taken' b) : (reader >>= f).Takes (taken ++ taken') b := by
  constructor
  · intro more
    rw [take_bind, List.append_assoc, h.take_append]
    exact hf.take_append more
  · intro cut hcut hne
    rw [take_bind]
    obtain ⟨hinside, hshort⟩ | ⟨cut', rfl, hinside⟩ := hcut.append_cases
    · obtain ⟨left, hleft⟩ := h.take_cut cut hinside hshort
      rw [hleft]
      exact ⟨left, rfl⟩
    · rw [h.take_append]
      exact hf.take_cut cut' hinside fun heq => hne (congrArg (taken ++ ·) heq)

/-- Readers that delimit their values do so one behind the other. -/
private theorem SelfDelimiting.bind {f : α → Reader β} (h : reader.SelfDelimiting)
    (hf : ∀ a, (f a).SelfDelimiting) : (reader >>= f).SelfDelimiting := by
  intro bs b left hbs
  obtain ⟨a, mid, hfirst, hsecond⟩ := take_bind_eq_ok_iff.mp hbs
  obtain ⟨taken, rfl, htaken⟩ := h bs a mid hfirst
  obtain ⟨taken', rfl, htaken'⟩ := hf a mid b left hsecond
  exact ⟨taken ++ taken', (List.append_assoc ..).symm, htaken.bind htaken'⟩

end Reader

namespace Read

open Reader

/-- A given number of bytes delimits itself. -/
private theorem selfDelimiting_fixed (n : Nat) : (fixed n).SelfDelimiting := by
  intro bs front left h
  obtain ⟨-, rfl⟩ := (fixed_inverts n bs front left).mp h
  refine ⟨front.val, rfl, fun more => (fixed_inverts n _ _ _).mpr ⟨trivial, rfl⟩, ?_⟩
  intro cut hcut hne
  -- A proper prefix has fewer than `n` bytes.
  have hlt : cut.length < n := by
    have hle := hcut.length_le
    rw [front.property] at hle
    refine Nat.lt_of_le_of_ne hle fun heq => hne (hcut.eq_of_length ?_)
    rw [heq, front.property]
  have hfront : (cut.take n).length ≠ n := by
    rw [List.length_take]
    omega
  exact ⟨cut, by rw [fixed_take, dif_neg hfront]⟩

end Read

/-- The parts of a reader are self-delimiting, and so is all that is put together from them. -/
theorem Reader.Built.selfDelimiting {α : Type} {reader : Reader α} (h : reader.Built) :
    reader.SelfDelimiting := by
  induction h with
  | pure a => exact selfDelimiting_pure a
  | throw e => exact selfDelimiting_throw e
  | fixed n => exact Read.selfDelimiting_fixed n
  | bind _ _ ih ihf => exact ih.bind ihf

end Wire

open Wire Wire.Reader Wire.Read

/-- Every tag says which fields follow, and an unknown one is refused for itself. -/
private theorem Message.built_read : Message.read.Built := by
  refine built_u8.bind fun tag => ?_
  split
  · exact built_bytes32.bind fun _ => built_coin.bind fun _ => .pure _
  · exact built_bytes32.bind fun _ => built_coin.bind fun _ => .pure _
  · exact built_bytes32.bind fun _ => built_bytes32.bind fun _ => built_coin.bind fun _ => .pure _
  · exact built_bytes32.bind fun _ => built_coin.bind fun _ => built_count.bind fun n =>
      (built_replicate built_varBytes n).bind fun _ => .pure _
  · exact .throw _

namespace Transaction

variable {raw cut more : Bytes} {tx : Transaction}

/-- The bound on messages is looked at once their count is there, and before any of them. -/
private theorem Body.built_read : Body.read.Built := by
  refine built_bytes32.bind fun _ => built_u64.bind fun _ => built_coin.bind fun _ =>
    built_u64.bind fun _ => built_u64.bind fun _ => built_count.bind fun n => ?_
  split
  · exact .throw _
  · exact (built_replicate Message.built_read n).bind fun _ => .pure _

/-- The bytes of a transaction are those that its body is taken from, and then its signature's. -/
private theorem takes_of_decode (h : decode raw = .ok tx) :
    raw = tx.body.write ++ tx.signature.toList ∧ Body.read.Takes tx.body.write tx.body ∧
      Read.signature.Takes tx.signature.toList tx.signature := by
  obtain ⟨hbody, -, hraw⟩ := decode_eq_ok_iff.mp h
  exact ⟨hraw, Body.built_read.selfDelimiting.takes Body.read_inverts hbody,
    built_signature.selfDelimiting.takes signature_inverts trivial⟩

/-- A transaction of which the end is missing is refused because the bytes end. -/
private theorem decode_of_cut (h : decode raw = .ok tx) (hcut : cut <+: raw) (hne : cut ≠ raw) :
    decode cut = .error .unexpectedEnd := by
  obtain ⟨rfl, hbody, hsignature⟩ := takes_of_decode h
  rw [decode, read, take_bind]
  obtain ⟨hinside, hshort⟩ | ⟨cut', rfl, hinside⟩ := hcut.append_cases
  · obtain ⟨left, hleft⟩ := hbody.take_cut cut hinside hshort
    rw [hleft]
  · -- The body is complete, so the signature is not.
    have hshort : cut' ≠ tx.signature.toList :=
      fun heq => hne (congrArg (tx.body.write ++ ·) heq)
    obtain ⟨left, hleft⟩ := hsignature.take_cut cut' hinside hshort
    rw [hbody.take_append]
    simp only [take_get_bind]
    rw [take_bind, hleft]

/-- A transaction with something behind it is refused for that. -/
private theorem decode_append (h : decode raw = .ok tx) (hmore : more ≠ []) :
    decode (raw ++ more) = .error (.trailingBytes more.length) := by
  obtain ⟨rfl, hbody, hsignature⟩ := takes_of_decode h
  rw [decode, read, List.append_assoc, take_bind, hbody.take_append]
  simp only [take_get_bind]
  rw [take_bind, hsignature.take_append]
  simp only [take_bind, finish_take, if_neg hmore]

/-- Whatever is missing at the end of a transaction's bytes, decoding finds that they end; whatever
is added to them, decoding finds how much that is. -/
theorem truncation_detected (h : decode raw = .ok tx) :
    (∀ cut, cut <+: raw → cut ≠ raw → decode cut = .error .unexpectedEnd) ∧
      ∀ more, more ≠ [] → decode (raw ++ more) = .error (.trailingBytes more.length) :=
  ⟨fun _ hcut hne => decode_of_cut h hcut hne, fun _ hmore => decode_append h hmore⟩

/-- A bid on a bundle that is cut inside the bundle, and one with two bytes behind it. -/
theorem truncation_detected_bidding :
    decode (rawOfBody bidding) = .ok (ofBody bidding) ∧
      decode ((rawOfBody bidding).take 200) = .error .unexpectedEnd ∧
      decode (rawOfBody bidding ++ [0, 0]) = .error (.trailingBytes 2) := by
  have hdecode := decode_rawOfBody bidding_wellFormed
  have hshort : (rawOfBody bidding).take 200 ≠ rawOfBody bidding := by
    intro h
    have hlength : ((rawOfBody bidding).take 200).length ≠ (rawOfBody bidding).length := by
      decide +kernel
    exact hlength (congrArg List.length h)
  obtain ⟨hcut, hmore⟩ := truncation_detected hdecode
  exact ⟨hdecode, hcut _ (List.take_prefix 200 _) hshort, hmore [0, 0] (by decide)⟩

end Transaction

end LaneAuction
