import LaneAuction.Wire
import LaneAuction.Proofs.Coin.Text

/-!
# What readers take

A reader inverts a writer on the values with some property if it takes exactly what the writer
produces for them, whatever bytes follow. `Reader.Inverts` says so in one statement: nothing that
was written is refused, and nothing else is taken, so every value has one wire form.

Every field reader of `Wire.Read` inverts its writer (`u8_inverts` to `coin_inverts`), and a list
of a known length inherits the property from its elements (`replicate_inverts`).

What a reader does with bytes that it refuses follows from how it is put together: all of them are
built from takes of a fixed number of bytes (`Reader.Built`).
-/

namespace LaneAuction

namespace Wire

namespace Reader

variable {α β : Type} {reader : Reader α} {write : α → Bytes} {P : α → Prop}

@[simp] theorem take_pure (a : α) (bs : Bytes) : Reader.take (pure a) bs = (.ok a, bs) := rfl

@[simp] theorem take_throw (e : Error) (bs : Bytes) :
    Reader.take (throw e : Reader α) bs = (.error e, bs) := rfl

@[simp] theorem take_get (bs : Bytes) : Reader.take (get : Reader Bytes) bs = (.ok bs, bs) := rfl

/-- The second of two readers runs on what the first one leaves. -/
theorem take_bind (reader : Reader α) (f : α → Reader β) (bs : Bytes) :
    (reader >>= f).take bs =
      match reader.take bs with
      | (.ok a, left) => (f a).take left
      | (.error e, left) => (.error e, left) := by
  unfold Reader.take ExceptT.run StateT.run
  simp only [bind, ExceptT.bind, ExceptT.mk, StateT.bind, ExceptT.bindCont]
  rcases reader bs with ⟨_ | _, _⟩ <;> rfl

/-- Two readers in sequence succeed if both do, one after the other. -/
theorem take_bind_eq_ok_iff {f : α → Reader β} {bs left : Bytes} {b : β} :
    (reader >>= f).take bs = (.ok b, left) ↔
      ∃ a mid, reader.take bs = (.ok a, mid) ∧ (f a).take mid = (.ok b, left) := by
  rw [take_bind]
  rcases reader.take bs with ⟨e | a, mid⟩
  · simp
  · constructor
    · intro h
      exact ⟨a, mid, rfl, h⟩
    · rintro ⟨_, _, ⟨⟩, h⟩
      exact h

/-- A reader that first looks at the bytes goes on with them. -/
theorem take_get_bind (f : Bytes → Reader β) (bs : Bytes) :
    (get >>= f).take bs = (f bs).take bs := take_bind ..

/-- `reader` takes from the front of any bytes exactly what `write` produces for the values with
the property `P`, and leaves the rest. -/
def Inverts (reader : Reader α) (write : α → Bytes) (P : α → Prop) : Prop :=
  ∀ bs a left, reader.take bs = (.ok a, left) ↔ P a ∧ bs = write a ++ left

/-- A sequence that starts with the inverse of a writer starts with what the writer produces. -/
theorem Inverts.take_bind_iff (h : reader.Inverts write P) {f : α → Reader β} {bs left : Bytes}
    {b : β} :
    (reader >>= f).take bs = (.ok b, left) ↔
      ∃ a mid, (P a ∧ bs = write a ++ mid) ∧ (f a).take mid = (.ok b, left) := by
  simp only [take_bind_eq_ok_iff, h _ _ _]

/-- What is made of a value is read from the value's form. -/
theorem Inverts.map (h : reader.Inverts write P) {f : α → β} {write' : β → Bytes} {Q : β → Prop}
    (hwrite : ∀ a, write' (f a) = write a) (hQ : ∀ b, Q b ↔ ∃ a, P a ∧ f a = b) :
    (f <$> reader).Inverts write' Q := by
  intro bs b left
  rw [map_eq_pure_bind, h.take_bind_iff, hQ]
  constructor
  · rintro ⟨a, mid, ⟨ha, rfl⟩, hpure⟩
    obtain ⟨rfl, rfl⟩ : f a = b ∧ mid = left := by simpa using hpure
    exact ⟨⟨a, ha, rfl⟩, by rw [hwrite]⟩
  · rintro ⟨⟨a, ha, rfl⟩, rfl⟩
    exact ⟨a, left, ⟨ha, by rw [hwrite]⟩, rfl⟩

/-- A reader takes bytes in groups of a fixed number, and decides by the values that it has taken
so far what to take next and what to refuse. -/
inductive Built : {α : Type} → Reader α → Prop where
  | pure {α : Type} (a : α) : Built (pure a)
  | throw {α : Type} (e : Error) : Built (throw e : Reader α)
  | fixed (n : Nat) : Built (Read.fixed n)
  | bind {α β : Type} {reader : Reader α} {f : α → Reader β} (h : Built reader)
      (hf : ∀ a, Built (f a)) : Built (reader >>= f)

/-- What a reader returns may be mapped. -/
theorem Built.map {f : α → β} (h : reader.Built) : Built (f <$> reader) := by
  rw [map_eq_pure_bind]
  exact h.bind fun a => .pure (f a)

end Reader

namespace Read

open Reader

/-- The bytes are taken if so many are left, and otherwise none. -/
theorem fixed_take (n : Nat) (bs : Bytes) :
    (fixed n).take bs =
      if h : (bs.take n).length = n then (.ok ⟨bs.take n, h⟩, bs.drop n)
      else (.error .unexpectedEnd, bs) := by
  simp only [fixed, take_bind, take_get]
  split <;> rfl

/-- A reader takes `n` bytes as they are, if so many are left. -/
theorem fixed_inverts (n : Nat) : (fixed n).Inverts Subtype.val fun _ => True := by
  intro bs a left
  rw [fixed_take]
  obtain ⟨front, hfront⟩ := a
  constructor
  · intro h
    split at h
    · obtain ⟨rfl, rfl⟩ : bs.take n = front ∧ bs.drop n = left := by simpa using h
      exact ⟨trivial, (List.take_append_drop n bs).symm⟩
    · simp at h
  · rintro ⟨-, rfl⟩
    simp [← hfront]

/-- The end is found where nothing is left. -/
theorem finish_take (bs : Bytes) :
    finish.take bs =
      if bs = [] then (.ok (), bs) else (.error (.trailingBytes bs.length), bs) := by
  by_cases h : bs = [] <;> simp [finish, take_get_bind, h]

/-- A value that is made of `n` bytes and is known by them is read from those bytes. -/
private theorem fixed_map_inverts {α : Type} {n : Nat} {f : { bs : Bytes // bs.length = n } → α}
    {write : α → Bytes} {P : α → Prop} (hwrite : ∀ bs, P (f bs) ∧ write (f bs) = bs.val)
    (hf : ∀ a, P a → ∃ h : (write a).length = n, f ⟨write a, h⟩ = a) :
    Inverts (do return f (← fixed n)) write P := by
  rw [bind_pure_comp]
  refine (fixed_inverts n).map (fun bs => (hwrite bs).2) fun a => ⟨fun ha => ?_, ?_⟩
  · obtain ⟨hlen, hread⟩ := hf a ha
    exact ⟨⟨write a, hlen⟩, trivial, hread⟩
  · rintro ⟨bs, -, rfl⟩
    exact (hwrite bs).1

/-- A value that is known by a number below the range of `width` bytes is read from the number's
little-endian bytes. -/
private theorem fixed_number_inverts {α : Type} {width : Nat}
    {f : { bs : Bytes // bs.length = width } → α}
    {toNat : α → Nat} (hf : ∀ bs, toNat (f bs) = bs.val.toNat)
    (hinj : ∀ a b, toNat a = toNat b → a = b) (hlt : ∀ a, toNat a < 1 <<< (8 * width)) :
    Inverts (do return f (← fixed width)) (fun a => Bytes.ofNat width (toNat a))
      fun _ => True := by
  apply fixed_map_inverts
  · rintro ⟨front, rfl⟩
    exact ⟨trivial, by rw [hf, Bytes.ofNat_toNat]⟩
  · intro a _
    refine ⟨Bytes.length_ofNat .., hinj _ _ ?_⟩
    rw [hf, Bytes.toNat_ofNat, Nat.mod_eq_of_lt (hlt a)]

/-- A number read from `width` bytes is below the range of that width. -/
private theorem toNat_lt_of_length {width : Nat} (bs : { bs : Bytes // bs.length = width }) :
    bs.val.toNat < 1 <<< (8 * width) := by
  have h := bs.val.toNat_lt
  rwa [bs.property] at h

/-- A number of one byte is read as it is written. -/
theorem u8_inverts : u8.Inverts Write.u8 fun _ => True :=
  fixed_number_inverts (fun bs => UInt8.toNat_ofNat_of_lt (toNat_lt_of_length bs))
    (fun _ _ => UInt8.toNat_inj.mp) UInt8.toNat_lt

/-- A number of four bytes is read as it is written. -/
theorem u32_inverts : u32.Inverts Write.u32 fun _ => True :=
  fixed_number_inverts (fun bs => UInt32.toNat_ofNat_of_lt (toNat_lt_of_length bs))
    (fun _ _ => UInt32.toNat_inj.mp) UInt32.toNat_lt

/-- A number of eight bytes is read as it is written. -/
theorem u64_inverts : u64.Inverts Write.u64 fun _ => True :=
  fixed_number_inverts (fun bs => UInt64.toNat_ofNat_of_lt (toNat_lt_of_length bs))
    (fun _ _ => UInt64.toNat_inj.mp) UInt64.toNat_lt

/-- An amount is read as it is written. -/
theorem amount_inverts : amount.Inverts Write.amount fun _ => True :=
  fixed_number_inverts (fun _ => rfl) (fun _ _ => Amount.ext) Amount.toNat_lt

/-- As many bytes as are asked for are read as they are. -/
theorem bytes_inverts (n : Nat) : (bytes n).Inverts id fun bs => bs.length = n :=
  fixed_map_inverts (fun bs => ⟨bs.property, rfl⟩) fun _ h => ⟨h, rfl⟩

/-- Hashes and addresses are read as they are written. -/
theorem bytes32_inverts : bytes32.Inverts Bytes32.toList fun _ => True :=
  fixed_map_inverts (fun _ => ⟨trivial, rfl⟩) fun a _ => ⟨a.length_toList, rfl⟩

/-- Signatures are read as they are written. -/
theorem signature_inverts : signature.Inverts Signature.toList fun _ => True :=
  fixed_map_inverts (fun _ => ⟨trivial, rfl⟩) fun a _ => ⟨a.length_toList, rfl⟩

/-- A count above `maxCount` is refused, so no count that is read was cut to 32 bits. -/
theorem count_inverts : count.Inverts Write.count (· ≤ maxCount) := by
  intro bs n left
  have hmax : maxCount < UInt32.size := by decide
  simp only [count, u32_inverts.take_bind_iff, true_and]
  -- A count is a word that was checked to be in range.
  constructor
  · rintro ⟨w, mid, rfl, h⟩
    by_cases hw : maxCount < w.toNat
    · simp [hw] at h
    · obtain ⟨rfl, rfl⟩ : w.toNat = n ∧ mid = left := by simpa [hw] using h
      exact ⟨Nat.le_of_not_lt hw, by simp [Write.count]⟩
  · rintro ⟨hn, rfl⟩
    have hval : (UInt32.ofNat n).toNat = n := UInt32.toNat_ofNat_of_lt (by omega)
    refine ⟨UInt32.ofNat n, left, rfl, ?_⟩
    rw [hval]
    simp [Nat.not_lt.mpr hn]

/-- Bytes behind their length are read as they are written, up to the greatest length. -/
theorem varBytes_inverts : varBytes.Inverts Write.varBytes fun bs => bs.length ≤ maxCount := by
  intro bs a left
  simp only [varBytes, count_inverts.take_bind_iff, bytes_inverts _ _ _ _, id_eq]
  constructor
  · rintro ⟨_, _, ⟨hle, rfl⟩, rfl, rfl⟩
    exact ⟨hle, by simp [Write.varBytes]⟩
  · rintro ⟨hle, rfl⟩
    exact ⟨a.length, a ++ left, ⟨hle, by simp [Write.varBytes]⟩, rfl, rfl⟩

/-- The text of some bytes is found if they are its UTF-8 form. -/
private theorem fromUTF8?_eq_some_iff {bs : Bytes} {t : String} :
    String.fromUTF8? ⟨bs.toArray⟩ = some t ↔ bs = t.toByteArray.data.toList := by
  unfold String.fromUTF8?
  split
  · rename_i h
    simp only [Option.some.injEq, String.fromUTF8]
    constructor
    · rintro rfl
      rfl
    · rintro rfl
      rfl
  · rename_i h
    simp only [reduceCtorEq, false_iff]
    rintro rfl
    exact h t.isValidUTF8

/-- A text is read from its UTF-8 bytes, which no other text has. -/
theorem text_inverts : text.Inverts Write.text fun t => t.utf8ByteSize ≤ maxCount := by
  intro bs t left
  simp only [text, varBytes_inverts.take_bind_iff]
  constructor
  · rintro ⟨utf8, mid, ⟨hle, rfl⟩, h⟩
    split at h
    · rename_i t' ht
      obtain rfl := fromUTF8?_eq_some_iff.mp ht
      obtain ⟨rfl, rfl⟩ : t' = t ∧ mid = left := by simpa using h
      exact ⟨by simpa using hle, rfl⟩
    · simp at h
  · rintro ⟨hle, rfl⟩
    refine ⟨t.toByteArray.data.toList, left, ⟨by simpa using hle, rfl⟩, ?_⟩
    rw [fromUTF8?_eq_some_iff.mpr rfl]
    rfl

/-- Coins are read as they are written, if their denomination is well formed. -/
theorem coin_inverts : coin.Inverts Write.coin fun c => c.isValid := by
  intro bs c left
  simp only [coin, text_inverts.take_bind_iff, amount_inverts.take_bind_iff, true_and]
  constructor
  · rintro ⟨denom, _, ⟨-, rfl⟩, amount, mid, rfl, h⟩
    split at h
    · rename_i hvalid
      obtain ⟨rfl, rfl⟩ : ⟨amount, denom⟩ = c ∧ mid = left := by simpa using h
      exact ⟨hvalid, by simp [Write.coin]⟩
    · simp at h
  · rintro ⟨hvalid, rfl⟩
    have hle : c.denom.utf8ByteSize ≤ maxCount :=
      Nat.le_trans (Denom.wellFormed_iff.mpr hvalid).size.2 (by decide)
    refine ⟨c.denom, _, ⟨hle, by simp [Write.coin]⟩, c.amount, left, rfl, ?_⟩
    rw [if_pos (show Denom.isValid c.denom = true from hvalid)]
    rfl

/-- A list of `n` values is read from the forms of its elements, one behind the other. -/
theorem replicate_inverts {α : Type} {reader : Reader α} {write : α → Bytes} {P : α → Prop}
    (h : reader.Inverts write P) (n : Nat) :
    (replicate reader n).Inverts (·.flatMap write) fun as => as.length = n ∧ ∀ a ∈ as, P a := by
  induction n with
  | zero =>
    intro bs as left
    simp only [replicate, take_pure, Prod.mk.injEq, Except.ok.injEq, List.length_eq_zero_iff]
    constructor
    · rintro ⟨rfl, rfl⟩
      simp
    · rintro ⟨⟨rfl, -⟩, rfl⟩
      exact ⟨rfl, rfl⟩
  | succ n ih =>
    -- The form of the first element ends where the forms of the others start.
    intro bs as left
    simp only [replicate, h.take_bind_iff, ih.take_bind_iff, take_pure, Prod.mk.injEq,
      Except.ok.injEq]
    constructor
    · rintro ⟨a, _, ⟨ha, rfl⟩, rest, _, ⟨⟨hlen, hrest⟩, rfl⟩, rfl, rfl⟩
      exact ⟨⟨by simp [hlen], List.forall_mem_cons.mpr ⟨ha, hrest⟩⟩, by simp⟩
    -- A list of the right length has a first element, whose form comes first.
    · rintro ⟨⟨hlen, has⟩, rfl⟩
      obtain ⟨a, rest, rfl⟩ := List.exists_cons_of_length_eq_add_one hlen
      obtain ⟨ha, hrest⟩ := List.forall_mem_cons.mp has
      exact ⟨a, _, ⟨ha, by simp⟩, rest, left, ⟨⟨by simpa using hlen, hrest⟩, rfl⟩, rfl, rfl⟩

/-! ### How the readers are built -/

/-- The reader of a byte is built. -/
theorem built_u8 : u8.Built := (Built.fixed 1).bind fun _ => .pure _

/-- The reader of four bytes is built. -/
theorem built_u32 : u32.Built := (Built.fixed 4).bind fun _ => .pure _

/-- The reader of eight bytes is built. -/
theorem built_u64 : u64.Built := (Built.fixed 8).bind fun _ => .pure _

/-- The reader of an amount is built. -/
theorem built_amount : amount.Built := (Built.fixed 16).bind fun _ => .pure _

/-- The reader of given many bytes is built. -/
theorem built_bytes (n : Nat) : (bytes n).Built := (Built.fixed n).bind fun _ => .pure _

/-- The reader of 32 bytes is built. -/
theorem built_bytes32 : bytes32.Built := (Built.fixed 32).bind fun _ => .pure _

/-- The reader of a signature is built. -/
theorem built_signature : signature.Built := (Built.fixed 64).bind fun _ => .pure _

/-- The bound is looked at once the count is there. -/
theorem built_count : count.Built := by
  refine built_u32.bind fun n => ?_
  by_cases h : maxCount < n.toNat
  · simpa [h] using Built.throw _
  · simpa [h] using Built.pure _

/-- The reader of bytes behind their length is built. -/
theorem built_varBytes : varBytes.Built := built_count.bind built_bytes

/-- The reader of texts is built. -/
theorem built_text : text.Built := by
  refine built_varBytes.bind fun bs => ?_
  split
  · exact .pure _
  · exact .throw _

/-- The reader of coins is built. -/
theorem built_coin : coin.Built := by
  refine built_text.bind fun denom => built_amount.bind fun amount => ?_
  split
  · exact .pure _
  · exact .throw _

/-- A reader that is repeated is built. -/
theorem built_replicate {α : Type} {reader : Reader α} (h : reader.Built) (n : Nat) :
    (replicate reader n).Built := by
  induction n with
  | zero => exact .pure _
  | succ n ih => exact h.bind fun _ => ih.bind fun _ => .pure _

end Read

end Wire

end LaneAuction
