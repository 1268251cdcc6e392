import LaneAuction.Proofs.Wire.Reads
import LaneAuction.Wire.Item

/-!
# Reads in sequence

A cursor is an input and the bytes of it that are left. Items that were written one after the other
are read back in their order, and the cursor then stands where they end. In any input and behind
any reads, whether they succeeded or failed, the bytes left are those of the input from one position
on, and no read moves that position back (`Cursor.reads_exact_and_forward`).

A read that succeeds has taken the form of what it gives (`Kind.read_inverts`). What a failing one
has taken depends on where it failed, so of this only the direction is known; it follows from how
readers are built (`Reader.Built.isSuffix`).
-/

namespace LaneAuction.Wire

/-- What a reader leaves is the end of what was there, also if it fails. -/
theorem Reader.Built.isSuffix {α : Type} {reader : Reader α} (h : reader.Built) (bs : Bytes) :
    (reader.take bs).2 <:+ bs := by
  induction h generalizing bs with
  | pure a => exact List.suffix_refl bs
  | throw e => exact List.suffix_refl bs
  | fixed n =>
    rw [Read.fixed_take]
    split
    · exact List.drop_suffix n bs
    · exact List.suffix_refl bs
  | @bind α β reader f _ _ ih ihf =>
    have hmid := ih bs
    rw [Reader.take_bind]
    generalize reader.take bs = first at hmid ⊢
    obtain ⟨e | a, mid⟩ := first
    · -- The second reader does not run behind a failure.
      exact hmid
    · exact (ihf a mid).trans hmid

/-- An item can be written and read back: its lengths and counts are small enough to be read, and
its denomination is well formed. The end of the input is not written. -/
def Item.IsWritable : Item → Prop
  | .varBytes bs => bs.length ≤ maxCount
  | .text t => t.utf8ByteSize ≤ maxCount
  | .coin c => c.isValid
  | .count n => n ≤ maxCount
  | .finish => False
  | .bytes _ | .u8 _ | .u32 _ | .u64 _ | .amount _ | .address _ | .signature _ => True

namespace Kind

open Reader Read

variable {kind : Kind} {item : Item} {bs left : Bytes}

/-- All readers but the check for the end are built. -/
private theorem built_read (h : kind ≠ .finish) : kind.read.Built := by
  cases kind with
  | bytes n => exact (built_bytes n).map
  | u8 => exact built_u8.map
  | u32 => exact built_u32.map
  | u64 => exact built_u64.map
  | amount => exact built_amount.map
  | address => exact built_bytes32.map
  | signature => exact built_signature.map
  | count => exact built_count.map
  | varBytes => exact built_varBytes.map
  | text => exact built_text.map
  | coin => exact built_coin.map
  | finish => exact absurd rfl h

/-- Items are read from their forms, and from nothing else. -/
private theorem read_inverts (h : kind ≠ .finish) :
    kind.read.Inverts Item.write fun item => item.kind = kind ∧ item.IsWritable := by
  -- Of the items of one kind, those that can be written are those that their reader gives.
  cases kind with
  | bytes n =>
    refine (bytes_inverts n).map (fun _ => rfl) fun item => ?_
    cases item <;> simp [Item.kind, Item.IsWritable]
  | u8 =>
    refine u8_inverts.map (fun _ => rfl) fun item => ?_
    cases item <;> simp [Item.kind, Item.IsWritable]
  | u32 =>
    refine u32_inverts.map (fun _ => rfl) fun item => ?_
    cases item <;> simp [Item.kind, Item.IsWritable]
  | u64 =>
    refine u64_inverts.map (fun _ => rfl) fun item => ?_
    cases item <;> simp [Item.kind, Item.IsWritable]
  | amount =>
    refine amount_inverts.map (fun _ => rfl) fun item => ?_
    cases item <;> simp [Item.kind, Item.IsWritable]
  | address =>
    refine bytes32_inverts.map (fun _ => rfl) fun item => ?_
    cases item <;> simp [Item.kind, Item.IsWritable]
  | signature =>
    refine signature_inverts.map (fun _ => rfl) fun item => ?_
    cases item <;> simp [Item.kind, Item.IsWritable]
  -- The items from here on carry a length or a denomination, which has to be in range.
  | count =>
    refine count_inverts.map (fun _ => rfl) fun item => ?_
    cases item <;> simp [Item.kind, Item.IsWritable]
  | varBytes =>
    refine varBytes_inverts.map (fun _ => rfl) fun item => ?_
    cases item <;> simp [Item.kind, Item.IsWritable]
  | text =>
    refine text_inverts.map (fun _ => rfl) fun item => ?_
    cases item <;> simp [Item.kind, Item.IsWritable]
  | coin =>
    refine coin_inverts.map (fun _ => rfl) fun item => ?_
    cases item <;> simp [Item.kind, Item.IsWritable]
  -- The end of the input is no item, and no bytes stand for it.
  | finish => exact absurd rfl h

/-- The check for the end takes nothing, and reports how many bytes are left. -/
private theorem finish_read_take (bs : Bytes) :
    Kind.finish.read.take bs =
      (if bs = [] then .ok .finish else .error (.trailingBytes bs.length), bs) := by
  rw [read, map_eq_pure_bind, take_bind, finish_take]
  by_cases h : bs = [] <;> simp [h]

/-- A read of bytes that are not there takes none. -/
private theorem bytes_read_take_of_error {n : Nat} {e : Error}
    (h : ((Kind.bytes n).read.take bs).1 = .error e) : ((Kind.bytes n).read.take bs).2 = bs := by
  rw [read, Read.bytes, map_eq_pure_bind, take_bind, take_bind, fixed_take] at h ⊢
  by_cases hn : (bs.take n).length = n
  · simp [hn] at h
  · rw [dif_neg hn]

/-- What a read leaves is a suffix, also if it fails. -/
private theorem isSuffix_read (kind : Kind) (bs : Bytes) : (kind.read.take bs).2 <:+ bs := by
  by_cases h : kind = .finish
  · obtain rfl := h
    exact ⟨[], congrArg Prod.snd (finish_read_take bs)⟩
  · exact (built_read h).isSuffix bs

/-- What a read takes is the form of what it gives; for the end of the input that is nothing. -/
private theorem eq_write_append (h : kind.read.take bs = (.ok item, left)) :
    bs = item.write ++ left := by
  by_cases hkind : kind = .finish
  · rw [hkind, finish_read_take] at h
    obtain ⟨hitem, rfl⟩ := Prod.mk.inj h
    split at hitem
    · obtain rfl := Except.ok.inj hitem
      rfl
    · exact nomatch hitem
  · exact ((read_inverts hkind bs item left).mp h).2

end Kind

/-- An item is read back, whatever is behind it. -/
private theorem Item.take_write_append {item : Item} (h : item.IsWritable) (more : Bytes) :
    item.kind.read.take (item.write ++ more) = (.ok item, more) := by
  have hkind : item.kind ≠ .finish := by
    intro hfinish
    cases item <;> simp [Item.kind, Item.IsWritable] at hfinish h
  exact (Kind.read_inverts hkind ..).mpr ⟨⟨rfl, h⟩, rfl⟩

/-- An input, and the bytes of it that no read has taken. -/
structure Cursor where
  input : Bytes
  left : Bytes

namespace Cursor

variable {c : Cursor} {input : Bytes}

/-- The cursor in front of an input. -/
def start (input : Bytes) : Cursor := ⟨input, input⟩

/-- How many bytes of the input are not left. -/
def position (c : Cursor) : Nat := c.input.length - c.left.length

/-- How many bytes are left. -/
def remaining (c : Cursor) : Nat := c.left.length

/-- The answer to a read, and the cursor behind it. -/
def read (c : Cursor) (kind : Kind) : Except Error Item × Cursor :=
  ((kind.read.take c.left).1, { c with left := (kind.read.take c.left).2 })

/-- The cursor behind some reads, whatever their answers. -/
def after (c : Cursor) (kinds : List Kind) : Cursor :=
  kinds.foldl (fun c kind => (c.read kind).2) c

/-- The bytes left are those of the input from the position on. -/
structure LiesIn (c : Cursor) (input : Bytes) : Prop where
  input_eq : c.input = input
  left_eq : c.left = input.drop c.position
  position_le : c.position ≤ input.length
  position_add_remaining : c.position + c.remaining = input.length

/-- A cursor lies in an input if what it has left is a suffix of it. -/
private theorem liesIn_iff : c.LiesIn input ↔ c.input = input ∧ c.left <:+ input := by
  constructor
  · intro h
    refine ⟨h.input_eq, ?_⟩
    rw [h.left_eq]
    exact List.drop_suffix _ input
  · rintro ⟨rfl, hsuffix⟩
    have hle := hsuffix.length_le
    refine ⟨rfl, List.suffix_iff_eq_drop.mp hsuffix, ?_, ?_⟩
    · simp only [position]
      omega
    · simp only [position, remaining]
      omega

/-- A read moves a cursor within its input. -/
theorem LiesIn.read (h : c.LiesIn input) (kind : Kind) : (c.read kind).2.LiesIn input := by
  obtain ⟨hinput, hsuffix⟩ := liesIn_iff.mp h
  exact liesIn_iff.mpr ⟨hinput, (kind.isSuffix_read c.left).trans hsuffix⟩

/-- Reads move a cursor within its input. -/
theorem LiesIn.after (h : c.LiesIn input) (kinds : List Kind) : (c.after kinds).LiesIn input := by
  induction kinds generalizing c with
  | nil => exact h
  | cons kind kinds ih => exact ih (h.read kind)

/-- A cursor is at the end if and only if nothing is left. -/
private theorem LiesIn.position_eq_length_iff (h : c.LiesIn input) :
    c.position = input.length ↔ c.left = [] := by
  have hsum := h.position_add_remaining
  rw [remaining] at hsum
  rw [← List.length_eq_zero_iff]
  omega

/-- No read moves a cursor back. -/
private theorem position_le_read (c : Cursor) (kind : Kind) :
    c.position ≤ (c.read kind).2.position := by
  have hle := (kind.isSuffix_read c.left).length_le
  simp only [position, read]
  omega

/-- One more read starts behind the others. -/
private theorem after_concat (c : Cursor) (kinds : List Kind) (kind : Kind) :
    c.after (kinds ++ [kind]) = ((c.after kinds).read kind).2 := by
  simp [after]

/-- The last of some reads starts where the others have ended. -/
private theorem readAll_concat (c : Cursor) (kinds : List Kind) (kind : Kind) :
    readAll (kinds ++ [kind]) c.left = readAll kinds c.left ++
      [(((c.after kinds).read kind).1, ((c.after kinds).read kind).2.left)] := by
  induction kinds generalizing c with
  | nil => rfl
  | cons first kinds ih =>
    simp only [List.cons_append, readAll, List.cons.injEq, true_and]
    exact ih (c.read first).2

/-- Reading what was written leads to the end of it. -/
theorem after_writeAll {items : List Item} (h : ∀ item ∈ items, item.IsWritable)
    (input suffix : Bytes) :
    after ⟨input, writeAll items ++ suffix⟩ (items.map Item.kind) = ⟨input, suffix⟩ := by
  induction items with
  | nil => rfl
  | cons item items ih =>
    obtain ⟨hitem, hitems⟩ := List.forall_mem_cons.mp h
    have htake := Item.take_write_append hitem (writeAll items ++ suffix)
    simp only [after, List.map_cons, List.foldl_cons, read, writeAll, List.flatMap_cons,
      List.append_assoc] at htake ⊢
    rw [htake]
    exact ih hitems

end Cursor

/-- Reading what was written answers with what was written. -/
theorem readAll_writeAll {items : List Item} (h : ∀ item ∈ items, item.IsWritable)
    (suffix : Bytes) :
    (readAll (items.map Item.kind) (writeAll items ++ suffix)).map Prod.fst = items.map .ok := by
  induction items with
  | nil => rfl
  | cons item items ih =>
    obtain ⟨hitem, hitems⟩ := List.forall_mem_cons.mp h
    have htake := Item.take_write_append hitem (writeAll items ++ suffix)
    simp only [List.map_cons, readAll, writeAll, List.flatMap_cons, List.append_assoc] at htake ⊢
    rw [htake]
    exact congrArg (_ :: ·) (ih hitems)

namespace Cursor

/-- Items that were written one after the other are read back, whatever is behind them, and the
cursor then stands at their end. In any input and behind any reads, the bytes left are those of the
input from the position on. The next read does not move the position back; if it succeeds, it has
taken the form of what it gives. A read of bytes that fails leaves the cursor where it was. The end
is found exactly if everything was taken, and looking for it takes nothing. -/
theorem reads_exact_and_forward :
    (∀ (items : List Item) (suffix : Bytes), (∀ item ∈ items, item.IsWritable) →
      let input := writeAll items ++ suffix
      let kinds := items.map Item.kind
      (readAll kinds input).map Prod.fst = items.map .ok ∧
      (start input).after kinds = ⟨input, suffix⟩ ∧
      ((start input).after kinds).position = (writeAll items).length) ∧
    ∀ (input : Bytes) (kinds : List Kind),
      let c := (start input).after kinds
      c.LiesIn input ∧
      (∀ kind,
        readAll (kinds ++ [kind]) input =
          readAll kinds input ++ [((c.read kind).1, (c.read kind).2.left)] ∧
        (start input).after (kinds ++ [kind]) = (c.read kind).2 ∧
        c.position ≤ (c.read kind).2.position ∧
        ∀ item, (c.read kind).1 = .ok item → c.left = item.write ++ (c.read kind).2.left) ∧
      (∀ n e, (c.read (.bytes n)).1 = .error e → (c.read (.bytes n)).2 = c) ∧
      ((c.read .finish).1 = .ok .finish ↔ c.position = input.length) ∧
      (c.read .finish).2 = c := by
  constructor
  · -- What was written is read back, and the suffix is not touched.
    intro items suffix h input kinds
    have hafter : (start input).after kinds = ⟨input, suffix⟩ := after_writeAll h input suffix
    refine ⟨readAll_writeAll h suffix, hafter, ?_⟩
    simp [hafter, position, input]
  · intro input kinds c
    -- A cursor starts at the front, and no read leaves the input.
    have hlies : c.LiesIn input :=
      (liesIn_iff.mpr ⟨rfl, List.suffix_refl input⟩ : (start input).LiesIn input).after kinds
    refine ⟨hlies, fun kind => ⟨?answers, after_concat .., position_le_read c kind, ?taken⟩,
      ?bytes, ?finish, ?stays⟩
    case answers => exact readAll_concat (start input) kinds kind
    case taken => exact fun item hitem => Kind.eq_write_append (Prod.ext hitem rfl)
    case bytes =>
      intro n e h
      simp only [read, Kind.bytes_read_take_of_error h]
    case finish =>
      rw [hlies.position_eq_length_iff]
      by_cases hleft : c.left = [] <;> simp [read, Kind.finish_read_take, hleft]
    case stays => simp only [read, Kind.finish_read_take]

/-- Numbers and an address, and between them values that stand behind their lengths. -/
def mixed : List Item :=
  [.u8 7, .text "né", .u32 70000, .coin ⟨.largest, "stake"⟩, .varBytes [1, 2, 3],
    .address .zero, .u64 5, .amount .largest]

/-- Values of all kinds are read back in front of one more byte, and the cursor ends in front of it.
-/
theorem reads_exact_and_forward_mixed :
    (∀ item ∈ mixed, item.IsWritable) ∧
      (readAll (mixed.map Item.kind) (writeAll mixed ++ [255])).map Prod.fst = mixed.map .ok ∧
      ((start (writeAll mixed ++ [255])).after (mixed.map Item.kind)).position = 100 := by
  have hwritable : ∀ item ∈ mixed, item.IsWritable := by
    simp only [mixed, List.forall_mem_cons, Item.IsWritable, true_and, List.not_mem_nil,
      false_imp_iff, implies_true]
    decide
  obtain ⟨hanswers, -, hposition⟩ := reads_exact_and_forward.1 mixed [255] hwritable
  have hlength : (writeAll mixed).length = 100 := by decide +kernel
  exact ⟨hwritable, hanswers, hposition.trans hlength⟩

/-- A text that is not UTF-8 was taken before it is refused, and the next read goes on behind it. -/
example : (readAll [.text, .u8] [2, 0, 0, 0, 255, 254, 7]).map Prod.snd = [[7], []] := by decide

end Cursor

end LaneAuction.Wire
