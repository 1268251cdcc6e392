import LaneAuction.Bytes.Hex

/-!
# Hexadecimal texts

A digit of either case is one whose lower case is written. So the digits that are read as some bytes
are those whose lower case is what is written for the bytes (`Hex.decode?_eq_some_iff`), and an even
number of digits is always read.

A text of 64 digits, with or without the marker, is therefore read as the bytes that its digits
stand for, no other text is read, and every value is read back from its digits in either case
(`Bytes32.hex_text_exact`).
-/

namespace LaneAuction

namespace Hex

variable {c : Char} {n : Nat} {digits : List Char} {bs : Bytes}

/-- The character is the digit of a number below 16, in either case. -/
def IsDigitOf (c : Char) (n : Nat) : Prop := n < 16 ∧ c.toLower = n.digitChar

/-- All characters are digits of either case. -/
def AreDigits (digits : List Char) : Prop := ∀ c ∈ digits, ∃ n, IsDigitOf c n

/-- Two digits stand for each byte, the digit of its high half first. -/
def StandFor (digits : List Char) (bs : Bytes) : Prop :=
  ∀ i b, bs[i]? = some b → ∃ c d high low, digits[2 * i]? = some c ∧ digits[2 * i + 1]? = some d ∧
    IsDigitOf c high ∧ IsDigitOf d low ∧ b.toNat = 16 * high + low

/-! ### One digit -/

/-- Upper-case letters are shifted, and no other character is. -/
private theorem toNat_toLower (c : Char) :
    c.toLower.toNat = if 65 ≤ c.toNat ∧ c.toNat ≤ 90 then c.toNat + 32 else c.toNat := by
  by_cases h : 65 ≤ c.toNat ∧ c.toNat ≤ 90
  · have hlower : c.toLower.toNat = (c.val + ('a'.val - 'A'.val)).toNat :=
      congrArg Char.toNat (dif_pos h)
    have hlt : c.toNat + 32 < UInt32.size :=
      Nat.lt_of_le_of_lt (Nat.add_le_add_right h.2 32) (by decide)
    rw [if_pos h, hlower, UInt32.toNat_add]
    exact Nat.mod_eq_of_lt hlt
  · rw [if_neg h]
    exact congrArg Char.toNat (dif_neg h)

/-- The digits are those from 0, and behind nine the letters from a. -/
private theorem toNat_digitChar :
    ∀ n < 16, n.digitChar.toNat = if n < 10 then 48 + n else 87 + n := by
  decide

/-- The value of a digit, by the number of its character. -/
private theorem digit?_eq (c : Char) : digit? c =
    if 48 ≤ c.toNat ∧ c.toNat ≤ 57 then some (c.toNat - 48)
    else if 97 ≤ c.toNat ∧ c.toNat ≤ 102 then some (c.toNat - 97 + 10)
    else if 65 ≤ c.toNat ∧ c.toNat ≤ 70 then some (c.toNat - 65 + 10)
    else none := rfl

/-- A digit is read as the number that it is the digit of, and nothing else is read. -/
private theorem digit?_eq_some_iff : digit? c = some n ↔ IsDigitOf c n := by
  -- The three ranges of digits are compared as numbers.
  rw [IsDigitOf, ← Char.toNat_inj, toNat_toLower, digit?_eq]
  constructor
  · intro h
    have hn : n < 16 := by grind
    rw [toNat_digitChar n hn]
    grind
  · rintro ⟨hn, h⟩
    rw [toNat_digitChar n hn] at h
    grind

/-- The marker is not made of digits. -/
private theorem not_isDigitOf_x (n : Nat) : ¬ IsDigitOf 'x' n := by
  intro h
  have hnone : digit? 'x' = some n := digit?_eq_some_iff.mpr h
  exact nomatch hnone

/-! ### Digits of bytes -/

/-- A byte is made of two halves, and they are found in it. -/
private theorem halves_ofNat {high low : Nat} (hhigh : high < 16) (hlow : low < 16) :
    (UInt8.ofNat (16 * high + low)).toNat / 16 = high ∧
      (UInt8.ofNat (16 * high + low)).toNat % 16 = low := by
  have hlt : 16 * high + low < UInt8.size := by
    show _ < 256
    omega
  rw [UInt8.toNat_ofNat_of_lt' hlt]
  omega

/-- A byte is written as two digits, the high one first. -/
theorem encode_cons (b : UInt8) (bs : Bytes) : encode (b :: bs) =
    (b.toNat / 16).digitChar :: (b.toNat % 16).digitChar :: encode bs := rfl

/-- The digits that are read as some bytes are, in lower case, those that are written for them. -/
theorem decode?_eq_some_iff : decode? digits = some bs ↔ digits.map Char.toLower = encode bs := by
  -- Both sides go through the digits two at a time, and through the bytes one at a time.
  induction digits using decode?.induct generalizing bs with
  | case1 =>
    cases bs with
    | nil => simp [decode?, encode]
    | cons b bs => simp [decode?, encode_cons]
  | case2 hi lo rest ih =>
    cases bs with
    | nil => simp [decode?, encode, Option.bind_eq_some_iff]
    | cons b bs =>
      simp only [decode?, Option.bind_eq_bind, Option.bind_eq_some_iff, Option.pure_def,
        Option.some.injEq, List.cons.injEq, List.map_cons, encode_cons, ih, digit?_eq_some_iff]
      have hlt := b.toNat_lt
      -- A digit stands for a half of the byte, and the byte for its two halves.
      constructor
      · rintro ⟨high, ⟨hhigh, hhi⟩, low, ⟨hlow, hlo⟩, rest', hrest, rfl, rfl⟩
        obtain ⟨hdiv, hmod⟩ := halves_ofNat hhigh hlow
        rw [hdiv, hmod]
        exact ⟨hhi, hlo, hrest⟩
      · rintro ⟨hhi, hlo, hrest⟩
        refine ⟨b.toNat / 16, ⟨by omega, hhi⟩, b.toNat % 16, ⟨by omega, hlo⟩, bs, hrest, ?_, rfl⟩
        rw [Nat.div_add_mod, UInt8.ofNat_toNat]
  | case3 c =>
    -- No bytes have one digit.
    cases bs <;> simp [decode?, encode, pair]

/-- Digits stand for the bytes that they are read as. -/
private theorem standFor_of_decode? (h : decode? digits = some bs) : StandFor digits bs := by
  rw [decode?_eq_some_iff] at h
  induction bs generalizing digits with
  | nil => intro i b hb; simp at hb
  | cons b bs ih =>
    obtain ⟨c, digits, rfl, hc, h⟩ := List.map_eq_cons_iff.mp h
    obtain ⟨d, digits, rfl, hd, h⟩ := List.map_eq_cons_iff.mp h
    have hlt := b.toNat_lt
    intro i b' hb'
    cases i with
    | zero =>
      obtain rfl : b = b' := by simpa using hb'
      exact ⟨c, d, _, _, rfl, rfl, ⟨by omega, hc⟩, ⟨by omega, hd⟩, by omega⟩
    | succ i =>
      -- Behind the first byte, every index of a digit is larger by two.
      exact ih h i b' hb'

/-- Only digits in lower case are written. -/
private theorem exists_digitChar_of_mem_encode (h : c ∈ encode bs) : ∃ n < 16, c = n.digitChar := by
  obtain ⟨b, -, hpair⟩ := List.mem_flatMap.mp h
  have hlt := b.toNat_lt
  obtain hhigh | hlow : c = (b.toNat / 16).digitChar ∨ c = (b.toNat % 16).digitChar := by
    simpa [pair] using hpair
  · exact ⟨_, by omega, hhigh⟩
  · exact ⟨_, by omega, hlow⟩

/-- What is read consists of digits. -/
private theorem areDigits_of_decode? (h : decode? digits = some bs) : AreDigits digits := by
  intro c hc
  have hmem : c.toLower ∈ encode bs := decode?_eq_some_iff.mp h ▸ List.mem_map_of_mem hc
  exact exists_digitChar_of_mem_encode hmem

/-- Digits of even number are read. -/
private theorem exists_decode?_eq_some (hdigits : AreDigits digits)
    (heven : digits.length % 2 = 0) : ∃ bs, decode? digits = some bs := by
  induction digits using decode?.induct with
  | case1 => exact ⟨[], rfl⟩
  | case2 hi lo rest ih =>
    obtain ⟨high, hhigh⟩ := hdigits hi (by simp)
    obtain ⟨low, hlow⟩ := hdigits lo (by simp)
    obtain ⟨bs, hbs⟩ := ih (fun c hc => hdigits c (by simp [hc])) (by simp at heven; omega)
    rw [← digit?_eq_some_iff] at hhigh hlow
    exact ⟨UInt8.ofNat (16 * high + low) :: bs, by simp [decode?, hhigh, hlow, hbs]⟩
  | case3 c => simp at heven

/-- A digit may be written in upper case: in lower case it is the same digit. -/
private theorem toLower_toUpper_digitChar :
    ∀ n < 16, n.digitChar.toUpper.toLower = n.digitChar := by
  decide

/-- The upper case of what is written has what is written as its lower case. -/
private theorem map_toLower_map_toUpper_encode (bs : Bytes) :
    ((encode bs).map Char.toUpper).map Char.toLower = encode bs := by
  have hsame : ∀ c ∈ encode bs, (Char.toLower ∘ Char.toUpper) c = id c := by
    intro c hc
    obtain ⟨n, hn, rfl⟩ := exists_digitChar_of_mem_encode hc
    exact toLower_toUpper_digitChar n hn
  rw [List.map_map, List.map_congr_left hsame, List.map_id]

end Hex

namespace Bytes32

variable {digits : List Char} {text : String} {a : Bytes32}

/-- A text is made of 64 digits, with or without the marker in front of them. -/
structure Spells (digits : List Char) (text : String) : Prop where
  length_eq : digits.length = 64
  areDigits : Hex.AreDigits digits
  toList : text.toList = digits ∨ text.toList = '0' :: 'x' :: digits

/-- The marker is in front of what is left when it is dropped, or there is none. -/
private theorem eq_or_eq_dropMarker (cs : List Char) :
    cs = dropMarker cs ∨ cs = '0' :: 'x' :: dropMarker cs := by
  unfold dropMarker
  split
  · exact .inr rfl
  · exact .inl rfl

/-- Digits do not start with the marker. -/
private theorem dropMarker_of_areDigits (h : Hex.AreDigits digits) :
    dropMarker digits = digits := by
  unfold dropMarker
  split
  next =>
    obtain ⟨n, hn⟩ := h 'x' (by simp)
    exact absurd hn (Hex.not_isDigitOf_x n)
  next => rfl

/-- The digits that a text spells are what is left of it without the marker. -/
private theorem Spells.dropMarker_eq (h : Spells digits text) :
    dropMarker text.toList = digits := by
  obtain htext | htext := h.toList
  · rw [htext, dropMarker_of_areDigits h.areDigits]
  · rw [htext, dropMarker]

/-- A text is read as a value if and only if its digits are read as the bytes of the value. -/
theorem ofHex?_eq_some_iff :
    ofHex? text = some a ↔ Hex.decode? (dropMarker text.toList) = some a.toList := by
  simp only [ofHex?, Option.bind_eq_bind, Option.bind_eq_some_iff, ofList?_eq_some_iff,
    exists_eq_right]

/-- A text that is read spells its digits. -/
private theorem spells_of_ofHex? (h : ofHex? text = some a) :
    Spells (dropMarker text.toList) text where
  length_eq := by
    have hlower := Hex.decode?_eq_some_iff.mp (ofHex?_eq_some_iff.mp h)
    simpa using congrArg List.length hlower
  areDigits := Hex.areDigits_of_decode? (ofHex?_eq_some_iff.mp h)
  toList := eq_or_eq_dropMarker _

/-- Every text that spells 64 digits is read. -/
private theorem Spells.exists_ofHex? (h : Spells digits text) : ∃ a, ofHex? text = some a := by
  obtain ⟨bs, hbs⟩ := Hex.exists_decode?_eq_some h.areDigits (by rw [h.length_eq])
  have hlength : bs.length = 32 := by
    have hlower := congrArg List.length (Hex.decode?_eq_some_iff.mp hbs)
    rw [List.length_map, h.length_eq, Hex.length_encode] at hlower
    omega
  exact ⟨⟨bs, hlength⟩, ofHex?_eq_some_iff.mpr (by rw [h.dropMarker_eq, hbs])⟩

/-- A value is read from its digits in any case, with or without the marker. -/
private theorem ofHex?_of_map_toLower (h : digits.map Char.toLower = Hex.encode a.toList)
    (htext : text.toList = digits ∨ text.toList = '0' :: 'x' :: digits) : ofHex? text = some a := by
  have hread := Hex.decode?_eq_some_iff.mpr h
  have hlength : digits.length = 64 := by simpa using congrArg List.length h
  have hspells : Spells digits text := ⟨hlength, Hex.areDigits_of_decode? hread, htext⟩
  rw [ofHex?_eq_some_iff, hspells.dropMarker_eq, hread]

/-- A value is written as the marker and the digits of its bytes. -/
theorem toHex_eq (a : Bytes32) : a.toHex = "0x" ++ String.ofList (Hex.encode a.toList) := by
  rw [← String.toList_inj]
  simp [toHex]

/-- A text is read if and only if it is 64 digits of either case, with or without the marker `0x`.
Two digits each are read as one byte, and in lower case behind the marker they are what is written
for the value. Every value is read from what is written for it, with or without the marker, and from
its digits in upper case. -/
theorem hex_text_exact (text : String) :
    ((∃ a, ofHex? text = some a) ↔ ∃ digits, Spells digits text) ∧
    (∀ digits a, Spells digits text → ofHex? text = some a →
      Hex.StandFor digits a.toList ∧
      a.toHex = "0x" ++ String.ofList (digits.map Char.toLower)) ∧
    ∀ a : Bytes32,
      let digits := a.toHex.toList.drop 2
      ofHex? a.toHex = some a ∧ ofHex? (String.ofList digits) = some a ∧
      ofHex? (String.ofList (digits.map Char.toUpper)) = some a ∧
      ofHex? ("0x" ++ String.ofList (digits.map Char.toUpper)) = some a := by
  refine ⟨⟨?spelled, fun ⟨digits, h⟩ => h.exists_ofHex?⟩, ?value, ?written⟩
  case spelled =>
    rintro ⟨a, ha⟩
    exact ⟨_, spells_of_ofHex? ha⟩
  case value =>
    intro digits a h ha
    rw [ofHex?_eq_some_iff, h.dropMarker_eq] at ha
    exact ⟨Hex.standFor_of_decode? ha, by rw [toHex_eq, Hex.decode?_eq_some_iff.mp ha]⟩
  case written =>
    intro a digits
    have hdigits : digits = Hex.encode a.toList := by simp [digits, toHex]
    -- The digits that are written are in lower case already.
    have hlower : digits.map Char.toLower = Hex.encode a.toList := by
      rw [hdigits]
      exact Hex.decode?_eq_some_iff.mp (Hex.decode?_encode _)
    -- Their upper case reads as they do, with and without the marker.
    have hupper : (digits.map Char.toUpper).map Char.toLower = Hex.encode a.toList := by
      rw [hdigits]
      exact Hex.map_toLower_map_toUpper_encode _
    exact ⟨ofHex?_toHex a, ofHex?_of_map_toLower hlower (.inl (by simp)),
      ofHex?_of_map_toLower hupper (.inl (by simp)), ofHex?_of_map_toLower hupper (.inr (by simp))⟩

/-- Four bytes with letters among their digits, and some without. -/
def sample : Bytes32 := ⟨[0xde, 0xad, 0xbe, 0x0f] ++ List.replicate 28 0x07, by decide⟩

/-- A value is read from digits of both cases, with and without the marker, and written in lower
case. -/
theorem hex_text_exact_mixedCase :
    let digits := "DEadBe0F07070707070707070707070707070707070707070707070707070707".toList
    let text := "0xDEadBe0F07070707070707070707070707070707070707070707070707070707"
    Spells digits text ∧ ofHex? text = some sample ∧ Hex.StandFor digits sample.toList ∧
      sample.toHex = "0xdeadbe0f07070707070707070707070707070707070707070707070707070707" := by
  intro digits text
  have hread : Hex.decode? digits = some sample.toList := by decide
  have hspells : Spells digits text :=
    ⟨by decide, Hex.areDigits_of_decode? hread, .inr (by decide)⟩
  have hsample : ofHex? text = some sample := by
    rw [ofHex?_eq_some_iff, hspells.dropMarker_eq, hread]
  obtain ⟨-, hvalue, -⟩ := hex_text_exact text
  obtain ⟨hstand, hlower⟩ := hvalue digits sample hspells hsample
  exact ⟨hspells, hsample, hstand, hlower.trans (by decide)⟩

end Bytes32

end LaneAuction
