import LaneAuction.Proofs.Decimal
import LaneAuction.Proofs.Digits

/-!
# The texts of decimals

A `Numeral` is what the text of a decimal is made of: some digits, and behind a point up to 18 more.
Every text that is made so is read, if the number is in range, and no other text is
(`ofText_eq_ok_iff`). A decimal is written as the shortest numeral of its number
(`spells_toText`): two numerals of one number differ in zeros that the number does not need,
and only the shortest has none (`Numeral.WellFormed.trims`).
-/

namespace LaneAuction

namespace Decimal

/-- The digits of a text, in front of the point and behind it. -/
structure Numeral where
  whole : List Char
  fraction : List Char

namespace Numeral

variable {n m : Numeral} {text : String}

/-- The point and the digits behind it, if there are any. -/
def pointChars (n : Numeral) : List Char :=
  if n.fraction = [] then [] else '.' :: n.fraction

def toChars (n : Numeral) : List Char := n.whole ++ n.pointChars

/-- The digits behind the point, filled up to 18 places. -/
def filled (n : Numeral) : List Char :=
  n.fraction ++ List.replicate (places - n.fraction.length) '0'

/-- The number in units of `10 ^ -18`. They are counted by moving the point behind the last of the
18 places. -/
def units (n : Numeral) : Nat := Nat.ofDigitChars 10 (n.whole ++ n.filled) 0

/-- The units of what is behind the point, computed in amounts. -/
def part? (n : Numeral) : Option Amount := do
  let value ← Amount.ofNat? (Nat.ofDigitChars 10 n.fraction 0)
  let padding ← Amount.ofNat? (Nat.pow 10 (places - n.fraction.length))
  value.mul? padding

/-- All units, computed in amounts. -/
def units? (n : Numeral) : Option Amount := do
  let part ← n.part?
  let whole ← Amount.ofNat? (Nat.ofDigitChars 10 n.whole 0)
  let high ← whole.mul? one.atomics
  high.add? part

/-- There is a digit in front of the point, and there are at most 18 behind it. -/
structure WellFormed (n : Numeral) : Prop where
  whole_ne_nil : n.whole ≠ []
  whole : ∀ c ∈ n.whole, c.isDigit
  fraction : ∀ c ∈ n.fraction, c.isDigit
  length_fraction : n.fraction.length ≤ places

/-- A text is made of the digits of a numeral. -/
structure Spells (n : Numeral) (text : String) : Prop extends n.WellFormed where
  toList : text.toList = n.toChars

/-- No zero could be left out. -/
structure IsShort (n : Numeral) : Prop where
  whole : n.whole.head? = some '0' → n.whole = ['0']
  fraction : n.fraction.getLast? ≠ some '0'

/-- What is left of `n` if some zeros are left out, in front of the whole part and behind the
fraction. -/
structure Trims (n m : Numeral) : Prop where
  whole : ∃ k, n.whole = List.replicate k '0' ++ m.whole
  fraction : ∃ k, n.fraction = m.fraction ++ List.replicate k '0'

/-! ### Digits and numbers -/

/-- A fraction that is filled up has all 18 places. -/
private theorem WellFormed.length_filled (h : n.WellFormed) : n.filled.length = places := by
  rw [filled, List.length_append, List.length_replicate]
  exact Nat.add_sub_cancel' h.length_fraction

/-- Filling up adds nothing but digits. -/
private theorem WellFormed.isDigit_filled (h : n.WellFormed) : ∀ c ∈ n.filled, c.isDigit := by
  intro c hc
  obtain hc | hc := List.mem_append.mp hc
  · exact h.fraction c hc
  · exact Nat.isDigit_of_mem_zeros hc

/-- The whole part counts as many units as one has. -/
private theorem WellFormed.units_eq (h : n.WellFormed) :
    n.units = Nat.ofDigitChars 10 n.whole 0 * scale +
      Nat.ofDigitChars 10 n.fraction 0 * Nat.pow 10 (places - n.fraction.length) := by
  rw [units, Nat.ofDigitChars_append, Nat.ofDigitChars_eq_ofDigitChars_zero, h.length_filled,
    filled, Nat.ofDigitChars_append_replicate_zero, Nat.mul_comm]
  rfl

/-- The whole part alone is no more than all units. -/
private theorem WellFormed.whole_le_units (h : n.WellFormed) :
    Nat.ofDigitChars 10 n.whole 0 ≤ n.units := by
  rw [h.units_eq]
  exact Nat.le_add_right_of_le (Nat.le_mul_of_pos_right _ scale_pos)

/-- The digits behind the point stand for less than one. -/
private theorem WellFormed.fraction_lt_scale (h : n.WellFormed) :
    Nat.ofDigitChars 10 n.fraction 0 * Nat.pow 10 (places - n.fraction.length) < scale := by
  rw [← Nat.ofDigitChars_append_replicate_zero, ← filled]
  have hlt := Nat.ofDigitChars_lt h.isDigit_filled
  rwa [h.length_filled] at hlt

/-- The units are the number that all digits together form, at the scale of a decimal instead of
that of its last digit. -/
private theorem WellFormed.units_mul_pow (h : n.WellFormed) :
    n.units * Nat.pow 10 n.fraction.length =
      Nat.ofDigitChars 10 (n.whole ++ n.fraction) 0 * scale := by
  have hpow : Nat.pow 10 (places - n.fraction.length) * Nat.pow 10 n.fraction.length = scale := by
    rw [Nat.pow_eq, Nat.pow_eq, ← Nat.pow_add, Nat.sub_add_cancel h.length_fraction]
    rfl
  rw [units, filled, ← List.append_assoc, Nat.ofDigitChars_append_replicate_zero, Nat.mul_assoc,
    hpow]

/-- Behind the point no step leaves the range. -/
private theorem WellFormed.part?_eq_some (h : n.WellFormed) : ∃ part, n.part? = some part ∧
    part.toNat = Nat.ofDigitChars 10 n.fraction 0 * Nat.pow 10 (places - n.fraction.length) := by
  have hpos : 0 < Nat.pow 10 (places - n.fraction.length) := Nat.pow_pos (by decide)
  have hpow : Nat.pow 10 (places - n.fraction.length) ≤ scale :=
    Nat.pow_le_pow_right (by decide) (Nat.sub_le ..)
  have hvalue := Nat.le_mul_of_pos_right (Nat.ofDigitChars 10 n.fraction 0) hpos
  have hscale : scale < 0x1_00000000_00000000_00000000_00000000 := by decide
  have hproduct := Nat.lt_trans h.fraction_lt_scale hscale
  obtain ⟨value, hvalue⟩ := Amount.exists_toNat_eq (Nat.lt_of_le_of_lt hvalue hproduct)
  obtain ⟨padding, hpadding⟩ := Amount.exists_toNat_eq (Nat.lt_of_le_of_lt hpow hscale)
  obtain ⟨part, hpart⟩ := Amount.exists_toNat_eq hproduct
  refine ⟨part, ?_, hpart⟩
  rw [← hvalue, ← hpadding] at hpart
  rw [part?, ← hvalue, ← hpadding, Amount.ofNat?_toNat, Amount.ofNat?_toNat]
  exact Amount.mul?_eq_some_iff.mpr hpart.symm

/-- All steps stay in range if the result does. -/
private theorem WellFormed.units?_eq_some_iff (h : n.WellFormed) {a : Amount} :
    n.units? = some a ↔ n.units = a.toNat := by
  obtain ⟨part, hpart, hvalue⟩ := h.part?_eq_some
  have hone : one.atomics.toNat = scale := rfl
  rw [h.units_eq, ← hvalue, units?]
  simp only [Option.bind_eq_bind, Option.bind_eq_some_iff, Amount.ofNat?_eq_some_iff,
    Amount.mul?_eq_some_iff, Amount.add?_eq_some_iff, hone]
  constructor
  · rintro ⟨part', hpart', whole, hwhole, high, hhigh, hsum⟩
    obtain rfl := Option.some.inj (hpart.symm.trans hpart')
    rw [← hsum, ← hhigh, hwhole]
  · intro hunits
    have hlt := Nat.lt_of_le_of_lt (Nat.le_of_add_right_le (Nat.le_of_eq hunits)) a.toNat_lt
    obtain ⟨high, hhigh⟩ := Amount.exists_toNat_eq hlt
    obtain ⟨whole, hwhole⟩ := Amount.exists_toNat_eq
      (Nat.lt_of_le_of_lt (Nat.le_mul_of_pos_right _ scale_pos) hlt)
    exact ⟨part, hpart, whole, hwhole.symm, high, by rw [hwhole, hhigh], by rw [hhigh, hunits]⟩

/-- Numerals of one number agree behind the point, and in front of it up to zeros. -/
private theorem WellFormed.leftpad_eq (hn : n.WellFormed) (hm : m.WellFormed)
    (h : n.units = m.units) :
    n.whole.leftpad m.whole.length '0' = m.whole.leftpad n.whole.length '0' ∧
      n.filled = m.filled := by
  have hdigits := List.forall_mem_append.mpr ⟨hn.whole, hn.isDigit_filled⟩
  have hdigits' := List.forall_mem_append.mpr ⟨hm.whole, hm.isDigit_filled⟩
  have heq := Nat.leftpad_eq_leftpad hdigits hdigits' h
  rw [List.leftpad, List.leftpad, List.length_append, List.length_append, hn.length_filled,
    hm.length_filled, Nat.add_sub_add_right, Nat.add_sub_add_right, ← List.append_assoc,
    ← List.append_assoc] at heq
  exact List.append_inj' heq (hn.length_filled.trans hm.length_filled.symm)

/-- The shortest numeral of a number is what is left of any other without its zeros. -/
private theorem WellFormed.trims (hn : n.WellFormed) (hm : m.WellFormed) (hshort : m.IsShort)
    (h : n.units = m.units) : n.Trims m := by
  obtain ⟨hwhole, hfilled⟩ := hn.leftpad_eq hm h
  constructor
  · refine ⟨n.whole.length - m.whole.length, ?_⟩
    rw [List.leftpad, List.leftpad] at hwhole
    -- If the short one had more digits, its first would be a zero and not its only one.
    have hle : m.whole.length ≤ n.whole.length := by
      by_contra hlt
      have hpos := List.length_pos_iff.mpr hn.whole_ne_nil
      have hzero : n.whole.length - m.whole.length = 0 := by omega
      rw [hzero, List.replicate_zero, List.nil_append] at hwhole
      have hhead : m.whole.head? = some '0' := by
        rw [← hwhole, List.head?_append, List.head?_replicate, if_neg (by omega)]
        rfl
      have hlength := congrArg List.length (hshort.whole hhead)
      rw [List.length_singleton] at hlength
      omega
    have hzero : m.whole.length - n.whole.length = 0 := by omega
    rw [hzero, List.replicate_zero, List.nil_append] at hwhole
    exact hwhole
  · refine ⟨n.fraction.length - m.fraction.length, ?_⟩
    -- If the short one had more digits, its last would be a zero.
    refine List.eq_append_replicate hfilled ?_
    by_contra hlt
    apply hshort.fraction
    rw [List.eq_append_replicate hfilled.symm (by omega), List.getLast?_append,
      List.getLast?_replicate, if_neg (by omega)]
    rfl

end Numeral

/-! ### Reading -/

variable {d : Decimal} {n m : Numeral} {text : String}

/-- A number of units is a decimal if and only if it is what the decimal counts. -/
private theorem ofAtomics?_eq_some_iff {k : Nat} : ofAtomics? k = some d ↔ k = d.atomics.toNat := by
  rw [ofAtomics?, Option.map_eq_some_iff]
  constructor
  · rintro ⟨a, ha, rfl⟩
    exact Amount.ofNat?_eq_some_iff.mp ha
  · intro h
    exact ⟨d.atomics, Amount.ofNat?_eq_some_iff.mpr h, rfl⟩

/-- The digits of a numeral are found in its text. -/
theorem ofText_of_spells (h : n.Spells text) :
    ofText text = (Amount.ofNat? (Nat.ofDigitChars 10 n.whole 0)).elim (.error (.notADecimal text))
      fun _ => (ofAtomics? n.units).elim (.error .overflow) .ok := by
  -- The text is cut at its first point, and there is none among the digits in front.
  have hpoint : ∀ c ∈ n.whole, (c != '.') = true := by
    intro c hc
    rw [bne_iff_ne]
    rintro rfl
    exact absurd (h.whole _ hc) (by decide)
  -- Behind them comes the point, or nothing at all.
  have hstop : ∀ c ∈ n.pointChars.head?, (c != '.') = false := by
    intro c hc
    rw [Numeral.pointChars] at hc
    split at hc
    · exact nomatch hc
    · rw [← Option.some.inj hc]
      rfl
  have hdrop : n.pointChars.drop 1 = n.fraction := by
    rw [Numeral.pointChars]
    split
    · next hnil => rw [hnil, List.drop_nil]
    · rfl
  have hwhole : n.whole.all Char.isDigit := List.all_eq_true.mpr h.whole
  have hfraction : n.fraction.all Char.isDigit := List.all_eq_true.mpr h.fraction
  -- Where there is a point, there is a digit behind it.
  have hboth : (!n.pointChars.isEmpty && n.fraction.isEmpty) = false := by
    rw [Numeral.pointChars]
    split
    · rfl
    · next hne => simp [hne]
  rw [ofText, h.toList, Numeral.toChars, List.takeWhile_append_of_stop hpoint hstop,
    List.dropWhile_append_of_stop hpoint hstop, hdrop, hboth]
  dsimp only
  rw [if_neg (by simp [h.whole_ne_nil, hwhole, hfraction, Nat.not_lt.mpr h.length_fraction]),
    h.units_eq]
  cases Amount.ofNat? (Nat.ofDigitChars 10 n.whole 0) with
  | none => rfl
  | some _ => cases ofAtomics? _ <;> rfl

/-- A text that no numeral spells is refused before any number is computed. -/
private theorem spells_or_refused (text : String) :
    (∃ n : Numeral, n.Spells text) ∨ ofText text = .error (.notADecimal text) := by
  rw [ofText]
  dsimp only
  split
  · exact .inr rfl
  · next hguard =>
    simp only [Bool.or_eq_true, not_or, Bool.not_eq_true, List.isEmpty_eq_false_iff,
      Bool.not_eq_false', decide_eq_true_eq, Bool.and_eq_false_iff, Nat.not_lt] at hguard
    obtain ⟨⟨⟨⟨hne, hwhole⟩, hlength⟩, hfraction⟩, hboth⟩ := hguard
    -- What passed the checks is the numeral that the text is cut into.
    let n : Numeral :=
      ⟨text.toList.takeWhile (· != '.'), (text.toList.dropWhile (· != '.')).drop 1⟩
    have hpoint : n.pointChars = text.toList.dropWhile (· != '.') := by
      have hfirst := List.head?_dropWhile_not (· != '.') text.toList
      rw [Numeral.pointChars]
      cases hrest : text.toList.dropWhile (· != '.') with
      | nil => simp [n, hrest]
      | cons c cs =>
        rw [hrest] at hfirst hboth
        -- It starts with the point, and a digit is behind it.
        obtain rfl : c = '.' := by simpa using hfirst
        have hdigits : cs ≠ [] := by simpa using hboth
        simp [n, hrest, hdigits]
    refine .inl ⟨n, ⟨hne, List.all_eq_true.mp hwhole, List.all_eq_true.mp hfraction, hlength⟩, ?_⟩
    rw [Numeral.toChars, hpoint, List.takeWhile_append_dropWhile]

/-- A text that is read stands for the units that its digits count. -/
private theorem units_of_ofText (hn : n.Spells text) (h : ofText text = .ok d) :
    n.units = d.atomics.toNat := by
  rw [ofText_of_spells hn] at h
  cases hwhole : Amount.ofNat? (Nat.ofDigitChars 10 n.whole 0) with
  | none =>
    rw [hwhole] at h
    exact nomatch h
  | some whole =>
    cases hunits : ofAtomics? n.units with
    | none =>
      rw [hwhole, hunits] at h
      exact nomatch h
    | some d' =>
      rw [hwhole, hunits] at h
      rw [← Except.ok.inj h]
      exact ofAtomics?_eq_some_iff.mp hunits

/-- The texts that are read, and as what. -/
theorem ofText_eq_ok_iff :
    ofText text = .ok d ↔ ∃ n : Numeral, n.Spells text ∧ n.units = d.atomics.toNat := by
  constructor
  · intro h
    obtain ⟨n, hn⟩ | hrefused := spells_or_refused text
    · exact ⟨n, hn, units_of_ofText hn h⟩
    · rw [hrefused] at h
      exact nomatch h
  · rintro ⟨n, hn, hunits⟩
    -- The whole part is in range, because the units are.
    obtain ⟨whole, hwhole⟩ := Amount.exists_toNat_eq
      (Nat.lt_of_le_of_lt hn.whole_le_units (hunits ▸ d.atomics.toNat_lt))
    rw [ofText_of_spells hn, ← hwhole, Amount.ofNat?_toNat, Option.elim_some,
      ofAtomics?_eq_some_iff.mpr hunits, Option.elim_some]

/-! ### Writing -/

/-- What is trimmed off digits are zeros. -/
private theorem exists_eq_trimZeros_append (digits : List Char) :
    ∃ n, digits = trimZeros digits ++ List.replicate n '0' := by
  have hzeros : digits.reverse.takeWhile (· == '0') =
      List.replicate (digits.reverse.takeWhile (· == '0')).length '0' := by
    refine List.eq_replicate_of_mem fun c hc => ?_
    have hzero := List.all_eq_true.mp List.all_takeWhile c hc
    exact beq_iff_eq.mp hzero
  have hsplit := List.takeWhile_append_dropWhile (p := (· == '0')) (l := digits.reverse)
  refine ⟨(digits.reverse.takeWhile (· == '0')).length, ?_⟩
  rw [← List.reverse_replicate, ← hzeros, trimZeros, ← List.reverse_append, hsplit,
    List.reverse_reverse]

/-- No zero is left at the end. -/
private theorem getLast?_trimZeros_ne (digits : List Char) :
    (trimZeros digits).getLast? ≠ some '0' := by
  intro h
  have hfirst := List.head?_dropWhile_not (· == '0') digits.reverse
  rw [trimZeros, List.getLast?_reverse] at h
  rw [h] at hfirst
  exact absurd hfirst (by decide)

/-- The digits that a decimal is written in. -/
def toNumeral (d : Decimal) : Numeral where
  whole := Nat.toDigits 10 (d.atomics.toNat / scale)
  fraction := trimZeros ((Nat.toDigits 10 (d.atomics.toNat % scale)).leftpad places '0')

/-- The rest behind the whole part has at most 18 digits. -/
private theorem length_toDigits_rest_le (d : Decimal) :
    (Nat.toDigits 10 (d.atomics.toNat % scale)).length ≤ places :=
  (Nat.length_toDigits_le_iff (by decide) (by decide)).mpr (Nat.mod_lt _ scale_pos)

/-- Filled up again, the places hold the rest of the number. -/
private theorem filled_toNumeral (d : Decimal) : d.toNumeral.filled =
    (Nat.toDigits 10 (d.atomics.toNat % scale)).leftpad places '0' := by
  obtain ⟨k, hk⟩ := exists_eq_trimZeros_append
    ((Nat.toDigits 10 (d.atomics.toNat % scale)).leftpad places '0')
  have hshort := d.length_toDigits_rest_le
  have hlength := congrArg List.length hk
  rw [List.length_leftpad, List.length_append, List.length_replicate] at hlength
  rw [Numeral.filled, toNumeral, show places - (trimZeros _).length = k by omega]
  exact hk.symm

/-- A decimal is written as a numeral. -/
theorem wellFormed_toNumeral (d : Decimal) : d.toNumeral.WellFormed where
  whole_ne_nil := Nat.toDigits_ne_nil
  whole := fun c hc => Nat.isDigit_of_mem_toDigits_ten hc
  fraction := by
    intro c hc
    have hmem : c ∈ d.toNumeral.filled := List.mem_append_left _ hc
    rw [filled_toNumeral, List.leftpad] at hmem
    obtain hmem | hmem := List.mem_append.mp hmem
    · exact Nat.isDigit_of_mem_zeros hmem
    · exact Nat.isDigit_of_mem_toDigits_ten hmem
  length_fraction := by
    have hshort := d.length_toDigits_rest_le
    have hlength := congrArg List.length (filled_toNumeral d)
    rw [Numeral.filled, List.length_append, List.length_leftpad] at hlength
    omega

/-- The places that are filled up again count what is not whole. -/
private theorem ofDigitChars_filled_toNumeral (d : Decimal) :
    Nat.ofDigitChars 10 d.toNumeral.filled 0 = d.atomics.toNat % scale := by
  rw [filled_toNumeral, Nat.ofDigitChars_leftpad, Nat.ofDigitChars_ten_toDigits]

/-- The digits that a decimal is written in stand for it. -/
theorem units_toNumeral (d : Decimal) : d.toNumeral.units = d.atomics.toNat := by
  have hlength := d.wellFormed_toNumeral.length_filled
  have hwhole : Nat.ofDigitChars 10 d.toNumeral.whole 0 = d.atomics.toNat / scale :=
    Nat.ofDigitChars_ten_toDigits
  rw [Numeral.units, Nat.ofDigitChars_append, Nat.ofDigitChars_eq_ofDigitChars_zero, hlength,
    ofDigitChars_filled_toNumeral, hwhole]
  exact Nat.div_add_mod d.atomics.toNat scale

/-- A decimal is written without zeros that could be left out. -/
theorem isShort_toNumeral (d : Decimal) : d.toNumeral.IsShort where
  whole := by
    intro hhead
    obtain hzero | hpos := Nat.eq_zero_or_pos (d.atomics.toNat / scale)
    · rw [toNumeral, hzero, Nat.toDigits_zero]
    · exact absurd hhead (Nat.head?_toDigits_ne hpos)
  fraction := getLast?_trimZeros_ne _

/-- A point is written for a number that is not whole. -/
private theorem fraction_toNumeral_eq_nil_iff :
    d.toNumeral.fraction = [] ↔ d.atomics.toNat % scale = 0 := by
  constructor
  · intro hnil
    rw [← ofDigitChars_filled_toNumeral, Numeral.filled, hnil, List.nil_append,
      Nat.ofDigitChars_replicate_zero, Nat.mul_zero]
  · intro hzero
    rw [toNumeral, hzero]
    rfl

/-- The text of a decimal is made of the digits that it is written in. -/
theorem spells_toText (d : Decimal) : d.toNumeral.Spells d.toText where
  toWellFormed := d.wellFormed_toNumeral
  toList := by
    rw [toText, String.toList_ofList, toChars, Numeral.toChars, Numeral.pointChars]
    by_cases hrest : d.atomics.toNat % scale = 0
    · rw [if_pos hrest, if_pos (fraction_toNumeral_eq_nil_iff.mpr hrest), List.append_nil]
      rfl
    · rw [if_neg hrest, if_neg (mt fraction_toNumeral_eq_nil_iff.mp hrest)]
      rfl

/-- Every decimal is read back from its text. -/
theorem ofText_toText (d : Decimal) : ofText d.toText = .ok d :=
  ofText_eq_ok_iff.mpr ⟨d.toNumeral, d.spells_toText, d.units_toNumeral⟩

/-- What is written after a text was read has the digits of the text, without zeros that are not
needed. -/
private theorem trims_of_ofText (hn : n.Spells text) (h : ofText text = .ok d) :
    n.Trims d.toNumeral :=
  hn.toWellFormed.trims d.wellFormed_toNumeral d.isShort_toNumeral
    ((units_of_ofText hn h).trans d.units_toNumeral.symm)

/-- A text is read if and only if a numeral in range spells it, and as exactly that number: the
steps that are not checked cannot leave the range. What is written is read back, and a text that was
read is written again without the zeros that are not needed. -/
theorem decimal_text_exact (text : String) :
    ((∃ d, ofText text = .ok d) ↔
      ∃ n : Numeral, n.Spells text ∧ n.units ≤ Amount.largest.toNat) ∧
    (∀ n : Numeral, n.Spells text →
      n.units * Nat.pow 10 n.fraction.length =
        Nat.ofDigitChars 10 (n.whole ++ n.fraction) 0 * scale ∧
      n.part?.isSome ∧
      ∀ d, (ofText text = .ok d ↔ n.units? = some d.atomics) ∧
        (ofText text = .ok d → d.atomics.toNat = n.units ∧
          ∃ m : Numeral, m.Spells d.toText ∧ m.IsShort ∧ n.Trims m)) ∧
    ((¬∃ n : Numeral, n.Spells text) → ofText text = .error (.notADecimal text)) ∧
    ∀ d : Decimal, ofText d.toText = .ok d := by
  refine ⟨⟨?read, ?inRange⟩, ?_, ?refused, ofText_toText⟩
  case read =>
    rintro ⟨d, h⟩
    obtain ⟨n, hn, hunits⟩ := ofText_eq_ok_iff.mp h
    exact ⟨n, hn, hunits ▸ Nat.le_of_lt_succ d.atomics.toNat_lt⟩
  case inRange =>
    rintro ⟨n, hn, hle⟩
    obtain ⟨a, ha⟩ := Amount.exists_toNat_eq (Nat.lt_succ_of_le hle)
    exact ⟨⟨a⟩, ofText_eq_ok_iff.mpr ⟨n, hn, ha.symm⟩⟩
  case refused =>
    exact fun hnone => (spells_or_refused text).resolve_left hnone
  -- Whatever numeral spells the text is the one that it is read as.
  intro n hn
  obtain ⟨part, hpart, -⟩ := hn.part?_eq_some
  refine ⟨hn.units_mul_pow, hpart ▸ rfl, fun d => ⟨?_, fun h => ?_⟩⟩
  · rw [hn.units?_eq_some_iff]
    exact ⟨units_of_ofText hn, fun hunits => ofText_eq_ok_iff.mpr ⟨n, hn, hunits⟩⟩
  · -- The text that it is written as is the short numeral with the same value.
    exact ⟨(units_of_ofText hn h).symm, d.toNumeral, d.spells_toText, d.isShort_toNumeral,
      trims_of_ofText hn h⟩

/-- Zeros in front and behind are read and not written; no text without a digit is read. -/
theorem decimal_text_exact_padded :
    ofText "007.500" = .ok ⟨⟨7500000000000000000, by decide⟩⟩ ∧
    (∃ m : Numeral, m.Spells "7.5" ∧ m.IsShort ∧
      Numeral.Trims ⟨['0', '0', '7'], ['5', '0', '0']⟩ m) ∧
    (¬∃ n : Numeral, n.Spells "") ∧ ofText "" = .error (.notADecimal "") := by
  have hspells : Numeral.Spells ⟨['0', '0', '7'], ['5', '0', '0']⟩ "007.500" :=
    ⟨⟨by decide, List.all_eq_true.mp (by decide), List.all_eq_true.mp (by decide), by decide⟩,
      by decide⟩
  have hread : ofText "007.500" = .ok ⟨⟨7500000000000000000, by decide⟩⟩ := by decide
  have hnone : ¬∃ n : Numeral, n.Spells "" := by
    rintro ⟨n, hn⟩
    exact hn.whole_ne_nil (List.append_eq_nil_iff.mp hn.toList.symm).1
  obtain ⟨-, hexact, -, -⟩ := decimal_text_exact "007.500"
  obtain ⟨-, m, hm, hshort, htrims⟩ := ((hexact _ hspells).2.2 _).2 hread
  exact ⟨hread, ⟨m, hm, hshort, htrims⟩, hnone, (decimal_text_exact "").2.2.1 hnone⟩

end Decimal

end LaneAuction
