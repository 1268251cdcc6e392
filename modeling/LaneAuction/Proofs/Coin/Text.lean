import LaneAuction.Coin
import LaneAuction.Proofs.Digits

/-!
# The texts of coins

The text of a coin is split where its digits end, because no denomination starts with a digit. So a
text is read if and only if it is made of digits and a well-formed denomination (`Coin.Spells`) and
the digits count an amount, and every coin of a well-formed denomination is read back.
-/

namespace LaneAuction

/-- If every character takes one byte, a text has as many bytes as characters. -/
private theorem utf8ByteSize_eq_length {t : String} (h : ∀ c ∈ t.toList, c.utf8Size = 1) :
    t.utf8ByteSize = t.toList.length := by
  have hsize : ∀ cs : List Char, (∀ c ∈ cs, c.utf8Size = 1) →
      (cs.flatMap String.utf8EncodeChar).length = cs.length := by
    intro cs
    induction cs with
    | nil => exact fun _ => rfl
    | cons c cs ih =>
      intro hcs
      obtain ⟨hc, hcs⟩ := List.forall_mem_cons.mp hcs
      rw [List.flatMap_cons, List.length_append, String.length_utf8EncodeChar, ih hcs, hc,
        List.length_cons, Nat.add_comm]
  rw [← String.size_toByteArray, ← String.utf8Encode_toList]
  simp [List.utf8Encode, hsize _ h]

namespace Denom

variable {denom : Denom} {c : Char}

/-- A denomination starts with a letter, has letters, digits and a few signs behind it, and takes 3
to 128 bytes. -/
structure WellFormed (denom : Denom) : Prop where
  head : ∃ c ∈ denom.toList.head?, c.isAlpha
  chars : ∀ c ∈ denom.toList, c.isAlphanum ∨ c ∈ ['/', ':', '.', '_', '-']
  size : 3 ≤ denom.utf8ByteSize ∧ denom.utf8ByteSize ≤ 128

/-- The characters of a denomination are ASCII letters, digits and five signs. -/
private theorem isDenomChar_iff : isDenomChar c ↔ c.isAlphanum ∨ c ∈ ['/', ':', '.', '_', '-'] := by
  simp [isDenomChar, or_assoc]

/-- Letters are in the range from upper A to lower z. -/
private theorem le_of_isAlpha (h : c.isAlpha) : 'A'.val ≤ c.val ∧ c.val ≤ 'z'.val := by
  obtain hupper | hlower := Bool.or_eq_true_iff.mp h
  · obtain ⟨hlow, hhigh⟩ := of_decide_eq_true hupper
    exact ⟨hlow, UInt32.le_trans hhigh (by decide)⟩
  · obtain ⟨hlow, hhigh⟩ := Bool.and_eq_true_iff.mp hlower
    exact ⟨UInt32.le_trans (by decide) (of_decide_eq_true hlow), of_decide_eq_true hhigh⟩

/-- Letters are characters of a denomination. -/
private theorem isDenomChar_of_isAlpha (h : c.isAlpha) : isDenomChar c := by
  rw [isDenomChar_iff, Char.isAlphanum, h]
  exact .inl rfl

/-- All characters of a denomination take one byte. -/
private theorem utf8Size_of_isDenomChar (h : isDenomChar c) : c.utf8Size = 1 := by
  rw [Char.utf8Size_eq_one_iff]
  obtain hletter | hsign := isDenomChar_iff.mp h
  · obtain halpha | hdigit := Bool.or_eq_true_iff.mp hletter
    · exact UInt32.le_trans (le_of_isAlpha halpha).2 (by decide)
    · have hle := of_decide_eq_true (Bool.and_eq_true_iff.mp hdigit).2
      exact UInt32.le_trans hle (by decide)
  · have hall : ['/', ':', '.', '_', '-'].all fun c => c.val ≤ 127 := by decide
    exact of_decide_eq_true (List.all_eq_true.mp hall c hsign)

/-- A denomination is well formed if and only if it passes the check. -/
theorem wellFormed_iff : denom.WellFormed ↔ isValid denom := by
  rw [isValid]
  constructor
  · intro ⟨⟨c, hhead, halpha⟩, hchars, hsize⟩
    -- All characters of a denomination are ASCII, so its bytes are as many.
    rw [utf8ByteSize_eq_length fun c hc =>
      utf8Size_of_isDenomChar (isDenomChar_iff.mpr (hchars c hc))] at hsize
    obtain ⟨cs, hcs⟩ := List.head?_eq_some_iff.mp hhead
    rw [hcs] at hchars hsize ⊢
    rw [List.length_cons] at hsize
    have hall : cs.all isDenomChar := List.all_eq_true.mpr fun c hc =>
      isDenomChar_iff.mpr (hchars c (List.mem_cons_of_mem _ hc))
    simp only [isValidList, halpha, hall, Bool.true_and, Bool.and_eq_true, decide_eq_true_eq]
    omega
  · -- A valid list starts with a letter, and all its characters are of one byte.
    intro h
    cases hcs : denom.toList with
    | nil => simp [hcs, isValidList] at h
    | cons c cs =>
      simp only [hcs, isValidList, Bool.and_eq_true, decide_eq_true_eq] at h
      obtain ⟨⟨⟨halpha, hall⟩, hlow⟩, hhigh⟩ := h
      have hchars : ∀ c ∈ denom.toList, isDenomChar c := by
        rw [hcs]
        exact List.forall_mem_cons.mpr ⟨isDenomChar_of_isAlpha halpha, List.all_eq_true.mp hall⟩
      refine ⟨⟨c, by rw [hcs]; rfl, halpha⟩, fun c hc => isDenomChar_iff.mp (hchars c hc), ?_⟩
      rw [utf8ByteSize_eq_length fun c hc => utf8Size_of_isDenomChar (hchars c hc), hcs,
        List.length_cons]
      omega

/-- A well-formed denomination does not start with a digit. -/
private theorem WellFormed.isDigit_head? (h : denom.WellFormed) :
    ∀ c ∈ denom.toList.head?, c.isDigit = false := by
  intro c hc
  obtain ⟨c', hc', halpha⟩ := h.head
  obtain rfl := Option.mem_unique hc hc'
  -- Letters start behind the digits.
  have hnot : ¬ c.val ≤ '9'.val := fun hle =>
    absurd (UInt32.le_trans (le_of_isAlpha halpha).1 hle) (by decide)
  exact Bool.and_eq_false_iff.mpr (.inr (decide_eq_false hnot))

end Denom

namespace Coin

variable {c : Coin} {digits : List Char} {denom : Denom} {text : String}

/-- A text is made of digits and a denomination. -/
structure Spells (digits : List Char) (denom : Denom) (text : String) : Prop where
  ne_nil : digits ≠ []
  isDigit : ∀ c ∈ digits, c.isDigit
  wellFormed : denom.WellFormed
  toList : text.toList = digits ++ denom.toList

/-- The digits and the denomination are found in their text. -/
theorem ofText_of_spells (h : Spells digits denom text) :
    ofText text = (Amount.ofNat? (Nat.ofDigitChars 10 digits 0)).elim (.error .overflow)
      fun amount => .ok ⟨amount, denom⟩ := by
  have hvalid : Denom.isValid denom = true := Denom.wellFormed_iff.mp h.wellFormed
  have hstop := h.wellFormed.isDigit_head?
  rw [ofText, h.toList, List.takeWhile_append_of_stop h.isDigit hstop,
    List.dropWhile_append_of_stop h.isDigit hstop, String.ofList_toList,
    if_neg (by simp [h.ne_nil, hvalid])]
  cases Amount.ofNat? (Nat.ofDigitChars 10 digits 0) <;> rfl

/-- What a text spells is read if and only if it is the amount of its digits. -/
theorem ofText_eq_ok_iff (h : Spells digits denom text) : ofText text = .ok c ↔
    c.amount.toNat = Nat.ofDigitChars 10 digits 0 ∧ c.denom = denom := by
  rw [ofText_of_spells h]
  constructor
  · intro hread
    cases hamount : Amount.ofNat? (Nat.ofDigitChars 10 digits 0) with
    | none =>
      rw [hamount] at hread
      exact nomatch hread
    | some amount =>
      rw [hamount] at hread
      obtain rfl := Except.ok.inj hread
      exact ⟨(Amount.ofNat?_eq_some_iff.mp hamount).symm, rfl⟩
  · rintro ⟨hamount, rfl⟩
    rw [← hamount, Amount.ofNat?_toNat, Option.elim_some]

/-- What a text spells overflows if and only if its digits are above the largest amount. -/
theorem ofText_eq_overflow_iff (h : Spells digits denom text) : ofText text = .error .overflow ↔
    Amount.largest.toNat < Nat.ofDigitChars 10 digits 0 := by
  rw [ofText_of_spells h]
  constructor
  · intro hoverflow
    apply Amount.ofNat?_eq_none_iff.mp
    cases hamount : Amount.ofNat? (Nat.ofDigitChars 10 digits 0) with
    | none => rfl
    | some amount =>
      rw [hamount] at hoverflow
      exact nomatch hoverflow
  · intro hlt
    rw [Amount.ofNat?_eq_none_iff.mpr hlt, Option.elim_none]

/-- A text that is not made so is refused before its digits are counted. -/
private theorem spells_or_refused (text : String) :
    (∃ digits denom, Spells digits denom text) ∨ ofText text = .error (.notACoin text) := by
  rw [ofText]
  split
  · exact .inr rfl
  · next hguard =>
    simp only [Bool.or_eq_true, not_or, Bool.not_eq_true, List.isEmpty_eq_false_iff,
      Bool.not_eq_false'] at hguard
    refine .inl ⟨_, _, hguard.1, ?_, Denom.wellFormed_iff.mpr hguard.2, ?_⟩
    · exact fun c hc => List.all_eq_true.mp List.all_takeWhile c hc
    · rw [String.toList_ofList, List.takeWhile_append_dropWhile]

/-- The text of a coin spells the digits of its amount and its denomination. -/
theorem spells_toText (h : c.denom.WellFormed) :
    Spells (Nat.toDigits 10 c.amount.toNat) c.denom c.toText where
  ne_nil := Nat.toDigits_ne_nil
  isDigit := fun _ hd => Nat.isDigit_of_mem_toDigits_ten hd
  wellFormed := h
  toList := by simp [toText]

/-- Every coin of a well-formed denomination is read back from its text. -/
theorem ofText_toText (h : c.isValid) : ofText c.toText = .ok c := by
  have hspells := spells_toText (Denom.wellFormed_iff.mpr h)
  exact (ofText_eq_ok_iff hspells).mpr ⟨Nat.ofDigitChars_ten_toDigits.symm, rfl⟩

/-- A text is read if and only if it is made of digits that count an amount and a well-formed
denomination, and as just these. Digits that count more are an overflow, and everything else is no
coin. What is written is read back. -/
theorem coin_text_exact (text : String) :
    ((∃ c, ofText text = .ok c) ↔ ∃ digits denom, Spells digits denom text ∧
      Nat.ofDigitChars 10 digits 0 ≤ Amount.largest.toNat) ∧
    (∀ digits denom, Spells digits denom text →
      (∀ c, ofText text = .ok c ↔
        c.amount.toNat = Nat.ofDigitChars 10 digits 0 ∧ c.denom = denom) ∧
      (ofText text = .error .overflow ↔
        Amount.largest.toNat < Nat.ofDigitChars 10 digits 0)) ∧
    ((¬∃ digits denom, Spells digits denom text) → ofText text = .error (.notACoin text)) ∧
    ∀ c : Coin, c.denom.WellFormed → ofText c.toText = .ok c := by
  refine ⟨⟨?read, ?inRange⟩,
    fun digits denom h => ⟨fun c => ofText_eq_ok_iff h, ofText_eq_overflow_iff h⟩,
    fun hnone => (spells_or_refused text).resolve_left hnone,
    fun c h => ofText_toText (Denom.wellFormed_iff.mp h)⟩
  case read =>
    rintro ⟨c, hc⟩
    -- A text that was read is spelled by some digits and denomination, as all others are refused.
    obtain ⟨digits, denom, h⟩ | hrefused := spells_or_refused text
    · obtain ⟨hamount, -⟩ := (ofText_eq_ok_iff h).mp hc
      exact ⟨digits, denom, h, hamount ▸ Nat.le_of_lt_succ c.amount.toNat_lt⟩
    · rw [hrefused] at hc
      exact nomatch hc
  case inRange =>
    -- A value in range is some amount, and that is what is read.
    rintro ⟨digits, denom, h, hle⟩
    obtain ⟨amount, hamount⟩ := Amount.exists_toNat_eq (Nat.lt_succ_of_le hle)
    exact ⟨⟨amount, denom⟩, (ofText_eq_ok_iff h).mpr ⟨hamount, rfl⟩⟩

/-- A largest amount with leading zeros is read and written back; one unit more overflows, and a
text without digits is no coin. -/
theorem coin_text_exact_overflow :
    ofText "00340282366920938463463374607431768211455mev/1" = .ok ⟨.largest, "mev/1"⟩ ∧
    ofText "340282366920938463463374607431768211456mev/1" = .error .overflow ∧
    ofText "stake" = .error (.notACoin "stake") ∧
    ofText (toText ⟨.largest, "mev/1"⟩) = .ok ⟨.largest, "mev/1"⟩ := by
  have hdenom : Denom.WellFormed "mev/1" := Denom.wellFormed_iff.mpr (by decide)
  -- Leading zeros do not count, so this one is as long as it likes.
  have hfits : Spells "00340282366920938463463374607431768211455".toList "mev/1"
      "00340282366920938463463374607431768211455mev/1" :=
    ⟨by decide, List.all_eq_true.mp (by decide), hdenom, by decide⟩
  have hlarger : Spells "340282366920938463463374607431768211456".toList "mev/1"
      "340282366920938463463374607431768211456mev/1" :=
    ⟨by decide, List.all_eq_true.mp (by decide), hdenom, by decide⟩
  -- A spelling would start with a digit.
  have hnone : ¬∃ digits denom, Spells digits denom "stake" := by
    rintro ⟨digits, denom, h⟩
    obtain ⟨d, ds, rfl⟩ := List.exists_cons_of_ne_nil h.ne_nil
    obtain rfl : 's' = d := (List.cons.inj h.toList).1
    exact absurd (h.isDigit 's' List.mem_cons_self) (by decide)
  obtain ⟨-, hspelled, -, hprinted⟩ :=
    coin_text_exact "00340282366920938463463374607431768211455mev/1"
  obtain ⟨-, hlarge, -, -⟩ := coin_text_exact "340282366920938463463374607431768211456mev/1"
  obtain ⟨-, -, hrefused, -⟩ := coin_text_exact "stake"
  exact ⟨((hspelled _ _ hfits).1 _).mpr ⟨by decide, rfl⟩, (hlarge _ _ hlarger).2.mpr (by decide),
    hrefused hnone, hprinted _ hdenom⟩

end Coin

end LaneAuction
