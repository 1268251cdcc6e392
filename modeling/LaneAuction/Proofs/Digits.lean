import Mathlib.Data.List.TakeWhile

/-!
# Runs of digits

What readers of texts rely on: a run of digits is taken up to the first character that is none, a
number is written in digits without leading zeros, and zeros in front of a number change nothing,
while zeros behind it scale it. Apart from such zeros a number has one form in digits
(`Nat.ofDigitChars_inj`).
-/

namespace List

variable {α : Type} {p : α → Bool} {xs ys : List α}

/-- A run that is stopped by what follows it is taken completely. -/
theorem takeWhile_append_of_stop (hxs : ∀ x ∈ xs, p x) (hys : ∀ y ∈ ys.head?, p y = false) :
    (xs ++ ys).takeWhile p = xs := by
  have hstop : ys.takeWhile p = [] := by
    cases ys with
    | nil => rfl
    | cons y ys => simp [hys y rfl]
  rw [takeWhile_append_of_pos hxs, hstop, append_nil]

/-- Elements that all pass a test are dropped, up to the first one that does not. -/
theorem dropWhile_append_of_stop (hxs : ∀ x ∈ xs, p x) (hys : ∀ y ∈ ys.head?, p y = false) :
    (xs ++ ys).dropWhile p = ys := by
  have hstop : ys.dropWhile p = ys := by
    cases ys with
    | nil => rfl
    | cons y ys => simp [hys y rfl]
  rw [dropWhile_append_of_pos hxs, hstop]

/-- Of two lists that agree up to what fills them up, the longer one ends in the filling. -/
theorem eq_append_replicate {a : α} {i j : Nat} (h : xs ++ replicate i a = ys ++ replicate j a)
    (hle : ys.length ≤ xs.length) : xs = ys ++ replicate (xs.length - ys.length) a := by
  have hlength := congrArg length h
  simp only [length_append, length_replicate] at hlength
  have hfront : xs = (ys ++ replicate j a).take xs.length := by rw [← h, take_left]
  rw [take_append, take_of_length_le hle, take_replicate,
    Nat.min_eq_left (by omega)] at hfront
  exact hfront

end List

namespace Nat

/-- A number in base ten is written in digits. -/
theorem isDigit_of_mem_toDigits_ten {n : Nat} {c : Char} (h : c ∈ toDigits 10 n) : c.isDigit :=
  isDigit_of_mem_toDigits (by decide) (by decide) h

/-- A positive number is written without leading zeros. -/
theorem head?_toDigits_ne {n : Nat} (hn : 0 < n) : (toDigits 10 n).head? ≠ some '0' := by
  induction n using Nat.strongRecOn with
  | ind n ih =>
    by_cases hlt : n < 10
    · rw [toDigits_of_lt_base hlt]
      have hall : ∀ n < 10, 0 < n → [digitChar n].head? ≠ some '0' := by decide
      exact hall n hlt hn
    · -- The first digit is that of the number without its last digit.
      have hhigh := ih (n / 10) (by omega) (by omega)
      rw [toDigits_of_base_le (by decide) (Nat.not_lt.mp hlt)]
      cases h : toDigits 10 (n / 10) with
      | nil => exact absurd h toDigits_ne_nil
      | cons c cs =>
        rw [h] at hhigh
        exact hhigh

/-- Zeros in front of digits change nothing. -/
theorem ofDigitChars_leftpad (n : Nat) (digits : List Char) :
    ofDigitChars 10 (digits.leftpad n '0') 0 = ofDigitChars 10 digits 0 := by
  rw [List.leftpad, ofDigitChars_append, ofDigitChars_replicate_zero, Nat.mul_zero]

/-- Zeros behind digits scale the number. -/
theorem ofDigitChars_append_replicate_zero (digits : List Char) (n : Nat) :
    ofDigitChars 10 (digits ++ List.replicate n '0') 0 =
      ofDigitChars 10 digits 0 * Nat.pow 10 n := by
  rw [ofDigitChars_append, ofDigitChars_replicate_zero, Nat.mul_comm, Nat.pow_eq]

/-- A digit stands for a number below ten. -/
private theorem toNat_sub_toNat_zero_lt {c : Char} (h : c.isDigit) : c.toNat - '0'.toNat < 10 := by
  obtain ⟨hlow, hhigh⟩ := Char.isDigit_iff_toNat.mp h
  have hzero : '0'.toNat = 48 := by decide
  have hnine : '9'.toNat = 57 := by decide
  omega

/-- A number of so many digits is below that power of ten. -/
theorem ofDigitChars_lt {digits : List Char} (h : ∀ c ∈ digits, c.isDigit) :
    ofDigitChars 10 digits 0 < Nat.pow 10 digits.length := by
  induction digits with
  | nil => decide
  | cons c digits ih =>
    obtain ⟨hc, hdigits⟩ := List.forall_mem_cons.mp h
    have hfirst := toNat_sub_toNat_zero_lt hc
    have hrest := ih hdigits
    rw [ofDigitChars_cons, ofDigitChars_eq_ofDigitChars_zero, Nat.mul_zero, Nat.zero_add]
    calc Nat.pow 10 digits.length * (c.toNat - '0'.toNat) + ofDigitChars 10 digits 0
        < Nat.pow 10 digits.length * (c.toNat - '0'.toNat) + Nat.pow 10 digits.length := by omega
      _ = Nat.pow 10 digits.length * (c.toNat - '0'.toNat + 1) := rfl
      _ ≤ Nat.pow 10 digits.length * 10 := Nat.mul_le_mul_left _ (by omega)
      _ = Nat.pow 10 (c :: digits).length := rfl

/-- Runs of digits of one length that lead to the same number are the same. -/
theorem ofDigitChars_inj {digits digits' : List Char} (h : ∀ c ∈ digits, c.isDigit)
    (h' : ∀ c ∈ digits', c.isDigit) (hlength : digits.length = digits'.length) {init init' : Nat}
    (heq : ofDigitChars 10 digits init = ofDigitChars 10 digits' init') :
    digits = digits' ∧ init = init' := by
  -- Reading goes from the left, so the rest of the digits is compared first.
  induction digits generalizing digits' init init' with
  | nil =>
    obtain rfl := List.length_eq_zero_iff.mp hlength.symm
    exact ⟨rfl, heq⟩
  | cons c digits ih =>
    obtain ⟨c', digits', rfl⟩ := List.exists_cons_of_length_eq_add_one hlength.symm
    obtain ⟨hc, hdigits⟩ := List.forall_mem_cons.mp h
    obtain ⟨hc', hdigits'⟩ := List.forall_mem_cons.mp h'
    rw [ofDigitChars_cons, ofDigitChars_cons] at heq
    obtain ⟨rfl, hinit⟩ := ih hdigits hdigits' (Nat.succ.inj hlength) heq
    -- The last digit that was read is the rest of a division by ten.
    have hlt := toNat_sub_toNat_zero_lt hc
    have hlt' := toNat_sub_toNat_zero_lt hc'
    have hle := (Char.isDigit_iff_toNat.mp hc).1
    have hle' := (Char.isDigit_iff_toNat.mp hc').1
    have hchar : c.toNat = c'.toNat := by omega
    exact ⟨by rw [Char.toNat_inj.mp hchar], by omega⟩

/-- Zeros are digits. -/
theorem isDigit_of_mem_zeros {n : Nat} {c : Char} (h : c ∈ List.replicate n '0') : c.isDigit := by
  rw [(List.mem_replicate.mp h).2]
  decide

/-- Runs of digits that stand for one number agree, once the shorter is filled up with zeros. -/
theorem leftpad_eq_leftpad {digits digits' : List Char} (h : ∀ c ∈ digits, c.isDigit)
    (h' : ∀ c ∈ digits', c.isDigit) (heq : ofDigitChars 10 digits 0 = ofDigitChars 10 digits' 0) :
    digits.leftpad digits'.length '0' = digits'.leftpad digits.length '0' := by
  have hpadded : ∀ {l : List Char} (n : Nat), (∀ c ∈ l, c.isDigit) →
      ∀ c ∈ l.leftpad n '0', c.isDigit :=
    fun n hl => List.forall_mem_append.mpr ⟨fun c hc => isDigit_of_mem_zeros hc, hl⟩
  have hlength : (digits.leftpad digits'.length '0').length =
      (digits'.leftpad digits.length '0').length := by
    rw [List.length_leftpad, List.length_leftpad, Nat.max_comm]
  have hvalue : ofDigitChars 10 (digits.leftpad digits'.length '0') 0 =
      ofDigitChars 10 (digits'.leftpad digits.length '0') 0 := by
    rw [ofDigitChars_leftpad, ofDigitChars_leftpad, heq]
  exact (ofDigitChars_inj (hpadded _ h) (hpadded _ h') hlength hvalue).1

end Nat
