import LaneAuction.Json.Print
import LaneAuction.Json.Token
import LaneAuction.Proofs.Digits

/-!
# Written strings and numbers are tokens

The scanners take exactly the written form of a string or of a natural number from the front of a
text, whatever text follows a string, and as long as a number is not followed by what could belong
to it.
-/

namespace LaneAuction.Json

/-! ### Strings -/

/-- The two upper digits of a control character are zero. -/
private theorem fourDigits_of_lt {code : Nat} (h : code < 0x20) :
    fourDigits code = ['0', '0', Nat.digitChar (code / 16), Nat.digitChar (code % 16)] := by
  have hall : ∀ code < 0x20, fourDigits code =
      ['0', '0', Nat.digitChar (code / 16), Nat.digitChar (code % 16)] := by decide
  exact hall code h

/-- A control character is read back from its four hexadecimal digits. -/
private theorem symbolOfHex?_of_lt {code : Nat} (h : code < 0x20) :
    symbolOfHex? '0' '0' (Nat.digitChar (code / 16)) (Nat.digitChar (code % 16)) =
      some (.char (Char.ofNat code)) := by
  have hall : ∀ code < 0x20,
      symbolOfHex? '0' '0' (Nat.digitChar (code / 16)) (Nat.digitChar (code % 16)) =
        some (.char (Char.ofNat code)) := by decide
  exact hall code h

/-- The scanner takes one written character. -/
private theorem scanString_print_char (c : Char) (rest : List Char) :
    scanString (Symbol.print (.char c) ++ rest) =
      (scanString rest).map fun (symbols, rest) => (.char c :: symbols, rest) := by
  have hescape : ∀ e, e ≠ 'u' → escaped? e = some c →
      scanString ('\\' :: e :: rest) =
        (scanString rest).map fun (symbols, rest) => (.char c :: symbols, rest) := by
    intro e hu he
    rw [scanString, he]
    · cases scanString rest <;> rfl
    · exact fun _ _ _ _ _ h _ => hu h
  -- The writer escapes a character in one of two ways, or leaves it as it is.
  rw [Symbol.print]
  split
  · next h => exact hescape '"' (by decide) (by rw [h]; rfl)
  split
  · next h => exact hescape '\\' (by decide) (by rw [h]; rfl)
  split
  · next h => exact hescape 'b' (by decide) (by rw [h]; rfl)
  split
  · next h => exact hescape 'f' (by decide) (by rw [h]; rfl)
  split
  · next h => exact hescape 'n' (by decide) (by rw [h]; rfl)
  split
  · next h => exact hescape 'r' (by decide) (by rw [h]; rfl)
  split
  · next h => exact hescape 't' (by decide) (by rw [h]; rfl)
  split
  · next hcontrol =>
    -- A control character is written with four digits, of which two are zeros.
    rw [fourDigits_of_lt hcontrol]
    show scanString ('\\' :: 'u' :: '0' :: '0' :: _ :: _ :: rest) = _
    rw [scanString, symbolOfHex?_of_lt hcontrol, Char.ofNat_toNat]
    cases scanString rest <;> rfl
  · next hquote hslash _ _ _ _ _ hcontrol =>
    -- No quote, no backslash and no control character.
    show scanString (c :: rest) = _
    rw [scanString, if_neg (by simp [hslash, hcontrol])]
    · cases scanString rest <;> rfl
    · exact hquote
    · exact fun _ _ _ _ _ h _ => hslash h
    · exact fun _ _ h _ => hslash h

/-- The scanner takes the written form of a text up to the closing quote. -/
theorem scanString_print (text : List Char) (rest : List Char) :
    scanString ((text.map Symbol.char).flatMap Symbol.print ++ '"' :: rest) =
      some (text.map .char, rest) := by
  induction text with
  | nil => rfl
  | cons c text ih =>
    rw [List.map_cons, List.flatMap_cons, List.append_assoc, scanString_print_char, ih]
    rfl

/-! ### Numbers -/

/-- What can follow a number: nothing that belongs to one. -/
def EndsNumber (rest : List Char) : Prop :=
  ∀ c ∈ rest.head?, c.isDigit = false ∧ c ≠ '.' ∧ c ≠ 'e' ∧ c ≠ 'E'

/-- Digits are scanned up to the first character that is none. -/
private theorem scanDigits_append {digits rest : List Char} (hne : digits ≠ [])
    (hdigits : ∀ c ∈ digits, c.isDigit) (hrest : ∀ c ∈ rest.head?, c.isDigit = false) :
    scanDigits (digits ++ rest) = some (digits, rest) := by
  rw [scanDigits, List.takeWhile_append_of_stop hdigits hrest,
    List.dropWhile_append_of_stop hdigits hrest]
  simp [hne]

/-- The scanner takes a written natural number. -/
theorem scanNumber_toDigits (n : Nat) {rest : List Char} (hrest : EndsNumber rest) :
    scanNumber (Nat.toDigits 10 n ++ rest) = some (Nat.toDigits 10 n, rest) := by
  have hdigits : ∀ c ∈ Nat.toDigits 10 n, c.isDigit :=
    fun c hc => Nat.isDigit_of_mem_toDigits_ten hc
  -- The parts of a number: no sign, the digits, and neither a fraction nor an exponent behind them.
  have hsign : scanSign (Nat.toDigits 10 n ++ rest) = ([], Nat.toDigits 10 n ++ rest) := by
    cases h : Nat.toDigits 10 n with
    | nil => exact absurd h Nat.toDigits_ne_nil
    | cons c cs =>
      rw [List.cons_append, scanSign]
      rintro _ heq
      have hc := hdigits c (h ▸ List.mem_cons_self)
      rw [(List.cons.inj heq).1] at hc
      exact absurd hc (by decide)
  have hwhole : scanWhole (Nat.toDigits 10 n ++ rest) = some (Nat.toDigits 10 n, rest) := by
    rw [scanWhole, scanDigits_append Nat.toDigits_ne_nil hdigits fun c hc => (hrest c hc).1]
    -- Only the number zero may start with a zero.
    obtain rfl | hn := Nat.eq_zero_or_pos n
    · rfl
    · simp [Nat.head?_toDigits_ne hn]
  have hfraction : scanFraction rest = some ([], rest) := by
    cases rest with
    | nil => rfl
    | cons c rest =>
      rw [scanFraction]
      rintro _ heq
      exact (hrest c rfl).2.1 (List.cons.inj heq).1
  have hexponent : scanExponent rest = some ([], rest) := by
    cases rest with
    | nil => rfl
    | cons c rest =>
      obtain ⟨-, -, hlower, hupper⟩ := hrest c rfl
      simp [scanExponent, hlower, hupper]
  simp [scanNumber, hsign, hwhole, hfraction, hexponent]

/-! ### Tokens -/

/-- A quoted text is scanned back, and what is behind it is left. -/
theorem scanToken_print_text (text rest : List Char) :
    scanToken (Symbols.print (text.map .char) ++ rest) = some (.string (text.map .char), rest) := by
  rw [Symbols.print, List.cons_append, List.cons_append, List.append_assoc, List.singleton_append]
  show (scanString _).map _ = _
  rw [scanString_print]
  rfl

/-- A number is scanned back, if what is behind it ends a number. -/
theorem scanToken_toDigits (n : Nat) {rest : List Char} (hrest : EndsNumber rest) :
    scanToken (Nat.toDigits 10 n ++ rest) = some (.number (Nat.toDigits 10 n), rest) := by
  have hscan := scanNumber_toDigits n hrest
  cases h : Nat.toDigits 10 n with
  | nil => exact absurd h Nat.toDigits_ne_nil
  | cons c cs =>
    have hc : c.isDigit :=
      Nat.isDigit_of_mem_toDigits_ten (h ▸ List.mem_cons_self)
    rw [h] at hscan
    have hne : ∀ {c' : Char} {cs' : List Char}, c'.isDigit = false →
        c :: cs ++ rest ≠ c' :: cs' := by
      intro c' cs' hc' heq
      rw [(List.cons.inj heq).1, hc'] at hc
      exact nomatch hc
    rw [scanToken, hscan]
    · rfl
    all_goals exact fun _ => hne (by decide)

end LaneAuction.Json
