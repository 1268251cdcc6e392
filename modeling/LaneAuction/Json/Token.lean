import LaneAuction.Bytes.Hex
import LaneAuction.Json.Value

/-!
# JSON tokens

A text is cut into tokens: punctuation, the three literals, numbers and strings, with blanks between
them skipped. Numbers have no leading zeros, and strings hold no bare control character.
-/

namespace LaneAuction.Json

/-- A token of a JSON text. -/
inductive Token where
  | listOpen
  | listClose
  | objectOpen
  | objectClose
  | comma
  | colon
  | null
  | bool (b : Bool)
  | number (digits : List Char)
  | string (symbols : Symbols)
deriving DecidableEq, Repr

/-- Space, tab, line feed and carriage return. -/
def isBlank (c : Char) : Bool := c == ' ' || c == '\t' || c == '\n' || c == '\r'

/-! ### Strings -/

/-- The character that a short escape stands for. -/
def escaped? : Char → Option Char
  | '"' => some '"'
  | '\\' => some '\\'
  | '/' => some '/'
  | 'b' => some '\x08'
  | 'f' => some '\x0c'
  | 'n' => some '\n'
  | 'r' => some '\r'
  | 't' => some '\t'
  | _ => none

/-- The symbol with a 16-bit code. -/
def symbolOf (code : Nat) : Symbol :=
  if 0xd800 ≤ code ∧ code < 0xe000 then .surrogate code else .char (Char.ofNat code)

/-- The symbol with a code of four hexadecimal digits. -/
def symbolOfHex? (a b c d : Char) : Option Symbol := do
  let a ← Hex.digit? a
  let b ← Hex.digit? b
  let c ← Hex.digit? c
  let d ← Hex.digit? d
  return symbolOf (((a * 16 + b) * 16 + c) * 16 + d)

/-- The symbols up to the closing quote, and what follows it. -/
def scanString : List Char → Option (Symbols × List Char)
  | [] => none
  | '"' :: rest => some ([], rest)
  | '\\' :: 'u' :: a :: b :: c :: d :: rest => do
    let symbol ← symbolOfHex? a b c d
    let (symbols, rest) ← scanString rest
    return (symbol :: symbols, rest)
  | '\\' :: e :: rest => do
    let c ← escaped? e
    let (symbols, rest) ← scanString rest
    return (.char c :: symbols, rest)
  | c :: rest =>
    if c = '\\' ∨ c.toNat < 0x20 then none
    else do
      let (symbols, rest) ← scanString rest
      return (.char c :: symbols, rest)

/-! ### Numbers -/

/-- A run of one or more digits at the front, and what follows it. -/
def scanDigits (cs : List Char) : Option (List Char × List Char) :=
  let digits := cs.takeWhile Char.isDigit
  if digits.isEmpty then none else some (digits, cs.dropWhile Char.isDigit)

/-- The sign at the front of a number, if there is one. -/
def scanSign : List Char → List Char × List Char
  | '-' :: rest => (['-'], rest)
  | cs => ([], cs)

/-- The digits before the point, of which the first is zero only if it is the only one. -/
def scanWhole (cs : List Char) : Option (List Char × List Char) := do
  let (digits, rest) ← scanDigits cs
  if digits.head? = some '0' ∧ digits.length ≠ 1 then none else return (digits, rest)

/-- The point and the digits behind it, if there is a point. -/
def scanFraction : List Char → Option (List Char × List Char)
  | '.' :: rest => do
    let (digits, rest) ← scanDigits rest
    return ('.' :: digits, rest)
  | cs => some ([], cs)

/-- The exponent, if there is one. -/
def scanExponent : List Char → Option (List Char × List Char)
  | e :: rest =>
    if e = 'e' ∨ e = 'E' then
      match rest with
      | s :: rest' =>
        if s = '+' ∨ s = '-' then do
          let (digits, rest) ← scanDigits rest'
          return (e :: s :: digits, rest)
        else do
          let (digits, rest) ← scanDigits rest
          return (e :: digits, rest)
      | [] => none
    else some ([], e :: rest)
  | [] => some ([], [])

/-- The number at the front, and what follows it. -/
def scanNumber (cs : List Char) : Option (List Char × List Char) := do
  let (sign, rest) := scanSign cs
  let (whole, rest) ← scanWhole rest
  let (fraction, rest) ← scanFraction rest
  let (exponent, rest) ← scanExponent rest
  return (sign ++ whole ++ fraction ++ exponent, rest)

/-! ### Tokens -/

/-- The token at the front, and what follows it. -/
def scanToken : List Char → Option (Token × List Char)
  | '[' :: rest => some (.listOpen, rest)
  | ']' :: rest => some (.listClose, rest)
  | '\x7b' :: rest => some (.objectOpen, rest)
  | '\x7d' :: rest => some (.objectClose, rest)
  | ',' :: rest => some (.comma, rest)
  | ':' :: rest => some (.colon, rest)
  | 'n' :: 'u' :: 'l' :: 'l' :: rest => some (.null, rest)
  | 't' :: 'r' :: 'u' :: 'e' :: rest => some (.bool true, rest)
  | 'f' :: 'a' :: 'l' :: 's' :: 'e' :: rest => some (.bool false, rest)
  | '"' :: rest => (scanString rest).map fun (symbols, rest) => (.string symbols, rest)
  | cs => (scanNumber cs).map fun (digits, rest) => (.number digits, rest)

/-! ### Every token takes something from the text -/

/-- What is left behind a string is shorter than what was read. -/
private theorem scanString_length {cs : List Char} {s : Symbols} {rest : List Char}
    (h : scanString cs = some (s, rest)) : rest.length < cs.length := by
  -- The scanner calls itself on a tail of the text, behind one character or one escape.
  fun_induction scanString cs generalizing s with
  | case1 => simp at h
  | case2 => simp at h; simp [h]
  -- An escape with four hexadecimal digits.
  | case3 a b c d tail ih =>
    simp only [Option.bind_eq_bind, Option.bind_eq_some_iff, Option.pure_def,
      Option.some.injEq, Prod.mk.injEq] at h
    obtain ⟨_, _, ⟨s', r'⟩, hs, _, rfl⟩ := h
    have hlt : r'.length < tail.length := ih hs
    simp only [List.length_cons]
    omega
  -- Another escape, of two characters.
  | case4 e tail _ ih =>
    simp only [Option.bind_eq_bind, Option.bind_eq_some_iff, Option.pure_def,
      Option.some.injEq, Prod.mk.injEq] at h
    obtain ⟨_, _, ⟨s', r'⟩, hs, _, rfl⟩ := h
    have hlt : r'.length < tail.length := ih hs
    simp only [List.length_cons]
    omega
  | case5 => simp at h
  -- A character that stands for itself.
  | case6 c tail _ _ _ _ ih =>
    simp only [Option.bind_eq_bind, Option.bind_eq_some_iff, Option.pure_def,
      Option.some.injEq, Prod.mk.injEq] at h
    obtain ⟨⟨s', r'⟩, hs, _, rfl⟩ := h
    have hlt : r'.length < tail.length := ih hs
    simp only [List.length_cons]
    omega

/-- What is left behind digits is shorter than what was read. -/
private theorem scanDigits_length {cs digits rest : List Char}
    (h : scanDigits cs = some (digits, rest)) : rest.length < cs.length := by
  simp only [scanDigits] at h
  split at h
  · simp at h
  · rename_i hne
    simp only [Option.some.injEq, Prod.mk.injEq] at h
    obtain ⟨rfl, rfl⟩ := h
    have hsum := congrArg List.length
      (List.takeWhile_append_dropWhile (p := Char.isDigit) (l := cs))
    have hpos := List.length_pos_iff.2 (mt List.isEmpty_iff.2 hne)
    rw [List.length_append] at hsum
    omega

/-- What is left behind the whole part of a number is shorter than what was read. -/
private theorem scanWhole_length {cs digits rest : List Char}
    (h : scanWhole cs = some (digits, rest)) : rest.length < cs.length := by
  simp only [scanWhole, Option.bind_eq_bind, Option.bind_eq_some_iff] at h
  obtain ⟨⟨d, r⟩, hd, h⟩ := h
  have hlt := scanDigits_length hd
  split at h
  · simp at h
  · simp only [Option.pure_def, Option.some.injEq, Prod.mk.injEq] at h
    exact h.2 ▸ hlt

/-- What is left behind a fraction, which may be missing, is no longer than what was read. -/
private theorem scanFraction_length {cs digits rest : List Char}
    (h : scanFraction cs = some (digits, rest)) : rest.length ≤ cs.length := by
  unfold scanFraction at h
  split at h
  · simp only [Option.bind_eq_bind, Option.bind_eq_some_iff, Option.pure_def, Option.some.injEq,
      Prod.mk.injEq] at h
    obtain ⟨⟨d, r⟩, hd, _, rfl⟩ := h
    have hlt := scanDigits_length hd
    simp only [List.length_cons]
    omega
  · simp only [Option.some.injEq, Prod.mk.injEq] at h
    exact h.2 ▸ Nat.le_refl _

/-- What is left behind an exponent, which may be missing, is no longer than what was read. -/
private theorem scanExponent_length {cs digits rest : List Char}
    (h : scanExponent cs = some (digits, rest)) : rest.length ≤ cs.length := by
  unfold scanExponent at h
  split at h
  · split at h
    · split at h
      · split at h <;>
        · simp only [Option.bind_eq_bind, Option.bind_eq_some_iff, Option.pure_def,
            Option.some.injEq, Prod.mk.injEq] at h
          obtain ⟨⟨d, r⟩, hd, _, rfl⟩ := h
          have hlt := scanDigits_length hd
          simp only [List.length_cons] at hlt ⊢
          omega
      · simp at h
    · simp only [Option.some.injEq, Prod.mk.injEq] at h
      exact h.2 ▸ Nat.le_refl _
  · simp only [Option.some.injEq, Prod.mk.injEq] at h
    exact h.2 ▸ Nat.le_refl _

/-- What is left behind a sign, which may be missing, is no longer than what was read. -/
private theorem scanSign_length (cs : List Char) : (scanSign cs).2.length ≤ cs.length := by
  unfold scanSign
  split <;> simp

/-- What is left behind a number is shorter than what was read. -/
private theorem scanNumber_length {cs digits rest : List Char}
    (h : scanNumber cs = some (digits, rest)) : rest.length < cs.length := by
  simp only [scanNumber, Option.bind_eq_bind, Option.bind_eq_some_iff, Option.pure_def,
    Option.some.injEq, Prod.mk.injEq] at h
  obtain ⟨⟨w, r₁⟩, hw, ⟨f, r₂⟩, hf, ⟨e, r₃⟩, he, _, rfl⟩ := h
  have h₀ := scanSign_length cs
  have h₁ := scanWhole_length hw
  have h₂ := scanFraction_length hf
  have h₃ := scanExponent_length he
  simp only at h₁ h₂ h₃ ⊢
  omega

/-- What is left behind a token is shorter than what was read, so that scanning comes to an end. -/
private theorem scanToken_length {cs rest : List Char} {t : Token}
    (h : scanToken cs = some (t, rest)) : rest.length < cs.length := by
  unfold scanToken at h
  -- A string and a number are scanned; the other tokens are fixed characters.
  split at h
  case h_10 =>
    simp only [Option.map_eq_some_iff, Prod.mk.injEq] at h
    obtain ⟨⟨s, r⟩, hs, _, rfl⟩ := h
    have hlt := scanString_length hs
    simp only [List.length_cons]
    omega
  case h_11 =>
    simp only [Option.map_eq_some_iff, Prod.mk.injEq] at h
    obtain ⟨⟨d, r⟩, hd, _, rfl⟩ := h
    exact scanNumber_length hd
  all_goals
    simp only [Option.some.injEq, Prod.mk.injEq] at h
    obtain ⟨_, rfl⟩ := h
    simp only [List.length_cons]
    omega

/-- The tokens of a whole text. -/
def tokens (cs : List Char) : Option (List Token) :=
  match cs with
  | [] => some []
  | c :: rest =>
    if isBlank c then tokens rest
    else
      match _h : scanToken (c :: rest) with
      | some (t, rest') => (t :: ·) <$> tokens rest'
      | none => none
termination_by cs.length
decreasing_by
  · simp
  · exact scanToken_length _h

end LaneAuction.Json
