import LaneAuction.Json.Parse
import LaneAuction.Proofs.Json.Token

/-!
# Written values are read back

Values of natural numbers and texts are read back from their text, in either layout. The proof
follows the reader: behind the written form of a value it has read just that value, whatever is
still open (`IsPlain.readsBack`).
-/

namespace LaneAuction.Json

namespace Progress

variable {p : Progress} {cs rest : List Char} {t : Token}

/-- Reads the tokens of a text. -/
def read (p : Progress) (cs : List Char) : Option Progress := (tokens cs).bind p.run

/-- A blank in front of a text is passed over. -/
private theorem read_blank {c : Char} (hc : isBlank c) : p.read (c :: cs) = p.read cs := by
  rw [read, tokens, if_pos hc, read]

/-- Reading a text is reading its first token and then the rest. -/
theorem read_of_scanToken {c : Char} (hc : isBlank c = false)
    (h : scanToken (c :: cs) = some (t, rest)) :
    p.read (c :: cs) = (p.step t).bind fun p => p.read rest := by
  rw [read, tokens, hc]
  simp only [Bool.false_eq_true, if_false]
  split
  · next t' rest' h' =>
    rw [h] at h'
    obtain ⟨rfl, rfl⟩ := Prod.mk.inj (Option.some.inj h')
    cases hrest : tokens rest with
    | none => cases p.step t <;> simp [read, hrest]
    | some ts => simp [run, read, hrest]
  · next h' =>
    rw [h] at h'
    cases h'

/-- A line break and its indent are passed over. -/
private theorem read_newline (layout : Layout) : p.read (layout.newline ++ cs) = p.read cs := by
  cases layout with
  | none => rfl
  | some level =>
    rw [Layout.newline, List.cons_append, read_blank (by decide)]
    induction 2 * level with
    | zero => rfl
    | succ n ih => rw [List.replicate_succ, List.cons_append, read_blank (by decide), ih]

end Progress

/-! ### Lists and objects -/

/-- Behind the written form of the value it has been read, whatever is still open. -/
def Value.ReadsBack (v : Value) : Prop :=
  ∀ (layout : Layout) (stack : List Frame) (canClose : Bool) {rest : List Char}, EndsNumber rest →
    (Progress.value stack canClose).read (v.print layout ++ rest) =
      (Progress.full stack v).read rest

/-- What follows an item or a member ends a number. -/
private theorem endsNumber_newline (layout : Layout) {c : Char} {rest : List Char}
    (hc : c = ']' ∨ c = '\x7d') : EndsNumber (layout.newline ++ c :: rest) := by
  cases layout with
  | none => obtain rfl | rfl := hc <;> simp [EndsNumber, Layout.newline]
  | some level => simp [EndsNumber, Layout.newline]

/-- What follows an item of a list ends a number. -/
private theorem endsNumber_printItems (inner layout : Layout) (items : List Value)
    (rest : List Char) :
    EndsNumber (printItems inner items ++ (layout.newline ++ ']' :: rest)) := by
  cases items with
  | nil => exact endsNumber_newline layout (.inl rfl)
  | cons v items => simp [EndsNumber, printItems]

/-- What follows a member of an object ends a number. -/
private theorem endsNumber_printMembers (inner layout : Layout) (members : List (Symbols × Value))
    (rest : List Char) :
    EndsNumber (printMembers inner members ++ (layout.newline ++ '\x7d' :: rest)) := by
  cases members with
  | nil => exact endsNumber_newline layout (.inr rfl)
  | cons m members => simp [EndsNumber, printMembers]

namespace Progress

variable {stack : List Frame} {rest : List Char}

/-- Further items up to the bracket complete a list. -/
private theorem read_printItems {items : List Value} (hitems : ∀ v ∈ items, v.ReadsBack)
    (inner layout : Layout) (before : List Value) (v : Value) :
    (full (.items before :: stack) v).read
        (printItems inner items ++ (layout.newline ++ ']' :: rest)) =
      (full stack (.list (before.reverse ++ v :: items))).read rest := by
  -- What was read before is kept in reverse; the last value is the one just read.
  induction items generalizing before v with
  | nil =>
    rw [printItems, List.nil_append, read_newline,
      read_of_scanToken (t := Token.listClose) (by decide) rfl]
    simp [step]
  | cons w items ih =>
    obtain ⟨hw, hitems⟩ := List.forall_mem_cons.mp hitems
    have hrest := endsNumber_printItems inner layout items rest
    simp only [printItems, List.cons_append, List.append_assoc]
    rw [read_of_scanToken (t := Token.comma) (by decide) rfl]
    show (value (.items (v :: before) :: stack) false).read _ = _
    rw [read_newline, hw inner _ false hrest, ih hitems]
    simp

/-- A member is read up to its value. -/
private theorem read_printMember {v : Value} (hv : v.ReadsBack) (layout : Layout) (text : String)
    (before : List (Symbols × Value)) (canClose : Bool) (hrest : EndsNumber rest) :
    (name stack before canClose).read (printMember layout (.ofText text, v) ++ rest) =
      (full (.members before (.ofText text) :: stack) v).read rest := by
  -- In either layout, the value comes next behind the colon.
  have hcolon : ∀ cs, (colon stack before (.ofText text)).read (layout.colon ++ cs) =
      (value (.members before (.ofText text) :: stack) false).read cs := by
    intro cs
    cases layout with
    | none =>
      rw [Layout.colon, List.singleton_append,
        read_of_scanToken (t := Token.colon) (by decide) rfl]
      rfl
    | some level =>
      rw [Layout.colon, List.cons_append, List.singleton_append,
        read_of_scanToken (t := Token.colon) (by decide) rfl]
      show (value (.members before (.ofText text) :: stack) false).read _ = _
      rw [read_blank (by decide)]
  rw [printMember, List.append_assoc, List.append_assoc, Symbols.ofText]
  -- The name is read up to its closing quote.
  have hscan := scanToken_print_text text.toList (layout.colon ++ (v.print layout ++ rest))
  rw [Symbols.print, List.cons_append, List.cons_append] at hscan ⊢
  rw [read_of_scanToken (by decide) hscan]
  show (colon stack before (.ofText text)).read _ = _
  rw [hcolon, hv layout _ false hrest, Symbols.ofText]

/-- Further members up to the brace complete an object. -/
private theorem read_printMembers {fields : List (String × Value)}
    (hfields : ∀ f ∈ fields, f.2.ReadsBack)
    (inner layout : Layout) (before : List (Symbols × Value)) (symbols : Symbols) (v : Value) :
    (full (.members before symbols :: stack) v).read
        (printMembers inner (fields.map fun (key, v) => (.ofText key, v)) ++
          (layout.newline ++ '\x7d' :: rest)) =
      (full stack (.object (before.reverse ++ (symbols, v) ::
        fields.map fun (key, v) => (.ofText key, v)))).read rest := by
  -- For any members read so far: a comma files the last value and starts the next member.
  induction fields generalizing before symbols v with
  | nil =>
    rw [List.map_nil, printMembers, List.nil_append, read_newline,
      read_of_scanToken (t := Token.objectClose) (by decide) rfl]
    simp [step]
  | cons field fields ih =>
    obtain ⟨hv, hfields⟩ := List.forall_mem_cons.mp hfields
    have hrest := endsNumber_printMembers inner layout
      (fields.map fun (key, v) => (.ofText key, v)) rest
    simp only [List.map_cons, printMembers, List.cons_append, List.append_assoc]
    rw [read_of_scanToken (t := Token.comma) (by decide) rfl]
    show (name stack ((symbols, v) :: before) false).read _ = _
    rw [read_newline, read_printMember hv inner field.1 _ false hrest, ih hfields]
    simp

end Progress

/-! ### Values -/

namespace Value

/-- A value of truth values, natural numbers and texts, in lists and as fields. -/
inductive IsPlain : Value → Prop
  | bool (b : Bool) : IsPlain (.bool b)
  | nat (n : Nat) : IsPlain (.ofNat n)
  | text (text : String) : IsPlain (.ofText text)
  | list {items : List Value} (h : ∀ v ∈ items, IsPlain v) : IsPlain (.list items)
  | fields {fields : List (String × Value)} (h : ∀ f ∈ fields, IsPlain f.2) :
    IsPlain (.ofFields fields)

section

open Progress

/-- Truth values are read back. -/
private theorem readsBack_bool (b : Bool) : (Value.bool b).ReadsBack := by
  intro layout stack canClose rest _
  cases b with
  | true => exact read_of_scanToken (t := Token.bool true) (by decide) rfl
  | false => exact read_of_scanToken (t := Token.bool false) (by decide) rfl

/-- Natural numbers are read back, because what is behind them ends a number. -/
private theorem readsBack_ofNat (n : Nat) : (ofNat n).ReadsBack := by
  intro layout stack canClose rest hrest
  have hscan := scanToken_toDigits n hrest
  rw [ofNat, print]
  cases h : Nat.toDigits 10 n with
  | nil => exact absurd h Nat.toDigits_ne_nil
  | cons c cs =>
    have hc : c.isDigit :=
      Nat.isDigit_of_mem_toDigits_ten (h ▸ List.mem_cons_self)
    have hblank : isBlank c = false := by
      rw [Bool.eq_false_iff]
      intro hblank
      simp only [isBlank, Bool.or_eq_true, beq_iff_eq] at hblank
      obtain ((rfl | rfl) | rfl) | rfl := hblank <;> exact absurd hc (by decide)
    rw [h] at hscan
    exact read_of_scanToken hblank hscan

/-- Texts are read back. -/
private theorem readsBack_ofText (text : String) : (ofText text).ReadsBack := by
  intro layout stack canClose rest _
  have hscan := scanToken_print_text text.toList rest
  rw [ofText, print, Symbols.ofText]
  rw [Symbols.print, List.cons_append, List.cons_append] at hscan ⊢
  exact read_of_scanToken (by decide) hscan

/-- The first item is read where the list may still close, the further ones behind a comma. -/
private theorem readsBack_list {items : List Value} (hitems : ∀ v ∈ items, v.ReadsBack) :
    (Value.list items).ReadsBack := by
  intro layout stack canClose rest _
  cases items with
  | nil =>
    rw [print, List.cons_append, read_of_scanToken (t := Token.listOpen) (by decide) rfl]
    show (Progress.value (.items [] :: stack) true).read (']' :: rest) = _
    rw [read_of_scanToken (t := Token.listClose) (by decide) rfl]
    rfl
  | cons v items =>
    obtain ⟨hv, hitems⟩ := List.forall_mem_cons.mp hitems
    have hend := endsNumber_printItems layout.inner layout items rest
    simp only [print, List.cons_append, List.append_assoc, List.nil_append]
    rw [read_of_scanToken (t := Token.listOpen) (by decide) rfl]
    show (Progress.value (.items [] :: stack) true).read _ = _
    rw [read_newline, hv layout.inner _ true hend, read_printItems hitems]
    rfl

/-- An object is read as a list is, with a name in front of every value. -/
private theorem readsBack_ofFields {fields : List (String × Value)}
    (hfields : ∀ f ∈ fields, f.2.ReadsBack) : (ofFields fields).ReadsBack := by
  intro layout stack canClose rest _
  cases fields with
  | nil =>
    rw [ofFields, List.map_nil, print, List.cons_append,
      read_of_scanToken (t := Token.objectOpen) (by decide) rfl]
    show (Progress.name stack [] true).read ('\x7d' :: rest) = _
    rw [read_of_scanToken (t := Token.objectClose) (by decide) rfl]
    rfl
  | cons field fields =>
    obtain ⟨hv, hfields⟩ := List.forall_mem_cons.mp hfields
    have hend := endsNumber_printMembers layout.inner layout
      (fields.map fun (key, v) => (.ofText key, v)) rest
    simp only [ofFields, List.map_cons, print, List.cons_append, List.append_assoc,
      List.nil_append]
    rw [read_of_scanToken (t := Token.objectOpen) (by decide) rfl]
    show (Progress.name stack [] true).read _ = _
    -- In front of the first member the object may still be closed; the others come behind it.
    rw [read_newline, read_printMember hv layout.inner field.1 [] true hend,
      read_printMembers hfields]
    rfl

end

/-- Plain values are read back, by induction over them. -/
theorem IsPlain.readsBack {v : Value} (h : v.IsPlain) : v.ReadsBack := by
  induction h with
  | bool b => exact readsBack_bool b
  | nat n => exact readsBack_ofNat n
  | text text => exact readsBack_ofText text
  | list _ ih => exact readsBack_list ih
  | fields _ ih => exact readsBack_ofFields ih

/-- A plain value is read back from its text, whatever the layout. -/
theorem IsPlain.parse?_print {v : Value} (h : v.IsPlain) (layout : Layout) :
    parse? (String.ofList (v.print layout)) = some v := by
  have hend : EndsNumber [] := by simp [EndsNumber]
  have hread := h.readsBack layout [] false hend
  rw [List.append_nil] at hread
  have hend : (Progress.full [] v).read [] = some (.full [] v) := by
    rw [Progress.read, tokens]
    rfl
  rw [hend, Progress.read, Option.bind_eq_some_iff] at hread
  obtain ⟨ts, htokens, hrun⟩ := hread
  simp [parse?, ofTokens?, htokens, hrun]

end Value

end LaneAuction.Json
