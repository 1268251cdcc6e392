import LaneAuction.Config.Json
import LaneAuction.Proofs.Coin.Text
import LaneAuction.Proofs.Config
import LaneAuction.Proofs.Decimal.Text
import LaneAuction.Proofs.Json.Parse

/-!
# Configurations are read back

Every record that is written is read back as it was; only the coins need denominations that are well
formed. So every valid configuration is read back from its text (`Config.ofText_toText`).
-/

namespace LaneAuction

namespace Json

/-! ### Values -/

/-- The symbols of a text are read as the text. -/
private theorem Symbols.text?_ofText (text : String) :
    Symbols.text? (.ofText text) = some text := by
  have hchars : ∀ cs : List Char, Symbols.chars? (cs.map .char) = some cs := by
    intro cs
    induction cs with
    | nil => rfl
    | cons c cs ih => simp [chars?, ih]
  rw [text?, ofText, hchars, Option.map_some, String.ofList_toList]

namespace Value

@[simp] theorem text?_ofText (text : String) : (ofText text).text? = some text :=
  Symbols.text?_ofText text

/-- A text that a reader reads is read by it as a value. -/
private theorem textBy?_ofText {ε α : Type} {read : String → Except ε α} {text : String} {a : α}
    (h : read text = .ok a) : (ofText text).textBy? read = some a := by
  rw [textBy?, text?_ofText, Option.bind_some, h]
  rfl

/-- A number below a bound is read back. -/
private theorem natBelow?_ofNat {n bound : Nat} (h : n < bound) :
    (ofNat n).natBelow? bound = some n := by
  have hdigits : (Nat.toDigits 10 n).all Char.isDigit :=
    List.all_eq_true.mpr fun c hc => Nat.isDigit_of_mem_toDigits_ten hc
  rw [ofNat, natBelow?, Nat.ofDigitChars_ten_toDigits, if_pos ⟨hdigits, h⟩]

@[simp] theorem word32?_ofNat (w : UInt32) : (ofNat w.toNat).word32? = some w := by
  rw [word32?, natBelow?_ofNat w.toNat_lt, Option.map_some, UInt32.ofNat_toNat]

@[simp] theorem word64?_ofNat (w : UInt64) : (ofNat w.toNat).word64? = some w := by
  rw [word64?, natBelow?_ofNat w.toNat_lt, Option.map_some, UInt64.ofNat_toNat]

/-- A list of values that are read back is read back. -/
private theorem list?_map {α : Type} {read : Value → Option α} {write : α → Value} {items : List α}
    (h : ∀ a ∈ items, read (write a) = some a) :
    (list (items.map write)).list? read = some items := by
  show (items.map write).mapM read = some items
  induction items with
  | nil => rfl
  | cons a items ih =>
    obtain ⟨ha, hitems⟩ := List.forall_mem_cons.mp h
    rw [List.map_cons, List.mapM_cons, ha, ih hitems]
    rfl

/-- The members of an object are its fields. -/
private theorem members?_ofFields (fields : List (String × Value)) :
    (ofFields fields).members? = some fields := by
  show (fields.map _).mapM _ = some fields
  induction fields with
  | nil => rfl
  | cons field fields ih =>
    rw [List.map_cons, List.mapM_cons, ih]
    simp [Symbols.text?_ofText]

/-- A member is looked up by its name, the first one first. -/
private theorem lookup_cons_eq_ite (name key : String) (v : Value)
    (fields : List (String × Value)) :
    ((key, v) :: fields).lookup name = if name = key then some v else fields.lookup name := by
  rw [List.lookup_cons]
  by_cases h : name = key
  · rw [h, beq_self_eq_true, if_pos rfl]
  · rw [beq_eq_false_iff_ne.mpr h, if_neg h]

/-- A field is read where it is given, and else takes its default. -/
private theorem needOr_eq_elim {α : Type} (fields : String → Option Value) (name : String)
    (default : α) (read : Value → Option α) :
    needOr fields name default read = (fields name).elim (some default) read := by
  rw [needOr]
  cases fields name <;> rfl

/-- An object is read as a record if none of the names comes twice. -/
private theorem fields?_ofFields {fields : List (String × Value)} {names : List String}
    (h : names.all fun name => fields.countP (·.1 == name) ≤ 1) :
    (ofFields fields).fields? names = some fun name => fields.lookup name := by
  rw [fields?]
  · rw [members?_ofFields]
    exact if_pos h
  · exact nofun

end Value

end Json

open Json Json.Value

/-! ### Fields -/

@[simp] theorem Bytes32.ofJson?_toHex (h : Bytes32) : ofJson? (.ofText h.toHex) = some h := by
  rw [ofJson?, text?_ofText, Option.bind_some, ofHex?_toHex]

@[simp] theorem Decimal.ofJson?_toText (d : Decimal) : ofJson? (.ofText d.toText) = some d :=
  textBy?_ofText d.ofText_toText

/-- A valid coin is read back from its text. -/
theorem Coin.ofJson?_toText {c : Coin} (h : c.isValid) : ofJson? (.ofText c.toText) = some c :=
  textBy?_ofText (ofText_toText h)

@[simp] theorem TieBreak.ofJson?_name (t : TieBreak) : ofJson? (.ofText t.name) = some t := by
  have hname : ofName? t.name = some t := by cases t <;> decide
  rw [ofJson?]
  · rw [text?_ofText, Option.bind_some, hname]
  · exact nofun

/-! ### Records -/

/-- The value of a lane is plain. -/
private theorem Lane.isPlain_toJson (lane : Lane) : lane.toJson.IsPlain := by
  refine .fields ?_
  simp only [List.forall_mem_cons]
  exact ⟨.text _, .text _, .nat _, nofun⟩

/-- A lane is read back from its value. -/
theorem Lane.ofJson?_toJson (lane : Lane) : ofJson? lane.toJson = some lane := by
  rw [ofJson?, toJson, fields?_ofFields (by simp [List.countP_cons])]
  simp [need, lookup_cons_eq_ite]

/-- The value of parameters is plain. -/
private theorem AuctionParams.isPlain_toJson (p : AuctionParams) : p.toJson.IsPlain := by
  refine .fields ?_
  simp only [List.forall_mem_cons]
  exact ⟨.nat _, .text _, .text _, .text _, .text _, .bool _, .nat _, nofun⟩

/-- Parameters with valid coins are read back from their value. -/
theorem AuctionParams.ofJson?_toJson {p : AuctionParams} (hreserve : p.reserve.isValid)
    (hincrement : p.increment.isValid) : ofJson? p.toJson = some p := by
  rw [ofJson?, toJson, fields?_ofFields (by simp [List.countP_cons])]
  simp [need, needOr_eq_elim, lookup_cons_eq_ite, bool?, Coin.ofJson?_toText hreserve,
    Coin.ofJson?_toText hincrement]

/-- The value of a cleared bid is plain. -/
private theorem ClearedBid.isPlain_toJson (b : ClearedBid) : b.toJson.IsPlain := by
  refine .fields ?_
  simp only [List.forall_mem_cons]
  exact ⟨.text _, .text _, .text _, .nat _, nofun⟩

/-- A cleared bid with a valid price is read back from its value. -/
theorem ClearedBid.ofJson?_toJson {b : ClearedBid} (h : b.price.isValid) :
    ofJson? b.toJson = some b := by
  rw [ofJson?, toJson, fields?_ofFields (by simp [List.countP_cons])]
  simp [need, lookup_cons_eq_ite, Coin.ofJson?_toText h]

/-- The value of a genesis is plain. -/
private theorem Genesis.isPlain_toJson (g : Genesis) : g.toJson.IsPlain := by
  have hlanes : ∀ v ∈ g.lanes.map Lane.toJson, v.IsPlain :=
    List.forall_mem_map.mpr fun lane _ => lane.isPlain_toJson
  have hcleared : ∀ v ∈ g.clearedBids.map ClearedBid.toJson, v.IsPlain :=
    List.forall_mem_map.mpr fun bid _ => bid.isPlain_toJson
  refine .fields ?_
  simp only [List.forall_mem_cons]
  exact ⟨.list hlanes, g.params.isPlain_toJson, .list hcleared, nofun⟩

/-- A genesis with valid coins is read back from its value. -/
theorem Genesis.ofJson?_toJson {g : Genesis} (hreserve : g.params.reserve.isValid)
    (hincrement : g.params.increment.isValid) (hprices : ∀ bid ∈ g.clearedBids, bid.price.isValid) :
    ofJson? g.toJson = some g := by
  rw [ofJson?, toJson, fields?_ofFields (by simp [List.countP_cons])]
  simp [need, needOr_eq_elim, lookup_cons_eq_ite, AuctionParams.ofJson?_toJson hreserve hincrement,
    list?_map fun lane (_ : lane ∈ g.lanes) => lane.ofJson?_toJson,
    list?_map fun bid hbid => ClearedBid.ofJson?_toJson (hprices bid hbid)]

/-- The value of the auction's settings is plain. -/
private theorem AuctionSettings.isPlain_toJson (s : AuctionSettings) : s.toJson.IsPlain := by
  refine .fields ?_
  simp only [List.forall_mem_cons]
  exact ⟨.text _, .text _, .nat _, nofun⟩

/-- The auction's settings are read back from their value. -/
theorem AuctionSettings.ofJson?_toJson (s : AuctionSettings) : ofJson? s.toJson = some s := by
  rw [ofJson?, toJson, fields?_ofFields (by simp [List.countP_cons])]
  simp [needOr_eq_elim, lookup_cons_eq_ite]

/-- The value of the free lane's settings is plain. -/
private theorem FreeSettings.isPlain_toJson (s : FreeSettings) : s.toJson.IsPlain := by
  have hexempt : ∀ v ∈ s.exempt.map Value.ofText, v.IsPlain :=
    List.forall_mem_map.mpr fun url _ => .text url
  refine .fields ?_
  simp only [List.forall_mem_cons]
  exact ⟨.text _, .list hexempt, .nat _, nofun⟩

/-- The free lane's settings are read back from their value. -/
theorem FreeSettings.ofJson?_toJson (s : FreeSettings) : ofJson? s.toJson = some s := by
  rw [ofJson?, toJson, fields?_ofFields (by simp [List.countP_cons])]
  simp [needOr_eq_elim, lookup_cons_eq_ite,
    list?_map fun url (_ : url ∈ s.exempt) => text?_ofText url]

/-- The value of the base lane's settings is plain. -/
private theorem BaseSettings.isPlain_toJson (s : BaseSettings) : s.toJson.IsPlain := by
  refine .fields ?_
  simp only [List.forall_mem_cons]
  exact ⟨.text _, .nat _, .text _, nofun⟩

/-- The base lane's settings are read back from their value. -/
theorem BaseSettings.ofJson?_toJson (s : BaseSettings) : ofJson? s.toJson = some s := by
  rw [ofJson?, toJson, fields?_ofFields (by simp [List.countP_cons])]
  simp [needOr_eq_elim, lookup_cons_eq_ite]

/-! ### Configurations -/

namespace Config

/-- The value of a configuration is plain, because the values of all its parts are. -/
theorem isPlain_toJson (c : Config) : c.toJson.IsPlain := by
  refine .fields ?_
  simp only [List.forall_mem_cons]
  exact ⟨.text _, c.genesis.isPlain_toJson, .text _, c.auction.isPlain_toJson,
    c.free.isPlain_toJson, c.base.isPlain_toJson, nofun⟩

/-- The text of a configuration is JSON. -/
theorem parse?_toText (c : Config) : parse? c.toText = some c.toJson :=
  c.isPlain_toJson.parse?_print (some 0)

/-- A valid configuration is read back from its text. -/
theorem ofText_toText {c : Config} (h : c.validate = .ok ()) : ofText c.toText = .ok c := by
  have hvalid := validate_eq_ok_iff.mp h
  have hparams := AuctionParams.validate_eq_ok_iff.mp hvalid.params
  have hincrement : c.genesis.params.increment.isValid := by
    have hreserve := hparams.reserve
    rw [Coin.isValid, hparams.denoms] at hreserve
    exact hreserve
  have hgenesis := Genesis.ofJson?_toJson hparams.reserve hincrement hvalid.prices
  have hread : ofJson? c.toJson = some c := by
    rw [ofJson?, toJson, fields?_ofFields (by simp [List.countP_cons])]
    simp [needOr_eq_elim, lookup_cons_eq_ite, hgenesis, AuctionSettings.ofJson?_toJson,
      FreeSettings.ofJson?_toJson, BaseSettings.ofJson?_toJson]
  rw [ofText, c.parse?_toText, Option.bind_some, hread]
  show (c.validate.mapError ConfigError.invalid).map (fun _ => c) = .ok c
  rw [h]
  rfl

/-- What is read from a text is valid. -/
theorem validate_of_ofText {c : Config} {text : String} (h : ofText text = .ok c) :
    c.validate = .ok () := by
  rw [ofText] at h
  split at h
  · exact nomatch h
  · next read _ =>
    cases hvalid : read.validate with
    | error fault =>
      rw [hvalid] at h
      exact nomatch h
    | ok _ =>
      rw [hvalid] at h
      obtain rfl := Except.ok.inj h
      exact hvalid

/-- Every configuration is written as JSON that parses to its value, and it is read back from its
text exactly if it is valid. -/
theorem text_round_trip (c : Config) :
    parse? c.toText = some c.toJson ∧ (ofText c.toText = .ok c ↔ c.validate = .ok ()) :=
  ⟨c.parse?_toText, validate_of_ofText, ofText_toText⟩

-- Coins are why validity is asked for: digits in front of a denomination join those of the amount.
example : Coin.ofText (Coin.toText ⟨⟨1, by decide⟩, "1abc"⟩) = .ok ⟨⟨11, by decide⟩, "abc"⟩ := by
  decide

end Config

end LaneAuction
