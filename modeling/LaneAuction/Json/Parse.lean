import LaneAuction.Json.Token

/-!
# Reading JSON

A text is read token by token. What has been read of the lists and objects that are still open is
kept on a stack, so nesting is not limited. A text holds exactly one value.
-/

namespace LaneAuction.Json

/-- A list or an object that is still open. -/
inductive Frame where
  /-- A list with the items so far, the last one first. -/
  | items (before : List Value)
  /-- An object with the members so far, the last one first, and the name of the next. -/
  | members (before : List (Symbols × Value)) (name : Symbols)

/-- What has been read of a value. -/
inductive Progress where
  /-- A value is due; right behind `[` the list may also end. -/
  | value (stack : List Frame) (canClose : Bool)
  /-- The name of a member is due; right behind an opening brace the object may also end. -/
  | name (stack : List Frame) (before : List (Symbols × Value)) (canClose : Bool)
  /-- The colon behind a name is due. -/
  | colon (stack : List Frame) (before : List (Symbols × Value)) (name : Symbols)
  /-- A value is complete. -/
  | full (stack : List Frame) (v : Value)

namespace Progress

/-- Reads one more token. -/
def step : Progress → Token → Option Progress
  | value stack _, .null => some (full stack .null)
  | value stack _, .bool b => some (full stack (.bool b))
  | value stack _, .number digits => some (full stack (.number digits))
  | value stack _, .string symbols => some (full stack (.string symbols))
  | value stack _, .listOpen => some (value (.items [] :: stack) true)
  | value (.items [] :: stack) true, .listClose => some (full stack (.list []))
  | value stack _, .objectOpen => some (name stack [] true)
  | name stack before _, .string symbols => some (colon stack before symbols)
  | name stack [] true, .objectClose => some (full stack (.object []))
  | colon stack before symbols, .colon => some (value (.members before symbols :: stack) false)
  | full (.items before :: stack) v, .comma => some (value (.items (v :: before) :: stack) false)
  | full (.items before :: stack) v, .listClose => some (full stack (.list (v :: before).reverse))
  | full (.members before symbols :: stack) v, .comma =>
    some (name stack ((symbols, v) :: before) false)
  | full (.members before symbols :: stack) v, .objectClose =>
    some (full stack (.object ((symbols, v) :: before).reverse))
  | _, _ => none

/-- Reads more tokens, one after the other. -/
def run (p : Progress) (ts : List Token) : Option Progress := ts.foldlM step p

end Progress

/-- The value that a list of tokens stands for. -/
def Value.ofTokens? (ts : List Token) : Option Value := do
  match ← Progress.run (.value [] false) ts with
  | .full [] v => return v
  | _ => none

/-- The value of a text. -/
def Value.parse? (text : String) : Option Value := do
  Value.ofTokens? (← tokens text.toList)

end LaneAuction.Json
