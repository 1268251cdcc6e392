import LaneAuction.Pool.Index

/-!
# The pool

The pending transactions, and for each kind of lane an index that orders its own. Admissions refuse
what is pending already; a bid takes the place of the pending bid under the same key if it raises
the price by the increment, and that bid stays where it was if the new one is refused.
-/

namespace LaneAuction

/-- Pending transactions and their order in each lane. -/
structure Pool where
  arena : Arena
  auction : LaneIndex
  free : LaneIndex
  base : LaneIndex
  ranking : Ranking

/-- A step on a pool. The pool it leaves is kept when it fails. -/
abbrev PoolAction := ExceptT Rejection (StateM Pool)

namespace Pool

/-- A pool that holds nothing. -/
def ofRanking (ranking : Ranking) : Pool := ⟨.empty, .empty, .empty, .empty, ranking⟩

instance : Inhabited Pool := ⟨ofRanking default⟩

/-- The index of a kind of lane. -/
def index (p : Pool) : LaneKind → LaneIndex
  | .auction => p.auction
  | .free => p.free
  | .base => p.base

/-- Replaces the index of a kind of lane. -/
def setIndex (p : Pool) (kind : LaneKind) (index : LaneIndex) : Pool :=
  match kind with
  | .auction => { p with auction := index }
  | .free => { p with free := index }
  | .base => { p with base := index }

/-- The pending transactions in the order of a lane. -/
def ordered (p : Pool) (kind : LaneKind) : List PendingTx :=
  (p.index kind).toList.filterMap p.arena.get?

/-- Keeps an arena that holds the given hash, and puts the hash at its position in a lane. -/
def place (kind : LaneKind) (hash : Hash) (added : Except Rejection Arena) : PoolAction Unit := do
  let arena ← added
  modify fun p =>
    let p := { p with arena }
    match arena.get? hash with
    | some r => p.setIndex kind ((p.index kind).insert (p.ranking.position r) hash)
    | none => p

/-- Adds a transaction to its lane. -/
def insert (r : PendingTx) : PoolAction Unit := do
  place r.lane r.hash ((← get).arena.insert r)

/-- Takes a pending bid out of the auction lane. -/
def dropBid (p : Pool) (hash : Hash) : Pool :=
  match p.arena.remove hash with
  | some (_, arena) => { p with arena, auction := p.auction.erase hash }
  | none => { p with auction := p.auction.erase hash }

/-- Adds a bid in place of a pending one, which comes back if the new bid is refused. -/
def replaceBid (r old : PendingTx) : PoolAction Unit := do
  -- The old bid goes first: no two pending bids share a key.
  modify (·.dropBid old.hash)
  tryCatch (do place .auction r.hash ((← get).arena.insert r)) fun e => do
    -- Taking the old bid out left its place free, so it can always come back.
    tryCatch (do place .auction old.hash ((← get).arena.restore old)) fun _ => pure ()
    throw e

/-- Adds a bid, of which at most `maxPending` may be pending; zero stands for any number. A bid
under the key of a pending one has to raise its price by the increment and replaces it: the hash of
the replaced bid is returned. -/
def insertBid (r : PendingTx) (increment : Coin) (maxPending : Nat) :
    PoolAction (Option Hash) := do
  match r.bid with
  | none => throw (.malformed .notABid)
  | some bid =>
    let p ← get
    match p.arena.bid? bid.key with
    | some old =>
      if let some previous := old.bid then checkIncrement bid.price previous.price increment
      replaceBid r old
      return some old.hash
    | none =>
      -- A replacement needs no room; a new key does.
      if 0 < maxPending ∧ maxPending ≤ p.auction.size then throw (.laneFull "auction")
      place .auction r.hash (p.arena.insert r)
      return none

/-- Takes out the transaction with a hash, if it is pending. -/
def remove? (p : Pool) (hash : Hash) : Option (PendingTx × Pool) :=
  (p.arena.remove hash).map fun (r, arena) =>
    (r, { p with arena }.setIndex r.lane ((p.index r.lane).erase hash))

/-- The pool without the transaction with a hash. -/
def erase (p : Pool) (hash : Hash) : Pool := ((p.remove? hash).map Prod.snd).getD p

/-- The pool without the transactions with the given hashes. -/
def eraseAll (p : Pool) (hashes : List Hash) : Pool := hashes.foldl erase p

/-- The number of given hashes that are pending. -/
def countPending (p : Pool) (hashes : List Hash) : Nat :=
  (Std.ExtTreeSet.ofList hashes).toList.countP p.arena.isPending

/-- The pool without the pending bids whose bundle holds one of the hashes. -/
def dropOverlapping (p : Pool) (hashes : List Hash) : Pool :=
  (p.arena.overlapping hashes).foldl dropBid p

/-- The pool without the pending bids that may no longer be included at a height. -/
def dropExpired (p : Pool) (height : UInt64) : Pool := (p.arena.expired height).foldl dropBid p

end Pool

end LaneAuction
