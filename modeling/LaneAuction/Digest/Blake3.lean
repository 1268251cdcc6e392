import LaneAuction.Bytes

/-!
# BLAKE3

The 32-byte BLAKE3 digest that names transactions. The input is cut into chunks of 1024 bytes, each
digested block by block; chunks are joined pairwise into a binary tree whose left subtrees are full,
and the root node is compressed once more under its own flag.
-/

namespace LaneAuction.Blake3

/-- Eight words: a chaining value. -/
abbrev Chain := Vector UInt32 8

/-- Sixteen words: a message block, or the state of the compression. -/
abbrev Block := Vector UInt32 16

/-- The words that start every chain. -/
def start : Chain :=
  #v[0x6a09e667, 0xbb67ae85, 0x3c6ef372, 0xa54ff53a, 0x510e527f, 0x9b05688c, 0x1f83d9ab, 0x5be0cd19]

def chunkStart : UInt32 := 1
def chunkEnd : UInt32 := 2
def parent : UInt32 := 4
def root : UInt32 := 8

/-- Where each message word of the next round is taken from. -/
def schedule : Vector (Fin 16) 16 := #v[2, 6, 3, 10, 7, 0, 4, 13, 1, 11, 12, 5, 9, 14, 15, 8]

/-- Turns a word to the right by `n` bits. -/
def turn (x n : UInt32) : UInt32 := (x >>> n) ||| (x <<< (32 - n))

/-- Mixes two message words into four words of the state. -/
def mix (s : Block) (a b c d : Fin 16) (x y : UInt32) : Block :=
  let s := s.set a (s[a] + s[b] + x)
  let s := s.set d (turn (s[d] ^^^ s[a]) 16)
  let s := s.set c (s[c] + s[d])
  let s := s.set b (turn (s[b] ^^^ s[c]) 12)
  let s := s.set a (s[a] + s[b] + y)
  let s := s.set d (turn (s[d] ^^^ s[a]) 8)
  let s := s.set c (s[c] + s[d])
  s.set b (turn (s[b] ^^^ s[c]) 7)

/-- One round: the columns of the state, then its diagonals. -/
def round (s m : Block) : Block :=
  let s := mix s 0 4 8 12 m[0] m[1]
  let s := mix s 1 5 9 13 m[2] m[3]
  let s := mix s 2 6 10 14 m[4] m[5]
  let s := mix s 3 7 11 15 m[6] m[7]
  let s := mix s 0 5 10 15 m[8] m[9]
  let s := mix s 1 6 11 12 m[10] m[11]
  let s := mix s 2 7 8 13 m[12] m[13]
  mix s 3 4 9 14 m[14] m[15]

/-- A number of rounds, the message words rescheduled after each. -/
def rounds : Nat → Block → Block → Block
  | 0, s, _ => s
  | n + 1, s, m => rounds n (round s m) (Vector.ofFn fun i => m[schedule[i]])

/-- A node of the tree: what its compression takes in. -/
structure Node where
  chain : Chain
  block : Block
  counter : UInt64
  length : UInt32
  flags : UInt32

/-- The chaining value of a node. -/
def Node.compress (n : Node) : Chain :=
  -- The second half of the state holds start words and the node's own data.
  let s : Block := n.chain ++ #v[start[0], start[1], start[2], start[3],
    n.counter.toUInt32, (n.counter >>> 32).toUInt32, n.length, n.flags]
  let s := rounds 7 s n.block
  -- Only the first half of the output is needed: both halves are folded into it.
  Vector.ofFn fun i : Fin 8 => s[i.val] ^^^ s[i.val + 8]

/-- The words of at most 64 bytes, the missing ones zero. -/
def blockOf (bs : Bytes) : Block :=
  Vector.ofFn fun i => UInt32.ofNat (Bytes.toNat ((bs.drop (4 * i.val)).take 4))

/-- The node of the last block of a chunk, reached from a chaining value. -/
def chunkNode (counter : UInt64) (chain : Chain) (flags : UInt32) (bs : Bytes) : Node :=
  if 64 < bs.length then
    let head : Node := ⟨chain, blockOf (bs.take 64), counter, 64, flags⟩
    -- The flag of a chunk's start stands on its first block only.
    chunkNode counter head.compress 0 (bs.drop 64)
  else ⟨chain, blockOf bs, counter, UInt32.ofNat bs.length, flags ||| chunkEnd⟩
termination_by bs.length
decreasing_by simp only [List.length_drop]; omega

/-- The bytes under the left child of a node over more than one chunk: the largest power of two of
chunks that leaves something to the right. -/
def leftLength (n : Nat) : Nat := 1024 <<< Nat.log2 ((n - 1) / 1024)

/-- The left part of a message is not empty. -/
private theorem leftLength_pos (n : Nat) : 0 < leftLength n := by
  have := Nat.two_pow_pos (Nat.log2 ((n - 1) / 1024))
  rw [leftLength, Nat.shiftLeft_eq]
  omega

/-- The left part of a message of several chunks is not the whole of it. -/
private theorem leftLength_lt {n : Nat} (h : 1024 < n) : leftLength n < n := by
  have hlog : 2 ^ Nat.log2 ((n - 1) / 1024) ≤ (n - 1) / 1024 := Nat.log2_self_le (by omega)
  rw [leftLength, Nat.shiftLeft_eq]
  omega

/-- The node over some bytes that begin with the chunk of the given number. -/
def node (counter : Nat) (bs : Bytes) : Node :=
  if _h : 1024 < bs.length then
    -- The left subtree is full; the chunks to the right are counted on from it.
    let n := leftLength bs.length
    let left := (node counter (bs.take n)).compress
    let right := (node (counter + n / 1024) (bs.drop n)).compress
    ⟨start, left ++ right, 0, 64, parent⟩
  else chunkNode (UInt64.ofNat counter) start chunkStart bs
termination_by bs.length
decreasing_by
  · have := leftLength_lt _h
    simp only [List.length_take]
    omega
  · have := leftLength_pos bs.length
    simp only [List.length_drop]
    omega

/-- The bytes of a chaining value, word by word. -/
def bytesOf (c : Chain) : Bytes := c.toList.flatMap fun w => Bytes.ofNat 4 w.toNat

/-- The digest of a byte string. -/
def hash (bs : Bytes) : Hash :=
  -- The root is compressed under its own flag, and its counter is that of the output block.
  let top := node 0 bs
  ⟨bytesOf { top with counter := 0, flags := top.flags ||| root }.compress, by
    simp [bytesOf, List.length_flatMap, List.map_const']⟩

end LaneAuction.Blake3
