/-!
# BLAKE3

The 256-bit digest of a byte string. The input is cut into chunks of 1024 bytes, which are the
leaves of a binary tree; every node of the tree is one last compression whose flags say what the
node is, and the digest is the output of the root. Joining neighbours level by level, an odd one
at the end going up as it is, gives the tree whose left branches are full.
-/

namespace RowStream.Blake3

/-- Eight words that stand for what has been hashed so far. -/
abbrev Chaining := Array UInt32

/-- The fractional parts of the square roots of the first eight primes. -/
def initial : Chaining := #[
  0x6a09e667, 0xbb67ae85, 0x3c6ef372, 0xa54ff53a, 0x510e527f, 0x9b05688c, 0x1f83d9ab, 0x5be0cd19]

/-- Where each word of the next round's message comes from. -/
def schedule : List Nat := [2, 6, 3, 10, 7, 0, 4, 13, 1, 11, 12, 5, 9, 14, 15, 8]

def chunkStart : UInt32 := 1
def chunkEnd : UInt32 := 2
def parentFlag : UInt32 := 4
def rootFlag : UInt32 := 8

def rotateRight (x : UInt32) (n : UInt32) : UInt32 := (x >>> n) ||| (x <<< (32 - n))

/-- Mixes two message words into four words of the state. -/
def mix (s : Array UInt32) (a b c d : Nat) (x y : UInt32) : Array UInt32 :=
  let va := s.getD a 0
  let vb := s.getD b 0
  let vc := s.getD c 0
  let vd := s.getD d 0
  let va := va + vb + x
  let vd := rotateRight (vd ^^^ va) 16
  let vc := vc + vd
  let vb := rotateRight (vb ^^^ vc) 12
  let va := va + vb + y
  let vd := rotateRight (vd ^^^ va) 8
  let vc := vc + vd
  let vb := rotateRight (vb ^^^ vc) 7
  (((s.setIfInBounds a va).setIfInBounds b vb).setIfInBounds c vc).setIfInBounds d vd

/-- Mixes the columns and then the diagonals of the state. -/
def round (s m : Array UInt32) : Array UInt32 :=
  let s := mix s 0 4 8 12 (m.getD 0 0) (m.getD 1 0)
  let s := mix s 1 5 9 13 (m.getD 2 0) (m.getD 3 0)
  let s := mix s 2 6 10 14 (m.getD 4 0) (m.getD 5 0)
  let s := mix s 3 7 11 15 (m.getD 6 0) (m.getD 7 0)
  let s := mix s 0 5 10 15 (m.getD 8 0) (m.getD 9 0)
  let s := mix s 1 6 11 12 (m.getD 10 0) (m.getD 11 0)
  let s := mix s 2 7 8 13 (m.getD 12 0) (m.getD 13 0)
  mix s 3 4 9 14 (m.getD 14 0) (m.getD 15 0)

/-- Rounds with the message reordered between them. -/
def rounds : Nat → Array UInt32 → Array UInt32 → Array UInt32
  | 0, s, _ => s
  | n + 1, s, m => rounds n (round s m) (schedule.map fun i => m.getD i 0).toArray

/-- A compression that has not been carried out yet. -/
structure Node where
  chaining : Chaining
  block : Array UInt32
  counter : UInt64
  length : UInt32
  flags : UInt32

namespace Node

/-- The sixteen words of the compression, with more flags. -/
def compress (n : Node) (more : UInt32) : Array UInt32 :=
  let state := n.chaining ++ initial.extract 0 4 ++
    #[n.counter.toUInt32, (n.counter >>> 32).toUInt32, n.length, n.flags ||| more]
  let mixed := rounds 7 state n.block
  let low := (Array.range 8).map fun i => mixed.getD i 0 ^^^ mixed.getD (i + 8) 0
  let high := (Array.range 8).map fun i => mixed.getD (i + 8) 0 ^^^ n.chaining.getD i 0
  low ++ high

/-- What the node hands to the node above it. -/
def output (n : Node) : Chaining := (n.compress 0).extract 0 8

/-- The node above two nodes. -/
def join (left right : Node) : Node :=
  ⟨initial, left.output ++ right.output, 0, 64, parentFlag⟩

end Node

/-- Cuts a list into pieces of `n`, the last one possibly shorter; the empty list is one piece. -/
def pieces {α : Type} (n : Nat) : (most : Nat) → List α → List (List α)
  | 0, l => [l]
  | most + 1, l =>
    if (l.drop n).isEmpty then [l] else l.take n :: pieces n most (l.drop n)

/-- A word from its bytes, the least significant first. -/
def wordOfBytes (bytes : List UInt8) : UInt32 :=
  bytes.foldr (fun b w => w <<< 8 ||| b.toUInt32) 0

def bytesOfWord (w : UInt32) : List UInt8 :=
  [w.toUInt8, (w >>> 8).toUInt8, (w >>> 16).toUInt8, (w >>> 24).toUInt8]

/-- Sixteen words of a block, filled up with zeros. -/
def blockWords (bytes : List UInt8) : Array UInt32 :=
  let words := ((pieces 4 16 bytes).map wordOfBytes).toArray
  words ++ Array.replicate (16 - words.size) 0

/-- Compresses the blocks of a chunk but for the last, which makes the node. -/
def chunkNode (index : UInt64) (chaining : Chaining) (flags : UInt32) : List (List UInt8) → Node
  | [] => ⟨chaining, blockWords [], index, 0, flags ||| chunkEnd⟩
  | [last] => ⟨chaining, blockWords last, index, last.length.toUInt32, flags ||| chunkEnd⟩
  | block :: rest =>
    let node : Node := ⟨chaining, blockWords block, index, block.length.toUInt32, flags⟩
    chunkNode index node.output 0 rest

/-- The leaves of the tree. -/
def leaves (input : List UInt8) : List Node :=
  (pieces 1024 input.length input).zipIdx.map fun (chunk, i) =>
    chunkNode i.toUInt64 initial chunkStart (pieces 64 16 chunk)

/-- One level of joins. -/
def joinLevel : List Node → List Node
  | left :: right :: rest => left.join right :: joinLevel rest
  | rest => rest

/-- The root above the nodes; the number of levels is bounded by the number of nodes. -/
def root : (levels : Nat) → List Node → Node
  | _, [] => chunkNode 0 initial chunkStart []
  | _, [node] => node
  | 0, node :: _ => node
  | levels + 1, nodes => root levels (joinLevel nodes)

/-- The digest of a byte string. -/
def digest (input : List UInt8) : List UInt8 :=
  let nodes := leaves input
  let words := ((root nodes.length nodes).compress rootFlag).extract 0 8
  words.toList.flatMap bytesOfWord

end RowStream.Blake3
