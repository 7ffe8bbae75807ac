/-!
# The BLAKE3 digest

Bytes are cut into chunks of 1024, each chunk into blocks of 64. A chunk is compressed block
by block, and the chunks are joined pairwise in a binary tree whose left subtrees are full.

A `Node` is a compression that has not been carried out yet: the last one of a chunk or that
of a parent. Inside the tree it gives a chaining value, at the root the digest; the two differ
in one flag only.
-/

namespace FactGraph.Digest

-- Powers are those of the core library, whatever else is in scope.
attribute [local instance (high)] instPowNat

abbrev Words (n : Nat) := Vector UInt32 n

def initial : Words 8 :=
  #v[0x6A09E667, 0xBB67AE85, 0x3C6EF372, 0xA54FF53A, 0x510E527F, 0x9B05688C, 0x1F83D9AB,
     0x5BE0CD19]

def chunkStart : UInt32 := 1
def chunkEnd : UInt32 := 2
def parentNode : UInt32 := 4
def rootNode : UInt32 := 8

def chunkSize : Nat := 1024
def blockSize : Nat := 64

/-! ## Compression -/

def rotateRight (w n : UInt32) : UInt32 := (w >>> n) ||| (w <<< (32 - n))

/-- Mixes two message words into four words of the state. -/
def mix (v : Words 16) (a b c d : Fin 16) (x y : UInt32) : Words 16 :=
  let v := v.set a (v[a] + v[b] + x)
  let v := v.set d (rotateRight (v[d] ^^^ v[a]) 16)
  let v := v.set c (v[c] + v[d])
  let v := v.set b (rotateRight (v[b] ^^^ v[c]) 12)
  let v := v.set a (v[a] + v[b] + y)
  let v := v.set d (rotateRight (v[d] ^^^ v[a]) 8)
  let v := v.set c (v[c] + v[d])
  v.set b (rotateRight (v[b] ^^^ v[c]) 7)

/-- Mixes a block into the columns and then into the diagonals of the state. -/
def mixBlock (v m : Words 16) : Words 16 :=
  let v := mix v 0 4 8 12 m[0] m[1]
  let v := mix v 1 5 9 13 m[2] m[3]
  let v := mix v 2 6 10 14 m[4] m[5]
  let v := mix v 3 7 11 15 m[6] m[7]
  let v := mix v 0 5 10 15 m[8] m[9]
  let v := mix v 1 6 11 12 m[10] m[11]
  let v := mix v 2 7 8 13 m[12] m[13]
  mix v 3 4 9 14 m[14] m[15]

/-- The order in which the next round takes the words of a block. -/
def permute (m : Words 16) : Words 16 :=
  #v[m[2], m[6], m[3], m[10], m[7], m[0], m[4], m[13], m[1], m[11], m[12], m[5], m[9], m[14],
     m[15], m[8]]

def mixRounds : Nat → Words 16 → Words 16 → Words 16
  | 0, v, _ => v
  | n + 1, v, m => mixRounds n (mixBlock v m) (permute m)

/-- A compression that is still to be carried out. -/
structure Node where
  chaining : Words 8
  block : Words 16
  counter : Nat
  length : Nat
  flags : UInt32

/-- The first half of the output of a compression. -/
def Node.compress (n : Node) : Words 8 :=
  let h := n.chaining
  let v : Words 16 :=
    #v[h[0], h[1], h[2], h[3], h[4], h[5], h[6], h[7], initial[0], initial[1], initial[2],
       initial[3], UInt32.ofNat n.counter, UInt32.ofNat (n.counter / 2 ^ (32 : Nat)),
       UInt32.ofNat n.length, n.flags]
  let v := mixRounds 7 v n.block
  #v[v[0] ^^^ v[8], v[1] ^^^ v[9], v[2] ^^^ v[10], v[3] ^^^ v[11], v[4] ^^^ v[12],
     v[5] ^^^ v[13], v[6] ^^^ v[14], v[7] ^^^ v[15]]

def Node.root (n : Node) : Words 8 := { n with flags := n.flags ||| rootNode }.compress

/-! ## Blocks, chunks and the tree -/

/-- The `i`-th word of a block, low byte first; bytes past the end are zero. -/
def wordAt (bytes : Array UInt8) (i : Nat) : UInt32 :=
  let byte (k : Nat) : UInt32 := (bytes[4 * i + k]?.getD 0).toUInt32
  byte 0 ||| (byte 1 <<< 8) ||| (byte 2 <<< 16) ||| (byte 3 <<< 24)

def blockWords (bytes : List UInt8) : Words 16 :=
  let bytes := bytes.toArray
  Vector.ofFn fun i => wordAt bytes i

/-- The pieces of a list, `size` elements each but the last; an empty list is one piece. -/
def pieces (size : Nat) (bytes : List UInt8) : List (List UInt8) :=
  if size = 0 ∨ bytes.length ≤ size then [bytes]
  else bytes.take size :: pieces size (bytes.drop size)
termination_by bytes.length
decreasing_by rw [List.length_drop]; omega

/-- Compresses the blocks of a chunk up to the last one. -/
def chunkFrom (counter : Nat) (chaining : Words 8) (start : UInt32) :
    List (List UInt8) → Node
  | [] => ⟨chaining, blockWords [], counter, 0, start ||| chunkEnd⟩
  | [block] => ⟨chaining, blockWords block, counter, block.length, start ||| chunkEnd⟩
  | block :: rest =>
    let node : Node := ⟨chaining, blockWords block, counter, block.length, start⟩
    chunkFrom counter node.compress 0 rest

def chunk (counter : Nat) (bytes : List UInt8) : Node :=
  chunkFrom counter initial chunkStart (pieces blockSize bytes)

def parent (left right : Node) : Node :=
  ⟨initial, left.compress ++ right.compress, 0, blockSize, parentNode⟩

/-- The tree over chunks of which the first is number `counter`: the left subtree holds the
largest power of two that is less than their number. -/
def tree (counter : Nat) (chunks : List (List UInt8)) : Node :=
  if chunks.length ≤ 1 then chunk counter (chunks.head?.getD [])
  else
    let left := 2 ^ (chunks.length - 1).log2
    parent (tree counter (chunks.take left)) (tree (counter + left) (chunks.drop left))
termination_by chunks.length
decreasing_by
  · have := Nat.log2_self_le (n := chunks.length - 1) (by omega)
    simp only [List.length_take]
    omega
  · have := Nat.two_pow_pos (chunks.length - 1).log2
    simp only [List.length_drop]
    omega

/-- The first half of the digest, as words. -/
def ofBytes (bytes : List UInt8) : Words 8 := (tree 0 (pieces chunkSize bytes)).root

/-! ## Text of a digest -/

def hexDigit (n : Nat) : Char := Nat.digitChar (n % 16)

/-- The eight hexadecimal digits of a word, low byte first. -/
def hexOfWord (w : UInt32) : List Char :=
  (List.range 4).flatMap fun k =>
    let byte := w.toNat / 256 ^ k
    [hexDigit (byte / 16), hexDigit byte]

/-- The first sixteen hexadecimal digits of the digest. -/
def stem (bytes : List UInt8) : List Char :=
  let words := ofBytes bytes
  hexOfWord words[0] ++ hexOfWord words[1]

end FactGraph.Digest
