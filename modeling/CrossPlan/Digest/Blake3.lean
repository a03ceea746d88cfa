/-!
# The BLAKE3 digest

Input is cut into chunks of 1024 bytes and these into blocks of 64 bytes.  Each chunk is compressed
block by block; the chunks are the leaves of a binary tree whose left subtrees are complete.  Under
a context the key of the digest is the digest of the context itself.
-/

set_option autoImplicit false

namespace CrossPlan.Blake3

/-- Eight words that are carried from block to block and from child to parent. -/
abbrev Chain := Array UInt32

def initialChain : Chain :=
  #[0x6A09E667, 0xBB67AE85, 0x3C6EF372, 0xA54FF53A, 0x510E527F, 0x9B05688C, 0x1F83D9AB, 0x5BE0CD19]

/-- Where each word of a block stands in the next round. -/
def reorder : Array Nat := #[2, 6, 3, 10, 7, 0, 4, 13, 1, 11, 12, 5, 9, 14, 15, 8]

def chunkStart : UInt32 := 1
def chunkEnd : UInt32 := 2
def parentNode : UInt32 := 4
def rootNode : UInt32 := 8
def contextKey : UInt32 := 32
def keyedMaterial : UInt32 := 64

def word (words : Array UInt32) (i : Nat) : UInt32 := words.getD i 0

def rotateRight (x : UInt32) (amount : UInt32) : UInt32 :=
  (x >>> amount) ||| (x <<< (32 - amount))

def mix (state : Array UInt32) (a b c d : Nat) (x y : UInt32) : Array UInt32 :=
  let va := word state a + word state b + x
  let vd := rotateRight (word state d ^^^ va) 16
  let vc := word state c + vd
  let vb := rotateRight (word state b ^^^ vc) 12
  let va := va + vb + y
  let vd := rotateRight (vd ^^^ va) 8
  let vc := vc + vd
  let vb := rotateRight (vb ^^^ vc) 7
  (((state.setIfInBounds a va).setIfInBounds b vb).setIfInBounds c vc).setIfInBounds d vd

def round (state block : Array UInt32) : Array UInt32 :=
  let entry (i : Nat) := word block i
  let state := mix state 0 4 8 12 (entry 0) (entry 1)
  let state := mix state 1 5 9 13 (entry 2) (entry 3)
  let state := mix state 2 6 10 14 (entry 4) (entry 5)
  let state := mix state 3 7 11 15 (entry 6) (entry 7)
  let state := mix state 0 5 10 15 (entry 8) (entry 9)
  let state := mix state 1 6 11 12 (entry 10) (entry 11)
  let state := mix state 2 7 8 13 (entry 12) (entry 13)
  mix state 3 4 9 14 (entry 14) (entry 15)

def rounds : Nat → Array UInt32 → Array UInt32 → Array UInt32
  | 0, state, _ => state
  | n + 1, state, block => rounds n (round state block) (reorder.map (word block))

/-- What is compressed last in a chunk or at an inner node. -/
structure Node where
  chain : Chain
  block : Array UInt32
  counter : Nat
  length : UInt32
  flags : UInt32

def Node.compress (node : Node) : Chain :=
  let state := node.chain ++ initialChain.extract 0 4 ++
    #[UInt32.ofNat node.counter, UInt32.ofNat (node.counter / 0x100000000), node.length,
      node.flags]
  let state := rounds 7 state node.block
  ((Array.range 8).map fun i => word state i ^^^ word state (i + 8))

/-- Four bytes as a word, the lowest first; bytes beyond the end are zero. -/
def wordAt (bytes : ByteArray) (start : Nat) : UInt32 :=
  let byte (i : Nat) : UInt32 := (bytes.data.getD (start + i) 0).toUInt32
  byte 0 ||| (byte 1 <<< 8) ||| (byte 2 <<< 16) ||| (byte 3 <<< 24)

def blockAt (bytes : ByteArray) (start : Nat) : Array UInt32 :=
  (Array.range 16).map fun i => wordAt bytes (start + 4 * i)

/-- The last node of a chunk; `steps` blocks before the last one are compressed on the way. -/
def chunkNode (key : Chain) (flags : UInt32) (chunk : ByteArray) (counter : Nat) : Node :=
  let steps := (chunk.size - 1) / 64
  let chain := (List.range steps).foldl (fun chain i =>
    let flags := if i = 0 then flags ||| chunkStart else flags
    (Node.mk chain (blockAt chunk (64 * i)) counter 64 flags).compress) key
  let flags := if steps = 0 then flags ||| chunkStart else flags
  ⟨chain, blockAt chunk (64 * steps), counter, UInt32.ofNat (chunk.size - 64 * steps),
    flags ||| chunkEnd⟩

/-- The greatest power of two below a number of leaves. -/
def leftCount (count : Nat) : Nat := Nat.pow 2 (count - 1).log2

theorem leftCount_pos (count : Nat) : 0 < leftCount count := Nat.two_pow_pos _

theorem leftCount_lt {n : Nat} (two : 2 ≤ n) : leftCount n < n := by
  have below := Nat.log2_self_le (n := n - 1) (by omega)
  exact Nat.lt_of_le_of_lt below (by omega)

/-- The topmost node of the tree over some leaves. -/
def tree (key : Chain) (flags : UInt32) (empty : Node) (leaves : List Node) : Node :=
  match leaves with
  | [] => empty
  | [leaf] => leaf
  | first :: second :: rest =>
    let count := leftCount (first :: second :: rest).length
    let left := tree key flags empty ((first :: second :: rest).take count)
    let right := tree key flags empty ((first :: second :: rest).drop count)
    ⟨key, left.compress ++ right.compress, 0, 64, flags ||| parentNode⟩
termination_by leaves.length
decreasing_by
  · have := leftCount_lt (n := (first :: second :: rest).length) (by simp)
    simp only [List.length_take]
    omega
  · have := leftCount_pos (first :: second :: rest).length
    simp only [List.length_drop, List.length_cons] at *
    omega

/-- The chaining value of a whole input. -/
def digestWords (key : Chain) (flags : UInt32) (input : ByteArray) : Chain :=
  let count := max 1 ((input.size + 1023) / 1024)
  let leaves := (List.range count).map fun i =>
    chunkNode key flags (input.extract (1024 * i) (1024 * (i + 1))) i
  let top := tree key flags (chunkNode key flags ByteArray.empty 0) leaves
  { top with flags := top.flags ||| rootNode }.compress

def wordBytes (w : UInt32) : List UInt8 :=
  [w.toUInt8, (w >>> 8).toUInt8, (w >>> 16).toUInt8, (w >>> 24).toUInt8]

/-- The 32 bytes of the digest of some input under a context. -/
def deriveKey (context : String) (input : ByteArray) : List UInt8 :=
  let key := digestWords initialChain contextKey context.toUTF8
  (digestWords key keyedMaterial input).toList.flatMap wordBytes

end CrossPlan.Blake3
