import Stakebook.Octets
import Stakebook.PairTree

/-!
# The BLAKE3 digest

The digest of a byte string, by the plain mode of BLAKE3 with thirty-two bytes of output. The bytes
are cut into chunks of 1024, each chunk into blocks of 64. The blocks of a chunk are compressed one
after the other into a chaining value of eight words; the chaining values of the chunks are joined
pairwise, and the last compression, marked as the root, gives the digest.
-/

namespace Stakebook.Blake3

/-- Four words that are worked on in parallel. -/
structure Row where
  a : UInt32
  b : UInt32
  c : UInt32
  d : UInt32

namespace Row

/-- Combines two rows word by word. -/
@[inline] def zip (f : UInt32 → UInt32 → UInt32) (x y : Row) : Row :=
  ⟨f x.a y.a, f x.b y.b, f x.c y.c, f x.d y.d⟩

/-- Rotates a word to the right. -/
@[inline] def rotate (n : UInt32) (w : UInt32) : UInt32 := (w >>> n) ||| (w <<< (32 - n))

/-- The exclusive or of two rows, each word rotated to the right. -/
@[inline] def xorRotate (n : UInt32) (x y : Row) : Row := zip (fun u v => rotate n (u ^^^ v)) x y

/-- Moves the words of a row one place to the left, round the end. -/
@[inline] def turn (x : Row) : Row := ⟨x.b, x.c, x.d, x.a⟩

/-- The bytes of a row. -/
def bytes (x : Row) : Bytes :=
  [x.a, x.b, x.c, x.d].flatMap fun w => Bytes.littleEndian 4 w.toNat

end Row

/-- Eight words, the state that is handed from block to block. -/
structure Chain where
  low : Row
  high : Row

/-- Sixteen words of message. -/
structure Block where
  r0 : Row
  r1 : Row
  r2 : Row
  r3 : Row

/-- The state of a compression: a four by four square, row by row. -/
structure Square where
  r0 : Row
  r1 : Row
  r2 : Row
  r3 : Row

/-- The first words of the fractional parts of the square roots of the first eight primes. -/
def initial : Chain :=
  ⟨⟨0x6A09E667, 0xBB67AE85, 0x3C6EF372, 0xA54FF53A⟩,
   ⟨0x510E527F, 0x9B05688C, 0x1F83D9AB, 0x5BE0CD19⟩⟩

/-- The order of the message words in the next round. -/
def Block.shuffle (m : Block) : Block :=
  ⟨⟨m.r0.c, m.r1.c, m.r0.d, m.r2.c⟩, ⟨m.r1.d, m.r0.a, m.r1.a, m.r3.b⟩,
   ⟨m.r0.b, m.r2.d, m.r3.a, m.r1.b⟩, ⟨m.r2.b, m.r3.c, m.r3.d, m.r2.a⟩⟩

/-- Mixes the four columns, with two message words for each. -/
@[inline] def Square.mix (v : Square) (x y : Row) : Square :=
  let r0 := Row.zip (· + ·) (Row.zip (· + ·) v.r0 v.r1) x
  let r3 := Row.xorRotate 16 v.r3 r0
  let r2 := Row.zip (· + ·) v.r2 r3
  let r1 := Row.xorRotate 12 v.r1 r2
  let r0 := Row.zip (· + ·) (Row.zip (· + ·) r0 r1) y
  let r3 := Row.xorRotate 8 r3 r0
  let r2 := Row.zip (· + ·) r2 r3
  let r1 := Row.xorRotate 7 r1 r2
  ⟨r0, r1, r2, r3⟩

/-- Mixes the columns and then the diagonals. -/
def Square.round (v : Square) (m : Block) : Square :=
  let v := v.mix ⟨m.r0.a, m.r0.c, m.r1.a, m.r1.c⟩ ⟨m.r0.b, m.r0.d, m.r1.b, m.r1.d⟩
  let v : Square := ⟨v.r0, v.r1.turn, v.r2.turn.turn, v.r3.turn.turn.turn⟩
  let v := v.mix ⟨m.r2.a, m.r2.c, m.r3.a, m.r3.c⟩ ⟨m.r2.b, m.r2.d, m.r3.b, m.r3.d⟩
  ⟨v.r0, v.r1.turn.turn.turn, v.r2.turn.turn, v.r3.turn⟩

/-- As many rounds, with the message words shuffled between them. -/
def Square.rounds : Nat → Square → Block → Square
  | 0, v, _ => v
  | n + 1, v, m => rounds n (v.round m) m.shuffle

/-- One compression that is still to be run: the same inputs give a chaining value inside the tree
and the digest at its root. -/
structure Node where
  chain : Chain
  block : Block
  counter : Nat
  length : UInt32
  flags : UInt32

/-- Marks of a compression. -/
def chunkStart : UInt32 := 1
@[inherit_doc chunkStart] def chunkEnd : UInt32 := 2
@[inherit_doc chunkStart] def parent : UInt32 := 4
@[inherit_doc chunkStart] def root : UInt32 := 8

/-- Runs a compression, with more marks. -/
def Node.compress (n : Node) (marks : UInt32) : Chain :=
  let v : Square :=
    ⟨n.chain.low, n.chain.high, initial.low,
     ⟨UInt32.ofNat n.counter, UInt32.ofNat (n.counter / 2 ^ 32), n.length, n.flags ||| marks⟩⟩
  let v := v.rounds 7 n.block
  ⟨Row.zip (· ^^^ ·) v.r0 v.r2, Row.zip (· ^^^ ·) v.r1 v.r3⟩

/-- The word at a place of a byte string, counted in words; bytes past the end are zero. -/
def wordAt (bs : Bytes) (i : Nat) : UInt32 := UInt32.ofNat (Bytes.value ((bs.drop (4 * i)).take 4))

/-- The message words of at most 64 bytes. -/
def Block.ofBytes (bs : Bytes) : Block :=
  let row (i : Nat) : Row := ⟨wordAt bs i, wordAt bs (i + 1), wordAt bs (i + 2), wordAt bs (i + 3)⟩
  ⟨row 0, row 4, row 8, row 12⟩

/-- A nonempty list of pieces of `size` bytes, the last one shorter if need be. The first argument
bounds the number of cuts. -/
def pieces (size : Nat) : Nat → Bytes → List Bytes
  | 0, bs => [bs]
  | n + 1, bs => if bs.length ≤ size then [bs] else bs.take size :: pieces size n (bs.drop size)

/-- The last compression of a chunk, all earlier blocks being compressed. -/
def chunkNode (counter : Nat) : Chain → UInt32 → List Bytes → Node
  | chain, flags, [] => ⟨chain, .ofBytes [], counter, 0, flags ||| chunkEnd⟩
  | chain, flags, [last] =>
    ⟨chain, .ofBytes last, counter, UInt32.ofNat last.length, flags ||| chunkEnd⟩
  | chain, flags, block :: rest =>
    chunkNode counter
      ((Node.mk chain (.ofBytes block) counter (UInt32.ofNat block.length) flags).compress 0) 0 rest

/-- The compression that joins two others. -/
def join (x y : Node) : Node :=
  let x := x.compress 0
  let y := y.compress 0
  ⟨initial, ⟨x.low, x.high, y.low, y.high⟩, 0, 64, parent⟩

/-- The compression whose output as root is the digest. -/
def top (data : Bytes) : Node :=
  let nodes := (pieces 1024 (data.length / 1024) data).zipIdx.map fun (chunk, i) =>
    chunkNode i initial chunkStart (pieces 64 16 chunk)
  (PairTree.fold? join nodes).getD (chunkNode 0 initial chunkStart [])

@[simp] theorem Row.length_bytes (x : Row) : x.bytes.length = 16 := by
  simp [Row.bytes]

/-- The digest of a byte string. -/
def digest (data : Bytes) : Digest :=
  let out := (top data).compress root
  ⟨out.low.bytes ++ out.high.bytes, by simp⟩

end Stakebook.Blake3
