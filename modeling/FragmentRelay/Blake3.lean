import FragmentRelay.Octets

/-!
# BLAKE3: the hash behind checksums and store keys

The hash cuts its input into chunks of 1024 bytes and a chunk into blocks of 64 bytes. A chunk is
folded block by block into a chaining value of eight words; two chaining values side by side are
the block of their parent, and the left subtree is the largest power of two of chunks that leaves
something for the right. The root is compressed once more with its own flag.

Only the first 32 bytes of the output are needed, so the root yields eight words as every other
node does.

* `length_hash`: the digest has 32 bytes.
-/

namespace FragmentRelay.Blake3

/-! ### Words, blocks and states -/

/-- Eight words: the value passed from one compression to the next. -/
structure Chain where
  (h0 h1 h2 h3 h4 h5 h6 h7 : UInt32)

/-- Sixteen words: a message block or the state of a compression. -/
structure Block where
  (w0 w1 w2 w3 w4 w5 w6 w7 w8 w9 w10 w11 w12 w13 w14 w15 : UInt32)

/-- Four words of a state, one column or one diagonal. -/
structure Column where
  (a b c d : UInt32)

/-- The initial chaining value. -/
def initial : Chain :=
  ⟨0x6A09E667, 0xBB67AE85, 0x3C6EF372, 0xA54FF53A, 0x510E527F, 0x9B05688C, 0x1F83D9AB, 0x5BE0CD19⟩

/-- The first block of a chunk carries this flag. -/
def chunkStart : UInt32 := 1

/-- The last block of a chunk carries this flag. -/
def chunkEnd : UInt32 := 2

/-- A block made of two chaining values carries this flag. -/
def parent : UInt32 := 4

/-- The compression that yields the digest carries this flag. -/
def root : UInt32 := 8

/-- A chunk has this many bytes. -/
def chunkLength : Nat := 1024

/-- A block has this many bytes. -/
def blockLength : Nat := 64

/-! ### Compression -/

/-- The bits of a word rotated to the right. -/
def rotateRight (w : UInt32) (n : UInt32) : UInt32 := (w >>> n) ||| (w <<< (32 - n))

/-- The quarter round: two message words are mixed into a column. -/
def Column.mix (q : Column) (x y : UInt32) : Column :=
  let a := q.a + q.b + x
  let d := rotateRight (q.d ^^^ a) 16
  let c := q.c + d
  let b := rotateRight (q.b ^^^ c) 12
  let a := a + b + y
  let d := rotateRight (d ^^^ a) 8
  let c := c + d
  let b := rotateRight (b ^^^ c) 7
  ⟨a, b, c, d⟩

/-- One round: the four columns, then the four diagonals. -/
def Block.mix (s m : Block) : Block :=
  let p := Column.mix ⟨s.w0, s.w4, s.w8, s.w12⟩ m.w0 m.w1
  let q := Column.mix ⟨s.w1, s.w5, s.w9, s.w13⟩ m.w2 m.w3
  let r := Column.mix ⟨s.w2, s.w6, s.w10, s.w14⟩ m.w4 m.w5
  let t := Column.mix ⟨s.w3, s.w7, s.w11, s.w15⟩ m.w6 m.w7
  let u := Column.mix ⟨p.a, q.b, r.c, t.d⟩ m.w8 m.w9
  let v := Column.mix ⟨q.a, r.b, t.c, p.d⟩ m.w10 m.w11
  let w := Column.mix ⟨r.a, t.b, p.c, q.d⟩ m.w12 m.w13
  let x := Column.mix ⟨t.a, p.b, q.c, r.d⟩ m.w14 m.w15
  ⟨u.a, v.a, w.a, x.a, x.b, u.b, v.b, w.b, w.c, x.c, u.c, v.c, v.d, w.d, x.d, u.d⟩

/-- The order in which the next round takes the message words. -/
def Block.permute (m : Block) : Block :=
  ⟨m.w2, m.w6, m.w3, m.w10, m.w7, m.w0, m.w4, m.w13, m.w1, m.w11, m.w12, m.w5, m.w9,
    m.w14, m.w15, m.w8⟩

/-- A number of rounds, each on the permuted message of the one before. -/
def Block.rounds : Nat → Block → Block → Block
  | 0, s, _ => s
  | n + 1, s, m => rounds n (s.mix m) m.permute

/-- One input of the compression function: what a node of the tree is before it is compressed. -/
structure Node where
  chain : Chain
  block : Block
  counter : UInt64
  length : UInt32
  flags : UInt32

/-- The compression function. -/
def Node.compress (n : Node) : Chain :=
  let c := n.chain
  let s : Block :=
    ⟨c.h0, c.h1, c.h2, c.h3, c.h4, c.h5, c.h6, c.h7, initial.h0, initial.h1, initial.h2, initial.h3,
      n.counter.toUInt32, (n.counter >>> 32).toUInt32, n.length, n.flags⟩
  let s := s.rounds 7 n.block
  ⟨s.w0 ^^^ s.w8, s.w1 ^^^ s.w9, s.w2 ^^^ s.w10, s.w3 ^^^ s.w11, s.w4 ^^^ s.w12, s.w5 ^^^ s.w13,
    s.w6 ^^^ s.w14, s.w7 ^^^ s.w15⟩

/-! ### Chunks -/

/-- The words of a byte string, each from four bytes, the lowest first. -/
def words : Octets → List UInt32
  | a :: b :: c :: d :: r =>
    (a.toUInt32 ||| (b.toUInt32 <<< 8) ||| (c.toUInt32 <<< 16) ||| (d.toUInt32 <<< 24)) :: words r
  | _ => []

/-- A block of at most 64 bytes, filled up with zeros. -/
def Block.ofOctets (bs : Octets) : Block :=
  match words (bs ++ List.replicate (blockLength - bs.length) 0) with
  | [w0, w1, w2, w3, w4, w5, w6, w7, w8, w9, w10, w11, w12, w13, w14, w15] =>
    ⟨w0, w1, w2, w3, w4, w5, w6, w7, w8, w9, w10, w11, w12, w13, w14, w15⟩
  | _ => ⟨0, 0, 0, 0, 0, 0, 0, 0, 0, 0, 0, 0, 0, 0, 0, 0⟩

/-- The node of a chunk: every block but the last is compressed into the chaining value. -/
def chunkNode (counter : UInt64) (chain : Chain) (flags : UInt32) (bs : Octets) : Node :=
  if bs.length ≤ blockLength then
    ⟨chain, Block.ofOctets bs, counter, UInt32.ofNat bs.length, flags ||| chunkEnd⟩
  else
    let first : Node := ⟨chain, Block.ofOctets (bs.take blockLength), counter, 64, flags⟩
    chunkNode counter first.compress 0 (bs.drop blockLength)
termination_by bs.length
decreasing_by simp only [blockLength, List.length_drop] at *; omega

/-! ### The tree -/

/-- The node whose block is the chaining values of its two children. -/
def parentNode (l r : Chain) : Node :=
  ⟨initial, ⟨l.h0, l.h1, l.h2, l.h3, l.h4, l.h5, l.h6, l.h7, r.h0, r.h1, r.h2, r.h3, r.h4,
    r.h5, r.h6, r.h7⟩, 0, 64, parent⟩

/-- The length of the left part of an input of more than one chunk: the largest power of two below
it. -/
def leftLength (n : Nat) : Nat := 1 <<< (n - 1).log2

theorem leftLength_pos (n : Nat) : 0 < leftLength n := by
  rw [leftLength, Nat.one_shiftLeft]
  exact Nat.two_pow_pos _

theorem leftLength_lt {n : Nat} (h : chunkLength < n) : leftLength n < n := by
  have hn : n - 1 ≠ 0 := by simp only [chunkLength] at h; omega
  have := Nat.log2_self_le hn
  simp only [leftLength, chunkLength, Nat.one_shiftLeft] at *
  omega

/-- The node of an input whose first chunk has the given number. -/
def treeNode (counter : Nat) (bs : Octets) : Node :=
  if bs.length ≤ chunkLength then
    chunkNode (UInt64.ofNat counter) initial chunkStart bs
  else
    let left := leftLength bs.length
    parentNode (treeNode counter (bs.take left)).compress
      (treeNode (counter + left / chunkLength) (bs.drop left)).compress
termination_by bs.length
decreasing_by
  · have := leftLength_lt (n := bs.length) (by omega)
    simp only [List.length_take]
    omega
  · have := leftLength_pos bs.length
    simp only [List.length_drop, chunkLength] at *
    omega

/-! ### The digest -/

/-- The four bytes of a word, the lowest first. -/
def wordOctets (w : UInt32) : Octets :=
  [w.toUInt8, (w >>> 8).toUInt8, (w >>> 16).toUInt8, (w >>> 24).toUInt8]

/-- The 32 bytes of a chaining value. -/
def Chain.octets (c : Chain) : Octets :=
  wordOctets c.h0 ++ wordOctets c.h1 ++ wordOctets c.h2 ++ wordOctets c.h3 ++
    wordOctets c.h4 ++ wordOctets c.h5 ++ wordOctets c.h6 ++ wordOctets c.h7

/-- The 32-byte digest of a byte string. -/
def hash (bs : Octets) : Octets :=
  let top := treeNode 0 bs
  { top with flags := top.flags ||| root }.compress.octets

@[simp] theorem length_hash (bs : Octets) : (hash bs).length = 32 := rfl

end FragmentRelay.Blake3
