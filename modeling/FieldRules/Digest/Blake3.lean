/-!
# The BLAKE3 digest

The digest of a byte string, without a key.  The bytes are cut into chunks of 1024
bytes and these into blocks of 64 bytes.  The blocks of a chunk are compressed one
after another, each from the chaining value before it; the chunks are the leaves of
a binary tree, which is built from the bottom by pairing neighbours.  What is left
at the root is compressed once more as the digest.
-/

namespace FieldRules
namespace Blake3

/-- Four words, on which all operations work side by side. -/
structure Row where
  a : UInt32
  b : UInt32
  c : UInt32
  d : UInt32
deriving DecidableEq, Repr

namespace Row

/-- Applies an operation to every word of a row. -/
def map (f : UInt32 → UInt32) (r : Row) : Row :=
  ⟨f r.a, f r.b, f r.c, f r.d⟩

/-- Applies an operation to the words of two rows. -/
def zipWith (f : UInt32 → UInt32 → UInt32) (r s : Row) : Row :=
  ⟨f r.a s.a, f r.b s.b, f r.c s.c, f r.d s.d⟩

def add : Row → Row → Row := zipWith (· + ·)

def xor : Row → Row → Row := zipWith (· ^^^ ·)

def rotateRight (n : UInt32) : Row → Row :=
  map fun w => (w >>> n) ||| (w <<< (32 - n))

/-- Moves every word one place to the left. -/
def turn (r : Row) : Row :=
  ⟨r.b, r.c, r.d, r.a⟩

def words (r : Row) : List UInt32 :=
  [r.a, r.b, r.c, r.d]

end Row

/-- The words of a block. -/
abbrev Message := Vector UInt32 16

/-- What is handed from one compression to the next. -/
structure Chaining where
  first : Row
  second : Row
deriving DecidableEq, Repr

/-- The chaining value that everything starts from. -/
def start : Chaining :=
  ⟨⟨0x6a09e667, 0xbb67ae85, 0x3c6ef372, 0xa54ff53a⟩,
    ⟨0x510e527f, 0x9b05688c, 0x1f83d9ab, 0x5be0cd19⟩⟩

/-- The state of a compression, as a square of words. -/
structure State where
  first : Row
  second : Row
  third : Row
  fourth : Row

namespace State

/-- Mixes one word of the message into every column. -/
def mixHalf (m : Row) (left right : UInt32) (s : State) : State :=
  let first := (s.first.add s.second).add m
  let fourth := (s.fourth.xor first).rotateRight left
  let third := s.third.add fourth
  let second := (s.second.xor third).rotateRight right
  ⟨first, second, third, fourth⟩

/-- Mixes two words of the message into every column. -/
def mix (m n : Row) (s : State) : State :=
  (s.mixHalf m 16 12).mixHalf n 8 7

/-- Moves the diagonals into the columns. -/
def slant (s : State) : State :=
  ⟨s.first, s.second.turn, s.third.turn.turn, s.fourth.turn.turn.turn⟩

/-- Moves the columns back into the diagonals. -/
def unslant (s : State) : State :=
  ⟨s.first, s.second.turn.turn.turn, s.third.turn.turn, s.fourth.turn⟩

/-- One round: the columns and then the diagonals. -/
def round (m : Message) (s : State) : State :=
  let columns := s.mix ⟨m[0], m[2], m[4], m[6]⟩ ⟨m[1], m[3], m[5], m[7]⟩
  (columns.slant.mix ⟨m[8], m[10], m[12], m[14]⟩ ⟨m[9], m[11], m[13], m[15]⟩).unslant

end State

/-- The places that the words of a message come from in the next round. -/
def permutation : Vector (Fin 16) 16 :=
  #v[2, 6, 3, 10, 7, 0, 4, 13, 1, 11, 12, 5, 9, 14, 15, 8]

/-- Permutes a message between two rounds. -/
def permute (m : Message) : Message :=
  permutation.map fun i => m[i]

/-- A number of rounds with a message that is permuted after each. -/
def rounds : Nat → Message → State → State
  | 0, _, s => s
  | n + 1, m, s => rounds n (permute m) (s.round m)

/-- A block that is ready to be compressed. -/
structure Node where
  chaining : Chaining
  message : Message
  counter : UInt64
  length : UInt32
  flags : UInt32

/-- The flag of the first block of a chunk. -/
def chunkStart : UInt32 := 1

def chunkEnd : UInt32 := 2

def inner : UInt32 := 4

/-- The flag of the last compression. -/
def root : UInt32 := 8

def Node.compress (n : Node) : Chaining :=
  let counter : Row :=
    ⟨n.counter.toUInt32, (n.counter >>> 32).toUInt32, n.length, n.flags⟩
  let s := rounds 7 n.message ⟨n.chaining.first, n.chaining.second, start.first, counter⟩
  ⟨s.first.xor s.third, s.second.xor s.fourth⟩

/-- Cuts a list into pieces of a size; only the last piece may be shorter. -/
def pieces {α : Type} (size : Nat) (s : List α) : List (List α) :=
  if _h : 0 < size ∧ size < s.length then s.take size :: pieces size (s.drop size) else [s]
termination_by s.length
decreasing_by
  simp only [List.length_drop]
  omega

/-- The number that bytes denote, the lowest byte first. -/
def wordOf : List UInt8 → UInt32
  | [] => 0
  | b :: bs => b.toUInt32 ||| (wordOf bs <<< 8)

/-- The words of at most 64 bytes, filled up with zeros. -/
def messageOf (block : List UInt8) : Message :=
  let words := (pieces 4 block).map wordOf
  Vector.ofFn fun i => words.getD i 0

/-- The last block of a chunk, after the blocks before it have been compressed. -/
def chunkNode (counter : UInt64) (chaining : Chaining) (flags : UInt32) :
    List (List UInt8) → Node
  | [] => ⟨chaining, messageOf [], counter, 0, flags ||| chunkEnd⟩
  | [b] => ⟨chaining, messageOf b, counter, b.length.toUInt32, flags ||| chunkEnd⟩
  | b :: bs =>
      let node : Node := ⟨chaining, messageOf b, counter, b.length.toUInt32, flags⟩
      chunkNode counter node.compress 0 bs

/-- The nodes of chunks whose first one has the given number. -/
def chunkNodes (counter : UInt64) : List (List UInt8) → List Node
  | [] => []
  | c :: cs =>
      chunkNode counter start chunkStart (pieces 64 c) :: chunkNodes (counter + 1) cs

/-- The node above two nodes. -/
def join (left right : Node) : Node :=
  let l := left.compress
  let r := right.compress
  let words := l.first.words ++ l.second.words ++ r.first.words ++ r.second.words
  ⟨start, Vector.ofFn fun i => words.getD i 0, 0, 64, inner⟩

/-- Pairs the nodes of a level; an odd node at the end stays as it is. -/
def pairUp : List Node → List Node
  | a :: b :: ns => join a b :: pairUp ns
  | ns => ns

/-- The node at the root of a tree with some leaves. -/
def rootNode : Nat → Node → List Node → Node
  | _, n, [] => n
  | 0, n, _ => n
  | fuel + 1, n, ns =>
      match pairUp (n :: ns) with
      | m :: ms => rootNode fuel m ms
      | [] => n

/-- The bytes of a word, the lowest byte first. -/
def bytesOf (w : UInt32) : List UInt8 :=
  [w.toUInt8, (w >>> 8).toUInt8, (w >>> 16).toUInt8, (w >>> 24).toUInt8]

/-- The digest of a byte string. -/
def digest (bytes : List UInt8) : List UInt8 :=
  match chunkNodes 0 (pieces 1024 bytes) with
  | [] => []
  | n :: ns =>
      let top := rootNode ns.length n ns
      let out := Node.compress { top with flags := top.flags ||| root }
      (out.first.words ++ out.second.words).flatMap bytesOf

def hexadecimal (bytes : List UInt8) : String :=
  String.ofList (bytes.flatMap fun b => List.leftpad 2 '0' (Nat.toDigits 16 b.toNat))

end Blake3
end FieldRules
