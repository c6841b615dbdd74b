import CodecChanger.Lib.Bytes
import CodecChanger.Lib.Loop

/-!
# The Message Digest

`md5.h` and `md5.cpp`, and `RtpSession::SSRCGenerator`, which folds a digest into
the identifier of an RTP session.

The code calls its word `UINT4`, four bytes, and defines it as
`unsigned long int`, which has four bytes on some machines and eight on others.
The width is a parameter `w` here. Nothing in the code cuts a word down to 32
bits, so the functions are what they are at either width: `ROTATE_LEFT` is a
rotation at `w = 32` only.

`MD5Update` counts in an `unsigned int` and compares `i + 63` with the length. The
loop does not end when that sum wraps around, which `update` answers with `none`.

## Main definitions

* `Md5State`, `Md5Ctx`: The chaining state and the context.
* `Md5.transform`: A block is worked in.
* `Md5.decode`, `Md5.encode`: Words from bytes and back.
* `Md5.init`, `Md5.update`, `Md5.final`: The calls.
* `Md5.blocksBody`: The loop of an update, a block at a time.
* `RtpSession.ssrcGenerator`: The identifier of a session.
-/

namespace CodecChanger

open Bytes Loop

/-- `state[4]`. -/
@[ext] structure Md5State (w : Nat) where
  a : BitVec w
  b : BitVec w
  c : BitVec w
  d : BitVec w
  deriving DecidableEq, Repr

/-- `MD5_CTX`. -/
structure Md5Ctx (w : Nat) where
  state : Md5State w
  count0 : BitVec w
  count1 : BitVec w
  buffer : Buffer 64

namespace Md5

variable {w : Nat}

def s11 : Nat := 7
def s12 : Nat := 12
def s13 : Nat := 17
def s14 : Nat := 22
def s21 : Nat := 5
def s22 : Nat := 9
def s23 : Nat := 14
def s24 : Nat := 20
def s31 : Nat := 4
def s32 : Nat := 11
def s33 : Nat := 16
def s34 : Nat := 23
def s41 : Nat := 6
def s42 : Nat := 10
def s43 : Nat := 15
def s44 : Nat := 21

/-- `PADDING`. -/
def padding : List Byte := 0x80 :: List.replicate 63 0

/-- `F`. -/
def f (x y z : BitVec w) : BitVec w := (x &&& y) ||| (~~~x &&& z)

/-- `G`. -/
def g (x y z : BitVec w) : BitVec w := (x &&& z) ||| (y &&& ~~~z)

/-- `H`. -/
def h (x y z : BitVec w) : BitVec w := x ^^^ y ^^^ z

/-- `I`. -/
def i (x y z : BitVec w) : BitVec w := y ^^^ (x ||| ~~~z)

/-- `ROTATE_LEFT`. -/
def rotateLeft (x : BitVec w) (n : Nat) : BitVec w := (x <<< n) ||| (x >>> (32 - n))

/-- What the four transformations have in common. -/
def mix (v a b x : BitVec w) (s : Nat) (ac : BitVec w) : BitVec w :=
  rotateLeft (a + (v + x + ac)) s + b

/-- `FF`. -/
def ff (a b c d x : BitVec w) (s : Nat) (ac : BitVec w) : BitVec w := mix (f b c d) a b x s ac

/-- `GG`. -/
def gg (a b c d x : BitVec w) (s : Nat) (ac : BitVec w) : BitVec w := mix (g b c d) a b x s ac

/-- `HH`. -/
def hh (a b c d x : BitVec w) (s : Nat) (ac : BitVec w) : BitVec w := mix (h b c d) a b x s ac

/-- `II`. -/
def ii (a b c d x : BitVec w) (s : Nat) (ac : BitVec w) : BitVec w := mix (i b c d) a b x s ac

/-- What `Decode` makes of the four bytes at `j`. -/
def decodeWord (input : List Byte) (j : Nat) : BitVec w :=
  (input.getD j 0).setWidth w ||| ((input.getD (j + 1) 0).setWidth w <<< 8) |||
    ((input.getD (j + 2) 0).setWidth w <<< 16) ||| ((input.getD (j + 3) 0).setWidth w <<< 24)

/-- `Decode`. -/
def decode (input : List Byte) (len : Nat) : List (BitVec w) :=
  (List.range (len / 4)).map fun i => decodeWord input (4 * i)

/-- What `Encode` makes of a word. -/
def encodeWord (x : BitVec w) : List Byte :=
  [(x &&& 0xff).setWidth 8, ((x >>> 8) &&& 0xff).setWidth 8, ((x >>> 16) &&& 0xff).setWidth 8,
    ((x >>> 24) &&& 0xff).setWidth 8]

/-- `Encode`. -/
def encode (input : List (BitVec w)) (len : Nat) : List Byte :=
  (input.take (len / 4)).flatMap encodeWord

/-- `MD5Transform`. -/
def transform (state : Md5State w) (block : List Byte) : Md5State w :=
  let words : List (BitVec w) := decode block 64
  let x k := words.getD k 0
  let a := state.a
  let b := state.b
  let c := state.c
  let d := state.d
  -- Round 1
  let a := ff a b c d (x 0) s11 0xd76aa478
  let d := ff d a b c (x 1) s12 0xe8c7b756
  let c := ff c d a b (x 2) s13 0x242070db
  let b := ff b c d a (x 3) s14 0xc1bdceee
  let a := ff a b c d (x 4) s11 0xf57c0faf
  let d := ff d a b c (x 5) s12 0x4787c62a
  let c := ff c d a b (x 6) s13 0xa8304613
  let b := ff b c d a (x 7) s14 0xfd469501
  let a := ff a b c d (x 8) s11 0x698098d8
  let d := ff d a b c (x 9) s12 0x8b44f7af
  let c := ff c d a b (x 10) s13 0xffff5bb1
  let b := ff b c d a (x 11) s14 0x895cd7be
  let a := ff a b c d (x 12) s11 0x6b901122
  let d := ff d a b c (x 13) s12 0xfd987193
  let c := ff c d a b (x 14) s13 0xa679438e
  let b := ff b c d a (x 15) s14 0x49b40821
  -- Round 2
  let a := gg a b c d (x 1) s21 0xf61e2562
  let d := gg d a b c (x 6) s22 0xc040b340
  let c := gg c d a b (x 11) s23 0x265e5a51
  let b := gg b c d a (x 0) s24 0xe9b6c7aa
  let a := gg a b c d (x 5) s21 0xd62f105d
  let d := gg d a b c (x 10) s22 0x2441453
  let c := gg c d a b (x 15) s23 0xd8a1e681
  let b := gg b c d a (x 4) s24 0xe7d3fbc8
  let a := gg a b c d (x 9) s21 0x21e1cde6
  let d := gg d a b c (x 14) s22 0xc33707d6
  let c := gg c d a b (x 3) s23 0xf4d50d87
  let b := gg b c d a (x 8) s24 0x455a14ed
  let a := gg a b c d (x 13) s21 0xa9e3e905
  let d := gg d a b c (x 2) s22 0xfcefa3f8
  let c := gg c d a b (x 7) s23 0x676f02d9
  let b := gg b c d a (x 12) s24 0x8d2a4c8a
  -- Round 3
  let a := hh a b c d (x 5) s31 0xfffa3942
  let d := hh d a b c (x 8) s32 0x8771f681
  let c := hh c d a b (x 11) s33 0x6d9d6122
  let b := hh b c d a (x 14) s34 0xfde5380c
  let a := hh a b c d (x 1) s31 0xa4beea44
  let d := hh d a b c (x 4) s32 0x4bdecfa9
  let c := hh c d a b (x 7) s33 0xf6bb4b60
  let b := hh b c d a (x 10) s34 0xbebfbc70
  let a := hh a b c d (x 13) s31 0x289b7ec6
  let d := hh d a b c (x 0) s32 0xeaa127fa
  let c := hh c d a b (x 3) s33 0xd4ef3085
  let b := hh b c d a (x 6) s34 0x4881d05
  let a := hh a b c d (x 9) s31 0xd9d4d039
  let d := hh d a b c (x 12) s32 0xe6db99e5
  let c := hh c d a b (x 15) s33 0x1fa27cf8
  let b := hh b c d a (x 2) s34 0xc4ac5665
  -- Round 4
  let a := ii a b c d (x 0) s41 0xf4292244
  let d := ii d a b c (x 7) s42 0x432aff97
  let c := ii c d a b (x 14) s43 0xab9423a7
  let b := ii b c d a (x 5) s44 0xfc93a039
  let a := ii a b c d (x 12) s41 0x655b59c3
  let d := ii d a b c (x 3) s42 0x8f0ccc92
  let c := ii c d a b (x 10) s43 0xffeff47d
  let b := ii b c d a (x 1) s44 0x85845dd1
  let a := ii a b c d (x 8) s41 0x6fa87e4f
  let d := ii d a b c (x 15) s42 0xfe2ce6e0
  let c := ii c d a b (x 6) s43 0xa3014314
  let b := ii b c d a (x 13) s44 0x4e0811a1
  let a := ii a b c d (x 4) s41 0xf7537e82
  let d := ii d a b c (x 11) s42 0xbd3af235
  let c := ii c d a b (x 2) s43 0x2ad7d2bb
  let b := ii b c d a (x 9) s44 0xeb86d391
  { a := state.a + a
    b := state.b + b
    c := state.c + c
    d := state.d + d }

/-- The magic initialization constants. -/
def magic : Md5State w := ⟨0x67452301, 0xefcdab89, 0x98badcfe, 0x10325476⟩

/-- `MD5Init`. The buffer is left as it is. -/
def init (context : Md5Ctx w) : Md5Ctx w :=
  { context with count0 := 0, count1 := 0, state := magic }

/-- The number of bytes mod 64. -/
def index (context : Md5Ctx w) : BitVec 32 := ((context.count0 >>> 3) &&& 0x3f).setWidth 32

/-- The new `count`: bits are counted, and the carry goes into the high word. -/
def count (context : Md5Ctx w) (inputLen : BitVec 32) : BitVec w × BitVec w :=
  let bits : BitVec w := inputLen.setWidth w <<< 3
  let count0 := context.count0 + bits
  let count1 := if count0 < bits then context.count1 + 1 else context.count1
  (count0, count1 + (inputLen.setWidth w >>> 29))

/-- One round of the `for` loop. Behind its end the input reads as zeros. -/
def blocksBody (input : List Byte) (inputLen : BitVec 32) (s : Md5State w × BitVec 32) :
    Next (Md5State w × BitVec 32) (Md5State w × BitVec 32) :=
  if s.2 + 63 < inputLen then
    .again (transform s.1 ((input.drop s.2.toNat).take 64), s.2 + 64)
  else .leave s

/-- The `for` loop, which takes less rounds than there are bytes if it ends. -/
def blocks (input : List Byte) (inputLen : BitVec 32) (s : Md5State w × BitVec 32) :
    Option (Md5State w × BitVec 32) :=
  run (blocksBody input inputLen) (inputLen.toNat + 1) s

/-- `MD5_memcpy` to an offset of a buffer. -/
def memcpy (buffer : Buffer 64) (offset : Nat) (input : List Byte) : Buffer 64 where
  bytes := (buffer.bytes.take offset ++ input ++ buffer.bytes.drop (offset + input.length)).take 64
  length_eq := by
    simp only [List.length_take, List.length_append, List.length_drop, buffer.length_eq]
    omega

/-- `MD5Update`, if it returns. -/
def update (context : Md5Ctx w) (input : List Byte) (inputLen : BitVec 32) : Option (Md5Ctx w) :=
  let index := index context
  let count := count context inputLen
  let context := { context with count0 := count.1, count1 := count.2 }
  let partLen := 64 - index
  if partLen ≤ inputLen then
    let buffer := memcpy context.buffer index.toNat (input.take partLen.toNat)
    let first := transform context.state buffer.bytes
    match blocks input inputLen (first, partLen) with
    | none => none
    | some (state, i) =>
        some { context with
          state := state
          buffer := memcpy buffer 0 ((input.drop i.toNat).take (inputLen - i).toNat) }
  else
    some { context with
      buffer := memcpy context.buffer index.toNat (input.take inputLen.toNat) }

/-- `MD5_memset` of a context. -/
def zeroed : Md5Ctx w where
  state := ⟨0, 0, 0, 0⟩
  count0 := 0
  count1 := 0
  buffer := ⟨List.replicate 64 0, List.length_replicate⟩

/-- `MD5Final`: the digest and the context left behind. -/
def final (context : Md5Ctx w) : Option (List Byte × Md5Ctx w) := do
  let bits := encode [context.count0, context.count1] 8
  let index := index context
  let padLen := if index < 56 then 56 - index else 120 - index
  let context ← update context padding padLen
  let context ← update context bits 8
  return (encode [context.state.a, context.state.b, context.state.c, context.state.d] 16, zeroed)

end Md5

/-- `SSRCGenerator`, with the memory of the record it hashes and the context on its
    stack. -/
def RtpSession.ssrcGenerator {w : Nat} (s : List Byte) (md5 : Md5Ctx w) :
    Option (BitVec 32) := do
  let md5 ← Md5.update (Md5.init md5) s (BitVec.ofNat 32 s.length)
  let (buff, _) ← Md5.final md5
  return [4, 8, 12].foldl (fun ssrc p32 => ssrc ^^^ load32 buff p32) (load32 buff 0)

end CodecChanger
