import CodecChanger.Theory.Md5.Updating
import Mathlib.Algebra.BigOperators.Group.List.Basic

/-!
# Digests of Streams

A message may be given to `MD5Update` in any pieces. Padded, it is a number of whole
blocks, and the digest encodes the state these lead to.

The end of the padding is the length. `MD5Update` keeps it in two words: the bits
in the low one, with the carry into the high one, and what a piece's own length
does not leave room for in a 32-bit word goes into the high one directly. With
words of 32 bits the two make up the length modulo 2^64, and the pieces do not
matter. With words of 64 bits the low word holds what is added to the high one as
well, so a long message has a digest for every way of cutting it: the high half is
the sum of the pieces' own high parts.

## Main definitions

* `updates`, `digest`: A message given in pieces.
* `Fits`: No piece makes an update go on for ever.
* `padded`, `Digests`: What is hashed, and the hash.
* `excess`: What the pieces add to the high word besides the carry.

## Theorems

* `toNat_count1`: What a piece adds to the high word.
* `updates_holds`: The pieces are absorbed one after the other.
* `final_holds`: The digest of what has been absorbed.
* `digest_padded`: Words of 32 bits: the pieces do not matter.
* `digest_wide`: Words of 64 bits: how they do.
* `ssrcGenerator_padded`: The identifier of a session.
-/

namespace CodecChanger

open Bytes Blocks Loop

namespace Md5

variable {w : Nat}

/-- `MD5Update` for one piece after the other. -/
def updates (c : Md5Ctx w) (pieces : List (List Byte)) : Option (Md5Ctx w) :=
  pieces.foldlM (fun c p => update c p (BitVec.ofNat 32 p.length)) c

/-- The digest of a message that is given in pieces. -/
def digest (c : Md5Ctx w) (pieces : List (List Byte)) : Option (List Byte) := do
  let c ← updates (init c) pieces
  let (d, _) ← final c
  return d

/-- No piece is so long that its update goes on for ever, behind a stream of `n`
    bytes. -/
def Fits : Nat → List (List Byte) → Prop
  | _, [] => True
  | n, p :: pieces => n % 64 + p.length < 2 ^ 32 ∧ Fits (n + p.length) pieces

theorem lt_of_fits (n : Nat) (pieces : List (List Byte)) (p : List Byte) (h : Fits n pieces)
    (hp : p ∈ pieces) : p.length < 2 ^ 32 := by
  induction pieces generalizing n with
  | nil => exact absurd hp List.not_mem_nil
  | cons q pieces ih =>
      rcases h with ⟨hq, hfits⟩
      rcases List.mem_cons.mp hp with hp | hp
      · rw [hp]
        omega
      · exact ih _ hfits hp

/-- A message with its padding, which ends in `bits`. -/
def padded (message bits : List Byte) : List Byte :=
  message ++ 0x80 :: List.replicate ((119 - message.length % 64) % 64) 0 ++ bits

/-- A digest encodes the state that the blocks of the padded message lead to. -/
def Digests (w : Nat) (message digest : List Byte) : Prop :=
  ∃ (blocks : List (List Byte)) (s : Md5State w), Cut 64 blocks [] message ∧
    blocks.foldl transform magic = s ∧ digest = encode [s.a, s.b, s.c, s.d] 16

/-- What the pieces add to the high word besides the carry: their own high parts, as
    far as the low word has no room for these. -/
def excess (w : Nat) (pieces : List (List Byte)) : Nat :=
  (pieces.map fun p => p.length / 2 ^ 29 - 8 * p.length / 2 ^ w).sum

/-- The high word gets the carry, and the high part of the length. -/
theorem toNat_count1 (c : Md5Ctx w) (stream : List Byte) (inputLen : BitVec 32) (n : Nat)
    (hw : 32 ≤ w) (h : Holds c stream)
    (hn : c.count1.toNat = (8 * stream.length / 2 ^ w + n) % 2 ^ w) :
    (count c inputLen).2.toNat = (8 * (stream.length + inputLen.toNat) / 2 ^ w +
      (n + (inputLen.toNat / 2 ^ 29 - 8 * inputLen.toNat / 2 ^ w))) % 2 ^ w := by
  have hpow : 2 ^ 32 ≤ 2 ^ w := Nat.pow_le_pow_right (by omega) hw
  have hlt : inputLen.toNat < 2 ^ w := Nat.lt_of_lt_of_le inputLen.isLt hpow
  have hbits : (inputLen.setWidth w <<< 3).toNat = 8 * inputLen.toNat % 2 ^ w := by
    rw [BitVec.toNat_shiftLeft, BitVec.toNat_setWidth, Nat.mod_eq_of_lt hlt, Nat.shiftLeft_eq,
      Nat.mul_comm]
  have hhigh : (inputLen.setWidth w >>> 29).toNat = inputLen.toNat / 2 ^ 29 := by
    rw [BitVec.toNat_ushiftRight, BitVec.toNat_setWidth, Nat.mod_eq_of_lt hlt,
      Nat.shiftRight_eq_div_pow]
  have hdiv : 8 * inputLen.toNat / 2 ^ w ≤ inputLen.toNat / 2 ^ 29 := by
    refine Nat.le_trans (Nat.div_le_div_left hpow (by omega)) ?_
    omega
  -- The sum wraps around when the remainders make a whole word.
  have hcarry : (c.count0 + inputLen.setWidth w <<< 3 < inputLen.setWidth w <<< 3) ↔
      2 ^ w ≤ 8 * stream.length % 2 ^ w + 8 * inputLen.toNat % 2 ^ w := by
    rw [BitVec.lt_def, BitVec.toNat_add, hbits, h.count0_eq]
    have h0 := Nat.mod_lt (8 * stream.length) (Nat.two_pow_pos w)
    have h1 := Nat.mod_lt (8 * inputLen.toNat) (Nat.two_pow_pos w)
    generalize 8 * stream.length % 2 ^ w = a at h0 ⊢
    generalize 8 * inputLen.toNat % 2 ^ w = b at h1 ⊢
    by_cases hab : a + b < 2 ^ w
    · rw [Nat.mod_eq_of_lt hab]
      omega
    · rw [Nat.mod_eq_sub_mod (by omega), Nat.mod_eq_of_lt (by omega)]
      omega
  have hsum : 8 * (stream.length + inputLen.toNat) / 2 ^ w =
      8 * stream.length / 2 ^ w + 8 * inputLen.toNat / 2 ^ w +
        if 2 ^ w ≤ 8 * stream.length % 2 ^ w + 8 * inputLen.toNat % 2 ^ w then 1 else 0 := by
    rw [Nat.mul_add, Nat.add_div (Nat.two_pow_pos w)]
  have hone : (1 : BitVec w).toNat = 1 := by
    rw [BitVec.ofNat_eq_ofNat, BitVec.toNat_ofNat,
      Nat.mod_eq_of_lt (Nat.one_lt_two_pow (by omega))]
  unfold count
  simp only [hcarry, BitVec.toNat_add, hhigh]
  rw [hsum]
  split
  · rw [BitVec.toNat_add, hone, hn, Nat.mod_add_mod, Nat.add_assoc, Nat.mod_add_mod]
    congr 1
    omega
  · rw [hn, Nat.mod_add_mod]
    congr 1
    omega

/-- The pieces are absorbed one after the other. -/
theorem updates_holds (c : Md5Ctx w) (stream : List Byte) (pieces : List (List Byte)) (n : Nat)
    (hw : 32 ≤ w) (h : Holds c stream)
    (hn : c.count1.toNat = (8 * stream.length / 2 ^ w + n) % 2 ^ w)
    (hfits : Fits stream.length pieces) :
    ∃ c', updates c pieces = some c' ∧ Holds c' (stream ++ pieces.flatten) ∧
      c'.count1.toNat = (8 * (stream ++ pieces.flatten).length / 2 ^ w +
        (n + excess w pieces)) % 2 ^ w := by
  induction pieces generalizing c stream n with
  | nil =>
      refine ⟨c, rfl, ?_, ?_⟩
      · rw [List.flatten_nil, List.append_nil]
        exact h
      · rw [List.flatten_nil, List.append_nil]
        exact hn
  | cons p pieces ih =>
      rcases hfits with ⟨hp, hfits⟩
      have hlen : (BitVec.ofNat 32 p.length).toNat = p.length := by
        rw [BitVec.toNat_ofNat, Nat.mod_eq_of_lt (by omega)]
      rcases update_holds c stream p (BitVec.ofNat 32 p.length) hw h (by omega) (by omega) with
        ⟨c₁, hrun, hholds, -, hhigh⟩
      have hcount := toNat_count1 c stream (BitVec.ofNat 32 p.length) n hw h hn
      rw [hlen] at hcount
      rw [hlen, List.take_length] at hholds
      rcases ih c₁ (stream ++ p) (n + (p.length / 2 ^ 29 - 8 * p.length / 2 ^ w)) hholds
        (by rw [hhigh, hcount, List.length_append]) (by rw [List.length_append]; exact hfits)
        with ⟨c₂, hrun', hholds', hcount'⟩
      refine ⟨c₂, ?_, ?_, ?_⟩
      · simp only [updates, List.foldlM_cons, hrun]
        exact hrun'
      · rw [List.flatten_cons, ← List.append_assoc]
        exact hholds'
      · rw [hcount', List.flatten_cons, ← List.append_assoc, excess, excess, List.map_cons,
          List.sum_cons, Nat.add_assoc n]

/-- The padding `MD5Final` takes. -/
theorem take_padding (n : Nat) (hn : n < 64) :
    padding.take (if n < 56 then 56 - n else 120 - n) =
      0x80 :: List.replicate ((119 - n) % 64) 0 := by
  unfold padding
  by_cases h : n < 56
  · rw [if_pos h, show 56 - n = (55 - n) + 1 by omega, List.take_succ_cons, List.take_replicate,
      show min (55 - n) 63 = (119 - n) % 64 by omega]
  · rw [if_neg h, show 120 - n = (119 - n) + 1 by omega, List.take_succ_cons,
      List.take_replicate, show min (119 - n) 63 = (119 - n) % 64 by omega]

theorem toNat_padLen (i : BitVec 32) (h : i.toNat < 64) :
    (if i < 56 then 56 - i else 120 - i).toNat =
      if i.toNat < 56 then 56 - i.toNat else 120 - i.toNat := by
  have hlt : i < 56 ↔ i.toNat < 56 := BitVec.lt_def
  by_cases hi : i < 56
  · have hi' : i.toNat < 56 := hlt.mp hi
    rw [if_pos hi, if_pos hi', BitVec.toNat_sub]
    have h56 : (56 : BitVec 32).toNat = 56 := rfl
    omega
  · have hi' : ¬ i.toNat < 56 := fun hc => hi (hlt.mpr hc)
    rw [if_neg hi, if_neg hi', BitVec.toNat_sub]
    have h120 : (120 : BitVec 32).toNat = 120 := rfl
    omega

/-- The digest of what has been absorbed. -/
theorem final_holds (c : Md5Ctx w) (stream : List Byte) (hw : 32 ≤ w) (h : Holds c stream) :
    ∃ d, final c = some (d, zeroed) ∧
      Digests w (padded stream (encodeWord c.count0 ++ encodeWord c.count1)) d := by
  have hindex := index_of_holds c stream hw h
  have hlt := index_lt c
  have hbits : encode [c.count0, c.count1] 8 = encodeWord c.count0 ++ encodeWord c.count1 := by
    simp only [encode, List.take, List.flatMap_cons, List.flatMap_nil, List.append_nil]
  have hpad := toNat_padLen (index c) hlt
  have hpadlen : (if index c < 56 then 56 - index c else 120 - index c).toNat ≤ 64 := by
    rw [hpad]
    split <;> omega
  rcases update_holds c stream padding (if index c < 56 then 56 - index c else 120 - index c) hw h
    hpadlen (by omega) with ⟨c₁, hrun₁, hholds₁, -, -⟩
  rw [hpad, take_padding _ hlt, hindex] at hholds₁
  rcases update_holds c₁ _ (encode [c.count0, c.count1] 8) 8 hw hholds₁ (by rw [hbits]; rfl)
    (by rw [show (8 : BitVec 32).toNat = 8 from rfl]; omega) with ⟨c₂, hrun₂, hholds₂, -, -⟩
  have htake : (encode [c.count0, c.count1] 8).take (8 : BitVec 32).toNat =
      encodeWord c.count0 ++ encodeWord c.count1 := by
    rw [hbits]
    rfl
  rw [htake] at hholds₂
  refine ⟨encode [c₂.state.a, c₂.state.b, c₂.state.c, c₂.state.d] 16, ?_, ?_⟩
  · simp only [final, hrun₁, hrun₂, Option.bind_eq_bind, Option.bind_some, Option.pure_def]
  · -- The padding fills the last block.
    have hwhole : (padded stream (encodeWord c.count0 ++ encodeWord c.count1)).length % 64 = 0 := by
      simp only [padded, List.length_append, List.length_cons, List.length_replicate, encodeWord,
        List.length_nil]
      omega
    rcases hholds₂.absorbed with ⟨bs, hcut, hfold⟩
    change Cut 64 bs (c₂.buffer.bytes.take
      ((padded stream (encodeWord c.count0 ++ encodeWord c.count1)).length % 64)) _ at hcut
    rw [hwhole, List.take_zero] at hcut
    exact ⟨bs, c₂.state, hcut, hfold, rfl⟩

/-- A word is encoded low byte first. -/
theorem encodeWord_eq (x : BitVec w) (hw : 32 ≤ w) : encodeWord x = littleEndian 4 x.toNat := by
  have hbyte : ∀ n, ((x >>> n) &&& 0xff).setWidth 8 = BitVec.ofNat 8 (x.toNat / 2 ^ n) := by
    intro n
    have hlow : (x >>> n &&& 0xff).toNat = x.toNat / 2 ^ n % 2 ^ 8 := toNat_low x n 8 (by omega)
    refine BitVec.eq_of_toNat_eq ?_
    rw [BitVec.toNat_setWidth, BitVec.toNat_ofNat, hlow]
    omega
  have hzero := hbyte 0
  rw [BitVec.ushiftRight_zero, Nat.pow_zero, Nat.div_one] at hzero
  simp only [encodeWord, littleEndian, hbyte, hzero, Nat.div_div_eq_div_mul, Nat.reducePow,
    Nat.reduceMul]

/-- The digest of a message in pieces that fit: the length at the end of the padding
    is the bits in the low word, and the carries and the excess in the high one. -/
theorem digest_of_fits (c : Md5Ctx w) (pieces : List (List Byte)) (hw : 32 ≤ w)
    (hfits : Fits 0 pieces) :
    ∃ d, digest c pieces = some d ∧
      Digests w (padded pieces.flatten
        (littleEndian 4 (8 * pieces.flatten.length % 2 ^ w) ++
          littleEndian 4 ((8 * pieces.flatten.length / 2 ^ w + excess w pieces) % 2 ^ w))) d := by
  have hzero : (init c).count1.toNat = (8 * ([] : List Byte).length / 2 ^ w + 0) % 2 ^ w := by
    rw [List.length_nil, Nat.mul_zero, Nat.zero_div]
    rfl
  rcases updates_holds (init c) [] pieces 0 hw (holds_init c) hzero hfits with
    ⟨c', hrun, hholds, hhigh⟩
  rcases final_holds c' _ hw hholds with ⟨d, hfinal, hdigest⟩
  refine ⟨d, ?_, ?_⟩
  · simp only [digest, hrun, hfinal, Option.bind_eq_bind, Option.bind_some, Option.pure_def]
  · rw [encodeWord_eq _ hw, encodeWord_eq _ hw, hholds.count0_eq, hhigh, List.nil_append,
      Nat.zero_add] at hdigest
    exact hdigest

/-- With words of 32 bits the digest is that of the whole message, its length in bits
    at the end, whatever the pieces it is given in. -/
theorem digest_padded (c : Md5Ctx 32) (pieces : List (List Byte)) (hfits : Fits 0 pieces) :
    ∃ d, digest c pieces = some d ∧
      Digests 32 (padded pieces.flatten (littleEndian 8 (8 * pieces.flatten.length))) d := by
  rcases digest_of_fits c pieces (Nat.le_refl 32) hfits with ⟨d, hrun, hdigest⟩
  refine ⟨d, hrun, ?_⟩
  have hexcess : excess 32 pieces = 0 := by
    refine List.sum_eq_zero fun n hn => ?_
    rcases List.mem_map.mp hn with ⟨p, -, hp⟩
    omega
  rw [hexcess, Nat.add_zero, show 2 ^ 32 = 256 ^ 4 from rfl, littleEndian_mod 4 4 _ (Nat.le_refl 4),
    littleEndian_mod 4 4 _ (Nat.le_refl 4)] at hdigest
  rw [show 8 = 4 + 4 from rfl, littleEndian_append 4 4]
  exact hdigest

theorem digest_padded_abc :
    ∃ d, digest (zeroed : Md5Ctx 32) [[0x61], [], [0x62, 0x63]] = some d ∧
      Digests 32 (padded [0x61, 0x62, 0x63] (littleEndian 8 (8 * 3))) d :=
  digest_padded zeroed [[0x61], [], [0x62, 0x63]] ⟨by decide, by decide, by decide, trivial⟩

-- The known digest of the empty message.
example : digest (zeroed : Md5Ctx 32) [] =
    some [0xd4, 0x1d, 0x8c, 0xd9, 0x8f, 0x00, 0xb2, 0x04, 0xe9, 0x80, 0x09, 0x98, 0xec, 0xf8, 0x42,
      0x7e] := by
  decide +kernel

/-- With words of 64 bits the low half of the length is as it should be, and the high
    half is what the pieces have of 2^29 bytes, each for itself, with the carry out
    of 64 bits. -/
theorem digest_wide (c : Md5Ctx 64) (pieces : List (List Byte)) (hfits : Fits 0 pieces) :
    ∃ d, digest c pieces = some d ∧
      Digests 64 (padded pieces.flatten (littleEndian 4 (8 * pieces.flatten.length) ++
        littleEndian 4 (8 * pieces.flatten.length / 2 ^ 64 +
          (pieces.map fun p => p.length / 2 ^ 29).sum))) d := by
  rcases digest_of_fits c pieces (by omega) hfits with ⟨d, hrun, hdigest⟩
  refine ⟨d, hrun, ?_⟩
  have hexcess : excess 64 pieces = (pieces.map fun p => p.length / 2 ^ 29).sum := by
    refine congrArg List.sum (List.map_congr_left fun p hp => ?_)
    have hlt := lt_of_fits 0 pieces p hfits hp
    rw [Nat.div_eq_of_lt (show 8 * p.length < 2 ^ 64 by omega), Nat.sub_zero]
  rw [hexcess, show 2 ^ 64 = 256 ^ 8 from rfl, littleEndian_mod 4 8 _ (by omega),
    littleEndian_mod 4 8 _ (by omega)] at hdigest
  exact hdigest

/-- A byte, and then so many zeros that the high half is not zero. -/
theorem digest_wide_long :
    let zeros : List Byte := List.replicate (2 ^ 29) 0
    ∃ d, digest (zeroed : Md5Ctx 64) [[0x61], zeros] = some d ∧
      Digests 64 (padded (0x61 :: zeros) (littleEndian 4 (8 * (2 ^ 29 + 1)) ++
        littleEndian 4 (8 * (2 ^ 29 + 1) / 2 ^ 64 + 1))) d := by
  intro zeros
  have hlen : zeros.length = 2 ^ 29 := List.length_replicate
  have hflat : [[0x61], zeros].flatten = 0x61 :: zeros := by
    rw [List.flatten_cons, List.flatten_cons, List.flatten_nil, List.append_nil]
    rfl
  have hsum : ([[0x61], zeros].map fun p => p.length / 2 ^ 29).sum = 1 := by
    rw [List.map_cons, List.map_cons, List.map_nil, hlen]
    rfl
  generalize zeros = z at hlen hflat hsum ⊢
  have hrun := digest_wide zeroed [[0x61], z] ⟨by decide, by rw [hlen]; decide, trivial⟩
  rw [hflat, hsum, List.length_cons, hlen] at hrun
  exact hrun

/-- The bytes of a word, cut down to 32 bits. -/
theorem encodeWord_bytes32 (x : BitVec w) (hw : 32 ≤ w) :
    encodeWord x = bytes32 (x.setWidth 32) := by
  rw [encodeWord_eq x hw, ← littleEndian_mod 4 4 _ (Nat.le_refl 4)]
  simp only [bytes32, byte_eq, BitVec.toNat_setWidth, littleEndian, Nat.div_div_eq_div_mul,
    Nat.reducePow, Nat.reduceMul, Nat.div_one]

/-- The identifier is made of the state's low halves. -/
theorem foldl_load32 (s : Md5State w) (hw : 32 ≤ w) :
    [4, 8, 12].foldl (fun ssrc p32 => ssrc ^^^ load32 (encode [s.a, s.b, s.c, s.d] 16) p32)
        (load32 (encode [s.a, s.b, s.c, s.d] 16) 0) =
      (s.a ^^^ s.b ^^^ s.c ^^^ s.d).setWidth 32 := by
  have hencode : encode [s.a, s.b, s.c, s.d] 16 = bytes32 (s.a.setWidth 32) ++
      bytes32 (s.b.setWidth 32) ++ bytes32 (s.c.setWidth 32) ++ bytes32 (s.d.setWidth 32) := by
    simp only [encode, encodeWord_bytes32 _ hw, List.flatMap_cons, List.flatMap_nil, List.take,
      List.append_nil, List.append_assoc]
  rw [hencode, BitVec.setWidth_xor, BitVec.setWidth_xor, BitVec.setWidth_xor]
  change word32 _ _ _ _ ^^^ word32 _ _ _ _ ^^^ word32 _ _ _ _ ^^^ word32 _ _ _ _ = _
  simp only [List.getD_cons_zero, List.getD_cons_succ, bytes32, List.cons_append, List.nil_append,
    word32_bytes]

/-- A message in one piece has its length in bits at the end, whatever the width. -/
theorem bits_of_one (s : List Byte) (hw : 32 ≤ w) (hs : s.length < 2 ^ 32) :
    littleEndian 4 (8 * s.length % 2 ^ w) ++
        littleEndian 4 ((8 * s.length / 2 ^ w + excess w [s]) % 2 ^ w) =
      littleEndian 8 (8 * s.length) := by
  have hpow : 2 ^ 32 ≤ 2 ^ w := Nat.pow_le_pow_right (by omega) hw
  have hdiv : 8 * s.length / 2 ^ w ≤ s.length / 2 ^ 29 := by
    refine Nat.le_trans (Nat.div_le_div_left hpow (by omega)) ?_
    omega
  have hhigh : (8 * s.length / 2 ^ w + excess w [s]) % 2 ^ w = 8 * s.length / 256 ^ 4 := by
    have hexcess : excess w [s] = s.length / 2 ^ 29 - 8 * s.length / 2 ^ w := Nat.add_zero _
    rw [hexcess, Nat.add_sub_cancel' hdiv, Nat.mod_eq_of_lt (by omega)]
    omega
  have hlow : littleEndian 4 (8 * s.length % 2 ^ w) = littleEndian 4 (8 * s.length) := by
    rw [← littleEndian_mod 4 4 _ (Nat.le_refl 4), show 256 ^ 4 = 2 ^ 32 from rfl,
      Nat.mod_mod_of_dvd _ (pow_dvd_pow 2 hw)]
    exact littleEndian_mod 4 4 _ (Nat.le_refl 4)
  rw [hhigh, hlow]
  exact (littleEndian_append 4 4 _).symm

open RtpSession (ssrcGenerator)

/-- The identifier of a session is made of the state that the record and its padding
    lead to, and depends on nothing else, at either width of a word. -/
theorem ssrcGenerator_padded (s : List Byte) (md5 : Md5Ctx w) (hw : 32 ≤ w)
    (hs : s.length < 2 ^ 32) :
    ∃ (blocks : List (List Byte)) (st : Md5State w),
      Cut 64 blocks [] (padded s (littleEndian 8 (8 * s.length))) ∧
      blocks.foldl transform magic = st ∧
      ssrcGenerator s md5 = some ((st.a ^^^ st.b ^^^ st.c ^^^ st.d).setWidth 32) := by
  have hfits : Fits 0 [s] := ⟨by omega, trivial⟩
  rcases digest_of_fits md5 [s] hw hfits with ⟨d, hrun, blocks, st, hcut, hfold, hd⟩
  have hflat : [s].flatten = s := by
    rw [List.flatten_cons, List.flatten_nil, List.append_nil]
  rw [hflat, bits_of_one s hw hs] at hcut
  refine ⟨blocks, st, hcut, hfold, ?_⟩
  have hdigest : ssrcGenerator s md5 = (digest md5 [s]).map fun buff =>
      [4, 8, 12].foldl (fun ssrc p32 => ssrc ^^^ load32 buff p32) (load32 buff 0) := by
    unfold ssrcGenerator digest updates
    rw [List.foldlM_cons]
    rcases update (init md5) s (BitVec.ofNat 32 s.length) with _ | c
    · rfl
    · simp only [List.foldlM_nil, Option.bind_eq_bind, Option.bind_some, Option.pure_def]
      rcases final c with _ | r
      · rfl
      · rfl
  rw [hdigest, hrun, Option.map_some, hd, foldl_load32 st hw]

theorem ssrcGenerator_padded_three :
    ∃ (blocks : List (List Byte)) (st : Md5State 64),
      Cut 64 blocks [] (padded [1, 2, 3] (littleEndian 8 (8 * 3))) ∧
      blocks.foldl transform magic = st ∧
      ssrcGenerator [1, 2, 3] (zeroed : Md5Ctx 64) =
        some ((st.a ^^^ st.b ^^^ st.c ^^^ st.d).setWidth 32) :=
  ssrcGenerator_padded [1, 2, 3] zeroed (by decide) (by decide)

end Md5

end CodecChanger
