import CodecChanger.Core.Md5
import CodecChanger.Lib.Blocks

/-!
# Updates of a Digest

What one `MD5Update` does. The buffer holds what has come in behind the last full
block, and an update works in the blocks that the buffer and the new bytes make
together: it goes on absorbing the stream, `Holds`.

The loop over the blocks of the input compares `i + 63` with the length in 32
bits. It stops a step before the sum would wrap around exactly when the bytes in
the buffer and the new ones are fewer than 2^32. Otherwise `i` comes to the last
63 positions of its range, the sum starts again at zero, and the loop goes round
for ever.

## Main definitions

* `Holds`: A context has absorbed a stream.
* `Aligned`: Where the loop may stand.
* `entry`: Where it starts.
* `Returns`: An update comes back.

## Theorems

* `toNat_index`, `toNat_partLen`: The room in the buffer.
* `blocks_absorbs`: What the loop does when it ends.
* `halts_iff`: When the loop ends.
* `update_holds`: An update absorbs its input.
* `update_isSome_iff`: When an update comes back.
-/

namespace CodecChanger

open Bytes Blocks Loop

namespace Md5

variable {w : Nat}

/-- A few bits out of the middle of a word. -/
theorem toNat_low (x : BitVec w) (n k : Nat) (hk : k ≤ w) :
    (x >>> n &&& BitVec.ofNat w (2 ^ k - 1)).toNat = x.toNat / 2 ^ n % 2 ^ k := by
  have hle : 2 ^ k ≤ 2 ^ w := Nat.pow_le_pow_right (by omega) hk
  have hpos : 0 < 2 ^ k := Nat.two_pow_pos k
  rw [BitVec.toNat_and, BitVec.toNat_ofNat, Nat.mod_eq_of_lt (by omega),
    Nat.and_two_pow_sub_one_eq_mod, BitVec.toNat_ushiftRight, Nat.shiftRight_eq_div_pow]

theorem toNat_index (c : Md5Ctx w) (hw : 32 ≤ w) :
    (index c).toNat = c.count0.toNat / 8 % 64 := by
  have hlow : (c.count0 >>> 3 &&& 0x3f).toNat = c.count0.toNat / 2 ^ 3 % 2 ^ 6 :=
    toNat_low c.count0 3 6 (by omega)
  unfold index
  rw [BitVec.toNat_setWidth, hlow]
  omega

theorem index_lt (c : Md5Ctx w) : (index c).toNat < 64 := by
  unfold index
  rw [BitVec.toNat_setWidth, BitVec.toNat_and]
  have hle : (c.count0 >>> 3).toNat &&& (0x3f : BitVec w).toNat ≤ 63 :=
    Nat.le_trans Nat.and_le_right (Nat.mod_le _ _)
  omega

theorem toNat_partLen (i : BitVec 32) (h : i.toNat < 64) : (64 - i).toNat = 64 - i.toNat := by
  rw [BitVec.toNat_sub]
  simp only [BitVec.ofNat_eq_ofNat, BitVec.toNat_ofNat]
  omega

/-- The loop stands behind a block. -/
def Aligned (index : Nat) (inputLen i : BitVec 32) : Prop :=
  (i.toNat + index) % 64 = 0 ∧ 64 ≤ i.toNat + index ∧ i.toNat ≤ inputLen.toNat

/-- As long as the sum cannot wrap around, a round is taken for a block that is
    there. -/
theorem blocksBody_cases (index : Nat) (input : List Byte) (inputLen i : BitVec 32)
    (s : Md5State w) (hsum : index + inputLen.toNat < 2 ^ 32) (hi : Aligned index inputLen i) :
    (i.toNat + 64 ≤ inputLen.toNat ∧ (i + 64).toNat = i.toNat + 64 ∧
      Aligned index inputLen (i + 64) ∧
      blocksBody input inputLen (s, i) =
        .again (transform s ((input.drop i.toNat).take 64), i + 64)) ∨
    (inputLen.toNat < i.toNat + 64 ∧ blocksBody input inputLen (s, i) = .leave (s, i)) := by
  rcases hi with ⟨hmod, hlow, hle⟩
  have hadd : (i + 63).toNat = i.toNat + 63 := by
    rw [BitVec.toNat_add]
    simp only [BitVec.ofNat_eq_ofNat, BitVec.toNat_ofNat]
    omega
  unfold blocksBody
  by_cases hb : i.toNat + 64 ≤ inputLen.toNat
  · have hnext : (i + 64).toNat = i.toNat + 64 := by
      rw [BitVec.toNat_add]
      simp only [BitVec.ofNat_eq_ofNat, BitVec.toNat_ofNat]
      omega
    refine .inl ⟨hb, hnext, ⟨by omega, by omega, by omega⟩, ?_⟩
    rw [if_pos]
    rw [BitVec.lt_def, hadd]
    omega
  · refine .inr ⟨by omega, ?_⟩
    rw [if_neg]
    rw [BitVec.lt_def, hadd]
    omega

/-- The loop works in the blocks from where it starts, and leaves what does not
    fill one. -/
theorem blocks_absorbs (index : Nat) (input : List Byte) (inputLen i : BitVec 32)
    (s : Md5State w) (hlen : inputLen.toNat ≤ input.length)
    (hsum : index + inputLen.toNat < 2 ^ 32) (hi : Aligned index inputLen i) :
    ∃ t j, blocks input inputLen (s, i) = some (t, j) ∧ j.toNat ≤ inputLen.toNat ∧
      Absorbed transform 64 s ((input.take inputLen.toNat).drop i.toNat) t
        ((input.take inputLen.toNat).drop j.toNat) := by
  unfold blocks
  -- By induction on the number of rounds there is fuel for.
  have hfuel : inputLen.toNat - i.toNat < inputLen.toNat + 1 := by omega
  revert hfuel
  generalize inputLen.toNat + 1 = fuel
  intro hfuel
  induction fuel generalizing s i with
  | zero => omega
  | succ fuel ih =>
      rcases blocksBody_cases index input inputLen i s hsum hi with
        ⟨hb, hnext, halign, hbody⟩ | ⟨hb, hbody⟩
      · rcases ih (i + 64) (transform s ((input.drop i.toNat).take 64)) halign (by omega) with
          ⟨t, j, hrun, hj, habs⟩
        refine ⟨t, j, ?_, hj, ?_⟩
        · simp only [run, hbody]
          exact hrun
        · have hblock : ((input.drop i.toNat).take 64).length = 64 := by
            rw [List.length_take, List.length_drop]
            omega
          have hsplit : (input.take inputLen.toNat).drop i.toNat =
              (input.drop i.toNat).take 64 ++
                (input.take inputLen.toNat).drop (i + 64).toNat := by
            rw [hnext, ← List.drop_drop, List.drop_take]
            conv_lhs => rw [← List.take_append_drop 64 (List.take _ _)]
            rw [List.take_take, Nat.min_eq_left (by omega)]
          rw [hsplit]
          exact absorbed_block transform 64 s t _ _ _ hblock habs
      · refine ⟨s, i, by simp only [run, hbody], hi.2.2, absorbed_short transform 64 s _ ?_⟩
        rw [List.length_drop, List.length_take]
        omega

/-- When the sum can wrap around, the loop has a next round wherever it stands. -/
theorem blocksBody_of_wrap (index : Nat) (input : List Byte) (inputLen i : BitVec 32)
    (s : Md5State w) (hindex : index < 64) (hsum : 2 ^ 32 ≤ index + inputLen.toNat)
    (hi : (i.toNat + index) % 64 = 0) :
    ∃ t, blocksBody input inputLen (s, i) = .again (t, i + 64) ∧
      ((i + 64).toNat + index) % 64 = 0 := by
  have hlen : inputLen.toNat < 2 ^ 32 := inputLen.isLt
  have hadd : (i + 63).toNat = (i.toNat + 63) % 2 ^ 32 := by
    rw [BitVec.toNat_add]
    rfl
  have hnext : (i + 64).toNat = (i.toNat + 64) % 2 ^ 32 := by
    rw [BitVec.toNat_add]
    rfl
  have hi32 : i.toNat < 2 ^ 32 := i.isLt
  refine ⟨transform s ((input.drop i.toNat).take 64), ?_, by omega⟩
  unfold blocksBody
  rw [if_pos]
  rw [BitVec.lt_def, hadd]
  omega

/-- The loop of an update ends exactly when the bytes in the buffer and the new
    ones are fewer than 2^32. -/
theorem halts_iff (input : List Byte) (inputLen index : BitVec 32) (s : Md5State w)
    (hlen : inputLen.toNat ≤ input.length) (hindex : index.toNat < 64)
    (hpart : 64 - index ≤ inputLen) :
    Halts (blocksBody input inputLen) (s, 64 - index) ↔
      index.toNat + inputLen.toNat < 2 ^ 32 := by
  have hpl := toNat_partLen index hindex
  rw [BitVec.le_def, hpl] at hpart
  refine ⟨fun hhalts => ?_, fun hsum => ?_⟩
  · by_contra hsum
    refine not_halts_of_closed
      (fun s : Md5State w × BitVec 32 => (s.2.toNat + index.toNat) % 64 = 0)
      (fun u hu => ?_) _ ?_ hhalts
    · rcases blocksBody_of_wrap index.toNat input inputLen u.2 u.1 hindex (by omega) hu with
        ⟨t, hbody, hnext⟩
      exact ⟨_, hbody, hnext⟩
    · change ((64 - index).toNat + index.toNat) % 64 = 0
      rw [hpl]
      omega
  · have halign : Aligned index.toNat inputLen (64 - index) := by
      refine ⟨?_, ?_, ?_⟩ <;> rw [hpl] <;> omega
    rcases blocks_absorbs index.toNat input inputLen (64 - index) s hlen hsum halign with
      ⟨t, j, hrun, -, -⟩
    exact ⟨_, _, hrun⟩

/-- The context has absorbed the stream, with what does not fill a block in the
    buffer. -/
structure Holds (c : Md5Ctx w) (stream : List Byte) : Prop where
  count0_eq : c.count0.toNat = 8 * stream.length % 2 ^ w
  absorbed : Absorbed transform 64 magic stream c.state
    (c.buffer.bytes.take (stream.length % 64))

theorem holds_init (c : Md5Ctx w) : Holds (init c) [] where
  count0_eq := rfl
  absorbed := absorbed_short transform 64 magic [] (by simp only [List.length_nil]; omega)

/-- The buffer is filled as far as the stream does not make blocks. -/
theorem index_of_holds (c : Md5Ctx w) (stream : List Byte) (hw : 32 ≤ w) (h : Holds c stream) :
    (index c).toNat = stream.length % 64 := by
  have hpow : 2 ^ w = 8 * (64 * 2 ^ (w - 9)) := by
    rw [← Nat.mul_assoc, show 8 * 64 = 2 ^ 9 from rfl, ← Nat.pow_add]
    congr 1
    omega
  rw [toNat_index c hw, h.count0_eq, hpow, Nat.mul_mod_mul_left,
    Nat.mul_div_cancel_left _ (by omega)]
  exact Nat.mod_mod_of_dvd _ (Nat.dvd_mul_right _ _)

theorem toNat_count0 (c : Md5Ctx w) (stream : List Byte) (inputLen : BitVec 32) (hw : 32 ≤ w)
    (h : Holds c stream) :
    (count c inputLen).1.toNat = 8 * (stream.length + inputLen.toNat) % 2 ^ w := by
  have hlt : inputLen.toNat < 2 ^ w :=
    Nat.lt_of_lt_of_le inputLen.isLt (Nat.pow_le_pow_right (by omega) hw)
  unfold count
  simp only [BitVec.toNat_add, BitVec.toNat_shiftLeft, BitVec.toNat_setWidth, h.count0_eq]
  rw [Nat.mod_eq_of_lt hlt, Nat.shiftLeft_eq, ← Nat.add_mod]
  congr 1
  omega

/-- What was in a buffer in front of the place bytes are copied to, and these. -/
theorem take_memcpy (b : Buffer 64) (offset n : Nat) (l : List Byte) (hn : n = offset + l.length)
    (h : n ≤ 64) : (memcpy b offset l).bytes.take n = b.bytes.take offset ++ l := by
  have hoff : (b.bytes.take offset).length = offset := by
    rw [List.length_take, b.length_eq]
    omega
  rw [memcpy, List.take_take, Nat.min_eq_left h]
  refine List.take_left' ?_
  rw [List.length_append, hoff, hn]

/-- The input, behind what fills the buffer up. -/
theorem take_cut (input : List Byte) (m n : Nat) (h : m ≤ n) :
    input.take m ++ (input.take n).drop m = input.take n := by
  conv_rhs => rw [← List.take_append_drop m (input.take n)]
  rw [List.take_take, Nat.min_eq_left h]

/-- An update that has room for its input in the buffer. -/
theorem holds_of_room (c : Md5Ctx w) (stream input : List Byte) (hw : 32 ≤ w)
    (h : Holds c stream) (hroom : stream.length % 64 + input.length < 64) :
    Absorbed transform 64 magic (stream ++ input) c.state
      ((memcpy c.buffer (index c).toNat input).bytes.take ((stream ++ input).length % 64)) := by
  have hlen : (stream ++ input).length % 64 = stream.length % 64 + input.length := by
    rw [List.length_append]
    omega
  rw [index_of_holds c stream hw h, hlen, take_memcpy c.buffer _ _ input rfl (by omega)]
  refine absorbed_append transform 64 magic c.state c.state stream _ _ _ h.absorbed ?_
  refine absorbed_short transform 64 c.state _ ?_
  rw [List.length_append, List.length_take, c.buffer.length_eq]
  omega

/-- The buffer, filled up. -/
theorem bytes_memcpy_full (c : Md5Ctx w) (input : List Byte)
    (hlen : 64 - (index c).toNat ≤ input.length) :
    (memcpy c.buffer (index c).toNat (input.take (64 - index c).toNat)).bytes =
      c.buffer.bytes.take (index c).toNat ++ input.take (64 - index c).toNat := by
  have hindex := index_lt c
  have hpl := toNat_partLen (index c) hindex
  rw [← take_memcpy c.buffer (index c).toNat 64 (input.take (64 - index c).toNat)
    (by rw [List.length_take, hpl]; omega) (by omega)]
  exact (List.take_of_length_le (Buffer.length_eq _).le).symm

/-- An update that fills the buffer up: the loop takes what comes behind that. -/
theorem holds_of_full (c : Md5Ctx w) (stream input : List Byte) (inputLen : BitVec 32)
    (hw : 32 ≤ w) (h : Holds c stream) (hlen : inputLen.toNat ≤ input.length)
    (hsum : stream.length % 64 + inputLen.toNat < 2 ^ 32)
    (hpart : 64 ≤ stream.length % 64 + inputLen.toNat) :
    let buffer := memcpy c.buffer (index c).toNat (input.take (64 - index c).toNat)
    ∃ t j, blocks input inputLen (transform c.state buffer.bytes, 64 - index c) = some (t, j) ∧
      Absorbed transform 64 magic (stream ++ input.take inputLen.toNat) t
        ((memcpy buffer 0 ((input.drop j.toNat).take (inputLen - j).toNat)).bytes.take
          ((stream ++ input.take inputLen.toNat).length % 64)) := by
  intro buffer
  have hindex := index_of_holds c stream hw h
  have hpl := toNat_partLen (index c) (by omega)
  have hfull : buffer.bytes = _ := bytes_memcpy_full c input (by omega)
  have halign : Aligned (stream.length % 64) inputLen (64 - index c) := by
    refine ⟨?_, ?_, ?_⟩ <;> rw [hpl] <;> omega
  rcases blocks_absorbs (stream.length % 64) input inputLen (64 - index c)
    (transform c.state buffer.bytes) hlen hsum halign with ⟨t, j, hrun, hj, habs⟩
  refine ⟨t, j, hrun, ?_⟩
  have hwhole : Absorbed transform 64 magic (stream ++ input.take inputLen.toNat) t
      ((input.take inputLen.toNat).drop j.toNat) := by
    have hblock := absorbed_block transform 64 c.state t _ _ _ buffer.length_eq habs
    rw [hfull, List.append_assoc, take_cut input _ _ (by omega), hindex] at hblock
    exact absorbed_append transform 64 magic c.state t stream _ _ _ h.absorbed hblock
  -- What the loop leaves goes to the start of the buffer.
  have hrest : (input.take inputLen.toNat).drop j.toNat =
      (input.drop j.toNat).take (inputLen - j).toNat := by
    have hsub : (inputLen - j).toNat = inputLen.toNat - j.toNat := by
      have hj32 := j.isLt
      rw [BitVec.toNat_sub]
      omega
    rw [List.drop_take, hsub]
  rcases hwhole with ⟨bs, hcut, hfold⟩
  have hrestlen := length_rest 64 bs _ _ hcut
  refine ⟨bs, ?_, hfold⟩
  rw [hrest] at hcut hrestlen
  rw [take_memcpy _ 0 _ _ (by rw [← hrestlen, Nat.zero_add]) (by omega), List.take_zero,
    List.nil_append]
  exact hcut

/-- An update returns when its loop ends, and has absorbed the input then. -/
theorem update_holds (c : Md5Ctx w) (stream input : List Byte) (inputLen : BitVec 32)
    (hw : 32 ≤ w) (h : Holds c stream) (hlen : inputLen.toNat ≤ input.length)
    (hsum : stream.length % 64 + inputLen.toNat < 2 ^ 32) :
    ∃ c', update c input inputLen = some c' ∧ Holds c' (stream ++ input.take inputLen.toNat) ∧
      c'.count0 = (count c inputLen).1 ∧ c'.count1 = (count c inputLen).2 := by
  have hindex := index_of_holds c stream hw h
  have hpl := toNat_partLen (index c) (by omega)
  have htake : (input.take inputLen.toNat).length = inputLen.toNat := by
    rw [List.length_take, Nat.min_eq_left hlen]
  have hcount : (count c inputLen).1.toNat =
      8 * (stream ++ input.take inputLen.toNat).length % 2 ^ w := by
    rw [List.length_append, htake]
    exact toNat_count0 c stream inputLen hw h
  unfold update
  by_cases hpart : 64 - index c ≤ inputLen
  · have hfull : 64 ≤ stream.length % 64 + inputLen.toNat := by
      rw [BitVec.le_def, hpl] at hpart
      omega
    rcases holds_of_full c stream input inputLen hw h hlen hsum hfull with ⟨t, j, hrun, habs⟩
    simp only [if_pos hpart, hrun]
    exact ⟨_, rfl, ⟨hcount, habs⟩, rfl, rfl⟩
  · have hroom : stream.length % 64 + (input.take inputLen.toNat).length < 64 := by
      rw [BitVec.le_def, hpl] at hpart
      omega
    simp only [if_neg hpart]
    exact ⟨_, rfl, ⟨hcount, holds_of_room c stream _ hw h hroom⟩, rfl, rfl⟩

/-- Where the loop of an update starts. -/
def entry (c : Md5Ctx w) (input : List Byte) : Md5State w × BitVec 32 :=
  (transform c.state
    (memcpy c.buffer (index c).toNat (input.take (64 - index c).toNat)).bytes, 64 - index c)

/-- The update comes back: it has no use for its loop, or the loop ends. -/
def Returns (c : Md5Ctx w) (input : List Byte) (inputLen : BitVec 32) : Prop :=
  64 - index c ≤ inputLen → Halts (blocksBody input inputLen) (entry c input)

/-- An update comes back exactly when the bytes in the buffer and the new ones are
    fewer than 2^32. -/
theorem returns_iff_sum (c : Md5Ctx w) (input : List Byte) (inputLen : BitVec 32)
    (hlen : inputLen.toNat ≤ input.length) :
    Returns c input inputLen ↔ (index c).toNat + inputLen.toNat < 2 ^ 32 := by
  have hindex := index_lt c
  by_cases hpart : 64 - index c ≤ inputLen
  · rw [← halts_iff input inputLen (index c) (entry c input).1 hlen hindex hpart]
    exact ⟨fun h => h hpart, fun h _ => h⟩
  · refine ⟨fun _ => ?_, fun _ h => absurd h hpart⟩
    rw [BitVec.le_def, toNat_partLen (index c) hindex] at hpart
    omega

/-- The model's answer says whether the update comes back. -/
theorem isSome_iff_returns (c : Md5Ctx w) (input : List Byte) (inputLen : BitVec 32)
    (hlen : inputLen.toNat ≤ input.length) :
    (update c input inputLen).isSome ↔ Returns c input inputLen := by
  have hindex := index_lt c
  have hpl := toNat_partLen (index c) hindex
  unfold update
  by_cases hpart : 64 - index c ≤ inputLen
  · simp only [if_pos hpart]
    refine ⟨fun h _ => ?_, fun h => ?_⟩
    · rcases hrun : blocks input inputLen (entry c input) with _ | r
      · simp only [entry] at hrun
        simp only [hrun, Option.isSome_none, Bool.false_eq_true] at h
      · exact ⟨r, _, hrun⟩
    · have hsum := (returns_iff_sum c input inputLen hlen).mp h
      rw [BitVec.le_def, hpl] at hpart
      have halign : Aligned (index c).toNat inputLen (64 - index c) := by
        refine ⟨?_, ?_, ?_⟩ <;> rw [hpl] <;> omega
      rcases blocks_absorbs (index c).toNat input inputLen (64 - index c) (entry c input).1 hlen
        hsum halign with ⟨t, j, hrun, -, -⟩
      simp only [entry] at hrun
      simp only [hrun, Option.isSome_some]
  · simp only [if_neg hpart, Option.isSome_some, true_iff]
    exact fun h => absurd h hpart

/-- An update of a context with any count comes back, and is answered, exactly when
    the bytes in the buffer and the new ones are fewer than 2^32. -/
theorem update_isSome_iff (c : Md5Ctx w) (input : List Byte) (inputLen : BitVec 32)
    (hlen : inputLen.toNat ≤ input.length) :
    (Returns c input inputLen ↔ (index c).toNat + inputLen.toNat < 2 ^ 32) ∧
      ((update c input inputLen).isSome ↔ (index c).toNat + inputLen.toNat < 2 ^ 32) := by
  have hreturns := returns_iff_sum c input inputLen hlen
  exact ⟨hreturns, (isSome_iff_returns c input inputLen hlen).trans hreturns⟩

/-- Three bytes are waiting, and with 130 more two blocks are full. -/
theorem update_isSome_iff_waiting :
    let c : Md5Ctx 64 := { zeroed with count0 := 24 }
    Returns c (List.replicate 130 0) 130 ∧ (update c (List.replicate 130 0) 130).isSome := by
  intro c
  have h := update_isSome_iff c (List.replicate 130 0) 130 (by rw [List.length_replicate]; decide)
  exact ⟨h.1.mpr (by decide), h.2.mpr (by decide)⟩

end Md5

end CodecChanger
