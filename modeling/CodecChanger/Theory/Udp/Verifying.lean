import CodecChanger.Core.UdpChecksum
import CodecChanger.Theory.Udp.Checksum

/-!
# Verifying the UDP Checksum

`UdpChecksum` is a one's complement sum as it should be, and over a record that held the
bytes a receiver adds up, it would give the checksum of the protocol. The record does not
hold them: the byte 17 for the protocol and the zero beside it are in each other's
places, which makes 17 out of the word 4352, and `GenerateHeader` leaves the last 28
bytes of the data out.

So the sum that a receiver forms is off by 4335 and the words that were left out. Were
the checksum sent, a datagram would verify only by the accident that both make a
multiple of 65535; with nothing but zeros at the end of the data it never does. What
is sent says that there is no checksum.

## Main definitions

* `UdpPacker.segment`: The bytes a receiver adds up.
* `UdpPacker.leftOut`: What `GenerateHeader` leaves out of the sum.

## Theorems

* `udpChecksum_eq`: `UdpChecksum` is the complement of a one's complement sum.
* `total_evened_append`: The plain sum of two stretches of bytes.
* `total_segment`: What the receiver adds up, and what `UdpChecksum` does.
* `udpSum_verifies_iff`: When the checksum verifies.
-/

namespace CodecChanger

open Bytes OnesComplement

/-- `UdpChecksum` is the complement of the one's complement sum of the words of both. -/
theorem udpChecksum_eq (h d : List Byte)
    (hlt : total (words16 h ++ words16 (evened d)) < 2 ^ 16 * 2 ^ 16) :
    udpChecksum h d = ~~~sum (words16 h ++ words16 (evened d)) := by
  have hfold := foldl_eq_total (words16 h ++ words16 (evened d)) 0
  rw [Nat.zero_add, List.foldl_append] at hfold
  have htwo := standsFor_two_carries (w := 16) _ hlt
  rw [← standsFor_unique _ _ _ htwo (standsFor_sum _), ← hfold]
  rfl

theorem length_evened_le (m : List Byte) : (evened m).length ≤ m.length + 1 := by
  unfold evened
  split
  · rw [List.length_append, List.length_singleton]
  · exact Nat.le_succ _

theorem evened_cons_cons (b₀ b₁ : Byte) (m : List Byte) :
    evened (b₀ :: b₁ :: m) = b₀ :: b₁ :: evened m := by
  have hlen : (b₀ :: b₁ :: m).length % 2 = m.length % 2 := by
    simp only [List.length_cons]
    omega
  rw [evened, evened, hlen]
  split <;> rfl

/-- The plain sum of two stretches of bytes. Behind an odd one, the first byte of the
    second is the high byte of a word. -/
theorem total_evened_append (m l : List Byte) :
    total (words16 (evened (m ++ l))) = total (words16 (evened m)) +
      total (words16 (evened (if m.length % 2 = 1 then 0 :: l else l))) := by
  induction m using words16.induct with
  | case1 b₀ b₁ m ih =>
      have hlen : (b₀ :: b₁ :: m).length % 2 = m.length % 2 := by
        simp only [List.length_cons]
        omega
      rw [hlen, List.cons_append, List.cons_append, evened_cons_cons, evened_cons_cons]
      change (word16 b₀ b₁).toNat + total (words16 (evened (m ++ l))) =
        (word16 b₀ b₁).toNat + total (words16 (evened m)) + _
      rw [ih, Nat.add_assoc]
  | case2 m hm =>
      -- There is one byte at most.
      cases m with
      | nil =>
          have hzero : total (words16 (evened [])) = 0 := rfl
          rw [hzero, Nat.zero_add]
          rfl
      | cons b m =>
          have hm : m = [] := by
            cases m with
            | nil => rfl
            | cons b₁ m => exact absurd rfl (hm b b₁ m)
          subst hm
          have hzero : (0 : Byte).toNat = 0 := rfl
          have hsingle : total (words16 (evened [b])) = b.toNat := by
            change (word16 b 0).toNat + 0 = b.toNat
            rw [toNat_word16, hzero]
            omega
          rw [hsingle]
          cases l with
          | nil =>
              change total (words16 (evened [b])) = b.toNat + total (words16 (evened [0]))
              rw [hsingle]
              rfl
          | cons c l =>
              change total (words16 (evened (b :: c :: l))) =
                b.toNat + total (words16 (evened (0 :: c :: l)))
              rw [evened_cons_cons, evened_cons_cons]
              change (word16 b c).toNat + total (words16 (evened l)) =
                b.toNat + ((word16 0 c).toNat + total (words16 (evened l)))
              rw [toNat_word16, toNat_word16]
              omega

namespace UdpPacker

/-- What a receiver adds up: the pseudo header, with the zero in front of the protocol,
    the UDP header with `sum` for its checksum, and the data. -/
def segment (q : UdpPacker) (sum : BitVec 16) (payload : List Byte) : List Byte :=
  let udp := (q.generateHeader payload.length).1.udphdr
  bytes32 q.iphdr.src ++ bytes32 q.iphdr.dst ++ [0, ipprotoUdp] ++ bytes16 udp.ulen ++
    { udp with sum := sum }.store ++ payload

/-- The end of the data, which `GenerateHeader` leaves out. Where an odd number of
    bytes is added up, the first of it is the high byte of a word. -/
def leftOut (payload : List Byte) : List Byte :=
  let n := payload.length - kUdpIpLen
  if n % 2 = 1 then 0 :: payload.drop n else payload.drop n

theorem even_addresses (q : UdpPacker) :
    (bytes32 q.iphdr.src ++ bytes32 q.iphdr.dst).length % 2 = 0 := by
  have hsrc : (bytes32 q.iphdr.src).length = 4 := rfl
  have hdst : (bytes32 q.iphdr.dst).length = 4 := rfl
  rw [List.length_append]
  omega

/-- The words of a record with two bytes among them. -/
theorem words16_record (m : List Byte) (b₀ b₁ : Byte) (l : List (BitVec 16))
    (hm : m.length % 2 = 0) :
    words16 (m ++ ([b₀, b₁] ++ l.flatMap bytes16)) = words16 m ++ word16 b₀ b₁ :: l := by
  rw [words16_append m _ hm]
  change words16 m ++ word16 b₀ b₁ :: words16 (l.flatMap bytes16) = _
  rw [words16_flatMap]

/-- The words of the record. -/
theorem words16_feakHeader (q : UdpPacker) (packLen : Int) :
    words16 (q.feakHeader packLen).store =
      words16 (bytes32 q.iphdr.src ++ bytes32 q.iphdr.dst) ++ word16 ipprotoUdp 0 ::
        [(q.generateHeader packLen).1.udphdr.ulen, q.udphdr.sport, q.udphdr.dport,
          (q.generateHeader packLen).1.udphdr.ulen, 0] := by
  rw [← words16_record _ ipprotoUdp 0 _ (even_addresses q)]
  rfl

/-- The words in front of the data, as a receiver reads them. -/
theorem segment_eq (q : UdpPacker) (sum : BitVec 16) (payload : List Byte) :
    ∃ head : List Byte, q.segment sum payload = head ++ payload ∧ head.length = 20 ∧
      words16 head =
        words16 (bytes32 q.iphdr.src ++ bytes32 q.iphdr.dst) ++ word16 0 ipprotoUdp ::
          [(q.generateHeader payload.length).1.udphdr.ulen, q.udphdr.sport, q.udphdr.dport,
            (q.generateHeader payload.length).1.udphdr.ulen, sum] := by
  refine ⟨_, rfl, rfl, ?_⟩
  rw [← words16_record _ 0 ipprotoUdp _ (even_addresses q)]
  rfl

/-- The receiver's plain sum is that of `UdpChecksum`, with the checksum, the words that
    were left out, and the difference of the two bytes in each other's places. -/
theorem total_segment (q : UdpPacker) (sum : BitVec 16) (payload : List Byte) :
    total (words16 (evened (q.segment sum payload))) =
      total (words16 (q.feakHeader payload.length).store ++
        words16 (evened (payload.take (payload.length - kUdpIpLen)))) + sum.toNat +
        (4335 + total (words16 (evened (leftOut payload)))) := by
  rcases q.segment_eq sum payload with ⟨head, hsegment, hlen, hhead⟩
  have heven : evened head = head := if_neg (by omega)
  have hdata : total (words16 (evened payload)) =
      total (words16 (evened (payload.take (payload.length - kUdpIpLen)))) +
        total (words16 (evened (leftOut payload))) := by
    conv => lhs; rw [← List.take_append_drop (payload.length - kUdpIpLen) payload]
    rw [total_evened_append, List.length_take, Nat.min_eq_left (Nat.sub_le _ _)]
    rfl
  have hsum : total (words16 head) =
      total (words16 (q.feakHeader payload.length).store) + sum.toNat + 4335 := by
    have hright : (word16 0 ipprotoUdp).toNat = 4352 := rfl
    have hwrong : (word16 ipprotoUdp 0).toNat = 17 := rfl
    have hzero : (0 : BitVec 16).toNat = 0 := rfl
    rw [hhead, words16_feakHeader, total_append, total_append]
    simp only [total, List.map_cons, List.map_nil, List.sum_cons, List.sum_nil]
    omega
  rw [hsegment, total_evened_append, hlen, if_neg (by decide), heven, hsum, hdata, total_append]
  omega

/-- No value of the `int` overflows. -/
theorem total_lt (q : UdpPacker) (payload : List Byte) (h : payload.length ≤ 65507) :
    total (words16 (q.feakHeader payload.length).store ++
      words16 (evened (payload.take (payload.length - kUdpIpLen)))) < 2 ^ 31 := by
  have hlen : (q.feakHeader payload.length).store.length = 20 := rfl
  have hrecord := total_words16_le (q.feakHeader payload.length).store
  have hdata := total_words16_le (evened (payload.take (payload.length - kUdpIpLen)))
  have hevened := length_evened_le (payload.take (payload.length - kUdpIpLen))
  rw [List.length_take, Nat.min_eq_left (Nat.sub_le _ _)] at hevened
  simp only [kUdpIpLen, kIpHeaderLen, kUdpHeaderLen] at hevened hdata ⊢
  rw [total_append]
  omega

/-- Were it sent, the checksum that `GenerateHeader` computes would verify exactly when
    the words that were left out and 4335 make a multiple of the modulus; and no value of
    the `int` overflows on the way. -/
theorem udpSum_verifies_iff (q : UdpPacker) (header payload : List Byte)
    (hheader : header.length = kUdpIpLen) (hpayload : payload.length ≤ 65507) :
    (sum (words16 (evened (q.segment (q.udpSum (header ++ payload) payload.length) payload))) =
        BitVec.allOnes 16 ↔
      (4335 + total (words16 (evened (leftOut payload)))) % 65535 = 0) ∧
    total (words16 (q.feakHeader payload.length).store ++
      words16 (evened (payload.take (payload.length - kUdpIpLen)))) < 2 ^ 31 := by
  have hint := q.total_lt payload hpayload
  have hmade : q.udpSum (header ++ payload) payload.length =
      ~~~sum (words16 (q.feakHeader payload.length).store ++
        words16 (evened (payload.take (payload.length - kUdpIpLen)))) := by
    have hnat : ((payload.length : Int) - (kUdpIpLen : Nat)).toNat =
        payload.length - kUdpIpLen := by omega
    rw [udpSum, ← hheader, List.drop_left, hheader, hnat, udpChecksum_eq _ _ (by omega)]
  -- The checksum and what it is made of stand for the word of ones, a multiple of the modulus.
  have hall := standsFor_complement (by decide : 0 < 16) _ _ (standsFor_sum
    (words16 (q.feakHeader payload.length).store ++
      words16 (evened (payload.take (payload.length - kUdpIpLen)))))
  rw [← hmade] at hall
  refine ⟨?_, hint⟩
  rw [sum_eq_allOnes_iff (by decide), total_segment]
  have hmod : _ % 65535 = 0 := hall.2.symm
  constructor
  · intro h
    omega
  · intro h
    omega

/-- Two payloads of a packer that was set up: the one verifies, being the accident, the
    other does not. -/
theorem udpSum_verifies_iff_two :
    let q := (UdpPacker.setIpPort ⟨Ip.zero, Udphdr.zero⟩ ['1', '.', '2', '.', '3', '.', '4'] 5060
      ['5', '.', '6', '.', '7', '.', '8'] 5062).1
    let verifies := fun payload : List Byte =>
      sum (words16 (evened (q.segment
        (q.udpSum (List.replicate kUdpIpLen 0 ++ payload) payload.length) payload))) =
      BitVec.allOnes 16
    verifies [0x10, 0xEF] ∧ ¬verifies [1, 2, 3] :=
  ⟨(udpSum_verifies_iff _ (List.replicate kUdpIpLen 0) [0x10, 0xEF] rfl (by decide)).1.mpr
      (by decide),
    fun h => absurd
      ((udpSum_verifies_iff _ (List.replicate kUdpIpLen 0) [1, 2, 3] rfl (by decide)).1.mp h)
      (by decide)⟩

end UdpPacker

end CodecChanger
