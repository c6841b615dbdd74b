import CodecChanger.Core.UdpPacker
import CodecChanger.Lib.OnesComplement
import CodecChanger.Lib.Trace

/-!
# Checksums

`CheckSum` adds up words in an `int` and brings the carries round at the end, twice.
That is a one's complement sum whatever the words are, as long as the plain sum is a
number of two words, and with up to 65534 bytes it is and even fits the `int`.

What is stored in place of a zero word is the complement of the sum of the others, so
the words then add up to the word of ones, whose complement is zero. The IP header is
such a case: `GenerateHeader` clears the field, whatever it held, before it computes
the checksum, so that no call depends on the calls before it.

## Main definitions

* `evened`: Bytes with a zero behind an odd one.
* `accumulators`: The values that `sum` takes in `CheckSum`.
* `UdpPacker.generated`: A packer after some headers.

## Theorems

* `checkSum_eq`: `CheckSum` is the complement of a one's complement sum.
* `accumulators_lt`: No value of `sum` overflows.
* `sum_checkSum`: What the words add up to with the checksum in place.
* `checkSum_verifies`: Checksums verify, those of IP headers among them.
-/

namespace CodecChanger

open Bytes OnesComplement

/-- An odd byte at the end is the low byte of a word. -/
def evened (m : List Byte) : List Byte := if m.length % 2 = 1 then m ++ [0] else m

/-- The values that the `int sum` of `CheckSum` takes. -/
def accumulators (m : List Byte) : List Nat :=
  let words := words16 (evened m)
  let sum := words.foldl (fun sum w => sum + w.toNat) 0
  let folded := sum / 2 ^ 16 + sum % 2 ^ 16
  words.scanl (fun sum w => sum + w.toNat) 0 ++ [folded, folded + folded / 2 ^ 16]

/-- The words are added up. -/
theorem foldl_eq_total (l : List (BitVec 16)) (n : Nat) :
    l.foldl (fun sum w => sum + w.toNat) n = n + total l := by
  induction l generalizing n with
  | nil => rfl
  | cons w l ih =>
      rw [List.foldl_cons, ih, Nat.add_assoc]
      rfl

/-- A partial sum is at most the whole. -/
theorem le_of_mem_scanl (l : List (BitVec 16)) (n s : Nat)
    (hs : s ∈ l.scanl (fun sum w => sum + w.toNat) n) : s ≤ n + total l := by
  induction l generalizing n with
  | nil =>
      rw [List.scanl_nil, List.mem_singleton] at hs
      rw [hs]
      exact Nat.le_add_right n _
  | cons w l ih =>
      have htotal : total (w :: l) = w.toNat + total l := rfl
      rw [List.scanl_cons] at hs
      rcases List.mem_cons.mp hs with hfirst | hrest
      · rw [hfirst]
        exact Nat.le_add_right n _
      · have hle := ih (n + w.toNat) hrest
        omega

/-- The sum of the words of some bytes. -/
theorem total_words16_le (m : List Byte) : total (words16 m) ≤ m.length / 2 * 65535 := by
  have hle := total_le (words16 m)
  rw [length_words16] at hle
  exact hle

/-- `CheckSum` is the complement of the one's complement sum of the words. -/
theorem checkSum_eq (m : List Byte) (hm : m.length ≤ 2 ^ 16) :
    checkSum m = ~~~sum (words16 (evened m)) := by
  have hlen : (evened m).length ≤ 2 ^ 16 := by
    unfold evened
    split
    · rw [List.length_append, List.length_singleton]
      omega
    · exact hm
  have hle := total_words16_le (evened m)
  have hfold := foldl_eq_total (words16 (evened m)) 0
  rw [Nat.zero_add] at hfold
  -- The two folds and the one's complement sum stand for the same plain sum.
  have htwo := standsFor_two_carries (w := 16) (total (words16 (evened m))) (by omega)
  rw [← standsFor_unique _ _ _ htwo (standsFor_sum _), ← hfold]
  rfl

/-- No value of `sum` overflows an `int`. -/
theorem accumulators_lt (m : List Byte) (heven : m.length % 2 = 0) (hm : m.length ≤ 65534)
    (s : Nat) (hs : s ∈ accumulators m) : s < 2 ^ 31 := by
  have hevened : evened m = m := if_neg (by omega)
  have hle := total_words16_le m
  simp only [accumulators, hevened, foldl_eq_total, Nat.zero_add] at hs
  -- The partial sums, and then the two folds, which are smaller.
  rcases List.mem_append.mp hs with hsums | hfolds
  · have hpart := le_of_mem_scanl (words16 m) 0 s hsums
    omega
  · rcases List.mem_cons.mp hfolds with hfirst | hsecond
    · omega
    · rw [List.mem_singleton] at hsecond
      omega

/-- With the checksum in place of a zero word, the words add up to the word of
    ones. -/
theorem sum_checkSum (m : List Byte) (k : Nat) (heven : m.length % 2 = 0)
    (hm : m.length ≤ 65534) (hk : 2 * k < m.length) :
    sum (words16 (store16 m (2 * k) (checkSum (store16 m (2 * k) 0)))) = BitVec.allOnes 16 := by
  have hlen := length_store16 m (2 * k) 0
  have hzeroed : evened (store16 m (2 * k) 0) = store16 m (2 * k) 0 := if_neg (by omega)
  rw [checkSum_eq _ (by omega), hzeroed, words16_store16 m k _ (by omega),
    words16_store16 m k _ (by omega)]
  -- A word and its complement make the word of ones.
  exact sum_set_complement (by omega) _ k (by rw [length_words16]; omega)

/-- So the checksum of these words is zero. -/
theorem checkSum_checkSum (m : List Byte) (k : Nat) (heven : m.length % 2 = 0)
    (hm : m.length ≤ 65534) (hk : 2 * k < m.length) :
    checkSum (store16 m (2 * k) (checkSum (store16 m (2 * k) 0))) = 0 := by
  have hlen := length_store16 m (2 * k) (checkSum (store16 m (2 * k) 0))
  have hstored : evened (store16 m (2 * k) (checkSum (store16 m (2 * k) 0))) =
      store16 m (2 * k) (checkSum (store16 m (2 * k) 0)) := if_neg (by omega)
  rw [checkSum_eq _ (by omega), hstored, sum_checkSum m k heven hm hk, BitVec.not_allOnes]
  rfl

namespace UdpPacker

/-- The packer after the headers of some packets. -/
def generated (q : UdpPacker) (packLens : List Int) : UdpPacker :=
  Trace.run (fun q packLen => (q.generateHeader packLen).1) q packLens

/-- The IP header is stored with its checksum in place of a zero word. -/
theorem take_generateHeader (q : UdpPacker) (packLen : Int) :
    ∃ m : List Byte, m.length = 20 ∧
      (q.generateHeader packLen).2.1.take 20 =
        store16 m (2 * 5) (checkSum (store16 m (2 * 5) 0)) :=
  ⟨Ip.store { q.iphdr with
    len := swap16 (BitVec.ofInt 16 (kIpHeaderLen + kUdpHeaderLen + packLen))
    id := swap16 (swap16 q.iphdr.id + 1)
    sum := 0 }, rfl, rfl⟩

/-- The words of every IP header add up to the word of ones. -/
theorem sum_generateHeader (q : UdpPacker) (packLen : Int) :
    sum (words16 ((q.generateHeader packLen).2.1.take 20)) = BitVec.allOnes 16 := by
  rcases take_generateHeader q packLen with ⟨m, hlen, hstore⟩
  rw [hstore]
  exact sum_checkSum m 5 (by omega) (by omega) (by omega)

end UdpPacker

/-- With its checksum in place of a word, a byte string of even length has checksum
    zero, and neither computation overflows; and the words of the IP header add up
    to the word of ones in every call of every run of a packer that was set up. -/
theorem checkSum_verifies :
    (∀ (m : List Byte) (offset : Nat), m.length % 2 = 0 → m.length ≤ 65534 → offset % 2 = 0 →
        offset < m.length →
      checkSum (store16 m offset (checkSum (store16 m offset 0))) = 0 ∧
        (∀ s ∈ accumulators (store16 m offset 0), s < 2 ^ 31) ∧
        ∀ s ∈ accumulators (store16 m offset (checkSum (store16 m offset 0))), s < 2 ^ 31) ∧
    ∀ (q : UdpPacker) (srcIp dstIp : List Char) (srcPort dstPort : BitVec 16)
        (earlier : List Int) (packLen : Int), 0 ≤ packLen → packLen ≤ 65507 →
      sum (words16 (((((q.setIpPort srcIp srcPort dstIp dstPort).1.generated
        earlier).generateHeader packLen).2.1).take kIpHeaderLen)) = BitVec.allOnes 16 := by
  refine ⟨?_, ?_⟩
  · intro m offset heven hm hoffset hlt
    rw [show offset = 2 * (offset / 2) by omega]
    refine ⟨checkSum_checkSum m _ heven hm (by omega), ?_, ?_⟩
    · exact accumulators_lt _ (by rw [length_store16]; omega) (by rw [length_store16]; omega)
    · exact accumulators_lt _ (by rw [length_store16]; omega) (by rw [length_store16]; omega)
  · intro q srcIp dstIp srcPort dstPort earlier packLen _ _
    exact UdpPacker.sum_generateHeader _ packLen

/-- Four bytes, with their checksum in the second word, and the second header of a
    packer. -/
theorem checkSum_verifies_four :
    checkSum (store16 [1, 2, 3, 4] 2 (checkSum (store16 [1, 2, 3, 4] 2 0))) = 0 ∧
      sum (words16 ((((UdpPacker.setIpPort ⟨Ip.zero, Udphdr.zero⟩
        ['1', '.', '2', '.', '3', '.', '4'] 5060
        ['5', '.', '6', '.', '7', '.', '8'] 5062).1.generated [160]).generateHeader
          160).2.1.take kIpHeaderLen)) = BitVec.allOnes 16 :=
  ⟨(checkSum_verifies.1 [1, 2, 3, 4] 2 (by decide) (by decide) (by decide) (by decide)).1,
    checkSum_verifies.2 ⟨Ip.zero, Udphdr.zero⟩ ['1', '.', '2', '.', '3', '.', '4']
      ['5', '.', '6', '.', '7', '.', '8'] 5060 5062 [160] 160 (by decide) (by decide)⟩

end CodecChanger
