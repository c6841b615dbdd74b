import CodecChanger.Core.Download

/-!
# Stripping the Headers off a Datagram

`Recv` of a download session takes up to three headers off whatever comes in.
Each layer tests the length for itself, and the length of the UDP/IP header is
one the packet gives. Together the tests are enough: no header is looked at that
is not inside the datagram, the length that is left never falls below zero, and
what the decoder gets is the rest of the datagram.

A stage starts somewhere inside the datagram with the length that is left from
there on, and that is all the next one relies on.

That nothing else is looked at has a meaning of its own: bytes behind the
datagram, in the buffer it was received in, do not change what the parsers do.

## Main definitions

* `Within`: What a call of `Recv` did stays inside the datagram.

## Theorems

* `within_recvRtp`, `within_recvUdpIp`, `within_recv`: The stages.
* `parsed_recvRtp_append`, `parsed_recvUdpIp_append`, `parsed_recv_append`: The
  stages, with more bytes behind the datagram.
* `recv_stays`: Every call of `Recv` stays inside the datagram.
-/

namespace CodecChanger

open Bytes

variable {χ : Type*}

namespace DownloadSession

/-- Header bytes were looked at inside the datagram only, the length was never
    negative when it was converted, and the call failed before the decoder or
    called it with the rest of the datagram. -/
structure Within (data : List Byte) (r : Received) : Prop where
  looked_le : ∀ t ∈ r.looked, t.1 + t.2 ≤ data.length
  pktLen_nonneg : ∀ n, r.pktLen = some n → 0 ≤ n
  handed_or : (r.ret = -1 ∧ r.handed = none) ∨
    ∃ (k : Nat) (n : Int), r.handed = some (data.drop k, n) ∧ 0 ≤ n ∧ k + n = data.length

theorem within_failed (data : List Byte) : Within data Received.failed where
  looked_le _ ht := absurd ht List.not_mem_nil
  pktLen_nonneg _ hn := absurd hn (by simp only [Received.failed, reduceCtorEq, not_false_eq_true])
  handed_or := Or.inl ⟨rfl, rfl⟩

theorem within_after (data : List Byte) (k n : Nat) (r : Received) (h : Within data r)
    (hkn : k + n ≤ data.length) : Within data (r.after k n) where
  looked_le t ht := by
    rcases List.mem_cons.mp ht with ht | ht
    · rw [ht]
      exact hkn
    · exact h.looked_le t ht
  pktLen_nonneg := h.pktLen_nonneg
  handed_or := h.handed_or

variable (lib : CoderLib χ) (s : DownloadSession χ) (data : List Byte)

/-- A length that is not negative is no shorter than its conversion. -/
theorem toNat_ofInt_le (n : Int) (h : 0 ≤ n) : ((BitVec.ofInt 32 n).toNat : Int) ≤ n := by
  rw [BitVec.toNat_ofInt]
  omega

/-- `DecodeRtpHeader` looks at no more than there is. -/
theorem decodeReach_le (n : Int) (h : 0 ≤ n) :
    (RtpSession.decodeReach (BitVec.ofInt 32 n) : Int) ≤ n := by
  have hlen := toNat_ofInt_le n h
  unfold RtpSession.decodeReach
  split
  · omega
  · omega

theorem within_recvRtp (k : Nat) (n outputLength : Int) (hn : 0 ≤ n) (hk : k + n = data.length) :
    Within data (s.recvRtp lib data k n outputLength).2 := by
  have hlen := toNat_ofInt_le n hn
  have hreach : k + RtpSession.decodeReach (BitVec.ofInt 32 n) ≤ data.length := by
    have hle := decodeReach_le n hn
    omega
  unfold recvRtp
  simp only []
  rcases RtpSession.decodeRtpHeader_cases (data.drop k) (BitVec.ofInt 32 n) with
    hret | ⟨hret, hroom, hdrop⟩
  · rw [if_pos (by omega)]
    refine within_after data k _ _ ⟨?_, fun m hm => ?_, Or.inl ⟨rfl, rfl⟩⟩ hreach
    · exact (within_failed data).looked_le
    · rw [← Option.some.inj hm]
      exact hn
  · -- The header is accepted, and the rest goes to the application.
    rw [if_neg (by omega)]
    simp only [hret, Int.toNat_natCast, hdrop, List.drop_drop]
    refine ⟨fun t ht => ?_, fun m hm => ?_, Or.inr ⟨k + kRtpHeaderSize, _, rfl, ?_, ?_⟩⟩
    · rw [List.mem_singleton.mp ht]
      exact hreach
    · rw [← Option.some.inj hm]
      exact hn
    · omega
    · push_cast
      omega

theorem within_recvUdpIp (k : Nat) (n outputLength : Int) (hn : 0 ≤ n)
    (hk : k + n = data.length) : Within data (s.recvUdpIp lib data k n outputLength).2 := by
  have hreach := udpReach_le (data.drop k) n hn
  unfold recvUdpIp
  split
  · refine within_after data k _ _ ?_ (by omega)
    rcases udpParser_cases (data.drop k) n with hret | ⟨m, hret, -, hle⟩
    · rw [if_pos (by omega)]
      exact within_failed data
    · rw [if_neg (by omega), hret, Int.toNat_natCast]
      exact within_recvRtp lib s data (k + m) (n - m) outputLength (by omega)
        (by push_cast; omega)
  · exact within_recvRtp lib s data k n outputLength hn hk

/-- The part of a packet that lies behind an offset, with more bytes behind it. -/
theorem take_drop_append (rest : List Byte) (k n : Nat) (h : k + n ≤ data.length) :
    ((data ++ rest).drop k).take n = (data.drop k).take n := by
  rw [List.drop_append_of_le_length (by omega), List.take_append_of_le_length (by
    rw [List.length_drop]
    omega)]

theorem parsed_after (k n : Nat) (r r' : Received) (h : r.parsed = r'.parsed) :
    (r.after k n).parsed = (r'.after k n).parsed := by
  simp only [Received.parsed, Prod.mk.injEq] at h ⊢
  exact ⟨by rw [Received.after, Received.after, h.1], h.2⟩

theorem parsed_recvRtp_append (rest : List Byte) (k : Nat) (n outputLength : Int) (hn : 0 ≤ n)
    (hk : k + n = data.length) :
    (s.recvRtp lib (data ++ rest) k n outputLength).2.parsed =
      (s.recvRtp lib data k n outputLength).2.parsed := by
  have hreach : k + RtpSession.decodeReach (BitVec.ofInt 32 n) ≤ data.length := by
    have hle := decodeReach_le n hn
    omega
  -- The header is all that is looked at, and it is inside the datagram.
  have hret : (RtpSession.decodeRtpHeader ((data ++ rest).drop k) (BitVec.ofInt 32 n)).1 =
      (RtpSession.decodeRtpHeader (data.drop k) (BitVec.ofInt 32 n)).1 := by
    rw [← (RtpSession.decodeRtpHeader_take _ _).1, take_drop_append data rest k _ hreach,
      (RtpSession.decodeRtpHeader_take _ _).1]
  unfold recvRtp
  simp only [hret]
  split
  · rfl
  · rfl

theorem parsed_recvUdpIp_append (rest : List Byte) (k : Nat) (n outputLength : Int)
    (hn : 0 ≤ n) (hk : k + n = data.length) :
    (s.recvUdpIp lib (data ++ rest) k n outputLength).2.parsed =
      (s.recvUdpIp lib data k n outputLength).2.parsed := by
  have hdrop : (data ++ rest).drop k = data.drop k ++ rest :=
    List.drop_append_of_le_length (by omega)
  have hlength : n = (data.drop k).length := by
    rw [List.length_drop]
    omega
  have hreach : udpReach ((data ++ rest).drop k) n = udpReach (data.drop k) n := by
    rw [hdrop]
    exact udpReach_append (data.drop k) rest n hlength
  have hle := udpReach_le (data.drop k) n hn
  -- The parser reaches as far in both, and there they agree.
  have hparse : udpParser ((data ++ rest).drop k) n = udpParser (data.drop k) n := by
    rw [← udpParser_take, hreach, take_drop_append data rest k _ (by omega), udpParser_take]
  unfold recvUdpIp
  rw [hparse, hreach]
  split
  · refine parsed_after k _ _ _ ?_
    rcases udpParser_cases (data.drop k) n with hret | ⟨m, hret, -, hle⟩
    · rw [if_pos (by omega), if_pos (by omega)]
    · rw [if_neg (by omega), if_neg (by omega), hret, Int.toNat_natCast]
      exact parsed_recvRtp_append lib s data rest (k + m) (n - m) outputLength (by omega)
        (by push_cast; omega)
  · exact parsed_recvRtp_append lib s data rest k n outputLength hn hk

/-- What lies behind the datagram does not change what the parsers do. -/
theorem parsed_recv_append (rest : List Byte) (outputLength : Int) :
    (s.recv lib (data ++ rest) data.length outputLength).2.parsed =
      (s.recv lib data data.length outputLength).2.parsed := by
  have hrecv : s.scRecv.recv (data ++ rest) data.length 0 = s.scRecv.recv data data.length 0 := by
    rw [← SC.recv_take s.scRecv (data ++ rest), ← SC.recv_take s.scRecv data]
    unfold SC.recvReach
    split
    · rfl
    · rw [List.take_append_of_le_length (by omega)]
  have hcases := SC.recv_cases s.scRecv data data.length 0
  unfold recv
  rw [hrecv]
  -- From here on only the length that SC returns matters.
  generalize s.scRecv.recv data data.length 0 = got at hcases ⊢
  rcases got with ⟨scRecv, scLen, lostPack⟩
  split
  · refine parsed_after 0 _ _ _ ?_
    simp only [] at hcases
    rcases hcases with hret | ⟨hret, hlen⟩
    · rw [if_pos (by omega), if_pos (by omega)]
    · rw [if_neg (by omega), if_neg (by omega)]
      exact parsed_recvUdpIp_append lib _ data rest kSCHeadSize _ outputLength (by omega)
        (by omega)
  · exact parsed_recvUdpIp_append lib s data rest 0 data.length outputLength (by omega)
      (by omega)

theorem within_recv (outputLength : Int) :
    Within data (s.recv lib data data.length outputLength).2 := by
  have hreach : SC.recvReach (data.length : Int) ≤ data.length := by
    unfold SC.recvReach
    split
    · exact Nat.zero_le _
    · omega
  have hcases := SC.recv_cases s.scRecv data data.length 0
  unfold recv
  generalize s.scRecv.recv data data.length 0 = got at hcases ⊢
  rcases got with ⟨scRecv, scLen, lostPack⟩
  split
  · refine within_after data 0 _ _ ?_ (by omega)
    simp only [] at hcases
    rcases hcases with hret | ⟨hret, hlen⟩
    · rw [if_pos (by omega)]
      exact within_failed data
    · rw [if_neg (by omega)]
      exact within_recvUdpIp lib _ data kSCHeadSize _ outputLength (by omega) (by omega)
  · exact within_recvUdpIp lib s data 0 data.length outputLength (by omega) (by omega)

/-- Every call of `Recv` stays inside the datagram, whatever the datagram is, with
    every option and in every state, and what lies behind the datagram does not
    change what the parsers do. -/
theorem recv_stays (outputLength : Int) :
    Within data (s.recv lib data data.length outputLength).2 ∧
      ∀ rest, (s.recv lib (data ++ rest) data.length outputLength).2.parsed =
        (s.recv lib data data.length outputLength).2.parsed :=
  ⟨within_recv lib s data outputLength,
    fun rest => parsed_recv_append lib s data rest outputLength⟩

end DownloadSession

end CodecChanger
