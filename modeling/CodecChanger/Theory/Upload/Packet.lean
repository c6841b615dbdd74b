import CodecChanger.Core.Upload

/-!
# The Packets of an Upload Session

What a successful `Send` leaves in the output and in the session. The payload is
written first and the headers in front of it, one by one and the innermost first;
in the end the output starts with the whole packet, the outermost header first.
And a `Send` that fails does so before any of the layers has been called.

## Main definitions

* `scHead`, `udpIpHead`, `rtpHead`: The next header of each layer.
* `head`: All of them, in front of a payload.
* `packed`: The session when they have been made.
* `Packs`: The coders make a payload.

## Theorems

* `length_head`: How long the headers are.
* `send_of_packs`: With a payload, a packet is made.
* `send_of_not_packs`: Without one, no layer is called.
* `send_keeps`: What new coders and the headers keep, `Send` keeps.
* `send_nonneg_iff`: A `Send` succeeds exactly when there is a payload.
-/

namespace CodecChanger

open Bytes

variable {χ : Type*}

namespace UploadSession

/-- The SC header in front of `n` bytes. -/
def scHead (s : UploadSession χ) (n : Int) : List Byte :=
  if s.param.ifSendSc then (scCopyToNet (s.scSend.nextHeader (BitVec.ofInt 16 n))).store else []

/-- The UDP/IP header. -/
def udpIpHead (s : UploadSession χ) : List Byte :=
  if s.param.ifAddUdpip then (s.udp.generateHeader kUdpIpLen).2.1 else []

/-- The RTP header. -/
def rtpHead (s : UploadSession χ) : List Byte := s.rtp.sendHeader.swap.store

/-- How many bytes the SC header is told are behind it, with a payload of `c`. -/
def scLength (s : UploadSession χ) (c : Int) : Int :=
  c + kRtpHeaderSize + (udpIpHead s).length

/-- The headers in front of a payload of `c` bytes. -/
def head (s : UploadSession χ) (c : Int) : List Byte :=
  scHead s (scLength s c) ++ udpIpHead s ++ rtpHead s

/-- The session when the headers in front of a payload of `c` bytes, made of
    `pcmLen` bytes of PCM, have been generated. -/
def packed (s : UploadSession χ) (pcmLen c : Int) : UploadSession χ :=
  { s with
    rtp := (s.rtp.generateRtpHeader kRtpHeaderSize (pcmLen / kPcmFrameLength)).1
    udp := if s.param.ifAddUdpip then (s.udp.generateHeader kUdpIpLen).1 else s.udp
    scSend := if s.param.ifSendSc then
        { s.scSend with
          sendHeader := s.scSend.nextHeader (BitVec.ofInt 16 (scLength s c)) }
      else s.scSend }

variable (lib : CoderLib χ) (s : UploadSession χ) (out : Memory)

theorem length_scHead (n : Int) : (scHead s n).length = udpOffset s.param := by
  unfold scHead udpOffset
  split
  · exact length_store _
  · rfl

theorem length_udpIpHead :
    (udpIpHead s).length = if s.param.ifAddUdpip then kUdpIpLen else 0 := by
  unfold udpIpHead
  split
  · exact UdpPacker.length_generateHeader _ _
  · rfl

/-- How long the headers are. -/
theorem length_head (c : Int) : (head s c).length = rtpOffset s.param + kRtpHeaderSize := by
  unfold head rtpOffset
  rw [List.length_append, List.length_append, length_scHead, length_udpIpHead]
  rfl

/-- The SC header is written to the start of the output. -/
theorem sendSc_eq (n : Int) :
    s.sendSc out n =
      ({ s with scSend := if s.param.ifSendSc then
            { s.scSend with sendHeader := s.scSend.nextHeader (BitVec.ofInt 16 n) }
          else s.scSend },
        out.store 0 (scHead s n), n + udpOffset s.param) := by
  unfold sendSc scHead udpOffset
  by_cases hsc : s.param.ifSendSc = true
  · have hdrop : (out.read 0 kSCHeadSize).drop kSCHeadSize = [] := List.drop_of_length_le (by
      simp only [Memory.read, List.length_map, List.length_range, le_refl])
    simp only [if_pos hsc]
    rw [SC.send_eq _ _ _ _ (le_refl _), hdrop, List.append_nil]
    simp only []
    rw [if_neg (by unfold kSCHeadSize; omega)]
  · simp only [if_neg hsc, Memory.store_nil]
    rw [Nat.cast_zero, add_zero]

/-- The UDP/IP header is written behind it. -/
theorem sendUdpIp_eq (n : Int) :
    s.sendUdpIp out n =
      ({ s with
          udp := if s.param.ifAddUdpip then (s.udp.generateHeader kUdpIpLen).1 else s.udp
          scSend := if s.param.ifSendSc then
              { s.scSend with
                sendHeader := s.scSend.nextHeader (BitVec.ofInt 16 (n + (udpIpHead s).length)) }
            else s.scSend },
        out.store 0 (scHead s (n + (udpIpHead s).length) ++ udpIpHead s),
        n + rtpOffset s.param) := by
  have hstore : (out.store (udpOffset s.param) (udpIpHead s)).store 0
      (scHead s (n + (udpIpHead s).length)) =
        out.store 0 (scHead s (n + (udpIpHead s).length) ++ udpIpHead s) := by
    rw [← Memory.store_store, Nat.zero_add, length_scHead]
  rw [← hstore]
  unfold sendUdpIp rtpOffset
  by_cases hadd : s.param.ifAddUdpip = true
  · have hlen : (udpIpHead s).length = kUdpIpLen := by rw [length_udpIpHead, if_pos hadd]
    have hret : (s.udp.generateHeader kUdpIpLen).2.2 = (kUdpIpLen : Int) := rfl
    rw [hlen]
    unfold udpIpHead
    simp only [if_pos hadd, hret]
    rw [if_neg (by omega), sendSc_eq]
    simp only [scHead, Prod.mk.injEq, true_and]
    omega
  · have hlen : (udpIpHead s).length = 0 := by rw [length_udpIpHead, if_neg hadd]
    rw [List.eq_nil_of_length_eq_zero hlen, Memory.store_nil]
    simp only [if_neg hadd, List.length_nil, Nat.cast_zero, add_zero]
    rw [sendSc_eq]

/-- The RTP header is written behind both. -/
theorem sendRtp_eq (pcmLen c : Int) :
    s.sendRtp out pcmLen c =
      (packed s pcmLen c, out.store 0 (head s c), c + kRtpHeaderSize + rtpOffset s.param) := by
  have hgen : s.rtp.generateRtpHeader kRtpHeaderSize (pcmLen / kPcmFrameLength) =
      ((s.rtp.generateRtpHeader kRtpHeaderSize (pcmLen / kPcmFrameLength)).1, rtpHead s,
        (kRtpHeaderSize : Int)) := rfl
  have hoffset : rtpOffset s.param = 0 + (scHead s (scLength s c) ++ udpIpHead s).length := by
    unfold rtpOffset
    rw [List.length_append, length_scHead, length_udpIpHead, Nat.zero_add]
  have hstore : (out.store (rtpOffset s.param) (rtpHead s)).store 0
      (scHead s (scLength s c) ++ udpIpHead s) = out.store 0 (head s c) := by
    rw [hoffset, Memory.store_store]
    rfl
  rw [← hstore]
  unfold sendRtp
  rw [hgen]
  simp only []
  rw [if_neg (by unfold kRtpHeaderSize; omega), sendUdpIp_eq]
  rfl

/-- The decoder makes whole frames of PCM of the input, and the encoder makes a
    payload of them. -/
def Packs (input : List Byte) (len outputLen : Int) : Prop :=
  0 ≤ (decoded lib s input len).2.ret ∧ (decoded lib s input len).2.ret % kPcmFrameLength = 0 ∧
    0 ≤ (encoded lib s input len outputLen).2.ret

instance (input : List Byte) (len outputLen : Int) : Decidable (Packs lib s input len outputLen) :=
  inferInstanceAs (Decidable (_ ∧ _))

/-- With a payload, the output starts with the headers and the payload, and the
    layers have made a header each. -/
theorem send_of_packs (input : List Byte) (len outputLen : Int)
    (h : Packs lib s input len outputLen) :
    s.send lib input len out outputLen =
      (packed { s with
          decoder := (decoded lib s input len).1
          encoder := (encoded lib s input len outputLen).1 }
          (decoded lib s input len).2.ret (encoded lib s input len outputLen).2.ret,
        out.store 0 (head s (encoded lib s input len outputLen).2.ret ++
          (encoded lib s input len outputLen).2.written),
        ((head s (encoded lib s input len outputLen).2.ret).length : Int) +
          (encoded lib s input len outputLen).2.ret) := by
  rcases h with ⟨hdec, hframes, henc⟩
  unfold send
  simp only []
  rw [if_neg (by omega), if_neg (not_not_intro hframes), if_neg (by omega), sendRtp_eq]
  have hstore : (out.store (rtpOffset s.param + kRtpHeaderSize)
      (encoded lib s input len outputLen).2.written).store 0
        (head s (encoded lib s input len outputLen).2.ret) =
      out.store 0 (head s (encoded lib s input len outputLen).2.ret ++
        (encoded lib s input len outputLen).2.written) := by
    rw [← Memory.store_store, Nat.zero_add, length_head]
  -- The payload lies behind the headers, so the two writes are one.
  rw [← hstore, length_head]
  refine congrArg₂ Prod.mk rfl (congrArg₂ Prod.mk rfl ?_)
  push_cast
  omega

/-- Without a payload, `Send` fails, and all that it has called is the coders. -/
theorem send_of_not_packs (input : List Byte) (len outputLen : Int)
    (h : ¬ Packs lib s input len outputLen) :
    (s.send lib input len out outputLen).2.2 = -1 ∧
      ∃ decoder encoder, (s.send lib input len out outputLen).1 =
        { s with decoder := decoder, encoder := encoder } := by
  unfold send
  simp only []
  split
  · exact ⟨rfl, _, _, rfl⟩
  · rename_i hdec
    split
    · exact ⟨rfl, _, _, rfl⟩
    · rename_i hframes
      split
      · exact ⟨rfl, _, _, rfl⟩
      · rename_i henc
        exact absurd ⟨by omega, not_not.mp hframes, by omega⟩ h

/-- What new coders and the headers keep, `Send` keeps. -/
theorem send_keeps (P : UploadSession χ → Prop)
    (hcoders : ∀ (s : UploadSession χ) decoder encoder, P s →
      P { s with decoder := decoder, encoder := encoder })
    (hpacked : ∀ s pcmLen c, P s → P (packed s pcmLen c)) (input : List Byte)
    (len outputLen : Int) (h : P s) : P (s.send lib input len out outputLen).1 := by
  by_cases hpacks : Packs lib s input len outputLen
  · rw [send_of_packs lib s out input len outputLen hpacks]
    exact hpacked _ _ _ (hcoders _ _ _ h)
  · rcases (send_of_not_packs lib s out input len outputLen hpacks).2 with ⟨decoder, encoder, hs⟩
    rw [hs]
    exact hcoders _ _ _ h

/-- A `Send` succeeds exactly when there is a payload. -/
theorem send_nonneg_iff (input : List Byte) (len outputLen : Int) :
    0 ≤ (s.send lib input len out outputLen).2.2 ↔ Packs lib s input len outputLen := by
  by_cases h : Packs lib s input len outputLen
  · rw [send_of_packs lib s out input len outputLen h]
    have henc := h.2.2
    simp only [h, iff_true]
    omega
  · rw [(send_of_not_packs lib s out input len outputLen h).1]
    simp only [h, iff_false]
    omega

end UploadSession

end CodecChanger
