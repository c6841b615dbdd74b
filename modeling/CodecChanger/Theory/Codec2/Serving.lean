import CodecChanger.Core.CodecServer
import CodecChanger.Theory.Codec2.Streaming
import CodecChanger.Theory.Rtp.Headers

/-!
# The Codec Server at Work

A run of the encoding loop is a run of two machines side by side, each fed with the
datagrams of 960 bytes and with nothing else: the encoder, and the RTP session that makes
the test packets. So the packets sent are together what the encoder makes of the PCM as one
stream, and the test packets are numbered one after the other, whatever else comes in.

When the packets get through, the decoding loop makes as many frames of PCM of them as went
in, and it makes what the decoder makes of the whole stream.

## Main definitions

* `block`, `blocks`: The datagrams of one length.
* `testPacket`: The RTP session, fed with PCM.

## Theorems

* `codecFrames_block`: `Codec` with a whole number of frames.
* `encodes_run`, `tests_run`: The machines of the encoding loop.
* `serves_stream`: What the encoding loop sends.
* `decodes_run`: The machine of the decoding loop.
* `serves_back`: Both loops, one behind the other.
-/

namespace CodecChanger

open Bytes Framing

variable {σ : Type*}

/-- The datagram, if it has that length. -/
def block (n : Nat) (a : Arrival) : Option (List Byte) :=
  if a.recvLen = n then some (a.recvBuff.take n) else none

/-- The datagrams of one length. -/
def blocks (n : Nat) (l : List Arrival) : List (List Byte) := l.filterMap (block n)

/-- What is received is in the buffer. -/
def Arrival.Held (a : Arrival) : Prop := a.recvLen ≤ a.recvBuff.length

instance (a : Arrival) : Decidable a.Held := inferInstanceAs (Decidable (_ ≤ _))

/-- A datagram of the right length is there in full. -/
theorem block_eq_some (n : Nat) (a : Arrival) (b : List Byte) (ha : a.Held)
    (h : block n a = some b) :
    a.recvLen = n ∧ b = a.recvBuff.take n ∧ n ≤ a.recvBuff.length ∧ b.length = n := by
  unfold block at h
  unfold Arrival.Held at ha
  by_cases hlen : a.recvLen = n
  · rw [if_pos hlen, Option.some.injEq] at h
    have hn : n ≤ a.recvBuff.length := by omega
    exact ⟨hlen, h.symm, hn, h ▸ List.length_take_of_le hn⟩
  · rw [if_neg hlen] at h
    exact absurd h (by simp only [reduceCtorEq, not_false_eq_true])

theorem length_of_mem_blocks (n : Nat) (l : List Arrival) (hl : ∀ a ∈ l, a.Held)
    (b : List Byte) (hb : b ∈ blocks n l) : b.length = n := by
  rcases List.mem_filterMap.mp hb with ⟨a, ha, hblock⟩
  exact (block_eq_some n a b (hl a ha) hblock).2.2.2

/-- `Codec` with `k` frames, which are `i` bytes, and room for the `o` they become. -/
theorem codecFrames_block (f : σ → List Byte → σ × List Byte) (n m k i o : Nat) (hn : 0 < n)
    (hf : ∀ q b, b.length = n → (f q b).2.length = m) (hi : i = n * k) (ho : o = m * k)
    (hfits : MachineInt.Fits o) (q : σ) (input : List Byte) (outputLength : Int)
    (hin : i ≤ input.length) (hout : o ≤ outputLength) :
    codecFrames f n m q input i outputLength = ((step f n q (input.take i)).1,
        { ret := o, written := (step f n q (input.take i)).2 }) ∧
      (step f n q (input.take i)).2.length = o := by
  have hdiv : (i : Int).tdiv n = k := by
    rw [hi, Int.natCast_mul, Int.mul_tdiv_cancel_left _ (by omega)]
  have hmod : (i : Int).tmod n = 0 := by
    rw [hi, Int.natCast_mul, Int.mul_tmod_right]
  have hret : (k : Int) * m = o := by
    rw [ho, Int.natCast_mul, Int.mul_comm]
  have hok : ¬ ((i : Int).tmod n ≠ 0 ∨ outputLength < (i : Int).tdiv n * m) := by
    rw [hmod, hdiv, hret]
    omega
  rcases Codec2.codecFrames_accepted f n m q input _ outputLength
    (by rw [hdiv, hret]; exact hfits) hok with ⟨hcodec, -, -⟩
  rw [hcodec, hdiv, hret, hi, step_take f n hn k q input (hi ▸ hin), Int.toNat_natCast]
  exact ⟨rfl, ho ▸ length_code f n m k q input (hi ▸ hin) hf⟩

namespace EncodeLoop

/-- The RTP session makes a test packet of the PCM. -/
def testPacket (rtp : RtpSession) (b : List Byte) : RtpSession × List Byte :=
  ((rtp.generateRtpHeader kRtpHeaderSize 3).1,
    rtp.sendHeader.swap.store ++ (words16 b).map PcmUEnCoder.round)

/-- The words of a prefix. -/
theorem words16_take (m : List Byte) (k : Nat) (h : 2 * k ≤ m.length) :
    words16 (m.take (2 * k)) = (words16 m).take k := by
  rw [← flatMap_words16_take m k h, words16_flatMap]

/-- The test packet of a datagram is sent. -/
theorem sendRtp_block (s : EncodeLoop σ) (buff : List Byte) (h : 960 ≤ buff.length) :
    ∃ rtpBuff, s.sendRtp buff = { s with
      rtpBuff := rtpBuff
      rtp := (testPacket s.rtp (buff.take 960)).1
      tested := s.tested ++ [(testPacket s.rtp (buff.take 960)).2] } := by
  have hpcm : PcmUEnCoder.codec buff 960 (kServerBuffSize - kRtpHeaderSize) =
      { ret := 480, written := (words16 (buff.take 960)).map PcmUEnCoder.round } := by
    rw [words16_take buff 480 h]
    rfl
  have hlen : ((words16 (buff.take 960)).map PcmUEnCoder.round).length = 480 := by
    rw [List.length_map, length_words16, List.length_take_of_le h]
  generalize hpayload : (words16 (buff.take 960)).map PcmUEnCoder.round = payload at hpcm hlen
  have hhead := RtpHeader.length_store s.rtp.sendHeader.swap
  -- The header is put in front of the payload, and both are read back together.
  have hstore := Memory.store_store s.rtpBuff 0 s.rtp.sendHeader.swap.store payload
  have hread := Memory.read_store_self s.rtpBuff 0 (s.rtp.sendHeader.swap.store ++ payload)
  rw [hhead, Nat.zero_add] at hstore
  rw [List.length_append, hhead, hlen] at hread
  refine ⟨s.rtpBuff.store 0 (s.rtp.sendHeader.swap.store ++ payload), ?_⟩
  have hsend : s.sendRtp buff = { s with
      rtp := (s.rtp.generateRtpHeader kRtpHeaderSize 3).1
      rtpBuff := (s.rtpBuff.store kRtpHeaderSize payload).store 0 s.rtp.sendHeader.swap.store
      tested := s.tested ++ [((s.rtpBuff.store kRtpHeaderSize payload).store 0
        s.rtp.sendHeader.swap.store).read 0 (kRtpHeaderSize + 480)] } := by
    unfold sendRtp
    rw [hpcm]
    rfl
  rw [hsend, hstore, hread, testPacket, hpayload]

/-- An iteration with a datagram of the right length feeds both machines. -/
theorem iteration_block (lib : Codec2Lib σ) (s : EncodeLoop σ) (a : Arrival) (b : List Byte)
    (ha : a.Held) (h : block 960 a = some b) :
    ∃ sendBuff rtpBuff, iteration lib s a =
      { encoder := (step (Codec2EnCoder.frame lib) kPcmFrameLength s.encoder b).1
        rtp := (testPacket s.rtp b).1
        sendBuff := sendBuff
        rtpBuff := rtpBuff
        sent := s.sent ++ [(step (Codec2EnCoder.frame lib) kPcmFrameLength s.encoder b).2]
        tested := s.tested ++ [(testPacket s.rtp b).2] } := by
  rcases block_eq_some 960 a b ha h with ⟨hlen, rfl, hin, -⟩
  rcases codecFrames_block (Codec2EnCoder.frame lib) kPcmFrameLength kCodec2FrameLength 3 960 18
    (by decide) (fun q b _ => Codec2EnCoder.length_frame lib q b) rfl rfl (by decide) s.encoder
    a.recvBuff
    kServerBuffSize hin (by decide) with ⟨hcodec, hcoded⟩
  rw [← hlen] at hcodec
  have hread := Memory.read_store_self s.sendBuff 0
    (step (Codec2EnCoder.frame lib) kPcmFrameLength s.encoder (a.recvBuff.take 960)).2
  rw [hcoded] at hread
  unfold iteration
  rw [if_neg (not_not.mpr (show a.recvLen = 960 from hlen)), Codec2EnCoder.codec, hcodec]
  simp only []
  rw [Int.toNat_natCast, hread]
  rcases sendRtp_block _ a.recvBuff hin with ⟨rtpBuff, hsend⟩
  rw [hsend]
  exact ⟨_, _, rfl⟩

/-- Any other datagram is passed over. -/
theorem iteration_other (lib : Codec2Lib σ) (s : EncodeLoop σ) (a : Arrival)
    (h : block 960 a = none) : iteration lib s a = s := by
  refine if_pos fun hlen => ?_
  rw [block, if_pos (show a.recvLen = ((960 : Nat) : Int) from hlen)] at h
  exact absurd h (by simp only [reduceCtorEq, not_false_eq_true])

/-- What the encoding loop sends is what the encoder makes of the datagrams. -/
theorem encodes_run (lib : Codec2Lib σ) (s : EncodeLoop σ) (l : List Arrival)
    (hl : ∀ a ∈ l, a.Held) :
    (Trace.run (iteration lib) s l).encoder =
        Trace.run (fun q b => (step (Codec2EnCoder.frame lib) kPcmFrameLength q b).1) s.encoder
          (blocks 960 l) ∧
      (Trace.run (iteration lib) s l).sent = s.sent ++
        Trace.answers (step (Codec2EnCoder.frame lib) kPcmFrameLength) s.encoder
          (blocks 960 l) := by
  refine Trace.run_records _ (iteration lib) Arrival.Held (block 960) EncodeLoop.encoder
    EncodeLoop.sent (fun s a _ h => ?_) (fun s a b ha h => ?_) l s hl
  · rw [iteration_other lib s a h]
    exact ⟨rfl, rfl⟩
  · rcases iteration_block lib s a b ha h with ⟨sendBuff, rtpBuff, hstep⟩
    rw [hstep]
    exact ⟨rfl, rfl⟩

/-- And the test packets are what the RTP session makes of them. -/
theorem tests_run (lib : Codec2Lib σ) (s : EncodeLoop σ) (l : List Arrival)
    (hl : ∀ a ∈ l, a.Held) :
    (Trace.run (iteration lib) s l).tested =
      s.tested ++ Trace.answers testPacket s.rtp (blocks 960 l) := by
  refine (Trace.run_records testPacket (iteration lib) Arrival.Held (block 960) EncodeLoop.rtp
    EncodeLoop.tested (fun s a _ h => ?_) (fun s a b ha h => ?_) l s hl).2
  · rw [iteration_other lib s a h]
    exact ⟨rfl, rfl⟩
  · rcases iteration_block lib s a b ha h with ⟨sendBuff, rtpBuff, hstep⟩
    rw [hstep]
    exact ⟨rfl, rfl⟩

/-- The session after some test packets. -/
theorem run_testPacket (rtp : RtpSession) (l : List (List Byte)) :
    Trace.run (fun q b => (testPacket q b).1) rtp l =
      { rtp with sendHeader := { rtp.sendHeader with
          sequenceNum := rtp.sendHeader.sequenceNum + BitVec.ofNat 16 l.length
          timestamp := rtp.sendHeader.timestamp +
            BitVec.ofInt 32 (3 * l.length) * rtp.param.samplesPreFrames } } := by
  have hcounted : RtpSession.counted (l.map fun _ => ⟨kRtpHeaderSize, 3⟩) =
      List.replicate l.length 3 := by
    unfold RtpSession.counted
    rw [List.filter_eq_self.mpr (fun c hc => by
      rcases List.mem_map.mp hc with ⟨b, -, rfl⟩
      rfl), List.map_map, List.eq_replicate_iff]
    refine ⟨List.length_map _, fun f hf => ?_⟩
    rcases List.mem_map.mp hf with ⟨b, -, rfl⟩
    rfl
  have hrun := RtpSession.generated_eq rtp (l.map fun _ => ⟨kRtpHeaderSize, 3⟩)
  rw [hcounted, List.length_replicate, List.sum_replicate_int, Int.mul_comm _ 3] at hrun
  rw [← hrun, RtpSession.generated, Trace.run, Trace.run, List.foldl_map]
  rfl

/-- The test packet of a plain session is decoded to the session's numbers. -/
theorem testPacket_plain (rtp : RtpSession) (b : List Byte) (h : rtp.Plain) :
    Decoded (testPacket rtp b).2 rtp.sendHeader.sequenceNum.toNat rtp.sendHeader.timestamp.toNat :=
  fun pktLen hlen => ⟨_, _, _, RtpSession.decodeRtpHeader_of_plain rtp 3 _ pktLen h hlen,
    BitVec.toNat_setWidth_of_le (by decide), rfl⟩

/-- The test packet of a session that was set up and has made some. -/
theorem testPacket_decoded (rtp : RtpSession) (sequenceNum : BitVec 16) (timestamp ssrc : BitVec 32)
    (l : List (List Byte)) (b : List Byte) :
    let packet := (testPacket (Trace.run (fun q b => (testPacket q b).1)
      (rtp.init param sequenceNum timestamp ssrc) l) b).2
    packet.take 2 = [0x80, 0] ∧
      packet.drop kRtpHeaderSize = (words16 b).map PcmUEnCoder.round ∧
      Decoded packet ((sequenceNum.toNat + l.length) % 2 ^ 16)
        (((timestamp.toNat : Int) + 480 * l.length) % 2 ^ 32) := by
  have hrun := run_testPacket (rtp.init param sequenceNum timestamp ssrc) l
  generalize Trace.run (fun q b => (testPacket q b).1) (rtp.init param sequenceNum timestamp ssrc)
    l = q at hrun
  have hplain : q.Plain := by
    rw [hrun]
    exact RtpSession.plain_init rtp param sequenceNum timestamp ssrc
  have hseq : q.sendHeader.sequenceNum.toNat = (sequenceNum.toNat + l.length) % 2 ^ 16 := by
    have hadd : q.sendHeader.sequenceNum = sequenceNum + BitVec.ofNat 16 l.length := by
      rw [hrun]
      rfl
    rw [hadd, BitVec.toNat_add, BitVec.toNat_ofNat]
    omega
  have hts : (q.sendHeader.timestamp.toNat : Int) =
      ((timestamp.toNat : Int) + 480 * l.length) % 2 ^ 32 := by
    have hadd : q.sendHeader.timestamp =
        timestamp + BitVec.ofInt 32 (3 * l.length) * param.samplesPreFrames := by
      rw [hrun]
      rfl
    have hsamples : (param.samplesPreFrames.toNat : Int) * (3 * l.length) = 480 * l.length := by
      change (160 : Int) * (3 * l.length) = _
      omega
    rw [hadd, RtpSession.timestamp_counted, hsamples]
  have hdecoded := testPacket_plain q b hplain
  rw [hseq, hts] at hdecoded
  refine ⟨?_, List.drop_left' (RtpHeader.length_store _), hdecoded⟩
  have hhead : (testPacket q b).2.take 2 = [q.sendHeader.v ++ q.sendHeader.p ++ q.sendHeader.x ++
      q.sendHeader.cc, q.sendHeader.m ++ q.sendHeader.pt] := rfl
  rw [hhead, hrun]
  change [(2 : BitVec 2) ++ (0 : BitVec 1) ++ (0 : BitVec 1) ++ (0 : BitVec 4),
    (0 : BitVec 1) ++ BitVec.ofInt 7 0] = _
  decide

/-- A run of the encoding loop. The packets sent are what the encoder makes of the datagrams
    of 960 bytes as one stream, 18 bytes for each, and for each there is a test packet with
    its PCM by the mu-law. These are numbered one after the other and stamped 480 samples
    apart. Datagrams of other lengths leave no trace. -/
theorem serves_stream (lib : Codec2Lib σ) (encoder : σ) (rtp : RtpSession)
    (sequenceNum : BitVec 16) (timestamp ssrc : BitVec 32) (sendBuff rtpBuff : Memory)
    (l : List Arrival) (hl : ∀ a ∈ l, a.Held) :
    let s := Trace.run (iteration lib)
      (start encoder rtp sequenceNum timestamp ssrc sendBuff rtpBuff) l
    step (Codec2EnCoder.frame lib) kPcmFrameLength encoder (blocks 960 l).flatten =
        (s.encoder, s.sent.flatten) ∧
      s.sent.length = (blocks 960 l).length ∧ (∀ p ∈ s.sent, p.length = 18) ∧
      s.tested.length = (blocks 960 l).length ∧
      ∀ i b, (blocks 960 l)[i]? = some b → ∃ packet, s.tested[i]? = some packet ∧
        packet.length = 492 ∧ packet.take 2 = [0x80, 0] ∧
        packet.drop kRtpHeaderSize = (words16 b).map PcmUEnCoder.round ∧
        Decoded packet ((sequenceNum.toNat + i) % 2 ^ 16)
          (((timestamp.toNat : Int) + 480 * i) % 2 ^ 32) := by
  have hlength := length_of_mem_blocks 960 l hl
  rcases encodes_run lib (start encoder rtp sequenceNum timestamp ssrc sendBuff rtpBuff) l hl with
    ⟨hencoder, hsent⟩
  have htested := tests_run lib
    (start encoder rtp sequenceNum timestamp ssrc sendBuff rtpBuff) l hl
  have hstart : (start encoder rtp sequenceNum timestamp ssrc sendBuff rtpBuff).sent = [] := rfl
  have hstart' : (start encoder rtp sequenceNum timestamp ssrc sendBuff rtpBuff).tested = [] := rfl
  rw [hstart, List.nil_append] at hsent
  rw [hstart', List.nil_append] at htested
  simp only []
  rw [hencoder, hsent, htested, Trace.length_answers, Trace.length_answers]
  refine ⟨?_, rfl, ?_, rfl, fun i b hb => ?_⟩
  · exact code_flatten _ _ (by decide) (blocks 960 l) encoder fun b hb => by
      rw [hlength b hb]
      decide
  · refine Trace.of_mem_answers _ (fun _ => True) _ (blocks 960 l)
      (fun q b hb _ => ⟨trivial, ?_⟩) encoder trivial
    rw [step, hlength b hb]
    exact length_code _ kPcmFrameLength kCodec2FrameLength 3 q b (hlength b hb).ge
      fun q b _ => Codec2EnCoder.length_frame lib q b
  · have hi : i ≤ (blocks 960 l).length := by
      have := (List.getElem?_eq_some_iff.mp hb).1
      omega
    rcases testPacket_decoded rtp sequenceNum timestamp ssrc ((blocks 960 l).take i) b with
      ⟨hhead, hpayload, hdecoded⟩
    rw [List.length_take_of_le hi] at hdecoded
    refine ⟨_, ?_, ?_, hhead, hpayload, hdecoded⟩
    · rw [Trace.answers_getElem, hb]
      rfl
    · rw [testPacket, List.length_append, RtpHeader.length_store, List.length_map, length_words16,
        hlength b (List.mem_of_getElem? hb)]
      rfl

/-- The second packet of a run in which both numbers pass their ends. -/
theorem serves_stream_two :
    let s := Trace.run (iteration Codec2EnCoder.counting)
      (start 0 ⟨param, RtpHeader.load []⟩ 0xffff 0xffffff00 1 (fun _ => 0) fun _ => 0)
      [⟨960, silence 3⟩, ⟨5, [1, 2, 3, 4, 5]⟩, ⟨960, silence 3⟩]
    ∃ packet, s.tested[1]? = some packet ∧ packet.length = 492 ∧ Decoded packet 0 224 :=
  ((serves_stream Codec2EnCoder.counting 0 ⟨param, RtpHeader.load []⟩ 0xffff 0xffffff00 1
    (fun _ => 0) (fun _ => 0) [⟨960, silence 3⟩, ⟨5, [1, 2, 3, 4, 5]⟩, ⟨960, silence 3⟩]
    (by decide +kernel)).2.2.2.2 1 (silence 3) (by decide +kernel)).imp
      fun _ h => ⟨h.1, h.2.1, h.2.2.2.2⟩

end EncodeLoop

namespace DecodeLoop

/-- An iteration with a packet feeds the decoder. -/
theorem iteration_block (lib : Codec2Lib σ) (s : DecodeLoop σ) (a : Arrival) (b : List Byte)
    (ha : a.Held) (h : block 18 a = some b) :
    (iteration lib s a).decoder =
        (step (Codec2DeCoder.frame lib) kCodec2FrameLength s.decoder b).1 ∧
      (iteration lib s a).sent = s.sent ++
        [(step (Codec2DeCoder.frame lib) kCodec2FrameLength s.decoder b).2] := by
  rcases block_eq_some 18 a b ha h with ⟨hlen, rfl, hin, -⟩
  rcases codecFrames_block (Codec2DeCoder.frame lib) kCodec2FrameLength kPcmFrameLength 3 18 960
    (by decide) (fun q b _ => Codec2DeCoder.length_frame lib q b) rfl rfl (by decide) s.decoder
    a.recvBuff
    kServerBuffSize hin (by decide) with ⟨hcodec, hcoded⟩
  rw [← hlen] at hcodec
  have hread := Memory.read_store_self s.sendBuff 0
    (step (Codec2DeCoder.frame lib) kCodec2FrameLength s.decoder (a.recvBuff.take 18)).2
  rw [hcoded] at hread
  unfold iteration
  rw [if_neg (not_not.mpr (show a.recvLen = 18 from hlen)), Codec2DeCoder.codec, hcodec]
  simp only []
  rw [Int.toNat_natCast, hread]
  exact ⟨trivial, rfl⟩

/-- Any other datagram is passed over. -/
theorem iteration_other (lib : Codec2Lib σ) (s : DecodeLoop σ) (a : Arrival)
    (h : block 18 a = none) : iteration lib s a = s := by
  refine if_pos fun hlen => ?_
  rw [block, if_pos (show a.recvLen = ((18 : Nat) : Int) from hlen)] at h
  exact absurd h (by simp only [reduceCtorEq, not_false_eq_true])

/-- What the decoding loop sends is what the decoder makes of the packets. -/
theorem decodes_run (lib : Codec2Lib σ) (s : DecodeLoop σ) (l : List Arrival)
    (hl : ∀ a ∈ l, a.Held) :
    (Trace.run (iteration lib) s l).decoder =
        Trace.run (fun q b => (step (Codec2DeCoder.frame lib) kCodec2FrameLength q b).1) s.decoder
          (blocks 18 l) ∧
      (Trace.run (iteration lib) s l).sent = s.sent ++
        Trace.answers (step (Codec2DeCoder.frame lib) kCodec2FrameLength) s.decoder
          (blocks 18 l) := by
  refine Trace.run_records _ (iteration lib) Arrival.Held (block 18) DecodeLoop.decoder
    DecodeLoop.sent (fun s a _ h => ?_) (fun s a b ha h => iteration_block lib s a b ha h) l s hl
  rw [iteration_other lib s a h]
  exact ⟨rfl, rfl⟩

/-- The packets of a run of the encoding loop get to the decoding loop, with other datagrams
    in between. Then that sends 960 bytes of PCM for every 960 that were received, and these
    are what the decoder makes of the encoded stream. -/
theorem serves_back (lib : Codec2Lib σ) (encoder decoder : σ) (rtp : RtpSession)
    (sequenceNum : BitVec 16) (timestamp ssrc : BitVec 32) (sendBuff rtpBuff pcmBuff : Memory)
    (l m : List Arrival) (hl : ∀ a ∈ l, a.Held) (hm : ∀ a ∈ m, a.Held)
    (hnet : blocks 18 m = (Trace.run (EncodeLoop.iteration lib)
      (EncodeLoop.start encoder rtp sequenceNum timestamp ssrc sendBuff rtpBuff) l).sent) :
    let s := Trace.run (iteration lib) (start decoder pcmBuff) m
    step (Codec2DeCoder.frame lib) kCodec2FrameLength decoder
        (step (Codec2EnCoder.frame lib) kPcmFrameLength encoder (blocks 960 l).flatten).2 =
        (s.decoder, s.sent.flatten) ∧
      s.sent.length = (blocks 960 l).length ∧ ∀ p ∈ s.sent, p.length = 960 := by
  have hpcm := length_of_mem_blocks 960 l hl
  have hpacket := length_of_mem_blocks 18 m hm
  have hsent := (EncodeLoop.encodes_run lib
    (EncodeLoop.start encoder rtp sequenceNum timestamp ssrc sendBuff rtpBuff) l hl).2
  rcases decodes_run lib (start decoder pcmBuff) m hm with ⟨hdecoder, hback⟩
  have hstart : (EncodeLoop.start encoder rtp sequenceNum timestamp ssrc sendBuff rtpBuff).sent =
      [] := rfl
  have hstart' : (start decoder pcmBuff).sent = [] := rfl
  rw [← hnet, hstart, List.nil_append] at hsent
  rw [hstart', List.nil_append] at hback
  -- What the encoder makes of the whole stream is what was in the packets.
  have hencoded : (step (Codec2EnCoder.frame lib) kPcmFrameLength encoder
      (blocks 960 l).flatten).2 = (blocks 18 m).flatten := by
    rw [code_flatten _ _ (by decide) (blocks 960 l) encoder fun b hb => by
      rw [hpcm b hb]
      decide, hsent]
    rfl
  simp only []
  rw [hdecoder, hback, hencoded, Trace.length_answers]
  refine ⟨?_, ?_, ?_⟩
  · exact code_flatten _ _ (by decide) (blocks 18 m) decoder fun b hb => by
      rw [hpacket b hb]
      decide
  · rw [hsent, Trace.length_answers]
  · refine Trace.of_mem_answers _ (fun _ => True) _ (blocks 18 m)
      (fun q b hb _ => ⟨trivial, ?_⟩) decoder trivial
    rw [step, hpacket b hb]
    exact length_code _ kCodec2FrameLength kPcmFrameLength 3 q b (Nat.le_of_eq (hpacket b hb).symm)
      fun q b _ => Codec2DeCoder.length_frame lib q b

/-- Two datagrams of PCM go through, the second behind something else. -/
theorem serves_back_two :
    (Trace.run (iteration Codec2EnCoder.counting) (start 0 fun _ => 0)
      [⟨18, [0, 0, 0, 0, 0, 0, 1, 0, 0, 0, 0, 0, 2, 0, 0, 0, 0, 0]⟩, ⟨1, [9]⟩,
        ⟨18, [3, 0, 0, 0, 0, 0, 4, 0, 0, 0, 0, 0, 5, 0, 0, 0, 0, 0]⟩]).sent.length = 2 :=
  (serves_back Codec2EnCoder.counting 0 0 ⟨EncodeLoop.param, RtpHeader.load []⟩ 0 0 0 (fun _ => 0)
    (fun _ => 0) (fun _ => 0) [⟨960, silence 3⟩, ⟨5, [1, 2, 3, 4, 5]⟩, ⟨960, silence 3⟩] _
    (by decide +kernel) (by decide +kernel) (by decide +kernel)).2.1.trans (by decide +kernel)

end DecodeLoop

end CodecChanger
