import CodecChanger.Theory.Download.Reframing
import CodecChanger.Theory.G711.Library
import CodecChanger.Theory.Sc.Wire

/-!
# What the Process Loop Posts

The packets that leave a process loop, as a function of the PCM that came in. `Send` works on
a part of the session that `Recv` does not touch: the encoder and the layers that number the
packets. That part is a machine, and the loop feeds it the frames of the stream, one after
the other and each once. So what is posted is what the machine makes of the stream, and
neither the pieces the PCM came in nor a frame that failed changes the other packets.

For a download session the machine encodes a frame and puts an SC header in front. A frame
that is not encoded costs no number, so the packets are numbered without a gap.

## Main definitions

* `Calls.Drives`: `Send` works as a machine.
* `LoopState.Posted`: The loop has posted what the machine makes.
* `DownloadSession.packet`: The machine of a download session.
* `DownloadSession.payloads`: The frames that are encoded.

## Theorems

* `posted_iteration`: Every iteration keeps that.
* `posts_cut`: What any loop posts.
* `drives_calls`: `Send` of a download session.
* `answers_packet`: What its machine makes.
* `posted_init`, `posted_run`: What its loop does.
* `posts_numbered`: What a download session posts.
-/

namespace CodecChanger

open Bytes Blocks Loop

variable {σ τ : Type*}

/-- On frames of `n` bytes `Send` works as a machine on what `view` shows of the session, which
    `Recv` leaves alone. The machine makes the packet that is posted, if one is. -/
structure Calls.Drives (calls : Calls σ) (n : Nat) (view : σ → τ)
    (machine : τ → List Byte → τ × Option (List Byte)) : Prop where
  recv_view : ∀ s input k, view (calls.recv s input k kLoopBuffSize).1 = view s
  send_view : ∀ s buff out, view (calls.send s buff n out kLoopBuffSize).1 =
    (machine (view s) (buff.bytes.take n)).1
  send_post : ∀ s buff out,
    (if (calls.send s buff n out kLoopBuffSize).2.2.2 ≤ 0 then none
      else some ((calls.send s buff n out kLoopBuffSize).2.2.1.read 0
        (calls.send s buff n out kLoopBuffSize).2.2.2.toNat)) =
    (machine (view s) (buff.bytes.take n)).2

namespace LoopState

/-- The loop has taken the machine from `t` to where its frames take it, and has posted what
    it makes of them. -/
def Posted (view : σ → τ) (machine : τ → List Byte → τ × Option (List Byte)) (t : τ)
    (s : LoopState σ) : Prop :=
  view s.session = Trace.run (fun t b => (machine t b).1) t s.handed ∧
    s.posted = (Trace.answers machine t s.handed).filterMap id

variable (calls : Calls σ) (n : Nat) (view : σ → τ)
  (machine : τ → List Byte → τ × Option (List Byte)) (hd : calls.Drives n view machine) (t : τ)
  (s : LoopState σ)

include hd

/-- One frame is handed to `Send`, and posted if that succeeds. -/
theorem posted_hand (h : Posted view machine t s) :
    Posted view machine t (if (hand calls s n).2 ≤ 0 then (hand calls s n).1
      else (hand calls s n).1.post (hand calls s n).2) := by
  have hview : view (hand calls s n).1.session =
      (machine (view s.session) (s.codecBuff.bytes.take n)).1 := hd.send_view _ _ _
  have hpost : (if (hand calls s n).2 ≤ 0 then none
      else some ((hand calls s n).1.sendBuff.read 0 (hand calls s n).2.toNat)) =
      (machine (view s.session) (s.codecBuff.bytes.take n)).2 := hd.send_post _ _ _
  have hposted : (hand calls s n).1.posted = s.posted := rfl
  rw [h.1] at hview hpost
  have hhanded : (hand calls s n).1.handed = s.handed ++ [s.codecBuff.bytes.take n] := rfl
  have hanswers := Trace.answers_append machine t s.handed [s.codecBuff.bytes.take n]
  have hrun := Trace.run_append (fun t b => (machine t b).1) t s.handed
    [s.codecBuff.bytes.take n]
  by_cases hlen : (hand calls s n).2 ≤ 0
  · rw [if_pos hlen]
    rw [if_pos hlen] at hpost
    refine ⟨?_, ?_⟩
    · rw [hhanded, hrun]
      exact hview
    · rw [hhanded, hanswers, List.filterMap_append, ← h.2, Trace.answers, ← hpost,
        List.filterMap_cons_none rfl, hposted]
      exact (List.append_nil _).symm
  · rw [if_neg hlen]
    rw [if_neg hlen] at hpost
    refine ⟨?_, ?_⟩
    · change _ = Trace.run _ t (hand calls s n).1.handed
      rw [hhanded, hrun]
      exact hview
    · change _ = (Trace.answers machine t (hand calls s n).1.handed).filterMap id
      rw [hhanded, hanswers, List.filterMap_append, ← h.2, Trace.answers, ← hpost]
      rfl

/-- A frame out of the queue. -/
theorem posted_sendNext (h : Posted view machine t s) :
    Posted view machine t (sendNext calls n s) :=
  posted_hand calls n view machine hd t { s with
    codecBuff := s.codecBuff.write (s.frameBuff.take n)
    frameBuff := s.frameBuff.drop n } h

/-- What has been received is neither handed on nor posted yet. -/
theorem posted_receive (a : Arrival) (h : Posted view machine t s) :
    Posted view machine t (receive calls s a).1 := by
  have hview := hd.recv_view s.session a.recvBuff a.recvLen
  unfold receive
  split
  · exact h
  · simp only []
    split
    · exact ⟨hview.trans h.1, h.2⟩
    · exact ⟨hview.trans h.1, h.2⟩

/-- Every iteration keeps that. -/
theorem posted_iteration (hfits : calls.Fits) (sendFrame : Nat) (hn : n = 2 * sendFrame)
    (hpos : 0 < n) (hle : n ≤ kLoopBuffSize) (a : Arrival) (h : Posted view machine t s) :
    Posted view machine t (iteration calls sendFrame s a) := by
  subst hn
  exact iteration_invariant calls s (Posted view machine t) hfits sendFrame a hpos hle
    (posted_receive calls _ view machine hd t s a h) (fun _ _ hu => hu)
    fun u hu => posted_sendNext calls _ view machine hd t u hu

/-- A run of the loop cuts what it receives into frames, and posts what the machine makes of
    these. -/
theorem posts_cut (hfits : calls.Fits) (sendFrame : Nat) (hn : n = 2 * sendFrame) (hpos : 0 < n)
    (hle : n ≤ kLoopBuffSize) (session : σ) (codecBuff : Buffer kLoopBuffSize)
    (sendBuff : Memory) (l : List Arrival) :
    let s := Trace.run (iteration calls sendFrame) (start session codecBuff sendBuff) l
    Cut n s.handed s.frameBuff
        (chunks calls sendFrame (start session codecBuff sendBuff) l).flatten ∧
      Posted view machine (view session) s := by
  refine ⟨?_, ?_⟩
  · rw [hn] at hpos hle ⊢
    exact cut_run calls hfits sendFrame hpos hle session codecBuff sendBuff l
  · exact Trace.run_invariant (iteration calls sendFrame) (Posted view machine (view session))
      (fun s a h => posted_iteration calls n view machine hd (view session) s hfits sendFrame hn
        hpos hle a h) l _ ⟨rfl, rfl⟩

end LoopState

/-- The header of the next packet of a sender, on the wire. -/
theorem SC.store_nextHeader (q : SC) (ueid : BitVec 32) (forward : Transforward) (n : Nat)
    (h : SC.Sends q ueid forward n) (payloadLength : BitVec 16) :
    (scCopyToNet (q.nextHeader payloadLength)).store =
      SC.wire ueid forward ((n + 1) % 2 ^ 24) payloadLength := by
  have hnext := SC.sends_nextHeader q ueid forward n h payloadLength
  rw [store_scCopyToNet, SC.length_nextHeader,
    show (q.nextHeader payloadLength).ueid = ueid from hnext.ueid_eq,
    show getScForward (q.nextHeader payloadLength) = forward.value from hnext.forward_eq,
    show (getScSn (q.nextHeader payloadLength)).toNat = _ from hnext.sn_eq,
    show (q.nextHeader payloadLength).rev = 0 from hnext.rev_eq]
  rfl

namespace DownloadSession

variable {χ : Type*} (lib : CoderLib χ)

/-- The room that the loop's buffer has for a payload. -/
def payloadRoom : Int := (kLoopBuffSize : Int) - kSCHeadSize

/-- What `Send` does with a frame: it is encoded, and a packet made of it if that succeeds. -/
def packet (t : χ × SC) (piece : List Byte) : (χ × SC) × Option (List Byte) :=
  let (encoder, e) := lib.codec t.1 piece 960 payloadRoom
  if e.ret < 0 then ((encoder, t.2), none)
  else
    let h := t.2.nextHeader (BitVec.ofInt 16 e.ret)
    ((encoder, { t.2 with sendHeader := h }), some ((scCopyToNet h).store ++ e.written))

/-- The payloads that an encoder makes of frames, those it fails on left out. -/
def payloads (q : χ) (frames : List (List Byte)) : List (List Byte) :=
  ((Trace.answers (fun q b => lib.codec q b 960 payloadRoom) q frames).filter
    fun e => decide (0 ≤ e.ret)).map Coded.written

/-- `Recv` leaves the encoder and the sender alone. -/
theorem recv_kept (s : DownloadSession χ) (data : List Byte) (n outputLength : Int) :
    (s.recv lib data n outputLength).1.encoder = s.encoder ∧
      (s.recv lib data n outputLength).1.scSend = s.scSend := by
  have hrtp : ∀ (s : DownloadSession χ) k n,
      (s.recvRtp lib data k n outputLength).1.encoder = s.encoder ∧
        (s.recvRtp lib data k n outputLength).1.scSend = s.scSend := by
    intro s k n
    unfold recvRtp
    simp only []
    split
    · exact ⟨rfl, rfl⟩
    · exact ⟨rfl, rfl⟩
  have hudp : ∀ (s : DownloadSession χ) k n,
      (s.recvUdpIp lib data k n outputLength).1.encoder = s.encoder ∧
        (s.recvUdpIp lib data k n outputLength).1.scSend = s.scSend := by
    intro s k n
    unfold recvUdpIp
    split
    · simp only []
      split
      · exact ⟨rfl, rfl⟩
      · exact hrtp s _ _
    · exact hrtp s k n
  unfold recv
  split
  · simp only []
    split
    · exact ⟨rfl, rfl⟩
    · exact hudp _ _ _
  · exact hudp s 0 n

/-- `Send` with a frame that is not encoded. -/
theorem send_of_failed (s : DownloadSession χ) (input : List Byte) (out : Memory) (e : χ × Coded)
    (he : lib.codec s.encoder input 960 payloadRoom = e) (h : e.2.ret < 0) :
    s.send lib input 960 out kLoopBuffSize =
      ({ s with encoder := e.1 }, out.store kSCHeadSize e.2.written, -1) := by
  rw [← he] at h ⊢
  unfold send
  rw [if_neg (by decide)]
  exact if_pos h

/-- `Send` with a frame that is encoded: the header and the payload lie side by side. -/
theorem send_of_coded (s : DownloadSession χ) (input : List Byte) (out : Memory) (e : χ × Coded)
    (he : lib.codec s.encoder input 960 payloadRoom = e) (h : 0 ≤ e.2.ret) :
    let head := s.scSend.nextHeader (BitVec.ofInt 16 e.2.ret)
    s.send lib input 960 out kLoopBuffSize =
      ({ s with encoder := e.1, scSend := { s.scSend with sendHeader := head } },
        out.store 0 ((scCopyToNet head).store ++ e.2.written), kSCHeadSize + e.2.ret) := by
  have hsend := SC.send_eq s.scSend (BitVec.ofInt 16 e.2.ret)
    ((out.store kSCHeadSize e.2.written).read 0 kSCHeadSize) kSCHeadSize (Int.le_refl _)
  have hdrop : ((out.store kSCHeadSize e.2.written).read 0 kSCHeadSize).drop kSCHeadSize = [] :=
    List.drop_of_length_le (by
      simp only [Memory.read, List.length_map, List.length_range, Nat.le_refl])
  have hstore := Memory.store_store out 0
    (scCopyToNet (s.scSend.nextHeader (BitVec.ofInt 16 e.2.ret))).store e.2.written
  rw [length_store, Nat.zero_add] at hstore
  rw [hdrop, List.append_nil] at hsend
  unfold payloadRoom at he
  unfold send
  rw [if_neg (by decide), he]
  simp only [if_neg (Int.not_lt.mpr h), hsend]
  rw [if_neg (by decide), hstore]

/-- `Send` with a frame in front of its input: the encoder and the sender go on as the machine
    does, and what is to be posted is the machine's packet. -/
theorem send_packet (hk : lib.Keeps) (s : DownloadSession χ) (input : List Byte) (out : Memory) :
    ((s.send lib input 960 out kLoopBuffSize).1.encoder,
        (s.send lib input 960 out kLoopBuffSize).1.scSend) =
        (packet lib (s.encoder, s.scSend) (input.take 960)).1 ∧
      (if (s.send lib input 960 out kLoopBuffSize).2.2 ≤ 0 then none
        else some ((s.send lib input 960 out kLoopBuffSize).2.1.read 0
          (s.send lib input 960 out kLoopBuffSize).2.2.toNat)) =
        (packet lib (s.encoder, s.scSend) (input.take 960)).2 := by
  have htake : lib.codec s.encoder (input.take 960) 960 payloadRoom =
      lib.codec s.encoder input 960 payloadRoom := hk.codec_take s.encoder input 960 payloadRoom
  have hlength := hk.ret_eq s.encoder input 960 payloadRoom
  unfold packet
  rw [htake]
  generalize he : lib.codec s.encoder input 960 payloadRoom = e at hlength
  simp only []
  by_cases hret : e.2.ret < 0
  · rw [send_of_failed lib s input out e he hret, if_pos hret]
    exact ⟨rfl, rfl⟩
  · rw [send_of_coded lib s input out e he (Int.not_lt.mp hret), if_neg hret]
    refine ⟨rfl, ?_⟩
    have hread := Memory.read_store_self out 0
      ((scCopyToNet (s.scSend.nextHeader (BitVec.ofInt 16 e.2.ret))).store ++ e.2.written)
    have htoNat : ((kSCHeadSize : Int) + e.2.ret).toNat = kSCHeadSize + e.2.written.length := by
      have := hlength (Int.not_lt.mp hret)
      omega
    rw [List.length_append, length_store] at hread
    simp only []
    rw [if_neg (by unfold kSCHeadSize; omega), htoNat, hread]

/-- With frames of 960 bytes `Send` works as the machine on the encoder and the sender. -/
theorem drives_calls (hk : lib.Keeps) (left : χ → Buffer kLoopBuffSize → Buffer kLoopBuffSize) :
    (calls lib left).Drives 960 (fun s => (s.encoder, s.scSend)) (packet lib) where
  recv_view s input n := by
    rcases recv_kept lib s input n kLoopBuffSize with ⟨hencoder, hsend⟩
    change ((s.recv lib input n kLoopBuffSize).1.encoder,
      (s.recv lib input n kLoopBuffSize).1.scSend) = _
    rw [hencoder, hsend]
  send_view s buff out := (send_packet lib hk s buff.bytes out).1
  send_post s buff out := (send_packet lib hk s buff.bytes out).2

/-- What the machine makes of some frames: the payloads, with the numbers behind that of the
    sender. -/
theorem answers_packet (hk : lib.Keeps) (ueid : BitVec 32) (forward : Transforward)
    (frames : List (List Byte)) (q : χ) (sc : SC) (n : Nat) (h : SC.Sends sc ueid forward n) :
    (Trace.answers (packet lib) (q, sc) frames).filterMap id =
      (payloads lib q frames).mapIdx fun i payload =>
        SC.wire ueid forward ((n + (i + 1)) % 2 ^ 24) (BitVec.ofNat 16 payload.length) ++
          payload := by
  induction frames generalizing q sc n with
  | nil => rfl
  | cons b frames ih =>
      have hlength := hk.ret_eq q b 960 payloadRoom
      have hanswers : Trace.answers (packet lib) (q, sc) (b :: frames) =
          (packet lib (q, sc) b).2 :: Trace.answers (packet lib) (packet lib (q, sc) b).1 frames :=
        rfl
      have hpayloads : payloads lib q (b :: frames) =
          ((lib.codec q b 960 payloadRoom).2 :: Trace.answers
            (fun q b => lib.codec q b 960 payloadRoom) (lib.codec q b 960 payloadRoom).1
            frames |>.filter fun e => decide (0 ≤ e.ret)).map Coded.written := rfl
      have hrest : ∀ q, ((Trace.answers (fun q b => lib.codec q b 960 payloadRoom) q frames).filter
          fun e => decide (0 ≤ e.ret)).map Coded.written = payloads lib q frames := fun _ => rfl
      rw [hanswers, hpayloads, packet]
      generalize lib.codec q b 960 payloadRoom = e at hlength ⊢
      by_cases hret : e.2.ret < 0
      · simp only [if_pos hret]
        rw [List.filterMap_cons_none rfl, ih _ _ n h,
          List.filter_cons_of_neg (by rw [decide_eq_true_eq]; omega), hrest]
      · have heq := hlength (Int.not_lt.mp hret)
        simp only [if_neg hret]
        change _ :: (Trace.answers (packet lib) _ frames).filterMap id = _
        rw [ih _ _ (n + 1) (SC.sends_nextHeader sc ueid forward n h (BitVec.ofInt 16 e.2.ret)),
          List.filter_cons_of_pos (by rw [decide_eq_true_eq]; omega), List.map_cons, hrest,
          List.mapIdx_cons, SC.store_nextHeader sc ueid forward n h, heq, BitVec.ofInt_natCast]
        congr 1
        refine congrArg (List.mapIdx · _) ?_
        funext i payload
        rw [show n + 1 + (i + 1) = n + (i + 1 + 1) by omega]

/-- `Init` sets the sender up, wherever it fails. -/
theorem init_scSend (s : DownloadSession χ) (param : SessionParam) (env : Setup χ) :
    (s.init param env).1.scSend = s.scSend.init param.ueid .to4G 0 := by
  unfold init
  simp only []
  split_ifs <;> rfl

/-- A loop that works on a session that was set up has posted its payloads, with numbers from
    one on. -/
theorem posted_init (hk : lib.Keeps) (s₀ : DownloadSession χ) (param : SessionParam)
    (env : Setup χ) (s : LoopState (DownloadSession χ))
    (h : LoopState.Posted (fun s => (s.encoder, s.scSend)) (packet lib)
      ((s₀.init param env).1.encoder, (s₀.init param env).1.scSend) s) :
    s.posted = (payloads lib (s₀.init param env).1.encoder s.handed).mapIdx fun i payload =>
      SC.wire param.ueid .to4G ((i + 1) % 2 ^ 24) (BitVec.ofNat 16 payload.length) ++
        payload := by
  have hsends := SC.sends_init s₀.scSend param.ueid .to4G 0
  rw [← init_scSend s₀ param env] at hsends
  rw [h.2, answers_packet lib hk param.ueid .to4G _ _ _ _ hsends]
  refine congrArg (List.mapIdx · _) ?_
  funext i payload
  rw [show (0 : BitVec 32).toNat + (i + 1) = i + 1 from Nat.zero_add _]

/-- The loop of a session works as its machine does. -/
theorem posted_run (hk : lib.Keeps) (left : χ → Buffer kLoopBuffSize → Buffer kLoopBuffSize)
    (session : DownloadSession χ) (codecBuff : Buffer kLoopBuffSize) (sendBuff : Memory)
    (l : List Arrival) :
    let start := LoopState.start session codecBuff sendBuff
    let s := Trace.run (LoopState.iteration (calls lib left) 480) start l
    Cut 960 s.handed s.frameBuff (LoopState.chunks (calls lib left) 480 start l).flatten ∧
      LoopState.Posted (fun s => (s.encoder, s.scSend)) (packet lib)
        (session.encoder, session.scSend) s := by
  have hfits : (calls lib left).Fits :=
    fits_calls lib left fun q input n hret =>
      ⟨hk.ret_eq q input n _ hret, hk.ret_le q input n _ hret⟩
  exact LoopState.posts_cut (calls lib left) 960 _ (packet lib) (drives_calls lib hk left) hfits
    480 rfl (by decide) (by decide) session codecBuff sendBuff l

/-- A download session is set up and runs its loop. The PCM that `Recv` makes is cut into
    frames of 960 bytes, and every frame that is encoded is posted behind an SC header,
    numbered from one on without a gap. -/
theorem posts_numbered (hk : lib.Keeps) (left : χ → Buffer kLoopBuffSize → Buffer kLoopBuffSize)
    (s₀ : DownloadSession χ) (param : SessionParam) (env : Setup χ)
    (codecBuff : Buffer kLoopBuffSize) (sendBuff : Memory) (l : List Arrival) :
    let session := (s₀.init param env).1
    let start := LoopState.start session codecBuff sendBuff
    let s := Trace.run (LoopState.iteration (calls lib left) 480) start l
    Cut 960 s.handed s.frameBuff (LoopState.chunks (calls lib left) 480 start l).flatten ∧
      s.posted = (payloads lib session.encoder s.handed).mapIdx fun i payload =>
        SC.wire param.ueid .to4G ((i + 1) % 2 ^ 24) (BitVec.ofNat 16 payload.length) ++
          payload := by
  rcases posted_run lib hk left (s₀.init param env).1 codecBuff sendBuff l with ⟨hcut, hposted⟩
  exact ⟨hcut, posted_init lib hk s₀ param env _ hposted⟩

/-- A system that sets up a mu-law session. -/
def muLawSetup : Setup G711 where
  sequenceNum := 0
  timestamp := 0
  ssrc := 0
  recvSocket := 0
  sendSocket := 0
  bind := 0
  encoder := .en .pcmU
  encoderInit := 0
  decoder := .de .pcmU
  decoderInit := 0

/-- An RTP packet with three frames of the mu-law. -/
def spoken : Arrival where
  recvLen := 492
  recvBuff := [0x80, 0, 0, 0, 0, 0, 0, 0, 0, 0, 0, 0] ++ List.replicate 480 0x55

/-- A mu-law session that gets two of them and posts two packets. -/
theorem posts_numbered_two :
    let param := { UploadSession.loopParam with ifAddUdpip := false, ifSendSc := false }
    let sc : SC := ⟨SCHeader.zero, SCHeader.zero, true⟩
    let session := (init ⟨sc, sc, param, .en .pcmU, .de .pcmU⟩ param muLawSetup).1
    let s := Trace.run (LoopState.iteration (calls g711 fun _ b => b) 480)
      (LoopState.start session ⟨List.replicate kLoopBuffSize 0, List.length_replicate⟩ fun _ => 0)
      [spoken, spoken]
    s.posted.length = 2 ∧
      s.posted = (payloads g711 (.en .pcmU) s.handed).mapIdx fun i payload =>
        SC.wire 1 .to4G ((i + 1) % 2 ^ 24) (BitVec.ofNat 16 payload.length) ++ payload :=
  ⟨by decide +kernel,
    (posts_numbered g711 g711_keeps (fun _ b => b) _ _ muLawSetup _ _ [spoken, spoken]).2⟩

end DownloadSession

end CodecChanger
