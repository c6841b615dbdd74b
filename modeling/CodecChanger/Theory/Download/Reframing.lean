import CodecChanger.Core.ProcessLoop
import CodecChanger.Lib.Blocks
import CodecChanger.Lib.Trace
import CodecChanger.Theory.Download.Layers

/-!
# Cutting PCM into Frames

The process loop gets PCM in pieces of any length and sends frames of one length.
What it has sent, together with what is waiting, is always what it has received:
nothing is lost, doubled or put in another place, whether a piece is sent at once
or put in the queue, and whether `Send` succeeds or not. A stream is cut into
frames in one way, so the frames depend on the PCM alone and not on the pieces it
came in.

Sending a piece at once saves a copy and nothing else: the loop that puts every
piece in the queue goes through the same states.

## Main definitions

* `Fits`: What `Recv` makes fits the buffer.
* `Records`: `Send` keeps a record.
* `decoded`, `chunks`: What `Recv` makes in an iteration, and in those of a run.
* `buffering`: The body of a loop that puts every piece in the queue.
* `sendNext`: The state after one frame out of the queue.

## Theorems

* `bytes_fill`, `fill_eq`: What the `for` loop does.
* `gives_drain`: The `while` loop ends.
* `drain_invariant`, `iteration_invariant`: What it keeps, and what an iteration keeps.
* `cut_drain`: The `while` loop cuts what is waiting into frames.
* `iteration_eq_buffering`: Sending at once is the same as putting in the queue.
* `received_run`: The record of what was received is of what `Recv` made.
* `logged_iteration`: That of what was handed on is the one `Send` keeps.
* `cut_iteration`: Every iteration keeps the stream.
* `reframing`: The PCM stream is preserved in every run.
-/

namespace CodecChanger

open Bytes Blocks Loop

variable {σ : Type*}

/-- When `Recv` succeeds, it returns the length of what it made, and that fits the
    buffer. -/
def Calls.Fits (calls : Calls σ) : Prop :=
  ∀ s input n, 0 ≤ (calls.recv s input n kLoopBuffSize).2.ret →
    (calls.recv s input n kLoopBuffSize).2.ret =
        (calls.recv s input n kLoopBuffSize).2.written.length ∧
      (calls.recv s input n kLoopBuffSize).2.written.length ≤ kLoopBuffSize

/-- `Send` keeps a record of what it is called with, which `Recv` leaves alone. -/
structure Calls.Records (calls : Calls σ) (log : σ → List (List Byte)) : Prop where
  recv_log : ∀ s input n, log (calls.recv s input n kLoopBuffSize).1 = log s
  send_log : ∀ s buff (n : Nat) out,
    log (calls.send s buff n out kLoopBuffSize).1 = log s ++ [buff.bytes.take n]

namespace LoopState

/-- What an iteration gets: the chunk that `Recv` makes, if something was received and `Recv`
    does not fail. -/
def decoded (calls : Calls σ) (s : LoopState σ) (a : Arrival) : Option (List Byte) :=
  if a.recvLen ≤ 0 then none
  else if (calls.recv s.session a.recvBuff a.recvLen kLoopBuffSize).2.ret < 0 then none
  else some (calls.recv s.session a.recvBuff a.recvLen kLoopBuffSize).2.written

/-- The chunks that the iterations of a run get. -/
def chunks (calls : Calls σ) (sendFrame : Nat) (s : LoopState σ) (l : List Arrival) :
    List (List Byte) :=
  (Trace.answers (fun s a => (iteration calls sendFrame s a, decoded calls s a)) s l).filterMap id

/-- The body of a loop that puts every piece in the queue. -/
def buffering (calls : Calls σ) (sendFrame : Nat) (s : LoopState σ) (a : Arrival) :
    LoopState σ :=
  match receive calls s a with
  | (s, none) => s
  | (s, some codecLength) => drain calls (2 * sendFrame) (s.append codecLength)

/-- The state after one frame out of the queue. -/
def sendNext (calls : Calls σ) (n : Nat) (s : LoopState σ) : LoopState σ :=
  let (s, sendLength) := hand calls { s with
    codecBuff := s.codecBuff.write (s.frameBuff.take n)
    frameBuff := s.frameBuff.drop n } n
  if sendLength ≤ 0 then s else s.post sendLength

variable (calls : Calls σ) (n : Nat) (s : LoopState σ)

/-- What the `for` loop does: the bytes in front move to the buffer. -/
theorem bytes_fill (b : Buffer kLoopBuffSize) (i : Nat) (l : List Byte) (hn : n ≤ l.length)
    (hi : i + n ≤ kLoopBuffSize) :
    (fill b i n l).1.bytes = b.bytes.take i ++ (l.take n ++ b.bytes.drop (i + n)) ∧
      (fill b i n l).2 = l.drop n := by
  induction n generalizing b i l with
  | zero =>
      refine ⟨?_, rfl⟩
      rw [List.take_zero, List.nil_append, Nat.add_zero, List.take_append_drop]
      rfl
  | succ n ih =>
      cases l with
      | nil =>
          rw [List.length_nil] at hn
          omega
      | cons x l =>
          rw [List.length_cons] at hn
          rcases ih (b.set i x) (i + 1) l (by omega) (by omega) with ⟨hbytes, hrest⟩
          have hlt : i < b.bytes.length := by
            rw [b.length_eq]
            omega
          -- The byte put at `i` ends the part in front, and what is behind stays.
          have hfront : (b.set i x).bytes.take (i + 1) = b.bytes.take i ++ [x] := by
            change (b.bytes.set i x).take (i + 1) = b.bytes.take i ++ [x]
            rw [List.set_eq_take_append_cons_drop, if_pos hlt, List.take_append,
              List.length_take_of_le (by omega), Nat.add_sub_cancel_left,
              List.take_of_length_le (by rw [List.length_take_of_le (by omega)]; omega)]
            rfl
          have hback : (b.set i x).bytes.drop (i + 1 + n) = b.bytes.drop (i + (n + 1)) := by
            change (b.bytes.set i x).drop (i + 1 + n) = b.bytes.drop (i + (n + 1))
            rw [List.drop_set_of_lt (by omega), Nat.add_assoc, Nat.add_comm 1 n]
          refine ⟨?_, hrest⟩
          rw [fill, hbytes, hfront, hback, List.append_assoc]
          rfl

/-- What the `for` loop does, from the start of the buffer. -/
theorem fill_eq (b : Buffer kLoopBuffSize) (l : List Byte) (hn : n ≤ l.length)
    (hle : n ≤ kLoopBuffSize) : fill b 0 n l = (b.write (l.take n), l.drop n) := by
  rcases bytes_fill n b 0 l hn (by omega) with ⟨hbytes, hrest⟩
  have hlen : (l.take n).length = n := List.length_take_of_le hn
  refine Prod.ext (Buffer.ext ?_) hrest
  rw [hbytes, Buffer.bytes_write b _ (by omega), hlen, List.take_zero, List.nil_append,
    Nat.zero_add]

theorem drainBody_again (hn : n ≤ s.frameBuff.length) (hle : n ≤ kLoopBuffSize) :
    drainBody calls n s = .again (sendNext calls n s) := by
  unfold drainBody sendNext
  rw [if_pos hn, fill_eq n s.codecBuff s.frameBuff hn hle]
  simp only []
  split
  · rfl
  · rfl

theorem drainBody_leave (hn : s.frameBuff.length < n) : drainBody calls n s = .leave s :=
  if_neg (by omega)

/-- A frame out of the queue is the next one of the stream. -/
theorem sendNext_eq (hn : n ≤ s.frameBuff.length) (hle : n ≤ kLoopBuffSize) :
    (sendNext calls n s).frameBuff = s.frameBuff.drop n ∧
      (sendNext calls n s).handed = s.handed ++ [s.frameBuff.take n] ∧
      (sendNext calls n s).received = s.received := by
  have hlen : (s.frameBuff.take n).length = n := List.length_take_of_le hn
  have htake := Buffer.take_write s.codecBuff (s.frameBuff.take n) (by omega)
  rw [hlen] at htake
  unfold sendNext hand
  simp only [htake]
  split
  · exact ⟨rfl, rfl, rfl⟩
  · exact ⟨rfl, rfl, rfl⟩

/-- The `while` loop ends, and `drain` is what it ends with. -/
theorem gives_drain (hpos : 0 < n) (hle : n ≤ kLoopBuffSize) :
    Gives (drainBody calls n) s (drain calls n s) := by
  have hfall : ∀ t u : LoopState σ, True → drainBody calls n t = .again u →
      True ∧ u.frameBuff.length < t.frameBuff.length := by
    intro t u _ hbody
    by_cases hn : n ≤ t.frameBuff.length
    · rw [drainBody_again calls n t hn hle, Next.again.injEq] at hbody
      rw [← hbody, (sendNext_eq calls n t hn hle).1, List.length_drop]
      exact ⟨trivial, by omega⟩
    · rw [drainBody_leave calls n t (by omega)] at hbody
      exact absurd hbody (by simp only [reduceCtorEq, not_false_eq_true])
  rcases run_of_variant (fun _ => True) (fun t : LoopState σ => t.frameBuff.length) hfall
    (s.frameBuff.length + 1) s trivial (Nat.lt_succ_self _) with ⟨r, hr⟩
  exact ⟨s.frameBuff.length + 1, by rw [drain, hr, Option.getD_some]⟩

theorem drain_of_short (hle : n ≤ kLoopBuffSize) (hn : s.frameBuff.length < n) :
    drain calls n s = s :=
  (gives_leave s _ _ (drainBody_leave calls n s hn)).mp (gives_drain calls n s (by omega) hle)

theorem drain_of_long (hpos : 0 < n) (hle : n ≤ kLoopBuffSize) (hn : n ≤ s.frameBuff.length) :
    drain calls n s = drain calls n (sendNext calls n s) :=
  gives_unique _ _ _
    ((gives_again s _ _ (drainBody_again calls n s hn hle)).mp (gives_drain calls n s hpos hle))
    (gives_drain calls n (sendNext calls n s) hpos hle)

/-- What a frame out of the queue keeps, the `while` loop keeps, and less than a frame is
    waiting at its end. -/
theorem drain_invariant (P : LoopState σ → Prop) (hpos : 0 < n) (hle : n ≤ kLoopBuffSize)
    (hnext : ∀ t, n ≤ t.frameBuff.length → P t → P (sendNext calls n t)) (hs : P s) :
    P (drain calls n s) ∧ (drain calls n s).frameBuff.length < n := by
  refine gives_invariant P (fun r => P r ∧ r.frameBuff.length < n) ?_ ?_ s _ hs
    (gives_drain calls n s hpos hle)
  · intro t u ht hbody
    by_cases hn : n ≤ t.frameBuff.length
    · rw [drainBody_again calls n t hn hle, Next.again.injEq] at hbody
      exact hbody ▸ hnext t hn ht
    · rw [drainBody_leave calls n t (by omega)] at hbody
      exact absurd hbody (by simp only [reduceCtorEq, not_false_eq_true])
  · intro t r ht hbody
    by_cases hn : n ≤ t.frameBuff.length
    · rw [drainBody_again calls n t hn hle] at hbody
      exact absurd hbody (by simp only [reduceCtorEq, not_false_eq_true])
    · rw [drainBody_leave calls n t (by omega), Next.leave.injEq] at hbody
      exact hbody ▸ ⟨ht, by omega⟩

/-- The `while` loop cuts what is waiting into frames. -/
theorem cut_drain (hpos : 0 < n) (hle : n ≤ kLoopBuffSize) :
    (∃ more, Cut n more (drain calls n s).frameBuff s.frameBuff ∧
      (drain calls n s).handed = s.handed ++ more) ∧
      (drain calls n s).received = s.received := by
  -- At every round the frames sent so far and the queue are what was waiting.
  have hnext : ∀ t : LoopState σ, n ≤ t.frameBuff.length →
      ((∃ more : List (List Byte), more.flatten ++ t.frameBuff = s.frameBuff ∧
        (∀ b ∈ more, b.length = n) ∧ t.handed = s.handed ++ more) ∧ t.received = s.received) →
      (∃ more : List (List Byte), more.flatten ++ (sendNext calls n t).frameBuff = s.frameBuff ∧
        (∀ b ∈ more, b.length = n) ∧ (sendNext calls n t).handed = s.handed ++ more) ∧
        (sendNext calls n t).received = s.received := by
    rintro t hn ⟨⟨more, hstream, hlength, hhanded⟩, hreceived⟩
    rcases sendNext_eq calls n t hn hle with ⟨hrest, hhand, hrec⟩
    rw [hrest, hhand, hrec]
    refine ⟨⟨more ++ [t.frameBuff.take n], ?_, fun b hb => ?_, ?_⟩, hreceived⟩
    · rw [List.flatten_append, List.append_assoc, List.flatten_singleton,
        List.take_append_drop, hstream]
    · rcases List.mem_append.mp hb with hb | hb
      · exact hlength b hb
      · rw [List.mem_singleton.mp hb]
        exact List.length_take_of_le hn
    · rw [hhanded, List.append_assoc]
  rcases drain_invariant calls n s _ hpos hle hnext
    ⟨⟨[], rfl, fun _ hb => absurd hb List.not_mem_nil, (List.append_nil _).symm⟩, rfl⟩ with
    ⟨⟨⟨more, hstream, hlength, hhanded⟩, hreceived⟩, hshort⟩
  exact ⟨⟨more, ⟨hstream, hlength, hshort⟩, hhanded⟩, hreceived⟩

/-- What an iteration starts with: nothing, or one more piece, at the start of the
    buffer. -/
theorem receive_cases (hfits : calls.Fits) (a : Arrival) :
    ((receive calls s a).2 = none ∨
      ∃ piece, (receive calls s a).2 = some piece.length ∧
        (receive calls s a).1.received = s.received ++ [piece] ∧
        (receive calls s a).1.codecBuff.bytes.take piece.length = piece ∧
        piece.length ≤ kLoopBuffSize) ∧
      (receive calls s a).1.frameBuff = s.frameBuff ∧
      (receive calls s a).1.handed = s.handed ∧
      ((receive calls s a).2 = none → (receive calls s a).1.received = s.received) := by
  unfold receive
  by_cases hlen : a.recvLen ≤ 0
  · rw [if_pos hlen]
    exact ⟨Or.inl rfl, rfl, rfl, fun _ => rfl⟩
  · have hfit := hfits s.session a.recvBuff a.recvLen
    rw [if_neg hlen]
    simp only []
    by_cases hret : (calls.recv s.session a.recvBuff a.recvLen kLoopBuffSize).2.ret < 0
    · rw [if_pos hret]
      exact ⟨Or.inl rfl, rfl, rfl, fun _ => rfl⟩
    · rcases hfit (not_lt.mp hret) with ⟨hlength, hle⟩
      rw [if_neg hret, hlength, Int.toNat_natCast]
      refine ⟨Or.inr ⟨_, rfl, rfl, Buffer.take_write _ _ hle, hle⟩, rfl, rfl, fun hc => ?_⟩
      exact absurd hc (by simp only [reduceCtorEq, not_false_eq_true])

/-- The queue with a piece in it that has just been received goes to `Send` as the
    piece did. -/
theorem sendNext_append (hn : n ≤ kLoopBuffSize) (hempty : s.frameBuff = []) :
    sendNext calls n (s.append n) =
      if (hand calls s n).2 ≤ 0 then (hand calls s n).1
      else (hand calls s n).1.post (hand calls s n).2 := by
  have htake : (s.codecBuff.bytes.take n).length = n :=
    List.length_take_of_le (by rw [s.codecBuff.length_eq]; exact hn)
  have hbuff : s.codecBuff.write (s.codecBuff.bytes.take n) = s.codecBuff := by
    refine Buffer.ext ?_
    rw [Buffer.bytes_write _ _ (by omega), htake, List.take_append_drop]
  have hsame : { s.append n with
      codecBuff := (s.append n).codecBuff.write ((s.append n).frameBuff.take n)
      frameBuff := (s.append n).frameBuff.drop n } = s := by
    have hqueue : (s.append n).frameBuff = s.codecBuff.bytes.take n := by
      unfold append
      rw [hempty, List.nil_append]
    rw [hqueue, List.take_of_length_le (by omega), List.drop_eq_nil_of_le (by omega)]
    unfold append
    simp only [hbuff, ← hempty]
  unfold sendNext
  rw [hsame]

/-- Sending at once is the same as putting in the queue. -/
theorem iteration_eq_buffering (hfits : calls.Fits) (sendFrame : Nat) (a : Arrival)
    (hpos : 0 < 2 * sendFrame) (hle : 2 * sendFrame ≤ kLoopBuffSize) :
    iteration calls sendFrame s a = buffering calls sendFrame s a := by
  rcases receive_cases calls s hfits a with ⟨hcases, -⟩
  unfold iteration buffering
  generalize receive calls s a = got at hcases ⊢
  rcases got with ⟨t, codecLength⟩
  rcases hcases with hnone | ⟨piece, hsome, -, htake, -⟩
  · simp only [] at hnone
    simp only [hnone]
  · simp only [] at hsome htake
    simp only [hsome]
    by_cases hfast : piece.length = 2 * sendFrame ∧ t.frameBuff = []
    · rcases hfast with ⟨hlength, hempty⟩
      have hqueue : (t.append (2 * sendFrame)).frameBuff.length = 2 * sendFrame := by
        unfold append
        rw [hempty, List.nil_append, ← hlength, htake]
      have hhand : (hand calls t (2 * sendFrame)).1.frameBuff = [] := hempty
      rw [if_pos ⟨hlength, hempty⟩, hlength,
        drain_of_long calls (2 * sendFrame) (t.append (2 * sendFrame)) hpos hle (by omega),
        sendNext_append calls (2 * sendFrame) t hle hempty]
      -- Nothing is waiting when the piece has been sent.
      split
      · rw [drain_of_short calls _ _ hle (by rw [hhand]; exact hpos)]
      · rfl
    · rw [if_neg hfast]

/-- What the receiving part, a piece for the queue and a frame out of it keep, an iteration
    keeps. -/
theorem iteration_invariant (P : LoopState σ → Prop) (hfits : calls.Fits) (sendFrame : Nat)
    (a : Arrival) (hpos : 0 < 2 * sendFrame) (hle : 2 * sendFrame ≤ kLoopBuffSize)
    (hreceive : P (receive calls s a).1) (happend : ∀ t k, P t → P (t.append k))
    (hnext : ∀ t, P t → P (sendNext calls (2 * sendFrame) t)) :
    P (iteration calls sendFrame s a) := by
  rw [iteration_eq_buffering calls s hfits sendFrame a hpos hle]
  unfold buffering
  generalize receive calls s a = got at hreceive ⊢
  rcases got with ⟨t, _ | codecLength⟩
  · exact hreceive
  · exact (drain_invariant calls (2 * sendFrame) (t.append codecLength) P hpos hle
      (fun u _ => hnext u) (happend t codecLength hreceive)).1

/-- The record of what `Recv` made is of what it made. -/
theorem received_receive (a : Arrival) :
    (receive calls s a).1.received = s.received ++ (decoded calls s a).toList := by
  unfold receive decoded
  by_cases hlen : a.recvLen ≤ 0
  · rw [if_pos hlen, if_pos hlen]
    exact (List.append_nil _).symm
  · rw [if_neg hlen, if_neg hlen]
    simp only []
    by_cases hret : (calls.recv s.session a.recvBuff a.recvLen kLoopBuffSize).2.ret < 0
    · rw [if_pos hret, if_pos hret]
      exact (List.append_nil _).symm
    · rw [if_neg hret, if_neg hret]
      rfl

/-- What an iteration gets is in the record behind it. -/
theorem received_iteration (hfits : calls.Fits) (sendFrame : Nat) (a : Arrival)
    (hpos : 0 < 2 * sendFrame) (hle : 2 * sendFrame ≤ kLoopBuffSize) :
    (iteration calls sendFrame s a).received = s.received ++ (decoded calls s a).toList := by
  have hreceive := received_receive calls s a
  rw [iteration_eq_buffering calls s hfits sendFrame a hpos hle]
  unfold buffering
  generalize receive calls s a = got at hreceive ⊢
  rcases got with ⟨t, _ | codecLength⟩
  · exact hreceive
  · exact (cut_drain calls (2 * sendFrame) (t.append codecLength) hpos hle).2.trans hreceive

/-- The record of a run is that of its chunks. -/
theorem received_run (hfits : calls.Fits) (sendFrame : Nat) (hpos : 0 < 2 * sendFrame)
    (hle : 2 * sendFrame ≤ kLoopBuffSize) (l : List Arrival) :
    (Trace.run (iteration calls sendFrame) s l).received =
      s.received ++ chunks calls sendFrame s l := by
  induction l generalizing s with
  | nil => exact (List.append_nil _).symm
  | cons a l ih =>
      have hchunks : chunks calls sendFrame s (a :: l) =
          (decoded calls s a).toList ++
            chunks calls sendFrame (iteration calls sendFrame s a) l := by
        unfold chunks
        rw [Trace.answers]
        cases decoded calls s a with
        | none => rfl
        | some piece => rfl
      have hrun : Trace.run (iteration calls sendFrame) s (a :: l) =
          Trace.run (iteration calls sendFrame) (iteration calls sendFrame s a) l := rfl
      rw [hrun, ih, received_iteration calls s hfits sendFrame a hpos hle, hchunks,
        List.append_assoc]

section

variable (log : σ → List (List Byte)) (hlog : calls.Records log)

include hlog

theorem logged_sendNext (h : log s.session = s.handed) :
    log (sendNext calls n s).session = (sendNext calls n s).handed := by
  have hsend := hlog.send_log s.session (s.codecBuff.write (s.frameBuff.take n)) n s.sendBuff
  rw [h] at hsend
  unfold sendNext
  simp only []
  split
  · exact hsend
  · exact hsend

theorem logged_receive (a : Arrival) (h : log s.session = s.handed) :
    log (receive calls s a).1.session = (receive calls s a).1.handed := by
  have hrecv := (hlog.recv_log s.session a.recvBuff a.recvLen).trans h
  unfold receive
  split
  · exact h
  · simp only []
    split
    · exact hrecv
    · exact hrecv

/-- The record of what was handed to `Send` is the one `Send` keeps. -/
theorem logged_iteration (hfits : calls.Fits) (sendFrame : Nat) (hpos : 0 < 2 * sendFrame)
    (hle : 2 * sendFrame ≤ kLoopBuffSize) (a : Arrival) (h : log s.session = s.handed) :
    log (iteration calls sendFrame s a).session = (iteration calls sendFrame s a).handed :=
  iteration_invariant calls s (fun t => log t.session = t.handed) hfits sendFrame a hpos hle
    (logged_receive calls s log hlog a h) (fun _ _ ht => ht)
    (fun t ht => logged_sendNext calls _ t log hlog ht)

end

/-- Every iteration keeps the stream. -/
theorem cut_iteration (hfits : calls.Fits) (sendFrame : Nat) (a : Arrival)
    (hpos : 0 < 2 * sendFrame) (hle : 2 * sendFrame ≤ kLoopBuffSize)
    (h : Cut (2 * sendFrame) s.handed s.frameBuff s.received.flatten) :
    Cut (2 * sendFrame) (iteration calls sendFrame s a).handed
      (iteration calls sendFrame s a).frameBuff
      (iteration calls sendFrame s a).received.flatten := by
  rw [iteration_eq_buffering calls s hfits sendFrame a hpos hle]
  rcases receive_cases calls s hfits a with ⟨hcases, hqueue, hhanded, hkept⟩
  unfold buffering
  generalize receive calls s a = got at hcases hqueue hhanded hkept ⊢
  rcases got with ⟨t, codecLength⟩
  simp only [] at hqueue hhanded hkept
  rcases hcases with hnone | ⟨piece, hsome, hreceived, htake, -⟩
  · simp only [] at hnone
    simp only [hnone]
    rw [hqueue, hhanded, hkept hnone]
    exact h
  · simp only [] at hsome hreceived htake
    simp only [hsome]
    rcases cut_drain calls (2 * sendFrame) (t.append piece.length) hpos hle with
      ⟨⟨more, hcut, hmore⟩, hrec⟩
    have hfront : (t.append piece.length).frameBuff = s.frameBuff ++ piece := by
      unfold append
      rw [htake, hqueue]
    have hstream : (t.append piece.length).received.flatten = s.received.flatten ++ piece := by
      unfold append
      rw [hreceived, List.flatten_append, List.flatten_singleton]
    rw [hfront] at hcut
    rw [hmore, hrec, hstream, show (t.append piece.length).handed = s.handed from hhanded]
    exact cut_append _ _ _ _ _ _ _ h hcut

/-- Every run keeps the stream. -/
theorem cut_run (hfits : calls.Fits) (sendFrame : Nat) (hpos : 0 < 2 * sendFrame)
    (hle : 2 * sendFrame ≤ kLoopBuffSize) (session : σ) (codecBuff : Buffer kLoopBuffSize)
    (sendBuff : Memory) (l : List Arrival) :
    let s := Trace.run (iteration calls sendFrame) (start session codecBuff sendBuff) l
    Cut (2 * sendFrame) s.handed s.frameBuff
      (chunks calls sendFrame (start session codecBuff sendBuff) l).flatten := by
  have hcut := Trace.run_invariant (iteration calls sendFrame)
    (fun s => Cut (2 * sendFrame) s.handed s.frameBuff s.received.flatten)
    (fun s a h => cut_iteration calls s hfits sendFrame a hpos hle h) l
    (start session codecBuff sendBuff) (cut_nil (2 * sendFrame) hpos)
  rw [received_run calls _ hfits sendFrame hpos hle l] at hcut
  exact hcut

/-- The PCM stream is preserved in every run. After any iterations, what was handed
    to `Send` and what is waiting are the chunks that `Recv` made, one behind the other,
    cut into frames of the one length and a rest that is shorter. What was handed to
    `Send` is what a `Send` that keeps a record has in it. Another run that gets the same
    PCM, in whatever pieces and whatever its `Send` makes of it, hands the same frames to
    `Send`. And the run is that of the loop that puts every piece in the queue. -/
theorem reframing (hfits : calls.Fits) (sendFrame : Nat) (hpos : 0 < 2 * sendFrame)
    (hle : 2 * sendFrame ≤ kLoopBuffSize) (session : σ) (codecBuff : Buffer kLoopBuffSize)
    (sendBuff : Memory) (l : List Arrival) :
    let s₀ := start session codecBuff sendBuff
    let s := Trace.run (iteration calls sendFrame) s₀ l
    Cut (2 * sendFrame) s.handed s.frameBuff (chunks calls sendFrame s₀ l).flatten ∧
      (∀ log, calls.Records log → log session = [] → log s.session = s.handed) ∧
      (∀ (calls' : Calls σ) (session' : σ) (codecBuff' : Buffer kLoopBuffSize)
          (sendBuff' : Memory) (l' : List Arrival), calls'.Fits →
        (chunks calls' sendFrame (start session' codecBuff' sendBuff') l').flatten =
          (chunks calls sendFrame s₀ l).flatten →
        (Trace.run (iteration calls' sendFrame) (start session' codecBuff' sendBuff') l').handed =
          s.handed) ∧
      s = Trace.run (buffering calls sendFrame) s₀ l := by
  have hcut := cut_run calls hfits sendFrame hpos hle session codecBuff sendBuff l
  refine ⟨hcut, fun log hlog hstart => ?_,
    fun calls' session' codecBuff' sendBuff' l' hfits' hsame => ?_, ?_⟩
  · exact Trace.run_invariant (iteration calls sendFrame) (fun s => log s.session = s.handed)
      (fun s a h => logged_iteration calls s log hlog hfits sendFrame hpos hle a h) l _ hstart
  · have hcut' := cut_run calls' hfits' sendFrame hpos hle session' codecBuff' sendBuff' l'
    simp only [hsame] at hcut'
    exact (cut_unique _ _ _ _ _ _ hcut' hcut).1
  · have hbody : iteration calls sendFrame = buffering calls sendFrame := by
      funext s a
      exact iteration_eq_buffering calls s hfits sendFrame a hpos hle
    simp only [hbody]

end LoopState

namespace DownloadSession

variable {χ : Type*}

/-- A call of `Recv` failed, or returned and wrote what a call of the decoder did. -/
def Decoded (lib : CoderLib χ) (outputLength : Int) (r : Received) : Prop :=
  r.ret = -1 ∨ ∃ q input n, r.ret = (lib.codec q input n outputLength).2.ret ∧
    r.written = (lib.codec q input n outputLength).2.written

variable (lib : CoderLib χ) (s : DownloadSession χ) (data : List Byte)

theorem decoded_recvRtp (k : Nat) (n outputLength : Int) :
    Decoded lib outputLength (s.recvRtp lib data k n outputLength).2 := by
  unfold recvRtp
  simp only []
  split
  · exact Or.inl rfl
  · by_cases hret : (lib.codec s.decoder
        ((RtpSession.decodeRtpHeader (data.drop k) (BitVec.ofInt 32 n)).2.1.drop
          (RtpSession.decodeRtpHeader (data.drop k) (BitVec.ofInt 32 n)).1.toNat)
        (n - (RtpSession.decodeRtpHeader (data.drop k) (BitVec.ofInt 32 n)).1)
        outputLength).2.ret < 0
    · exact Or.inl (if_pos hret)
    · exact Or.inr ⟨_, _, _, if_neg hret, rfl⟩

theorem decoded_recvUdpIp (k : Nat) (n outputLength : Int) :
    Decoded lib outputLength (s.recvUdpIp lib data k n outputLength).2 := by
  unfold recvUdpIp
  split
  · simp only []
    split
    · exact Or.inl rfl
    · exact decoded_recvRtp lib s data _ _ outputLength
  · exact decoded_recvRtp lib s data k n outputLength

theorem decoded_recv (n outputLength : Int) :
    Decoded lib outputLength (s.recv lib data n outputLength).2 := by
  unfold recv
  split
  · simp only []
    split
    · exact Or.inl rfl
    · exact decoded_recvUdpIp lib _ data _ _ outputLength
  · exact decoded_recvUdpIp lib s data 0 n outputLength

/-- With a decoder that returns the length of what it made and keeps to the room it
    is given, what a download session makes fits. -/
theorem fits_calls (left : χ → Buffer kLoopBuffSize → Buffer kLoopBuffSize)
    (h : ∀ q input n, 0 ≤ (lib.codec q input n kLoopBuffSize).2.ret →
      (lib.codec q input n kLoopBuffSize).2.ret =
          (lib.codec q input n kLoopBuffSize).2.written.length ∧
        (lib.codec q input n kLoopBuffSize).2.ret ≤ kLoopBuffSize) :
    (calls lib left).Fits := by
  intro s input n hret
  change 0 ≤ (s.recv lib input n kLoopBuffSize).2.ret at hret
  change (s.recv lib input n kLoopBuffSize).2.ret =
      (s.recv lib input n kLoopBuffSize).2.written.length ∧
    (s.recv lib input n kLoopBuffSize).2.written.length ≤ kLoopBuffSize
  rcases decoded_recv lib s input n kLoopBuffSize with hfail | ⟨q, payload, m, hr, hw⟩
  · omega
  · rw [hr] at hret ⊢
    rw [hw]
    rcases h q payload m hret with ⟨hlength, hle⟩
    exact ⟨hlength, by omega⟩

/-- Coders that make as many zeros as their state says, if there is room. -/
def zerosInRoom : CoderLib Nat where
  codec k _ _ room := (k, {
    ret := (min k room.toNat : Nat)
    written := List.replicate (min k room.toNat) 0 })

/-- A receiver of bare RTP packets that decodes each to 700 bytes of PCM. -/
def bare : DownloadSession Nat :=
  { listener { UploadSession.loopParam with ifAddUdpip := false, ifSendSc := false } with
    decoder := 700 }

/-- A plain RTP header and nothing behind it. -/
def bareHeader : Arrival := ⟨12, [0x80, 0, 0, 0, 0, 0, 0, 0, 0, 0, 0, 0]⟩

/-- The loop with nothing in it, for that receiver. -/
def bareStart : LoopState (DownloadSession Nat) :=
  .start bare ⟨List.replicate kLoopBuffSize 0, List.length_replicate⟩ (fun _ => 0)

/-- The loop of that receiver, with the frame length it is called with, after two
    datagrams: twice 700 bytes, of which 960 are handed to `Send` and 440 wait. -/
theorem reframing_bare :
    let s := Trace.run (LoopState.iteration (calls zerosInRoom fun _ b => b) 480) bareStart
      [bareHeader, bareHeader]
    Cut (2 * 480) s.handed s.frameBuff
        (LoopState.chunks (calls zerosInRoom fun _ b => b) 480 bareStart
          [bareHeader, bareHeader]).flatten ∧
      s = Trace.run (LoopState.buffering (calls zerosInRoom fun _ b => b) 480) bareStart
        [bareHeader, bareHeader] := by
  have hfits : (calls zerosInRoom fun _ b => b).Fits := fits_calls zerosInRoom _ fun k _ _ _ =>
    ⟨by rw [zerosInRoom, List.length_replicate], Int.ofNat_le.mpr (Nat.min_le_right k _)⟩
  exact ⟨(LoopState.reframing _ hfits 480 (by decide) (by decide) bare _ _
      [bareHeader, bareHeader]).1,
    (LoopState.reframing _ hfits 480 (by decide) (by decide) bare _ _
      [bareHeader, bareHeader]).2.2.2⟩

end DownloadSession

end CodecChanger
