import CodecChanger.Lib.Trace
import CodecChanger.Theory.Upload.Header

/-!
# Setting Up the Upload Sender

`UnPak` is to set up the SC sender once, with the UEID and the number of the first
datagram that the SC receiver accepts. Two latches are involved, one in the
session and one in the receiver. The receiver's is released by a datagram that
has passed the length test. The session's is released by the first datagram of
all, before `UnPak` looks at what `Recv` returned, and the sender is then set up
from a header that nothing has been read into.

So the sender is set up as it should be exactly when the very first datagram is a
good one. Otherwise it sends with UEID zero, and no later datagram changes that.

## Main definitions

* `WellFormed`: A datagram the receiver accepts as its first.
* `Accepts`: The receiver accepts a datagram.
* `Same`, `SetUpBy`: What a call leaves of the latch and of the sender.
* `SetUpOnce`: The calls of a run leave what they should.

## Theorems

* `recv_wellFormed_iff`: The first datagram is accepted when it is well formed.
* `setUpOnce_of_released`: With the latch released nothing more happens.
* `setUpOnce_iff`: The exact condition for the sender to be set up right.
-/

namespace CodecChanger

open Bytes

variable {χ : Type*}

namespace UploadSession

/-- The SC header a datagram starts with. -/
def headerOf (data : List Byte) : SCHeader := scCopyFromNet (SCHeader.load data)

/-- A datagram has an SC header, and is as long as that says. -/
def WellFormed (data : List Byte) : Prop :=
  kSCHeadSize ≤ data.length ∧ data.length = kSCHeadSize + (headerOf data).length.toNat

instance (data : List Byte) : Decidable (WellFormed data) := inferInstanceAs (Decidable (_ ∧ _))

/-- The receiver accepts the datagram. -/
def Accepts (sc : BitVec 32) (s : UploadSession χ) (data : List Byte) : Prop :=
  0 ≤ (s.scRecv.recv data data.length sc).2.1

instance (sc : BitVec 32) (s : UploadSession χ) (data : List Byte) :
    Decidable (Accepts sc s data) := inferInstanceAs (Decidable (_ ≤ _))

/-- The state after a datagram. -/
def afterUnPak (sc : BitVec 32) (s : UploadSession χ) (data : List Byte) : UploadSession χ :=
  (s.unPak data data.length sc).1

/-- The latch and the sender are as they were. -/
def Same (s s' : UploadSession χ) : Prop := s'.firstPack = s.firstPack ∧ s'.scSend = s.scSend

/-- The latch is released, and the sender set up from the datagram. -/
def SetUpBy (data : List Byte) (s s' : UploadSession χ) : Prop :=
  s'.firstPack = false ∧
    s'.scSend = s.scSend.init (headerOf data).ueid .to4G (getScSn (headerOf data))

/-- The first datagram of the run that is accepted sets the sender up, and every
    other one leaves the latch and the sender as they were. Whether one has been
    accepted before the run is `seen`. -/
def SetUpOnce (sc : BitVec 32) : Bool → UploadSession χ → List (List Byte) → Prop
  | _, _, [] => True
  | seen, s, data :: l =>
      (if Accepts sc s data ∧ seen = false then SetUpBy data s (afterUnPak sc s data)
        else Same s (afterUnPak sc s data)) ∧
      SetUpOnce sc (seen || decide (Accepts sc s data)) (afterUnPak sc s data) l

variable (sc : BitVec 32) (s : UploadSession χ)

/-- The receiver accepts its first datagram when that is well formed. -/
theorem recv_wellFormed_iff (data : List Byte) (h : s.scRecv.firstPack = true) :
    Accepts sc s data ↔ WellFormed data := by
  unfold Accepts
  constructor
  · intro hacc
    rcases SC.recv_cases s.scRecv data data.length sc with hret | ⟨-, hlen⟩
    · omega
    · have hlength : data.length = kSCHeadSize + (headerOf data).length.toNat := by
        unfold headerOf
        omega
      exact ⟨by omega, hlength⟩
  · intro hwell
    rw [SC.recv_first s.scRecv data data.length sc (headerOf data) rfl (by
      rw [hwell.2]
      push_cast
      rfl) h]
    simp only []
    omega

/-- Once the latch has been released, a datagram leaves the sender alone. -/
theorem same_of_released (data : List Byte) (h : s.firstPack = false) :
    Same s (afterUnPak sc s data) := by
  unfold afterUnPak unPak
  simp only [h, Bool.false_eq_true, if_false]
  split
  · exact ⟨h.symm, rfl⟩
  · exact ⟨h.symm, rfl⟩

/-- Once the latch has been released and a datagram accepted, the rest of the run
    is as it should be. -/
theorem setUpOnce_of_released (l : List (List Byte)) (h : s.firstPack = false) :
    SetUpOnce sc true s l := by
  induction l generalizing s with
  | nil => exact trivial
  | cons data l ih =>
      have hsame := same_of_released sc s data h
      refine ⟨?_, ih _ (hsame.1.trans h)⟩
      rw [if_neg (fun hc => Bool.noConfusion hc.2)]
      exact hsame

/-- After any datagram the latch is released. -/
theorem firstPack_afterUnPak (data : List Byte) : (afterUnPak sc s data).firstPack = false := by
  cases h : s.firstPack with
  | false => exact (same_of_released sc s data h).1.trans h
  | true =>
      unfold afterUnPak unPak
      simp only [h, if_true]
      split
      · rfl
      · rfl

/-- The first datagram of a receiver sets the sender up when it is well formed. -/
theorem setUpBy_of_wellFormed (data : List Byte) (hs : s.firstPack = true)
    (hr : s.scRecv.firstPack = true) (hwell : WellFormed data) :
    SetUpBy data s (afterUnPak sc s data) := by
  have hrecv := SC.recv_first s.scRecv data data.length sc (headerOf data) rfl (by
    rw [hwell.2]
    push_cast
    rfl) hr
  unfold SetUpBy afterUnPak unPak
  rw [hrecv]
  simp only [hs, if_true]
  rw [if_neg (by omega)]
  exact ⟨rfl, rfl⟩

/-- A session is set up and gets any datagrams. The sender is set up once, by the
    first datagram that is accepted, and left alone by those that are not, exactly
    when the first datagram of all, if there is one, is well formed. -/
theorem setUpOnce_iff (param : SessionParam) (env : Setup χ) (l : List (List Byte)) :
    SetUpOnce sc false (s.init param env).1 l ↔ ∀ data, l.head? = some data → WellFormed data := by
  have hlatches : (s.init param env).1.firstPack = true ∧
      (s.init param env).1.scRecv.firstPack = true := by
    unfold init
    simp only []
    split_ifs <;> exact ⟨rfl, rfl⟩
  rcases hlatches with ⟨hs, hr⟩
  generalize (s.init param env).1 = t at hs hr ⊢
  cases l with
  | nil => exact ⟨fun _ data h => absurd h (by simp only [List.head?_nil, reduceCtorEq,
      not_false_eq_true]), fun _ => trivial⟩
  | cons data l =>
      have hacc := recv_wellFormed_iff sc t data hr
      rw [List.head?_cons]
      constructor
      · rintro ⟨hfirst, -⟩ data' hdata
        rw [← Option.some.inj hdata]
        by_contra hwell
        -- The datagram is rejected, but the latch is released all the same.
        rw [if_neg (fun hc => hwell (hacc.mp hc.1))] at hfirst
        have hlatch := firstPack_afterUnPak sc t data
        rw [hfirst.1, hs] at hlatch
        exact Bool.noConfusion hlatch
      · intro h
        have hwell := h data rfl
        refine ⟨?_, ?_⟩
        · rw [if_pos ⟨hacc.mpr hwell, rfl⟩]
          exact setUpBy_of_wellFormed sc t data hs hr hwell
        · rw [decide_eq_true (hacc.mpr hwell)]
          exact setUpOnce_of_released sc _ l (firstPack_afterUnPak sc t data)

/-- A datagram from UEID 7 with number 5 and no payload. -/
def hello : List Byte := [0, 0, 0, 7, 0, 0, 0, 5, 0, 0, 0, 0]

/-- A datagram of one byte comes before a good one, and the sender goes on as
    UEID 0. -/
theorem setUpOnce_fails :
    let s := ((raw ⟨Ip.zero, Udphdr.zero⟩).init loopParam (answers 0)).1
    ((raw ⟨Ip.zero, Udphdr.zero⟩).init loopParam (answers 0)).2 = 0 ∧
      (s.unPak [0] 1 0).2.1 = -1 ∧ ((afterUnPak 0 s [0]).unPak hello 12 0).2.1 = 12 ∧
      (headerOf hello).ueid = 7 ∧
      (afterUnPak 0 (afterUnPak 0 s [0]) hello).scSend.sendHeader.ueid = 0 ∧
      ¬ SetUpOnce 0 false s [[0], hello] := by
  refine ⟨rfl, rfl, by decide +kernel, by decide +kernel, by decide +kernel, ?_⟩
  rintro ⟨hfirst, -⟩
  exact absurd hfirst.1 (by decide +kernel)

end UploadSession

end CodecChanger
