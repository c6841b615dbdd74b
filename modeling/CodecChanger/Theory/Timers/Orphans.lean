import CodecChanger.Core.EventHandler
import CodecChanger.Lib.Trace

/-!
# Timers Without a Socket

A round of `HandleEvent` that finds a timer whose socket it does not know is
over at once, and the timers behind it have to wait for the next wake-up. The
source calls this a fatal error. It cannot happen while every timer belongs to
a registered socket, and this module says which calls keep it so.

Three calls cannot break it, whatever their arguments. `AddEvent` can, because
it inserts the timer before it looks for the socket: it is safe on a socket
that is registered, and on a time that is taken, where it inserts nothing. And
`RemoveSocket` can, because it leaves the timers alone: it is safe when none of
them belongs to the socket, or when `epoll_ctl` fails. These are the exact
conditions for one call, and so for a run.

## Main definitions

* `NoOrphan`: Every timer belongs to a registered socket.
* `Sound`: And no round of `HandleEvent` ends in the fatal error.
* `Careful`: The condition on a call.

## Theorems

* `noOrphan_mono`: Dropping timers and keeping sockets is safe.
* `noOrphan_addEvent_iff`, `noOrphan_removeSocket_iff`: The two calls that are
  not.
* `sound_iff`: The exact condition for a run to stay sound.
-/

namespace CodecChanger

open OrderedMap Trace

variable {κ : Type*}

namespace EventHandler

/-- Every timer belongs to a registered socket. -/
def NoOrphan (s : EventHandler κ) : Prop := ∀ e ∈ s.eventTable, s.Registered e.2.fd

/-- Every timer belongs to a registered socket, and no round of `HandleEvent`
    ends in the fatal error. -/
def Sound (s : EventHandler κ) : Prop := s.NoOrphan ∧ ∀ now s', s.serve now ≠ .fatal s'

/-- An `AddEvent` for a registered socket or on a time that is taken, a
    `RemoveSocket` of a socket without timers or one that fails, or any other
    call. -/
def Careful (s : EventHandler κ) : Call κ → Prop
  | .addEvent fd time _ => s.Registered fd ∨ s.Taken time
  | .removeSocket fd ok => ok = true → ∀ e ∈ s.eventTable, e.2.fd ≠ fd
  | _ => True

/-- Without an orphan, no round ends in the fatal error. -/
theorem sound_iff_noOrphan (s : EventHandler κ) : s.Sound ↔ s.NoOrphan := by
  refine ⟨fun h => h.1, fun h => ⟨h, fun now s' hs => ?_⟩⟩
  unfold serve at hs
  split at hs
  · exact absurd hs (by simp only [reduceCtorEq, not_false_eq_true])
  · rename_i time node rest htable
    split at hs
    · exact absurd hs (by simp only [reduceCtorEq, not_false_eq_true])
    · -- The timer in front has a socket, so the fatal branch is not taken.
      have hreg := h (time, node) (by rw [htable]; exact List.mem_cons_self)
      rcases Option.isSome_iff_exists.mp hreg with ⟨event, he⟩
      simp only [he] at hs
      exact absurd hs (by simp only [reduceCtorEq, not_false_eq_true])

/-- Dropping timers and keeping sockets leaves no orphan. -/
theorem noOrphan_mono (s s' : EventHandler κ)
    (htable : ∀ e ∈ s'.eventTable, e ∈ s.eventTable)
    (hreg : ∀ fd, s.Registered fd → s'.Registered fd) (h : s.NoOrphan) : s'.NoOrphan :=
  fun e he => hreg e.2.fd (h e (htable e he))

/-- Writing an entry of `sockets_event_` registers nothing away. -/
theorem isSome_update (m : Int → Option (Event κ)) (fd fd' : Int) (event : Event κ)
    (h : (m fd').isSome = true) : (Function.update m fd (some event) fd').isSome = true := by
  by_cases hfd : fd' = fd
  · rw [hfd, Function.update_self]
    rfl
  · rw [Function.update_of_ne hfd]
    exact h

theorem noOrphan_addSocket (s : EventHandler κ) (fd : Int) (cb : κ) (ok : Bool)
    (h : s.NoOrphan) : (s.addSocket fd cb ok).1.NoOrphan := by
  unfold addSocket
  split
  · exact h
  · split
    · exact h
    · exact noOrphan_mono s _ (fun _ he => he)
        (fun fd' hreg => isSome_update s.socketsEvent fd fd' _ hreg) h

/-- Dropping timers and resetting an iterator leaves no orphan. -/
theorem noOrphan_disarmed (s : EventHandler κ) (table : List (Int × Node)) (fd : Int)
    (event : Event κ) (hsub : table.Sublist s.eventTable) (h : s.NoOrphan) :
    (s.disarmed table fd event).NoOrphan :=
  noOrphan_mono s _ (fun _ he => hsub.subset he)
    (fun fd' hreg => isSome_update s.socketsEvent fd fd' _ hreg) h

theorem noOrphan_deleteEvent (s : EventHandler κ) (fd : Int) (h : s.NoOrphan) :
    (s.deleteEvent fd).NoOrphan := by
  rcases deleteEvent_cases s fd with ⟨-, hs⟩ | ⟨event, -, ⟨-, hs⟩ | ⟨id, -, hs⟩⟩
  · rw [hs]
    exact h
  · rw [hs]
    exact noOrphan_disarmed s _ fd event (List.Sublist.refl _) h
  · rw [hs]
    exact noOrphan_disarmed s _ fd event List.filter_sublist h

/-- The timer in front leaves the table, whatever becomes of it. -/
theorem noOrphan_serve (s : EventHandler κ) (now : Int) (h : s.NoOrphan) :
    (s.call (.serve now)).NoOrphan := by
  rcases call_serve_cases s now with hs | ⟨e, rest, ht, hs⟩
  · rw [hs]
    exact h
  have hsub : rest.Sublist s.eventTable := ht ▸ List.sublist_cons_self e rest
  rcases hs with ⟨-, hs⟩ | ⟨event, -, hs⟩
  · rw [hs]
    exact noOrphan_mono s _ (fun _ he => hsub.subset he) (fun _ hreg => hreg) h
  · rw [hs]
    exact noOrphan_disarmed s rest e.2.fd event hsub h

/-- `AddEvent` leaves an orphan exactly when it inserts a timer for a socket that
    is not registered. -/
theorem noOrphan_addEvent_iff (s : EventHandler κ) (fd time : Int) (cb : κ) (h : s.NoOrphan) :
    (s.addEvent fd time cb).NoOrphan ↔ s.Registered fd ∨ s.Taken time := by
  by_cases ht : s.Taken time
  · rw [addEvent_of_taken s fd time cb ht]
    exact iff_of_true h (Or.inr ht)
  · have hnew : (time, (⟨fd, s.nextId⟩ : Node)) ∈
        emplace (· < ·) time ⟨fd, s.nextId⟩ s.eventTable :=
      (mem_emplace _ _ _ _ _).mpr (Or.inr ⟨rfl, mt (present_iff_taken s time).mp ht⟩)
    by_cases hr : s.Registered fd
    · rcases addEvent_of_known s fd time cb ht hr with ⟨htable, hevents⟩
      refine iff_of_true (fun e he => ?_) (Or.inl hr)
      rw [htable, mem_emplace] at he
      unfold Registered
      rw [hevents]
      rcases he with he | ⟨rfl, -⟩
      · exact isSome_update s.socketsEvent fd e.2.fd _ (h e he)
      · exact isSome_update s.socketsEvent fd fd _ hr
    · rcases addEvent_of_unknown s fd time cb ht hr with ⟨htable, hevents⟩
      refine iff_of_false (fun hc => hr ?_) (fun hc => hc.elim hr ht)
      have := hc (time, ⟨fd, s.nextId⟩) (by rw [htable]; exact hnew)
      unfold Registered at this ⊢
      rw [hevents] at this
      exact this

/-- `RemoveSocket` leaves an orphan exactly when it succeeds on a socket with a
    timer. -/
theorem noOrphan_removeSocket_iff (s : EventHandler κ) (fd : Int) (ok : Bool)
    (h : s.NoOrphan) :
    (s.removeSocket fd ok).1.NoOrphan ↔ (ok = true → ∀ e ∈ s.eventTable, e.2.fd ≠ fd) := by
  unfold removeSocket
  cases ok with
  | false => exact iff_of_true h fun hc => absurd hc Bool.false_ne_true
  | true =>
      simp only [Bool.true_eq_false, if_false, forall_const]
      refine forall₂_congr fun e he => ?_
      simp only [Registered]
      by_cases hfd : e.2.fd = fd
      · rw [hfd, Function.update_self]
        exact iff_of_false Bool.false_ne_true (fun hc => hc rfl)
      · rw [Function.update_of_ne hfd]
        exact iff_of_true (h e he) hfd

/-- One call leaves no orphan exactly when it is careful. -/
theorem noOrphan_call_iff (s : EventHandler κ) (c : Call κ) (h : s.NoOrphan) :
    (s.call c).NoOrphan ↔ s.Careful c := by
  cases c with
  | addSocket fd cb ok => exact iff_of_true (noOrphan_addSocket s fd cb ok h) trivial
  | removeSocket fd ok => exact noOrphan_removeSocket_iff s fd ok h
  | addEvent fd time cb => exact noOrphan_addEvent_iff s fd time cb h
  | deleteEvent fd => exact iff_of_true (noOrphan_deleteEvent s fd h) trivial
  | serve now => exact iff_of_true (noOrphan_serve s now h) trivial

/-- Along a run of calls to an empty handler, every timer belongs to a registered
    socket and `HandleEvent` never meets its fatal error, exactly when every
    `AddEvent` names a registered socket or a time that is taken, and every
    `RemoveSocket` that succeeds is of a socket without timers. -/
theorem sound_iff (calls : List (Call κ)) :
    Along call Sound empty calls ↔ Steps call Careful empty calls := by
  refine along_iff_steps call Sound (fun _ => True) (fun _ => True) Careful
    (fun _ _ _ _ _ _ => trivial) (fun s c _ hs _ => ?_) calls empty trivial ?_ fun _ _ => trivial
  · rw [sound_iff_noOrphan]
    exact noOrphan_call_iff s c ((sound_iff_noOrphan s).mp hs)
  · exact (sound_iff_noOrphan _).mpr fun e he => absurd he List.not_mem_nil

/-- A socket is removed with its timer pending, and the timer stays. -/
theorem sound_fails : ¬ Along call Sound empty
    [.addSocket 3 () true, .addEvent 3 10 (), .removeSocket 3 true] := by
  rintro ⟨-, -, -, h, -⟩
  exact absurd (h (10, ⟨3, 0⟩) (by decide)) (by decide)

end EventHandler

end CodecChanger
