import CodecChanger.Core.EventHandler
import CodecChanger.Lib.Trace

/-!
# Arming a Timer

What `AddEvent` does for the socket it is called for. It is to leave exactly
one timer for it, at the time asked for, with the socket's iterator on that
timer and the callback in place, and to leave all other sockets' timers alone.

The second half always holds. The first half fails in two ways. The map of
timers has one entry per time, so a time that some timer is due at already is
refused and nothing happens. And a timer the socket has already is not removed:
the iterator moves on to the new one, and the old one stays in the map, where
`HandleEvent` will serve it too. So `AddEvent` does its work on a time that is
free and for a socket without a timer. The only other case is the one in which
there is nothing to do, since the very timer asked for is armed already.

## Main definitions

* `Armed`: The socket has exactly this timer.
* `Undisturbed`: The timers of all other sockets are what they were.
* `Arms`: `AddEvent` does its work.
* `Free`: The timer asked for can be set.

## Theorems

* `undisturbed_addEvent`: The other sockets' timers are never touched.
* `armed_addEvent_iff`: When the socket has exactly the new timer.
* `arms_iff`: The exact condition, in any state a run can reach.
-/

namespace CodecChanger

open OrderedMap Trace

variable {κ : Type*}

namespace EventHandler

/-- The table holds exactly one timer for the socket, due at this time, and the
    socket points to it and holds the callback. -/
def Armed (s : EventHandler κ) (fd time : Int) (cb : κ) : Prop :=
  ∃ id, s.eventTable.filter (fun e => e.2.fd = fd) = [(time, ⟨fd, id⟩)] ∧
    s.socketsEvent fd = some ⟨some id, some cb⟩

/-- All sockets but this one have the timers they had, with their callbacks. -/
def Undisturbed (s s' : EventHandler κ) (fd : Int) : Prop :=
  s'.eventTable.filter (fun e => e.2.fd ≠ fd) = s.eventTable.filter (fun e => e.2.fd ≠ fd) ∧
    ∀ fd', fd' ≠ fd → s'.socketsEvent fd' = s.socketsEvent fd'

/-- `AddEvent` leaves the socket with exactly the timer asked for, and the other
    sockets with theirs. -/
def Arms (s : EventHandler κ) (fd time : Int) (cb : κ) : Prop :=
  (s.addEvent fd time cb).Armed fd time cb ∧ s.Undisturbed (s.addEvent fd time cb) fd

/-- The timer asked for can be set: its time is free, and the socket has none. -/
def Free (s : EventHandler κ) (fd time : Int) : Prop :=
  ¬ s.Taken time ∧ ∀ e ∈ s.eventTable, e.2.fd ≠ fd

instance (s : EventHandler κ) (fd time : Int) : Decidable (s.Free fd time) :=
  inferInstanceAs (Decidable (_ ∧ ∀ e ∈ s.eventTable, e.2.fd ≠ fd))

/-- Whatever `AddEvent` does, it does to the socket it is called for. -/
theorem undisturbed_addEvent (s : EventHandler κ) (fd time : Int) (cb : κ)
    (hr : s.Registered fd) : s.Undisturbed (s.addEvent fd time cb) fd := by
  by_cases ht : s.Taken time
  · rw [addEvent_of_taken s fd time cb ht]
    exact ⟨rfl, fun _ _ => rfl⟩
  · rcases addEvent_of_known s fd time cb ht hr with ⟨htable, hevents⟩
    unfold Undisturbed
    rw [htable, hevents]
    refine ⟨filter_emplace_of_neg _ _ _ _ _ ?_, fun fd' hne => Function.update_of_ne hne _ _⟩
    simp only [ne_eq, not_true_eq_false, decide_false, Bool.false_eq_true, not_false_eq_true]

/-- A timer that is armed takes its time. -/
theorem taken_of_armed (s : EventHandler κ) (fd time : Int) (cb : κ) (h : s.Armed fd time cb) :
    s.Taken time := by
  rcases h with ⟨id, htable, -⟩
  have hmem : (time, (⟨fd, id⟩ : Node)) ∈ s.eventTable.filter fun e => e.2.fd = fd := by
    rw [htable]
    exact List.mem_cons_self
  exact ⟨_, List.mem_of_mem_filter hmem, rfl⟩

/-- On a time that is free the timer is set, and it is the socket's only one
    exactly when the socket had none. -/
theorem armed_addEvent_iff (s : EventHandler κ) (fd time : Int) (cb : κ)
    (ht : ¬ s.Taken time) (hr : s.Registered fd) :
    (s.addEvent fd time cb).Armed fd time cb ↔ ∀ e ∈ s.eventTable, e.2.fd ≠ fd := by
  rcases addEvent_of_known s fd time cb ht hr with ⟨htable, hevents⟩
  -- The new table is the old one and the new timer, in some order.
  have hperm := (emplace_perm (· < ·) time (⟨fd, s.nextId⟩ : Node) s.eventTable
    (mt (present_iff_taken s time).mp ht)).filter fun e => e.2.fd = fd
  rw [List.filter_cons_of_pos (by simp only [decide_true])] at hperm
  unfold Armed
  rw [htable, hevents]
  constructor
  · rintro ⟨id, hone, -⟩
    have hlen := hperm.length_eq
    rw [hone, List.length_singleton, List.length_cons] at hlen
    have hnil := List.length_eq_zero_iff.mp (by omega :
      (s.eventTable.filter fun e => e.2.fd = fd).length = 0)
    intro e he hfd
    exact List.filter_eq_nil_iff.mp hnil e he (decide_eq_true hfd)
  · intro hnone
    have hnil : (s.eventTable.filter fun e => e.2.fd = fd) = [] :=
      List.filter_eq_nil_iff.mpr fun e he hfd => hnone e he (of_decide_eq_true hfd)
    rw [hnil] at hperm
    exact ⟨s.nextId, List.perm_singleton.mp hperm, Function.update_self _ _ _⟩

/-- In every state that calls to an empty handler lead to, and for every socket
    registered there, `AddEvent` does its work exactly when the time is free and
    the socket has no timer, or when the timer asked for is armed already. -/
theorem arms_iff (calls : List (Call κ)) (fd time : Int) (cb : κ)
    (hr : (run call empty calls).Registered fd) :
    (run call empty calls).Arms fd time cb ↔
      (run call empty calls).Free fd time ∨ (run call empty calls).Armed fd time cb := by
  generalize run call empty calls = s at hr ⊢
  unfold Arms Free
  by_cases ht : s.Taken time
  · rw [addEvent_of_taken s fd time cb ht]
    exact ⟨fun h => Or.inr h.1, fun h => ⟨h.resolve_left fun hf => hf.1 ht, rfl, fun _ _ => rfl⟩⟩
  · rw [armed_addEvent_iff s fd time cb ht hr]
    constructor
    · exact fun h => Or.inl ⟨ht, h.1⟩
    · intro h
      have hfree := h.resolve_right fun ha => ht (taken_of_armed s fd time cb ha)
      exact ⟨hfree.2, undisturbed_addEvent s fd time cb hr⟩

/-- The first timer of a socket is set as asked, next to another socket's. -/
theorem arms_iff_first :
    (run call empty [.addSocket 3 () true, .addSocket 4 () true, .addEvent 4 10 ()]).Arms 3 20 () :=
  (arms_iff [.addSocket 3 () true, .addSocket 4 () true, .addEvent 4 10 ()] 3 20 ()
    (by decide)).mpr (Or.inl (by decide))

/-- A timer that is set again is there twice. -/
theorem arms_fails :
    ¬ (run call empty [.addSocket 3 () true, .addEvent 3 10 ()]).Arms 3 20 () := by
  rintro ⟨⟨id, hone, -⟩, -⟩
  have hlen := congrArg List.length hone
  rw [List.length_singleton] at hlen
  exact absurd hlen (by decide)

end EventHandler

end CodecChanger
