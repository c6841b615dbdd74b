import CodecChanger.Core.EventHandler
import CodecChanger.Lib.Trace
import CodecChanger.Theory.Timers.Arming
import Mathlib.Data.List.Nodup

/-!
# Iterators to Timers

Every socket keeps an iterator into the map of timers, and the header says that it must
stay valid. `DeleteEvent` relies on it: it erases what the iterator refers to without
asking whether it is there still, or whose timer it is.

It is, whatever is called in whatever order. When a timer is served its socket's iterator
is reset, unless the socket is gone, and its iterator with it. When a socket is armed again
or removed, the timer it leaves behind has no iterator on it any more: `DeleteEvent` will
never find it, but nothing dangles.

No other socket's iterator may be on a timer that goes away. This is why an iterator is
shown to be on a timer of its own socket, and why no two timers share an identity.

## Main definitions

* `Refers`: An iterator refers to a timer of a socket.
* `Tracked`: Timers have identities of their own, and iterators refer to timers.
* `Erases`: `DeleteEvent` erases the timer its iterator is on, and no other.

## Theorems

* `tracked_of_reset`: Dropping timers of one socket, and its iterator.
* `tracked_call`, `tracked_run`: Every call keeps iterators valid.
* `erases_of_tracked`: Then `DeleteEvent` erases what it is to erase.
* `iterators_live`: In every state that calls lead to.
-/

namespace CodecChanger

open OrderedMap Trace

variable {κ : Type*}

namespace EventHandler

/-- The socket's iterator refers to a timer, and it is one of this socket. -/
def Refers (s : EventHandler κ) (fd : Int) (id : Nat) : Prop :=
  ∃ time, (time, (⟨fd, id⟩ : Node)) ∈ s.eventTable

/-- Every node has an identity of its own, which has been given out before, and every
    iterator that is not `end()` refers to a timer of its socket. -/
structure Tracked (s : EventHandler κ) : Prop where
  old : ∀ e ∈ s.eventTable, e.2.id < s.nextId
  unique : (s.eventTable.map fun e => e.2.id).Nodup
  live : ∀ fd event, s.socketsEvent fd = some event → ∀ id, event.it = some id → s.Refers fd id

/-- `DeleteEvent` erases the timer that the socket's iterator is on, if it is on one, and
    changes nothing of the other sockets. -/
def Erases (s : EventHandler κ) (fd : Int) : Prop :=
  s.Undisturbed (s.deleteEvent fd) fd ∧
    ∀ event, s.socketsEvent fd = some event →
      match event.it with
      | none => (s.deleteEvent fd).eventTable = s.eventTable
      | some id => ∃ before after time,
          s.eventTable = before ++ (time, ⟨fd, id⟩) :: after ∧
            (s.deleteEvent fd).eventTable = before ++ after

theorem tracked_empty : Tracked (empty : EventHandler κ) := by
  refine ⟨fun _ he => absurd he List.not_mem_nil, List.nodup_nil, fun fd event h => ?_⟩
  exact absurd h (by simp only [empty, reduceCtorEq, not_false_eq_true])

/-- A node is known by its identity. -/
theorem eq_of_id (s : EventHandler κ) (hs : s.Tracked) (e e' : Int × Node)
    (he : e ∈ s.eventTable) (he' : e' ∈ s.eventTable) (hid : e.2.id = e'.2.id) : e = e' :=
  List.inj_on_of_nodup_map hs.unique he he' hid

/-- An iterator that is reset is on no timer. -/
theorem it_of_reset (m : Int → Option (Event κ)) (fd : Int) (cb : Option κ) (event : Event κ)
    (h : Function.update m fd (some ⟨none, cb⟩) fd = some event) : event.it = none := by
  rw [Function.update_self, Option.some.injEq] at h
  rw [← h]

/-- Iterators stay valid when timers of one socket go away and its iterator is not on
    any. -/
theorem tracked_of_reset (s s' : EventHandler κ) (fd : Int) (hs : s.Tracked)
    (hsub : s'.eventTable.Sublist s.eventTable) (hid : s'.nextId = s.nextId)
    (hkept : ∀ e ∈ s.eventTable, e.2.fd ≠ fd → e ∈ s'.eventTable)
    (hself : ∀ event, s'.socketsEvent fd = some event → event.it = none)
    (hothers : ∀ fd', fd' ≠ fd → s'.socketsEvent fd' = s.socketsEvent fd') : s'.Tracked := by
  refine ⟨fun e he => ?_, hs.unique.sublist (hsub.map _), fun fd' event hevent id hit => ?_⟩
  · rw [hid]
    exact hs.old e (hsub.subset he)
  · by_cases hfd : fd' = fd
    · rw [hfd] at hevent
      rw [hself event hevent] at hit
      exact absurd hit (by simp only [reduceCtorEq, not_false_eq_true])
    · rw [hothers fd' hfd] at hevent
      rcases hs.live fd' event hevent id hit with ⟨time, hmem⟩
      exact ⟨time, hkept _ hmem hfd⟩

theorem tracked_addSocket (s : EventHandler κ) (fd : Int) (cb : κ) (ok : Bool)
    (hs : s.Tracked) : (s.addSocket fd cb ok).1.Tracked := by
  unfold addSocket
  split
  · exact ⟨hs.old, hs.unique, hs.live⟩
  · split
    · exact hs
    · exact tracked_of_reset s _ fd hs (List.Sublist.refl _) rfl (fun _ he _ => he)
        (fun event => it_of_reset s.socketsEvent fd none event)
        fun fd' hne => Function.update_of_ne hne _ _

theorem tracked_removeSocket (s : EventHandler κ) (fd : Int) (ok : Bool) (hs : s.Tracked) :
    (s.removeSocket fd ok).1.Tracked := by
  unfold removeSocket
  split
  · exact hs
  · refine tracked_of_reset s _ fd hs (List.Sublist.refl _) rfl (fun _ he _ => he)
      (fun event hevent => ?_) fun fd' hne => Function.update_of_ne hne _ _
    have hgone : Function.update s.socketsEvent fd none fd = none := Function.update_self _ _ _
    exact absurd (hgone.symm.trans hevent) (by simp only [reduceCtorEq, not_false_eq_true])

/-- A timer that is inserted has a new identity. -/
theorem tracked_addEvent (s : EventHandler κ) (fd time : Int) (cb : κ) (hs : s.Tracked) :
    (s.addEvent fd time cb).Tracked := by
  by_cases ht : s.Taken time
  · rw [addEvent_of_taken s fd time cb ht]
    exact hs
  have hperm := emplace_perm (· < ·) time (⟨fd, s.nextId⟩ : Node) s.eventTable
    (mt (present_iff_taken s time).mp ht)
  have hmem : ∀ e ∈ s.eventTable, e ∈ emplace (· < ·) time ⟨fd, s.nextId⟩ s.eventTable :=
    fun e he => hperm.mem_iff.mpr (List.mem_cons_of_mem _ he)
  have hnext := addEvent_nextId s fd time cb ht
  -- Whatever becomes of the iterators, the table gets the new node.
  have htable : (s.addEvent fd time cb).eventTable =
      emplace (· < ·) time ⟨fd, s.nextId⟩ s.eventTable := by
    by_cases hr : s.Registered fd
    · exact (addEvent_of_known s fd time cb ht hr).1
    · exact (addEvent_of_unknown s fd time cb ht hr).1
  refine ⟨fun e he => ?_, ?_, fun fd' event hevent id hit => ?_⟩
  · rw [htable, hperm.mem_iff, List.mem_cons] at he
    rw [hnext]
    rcases he with rfl | he
    · exact Nat.lt_succ_self s.nextId
    · exact Nat.lt_succ_of_lt (hs.old e he)
  · rw [htable, (hperm.map _).nodup_iff, List.map_cons, List.nodup_cons]
    refine ⟨fun hmem => ?_, hs.unique⟩
    rcases List.mem_map.mp hmem with ⟨e, he, hid⟩
    exact absurd (hs.old e he) (by rw [hid]; exact Nat.lt_irrefl _)
  · unfold Refers
    rw [htable]
    by_cases hr : s.Registered fd
    · rw [(addEvent_of_known s fd time cb ht hr).2] at hevent
      by_cases hfd : fd' = fd
      · -- The socket's iterator is on the new node.
        rw [hfd, Function.update_self, Option.some.injEq] at hevent
        rw [← hevent, Option.some.injEq] at hit
        rw [hfd, ← hit]
        exact ⟨time, hperm.mem_iff.mpr List.mem_cons_self⟩
      · rw [Function.update_of_ne hfd] at hevent
        exact (hs.live fd' event hevent id hit).imp fun _ => hmem _
    · rw [(addEvent_of_unknown s fd time cb ht hr).2] at hevent
      exact (hs.live fd' event hevent id hit).imp fun _ => hmem _

theorem tracked_disarmed (s : EventHandler κ) (table : List (Int × Node)) (fd : Int)
    (event : Event κ) (hs : s.Tracked) (hsub : table.Sublist s.eventTable)
    (hkept : ∀ e ∈ s.eventTable, e.2.fd ≠ fd → e ∈ table) : (s.disarmed table fd event).Tracked :=
  tracked_of_reset s _ fd hs hsub rfl hkept (it_of_reset s.socketsEvent fd event.cb)
    fun _ hne => Function.update_of_ne hne _ _

theorem tracked_deleteEvent (s : EventHandler κ) (fd : Int) (hs : s.Tracked) :
    (s.deleteEvent fd).Tracked := by
  rcases deleteEvent_cases s fd with ⟨-, hd⟩ | ⟨event, hevent, ⟨-, hd⟩ | ⟨id, hit, hd⟩⟩
  · rw [hd]
    exact hs
  · rw [hd]
    exact tracked_disarmed s _ fd event hs (List.Sublist.refl _) fun _ he _ => he
  · rw [hd]
    rcases hs.live fd event hevent id hit with ⟨time, hmem⟩
    refine tracked_disarmed s _ fd event hs List.filter_sublist fun e he hfd => ?_
    -- The node that is erased is one of this socket.
    refine List.mem_filter.mpr ⟨he, decide_eq_true fun hid => hfd ?_⟩
    rw [eq_of_id s hs e _ he hmem hid]

theorem tracked_serve (s : EventHandler κ) (now : Int) (hs : s.Tracked) :
    (s.call (.serve now)).Tracked := by
  rcases call_serve_cases s now with hc | ⟨e, rest, ht, hc⟩
  · rw [hc]
    exact hs
  have hsub : rest.Sublist s.eventTable := ht ▸ List.sublist_cons_self e rest
  have hkept : ∀ e' ∈ s.eventTable, e'.2.fd ≠ e.2.fd → e' ∈ rest := by
    intro e' he' hfd
    rw [ht] at he'
    rcases List.mem_cons.mp he' with rfl | he'
    · exact absurd rfl hfd
    · exact he'
  rcases hc with ⟨hgone, hc⟩ | ⟨event, -, hc⟩
  · -- Nor is there an iterator of a socket that is gone.
    rw [hc]
    refine tracked_of_reset s _ e.2.fd hs hsub rfl hkept (fun event h => ?_) fun _ _ => rfl
    exact absurd (hgone.symm.trans h) (by simp only [reduceCtorEq, not_false_eq_true])
  · rw [hc]
    exact tracked_disarmed s rest e.2.fd event hs hsub hkept

/-- No call leaves an iterator that is not valid. -/
theorem tracked_call (s : EventHandler κ) (c : Call κ) (hs : s.Tracked) : (s.call c).Tracked := by
  cases c with
  | addSocket fd cb ok => exact tracked_addSocket s fd cb ok hs
  | removeSocket fd ok => exact tracked_removeSocket s fd ok hs
  | addEvent fd time cb => exact tracked_addEvent s fd time cb hs
  | deleteEvent fd => exact tracked_deleteEvent s fd hs
  | serve now => exact tracked_serve s now hs

theorem tracked_run (s : EventHandler κ) (calls : List (Call κ)) (hs : s.Tracked) :
    (run call s calls).Tracked :=
  run_invariant call Tracked tracked_call calls s hs

/-- A node that has an identity of its own is taken out alone. -/
theorem filter_id (before after : List (Int × Node)) (e : Int × Node)
    (h : ((before ++ e :: after).map fun e => e.2.id).Nodup) :
    (before ++ e :: after).filter (fun e' => e'.2.id ≠ e.2.id) = before ++ after := by
  rw [List.map_append, List.map_cons, List.nodup_middle, List.nodup_cons, ← List.map_append] at h
  have hother : (before ++ after).filter (fun e' => e'.2.id ≠ e.2.id) = before ++ after := by
    refine List.filter_eq_self.mpr fun e' he' => decide_eq_true fun hid => h.1 ?_
    exact List.mem_map.mpr ⟨e', he', hid⟩
  rw [List.filter_append, List.filter_cons_of_neg (by simp only [ne_eq, not_true_eq_false,
    decide_false, Bool.false_eq_true, not_false_eq_true]), ← List.filter_append, hother]

/-- With valid iterators, `DeleteEvent` takes out the one timer that the socket's iterator
    is on. -/
theorem erases_of_tracked (s : EventHandler κ) (fd : Int) (hs : s.Tracked) : s.Erases fd := by
  unfold Erases Undisturbed
  have hothers : ∀ event : Event κ, ∀ fd', fd' ≠ fd → Function.update s.socketsEvent fd
      (some { event with it := none }) fd' = s.socketsEvent fd' :=
    fun event fd' hne => Function.update_of_ne hne _ _
  rcases deleteEvent_cases s fd with ⟨hnone, hd⟩ | ⟨event, hevent, hd⟩
  · rw [hd, hnone]
    exact ⟨⟨rfl, fun _ _ => rfl⟩, fun event h => absurd h (by
      simp only [reduceCtorEq, not_false_eq_true])⟩
  rw [hevent]
  simp only [Option.some.injEq, forall_eq']
  rcases hd with ⟨hit, hd⟩ | ⟨id, hit, hd⟩
  · rw [hit, hd]
    exact ⟨⟨rfl, hothers event⟩, rfl⟩
  · rcases hs.live fd event hevent id hit with ⟨time, hmem⟩
    rcases List.append_of_mem hmem with ⟨before, after, htable⟩
    have herased : s.eventTable.filter (fun e => e.2.id ≠ id) = before ++ after := by
      have hunique := hs.unique
      rw [htable] at hunique ⊢
      exact filter_id before after _ hunique
    -- The timer that is gone was one of this socket.
    have hsame : (before ++ after).filter (fun e => e.2.fd ≠ fd) =
        (before ++ (time, ⟨fd, id⟩) :: after).filter fun e => e.2.fd ≠ fd := by
      rw [List.filter_append, List.filter_append, List.filter_cons_of_neg (by
        simp only [ne_eq, not_true_eq_false, decide_false, Bool.false_eq_true,
          not_false_eq_true])]
    rw [hit, hd, herased, htable]
    exact ⟨⟨hsame, hothers event⟩, before, after, time, rfl, rfl⟩

/-- In every state that calls to an empty handler lead to, the rounds of `HandleEvent` and
    what callbacks call included, every iterator is `end()` or refers to a timer of its own
    socket, and `DeleteEvent` erases that one and leaves the other sockets alone. -/
theorem iterators_live (calls : List (Call κ)) :
    (run call empty calls).Tracked ∧ ∀ fd, (run call empty calls).Erases fd := by
  have htracked := tracked_run empty calls tracked_empty
  exact ⟨htracked, fun fd => erases_of_tracked _ fd htracked⟩

end EventHandler

end CodecChanger
