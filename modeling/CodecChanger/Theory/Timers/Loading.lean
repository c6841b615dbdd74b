import CodecChanger.Theory.Timers.Serving

/-!
# Sockets with Timers

In which states of a handler `HandleEvent` finds a function for every timer that is due.

A socket gets its function with its first timer and keeps it, so a timer is without one
only when its socket has been written anew behind its back. `AddSocket` does not do that:
it writes a socket only if there is none, and then the timer would have been an orphan.
So the calls that make no orphans leave no timer without a function either. The map of
timers is in order after any run.

## Main definitions

* `Loaded`: Every timer's socket holds a function.

## Theorems

* `call_eventTable`: What a call does to the map of timers.
* `inOrder_run`: The map is in order after any run.
* `loaded_call`: A careful call leaves no timer without a function.
-/

namespace CodecChanger

open OrderedMap Trace

variable {κ : Type*}

namespace EventHandler

/-- A call takes timers off the map, or inserts one. -/
theorem call_eventTable (s : EventHandler κ) (c : Call κ) :
    (s.call c).eventTable.Sublist s.eventTable ∨ ∃ time node,
      (s.call c).eventTable = emplace (· < ·) time node s.eventTable := by
  cases c with
  | addSocket fd cb ok =>
      change (s.addSocket fd cb ok).1.eventTable.Sublist _ ∨ _
      unfold addSocket
      split
      · exact Or.inl (List.Sublist.refl _)
      · split
        · exact Or.inl (List.Sublist.refl _)
        · exact Or.inl (List.Sublist.refl _)
  | removeSocket fd ok =>
      change (s.removeSocket fd ok).1.eventTable.Sublist _ ∨ _
      unfold removeSocket
      split
      · exact Or.inl (List.Sublist.refl _)
      · exact Or.inl (List.Sublist.refl _)
  | addEvent fd time cb =>
      by_cases ht : s.Taken time
      · have hsame : s.call (.addEvent fd time cb) = s := addEvent_of_taken s fd time cb ht
        rw [hsame]
        exact Or.inl (List.Sublist.refl _)
      · by_cases hr : s.Registered fd
        · exact Or.inr ⟨time, _, (addEvent_of_known s fd time cb ht hr).1⟩
        · exact Or.inr ⟨time, _, (addEvent_of_unknown s fd time cb ht hr).1⟩
  | deleteEvent fd =>
      change (s.deleteEvent fd).eventTable.Sublist _ ∨ _
      rcases deleteEvent_cases s fd with ⟨-, hs⟩ | ⟨event, -, ⟨-, hs⟩ | ⟨id, -, hs⟩⟩
      · exact Or.inl (by rw [hs])
      · exact Or.inl (by rw [hs]; exact List.Sublist.refl _)
      · exact Or.inl (by rw [hs]; exact List.filter_sublist)
  | serve now =>
      rcases call_serve_cases s now with hs | ⟨e, rest, ht, hs⟩
      · exact Or.inl (by rw [hs])
      have hsub : rest.Sublist s.eventTable := ht ▸ List.sublist_cons_self e rest
      rcases hs with ⟨-, hs⟩ | ⟨event, -, hs⟩
      · exact Or.inl (by rw [hs]; exact hsub)
      · exact Or.inl (by rw [hs]; exact hsub)

/-- So the map stays in order. -/
theorem inOrder_call (s : EventHandler κ) (c : Call κ) (h : s.InOrder) : (s.call c).InOrder := by
  rcases call_eventTable s c with hsub | ⟨time, node, htable⟩
  · exact h.sublist hsub
  · unfold InOrder
    rw [htable]
    exact ranked_emplace id (· < ·) time node s.eventTable (fun _ _ => ⟨Iff.rfl, Iff.rfl⟩) h

theorem inOrder_run (calls : List (Call κ)) : (run call empty calls).InOrder :=
  run_invariant call InOrder inOrder_call calls empty List.Pairwise.nil

/-- Every timer's socket holds a function, and what is in `sockets_event_` is in
    `socket_fds_`. -/
structure Loaded (s : EventHandler κ) : Prop where
  known : ∀ fd, s.Registered fd → (s.socketFds fd).isSome = true
  filled : ∀ e ∈ s.eventTable, s.callback e.2.fd ≠ none

/-- A socket that holds a function is registered. -/
theorem registered_of_callback (s : EventHandler κ) (fd : Int) (h : s.callback fd ≠ none) :
    s.Registered fd := by
  unfold Registered
  rw [Option.isSome_iff_ne_none]
  intro hc
  exact h (by rw [callback, hc]; rfl)

/-- Dropping timers and leaving the functions alone. -/
theorem loaded_mono (s s' : EventHandler κ) (htable : ∀ e ∈ s'.eventTable, e ∈ s.eventTable)
    (hfds : s'.socketFds = s.socketFds) (hreg : ∀ fd, s'.Registered fd → s.Registered fd)
    (hcb : ∀ fd, s'.callback fd = s.callback fd) (h : s.Loaded) : s'.Loaded := by
  refine ⟨fun fd hr => ?_, fun e he => ?_⟩
  · rw [hfds]
    exact h.known fd (hreg fd hr)
  · rw [hcb]
    exact h.filled e (htable e he)

/-- A socket whose entry is written anew may not have timers. -/
theorem loaded_update (s s' : EventHandler κ) (fd : Int) (htable : s'.eventTable = s.eventTable)
    (hnone : ∀ e ∈ s.eventTable, e.2.fd ≠ fd)
    (hself : s'.Registered fd → (s'.socketFds fd).isSome = true)
    (hfds : ∀ fd', fd' ≠ fd → s'.socketFds fd' = s.socketFds fd')
    (hevents : ∀ fd', fd' ≠ fd → s'.socketsEvent fd' = s.socketsEvent fd') (h : s.Loaded) :
    s'.Loaded := by
  refine ⟨fun fd' hr => ?_, fun e he => ?_⟩
  · by_cases hfd : fd' = fd
    · rw [hfd] at hr ⊢
      exact hself hr
    · rw [hfds fd' hfd]
      rw [Registered, hevents fd' hfd] at hr
      exact h.known fd' hr
  · rw [htable] at he
    rw [callback, hevents _ (hnone e he)]
    exact h.filled e he

theorem loaded_addSocket (s : EventHandler κ) (fd : Int) (cb : κ) (ok : Bool) (h : s.Loaded) :
    (s.addSocket fd cb ok).1.Loaded := by
  unfold addSocket
  split
  · refine ⟨fun fd' hr => ?_, h.filled⟩
    by_cases hfd : fd' = fd
    · simp only [hfd, Function.update_self, Option.isSome_some]
    · simp only [Function.update_of_ne hfd]
      exact h.known fd' hr
  · rename_i hnew
    split
    · exact h
    · -- A socket that is new has no timers.
      refine loaded_update s _ fd rfl (fun e he hfd => hnew ?_) (fun _ => ?_)
        (fun fd' hne => Function.update_of_ne hne _ _)
        (fun fd' hne => Function.update_of_ne hne _ _) h
      · rw [← hfd]
        exact h.known e.2.fd (registered_of_callback s e.2.fd (h.filled e he))
      · simp only [Function.update_self, Option.isSome_some]

theorem loaded_removeSocket (s : EventHandler κ) (fd : Int) (ok : Bool)
    (hc : s.Careful (.removeSocket fd ok)) (h : s.Loaded) :
    (s.removeSocket fd ok).1.Loaded := by
  unfold removeSocket
  split
  · exact h
  · rename_i hok
    refine loaded_update s _ fd rfl (hc (Bool.eq_true_of_not_eq_false hok)) (fun hr => ?_)
      (fun fd' hne => Function.update_of_ne hne _ _)
      (fun fd' hne => Function.update_of_ne hne _ _) h
    unfold Registered at hr
    simp only [Function.update_self, Option.isSome_none, Bool.false_eq_true] at hr

/-- A socket gets its function with its timer. -/
theorem loaded_addEvent (s : EventHandler κ) (fd time : Int) (cb : κ)
    (hc : s.Careful (.addEvent fd time cb)) (h : s.Loaded) :
    (s.addEvent fd time cb).Loaded := by
  by_cases ht : s.Taken time
  · rw [addEvent_of_taken s fd time cb ht]
    exact h
  have hr := hc.resolve_right ht
  rcases addEvent_of_known s fd time cb ht hr with ⟨htable, hevents⟩
  have hfds := addEvent_socketFds s fd time cb
  have hself : (s.addEvent fd time cb).callback fd = some cb := by
    rw [callback, hevents, Function.update_self]
    rfl
  refine ⟨fun fd' hr' => ?_, fun e he => ?_⟩
  · rw [hfds]
    by_cases hfd : fd' = fd
    · rw [hfd]
      exact h.known fd hr
    · rw [Registered, hevents, Function.update_of_ne hfd] at hr'
      exact h.known fd' hr'
  · by_cases hfd : e.2.fd = fd
    · rw [hfd, hself]
      exact Option.some_ne_none cb
    · -- The new timer is one of this socket, and the others had their functions.
      rw [htable, mem_emplace] at he
      rcases he with he | ⟨rfl, -⟩
      · rw [callback, hevents, Function.update_of_ne hfd]
        exact h.filled e he
      · exact absurd rfl hfd

theorem loaded_disarmed (s : EventHandler κ) (table : List (Int × Node)) (fd : Int)
    (event : Event κ) (he : s.socketsEvent fd = some event)
    (hsub : table.Sublist s.eventTable) (h : s.Loaded) : (s.disarmed table fd event).Loaded :=
  loaded_mono s _ (fun _ he' => hsub.subset he') rfl (registered_disarmed s table fd event he)
    (callback_disarmed s table fd event he) h

theorem loaded_deleteEvent (s : EventHandler κ) (fd : Int) (h : s.Loaded) :
    (s.deleteEvent fd).Loaded := by
  rcases deleteEvent_cases s fd with ⟨-, hs⟩ | ⟨event, he, ⟨-, hs⟩ | ⟨id, -, hs⟩⟩
  · rw [hs]
    exact h
  · rw [hs]
    exact loaded_disarmed s _ fd event he (List.Sublist.refl _) h
  · rw [hs]
    exact loaded_disarmed s _ fd event he List.filter_sublist h

theorem loaded_serve (s : EventHandler κ) (now : Int) (h : s.Loaded) :
    (s.call (.serve now)).Loaded := by
  rcases call_serve_cases s now with hs | ⟨e, rest, ht, hs⟩
  · rw [hs]
    exact h
  have hsub : rest.Sublist s.eventTable := ht ▸ List.sublist_cons_self e rest
  rcases hs with ⟨-, hs⟩ | ⟨event, he, hs⟩
  · rw [hs]
    exact loaded_mono s _ (fun _ he => hsub.subset he) rfl (fun _ hr => hr) (fun _ => rfl) h
  · rw [hs]
    exact loaded_disarmed s rest e.2.fd event he hsub h

/-- A careful call leaves every timer a function. -/
theorem loaded_call (s : EventHandler κ) (c : Call κ) (h : s.Loaded) (hc : s.Careful c) :
    (s.call c).Loaded := by
  cases c with
  | addSocket fd cb ok => exact loaded_addSocket s fd cb ok h
  | removeSocket fd ok => exact loaded_removeSocket s fd ok hc h
  | addEvent fd time cb => exact loaded_addEvent s fd time cb hc h
  | deleteEvent fd => exact loaded_deleteEvent s fd h
  | serve now => exact loaded_serve s now h

end EventHandler

end CodecChanger
