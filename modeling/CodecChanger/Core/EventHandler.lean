import CodecChanger.Lib.Loop
import CodecChanger.Lib.OrderedMap
import CodecChanger.Lib.Trace
import Mathlib.Logic.Function.Basic

/-!
# The Event Handler

`EventHandler` of `event_handler.h` and `event_handler.cpp`: sockets with a
callback each, and timers in a map from due time to socket. Every socket keeps
an iterator to its timer, so that the timer can be deleted.

Times are integers, and callbacks are of any type: the handler stores them and
hands them back. An iterator is the identity of the map node it refers to, or
`none` for `end()`. Nodes get their identity when they are inserted and never
share one, which is what tells an iterator to an erased node from one to a new
node with the same key.

`HandleEvent` is a loop that runs a callback in every round, and a callback may
call the handler again. `serve` is one round up to the callback, and it is among
the calls, so that a run of calls may be in the middle of the loop. What a
callback calls is a parameter of `handleEvent`, and `handleEvent_run` says that
the whole loop is such a run. Whether `epoll_ctl` succeeds is part of the call.

The callbacks are called as values here. The source calls them where they are
stored, which makes a difference for one that overwrites or destroys itself;
`handleEventInPlace` in `Core.EventLoop` is the loop that watches for that.

## Main definitions

* `Node`, `Event`: The entries of the two maps.
* `EventHandler`: The handler's members.
* `addSocket`, `removeSocket`, `addEvent`, `deleteEvent`: Its calls.
* `serve`: One round of `HandleEvent`.
* `Call`, `call`: The calls in any order.
* `React`: What callbacks do.
* `Handling`, `Ending`: The state between two rounds, and how the last one ends.
* `handleEvent`: `HandleEvent`, the callbacks included.
* `Registered`, `Taken`: What `addEvent` depends on.
* `disarmed`: The handler with an iterator reset.

## Theorems

* `present_iff_taken`: The map has a key when some timer is due at that time.
* `addEvent_of_taken`, `addEvent_of_unknown`, `addEvent_of_known`: What
  `addEvent` does, case by case.
* `deleteEvent_cases`, `call_serve_cases`: What `deleteEvent` and a round do.
* `call_serve_of_idle`, `call_serve_of_fatal`, `call_serve_of_called`: The state
  after a round.
* `body_again`, `body_leave`: A round of `HandleEvent` as calls.
* `handleEvent_run`: `HandleEvent` is a run of calls.
-/

namespace CodecChanger

open Loop OrderedMap Trace

variable {κ : Type*}

/-- A node of `event_table_`: its value, and its identity. -/
structure Node where
  fd : Int
  id : Nat
  deriving DecidableEq, Repr

/-- `Event`. `it` is `none` for `end()`, `cb` is `none` for an empty function. -/
structure Event (κ : Type*) where
  it : Option Nat
  cb : Option κ
  deriving DecidableEq, Repr

/-- `EventHandler`. `nextId` is the identity of the next node. -/
structure EventHandler (κ : Type*) where
  socketFds : Int → Option κ
  eventTable : List (Int × Node)
  socketsEvent : Int → Option (Event κ)
  nextId : Nat

namespace EventHandler

/-- A handler without sockets and timers. -/
def empty : EventHandler κ where
  socketFds _ := none
  eventTable := []
  socketsEvent _ := none
  nextId := 0

/-- `AddSocket`. `ok` says whether `epoll_ctl` succeeds. -/
def addSocket (s : EventHandler κ) (socketFd : Int) (callBack : κ) (ok : Bool) :
    EventHandler κ × Int :=
  if (s.socketFds socketFd).isSome then
    -- A socket that is known gets a new callback and keeps its timer.
    ({ s with socketFds := Function.update s.socketFds socketFd (some callBack) }, 0)
  else if ok = false then (s, -1)
  else
    ({ s with
      socketFds := Function.update s.socketFds socketFd (some callBack)
      socketsEvent := Function.update s.socketsEvent socketFd (some ⟨none, none⟩) }, 0)

/-- `RemoveSocket`. `ok` says whether `epoll_ctl` succeeds. -/
def removeSocket (s : EventHandler κ) (socketFd : Int) (ok : Bool) : EventHandler κ × Int :=
  if ok = false then (s, -1)
  else
    ({ s with
      socketFds := Function.update s.socketFds socketFd none
      socketsEvent := Function.update s.socketsEvent socketFd none }, 0)

/-- `AddEvent`. -/
def addEvent (s : EventHandler κ) (fd : Int) (nextTime : Int) (cb : κ) : EventHandler κ :=
  if Present (· < ·) nextTime s.eventTable then
    -- The map has an event for that time already, and `insert` refuses.
    s
  else
    let s' := { s with
      eventTable := emplace (· < ·) nextTime ⟨fd, s.nextId⟩ s.eventTable
      nextId := s.nextId + 1 }
    match s.socketsEvent fd with
    -- The socket is not known, and the timer stays in the map.
    | none => s'
    | some _ =>
        { s' with
          socketsEvent := Function.update s'.socketsEvent fd (some ⟨some s.nextId, some cb⟩) }

/-- `DeleteEvent`. -/
def deleteEvent (s : EventHandler κ) (fd : Int) : EventHandler κ :=
  match s.socketsEvent fd with
  | none => s
  | some event =>
      let table := match event.it with
        | none => s.eventTable
        -- An iterator refers to one node, and that node is erased.
        | some id => s.eventTable.filter fun e => e.2.id ≠ id
      { s with
        eventTable := table
        socketsEvent := Function.update s.socketsEvent fd (some { event with it := none }) }

/-- How a round of `HandleEvent` ends: no timer is due, or the one that was
    belongs to no socket, or its callback is called. -/
inductive Served (κ : Type*) where
  | idle
  | fatal (s : EventHandler κ)
  | called (s : EventHandler κ) (cb : Option κ)

/-- One round of `HandleEvent`, up to the call of the callback. -/
def serve (s : EventHandler κ) (now : Int) : Served κ :=
  match s.eventTable with
  | [] => .idle
  | (time, node) :: rest =>
      if time > now then .idle
      else
        let s' := { s with eventTable := rest }
        match s.socketsEvent node.fd with
        | none => .fatal s'
        | some event =>
            let events := Function.update s.socketsEvent node.fd (some { event with it := none })
            .called { s' with socketsEvent := events } event.cb

/-- The calls to a handler, a round of `HandleEvent` among them. -/
inductive Call (κ : Type*) where
  | addSocket (fd : Int) (cb : κ) (ok : Bool)
  | removeSocket (fd : Int) (ok : Bool)
  | addEvent (fd : Int) (time : Int) (cb : κ)
  | deleteEvent (fd : Int)
  | serve (now : Int)

/-- The state after a call. -/
def call (s : EventHandler κ) : Call κ → EventHandler κ
  | .addSocket fd cb ok => (s.addSocket fd cb ok).1
  | .removeSocket fd ok => (s.removeSocket fd ok).1
  | .addEvent fd time cb => s.addEvent fd time cb
  | .deleteEvent fd => s.deleteEvent fd
  | .serve now =>
      match s.serve now with
      | .idle => s
      | .fatal s' => s'
      | .called s' _ => s'

/-- What a callback does: the calls it makes in the state it is called in. -/
abbrev React (κ : Type*) := κ → EventHandler κ → List (Call κ)

/-- `HandleEvent` between two rounds: the handler, and the callbacks called so far. -/
structure Handling (κ : Type*) where
  handler : EventHandler κ
  called : List κ

/-- How `HandleEvent` ends: no timer is due, or the one that was belongs to no socket,
    or its socket holds an empty function. -/
inductive Ending where
  | idle
  | fatal
  | thrown
  deriving DecidableEq, Repr

/-- One round of the loop of `HandleEvent`. `clock` is the time read in each round. -/
def body (react : React κ) (clock : Nat → Int) (s : Handling κ) :
    Next (Handling κ) (Ending × Handling κ) :=
  match s.handler.serve (clock s.called.length) with
  | .idle => .leave (.idle, s)
  | .fatal s' => .leave (.fatal, { s with handler := s' })
  -- To call an empty function throws `std::bad_function_call`, and nothing here catches it.
  | .called s' none => .leave (.thrown, { s with handler := s' })
  | .called s' (some cb) => .again ⟨Trace.run call s' (react cb s'), s.called ++ [cb]⟩

/-- `HandleEvent`: the call can end in the given way, with the given handler and
    callbacks called. -/
def handleEvent (react : React κ) (clock : Nat → Int) (s : EventHandler κ)
    (r : Ending × Handling κ) : Prop :=
  Gives (body react clock) ⟨s, []⟩ r

/-- The socket is in `sockets_event_`. -/
def Registered (s : EventHandler κ) (fd : Int) : Prop := (s.socketsEvent fd).isSome = true

instance (s : EventHandler κ) (fd : Int) : Decidable (s.Registered fd) :=
  inferInstanceAs (Decidable (_ = true))

/-- Some timer is due at this very time. -/
def Taken (s : EventHandler κ) (time : Int) : Prop := ∃ e ∈ s.eventTable, e.1 = time

instance (s : EventHandler κ) (time : Int) : Decidable (s.Taken time) :=
  inferInstanceAs (Decidable (∃ e ∈ s.eventTable, e.1 = time))

theorem present_iff_taken (s : EventHandler κ) (time : Int) :
    Present (· < ·) time s.eventTable ↔ s.Taken time := by
  unfold Present Taken
  refine exists_congr fun e => and_congr_right fun _ => ?_
  omega

/-- A time that is taken is refused without a word. -/
theorem addEvent_of_taken (s : EventHandler κ) (fd time : Int) (cb : κ) (h : s.Taken time) :
    s.addEvent fd time cb = s := by
  rw [addEvent, if_pos ((present_iff_taken s time).mpr h)]

/-- The timer is inserted, and so it stays when the socket is not known. -/
theorem addEvent_of_unknown (s : EventHandler κ) (fd time : Int) (cb : κ) (h : ¬ s.Taken time)
    (hr : ¬ s.Registered fd) :
    (s.addEvent fd time cb).eventTable = emplace (· < ·) time ⟨fd, s.nextId⟩ s.eventTable ∧
      (s.addEvent fd time cb).socketsEvent = s.socketsEvent := by
  rw [addEvent, if_neg (mt (present_iff_taken s time).mp h)]
  rw [Registered, Bool.not_eq_true, Option.isSome_eq_false_iff, Option.isNone_iff_eq_none] at hr
  simp only [hr, and_self]

/-- For a socket that is known, the timer is inserted and the socket points to it. -/
theorem addEvent_of_known (s : EventHandler κ) (fd time : Int) (cb : κ) (h : ¬ s.Taken time)
    (hr : s.Registered fd) :
    (s.addEvent fd time cb).eventTable = emplace (· < ·) time ⟨fd, s.nextId⟩ s.eventTable ∧
      (s.addEvent fd time cb).socketsEvent =
        Function.update s.socketsEvent fd (some ⟨some s.nextId, some cb⟩) := by
  rw [addEvent, if_neg (mt (present_iff_taken s time).mp h)]
  rcases Option.isSome_iff_exists.mp hr with ⟨event, he⟩
  simp only [he, and_self]

/-- The handler with these timers, and with the socket's iterator reset. -/
def disarmed (s : EventHandler κ) (table : List (Int × Node)) (fd : Int) (event : Event κ) :
    EventHandler κ :=
  { s with
    eventTable := table
    socketsEvent := Function.update s.socketsEvent fd (some { event with it := none }) }

theorem disarmed_socketsEvent (s : EventHandler κ) (table : List (Int × Node)) (fd : Int)
    (event : Event κ) : (s.disarmed table fd event).socketsEvent =
      Function.update s.socketsEvent fd (some { event with it := none }) := rfl

/-- `DeleteEvent` does nothing for a socket that is not known, and else resets its
    iterator, and erases what it is on. -/
theorem deleteEvent_cases (s : EventHandler κ) (fd : Int) :
    (s.socketsEvent fd = none ∧ s.deleteEvent fd = s) ∨
      ∃ event, s.socketsEvent fd = some event ∧
        ((event.it = none ∧ s.deleteEvent fd = s.disarmed s.eventTable fd event) ∨
          ∃ id, event.it = some id ∧ s.deleteEvent fd =
            s.disarmed (s.eventTable.filter fun e => e.2.id ≠ id) fd event) := by
  unfold deleteEvent
  cases hevent : s.socketsEvent fd with
  | none => exact Or.inl ⟨rfl, rfl⟩
  | some event =>
      cases hit : event.it with
      | none => exact Or.inr ⟨event, rfl, Or.inl ⟨hit, by simp only [hit]; rfl⟩⟩
      | some id => exact Or.inr ⟨event, rfl, Or.inr ⟨id, hit, by simp only [hit]; rfl⟩⟩

/-- A round does nothing, or takes the front timer off the map and resets the iterator of
    its socket, if there is one. -/
theorem call_serve_cases (s : EventHandler κ) (now : Int) :
    s.call (.serve now) = s ∨ ∃ e rest, s.eventTable = e :: rest ∧
      ((s.socketsEvent e.2.fd = none ∧ s.call (.serve now) = { s with eventTable := rest }) ∨
        ∃ event, s.socketsEvent e.2.fd = some event ∧
          s.call (.serve now) = s.disarmed rest e.2.fd event) := by
  unfold call serve
  rcases htable : s.eventTable with _ | ⟨⟨time, node⟩, rest⟩
  · exact Or.inl rfl
  by_cases hdue : time > now
  · exact Or.inl (by simp only [if_pos hdue])
  · simp only [if_neg hdue]
    refine Or.inr ⟨(time, node), rest, rfl, ?_⟩
    cases hevent : s.socketsEvent node.fd with
    | none => exact Or.inl ⟨rfl, rfl⟩
    | some event => exact Or.inr ⟨event, rfl, rfl⟩

theorem addEvent_socketFds (s : EventHandler κ) (fd time : Int) (cb : κ) :
    (s.addEvent fd time cb).socketFds = s.socketFds := by
  unfold addEvent
  split
  · rfl
  · simp only []
    split
    · rfl
    · rfl

theorem addEvent_nextId (s : EventHandler κ) (fd time : Int) (cb : κ) (h : ¬ s.Taken time) :
    (s.addEvent fd time cb).nextId = s.nextId + 1 := by
  rw [addEvent, if_neg (mt (present_iff_taken s time).mp h)]
  split
  · rfl
  · rfl

theorem call_serve_of_idle (s : EventHandler κ) (now : Int) (h : s.serve now = .idle) :
    s.call (.serve now) = s := by
  simp only [call, h]

theorem call_serve_of_fatal (s s' : EventHandler κ) (now : Int) (h : s.serve now = .fatal s') :
    s.call (.serve now) = s' := by
  simp only [call, h]

theorem call_serve_of_called (s s' : EventHandler κ) (now : Int) (cb : Option κ)
    (h : s.serve now = .called s' cb) : s.call (.serve now) = s' := by
  simp only [call, h]

section Rounds

variable (react : React κ) (clock : Nat → Int) (s : Handling κ)

/-- A round that goes on is one call of `serve` and those of the callback. -/
theorem body_again (t : Handling κ) (h : body react clock s = .again t) :
    ∃ s' cb, s.handler.call (.serve (clock s.called.length)) = s' ∧
      t.handler = Trace.run call s' (react cb s') ∧ t.called = s.called ++ [cb] := by
  unfold body at h
  split at h
  · exact absurd h (by simp only [reduceCtorEq, not_false_eq_true])
  · exact absurd h (by simp only [reduceCtorEq, not_false_eq_true])
  · exact absurd h (by simp only [reduceCtorEq, not_false_eq_true])
  · rename_i s' cb hserve
    rw [Next.again.injEq] at h
    rw [← h]
    exact ⟨s', cb, call_serve_of_called s.handler s' _ (some cb) hserve, rfl, rfl⟩

/-- The last round is one call of `serve`, and it says whether the fatal error
    ended it. -/
theorem body_leave (r : Ending × Handling κ) (h : body react clock s = .leave r) :
    s.handler.call (.serve (clock s.called.length)) = r.2.handler ∧
      (r.1 = .fatal → s.handler.serve (clock s.called.length) = .fatal r.2.handler) := by
  unfold body at h
  split at h
  · rename_i hserve
    rw [Next.leave.injEq] at h
    rw [← h]
    exact ⟨call_serve_of_idle s.handler _ hserve, fun hc => Ending.noConfusion hc⟩
  · rename_i s' hserve
    rw [Next.leave.injEq] at h
    rw [← h]
    exact ⟨call_serve_of_fatal s.handler s' _ hserve, fun _ => hserve⟩
  · rename_i s' hserve
    rw [Next.leave.injEq] at h
    rw [← h]
    exact ⟨call_serve_of_called s.handler s' _ none hserve, fun hc => Ending.noConfusion hc⟩
  · exact absurd h (by simp only [reduceCtorEq, not_false_eq_true])

/-- A call of `HandleEvent` is a run of calls: its rounds, and behind each what the
    callback calls. -/
theorem handleEvent_run (s : EventHandler κ) (r : Ending × Handling κ)
    (h : s.handleEvent react clock r) : ∃ calls, Trace.run call s calls = r.2.handler := by
  refine gives_invariant (fun t : Handling κ => ∃ calls, Trace.run call s calls = t.handler)
    (fun r => ∃ calls, Trace.run call s calls = r.2.handler) ?_ ?_ ⟨s, []⟩ r ⟨[], rfl⟩ h
  · intro t u ht hb
    rcases ht with ⟨calls, hcalls⟩
    rcases body_again react clock t u hb with ⟨s', cb, hserve, hu, -⟩
    refine ⟨calls ++ (.serve (clock t.called.length) :: react cb s'), ?_⟩
    rw [run_append, hcalls, hu, ← hserve]
    rfl
  · intro t r ht hb
    rcases ht with ⟨calls, hcalls⟩
    refine ⟨calls ++ [.serve (clock t.called.length)], ?_⟩
    rw [run_append, hcalls, ← (body_leave react clock t r hb).1]
    rfl

end Rounds

end EventHandler

end CodecChanger
