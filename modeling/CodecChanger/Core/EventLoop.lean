import CodecChanger.Core.EventHandler

/-!
# The Event Loop

`Run` of `event_handler.cpp`, with `GetWaitTime` and `HandleSocket`. Each turn of the
endless loop asks for a time to sleep, waits for sockets, calls the functions of those that
are ready, and serves the timers that are due.

Times count nanoseconds, as those of a steady clock do. What `epoll_wait` answers is given
to each turn, and so are the clock readings of `HandleEvent`. The loop is over when
`epoll_wait` fails, so a list of turns is what the loop has done so far.

The functions of sockets and those of timers get a `React` each, what they call. Both are
called where the handler stores them. A function that is assigned to or erased there while
it runs is destroyed under its own feet, and what comes of that is not for the handler to
say. So the loops here go on only while every function spares its own place, and otherwise
give `none`.

## Main definitions

* `getWaitTime`: How long `epoll_wait` may sleep, in milliseconds.
* `SparesSocket`, `SparesTimer`: A call leaves the function of a socket, or that of its
  timer, in its place.
* `callSocket`, `handleSocket`: The functions of the ready sockets are called.
* `Spared`, `handleEventInPlace`: `HandleEvent` with its functions in their places.
* `Wakeup`: What a turn meets.
* `Runs`: The turns of the loop.
-/

namespace CodecChanger

open Loop Trace

variable {κ : Type*}

namespace EventHandler

/-- `kEventSize`. -/
def kEventSize : Nat := 16

/-- `GetWaitTime`. The quotient is cut towards zero, and then down to an `int`. -/
def getWaitTime (s : EventHandler κ) (waitTime now : Int) : Int :=
  match s.eventTable with
  | [] => waitTime
  | (time, _) :: _ => max 0 (BitVec.ofInt 32 (Int.tdiv (time - now) 1000000)).toInt

/-- The call leaves the function in `socket_fds_` of this socket alone. -/
def SparesSocket (fd : Int) (_ : EventHandler κ) : Call κ → Prop
  | .addSocket fd' _ _ => fd' ≠ fd
  | .removeSocket fd' ok => fd' = fd → ok = false
  | _ => True

/-- The call leaves the function in `sockets_event_` of this socket alone. -/
def SparesTimer (fd : Int) (s : EventHandler κ) : Call κ → Prop
  | .addSocket fd' _ ok => fd' = fd → (s.socketFds fd).isSome = true ∨ ok = false
  | .removeSocket fd' ok => fd' = fd → ok = false
  | .addEvent fd' time _ => fd' = fd → s.Taken time
  | _ => True

instance (fd : Int) (s : EventHandler κ) : ∀ c, Decidable (SparesSocket fd s c)
  | .addSocket fd' _ _ => inferInstanceAs (Decidable (fd' ≠ fd))
  | .removeSocket fd' ok => inferInstanceAs (Decidable (fd' = fd → ok = false))
  | .addEvent _ _ _ => inferInstanceAs (Decidable True)
  | .deleteEvent _ => inferInstanceAs (Decidable True)
  | .serve _ => inferInstanceAs (Decidable True)

instance (fd : Int) (s : EventHandler κ) : ∀ c, Decidable (SparesTimer fd s c)
  | .addSocket fd' _ ok =>
      inferInstanceAs (Decidable (fd' = fd → (s.socketFds fd).isSome = true ∨ ok = false))
  | .removeSocket fd' ok => inferInstanceAs (Decidable (fd' = fd → ok = false))
  | .addEvent fd' time _ => inferInstanceAs (Decidable (fd' = fd → s.Taken time))
  | .deleteEvent _ => inferInstanceAs (Decidable True)
  | .serve _ => inferInstanceAs (Decidable True)

/-- The body of the loop of `HandleSocket`. A socket that is gone by now is skipped. -/
def callSocket (react : React κ) (s : EventHandler κ) (fd : Int) : Option (EventHandler κ) :=
  match s.socketFds fd with
  | none => some s
  | some cb =>
      if Steps call (SparesSocket fd) s (react cb s) then some (run call s (react cb s))
      else none

/-- `HandleSocket`, with the descriptors in the first entries of `data_events_`. -/
def handleSocket (react : React κ) (s : EventHandler κ) (ready : List Int) :
    Option (EventHandler κ) :=
  ready.foldlM (callSocket react) s

/-- The function that the next round of `HandleEvent` calls stays in its place meanwhile. -/
def Spared (react : React κ) (clock : Nat → Int) (s : Handling κ) : Prop :=
  ∀ e ∈ s.handler.eventTable.head?, e.1 ≤ clock s.called.length →
    ∀ cb ∈ (s.handler.socketsEvent e.2.fd).bind Event.cb,
      let s' := s.handler.call (.serve (clock s.called.length))
      Steps call (SparesTimer e.2.fd) s' (react cb s')

instance (react : React κ) (clock : Nat → Int) : DecidablePred (Spared react clock) := fun s =>
  inferInstanceAs (Decidable (∀ e ∈ s.handler.eventTable.head?, e.1 ≤ clock s.called.length →
    ∀ cb ∈ (s.handler.socketsEvent e.2.fd).bind Event.cb, _))

/-- `HandleEvent`, which calls its functions where they are stored: `none` when one of them
    does not stay there. -/
def handleEventInPlace (react : React κ) (clock : Nat → Int) (s : EventHandler κ)
    (r : Option (Ending × Handling κ)) : Prop :=
  Gives (guarded (body react clock) (Spared react clock)) ⟨s, []⟩ r

/-- What `epoll_wait` answers, and the clock readings of `HandleEvent`. -/
structure Wakeup where
  ready : List Int
  clock : Nat → Int
  room : ready.length ≤ kEventSize

/-- The turns of the loop of `Run`: what each wakes up to and what comes of its
    `HandleEvent`. No turn follows one in which a function has thrown or not stayed in its
    place. -/
inductive Runs (socket timer : React κ) :
    EventHandler κ → List (Wakeup × (Ending × Handling κ)) → EventHandler κ → Prop
  | start (s : EventHandler κ) : Runs socket timer s [] s
  | turn (s s' t : EventHandler κ) (w : Wakeup) (r : Ending × Handling κ)
      (turns : List (Wakeup × (Ending × Handling κ))) :
      handleSocket socket s w.ready = some s' →
      s'.handleEventInPlace timer w.clock (some r) → r.1 ≠ .thrown →
      Runs socket timer r.2.handler turns t → Runs socket timer s ((w, r) :: turns) t

end EventHandler

end CodecChanger
