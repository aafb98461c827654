/-
Iams.Aio.Event — `EventCoroutine` in `iams/aio/interfaces.py`, from the
end of `_start` on.

Between two `await`s nothing else runs, so `loop` is cut at them: `head`
is the `while` with what follows up to `main`, and the other parts are
named after the way in which the awaited call has ended. An `Action` is
one such part, or a call of `run` or `stop` from outside.

`asyncio.wait_for` may look at the event before it suspends, or suspend
in any case, which depends on the timeout; both are possible here. A
suspension counts as one that waits for the event only when the event is
not set. The interval is what `get_interval` returns at that moment.

No `sorry`, no `axiom`, no `native_decide`.
-/
import Iams.Lib.Transition

namespace Iams.Aio

open Iams.Lib

namespace EventCoroutine

/-- How `main` ends. -/
inductive MainEnd where
  | returned
  | timeoutError
  | cancelledError
  | raised
  deriving DecidableEq, Repr

/-- How `wait_for` ends. -/
inductive WaitEnd where
  | woken
  | timeoutError
  | cancelledError
  deriving DecidableEq, Repr

/-- Where `loop` is. It is `acquiring` while it waits for the lock. -/
inductive Phase where
  | ready
  | acquiring
  | main
  | waiting (interval : Option Nat)
  | ended
  deriving DecidableEq, Repr

/-- What has happened: `suspended` stands for a suspension that waits for
the event. -/
inductive Entry where
  | mainStarts (periodic : Bool)
  | mainEnds (how : MainEnd)
  | suspended
  | run
  | stop
  deriving DecidableEq, Repr

end EventCoroutine

open EventCoroutine

/-- `event` and `locked` are the states of `_event` and `_lock`, and
`stopped` is `_stop.done()`. -/
structure EventCoroutine where
  phase : Phase := .ready
  event : Bool := false
  locked : Bool := false
  stopped : Bool := false
  periodic : Bool := true
  log : List Entry := []
  deriving DecidableEq, Repr

namespace EventCoroutine

variable (s : EventCoroutine)

def record (e : Entry) : EventCoroutine := { s with log := s.log ++ [e] }

/-- `run` -/
def run : EventCoroutine := { s with event := true }

/-- `stop` -/
def stop : EventCoroutine := { s with stopped := true, event := true }

/-! ## The loop -/

/-- `await self.main(periodic)`, with the lock. -/
def callMain : EventCoroutine :=
  { s with phase := .main, locked := true }.record (.mainStarts s.periodic)

/-- After the loop, `await self.stop()`. -/
def leave : EventCoroutine := { s.stop.record .stop with phase := .ended }

/-- `while not self._stop.done()`, up to the next suspension or the call of
`main`. -/
def head : EventCoroutine :=
  if s.stopped then s.leave
  else if s.locked then { s with phase := .acquiring }
  else s.callMain

/-- `except asyncio.TimeoutError` -/
def timedOut : EventCoroutine := { s with periodic := true }.head

/-- `else` -/
def woken : EventCoroutine := { s with event := false, periodic := false }.head

/-- The call of `wait_for`, which returns without a suspension if it looks
at an event that is set. -/
def waitFor (interval : Option Nat) (look : Bool) : EventCoroutine :=
  if s.event then
    if look then s.woken else { s with phase := .waiting interval }
  else { s with phase := .waiting interval }.record .suspended

/-- `main` has ended, and the lock is released. -/
def mainEnded (how : MainEnd) (interval : Option Nat) (look : Bool) : EventCoroutine :=
  let s := { s with locked := false }.record (.mainEnds how)
  match how with
  | .returned => s.waitFor interval look
  | .timeoutError => s.timedOut
  | .cancelledError | .raised => s.leave

/-- `wait_for` has ended after a suspension. -/
def waitEnded : WaitEnd → EventCoroutine
  | .woken => s.woken
  | .timeoutError => s.timedOut
  | .cancelledError => s.leave

/-! ## Steps -/

/-- `begin` is the call of `loop`, `acquired` the end of a suspension in
`async with self._lock`. -/
inductive Action where
  | begin
  | acquired
  | main (how : MainEnd) (interval : Option Nat) (look : Bool)
  | wait (how : WaitEnd)
  | run
  | stop

/-- What can happen. `wait_for` times out if there is an interval, and the
event wakes it up when it is set. -/
def Enabled : Action → Prop
  | .begin => s.phase = .ready
  | .acquired => s.phase = .acquiring ∧ s.locked = false
  | .main _ _ _ => s.phase = .main
  | .wait .woken => (∃ interval, s.phase = .waiting interval) ∧ s.event = true
  | .wait .timeoutError => ∃ seconds, s.phase = .waiting (some seconds)
  | .wait .cancelledError => (∃ interval, s.phase = .waiting interval) ∨ s.phase = .acquiring
  | .run => True
  | .stop => True

def step : Action → EventCoroutine
  | .begin => s.head
  | .acquired => s.callMain
  | .main how interval look => s.mainEnded how interval look
  | .wait how => s.waitEnded how
  | .run => s.run.record .run
  | .stop => s.stop.record .stop

/-- The states of all runs. -/
abbrev Reached (s : EventCoroutine) : Prop := Reachable step Enabled {} s

end EventCoroutine

end Iams.Aio
