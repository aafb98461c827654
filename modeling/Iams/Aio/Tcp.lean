/-
Iams.Aio.Tcp — `TCPCoroutine` in `iams/aio/tcp.py`, from the end of `start`
on.

Three tasks share the future `_stop`: `loop` reads packets, `heartbeat`
writes on a regular basis, and anybody may call `write`. They are cut at
their `await`s. `self.stop()` without an `await` makes a coroutine and
runs nothing of it, and `logger.exception()` without a message raises a
`TypeError`; both are written as what they do.

`_last` is read only to see how long `heartbeat` has to sleep: each time
it may be `due` or not. A timeout may come at any time, if there is one.

No `sorry`, no `axiom`, no `native_decide`.
-/
import Iams.Lib.Transition

namespace Iams.Aio

open Iams.Lib

namespace TCPCoroutine

/-- How `wait_for(self.read())` ends: with a packet, with an empty one, or
by an exception. -/
inductive ReadEnd where
  | data
  | empty
  | timeoutError
  | cancelledError
  | raised
  deriving DecidableEq, Repr

/-- How `tcp_process_data` ends. -/
inductive ProcessEnd where
  | returned
  | cancelledError
  | raised
  deriving DecidableEq, Repr

/-- How `tcp_heartbeat` ends: `response in {None, True}` needs a hash of the
response. -/
inductive BeatEnd where
  | response
  | unhashable
  | cancelledError
  | raised
  deriving DecidableEq, Repr

/-- How `wait_for(self._writer.drain())` ends. -/
inductive DrainEnd where
  | drained
  | timeoutError
  | raised
  deriving DecidableEq, Repr

/-- Where `loop` is. -/
inductive LoopPhase where
  | ready
  | reading
  | processing
  | ended
  deriving DecidableEq, Repr

/-- Where the task of `heartbeat` is. -/
inductive BeatPhase where
  | ready
  | sleeping
  | beating
  | ended
  deriving DecidableEq, Repr

/-- What has happened: a call of `read`, one of `tcp_process_data`, and the
ways to fail. -/
inductive Entry where
  | reads
  | processes
  | processFails
  | writeTimesOut
  | heartbeatFails
  deriving DecidableEq, Repr

end TCPCoroutine

open TCPCoroutine

/-- `beat` is the task of `heartbeat`, if there is one, and whether it has
been cancelled; `writes` has the timeout of each `write` that awaits
`drain`, and `stopped` is `_stop.done()`. -/
structure TCPCoroutine where
  readTimeout : Option Nat
  writeTimeout : Option Nat
  beat : Option (BeatPhase × Bool)
  loop : LoopPhase := .ready
  writes : List (Option Nat) := []
  stopped : Bool := false
  log : List Entry := []
  deriving DecidableEq, Repr

namespace TCPCoroutine

/-- The end of `start`. -/
def start (readTimeout writeTimeout heartbeat : Option Nat) : TCPCoroutine where
  readTimeout
  writeTimeout
  beat := if heartbeat.getD 0 = 0 then none else some (.ready, false)

variable (s : TCPCoroutine)

def record (e : Entry) : TCPCoroutine := { s with log := s.log ++ [e] }

/-- `await self.stop()` -/
def stop : TCPCoroutine :=
  { s with beat := s.beat.map fun task => (task.1, true), stopped := true }

/-- `__call__` of `Coroutine` when `loop` has been cancelled. -/
def cancelled : TCPCoroutine := { s.stop with loop := .ended }

/-! ## The loop -/

/-- `while not self._stop.done()`, up to the call of `read`. -/
def head : TCPCoroutine :=
  if s.stopped then { s with loop := .ended } else { s with loop := .reading }.record .reads

def readEnded : ReadEnd → TCPCoroutine
  | .data => { s with loop := .processing }.record .processes
  | .empty | .timeoutError | .raised => { s with loop := .ended }
  | .cancelledError => s.cancelled

/-- `self.stop()` in the handler has no effect. -/
def processEnded : ProcessEnd → TCPCoroutine
  | .returned => s.head
  | .cancelledError => s.cancelled
  | .raised => (s.record .processFails).head

/-! ## The heartbeat -/

def setBeat (phase : BeatPhase) : TCPCoroutine :=
  { s with beat := s.beat.map fun task => (phase, task.2) }

/-- `while not self._stop.done()`, up to the next `await`, or the end. -/
def beatHead (due : Bool) : TCPCoroutine :=
  if s.stopped then s.stop.setBeat .ended
  else if due then s.setBeat .beating
  else s.setBeat .sleeping

/-- The exception of `logger.exception()` leaves `heartbeat`. -/
def beatEnded (due : Bool) : BeatEnd → TCPCoroutine
  | .response => s.beatHead due
  | .unhashable | .cancelledError => s.setBeat .ended
  | .raised => (s.record .heartbeatFails).setBeat .ended

/-! ## Writing -/

/-- `write`, up to its `await`; `timeout or self._write_timeout`. -/
def write (timeout : Option Nat) : TCPCoroutine :=
  { s with writes := s.writes ++ [if timeout.getD 0 = 0 then s.writeTimeout else timeout] }

/-- `self.stop()` in the handler has no effect. -/
def drainEnded (i : Nat) : DrainEnd → TCPCoroutine
  | .drained | .raised => { s with writes := s.writes.eraseIdx i }
  | .timeoutError => { s with writes := s.writes.eraseIdx i }.record .writeTimesOut

/-! ## Steps -/

/-- `begin` is the call of `loop`, and `wakes` is the first step of
`heartbeat` or the end of its sleep; `stop` is one that is awaited. -/
inductive Action where
  | begin
  | read (how : ReadEnd)
  | process (how : ProcessEnd)
  | wakes (due : Bool)
  | beat (how : BeatEnd) (due : Bool)
  | beatCancelled
  | write (timeout : Option Nat)
  | drain (i : Nat) (how : DrainEnd)
  | stop

/-- What can happen. -/
def Enabled : Action → Prop
  | .begin => s.loop = .ready
  | .read how => s.loop = .reading ∧ (how = .timeoutError → s.readTimeout ≠ none)
  | .process _ => s.loop = .processing
  | .wakes _ =>
    ∃ cancelled, s.beat = some (.ready, cancelled) ∨ s.beat = some (.sleeping, cancelled)
  | .beat _ _ => ∃ cancelled, s.beat = some (.beating, cancelled)
  | .beatCancelled => ∃ phase, s.beat = some (phase, true) ∧ phase ≠ .ended
  | .write _ => True
  | .drain i how =>
    ∃ timeout, s.writes[i]? = some timeout ∧ (how = .timeoutError → timeout ≠ none)
  | .stop => True

def step : Action → TCPCoroutine
  | .begin => s.head
  | .read how => s.readEnded how
  | .process how => s.processEnded how
  | .wakes due => s.beatHead due
  | .beat how due => s.beatEnded due how
  | .beatCancelled => s.setBeat .ended
  | .write timeout => s.write timeout
  | .drain i how => s.drainEnded i how
  | .stop => s.stop

/-- The states of all runs. -/
abbrev Reached (readTimeout writeTimeout heartbeat : Option Nat) (s : TCPCoroutine) : Prop :=
  Reachable step Enabled (start readTimeout writeTimeout heartbeat) s

end TCPCoroutine

end Iams.Aio
