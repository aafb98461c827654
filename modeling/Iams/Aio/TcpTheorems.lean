/-
Iams.Aio.TcpTheorems — what a failure does to a `TCPCoroutine`.

None of the three ways to fail comes to `stop`: two handlers call it
without an `await`, and the third raises an exception of its own. So a
failure ends the connection only if it has been stopped before
(`ends_iff`), and no failure ever sets the future (`not_stopped`).

No `sorry`, no `axiom`, no `native_decide`.
-/
import Iams.Aio.Tcp
import Iams.Lib.Trace

namespace Iams.Aio.TCPCoroutine

open Iams.Lib Iams.Lib.Trace

variable {s s' : TCPCoroutine}

/-- `tcp_process_data` or `tcp_heartbeat` has raised, or a `write` has timed
out. -/
def Entry.IsFailure : Entry → Prop
  | .processFails | .writeTimesOut | .heartbeatFails => True
  | .reads | .processes => False

/-- The steps that fail. -/
def Action.Fails : Action → Prop
  | .process .raised | .drain _ .timeoutError | .beat .raised _ => True
  | _ => False

/-- After a failure the stop future is set, and no iteration of `loop`
begins with another `read`. -/
structure EndsConnection (s : TCPCoroutine) : Prop where
  stopped : (∃ e ∈ s.log, e.IsFailure) → s.stopped = true
  noRead : Between Entry.IsFailure (fun _ => False) (· = .reads) s.log

/-- A failure comes after the stop future has been set. -/
def FailsStopped (s : TCPCoroutine) (a : Action) : Prop := a.Fails → s.stopped = true

/-! ## The steps -/

/-- One more entry that is not a `read`. -/
theorem EndsConnection.record (h : EndsConnection s) {e : Entry} (he : e ≠ .reads)
    (hfails : e.IsFailure → s.stopped = true) (hlog : s'.log = s.log ++ [e])
    (hstopped : s'.stopped = s.stopped) : EndsConnection s' := by
  constructor
  · rintro ⟨x, hx, hfailure⟩
    rw [hlog] at hx
    rw [hstopped]
    rcases List.mem_append.mp hx with hx | hx
    · exact h.stopped ⟨x, hx, hfailure⟩
    · rw [List.mem_singleton.mp hx] at hfailure
      exact hfails hfailure
  · rw [hlog]
    exact between_concat.mpr ⟨h.noRead, fun hreads => absurd hreads he⟩

/-- `read` is called only where nothing has failed. -/
theorem EndsConnection.head (h : EndsConnection s) : EndsConnection s.head := by
  unfold TCPCoroutine.head
  split
  · exact ⟨h.stopped, h.noRead⟩
  · next hstopped =>
    have hnone : ¬ ∃ e ∈ s.log, e.IsFailure := fun hfailed => hstopped (h.stopped hfailed)
    refine ⟨?_, between_concat.mpr ⟨h.noRead, fun _ hopen => ?_⟩⟩
    · rintro ⟨x, hx, hfailure⟩
      rcases List.mem_append.mp hx with hx | hx
      · exact absurd ⟨x, hx, hfailure⟩ hnone
      · rw [List.mem_singleton.mp hx] at hfailure
        exact hfailure.elim
    · obtain ⟨before, x, after, hlog, hfailure, -⟩ := hopen
      refine hnone ⟨x, ?_, hfailure⟩
      change s.log = _ at hlog
      rw [hlog]
      exact List.mem_append_right _ List.mem_cons_self

theorem EndsConnection.stop (h : EndsConnection s) : EndsConnection s.stop :=
  ⟨fun _ => rfl, h.noRead⟩

theorem EndsConnection.beatHead (h : EndsConnection s) (due : Bool) :
    EndsConnection (s.beatHead due) := by
  unfold TCPCoroutine.beatHead
  split
  · exact ⟨fun _ => rfl, h.noRead⟩
  · split <;> exact ⟨h.stopped, h.noRead⟩

theorem EndsConnection.step (h : EndsConnection s) {a : Action} (ha : FailsStopped s a) :
    EndsConnection (s.step a) := by
  cases a with
  | begin => exact h.head
  | stop => exact h.stop
  | wakes due => exact h.beatHead due
  | write | beatCancelled => exact ⟨h.stopped, h.noRead⟩
  | read how =>
    cases how with
    | data => exact h.record (e := .processes) (by decide) False.elim rfl rfl
    | cancelledError => exact ⟨fun _ => rfl, h.noRead⟩
    | empty | timeoutError | raised => exact ⟨h.stopped, h.noRead⟩
  | process how =>
    cases how with
    | returned => exact h.head
    | cancelledError => exact ⟨fun _ => rfl, h.noRead⟩
    | raised =>
      have hrecord : EndsConnection (s.record .processFails) :=
        h.record (e := .processFails) (by decide) (fun _ => ha trivial) rfl rfl
      exact hrecord.head
  | beat how due =>
    cases how with
    | response => exact h.beatHead due
    | unhashable | cancelledError => exact ⟨h.stopped, h.noRead⟩
    | raised => exact h.record (e := .heartbeatFails) (by decide) (fun _ => ha trivial) rfl rfl
  | drain i how =>
    cases how with
    | drained | raised => exact ⟨h.stopped, h.noRead⟩
    | timeoutError => exact h.record (e := .writeTimesOut) (by decide) (fun _ => ha trivial) rfl rfl

theorem head_log_stopped : (∀ e ∈ s.log, e ∈ s.head.log) ∧ s.head.stopped = s.stopped := by
  unfold head
  split
  · exact ⟨fun _ h => h, rfl⟩
  · exact ⟨fun _ h => List.mem_append_left _ h, rfl⟩

/-- A failure is recorded, and leaves the stop future as it is. -/
theorem step_of_fails {a : Action} (h : a.Fails) :
    (∃ e ∈ (s.step a).log, e.IsFailure) ∧ (s.step a).stopped = s.stopped := by
  have hlast (e : Entry) : e ∈ s.log ++ [e] := List.mem_append_right _ List.mem_cons_self
  cases a with
  | process how =>
    cases how with
    | raised =>
      obtain ⟨hlog, hstopped⟩ := head_log_stopped (s := s.record .processFails)
      exact ⟨⟨.processFails, hlog _ (hlast _), trivial⟩, hstopped⟩
    | returned | cancelledError => exact h.elim
  | beat how =>
    cases how with
    | raised => exact ⟨⟨.heartbeatFails, hlast _, trivial⟩, rfl⟩
    | response | unhashable | cancelledError => exact h.elim
  | drain i how =>
    cases how with
    | timeoutError => exact ⟨⟨.writeTimesOut, hlast _, trivial⟩, rfl⟩
    | drained | raised => exact h.elim
  | begin | read | wakes | beatCancelled | write | stop => exact h.elim

/-! ## The result -/

theorem endsConnection_start (readTimeout writeTimeout heartbeat : Option Nat) :
    EndsConnection (start readTimeout writeTimeout heartbeat) := by
  refine ⟨?_, between_nil⟩
  rintro ⟨e, he, -⟩
  cases he

/-- In every run in which nothing fails before the stop future is set, a
failure ends the connection; and one more step keeps this if and only if it
is no failure before that. -/
theorem ends_iff {readTimeout writeTimeout heartbeat : Option Nat}
    (h : Reachable step (fun s a => Enabled s a ∧ FailsStopped s a)
      (start readTimeout writeTimeout heartbeat) s) :
    EndsConnection s ∧ ∀ a, Enabled s a → (EndsConnection (s.step a) ↔ FailsStopped s a) := by
  have hends : EndsConnection s :=
    Reachable.invariant EndsConnection (endsConnection_start readTimeout writeTimeout heartbeat)
      (fun _ _ hs ha => hs.step ha.2) h
  refine ⟨hends, fun a _ => ⟨fun hstep hfails => ?_, hends.step⟩⟩
  obtain ⟨hfailed, hstopped⟩ := step_of_fails (s := s) hfails
  rw [← hstopped]
  exact hstep.stopped hfailed

/-- Someone else stops the connection, or cancels the task of `loop`. -/
def Action.Stops : Action → Prop
  | .stop | .read .cancelledError | .process .cancelledError => True
  | _ => False

/-- Nothing that the coroutine does by itself sets the stop future, whether
or not something fails. -/
theorem not_stopped {readTimeout writeTimeout heartbeat : Option Nat}
    (h : Reachable step (fun s a => Enabled s a ∧ ¬ a.Stops)
      (start readTimeout writeTimeout heartbeat) s) : s.stopped = false := by
  refine h.invariant (fun s => s.stopped = false) rfl fun s a hs ha => ?_
  have hbeat (due : Bool) : (s.beatHead due).stopped = false := by
    unfold beatHead
    rw [hs, if_neg Bool.false_ne_true]
    split <;> exact hs
  cases a with
  | begin => exact head_log_stopped.2.trans hs
  | stop => exact absurd trivial ha.2
  | wakes due => exact hbeat due
  | write | beatCancelled => exact hs
  | read how =>
    cases how with
    | cancelledError => exact absurd trivial ha.2
    | data | empty | timeoutError | raised => exact hs
  | process how =>
    cases how with
    | cancelledError => exact absurd trivial ha.2
    | returned | raised => exact head_log_stopped.2.trans hs
  | beat how due =>
    cases how with
    | response => exact hbeat due
    | unhashable | cancelledError | raised => exact hs
  | drain i how => cases how <;> exact hs

/-- A packet cannot be processed, and the connection has been stopped
meanwhile. -/
theorem ends_iff_stopped :
    EndsConnection ([.begin, .read .data, .stop, .process .raised].foldl step
      (start none none none)) := by
  have hreached : Reachable step (fun s a => Enabled s a ∧ FailsStopped s a) (start none none none)
      ([.begin, .read .data, .stop].foldl step (start none none none)) :=
    reachable_of_permitted .init _
      ⟨⟨rfl, False.elim⟩, ⟨⟨rfl, nofun⟩, False.elim⟩, ⟨trivial, False.elim⟩, trivial⟩
  exact ((ends_iff hreached).2 (.process .raised) rfl).mpr fun _ => rfl

/-- A packet cannot be processed: the next one is read and processed, until
the connection breaks. -/
theorem failure_reads_on :
    let run : List Action := [.begin, .read .data, .process .raised, .read .data,
      .process .returned, .read .empty]
    let s := run.foldl step (start none none none)
    s.log = [.reads, .processes, .processFails, .reads, .processes, .reads] ∧
    s.loop = .ended ∧ s.stopped = false ∧
    ¬ ∀ (readTimeout writeTimeout heartbeat : Option Nat) (s : TCPCoroutine),
      Reached readTimeout writeTimeout heartbeat s → EndsConnection s := by
  refine ⟨rfl, rfl, rfl, fun h => ?_⟩
  have hreached : Reached none none none
      ([.begin, .read .data, .process .raised].foldl step (start none none none)) :=
    reachable_of_permitted .init _ ⟨rfl, ⟨rfl, nofun⟩, rfl, trivial⟩
  have hstopped := (h none none none _ hreached).stopped ⟨.processFails, by decide, trivial⟩
  cases hstopped

end Iams.Aio.TCPCoroutine
