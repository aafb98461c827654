/-
Iams.Aio.FailureTheorems — what an exception of `main` does to an
`EventCoroutine`.

`main` and the wait for the next event are in one `try`. So an
`asyncio.TimeoutError` of `main` counts as the end of the interval: `main`
is called again, unless the coroutine has been stopped in the meantime.
Any other exception ends the loop (`fails_iff`).

No `sorry`, no `axiom`, no `native_decide`.
-/
import Iams.Aio.EventTheorems

namespace Iams.Aio.EventCoroutine

open Iams.Lib

variable {s t : EventCoroutine}

/-- The exceptions that are derived from `Exception`. -/
def MainEnd.IsException : MainEnd → Prop
  | .timeoutError | .raised => True
  | .returned | .cancelledError => False

/-- `s` is the state that an end of `main` leads to: the loop has ended and
called `stop`, and `main` is not called again, whatever follows. -/
structure EndsLoop (before : EventCoroutine) (how : MainEnd) (s : EventCoroutine) : Prop where
  ended : s.phase = .ended
  stops : s.log = before.log ++ [.mainEnds how, .stop]
  stopped : s.stopped = true
  noMain : ∀ t, Reachable step Enabled s t →
    ∃ later, t.log = s.log ++ later ∧ ∀ e ∈ later, ¬ e.IsStart

/-- Nothing but calls from outside is left to happen. -/
theorem ended_step (h : s.phase = .ended) {a : Action} (ha : s.Enabled a) :
    (s.step a).phase = .ended ∧ ∃ e, (s.step a).log = s.log ++ [e] ∧ ¬ e.IsStart := by
  cases a with
  | run => exact ⟨h, .run, rfl, not_isStart_run⟩
  | stop => exact ⟨h, .stop, rfl, not_isStart_stop⟩
  | begin | main => exact absurd (h.symm.trans ha) nofun
  | acquired => exact absurd (h.symm.trans ha.1) nofun
  | wait how =>
    cases how <;> simp [Enabled, h] at ha

theorem ended_run (h : s.phase = .ended) (hrun : Reachable step Enabled s t) :
    t.phase = .ended ∧ ∃ later, t.log = s.log ++ later ∧ ∀ e ∈ later, ¬ e.IsStart := by
  induction hrun with
  | init => exact ⟨h, [], (List.append_nil _).symm, nofun⟩
  | step a _ ha ih =>
    obtain ⟨hended, later, hlater, hnone⟩ := ih
    obtain ⟨hended', e, he, hnot⟩ := ended_step hended ha
    refine ⟨hended', later ++ [e], by rw [he, hlater, List.append_assoc], fun x hx => ?_⟩
    rcases List.mem_append.mp hx with hx | hx
    · exact hnone x hx
    · rw [List.mem_singleton.mp hx]
      exact hnot

/-- After the loop, `stop` is called. -/
theorem endsLoop_leave {how : MainEnd} (hlog : t.log = s.log ++ [.mainEnds how]) :
    EndsLoop s how t.leave := by
  refine ⟨rfl, ?_, rfl, fun u hu => (ended_run rfl hu).2⟩
  change t.log ++ [.stop] = _
  rw [hlog, List.append_assoc, List.singleton_append]

/-- The head of the loop after an interval, for a coroutine that has been
stopped. -/
theorem timedOut_of_stopped (h : s.stopped = true) :
    s.timedOut = { s with periodic := true }.leave := if_pos h

/-- The end of an interval leads to the next call of `main`. -/
theorem timedOut_phase (hlocked : s.locked = false) (h : ¬ s.stopped = true) :
    s.timedOut.phase = .main := by
  unfold timedOut head
  rw [if_neg h, hlocked]
  rfl

/-- An exception of `main` ends the loop if and only if it is not a timeout,
or the coroutine has been stopped. -/
theorem fails_iff (s : EventCoroutine) {how : MainEnd} (hhow : how.IsException)
    (interval : Option Nat) (look : Bool) :
    EndsLoop s how (s.step (.main how interval look)) ↔ how ≠ .timeoutError ∨ s.stopped = true := by
  cases how with
  | returned | cancelledError => exact hhow.elim
  | raised => exact iff_of_true (endsLoop_leave rfl) (.inl nofun)
  | timeoutError =>
    -- the handler for the end of the interval goes on to the head of the loop
    obtain ⟨t, ht⟩ : ∃ t, t = { s with locked := false }.record (.mainEnds .timeoutError) :=
      ⟨_, rfl⟩
    have hstep : s.step (.main .timeoutError interval look) = t.timedOut := by rw [ht]; rfl
    have hsame : t.stopped = s.stopped := by rw [ht]; rfl
    rw [hstep, ← hsame]
    by_cases hstopped : t.stopped = true
    · rw [timedOut_of_stopped hstopped]
      exact iff_of_true (endsLoop_leave (by rw [ht]; rfl)) (.inr hstopped)
    · refine iff_of_false (fun h => ?_) (fun h => h.elim (· rfl) hstopped)
      have hended := h.ended
      rw [timedOut_phase (by rw [ht]; rfl) hstopped] at hended
      cases hended

/-- `main` is running for the first time. -/
def firstMain : EventCoroutine := [.begin].foldl step {}

/-- Any other exception. -/
theorem fails_iff_raised : EndsLoop firstMain .raised (firstMain.step (.main .raised none true)) :=
  (fails_iff firstMain (show MainEnd.raised.IsException from trivial) none true).mpr (.inl nofun)

/-- A timeout of the first call of `main`, without an interval: `main` is
called again. -/
theorem timeout_calls_main :
    ([.begin, .main .timeoutError none true].foldl step {}).log =
      [.mainStarts true, .mainEnds .timeoutError, .mainStarts true] ∧
    ¬ ∀ s how interval look, Reached s → s.phase = .main → how.IsException →
      EndsLoop s how (s.step (.main how interval look)) := by
  refine ⟨rfl, fun h => ?_⟩
  have hreached : Reached firstMain := reachable_of_permitted .init _ ⟨rfl, trivial⟩
  have hended := (h firstMain .timeoutError none true hreached rfl trivial).ended
  cases hended

end Iams.Aio.EventCoroutine
