/-
Iams.Aio.EventTheorems — an `EventCoroutine` loses no wake-up.

The event is cleared in one place only, right before `main` is called. So
it is set as long as there has been a `run` since `main` was last started,
and the loop then neither waits for it nor ends up waiting for it.

§1 what the parts of the loop preserve, §2 every run, §3 the result.

No `sorry`, no `axiom`, no `native_decide`.
-/
import Iams.Aio.Event
import Iams.Lib.Trace

namespace Iams.Aio.EventCoroutine

open Iams.Lib Iams.Lib.Trace

variable {s : EventCoroutine}

def Entry.IsStart (e : Entry) : Prop := ∃ periodic, e = .mainStarts periodic

def Entry.IsEnd (e : Entry) : Prop := ∃ how, e = .mainEnds how

/-- There has been a `run` since `main` was last started. -/
def Pending (s : EventCoroutine) : Prop := Open (· = .run) Entry.IsStart s.log

/-- `stop` has been called. -/
def StopCalled (s : EventCoroutine) : Prop := Open (· = .stop) (fun _ => False) s.log

/-- A call of `main` has not ended. -/
def MainRuns (s : EventCoroutine) : Prop := Open Entry.IsStart Entry.IsEnd s.log

/-- What the log says of the past. -/
structure Ordered (log : List Entry) : Prop where
  /-- A call of `main` starts after the one before has ended. -/
  single : Between Entry.IsStart Entry.IsEnd Entry.IsStart log
  /-- Between a `run` and a suspension that waits for the event a call of
  `main` starts. -/
  noLoss : Between (· = .run) Entry.IsStart (· = .suspended) log
  /-- No call of `main` starts after a `stop`. -/
  noMain : Between (· = .stop) (fun _ => False) Entry.IsStart log

/-- What holds when `loop` comes to its head. -/
structure AtHead (s : EventCoroutine) : Prop where
  ordered : Ordered s.log
  unlocked : s.locked = false
  idle : ¬ MainRuns s
  stopped : StopCalled s → s.stopped = true

structure Inv (s : EventCoroutine) : Prop where
  ordered : Ordered s.log
  locked : s.locked = true ↔ s.phase = .main
  notAcquiring : s.phase ≠ .acquiring
  running : MainRuns s → s.phase = .main
  stopped : StopCalled s → s.stopped = true
  pending : Pending s → s.event = true

/-! ## §1 The parts of the loop -/

theorem Ordered.concat {log : List Entry} (h : Ordered log) {e : Entry} (hstart : ¬ e.IsStart)
    (hne : e ≠ .suspended) : Ordered (log ++ [e]) := by
  refine ⟨?_, ?_, ?_⟩
  · exact between_concat.mpr ⟨h.single, fun hc => absurd hc hstart⟩
  · exact between_concat.mpr ⟨h.noLoss, fun hc => absurd hc hne⟩
  · exact between_concat.mpr ⟨h.noMain, fun hc => absurd hc hstart⟩

theorem not_isStart_run : ¬ Entry.IsStart .run := nofun

theorem not_isStart_stop : ¬ Entry.IsStart .stop := nofun

theorem not_isStart_suspended : ¬ Entry.IsStart .suspended := nofun

theorem AtHead.callMain (h : AtHead s) (hstopped : s.stopped = false) : Inv s.callMain := by
  refine ⟨⟨?_, ?_, ?_⟩, iff_of_true rfl rfl, nofun, fun _ => rfl, fun hopen => ?_, fun hopen => ?_⟩
  · exact between_concat.mpr ⟨h.ordered.single, fun _ => h.idle⟩
  · exact between_concat.mpr ⟨h.ordered.noLoss, nofun⟩
  · refine between_concat.mpr ⟨h.ordered.noMain, fun _ hopen => ?_⟩
    rw [h.stopped hopen] at hstopped
    cases hstopped
  · rcases open_concat.mp hopen with hstop | ⟨hopen, -⟩
    · cases hstop
    · exact h.stopped hopen
  · rcases open_concat.mp hopen with hrun | ⟨-, hstart⟩
    · cases hrun
    · exact absurd ⟨_, rfl⟩ hstart

theorem AtHead.leave (h : AtHead s) : Inv s.leave := by
  have hlocked : ¬ s.locked = true := by rw [h.unlocked]; exact Bool.false_ne_true
  refine ⟨h.ordered.concat not_isStart_stop nofun, iff_of_false hlocked nofun, nofun,
    fun hopen => ?_, fun _ => rfl, fun _ => rfl⟩
  rcases open_concat.mp hopen with hstart | ⟨hopen, -⟩
  · exact absurd hstart not_isStart_stop
  · exact absurd hopen h.idle

theorem AtHead.head (h : AtHead s) : Inv s.head := by
  unfold EventCoroutine.head
  split
  · exact h.leave
  · next hstopped =>
    rw [h.unlocked, if_neg Bool.false_ne_true]
    exact h.callMain (by simpa using hstopped)

theorem AtHead.timedOut (h : AtHead s) : Inv s.timedOut :=
  AtHead.head ⟨h.ordered, h.unlocked, h.idle, h.stopped⟩

theorem AtHead.woken (h : AtHead s) : Inv s.woken :=
  AtHead.head ⟨h.ordered, h.unlocked, h.idle, h.stopped⟩

/-- The loop waits for the event only where no `run` is pending. -/
theorem AtHead.waitFor (h : AtHead s) (hpending : Pending s → s.event = true)
    (interval : Option Nat) (look : Bool) : Inv (s.waitFor interval look) := by
  unfold EventCoroutine.waitFor
  have hlocked : s.locked = true ↔ Phase.waiting interval = .main :=
    iff_of_false (by rw [h.unlocked]; exact Bool.false_ne_true) nofun
  split
  · split
    · exact h.woken
    · exact ⟨h.ordered, hlocked, nofun, fun hopen => absurd hopen h.idle, h.stopped, hpending⟩
  · next hevent =>
    have hnot : ¬ Pending s := fun hopen => hevent (hpending hopen)
    refine ⟨⟨?_, ?_, ?_⟩, hlocked, nofun, fun hopen => ?_, fun hopen => ?_, fun hopen => ?_⟩
    · exact between_concat.mpr ⟨h.ordered.single, nofun⟩
    · exact between_concat.mpr ⟨h.ordered.noLoss, fun _ => hnot⟩
    · exact between_concat.mpr ⟨h.ordered.noMain, nofun⟩
    · rcases open_concat.mp hopen with hstart | ⟨hopen, -⟩
      · exact absurd hstart not_isStart_suspended
      · exact absurd hopen h.idle
    · rcases open_concat.mp hopen with hstop | ⟨hopen, -⟩
      · cases hstop
      · exact h.stopped hopen
    · rcases open_concat.mp hopen with hrun | ⟨hopen, -⟩
      · cases hrun
      · exact absurd hopen hnot

/-- When `main` has ended and the lock is released, the loop may go on. -/
theorem Inv.mainEnded (h : Inv s) (how : MainEnd) (interval : Option Nat) (look : Bool) :
    Inv (s.mainEnded how interval look) := by
  have hnot : ¬ Entry.IsStart (.mainEnds how) := nofun
  have hhead : AtHead ({ s with locked := false }.record (.mainEnds how)) := by
    refine ⟨h.ordered.concat hnot nofun, rfl, fun hopen => ?_, fun hopen => ?_⟩
    · rcases open_concat.mp hopen with hstart | ⟨-, hend⟩
      · exact hnot hstart
      · exact hend ⟨how, rfl⟩
    · rcases open_concat.mp hopen with hstop | ⟨hopen, -⟩
      · cases hstop
      · exact h.stopped hopen
  cases how with
  | returned =>
    refine hhead.waitFor (fun hopen => ?_) interval look
    rcases open_concat.mp hopen with hrun | ⟨hopen, -⟩
    · cases hrun
    · exact h.pending hopen
  | timeoutError => exact hhead.timedOut
  | cancelledError | raised => exact hhead.leave

/-! ## §2 Every run -/

/-- Where `main` does not run, the loop may go on. -/
theorem Inv.atHead (h : Inv s) (hphase : s.phase ≠ .main) : AtHead s :=
  ⟨h.ordered, by simpa using mt h.locked.mp hphase, fun hopen => hphase (h.running hopen),
    h.stopped⟩

theorem Inv.run (h : Inv s) : Inv (s.run.record .run) := by
  refine ⟨h.ordered.concat not_isStart_run nofun, h.locked, h.notAcquiring, fun hopen => ?_,
    fun hopen => ?_, fun _ => rfl⟩
  · rcases open_concat.mp hopen with hstart | ⟨hopen, -⟩
    · exact absurd hstart not_isStart_run
    · exact h.running hopen
  · rcases open_concat.mp hopen with hstop | ⟨hopen, -⟩
    · cases hstop
    · exact h.stopped hopen

theorem Inv.stop (h : Inv s) : Inv (s.stop.record .stop) := by
  refine ⟨h.ordered.concat not_isStart_stop nofun, h.locked, h.notAcquiring, fun hopen => ?_,
    fun _ => rfl, fun _ => rfl⟩
  rcases open_concat.mp hopen with hstart | ⟨hopen, -⟩
  · exact absurd hstart not_isStart_stop
  · exact h.running hopen

theorem Inv.step (h : Inv s) {a : Action} (ha : s.Enabled a) : Inv (s.step a) := by
  cases a with
  | begin => exact (h.atHead (by rw [ha]; nofun)).head
  | acquired => exact absurd ha.1 h.notAcquiring
  | main how interval look => exact h.mainEnded how interval look
  | run => exact h.run
  | stop => exact h.stop
  | wait how =>
    have hphase : s.phase ≠ .main := by
      cases how with
      | woken =>
        obtain ⟨⟨_, hwaiting⟩, -⟩ := ha
        simp [hwaiting]
      | timeoutError =>
        obtain ⟨_, hwaiting⟩ := ha
        simp [hwaiting]
      | cancelledError =>
        rcases ha with ⟨_, hwaiting⟩ | hacquiring
        · simp [hwaiting]
        · exact absurd hacquiring h.notAcquiring
    have hhead := h.atHead hphase
    cases how with
    | woken => exact hhead.woken
    | timeoutError => exact hhead.timedOut
    | cancelledError => exact hhead.leave

theorem inv_of_reached (h : Reached s) : Inv s := by
  refine Reachable.invariant Inv ?_ (fun _ _ hs ha => hs.step ha) h
  refine ⟨⟨between_nil, between_nil, between_nil⟩, iff_of_false nofun nofun, nofun, ?_, ?_, ?_⟩ <;>
    exact fun hopen => absurd hopen not_open_nil

/-! ## §3 No lost wake-up -/

/-- The loop has called `main` again. -/
def StartsMain (s s' : EventCoroutine) : Prop :=
  s'.phase = .main ∧ ∃ events periodic, s'.log = s.log ++ events ++ [.mainStarts periodic] ∧
    .suspended ∉ events

/-- The order in which things have happened, and what happens next when a
`run` is pending: the loop does not wait for the event, and unless it has
been stopped, is cancelled or fails, it calls `main`. -/
structure Wakes (s : EventCoroutine) : Prop where
  ordered : Ordered s.log
  /-- `main` has ended: its next call starts, or `wait_for` suspends though
  the event is set. -/
  afterMain : Pending s → s.stopped = false → s.phase = .main → ∀ how interval look,
    how = .returned ∨ how = .timeoutError →
      let s' := s.step (.main how interval look)
      StartsMain s s' ∨ s'.phase = .waiting interval ∧ Pending s' ∧ s'.stopped = false ∧
        .suspended ∉ s'.log.drop s.log.length
  /-- `wait_for` is woken up, and then the next call of `main` starts. -/
  afterWait : Pending s → s.stopped = false → ∀ interval, s.phase = .waiting interval →
    s.Enabled (.wait .woken) ∧
      ∀ how, how ≠ .cancelledError → StartsMain s (s.step (.wait how))

theorem head_startsMain {t : EventCoroutine} {events : List Entry} (hlog : s.log = t.log ++ events)
    (hunlocked : s.locked = false) (hstopped : s.stopped = false) (hevents : .suspended ∉ events) :
    StartsMain t s.head := by
  unfold EventCoroutine.head
  rw [hstopped, hunlocked]
  exact ⟨rfl, events, s.periodic, by rw [← hlog]; rfl, hevents⟩

/-- In every run of the loop, with any calls of `run` and `stop`. -/
theorem wakes_of_reached (h : Reached s) : Wakes s := by
  have hinv := inv_of_reached h
  refine ⟨hinv.ordered, fun hpending hstopped hphase how interval look hhow => ?_,
    fun hpending hstopped interval hphase => ?_⟩
  · have hend : Entry.suspended ∉ [Entry.mainEnds how] := by simp
    rcases hhow with rfl | rfl
    · have hevent : ({ s with locked := false }.record (.mainEnds .returned)).event = true :=
        hinv.pending hpending
      cases look with
      | true =>
        refine .inl ?_
        rw [step, mainEnded, waitFor, if_pos hevent, if_pos rfl]
        exact head_startsMain rfl rfl hstopped hend
      | false =>
        have hstep : s.step (.main .returned interval false) =
            { { s with locked := false }.record (.mainEnds .returned) with
              phase := .waiting interval } := by
          rw [step, mainEnded, waitFor, if_pos hevent, if_neg Bool.false_ne_true]
        refine .inr ?_
        rw [hstep]
        refine ⟨rfl, open_concat.mpr (.inr ⟨hpending, nofun⟩), hstopped, ?_⟩
        rw [record, List.drop_left]
        exact hend
    · exact .inl (head_startsMain rfl rfl hstopped hend)
  · have hunlocked := (hinv.atHead (by rw [hphase]; nofun)).unlocked
    refine ⟨⟨⟨interval, hphase⟩, hinv.pending hpending⟩, fun how hhow => ?_⟩
    cases how with
    | cancelledError => exact absurd rfl hhow
    | woken | timeoutError =>
      exact head_startsMain (List.append_nil _).symm hunlocked hstopped List.not_mem_nil

/-- A `run` while `main` is running. -/
theorem wakes_of_reached_run :
    Wakes ([.begin, .run, .main .returned none true].foldl step {}) :=
  wakes_of_reached (reachable_of_permitted .init _ ⟨rfl, trivial, rfl, trivial⟩)

end Iams.Aio.EventCoroutine
