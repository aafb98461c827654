/-
Iams.Aio.ManagerTheorems — what a run of the manager starts, and what it
releases in the end.

`main` takes an empty set of pending setups for success. So it starts the
coroutines although a setup has failed whenever no other setup is pending
at that moment (`gate_iff`).

A task that is cancelled inside `loop` has the future it awaits cancelled.
For a `ThreadCoroutine` this is the future that `stop` asks for, which
then has nothing to do; a `GRPCCoroutine` catches the exception in `loop`,
so that `stop` is not called. The code of all three is silent, and nothing
is ever released (`not_released`).

§1 the start, §2 the end.

No `sorry`, no `axiom`, no `native_decide`.
-/
import Iams.Aio.Manager

namespace Iams.Aio.Manager

open Iams.Lib Iams.Lib.Asyncio

variable {coros : List Coroutine} {parentSetup : Bool} {s : Manager}

/-! ## §1 The start -/

/-- Start and loop tasks are created after all setups have returned, and
otherwise `main` returns without them. -/
structure Gate (s : Manager) : Prop where
  started : s.created = true → ∀ t ∈ s.setups, t = .returned
  returned : s.phase ≠ .settingUp → (∃ t ∈ s.setups, t ≠ .returned) →
    s.phase = .ended ∧ s.created = false ∧ s.tasks = []

/-- When the first `asyncio.wait` returns because a setup has failed,
another one is still pending. -/
def FailsEarly (s : Manager) : Action → Prop
  | .setupsReturn => .raised ∈ s.setups → .pending ∈ s.setups
  | _ => True

/-- The states of the runs in which no setup fails last. -/
abbrev ReachedEarly (coros : List Coroutine) (parentSetup : Bool) (s : Manager) : Prop :=
  Reachable (step coros) (fun s a => Enabled s a ∧ FailsEarly s a) (init coros parentSetup) s

/-- How far a run is: before the first `asyncio.wait` has returned, after
that with tasks, or after that without. -/
inductive Stage (s : Manager) : Prop where
  | before (phase : s.phase = .settingUp) (created : s.created = false) (tasks : s.tasks = [])
      (setups : .cancelled ∉ s.setups)
  | started (phase : s.phase ≠ .settingUp) (created : s.created = true)
      (setups : ∀ t ∈ s.setups, t = .returned)
  | refused (phase : s.phase = .ended) (created : s.created = false) (tasks : s.tasks = [])

theorem Stage.gate (h : Stage s) : Gate s := by
  cases h with
  | before phase created tasks setups =>
    exact ⟨fun hc => by simp [created] at hc, fun hp => absurd phase hp⟩
  | started phase created setups =>
    exact ⟨fun _ => setups, fun _ ⟨t, ht, hne⟩ => absurd (setups t ht) hne⟩
  | refused phase created tasks =>
    exact ⟨fun hc => by simp [created] at hc, fun _ _ => ⟨phase, created, tasks⟩⟩

theorem Stage.init : Stage (init coros parentSetup) := by
  unfold Manager.init
  split
  · exact .refused rfl rfl rfl
  · exact .before rfl rfl rfl fun hmem => nomatch List.eq_of_mem_replicate hmem

/-- The decision after the setups. -/
theorem Stage.setupsReturn (h : Stage s) (hphase : s.phase = .settingUp)
    (hearly : .raised ∈ s.setups → .pending ∈ s.setups) : Stage (s.setupsReturn coros) := by
  cases h with
  | started phase => exact absurd hphase phase
  | refused phase =>
    rw [phase] at hphase
    cases hphase
  | before _ created tasks setups =>
    unfold Manager.setupsReturn
    split
    · exact .refused rfl created tasks
    · next hpending =>
      refine .started nofun rfl fun t ht => ?_
      cases t with
      | returned => rfl
      | pending => exact absurd ht hpending
      | raised => exact absurd (hearly ht) hpending
      | cancelled => exact absurd ht setups

theorem Stage.step (h : Stage s) {a : Action} (ha : s.Enabled a) (hearly : s.FailsEarly a) :
    Stage (s.step coros a) := by
  cases a with
  | setupsReturn => exact h.setupsReturn ha.1 hearly
  | setupEnds i raises =>
    cases h with
    | started phase => exact absurd ha.1 phase
    | refused phase => exact absurd (phase.symm.trans ha.1) nofun
    | before phase created tasks setups =>
      refine .before phase created tasks fun hmem => ?_
      rcases List.mem_or_eq_of_mem_set hmem with hmem | heq
      · exact setups hmem
      · cases raises <;> cases heq
  | complete | resume =>
    cases h with
    | before phase => rw [Enabled, phase] at ha; simp at ha
    | started phase created setups => exact .started phase created setups
    | refused phase => rw [Enabled, phase] at ha; simp at ha
  | stop =>
    cases h with
    | before phase created tasks setups => exact .before phase created tasks setups
    | started phase created setups => exact .started phase created setups
    | refused phase created tasks => exact .refused phase created tasks
  | callsReturn | giveUp =>
    cases h with
    | before phase => rw [Enabled, phase] at ha; simp at ha
    | started phase created setups => exact .started nofun created setups
    | refused phase => rw [Enabled, phase] at ha; simp at ha

/-- If a setup fails last, the coroutines are started. -/
theorem not_gate_of_not_failsEarly {a : Action} (hlate : ¬ s.FailsEarly a) :
    ¬ Gate (s.step coros a) := by
  cases a with
  | setupsReturn =>
    have hnot : ¬ (.raised ∈ s.setups → .pending ∈ s.setups) := hlate
    obtain ⟨hraised, hpending⟩ := Classical.not_imp.mp hnot
    have hstep : s.step coros .setupsReturn = { s with
        created := true
        tasks := coros.map fun c => { task := .created c.call }
        phase := .running } := if_neg hpending
    rw [hstep]
    intro hgate
    cases hgate.started rfl _ hraised
  | _ => exact absurd trivial hlate

/-- In every run in which no setup fails last, the coroutines are started
only after all setups have returned; and one more step keeps this if and
only if it does not go on after a setup that has failed last. -/
theorem gate_iff (h : ReachedEarly coros parentSetup s) :
    Gate s ∧ ∀ a, s.Enabled a → (Gate (s.step coros a) ↔ s.FailsEarly a) := by
  have hstage : Stage s :=
    Reachable.invariant Stage .init (fun _ _ hs ha => hs.step ha.1 ha.2) h
  refine ⟨hstage.gate, fun a ha => ⟨fun hgate => ?_, fun hearly => (hstage.step ha hearly).gate⟩⟩
  by_contra hlate
  exact not_gate_of_not_failsEarly hlate hgate

/-- Of two setups the first one fails, and the second one is pending. -/
theorem gate_iff_two :
    Gate ((init [influxCoroutine, mqttCoroutine] false).step [influxCoroutine, mqttCoroutine]
        (.setupEnds 0 true) |>.step [influxCoroutine, mqttCoroutine] .setupsReturn) := by
  have hreached : ReachedEarly [influxCoroutine, mqttCoroutine] false
      ((init [influxCoroutine, mqttCoroutine] false).step [influxCoroutine, mqttCoroutine]
        (.setupEnds 0 true)) := .step _ .init ⟨⟨by decide, by decide⟩, trivial⟩
  exact ((gate_iff hreached).2 .setupsReturn ⟨by decide, .inl (by decide)⟩).mpr fun _ => by decide

/-- The only setup fails: the coroutine is started. -/
theorem started_after_failure :
    ((init [influxCoroutine] false).step [influxCoroutine] (.setupEnds 0 true)
        |>.step [influxCoroutine] .setupsReturn).created = true ∧
    ¬ ∀ (coros : List Coroutine) (parentSetup : Bool) (s : Manager),
      Reached coros parentSetup s → Gate s := by
  refine ⟨by decide, fun h => ?_⟩
  have hreached : Reached [influxCoroutine] false ([.setupEnds 0 true, .setupsReturn].foldl
      (step [influxCoroutine]) (init [influxCoroutine] false)) :=
    reachable_of_permitted .init _
      ⟨⟨by decide, by decide⟩, ⟨by decide, .inl (by decide)⟩, trivial⟩
  have hraised := (h _ _ _ hreached).started rfl .raised (by decide)
  cases hraised

/-! ## §2 The end -/

/-- Whatever its futures turn out to be, the code performs nothing. -/
theorem silent_call (kind : Kind) : kind.coroutine.call.Silent fun _ => False := by
  -- the cases are the ways in which an `await` ends
  cases kind with
  | grpc =>
    rintro ((_ | _ | ⟨_ | _⟩) | _)
    · trivial
    · trivial
    · trivial
    · trivial
    · rintro ((_ | _ | ⟨_ | _⟩) | _)
      · trivial
      · trivial
      · trivial
      · trivial
      · -- `loop` returns when it is cancelled
        rintro ((_ | _ | _) | _) <;> trivial
  | mqtt | influx =>
    rintro ((_ | _ | ⟨_ | _⟩) | _)
    · trivial
    · trivial
    · trivial
    · trivial
    · rintro ((_ | _ | _) | _)
      · -- `stop` is called, but `_stop` is done
        exact ⟨trivial, fun hpending => absurd (.inl rfl) hpending⟩
      · trivial
      · trivial
      · trivial

/-- The coroutine has done what it has to do when it is stopped. -/
def ReleasedOnce (kind : Kind) (m : Machine FutureName Effect Error Unit) : Prop :=
  m.log = kind.release

/-- The tasks of the coroutines that have something to release are
quiet. -/
def Quiet (coros : List Coroutine) (s : Manager) : Prop :=
  ∀ (i : Nat) kind m, coros[i]? = some (Kind.coroutine kind) → s.tasks[i]? = some m → m.Quiet

theorem Quiet.modify (h : Quiet coros s) {i : Nat}
    {f : Machine FutureName Effect Error Unit → Machine FutureName Effect Error Unit}
    (hf : ∀ m, m.Quiet → (f m).Quiet) : Quiet coros { s with tasks := s.tasks.modify i f } := by
  intro j kind m hcoro hm
  rw [List.getElem?_modify] at hm
  obtain ⟨m', hm', rfl⟩ := Option.map_eq_some_iff.mp hm
  have hquiet := h j kind m' hcoro hm'
  split
  · exact hf m' hquiet
  · exact hquiet

theorem Quiet.step (h : Quiet coros s) (a : Action) : Quiet coros (s.step coros a) := by
  cases a with
  | setupEnds | stop | giveUp => exact h
  | complete i future r => exact h.modify fun m hm => hm.complete future r
  | resume i => exact h.modify fun m hm => hm.resume
  | setupsReturn =>
    change Quiet coros (s.setupsReturn coros)
    unfold Manager.setupsReturn
    split
    · exact h
    · intro i kind m hcoro hm
      rw [List.getElem?_map, hcoro] at hm
      cases hm
      exact ⟨rfl, silent_call kind⟩
  | callsReturn =>
    intro i kind m hcoro hm
    obtain ⟨m', hm', rfl⟩ := Option.map_eq_some_iff.mp ((List.getElem?_map ..).symm.trans hm)
    exact (h i kind m' hcoro hm').cancel

/-- In no run does a coroutine that is cancelled inside `loop` ever do
what it has to do when it is stopped. -/
theorem not_released (h : Reached coros parentSetup s) {i : Nat} {kind : Kind}
    {m : Machine FutureName Effect Error Unit} (hcoro : coros[i]? = some kind.coroutine)
    (hm : s.tasks[i]? = some m) (_ : (i, kind.loopFuture) ∈ s.cancelledAt) :
    ¬ ReleasedOnce kind m := by
  have hquiet : Quiet coros s := by
    refine Reachable.invariant (Quiet coros) ?_ (fun _ a hs _ => hs.step a) h
    intro i kind m _ hm
    cases hm
  intro hreleased
  have hlog := (hquiet i kind m hcoro hm).log_eq
  rw [hreleased] at hlog
  cases kind <;> cases hlog

/-! ## §3 One shutdown -/

/-- A coroutine whose `loop` returns at once. -/
def brief : Coroutine := ⟨return (), return (), return ()⟩

/-- An `InfluxCoroutine` is in its `loop` when another coroutine ends; it
is cancelled, and its task goes on until it is done. -/
def shutdown : List Action :=
  [.setupEnds 0 false, .setupEnds 1 false, .setupsReturn, .resume 0, .complete 0 .start (.ok ()),
    .resume 0, .resume 1, .callsReturn, .resume 0, .giveUp]

theorem shutdown_reached : Reached [influxCoroutine, brief] false
    (shutdown.foldl (step [influxCoroutine, brief]) (init [influxCoroutine, brief] false)) :=
  reachable_of_permitted .init _
    ⟨⟨by decide, by decide⟩, ⟨by decide, by decide⟩, ⟨by decide, .inr (by decide)⟩,
      .inl (by decide), ⟨.inl (by decide), by decide, nofun⟩, .inl (by decide), .inl (by decide),
      ⟨by decide, .inr ⟨_, .tail _ (.head _), rfl⟩⟩, .inr (by decide), rfl, trivial⟩

theorem not_released_shutdown :
    ∃ m, (shutdown.foldl (step [influxCoroutine, brief])
      (init [influxCoroutine, brief] false)).tasks[0]? = some m ∧ ¬ ReleasedOnce .influx m := by
  refine ⟨_, rfl, not_released (i := 0) shutdown_reached rfl rfl ?_⟩
  decide

/-- The task is done, and nothing has been released. -/
theorem shutdown_releases_nothing :
    (∃ m, (shutdown.foldl (step [influxCoroutine, brief])
      (init [influxCoroutine, brief] false)).tasks[0]? = some m ∧ m.isFinished = true ∧
        m.log = [] ∧ (m.futures .stop).isSome) ∧
    ¬ ∀ (coros : List Coroutine) (parentSetup : Bool) (s : Manager) (i : Nat) (kind : Kind) m,
      Reached coros parentSetup s → coros[i]? = some kind.coroutine → s.tasks[i]? = some m →
        (i, kind.loopFuture) ∈ s.cancelledAt → s.phase = .ended → ReleasedOnce kind m := by
  refine ⟨⟨_, rfl, rfl, rfl, rfl⟩, fun h => ?_⟩
  have hreleased := h _ _ _ 0 .influx _ shutdown_reached rfl rfl (by decide) (by decide)
  cases hreleased

end Iams.Aio.Manager
