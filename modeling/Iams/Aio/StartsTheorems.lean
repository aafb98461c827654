/-
Iams.Aio.StartsTheorems — when a `GRPCCoroutine` waits for healthy peers.

`task.done()` tells whether a task is done, and raises nothing. So a start
task that has failed stops the `GRPCCoroutine` only if it is its own:
otherwise `wait` returns, and `loop` is entered (`healthy_iff`). `wait` ends
when the start tasks have ended.

§1 the property, §2 the code of the task, §3 its stages, §4 the result.

No `sorry`, no `axiom`, no `native_decide`.
-/
import Iams.Aio.Starts

namespace Iams.Aio.Starts

open Iams.Lib Iams.Lib.Asyncio

variable {own : String} {names : List String} {s s' : Starts}

/-! ## §1 The property -/

/-- A start task has ended with an exception. -/
def Fails (s : Starts) (name : String) (e : Raised Error) : Prop :=
  s.machine.futures (.start name) = some (.error e)

/-- `loop` is entered after all start tasks have returned, and if one of
them has raised, `wait` ends with a `SystemError` or with the exception of
its own start task, or it has been cancelled. -/
structure Healthy (own : String) (names : List String) (s : Starts) : Prop where
  loop : .loopEntered ∈ s.machine.log →
    ∀ name ∈ names, s.machine.futures (.start name) = some (.ok ())
  wait : ∀ r, .waitEnds r ∈ s.machine.log → (∃ name ∈ names, ∃ e, s.Fails name e) →
    r = .error (.error .systemError) ∨ (∃ e, s.Fails own e ∧ r = .error e) ∨
      r = .error .cancelled ∧ s.cancelled = true

/-- Its own start task has failed, or no other one has. -/
def OwnFails (own : String) (names : List String) (s : Starts) : Prop :=
  (∃ e, s.Fails own e) ∨ ∀ name ∈ names, ∀ e, ¬ s.Fails name e

/-! ## §2 The code -/

/-- An exception leaves the code, a value is followed by the rest. -/
def onReturn (rest : StartCode) : Result Error Unit → StartCode
  | .ok () => rest
  | .error e => .finish (.error e)

/-- `wait` after the start task of the coroutine itself. -/
def waitAll (names : List String) : StartCode := do
  Code.wait .all
  checkDone names

/-- The end of `loop`. -/
def afterTermination : Result Error Unit → StartCode
  | .error .cancelled => .finish (.ok ())
  | r => .finish r

theorem afterTermination_eq (r : Result Error Unit) : ∃ r', afterTermination r = .finish r' := by
  rcases r with (_ | _ | _) | _ <;> exact ⟨_, rfl⟩

theorem call_eq : call own names =
    .await (.start own) fun r => (onReturn (waitAll names) r).andThen afterWait := by
  refine congrArg (Code.await _) (funext fun r => ?_)
  cases r <;> rfl

theorem waitAll_andThen : (waitAll names).andThen afterWait =
    .await .all fun r => (onReturn (checkDone names) r).andThen afterWait := by
  refine congrArg (Code.await _) (funext fun r => ?_)
  cases r <;> rfl

theorem afterWait_ok : afterWait (.ok ()) = .perform (.waitEnds (.ok ()))
    (.perform .loopEntered (.await .termination afterTermination)) := by
  refine congrArg (Code.perform _) (congrArg (Code.perform _)
    (congrArg (Code.await _) (funext fun r => ?_)))
  rcases r with (_ | _ | _) | _ <;> rfl

theorem afterWait_error (e : Raised Error) :
    ∃ r, afterWait (.error e) = .perform (.waitEnds (.error e)) (.finish r) := by
  rcases e with _ | _ | _ | n
  · exact ⟨.error .cancelled, rfl⟩
  · exact ⟨.error .invalidState, rfl⟩
  · exact ⟨.ok (), rfl⟩
  · exact ⟨.error (.error (.other n)), rfl⟩

variable {m : Machine Future Entry Error Unit}

/-- The loop over the tasks that are done does nothing. -/
theorem run_checkDone (f : Result Error Unit → StartCode) :
    Machine.run ((checkDone names).andThen f) m = Machine.run (f (.ok ())) m := by
  induction names with
  | nil => rfl
  | cons name rest ih => exact ih

/-- After a `wait` that returns, `loop` is entered. -/
theorem run_afterWait_ok (m : Machine Future Entry Error Unit) :
    ∃ task, (task = .waiting .termination afterTermination ∨ ∃ r, task = .finished r) ∧
      Machine.run (afterWait (.ok ())) m =
        { m with task, log := m.log ++ [.waitEnds (.ok ())] ++ [.loopEntered] } := by
  rw [afterWait_ok, Machine.run, Machine.run]
  obtain ⟨m', hm'⟩ : ∃ m', m' = { m with
    log := m.log ++ [Entry.waitEnds (.ok ())] ++ [Entry.loopEntered] } := ⟨_, rfl⟩
  have hrest : ∃ task, (task = .waiting .termination afterTermination ∨ ∃ r, task = .finished r) ∧
      Machine.run (.await .termination afterTermination) m' = { m' with task } := by
    cases htermination : m'.futures .termination with
    | none => exact ⟨_, .inl rfl, Machine.run_await_pending m' htermination _⟩
    | some r =>
      obtain ⟨r', hr'⟩ := afterTermination_eq r
      refine ⟨_, .inr ⟨r', rfl⟩, ?_⟩
      rw [Machine.run_await_done m' htermination, hr', Machine.run]
  rw [hm'] at hrest
  exact hrest

/-! ## §3 The stages -/

/-- Where the task is, and what it knows. -/
inductive Stage (own : String) (names : List String) (s : Starts) : Prop
  | created (task : s.machine.task = .created (call own names)) (log : s.machine.log = [])
  | gone (r : Result Error Unit) (task : s.machine.task = .finished r) (log : s.machine.log = [])
      (cause : s.cancelled = true)
  | starting (task : s.machine.task =
        .waiting (.start own) fun r => (onReturn (waitAll names) r).andThen afterWait)
      (log : s.machine.log = [])
  | waiting (task : s.machine.task =
        .waiting .all fun r => (onReturn (checkDone names) r).andThen afterWait)
      (log : s.machine.log = []) (started : s.machine.futures (.start own) = some (.ok ()))
  | failed (r : Result Error Unit) (e : Raised Error) (task : s.machine.task = .finished r)
      (log : s.machine.log = [.waitEnds (.error e)])
      (cause : s.Fails own e ∨ e = .cancelled ∧ s.cancelled = true)
  | entered (task : s.machine.task = .waiting .termination afterTermination ∨
        ∃ r, s.machine.task = .finished r)
      (log : s.machine.log = [.waitEnds (.ok ()), .loopEntered])
      (started : s.machine.futures (.start own) = some (.ok ()))
      (done : ∀ name ∈ names, (s.machine.futures (.start name)).isSome)

/-- `asyncio.wait` has returned when all start tasks were done, or it has
been cancelled. -/
def AllEnds (names : List String) (s : Starts) : Prop :=
  ∀ r, s.machine.futures .all = some r →
    r = .ok () ∧ (∀ name ∈ names, (s.machine.futures (.start name)).isSome) ∨
      r = .error .cancelled ∧ s.cancelled = true

structure Inv (own : String) (names : List String) (s : Starts) : Prop where
  stage : Stage own names s
  all : AllEnds names s
  mustCancel : s.machine.mustCancel = true → s.cancelled = true

/-- What is done stays done, and the task stays where it is. -/
structure Grows (s s' : Starts) : Prop where
  task : s'.machine.task = s.machine.task
  log : s'.machine.log = s.machine.log
  futures : ∀ f r, s.machine.futures f = some r → s'.machine.futures f = some r
  cancelled : s.cancelled = true → s'.cancelled = true

theorem Grows.done (h : Grows s s')
    (hdone : ∀ name ∈ names, (s.machine.futures (.start name)).isSome) :
    ∀ name ∈ names, (s'.machine.futures (.start name)).isSome := by
  intro name hname
  obtain ⟨r, hr⟩ := Option.isSome_iff_exists.mp (hdone name hname)
  rw [h.futures _ r hr]
  rfl

theorem Stage.grows (h : Stage own names s) (hgrows : Grows s s') : Stage own names s' := by
  obtain ⟨htask, hlog, hfutures, hcancelled⟩ := hgrows
  cases h with
  | created task log => exact .created (htask.trans task) (hlog.trans log)
  | gone r task log cause => exact .gone r (htask.trans task) (hlog.trans log) (hcancelled cause)
  | starting task log => exact .starting (htask.trans task) (hlog.trans log)
  | waiting task log started =>
    exact .waiting (htask.trans task) (hlog.trans log) (hfutures _ _ started)
  | failed r e task log cause =>
    exact .failed r e (htask.trans task) (hlog.trans log)
      (cause.imp (hfutures _ _) fun h => ⟨h.1, hcancelled h.2⟩)
  | entered task log started done =>
    exact .entered (htask ▸ task) (hlog.trans log) (hfutures _ _ started)
      (Grows.done ⟨htask, hlog, hfutures, hcancelled⟩ done)

theorem grows_complete (s : Starts) (future : Future) (r : Result Error Unit) :
    Grows s { s with machine := s.machine.complete future r } := by
  refine ⟨s.machine.complete_task future r, s.machine.complete_log future r, ?_, id⟩
  intro f r' hr'
  rw [Machine.complete_futures, if_neg, hr']
  rintro ⟨rfl, hnone⟩
  rw [hnone] at hr'
  cases hr'

theorem grows_cancel (s : Starts) :
    Grows s { machine := s.machine.cancel, cancelled := true } := by
  refine ⟨s.machine.cancel_task, s.machine.cancel_log, fun f r hr => ?_, fun _ => rfl⟩
  rcases s.machine.cancel_futures f with heq | ⟨hnone, -⟩
  · exact heq.trans hr
  · rw [hnone] at hr
    cases hr

/-- Code that leads the task to one of its stages and completes no future. -/
structure Leads (own : String) (names : List String) (s : Starts) (code : StartCode) : Prop where
  stage : Stage own names ⟨Machine.run code s.machine, s.cancelled⟩
  futures : (Machine.run code s.machine).futures = s.machine.futures
  mustCancel : (Machine.run code s.machine).mustCancel = s.machine.mustCancel

theorem Leads.congr {code code' : StartCode} (h : Leads own names s code)
    (hrun : Machine.run code' s.machine = Machine.run code s.machine) :
    Leads own names s code' :=
  ⟨hrun ▸ h.stage, hrun ▸ h.futures, hrun ▸ h.mustCancel⟩

/-- How an `await` in `wait` may end: with what the future has, or by a
cancellation. -/
def Ends (s : Starts) (future : Future) (r : Result Error Unit) : Prop :=
  s.machine.futures future = some r ∨ r = .error .cancelled ∧ s.cancelled = true

theorem leads_await {future : Future} {next : Result Error Unit → StartCode}
    (hpending : s.machine.futures future = none)
    (hstage : Stage own names
      ⟨{ s.machine with task := .waiting future next }, s.cancelled⟩) :
    Leads own names s (.await future next) := by
  have hrun := Machine.run_await_pending s.machine hpending next
  exact ⟨hrun ▸ hstage, by rw [hrun], by rw [hrun]⟩

theorem leads_error {e : Raised Error} (hlog : s.machine.log = [])
    (hcause : s.Fails own e ∨ e = .cancelled ∧ s.cancelled = true) :
    Leads own names s (afterWait (.error e)) := by
  obtain ⟨r, hr⟩ := afterWait_error e
  rw [hr]
  refine ⟨.failed r e rfl ?_ hcause, rfl, rfl⟩
  change s.machine.log ++ _ = _
  rw [hlog, List.nil_append]

theorem leads_ok (hlog : s.machine.log = [])
    (hstarted : s.machine.futures (.start own) = some (.ok ()))
    (hdone : ∀ name ∈ names, (s.machine.futures (.start name)).isSome) :
    Leads own names s (afterWait (.ok ())) := by
  obtain ⟨task, htask, hrun⟩ := run_afterWait_ok s.machine
  rw [hlog] at hrun
  constructor
  · rw [hrun]
    exact .entered htask rfl hstarted hdone
  · rw [hrun]
  · rw [hrun]

/-- `asyncio.wait` has ended, or has been cancelled. -/
theorem leads_waited (hall : AllEnds names s) (hlog : s.machine.log = [])
    (hstarted : s.machine.futures (.start own) = some (.ok ())) {r : Result Error Unit}
    (hr : Ends s .all r) :
    Leads own names s ((onReturn (checkDone names) r).andThen afterWait) := by
  cases r with
  | ok =>
    have hok : s.machine.futures .all = some (.ok ()) := hr.resolve_right nofun
    have hdone := (hall _ hok).elim And.right fun h => nomatch h.1
    exact (leads_ok hlog hstarted hdone).congr (run_checkDone afterWait)
  | error e =>
    refine leads_error hlog (.inr ?_)
    have hcancelled : Except.error e = .error .cancelled ∧ s.cancelled = true :=
      hr.elim (fun hr => (hall _ hr).resolve_left (fun h => nomatch h.1)) id
    exact ⟨Except.error.inj hcancelled.1, hcancelled.2⟩

/-- The start task of the coroutine itself has ended, or the task has been
cancelled. -/
theorem leads_started (hall : AllEnds names s) (hlog : s.machine.log = [])
    {r : Result Error Unit} (hr : Ends s (.start own) r) :
    Leads own names s ((onReturn (waitAll names) r).andThen afterWait) := by
  cases r with
  | error e => exact leads_error hlog (hr.imp id fun hr => ⟨Except.error.inj hr.1, hr.2⟩)
  | ok =>
    have hstarted : s.machine.futures (.start own) = some (.ok ()) := hr.resolve_right nofun
    rw [onReturn, waitAll_andThen]
    cases hpending : s.machine.futures .all with
    | none =>
      exact leads_await hpending (.waiting rfl hlog hstarted)
    | some r =>
      exact (leads_waited hall hlog hstarted (.inl hpending)).congr
        (Machine.run_await_done s.machine hpending _)

theorem leads_call (hall : AllEnds names s) (hlog : s.machine.log = []) :
    Leads own names s (call own names) := by
  rw [call_eq]
  cases hpending : s.machine.futures (.start own) with
  | none =>
    exact leads_await hpending (.starting rfl hlog)
  | some r =>
    exact (leads_started hall hlog (.inl hpending)).congr
      (Machine.run_await_done s.machine hpending _)

theorem Leads.inv {code : StartCode} (h : Leads own names s code) (hall : AllEnds names s)
    (hmust : s.machine.mustCancel = true → s.cancelled = true) :
    Inv own names ⟨Machine.run code s.machine, s.cancelled⟩ := by
  refine ⟨h.stage, fun r hr => ?_, fun hm => hmust (h.mustCancel.symm.trans hm)⟩
  rw [h.futures] at hr
  rw [h.futures]
  exact hall r hr

/-- An `await` that has ended. -/
theorem Inv.resume_done (h : Inv own names s) {future : Future}
    {next : Result Error Unit → StartCode} {r : Result Error Unit}
    (htask : s.machine.task = .waiting future next) (hdone : s.machine.futures future = some r)
    (hnext : ∀ s', s'.machine.log = s.machine.log → s'.machine.futures = s.machine.futures →
      AllEnds names s' → ∀ r, Ends s' future r → Leads own names s' (next r)) :
    Inv own names { s with machine := s.machine.resume } := by
  rw [Machine.resume_of_done s.machine htask hdone]
  have hall : AllEnds names ⟨{ s.machine with mustCancel := false }, s.cancelled⟩ := h.all
  refine Leads.inv (hnext ⟨{ s.machine with mustCancel := false }, s.cancelled⟩ rfl rfl hall _ ?_)
    hall nofun
  cases hmust : s.machine.mustCancel with
  | true => exact .inr ⟨rfl, h.mustCancel hmust⟩
  | false => exact .inl hdone

theorem Inv.resume (h : Inv own names s) :
    Inv own names { s with machine := s.machine.resume } := by
  have hsame (heq : s.machine.resume = s.machine) :
      Inv own names { s with machine := s.machine.resume } := by rw [heq]; exact h
  rcases hs : h.stage with ⟨task, log⟩ | ⟨r, task, log, cause⟩ | ⟨task, log⟩ |
    ⟨task, log, started⟩ | ⟨r, e, task, log, cause⟩ | ⟨task | ⟨r, task⟩, log, started, done⟩
  · rw [Machine.resume_of_created s.machine task]
    split
    · next hmust => exact ⟨.gone _ rfl log (h.mustCancel hmust), h.all, h.mustCancel⟩
    · exact (leads_call h.all log).inv h.all h.mustCancel
  · exact hsame (Machine.resume_of_finished s.machine task)
  · cases hpending : s.machine.futures (.start own) with
    | none => exact hsame (Machine.resume_of_pending s.machine task hpending)
    | some r =>
      exact h.resume_done task hpending fun s' hlog _ hall r hr =>
        leads_started hall (hlog.trans log) hr
  · cases hpending : s.machine.futures .all with
    | none => exact hsame (Machine.resume_of_pending s.machine task hpending)
    | some r =>
      exact h.resume_done task hpending fun s' hlog hfutures hall r hr =>
        leads_waited hall (hlog.trans log) (hfutures ▸ started) hr
  · exact hsame (Machine.resume_of_finished s.machine task)
  · cases hpending : s.machine.futures .termination with
    | none => exact hsame (Machine.resume_of_pending s.machine task hpending)
    | some r =>
      refine h.resume_done task hpending fun s' hlog hfutures hall r hr => ?_
      obtain ⟨r', hr'⟩ := afterTermination_eq r
      rw [hr']
      exact ⟨.entered (.inr ⟨r', rfl⟩) (hlog.trans log) (hfutures ▸ started) (hfutures ▸ done),
        rfl, rfl⟩
  · exact hsame (Machine.resume_of_finished s.machine task)

/-- A future is completed from outside. -/
theorem Inv.complete (h : Inv own names s) {future : Future} {r : Result Error Unit}
    (hdone : future = .all →
      r = .ok () ∧ ∀ name ∈ names, (s.machine.futures (.start name)).isSome) :
    Inv own names { s with machine := s.machine.complete future r } := by
  have hgrows := grows_complete s future r
  refine ⟨h.stage.grows hgrows, fun r' hr' => ?_, fun hm => ?_⟩
  · change (s.machine.complete future r).futures .all = some r' at hr'
    rw [Machine.complete_futures] at hr'
    split at hr'
    · next heq =>
      cases hr'
      obtain ⟨hok, hall⟩ := hdone heq.1.symm
      exact .inl ⟨hok, hgrows.done hall⟩
    · exact (h.all r' hr').imp (fun hok => ⟨hok.1, hgrows.done hok.2⟩) id
  · exact h.mustCancel ((s.machine.complete_mustCancel future r).symm.trans hm)

theorem Inv.cancel (h : Inv own names s) :
    Inv own names { machine := s.machine.cancel, cancelled := true } := by
  have hgrows := grows_cancel s
  refine ⟨h.stage.grows hgrows, fun r hr => ?_, fun _ => rfl⟩
  change s.machine.cancel.futures .all = some r at hr
  rcases s.machine.cancel_futures .all with heq | ⟨-, hcancelled⟩
  · refine (h.all r (heq.symm.trans hr)).imp (fun hok => ⟨hok.1, hgrows.done hok.2⟩) fun hc => ?_
    exact ⟨hc.1, rfl⟩
  · cases hcancelled.symm.trans hr
    exact .inr ⟨rfl, rfl⟩

theorem Inv.step (h : Inv own names s) {a : Action} (ha : s.Enabled names a) :
    Inv own names (s.step a) := by
  cases a with
  | startEnds | terminates => exact h.complete nofun
  | waitReturns => exact h.complete fun _ => ⟨rfl, ha⟩
  | resume => exact h.resume
  | cancel => exact h.cancel

theorem inv_of_reached (h : Reached own names s) : Inv own names s := by
  refine Reachable.invariant (Inv own names) ?_ (fun _ _ hs ha => hs.step ha) h
  exact ⟨.created rfl rfl, fun _ hr => (by cases hr), fun hm => (by cases hm)⟩

/-! ### The end of `wait` -/

theorem ends_afterWait (r : Result Error Unit) (m : Machine Future Entry Error Unit) :
    ∃ r', .waitEnds r' ∈ (Machine.run (afterWait r) m).log := by
  cases r with
  | ok =>
    obtain ⟨task, -, hrun⟩ := run_afterWait_ok m
    exact ⟨.ok (), by rw [hrun]; simp⟩
  | error e =>
    obtain ⟨r, hr⟩ := afterWait_error e
    refine ⟨.error e, ?_⟩
    rw [hr]
    exact List.mem_append_right _ (List.mem_singleton.mpr rfl)

theorem ends_waited (r : Result Error Unit) (m : Machine Future Entry Error Unit) :
    ∃ r', .waitEnds r' ∈
      (Machine.run ((onReturn (checkDone names) r).andThen afterWait) m).log := by
  cases r with
  | ok =>
    rw [onReturn, run_checkDone]
    exact ends_afterWait _ m
  | error e => exact ends_afterWait (.error e) m

theorem ends_started (hall : (m.futures .all).isSome) (r : Result Error Unit) :
    ∃ r', .waitEnds r' ∈
      (Machine.run ((onReturn (waitAll names) r).andThen afterWait) m).log := by
  cases r with
  | ok =>
    obtain ⟨r, hr⟩ := Option.isSome_iff_exists.mp hall
    rw [onReturn, waitAll_andThen, Machine.run_await_done m hr]
    exact ends_waited r m
  | error e => exact ends_afterWait (.error e) m

theorem ends_call (hall : (m.futures .all).isSome) (hown : (m.futures (.start own)).isSome) :
    ∃ r', .waitEnds r' ∈ (Machine.run (call own names) m).log := by
  obtain ⟨r, hr⟩ := Option.isSome_iff_exists.mp hown
  rw [call_eq, Machine.run_await_done m hr]
  exact ends_started hall r

/-- When what `wait` waits for has ended, it ends at the next turn. -/
theorem Inv.wait_ends (h : Inv own names s) (hall : (s.machine.futures .all).isSome)
    (hown : (s.machine.futures (.start own)).isSome) (hcancelled : s.cancelled = false) :
    ∃ r, .waitEnds r ∈ s.machine.resume.log := by
  have hmust : ¬ s.machine.mustCancel = true := fun hm =>
    Bool.false_ne_true (hcancelled.symm.trans (h.mustCancel hm))
  have hsame {r : Result Error Unit} {rest : List Entry}
      (hlog : s.machine.log = .waitEnds r :: rest) (heq : s.machine.resume = s.machine) :
      ∃ r, .waitEnds r ∈ s.machine.resume.log :=
    ⟨r, by rw [heq, hlog]; exact List.mem_cons_self⟩
  rcases h.stage with ⟨task, log⟩ | ⟨r, task, log, cause⟩ | ⟨task, log⟩ | ⟨task, log, started⟩ |
    ⟨r, e, task, log, cause⟩ | ⟨task | ⟨r, task⟩, log, started, done⟩
  · rw [Machine.resume_of_created s.machine task, if_neg hmust]
    exact ends_call hall hown
  · exact absurd (hcancelled.symm.trans cause) Bool.false_ne_true
  · obtain ⟨r, hr⟩ := Option.isSome_iff_exists.mp hown
    rw [Machine.resume_of_done s.machine task hr, if_neg hmust]
    exact ends_started (m := { s.machine with mustCancel := false }) hall r
  · obtain ⟨r, hr⟩ := Option.isSome_iff_exists.mp hall
    rw [Machine.resume_of_done s.machine task hr]
    exact ends_waited _ _
  · exact hsame log (Machine.resume_of_finished s.machine task)
  · cases hpending : s.machine.futures .termination with
    | none => exact hsame log (Machine.resume_of_pending s.machine task hpending)
    | some r =>
      obtain ⟨r', hr'⟩ := afterTermination_eq r
      refine ⟨.ok (), ?_⟩
      rw [Machine.resume_of_done s.machine task hpending, if_neg hmust, hr', Machine.run]
      exact log ▸ List.mem_cons_self
  · exact hsame log (Machine.resume_of_finished s.machine task)

/-- All start tasks have ended: `asyncio.wait` returns, and `wait` ends. -/
theorem Inv.peers_end (h : Inv own names s) (hown : own ∈ names)
    (hdone : ∀ name ∈ names, (s.machine.futures (.start name)).isSome)
    (hcancelled : s.cancelled = false) :
    ∃ r, .waitEnds r ∈ ((s.step .waitReturns).step .resume).machine.log := by
  refine (h.step (a := .waitReturns) hdone).wait_ends ?_
    ((grows_complete s .all (.ok ())).done hdone own hown) hcancelled
  rw [Starts.step, Machine.complete_futures]
  split
  · rfl
  · next hsome => exact Option.isSome_iff_ne_none.mpr fun hnone => hsome ⟨rfl, hnone⟩

/-! ## §4 The result -/

/-- Where `loop` has been entered, a start task that has not raised has
returned. -/
theorem returned_of_not_fails {name : String} (hdone : (s.machine.futures (.start name)).isSome)
    (hfails : ∀ e, ¬ s.Fails name e) : s.machine.futures (.start name) = some (.ok ()) := by
  obtain ⟨r, hr⟩ := Option.isSome_iff_exists.mp hdone
  cases r with
  | ok => exact hr
  | error e => exact absurd hr (hfails e)

theorem Stage.healthy (h : Stage own names s) (hown : OwnFails own names s) :
    Healthy own names s := by
  have hempty (hlog : s.machine.log = []) : Healthy own names s := by
    constructor
    · rw [hlog]
      exact fun hentered => absurd hentered List.not_mem_nil
    · rw [hlog]
      exact fun r hends => absurd hends List.not_mem_nil
  cases h with
  | created _ log | gone _ _ log _ | starting _ log | waiting _ log => exact hempty log
  | failed r e task log cause =>
    constructor
    · rw [log]
      intro hentered
      cases List.mem_singleton.mp hentered
    · rw [log]
      intro r hends _
      cases List.mem_singleton.mp hends
      rcases cause with hfails | ⟨rfl, hcancelled⟩
      · exact .inr (.inl ⟨e, hfails, rfl⟩)
      · exact .inr (.inr ⟨rfl, hcancelled⟩)
  | entered task log started done =>
    have hnone : ∀ name ∈ names, ∀ e, ¬ s.Fails name e := by
      refine hown.resolve_left ?_
      rintro ⟨e, hfails⟩
      cases started.symm.trans hfails
    refine ⟨fun _ name hname => returned_of_not_fails (done name hname) (hnone name hname), ?_⟩
    rintro r - ⟨name, hname, e, hfails⟩
    exact absurd hfails (hnone name hname e)

/-- In every run, whatever start tasks fail: if its own start task is among
them or none is, the `GRPCCoroutine` waits for healthy peers; and once `wait`
has ended and has not been cancelled, only then. And it does end, when the
start tasks have. -/
theorem healthy_iff (h : Reached own names s) :
    (OwnFails own names s → Healthy own names s) ∧
      ((∃ r, .waitEnds r ∈ s.machine.log) → s.cancelled = false →
        (Healthy own names s ↔ OwnFails own names s)) ∧
      (own ∈ names → (∀ name ∈ names, (s.machine.futures (.start name)).isSome) →
        s.cancelled = false → s.Enabled names .waitReturns ∧
          ∃ r, .waitEnds r ∈ ((s.step .waitReturns).step .resume).machine.log) := by
  have hinv := inv_of_reached h
  have hstage := hinv.stage
  refine ⟨hstage.healthy, fun ⟨r, hends⟩ hcancelled => ⟨fun hhealthy => ?_, hstage.healthy⟩,
    fun hown hdone hcancelled => ⟨hdone, hinv.peers_end hown hdone hcancelled⟩⟩
  cases hstage with
  | created _ log | gone _ _ log _ | starting _ log | waiting _ log =>
    rw [log] at hends
    cases hends
  | failed r e task log cause =>
    refine .inl ⟨e, cause.resolve_right fun hc => ?_⟩
    rw [hcancelled] at hc
    cases hc.2
  | entered task log started done =>
    refine .inr fun name hname e hfails => ?_
    have hentered : Entry.loopEntered ∈ s.machine.log := by
      rw [log]
      exact .tail _ (.head _)
    cases (hhealthy.loop hentered name hname).symm.trans hfails

/-- The start tasks of two coroutines. -/
def peers : List String := ["GRPCCoroutine", "MQTTCoroutine"]

/-- The start task of the other coroutine ends with `r`, and its own one
returns. -/
def peerEnds (r : Result Error Unit) : List Action :=
  [.resume, .startEnds "MQTTCoroutine" r, .startEnds "GRPCCoroutine" (.ok ()), .waitReturns,
    .resume]

theorem peerEnds_reached (r : Result Error Unit) :
    Reached "GRPCCoroutine" peers ((peerEnds r).foldl step (init "GRPCCoroutine" peers)) := by
  refine reachable_of_permitted .init (peerEnds r)
    ⟨trivial, .tail _ (.head _), .head _, fun name hname => ?_, trivial, trivial⟩
  rcases List.mem_cons.mp hname with rfl | hname
  · rfl
  · cases List.mem_singleton.mp hname
    rfl

/-- The start task of the other coroutine returns, or raises. -/
theorem healthy_iff_peers :
    Healthy "GRPCCoroutine" peers
      ((peerEnds (.ok ())).foldl step (init "GRPCCoroutine" peers)) ∧
    ¬ Healthy "GRPCCoroutine" peers
      ((peerEnds (.error (.error (.other 0)))).foldl step (init "GRPCCoroutine" peers)) := by
  refine ⟨(healthy_iff (peerEnds_reached (.ok ()))).1 (.inr fun name hname e => ?_), fun h => ?_⟩
  · rcases List.mem_cons.mp hname with rfl | hname
    · nofun
    · cases List.mem_singleton.mp hname
      nofun
  · rcases ((healthy_iff (peerEnds_reached _)).2.1 ⟨.ok (), .head _⟩ rfl).mp h with
      ⟨e, hfails⟩ | hnone
    · cases hfails
    · exact hnone "MQTTCoroutine" (.tail _ (.head _)) _ rfl

/-- The start task of the other coroutine raises: `wait` returns, and `loop`
is entered. -/
theorem failed_peer_ignored :
    ((peerEnds (.error (.error (.other 0)))).foldl step (init "GRPCCoroutine" peers)).machine.log =
      [.waitEnds (.ok ()), .loopEntered] ∧
    ¬ ∀ (own : String) (names : List String) (s : Starts), Reached own names s →
      Healthy own names s := by
  refine ⟨rfl, fun h => ?_⟩
  have hreturned := (h "GRPCCoroutine" peers _ (peerEnds_reached (.error (.error (.other 0))))).loop
    (.tail _ (.head _)) "MQTTCoroutine" (.tail _ (.head _))
  cases hreturned

end Iams.Aio.Starts
