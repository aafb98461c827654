/-
Iams.Aio.ZeebeTheorems — when the job bookkeeping is right.

`callback` removes a job only if the task it awaits returns. So a job
whose task has raised or was cancelled stays in `_jobs` and `_watch` for
good, and so does, until its callback is woken up, one whose task has
returned. `bookkeeping_iff` says that these are the only reasons for which
`_jobs` and `_watch` are ever wrong.

§1 the callback, §2 the invariant, §3 the result.

No `sorry`, no `axiom`, no `native_decide`.
-/
import Iams.Aio.Zeebe
import Iams.Lib.Table

namespace Iams.Aio

open Iams.Lib Iams.Lib.Procedure Zeebe

/-- The callback has removed the job of this task. -/
def Zeebe.JobTask.cleaned {κ : Type} (t : JobTask κ) : Bool :=
  t.ended = some .returned && !t.awaited

namespace ZeebeCoroutine

variable {κ : Type} [DecidableEq κ] {s : ZeebeCoroutine κ} {key : κ}

/-! ## §1 The callback -/

theorem exec_item_of_some {d : ZeebeCoroutine κ → Dict κ Nat} {i : Nat}
    (h : (d s).get? key = some i) : exec (item d key) s = (.ok i, s) := by
  rw [item, exec_bind_of_ok (exec_get s), h, exec_pure]

/-- The watchdog of a job is started anew. -/
def rearm (s : ZeebeCoroutine κ) (key : κ) (task timer : Nat) : ZeebeCoroutine κ :=
  { s with
    watch := s.watch.set key s.timers.length
    timers := (s.timers.modify timer fun t => { t with live := false }) ++ [{ task := task }] }

/-- A job is started. -/
def start (s : ZeebeCoroutine κ) (key : κ) : ZeebeCoroutine κ where
  jobs := s.jobs.set key s.tasks.length
  watch := s.watch.set key s.timers.length
  tasks := s.tasks ++ [{ key := key }]
  timers := s.timers ++ [{ task := s.tasks.length }]

theorem exec_callback_of_running {task timer : Nat} (hjob : s.jobs.get? key = some task)
    (hwatch : s.watch.get? key = some timer) :
    exec (callback key) s = (.error .jobAlreadyRunning, s.rearm key task timer) := by
  rw [callback, exec_bind_of_ok (exec_get s), if_pos (by rw [hjob]; rfl),
    exec_bind_of_ok (exec_item_of_some hwatch)]
  simp [exec_bind, cancelTimer, callLater, hjob, item, rearm]

theorem exec_callback_of_none (hjob : s.jobs.get? key = none) :
    exec (callback key) s = (.ok s.tasks.length, s.start key) := by
  rw [callback, exec_bind_of_ok (exec_get s), if_neg (by rw [hjob]; simp)]
  simp [exec_bind, createTask, callLater, item, start]

theorem exec_cleanup {task timer : Nat} (hjob : s.jobs.get? key = some task)
    (hwatch : s.watch.get? key = some timer) :
    exec (cleanup key) s = (.ok (), { s with
      jobs := s.jobs.erase key
      watch := s.watch.erase key
      timers := s.timers.modify timer fun t => { t with live := false } }) := by
  rw [cleanup, exec_bind_of_ok (exec_item_of_some hwatch)]
  simp [exec_bind, cancelTimer, item, hjob, hwatch]

/-! ## §2 The invariant -/

/-- A job stands for the last task of its key, from its start until the
callback has removed it. -/
structure Inv (s : ZeebeCoroutine κ) : Prop where
  held : ∀ (i : Nat) t, s.tasks[i]? = some t → (s.jobs.get? t.key = some i ↔ t.cleaned = false)
  task : ∀ key i, s.jobs.get? key = some i → ∃ t, s.tasks[i]? = some t ∧ t.key = key
  watched : ∀ key, (s.watch.get? key).isSome = (s.jobs.get? key).isSome
  awaited : ∀ (i : Nat) t, s.tasks[i]? = some t → t.awaited = false → t.ended.isSome

/-- A change of one task that neither cleans up nor spoils it. -/
theorem Inv.modify (h : Inv s) {i : Nat} {f : JobTask κ → JobTask κ} (timers : List Timer)
    (hf : ∀ t, s.tasks[i]? = some t → (f t).key = t.key ∧ (f t).cleaned = t.cleaned ∧
      ((f t).awaited = false → (f t).ended.isSome)) :
    Inv { s with tasks := s.tasks.modify i f, timers := timers } := by
  refine ⟨fun j t ht => ?_, fun key j hj => ?_, h.watched, fun j t ht hawaited => ?_⟩
  · obtain ⟨u, hu, ⟨rfl, rfl⟩ | ⟨-, rfl⟩⟩ := getElem?_modify_cases ht
    · obtain ⟨hkey, hcleaned, -⟩ := hf u hu
      rw [hkey, hcleaned]
      exact h.held i u hu
    · exact h.held j t hu
  · obtain ⟨t, ht, hkey⟩ := h.task key j hj
    by_cases hij : i = j
    · subst hij
      exact ⟨f t, by rw [List.getElem?_modify, ht]; simp, (hf t ht).1.trans hkey⟩
    · exact ⟨t, by rw [List.getElem?_modify, ht]; simp [hij], hkey⟩
  · obtain ⟨u, hu, ⟨rfl, rfl⟩ | ⟨-, rfl⟩⟩ := getElem?_modify_cases ht
    · exact (hf u hu).2.2 hawaited
    · exact h.awaited j t hu hawaited

theorem Inv.init : Inv (init : ZeebeCoroutine κ) := by
  refine ⟨fun i t ht => ?_, fun key i hi => ?_, fun key => rfl, fun i t ht => ?_⟩
  · cases ht
  · cases hi
  · cases ht

/-- A delivery of a job that is not there. -/
theorem Inv.start (h : Inv s) (hjob : s.jobs.get? key = none) : Inv (s.start key) := by
  refine ⟨fun i t ht => ?_, fun k i hi => ?_, fun k => ?_, fun i t ht hawaited => ?_⟩
  · rcases getElem?_concat_cases ht with ht | ⟨rfl, rfl⟩
    · have hheld := h.held i t ht
      by_cases hk : t.key = key
      · -- it was started and removed before
        rw [hk, hjob] at hheld
        have hi : i < s.tasks.length := (List.getElem?_eq_some_iff.mp ht).1
        rw [ZeebeCoroutine.start, hk, Dict.get?_set_self, ← hheld]
        simp [Nat.ne_of_gt hi]
      · rwa [ZeebeCoroutine.start, Dict.get?_set_of_ne _ _ hk]
    · simp [ZeebeCoroutine.start, JobTask.cleaned]
  · by_cases hk : k = key
    · subst hk
      rw [ZeebeCoroutine.start, Dict.get?_set_self] at hi
      cases hi
      exact ⟨{ key := k }, List.getElem?_concat_length, rfl⟩
    · rw [ZeebeCoroutine.start, Dict.get?_set_of_ne _ _ hk] at hi
      obtain ⟨t, ht, hkey⟩ := h.task k i hi
      exact ⟨t, List.getElem?_append_left (List.getElem?_eq_some_iff.mp ht).1 ▸ ht, hkey⟩
  · by_cases hk : k = key
    · subst hk
      rw [ZeebeCoroutine.start, Dict.get?_set_self, Dict.get?_set_self]
      rfl
    · rw [ZeebeCoroutine.start, Dict.get?_set_of_ne _ _ hk, Dict.get?_set_of_ne _ _ hk]
      exact h.watched k
  · rcases getElem?_concat_cases ht with ht | ⟨rfl, rfl⟩
    · exact h.awaited i t ht hawaited
    · cases hawaited

/-- A delivery of one that is. -/
theorem Inv.rearm (h : Inv s) {task : Nat} (hjob : s.jobs.get? key = some task) (timer : Nat) :
    Inv (s.rearm key task timer) := by
  refine ⟨h.held, h.task, fun k => ?_, h.awaited⟩
  by_cases hk : k = key
  · subst hk
    rw [ZeebeCoroutine.rearm, Dict.get?_set_self, hjob]
    rfl
  · rw [ZeebeCoroutine.rearm, Dict.get?_set_of_ne _ _ hk]
    exact h.watched k

/-- The wake-up of a callback whose task has returned. -/
theorem Inv.wakeUp_of_returned (h : Inv s) {i : Nat} {t : JobTask κ} (ht : s.tasks[i]? = some t)
    (hended : t.ended = some .returned) (hawaited : t.awaited = true) : Inv (s.wakeUp i) := by
  have hjob : s.jobs.get? t.key = some i :=
    (h.held i t ht).mpr (by simp [JobTask.cleaned, hawaited])
  obtain ⟨timer, htimer⟩ : ∃ timer, s.watch.get? t.key = some timer :=
    Option.isSome_iff_exists.mp (by rw [h.watched, hjob]; rfl)
  have hwake : s.wakeUp i = { s with
      jobs := s.jobs.erase t.key
      watch := s.watch.erase t.key
      tasks := s.tasks.modify i fun t => { t with awaited := false }
      timers := s.timers.modify timer fun t => { t with live := false } } := by
    rw [wakeUp, ht]
    dsimp only
    rw [hended]
    exact congrArg Prod.snd (exec_cleanup (s := { s with tasks := s.tasks.modify i fun t =>
      { t with awaited := false } }) hjob htimer)
  rw [hwake]
  refine ⟨fun j u hu => ?_, fun k j hj => ?_, fun k => ?_, fun j u hu hfalse => ?_⟩
  · obtain ⟨v, hv, ⟨rfl, rfl⟩ | ⟨hij, rfl⟩⟩ := getElem?_modify_cases hu
    · cases ht.symm.trans hv
      simp [JobTask.cleaned, hended]
    · have hheld := h.held j u hv
      by_cases hk : u.key = t.key
      · -- the key was this task's, so the other one is removed already
        rw [hk, hjob] at hheld
        rw [hk, Dict.get?_erase_self, ← hheld]
        simp [hij]
      · rwa [Dict.get?_erase_of_ne _ hk]
  · have hk : k ≠ t.key := by
      rintro rfl
      rw [Dict.get?_erase_self] at hj
      cases hj
    rw [Dict.get?_erase_of_ne _ hk] at hj
    obtain ⟨u, hu, hkey⟩ := h.task k j hj
    have hij : i ≠ j := by
      rintro rfl
      cases ht.symm.trans hu
      exact hk hkey.symm
    exact ⟨u, by rw [List.getElem?_modify, hu]; simp [hij], hkey⟩
  · by_cases hk : k = t.key
    · rw [hk, Dict.get?_erase_self, Dict.get?_erase_self]
    · rw [Dict.get?_erase_of_ne _ hk, Dict.get?_erase_of_ne _ hk]
      exact h.watched k
  · obtain ⟨v, hv, ⟨rfl, rfl⟩ | ⟨-, rfl⟩⟩ := getElem?_modify_cases hu
    · cases ht.symm.trans hv
      rw [hended]
      rfl
    · exact h.awaited j u hv hfalse

theorem Inv.step (h : Inv s) {a : Action κ} (ha : s.Enabled a) : Inv (s.step a) := by
  cases a with
  | deliver key =>
    rcases hjob : s.jobs.get? key with _ | task
    · rw [ZeebeCoroutine.step, exec_callback_of_none hjob]
      exact h.start hjob
    · obtain ⟨timer, htimer⟩ : ∃ timer, s.watch.get? key = some timer :=
        Option.isSome_iff_exists.mp (by rw [h.watched, hjob]; rfl)
      rw [ZeebeCoroutine.step, exec_callback_of_running hjob htimer]
      exact h.rearm hjob timer
  | finish task how =>
    obtain ⟨t, ht, hended, -⟩ := ha
    refine h.modify s.timers fun u hu => ⟨rfl, ?_, fun _ => rfl⟩
    cases ht.symm.trans hu
    have hawaited : t.awaited = true := by
      by_contra hfalse
      have hsome := h.awaited task t ht (by simpa using hfalse)
      rw [hended] at hsome
      cases hsome
    simp [JobTask.cleaned, hawaited]
  | fire timer =>
    obtain ⟨t, ht, -⟩ := ha
    rw [ZeebeCoroutine.step, ht]
    exact h.modify _ fun u hu => ⟨rfl, rfl, h.awaited _ u hu⟩
  | resume task =>
    obtain ⟨t, ht, hended, hawaited⟩ := ha
    obtain ⟨how, hhow⟩ := Option.isSome_iff_exists.mp hended
    by_cases hreturned : how = .returned
    · subst hreturned
      exact h.wakeUp_of_returned ht hhow hawaited
    · -- the exception leaves `callback` before the cleanup
      have hwake : s.wakeUp task =
          { s with tasks := s.tasks.modify task fun t => { t with awaited := false } } := by
        rw [wakeUp, ht]
        dsimp only
        rw [hhow]
        cases how with
        | returned => exact absurd rfl hreturned
        | raised | cancelled => rfl
      rw [ZeebeCoroutine.step, hwake]
      refine h.modify s.timers fun u hu => ?_
      cases ht.symm.trans hu
      exact ⟨rfl, by simp [JobTask.cleaned, hhow, hreturned], fun _ => hended⟩

theorem inv_of_reached (h : Reached s) : Inv s :=
  Reachable.invariant Inv .init (fun _ _ hs ha => hs.step ha) h

/-! ## §3 The bookkeeping -/

/-- At most one task for each job, which `_jobs` and `_watch` have as long
as it runs; a job without one is started when it is delivered. -/
structure Bookkeeping (s : ZeebeCoroutine κ) : Prop where
  single : ∀ (i j : Nat) t u, s.tasks[i]? = some t → s.tasks[j]? = some u → t.key = u.key →
    t.ended = none → u.ended = none → i = j
  jobs : ∀ key i, s.jobs.get? key = some i ↔
    ∃ t, s.tasks[i]? = some t ∧ t.key = key ∧ t.ended = none
  watch : ∀ key, (s.watch.get? key).isSome ↔ ∃ t ∈ s.tasks, t.key = key ∧ t.ended = none
  restart : ∀ key, (∀ t ∈ s.tasks, t.key = key → t.ended.isSome) →
    (exec (callback key) s).1 = .ok s.tasks.length ∧
      (s.step (.deliver key)).tasks = s.tasks ++ [{ key := key }]

section Returned

variable (hreturned : ∀ t ∈ s.tasks, t.ended.isSome → t.ended = some .returned ∧ t.awaited = false)

include hreturned

/-- A job stands for a task that runs. -/
theorem Inv.running_iff (h : Inv s) {i : Nat} {t : JobTask κ} (ht : s.tasks[i]? = some t) :
    s.jobs.get? t.key = some i ↔ t.ended = none := by
  rw [h.held i t ht]
  rcases hended : t.ended with _ | how
  · simp [JobTask.cleaned, hended]
  · obtain ⟨hhow, hawaited⟩ := hreturned t (List.mem_of_getElem? ht) (by rw [hended]; rfl)
    simp [JobTask.cleaned, hhow, hawaited]

theorem Inv.jobs_iff (h : Inv s) (key : κ) (i : Nat) : s.jobs.get? key = some i ↔
    ∃ t, s.tasks[i]? = some t ∧ t.key = key ∧ t.ended = none := by
  constructor
  · intro hjob
    obtain ⟨t, ht, rfl⟩ := h.task key i hjob
    exact ⟨t, ht, rfl, (h.running_iff hreturned ht).mp hjob⟩
  · rintro ⟨t, ht, rfl, hnone⟩
    exact (h.running_iff hreturned ht).mpr hnone

theorem Inv.bookkeeping (h : Inv s) : Bookkeeping s := by
  have hjobs := h.jobs_iff hreturned
  refine ⟨fun i j t u ht hu hkey htnone hunone => ?_, hjobs, fun key => ?_, fun key hall => ?_⟩
  · have hi := (h.running_iff hreturned ht).mpr htnone
    rw [hkey, (h.running_iff hreturned hu).mpr hunone] at hi
    exact (Option.some.inj hi).symm
  · rw [h.watched, Option.isSome_iff_exists]
    constructor
    · rintro ⟨i, hi⟩
      obtain ⟨t, ht, hkey, hnone⟩ := (hjobs key i).mp hi
      exact ⟨t, List.mem_of_getElem? ht, hkey, hnone⟩
    · rintro ⟨t, ht, hkey, hnone⟩
      obtain ⟨i, hi⟩ := List.mem_iff_getElem?.mp ht
      exact ⟨i, (hjobs key i).mpr ⟨t, hi, hkey, hnone⟩⟩
  · have hjob : s.jobs.get? key = none := by
      rw [Option.eq_none_iff_forall_ne_some]
      intro i hi
      obtain ⟨t, ht, hkey, hnone⟩ := (hjobs key i).mp hi
      have hsome := hall t (List.mem_of_getElem? ht) hkey
      rw [hnone] at hsome
      cases hsome
    rw [ZeebeCoroutine.step, exec_callback_of_none hjob]
    exact ⟨rfl, rfl⟩

end Returned

/-- In every run, the bookkeeping is right if and only if every task that
has ended has returned and its callback has been woken up. -/
theorem bookkeeping_iff (h : Reached s) :
    Bookkeeping s ↔ ∀ t ∈ s.tasks, t.ended.isSome →
      t.ended = some .returned ∧ t.awaited = false := by
  have hinv := inv_of_reached h
  refine ⟨fun hbook t ht hended => ?_, fun hreturned => hinv.bookkeeping hreturned⟩
  obtain ⟨i, hi⟩ := List.mem_iff_getElem?.mp ht
  by_contra hnot
  -- its job has not been removed
  have hjob : s.jobs.get? t.key = some i :=
    (hinv.held i t hi).mpr (by simpa [JobTask.cleaned] using hnot)
  obtain ⟨u, hu, -, hrunning⟩ := (hbook.jobs t.key i).mp hjob
  cases hi.symm.trans hu
  rw [hrunning] at hended
  cases hended

/-! ## §4 One job -/

/-- A job that returns, and is delivered again. -/
theorem bookkeeping_iff_returned :
    Bookkeeping ([.deliver 1, .finish 0 .returned, .resume 0, .deliver 1].foldl step init :
      ZeebeCoroutine Nat) := by
  have hreached : Reached ([.deliver 1, .finish 0 .returned, .resume 0,
      .deliver 1].foldl step init : ZeebeCoroutine Nat) := reachable_of_permitted .init _
    ⟨trivial, ⟨_, rfl, rfl, nofun⟩, ⟨_, rfl, rfl, rfl⟩, trivial, trivial⟩
  exact (bookkeeping_iff hreached).mpr (by decide)

/-- A job that fails: it is never started again. -/
def failed : ZeebeCoroutine Nat := [.deliver 1, .finish 0 .raised, .resume 0].foldl step init

theorem failed_not_bookkeeping :
    (exec (callback 1) failed).1 = .error .jobAlreadyRunning ∧
    (∀ t ∈ failed.tasks, t.ended = some .raised) ∧
    ¬ ∀ s : ZeebeCoroutine Nat, Reached s → Bookkeeping s := by
  refine ⟨by decide, by decide, fun h => ?_⟩
  have hreached : Reached failed := reachable_of_permitted .init _
    ⟨trivial, ⟨_, rfl, rfl, nofun⟩, ⟨_, rfl, rfl, rfl⟩, trivial⟩
  have hrestart := ((h failed hreached).restart 1 (by decide)).1
  cases hrestart

end ZeebeCoroutine

end Iams.Aio
