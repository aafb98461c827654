/-
Iams.Scheduler.AccountingTheorems — no event of the queue gets lost.

`accounted_of_reached` is about every use of a `SchedulerInterface` that
saves an event at most once and brings none back from DEPARTED or
CANCELED. `Ledger` is the invariant behind it: what was saved is queued, in
the order in which it was saved, or was removed after it had departed or
was canceled. `getEvents_eq` says what a consumed call of `get_events` does
to the queue and to the history; nothing after it looks at the generator
again.

§1 one call, §2 the ledger, §3 the result, §4 `BufferScheduler`.

No `sorry`, no `axiom`, no `native_decide`.
-/
import Iams.Scheduler.Interface
import Iams.Scheduler.Runs

namespace Iams.Scheduler

open Iams.Lib

namespace SchedulerInterface

variable {τ : Type} [Ring τ] [LinearOrder τ] {s : SchedulerInterface τ} {obj : Nat → Event τ}

/-! ## §1 One call of `get_events` -/

omit [Ring τ] [LinearOrder τ] in
/-- Actions that remove different events of the queue remove each of
them. -/
theorem foldl_perform {actions : List Action} (hnodup : (removals actions).Nodup)
    (hmem : ∀ u ∈ removals actions, u ∈ s.events) :
    actions.foldl perform s =
      { s with
        events := (removals actions).foldl List.erase s.events
        removed := s.removed ++ removals actions
        cleaned := s.cleaned ++ removals actions } := by
  induction actions generalizing s with
  | nil => simp [removals]
  | cons action rest ih =>
    cases action with
    | yield u => exact ih hnodup hmem
    | remove u =>
      have hcons : removals (.remove u :: rest) = u :: removals rest := rfl
      rw [hcons] at hnodup hmem ⊢
      obtain ⟨hu, hrest⟩ := List.nodup_cons.mp hnodup
      rw [List.foldl_cons, perform, if_pos (hmem u List.mem_cons_self), ih hrest]
      · simp
      · -- the others are still there
        intro v hv
        have hne : v ≠ u := fun h => hu (h ▸ hv)
        exact (List.mem_erase_of_ne hne).mpr (hmem v (List.mem_cons_of_mem u hv))

/-- A consumed call leaves what `collect` leaves, and removes and cleans up
the rest. -/
theorem getEvents_eq (hnodup : s.events.Nodup) (new : List Nat) :
    s.getEvents new =
      { s with
        events := collect s.obj s.events
        removed := s.removed ++ removals (s.actions new)
        cleaned := s.cleaned ++ removals (s.actions new) } := by
  have hremovals := removals_getEvents s.obj s.events new
  rw [getEvents, foldl_perform]
  · rw [actions, foldl_erase_removals]
  · rw [actions, hremovals]
    exact hnodup.filter _
  · intro u hu
    rw [actions, hremovals] at hu
    exact List.mem_of_mem_filter hu

/-- Only departed and canceled events are removed. -/
theorem gone_of_removals {new : List Nat} {u : Nat} (h : u ∈ removals (s.actions new)) :
    (s.obj u).state.gone = true := by
  rw [actions, removals_getEvents] at h
  have hdrop := (List.mem_filter.mp h).2
  cases hgone : (s.obj u).state.gone with
  | true => rfl
  | false => simp [hgone] at hdrop

/-- What a call leaves and what it removes is what was there. -/
theorem collect_append_removals (s : SchedulerInterface τ) (new : List Nat) :
    (collect s.obj s.events ++ removals (s.actions new)).Perm s.events := by
  rw [actions, removals_getEvents, collect]
  exact List.filter_append_perm _ _

/-! ## §2 The ledger -/

/-- The invariant of a scheduler's queue. -/
structure Ledger (s : SchedulerInterface τ) : Prop where
  all : s.saved.Perm (s.events ++ s.removed)
  order : s.events.Sublist s.saved
  once : s.saved.Nodup
  created : ∀ u ∈ s.saved, u < s.counter
  gone : ∀ u ∈ s.removed, (s.obj u).state.gone = true
  cleaned : s.cleaned = s.removed

omit [Ring τ] [LinearOrder τ] in
theorem ledger_init (obj : Nat → Event τ) : (init obj).Ledger where
  all := .refl _
  order := .refl _
  once := List.nodup_nil
  created _ h := absurd h List.not_mem_nil
  gone _ h := absurd h List.not_mem_nil
  cleaned := rfl

omit [Ring τ] [LinearOrder τ] in
/-- A new event does not have the number of a saved one. -/
theorem Ledger.create (h : s.Ledger) (e : Event τ) : (s.create e).Ledger where
  all := h.all
  order := h.order
  once := h.once
  created u hu := Nat.lt_succ_of_lt (h.created u hu)
  gone u hu := by
    have hlt := h.created u (h.all.mem_iff.mpr (List.mem_append_right _ hu))
    have hsame : (s.create e).obj u = s.obj u := Function.update_of_ne (Nat.ne_of_lt hlt) _ _
    rw [hsame]
    exact h.gone u hu
  cleaned := h.cleaned

omit [Ring τ] [LinearOrder τ] in
theorem Ledger.assign (h : s.Ledger)
    (hobj : ∀ u, (s.obj u).state.gone = true → (obj u).state.gone = true) :
    Ledger { s with obj := obj } where
  all := h.all
  order := h.order
  once := h.once
  created := h.created
  gone u hu := hobj u (h.gone u hu)
  cleaned := h.cleaned

theorem Ledger.getEvents (h : s.Ledger) (new : List Nat) : (s.getEvents new).Ledger := by
  have hsub : (collect s.obj s.events).Sublist s.events := List.filter_sublist
  rw [getEvents_eq (h.once.sublist h.order)]
  refine ⟨?_, hsub.trans h.order, h.once, h.created, fun u hu => ?_, by rw [h.cleaned]⟩
  · have hperm := (s.collect_append_removals new).symm.append_right s.removed
    calc s.saved
        _ |>.Perm (s.events ++ s.removed) := h.all
        _ |>.Perm (collect s.obj s.events ++ removals (s.actions new) ++ s.removed) := hperm
        _ |>.Perm (collect s.obj s.events ++ (s.removed ++ removals (s.actions new))) := by
          rw [List.append_assoc]
          exact List.perm_append_comm.append_left _
  · rcases List.mem_append.mp hu with hu | hu
    · exact h.gone u hu
    · exact gone_of_removals (s := s) hu

omit [Ring τ] [LinearOrder τ] in
theorem Ledger.save (h : s.Ledger) {added : Added} (hallowed : s.Allowed (.save added)) :
    (s.save added).2.Ledger := by
  cases added with
  | event u =>
    obtain ⟨⟨-, hlt⟩, hnew⟩ := hallowed
    refine ⟨?_, h.order.append (.refl [u]), ?_, fun v hv => ?_, h.gone, h.cleaned⟩
    · have hperm := (h.all.append_right [u])
      rw [List.append_assoc] at hperm
      refine hperm.trans ?_
      rw [SchedulerInterface.save, List.append_assoc]
      exact List.perm_append_comm.append_left _
    · have hsaved : (s.saved ++ [u]).Nodup := by
        rw [← List.concat_eq_append]
        exact h.once.concat hnew
      exact hsaved
    · rcases List.mem_append.mp hv with hv | hv
      · exact h.created v hv
      · rw [List.mem_singleton.mp hv]
        exact hlt
  | canNotSchedule => exact h
  | other => exact h
  | raised err => exact h

theorem ledger_of_reached (h : s.Reached obj) : s.Ledger := by
  refine h.invariant Ledger (ledger_init obj) fun s op hs hallowed => ?_
  cases op with
  | create e => exact hs.create e
  | assign obj' => exact hs.assign hallowed
  | getEvents new => exact hs.getEvents new
  | save added => exact hs.save hallowed

omit [Ring τ] [LinearOrder τ] in
/-- An event of the queue has not been removed. -/
theorem Ledger.not_removed (h : s.Ledger) {u : Nat} (hu : u ∈ s.removed) : u ∉ s.events := by
  have hnodup := h.all.nodup_iff.mp h.once
  exact fun hevents => (List.nodup_append.mp hnodup).2.2 u hevents u hu rfl

omit [Ring τ] [LinearOrder τ] in
/-- The live events of the queue are the live saved events. -/
theorem Ledger.live_eq (h : s.Ledger) : live s.obj s.events = live s.obj s.saved := by
  have hremoved : live s.obj s.removed = [] :=
    List.filter_eq_nil_iff.mpr fun u hu => by simp [h.gone u hu]
  have hperm : (live s.obj s.saved).Perm (live s.obj s.events ++ live s.obj s.removed) := by
    rw [live, live, live, ← List.filter_append]
    exact h.all.filter _
  rw [hremoved, List.append_nil] at hperm
  exact (h.order.filter _).eq_of_length hperm.length_eq.symm

/-! ## §3 The account -/

/-- Every saved event that is neither departed nor canceled is queued, and
a call of `get_events` yields it exactly once: first the live events in the
order in which they were saved, then the departed ones that are retained,
then what the caller hands in. Only departed and canceled events have been
removed, each once and with one `cleanup`, and they are not yielded
again. -/
structure Accounted (s : SchedulerInterface τ) : Prop where
  queued : ∀ u ∈ s.saved, (s.obj u).state.gone = false → u ∈ s.events
  yielded : ∀ new, yields (s.actions new) =
    live s.obj s.saved ++ kept s.obj s.events ++ new
  once : (live s.obj s.saved ++ kept s.obj s.events).Nodup
  nothingElse : s.saved.Perm (s.events ++ s.removed)
  removedOnce : s.removed.Nodup
  cleanedUp : s.cleaned = s.removed
  onlyGone : ∀ u ∈ s.removed, (s.obj u).state.gone = true
  neverAgain : ∀ u ∈ s.removed, u ∉ live s.obj s.saved ++ kept s.obj s.events

theorem Ledger.accounted (h : s.Ledger) : s.Accounted := by
  have hevents : s.events.Nodup := h.once.sublist h.order
  have hmem {u : Nat} (hu : u ∈ live s.obj s.saved ++ kept s.obj s.events) : u ∈ s.events := by
    rw [← h.live_eq] at hu
    exact List.mem_of_mem_filter ((mem_collect s.obj).mpr (List.mem_append.mp hu))
  refine ⟨fun u hu hlive => ?_, fun new => ?_, ?_, h.all, ?_, h.cleaned, h.gone,
    fun u hu hyielded => h.not_removed hu (hmem hyielded)⟩
  · rcases List.mem_append.mp (h.all.mem_iff.mp hu) with hu | hu
    · exact hu
    · rw [h.gone u hu] at hlive
      cases hlive
  · rw [actions, yields_getEvents, h.live_eq]
  · rw [← h.live_eq]
    refine List.nodup_append.mpr ⟨hevents.filter _, (hevents.filter _).filter _, ?_⟩
    rintro u hu _ hkept rfl
    -- a live event is not among the gone ones
    have hgone := (List.mem_filter.mp (List.mem_of_mem_filter hkept)).2
    simp [hgone, live] at hu
  · exact (List.nodup_append.mp (h.all.nodup_iff.mp h.once)).2.1

/-- In every use of a scheduler the queue is accounted for. -/
theorem accounted_of_reached (h : s.Reached obj) : s.Accounted :=
  (ledger_of_reached h).accounted

/-- Two events are saved, and the first one is canceled. -/
def canceledUse : List (Op Int) :=
  [.create (World.blank 1), .create (World.blank 2), .save (.event 1), .save (.event 2),
    .assign fun u => if u = 1 then (World.blank 1).cancel else World.blank u, .getEvents []]

theorem accounted_of_reached_canceled :
    (canceledUse.foldl step (init World.blank)).removed = [1] ∧
      (canceledUse.foldl step (init World.blank)).Accounted := by
  refine ⟨by decide, accounted_of_reached (reachable_of_permitted .init canceledUse ?_)⟩
  refine ⟨trivial, trivial, ⟨by decide, by decide⟩, ⟨by decide, by decide⟩, fun u hu => ?_,
    trivial, trivial⟩
  -- no event is canceled yet
  have hnew : ∀ v, (World.blank v : Event Int).state.gone = false := fun v => rfl
  simp only [step, create, save, init, Function.update_apply] at hu
  split at hu
  · cases hu
  · split at hu
    · cases hu
    · rw [hnew] at hu
      cases hu

end SchedulerInterface

/-! ## §4 `BufferScheduler` -/

namespace World

variable {τ : Type} [Ring τ] [LinearOrder τ]

/-- The same events, and the same queue. -/
structure Shows (w : World τ) (s : SchedulerInterface τ) : Prop where
  obj : s.obj = w.obj
  counter : s.counter = w.counter
  events : s.events = w.events

variable {w w' : World τ} {s : SchedulerInterface τ}

theorem postInit_uid {u : Nat} {args : EventArgs τ} {e : Event τ}
    (h : Event.postInit u args = .ok e) : e.uid = u := by
  obtain ⟨eta, etd, -, -, -, rfl⟩ := Event.postInit_ok h
  rfl

omit [Ring τ] [LinearOrder τ] in
/-- Only the events' attributes have changed. -/
theorem Shows.assign (h : w.Shows s) (hcounter : w'.counter = w.counter)
    (hevents : w'.events = w.events) : w'.Shows { s with obj := w'.obj } where
  obj := rfl
  counter := h.counter.trans hcounter.symm
  events := h.events.trans hevents.symm

theorem Shows.create (h : w.Shows s) {args : EventArgs τ} {e : Event τ}
    (hpost : Event.postInit w.counter args = .ok e) : (w.create args).2.Shows (s.create e) := by
  have huid : { e with uid := w.counter } = e := by rw [← postInit_uid hpost]
  rw [World.create, hpost, SchedulerInterface.create, h.obj, h.counter, huid]
  exact ⟨rfl, rfl, h.events⟩

variable [TimeStep τ] {cfg : BufferScheduler τ} {S : Sorter Nat}

/-- `solve_model` goes through the queue once and then stores the plan. -/
theorem Shows.solveModel (h : w.Shows s) (hnodup : s.events.Nodup) {new : List Nat}
    {now : Option τ} (hread : w.Readable cfg new now) (cp : Cp.Solver Var) (save : Bool) :
    (w.solveModel cfg S cp new now save).2.Shows
      { s.getEvents new with obj := (w.solveModel cfg S cp new now save).2.obj } := by
  rw [SchedulerInterface.getEvents_eq hnodup, solveModel_of_readable hread, h.obj, h.events]
  cases cp (w.model cfg S new now) with
  | optimal plan => exact ⟨rfl, h.counter, rfl⟩
  | status name => exact ⟨rfl, h.counter, rfl⟩
  | failed => exact ⟨rfl, h.counter, rfl⟩

variable (cfg S) in
/-- Each operation of a `BufferScheduler` is a use of a
`SchedulerInterface`, if its call of `get_events` is consumed, if it brings
no event back, and if it saves none for the second time. -/
theorem simulates (h : w.Shows s) (hnodup : s.events.Nodup) {op : Op τ} (hrefers : w.Refers op)
    (hread : ∀ new now, op.gathers = some (new, now) → w.Readable cfg new now)
    (hgone : ∀ u, (w.obj u).state.gone = true → ((w.step cfg S op).obj u).state.gone = true)
    (hsaved : ∀ cp u now, op = .save cp u now → u ∉ s.saved) :
    ∃ ops, Permitted SchedulerInterface.step SchedulerInterface.Allowed s ops ∧
      (w.step cfg S op).Shows (ops.foldl SchedulerInterface.step s) := by
  -- a method of one event
  have hassign (hcounter : (w.step cfg S op).counter = w.counter)
      (hevents : (w.step cfg S op).events = w.events) :
      ∃ ops, Permitted SchedulerInterface.step SchedulerInterface.Allowed s ops ∧
        (w.step cfg S op).Shows (ops.foldl SchedulerInterface.step s) :=
    ⟨[.assign (w.step cfg S op).obj], ⟨fun u hu => hgone u (h.obj ▸ hu), trivial⟩,
      h.assign hcounter hevents⟩
  have hobj (new : List Nat) : (s.getEvents new).obj = w.obj := by
    rw [SchedulerInterface.getEvents_eq hnodup, h.obj]
  -- a method that solves a model
  have hsolve (cp : Cp.Solver Var) (new : List Nat) (now : Option τ) (save : Bool)
      (hgathers : op.gathers = some (new, now))
      (hstep : w.step cfg S op = (w.solveModel cfg S cp new now save).2) :
      ∃ ops, Permitted SchedulerInterface.step SchedulerInterface.Allowed s ops ∧
        (w.step cfg S op).Shows (ops.foldl SchedulerInterface.step s) := by
    refine ⟨[.getEvents new, .assign (w.step cfg S op).obj],
      ⟨trivial, fun u hu => hgone u (hobj new ▸ hu), trivial⟩, ?_⟩
    rw [hstep]
    exact h.solveModel hnodup (hread new now hgathers) cp save
  cases op with
  | create args =>
    cases hpost : Event.postInit w.counter args with
    | error err =>
      have hstep : w.step cfg S (.create args) = w := by
        rw [World.step, exec, World.create, hpost]
        rfl
      rw [hstep]
      exact ⟨[], trivial, h⟩
    | ok e => exact ⟨[.create e], ⟨trivial, trivial⟩, h.create hpost⟩
  | arrive u t => exact hassign rfl rfl
  | cancel u => exact hassign rfl rfl
  | depart u t => exact hassign rfl rfl
  | finish u t => exact hassign rfl rfl
  | start u t => exact hassign rfl rfl
  | scheduleEta u lower upper now =>
    cases heta : (w.obj u).scheduleEta lower upper now <;>
      exact hassign (by simp [World.step, exec, tryObj, heta, setObj])
        (by simp [World.step, exec, tryObj, heta, setObj])
  | scheduleEtd u lower upper now =>
    cases hetd : (w.obj u).scheduleEtd lower upper now <;>
      exact hassign (by simp [World.step, exec, tryObj, hetd, setObj])
        (by simp [World.step, exec, tryObj, hetd, setObj])
  | canSchedule cp u now => exact hsolve cp [u] now false rfl rfl
  | validate cp now => exact hsolve cp [] now false rfl (validate_world ..)
  | save cp u now =>
    rcases save_world cfg S w cp u now with hw | hw
    · exact hsolve cp [u] now true rfl hw
    · -- accepted
      have hshows := h.solveModel (S := S) hnodup (hread [u] now rfl) cp true
      have hstep : w.step cfg S (.save cp u now) =
          { (w.solveModel cfg S cp [u] now true).2 with
            events := (w.solveModel cfg S cp [u] now true).2.events ++ [u] } := hw
      have hcreated : w.Created u := hrefers u List.mem_cons_self
      refine ⟨[.getEvents [u], .assign (w.step cfg S (.save cp u now)).obj, .save (.event u)],
        ⟨trivial, fun v hv => hgone v (hobj [u] ▸ hv), ⟨?_, ?_⟩, trivial⟩, ?_⟩
      · have hcounter : (s.getEvents [u]).counter = w.counter := by
          rw [SchedulerInterface.getEvents_eq hnodup, h.counter]
        exact ⟨hcreated.1, hcounter ▸ hcreated.2⟩
      · have hhistory : (s.getEvents [u]).saved = s.saved := by
          rw [SchedulerInterface.getEvents_eq hnodup]
        exact hhistory ▸ hsaved cp u now rfl
      · rw [hstep]
        exact ⟨rfl, hshows.counter, congrArg (· ++ [u]) hshows.events⟩

end World

end Iams.Scheduler
