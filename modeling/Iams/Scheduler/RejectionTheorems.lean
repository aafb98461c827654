/-
Iams.Scheduler.RejectionTheorems — what a refused event leaves behind.

A refusal changes no event and keeps the live queue, but the gathering
before it stays done: events that have gone are collected, and
`max_horizon` keeps the latest time the refused event brought in.
`Alike` relates a scheduler to the one with the collecting done; queries
can not tell the two apart (`answers_alike`), so a refusal that did not
raise `max_horizon` is not seen by any later query (`refused_trace`).
One that did is: `refused_raises` has a later event accepted because of
it.

No `sorry`, no `axiom`, no `native_decide`.
-/
import Iams.Scheduler.Runs

namespace Iams.Scheduler

open Iams.Lib

/-! ## Collecting -/

section Collecting

variable {τ : Type} [Ring τ] [LinearOrder τ] (obj : Nat → Event τ)

/-- What is collected depends on the live events only. -/
theorem collect_congr {us vs : List Nat} (h : live obj us = live obj vs) :
    collect obj vs = vs.filter fun u =>
      !(obj u).state.gone || retained (timeMin obj us) (timeMax obj us) (obj u) := by
  rw [collect, timeMin, timeMax, timeMin, timeMax, h]

theorem collect_collect (events : List Nat) :
    collect obj (collect obj events) = collect obj events := by
  rw [collect_congr obj (live_collect obj events).symm]
  simp [collect, List.filter_filter]

/-- Removing events that do not matter any more changes nothing that
matters. -/
theorem collect_foldl_erase {events new removed : List Nat}
    (h : ∀ u ∈ removed, u ∈ removals (getEvents obj events new)) :
    collect obj (removed.foldl List.erase events) = collect obj events := by
  have hdrop : ∀ u ∈ removed, (!(obj u).state.gone ||
      retained (timeMin obj events) (timeMax obj events) (obj u)) = false := by
    intro u hu
    have hmem := h u hu
    rw [removals_getEvents] at hmem
    simpa using (List.mem_filter.mp hmem).2
  have hlive : live obj (removed.foldl List.erase events) = live obj events :=
    filter_foldl_erase fun u hu => by
      have := hdrop u hu
      simp only [Bool.or_eq_false_iff] at this
      exact this.1
  rw [collect_congr obj hlive.symm]
  exact filter_foldl_erase hdrop

/-- The events that still matter are among those collected. -/
theorem kept_eq_gone_collect (events : List Nat) :
    kept obj events = gone obj (collect obj events) := by
  rw [kept, gone, gone, collect, List.filter_filter, List.filter_filter]
  refine List.filter_congr fun u _ => ?_
  cases (obj u).state.gone <;> simp

end Collecting

/-! ## Schedulers that queries can not tell apart -/

/-- `save`, `can_schedule` and `validate`. -/
def Op.isQuery {τ : Type} : Op τ → Bool
  | .save .. | .canSchedule .. | .validate .. => true
  | _ => false

namespace World

section Alike

variable {τ : Type} [Ring τ] [LinearOrder τ] [TimeStep τ]

/-- The two schedulers differ at most in events of the queue that do not
matter any more. -/
structure Alike (w v : World τ) : Prop where
  obj : v.obj = w.obj
  counter : v.counter = w.counter
  maxHorizon : v.maxHorizon = w.maxHorizon
  events : collect w.obj v.events = collect w.obj w.events

variable {cfg : BufferScheduler τ} {S : Sorter Nat} {w v : World τ}

omit [TimeStep τ] in
theorem Alike.refl (w : World τ) : Alike w w := ⟨rfl, rfl, rfl, rfl⟩

omit [TimeStep τ] in
theorem Alike.concerned (h : Alike w v) (new : List Nat) :
    v.concerned new = w.concerned new := by
  have hlive : live w.obj v.events = live w.obj w.events := by
    rw [← live_collect, h.events, live_collect]
  unfold World.concerned
  rw [h.obj, hlive, kept_eq_gone_collect, kept_eq_gone_collect, h.events]

/-- Once gathered, the two are the same. -/
theorem Alike.gathered (h : Alike w v) (new : List Nat) (now : Option τ) :
    v.gathered cfg new now = w.gathered cfg new now := by
  have hspan : v.span cfg new now = w.span cfg new now := by
    rw [span, span, h.concerned, h.obj]
  obtain ⟨obj, counter, events, maxHorizon⟩ := v
  obtain ⟨rfl, rfl, rfl, hevents⟩ := h
  simp only [World.gathered, hspan, hevents]

theorem Alike.problem (h : Alike w v) (new : List Nat) (now : Option τ) :
    v.problem cfg S new now = w.problem cfg S new now := by
  have hspan : v.span cfg new now = w.span cfg new now := by
    rw [span, span, h.concerned, h.obj]
  rw [World.problem, World.problem, h.concerned, h.obj, h.maxHorizon, hspan]

theorem Alike.planned (h : Alike w v) (new : List Nat) (now : Option τ)
    (s : Cp.Assignment Var) : v.planned cfg new now s = w.planned cfg new now s := by
  have hspan : v.span cfg new now = w.span cfg new now := by
    rw [span, span, h.concerned, h.obj]
  rw [World.planned, World.planned, h.gathered, h.concerned, h.obj, hspan]

variable (cfg S) in
/-- `solve_model` answers the same on both, and leaves them alike: the
same on every answer but one, an event that can not be read. -/
theorem Alike.solveModel (h : Alike w v) (cp : Cp.Solver Var) (new : List Nat)
    (now : Option τ) (save : Bool) :
    v.solveModel cfg S cp new now save = w.solveModel cfg S cp new now save ∨
      ∃ err v' w', v.solveModel cfg S cp new now save = (.error err, v') ∧
        w.solveModel cfg S cp new now save = (.error err, w') ∧ Alike w' v' := by
  by_cases hread : w.Readable cfg new now
  · have hread' : v.Readable cfg new now := by
      rw [Readable, h.concerned, h.obj]
      exact hread
    have hmodel : v.model cfg S new now = w.model cfg S new now := by
      rw [model, model, h.problem, h.obj]
    left
    rw [solveModel_of_readable hread, solveModel_of_readable hread', hmodel, h.gathered]
    simp only [h.planned]
  · have hread' : ¬ v.Readable cfg new now := by
      rw [Readable, h.concerned, h.obj]
      exact hread
    obtain ⟨err, removed, heq, hfirst, -, hremoved⟩ :=
      solveModel_of_not_readable (S := S) hread cp save
    obtain ⟨err', removed', heq', hfirst', -, hremoved'⟩ :=
      solveModel_of_not_readable (S := S) hread' cp save
    rw [h.concerned, h.obj, hfirst, Option.some.injEq] at hfirst'
    subst hfirst'
    refine Or.inr ⟨err, _, _, heq', heq, ⟨h.obj, h.counter, h.maxHorizon, ?_⟩⟩
    rw [h.obj] at hremoved'
    dsimp only
    rw [collect_foldl_erase w.obj hremoved, collect_foldl_erase w.obj hremoved', h.events]

variable (cfg S) in
/-- A query answers the same on both, and leaves them alike. -/
theorem Alike.exec (h : Alike w v) {op : Op τ} (hop : op.isQuery = true) :
    (v.exec cfg S op).1 = (w.exec cfg S op).1 ∧
      Alike (w.exec cfg S op).2 (v.exec cfg S op).2 := by
  cases op with
  | save cp u now =>
    rcases h.solveModel cfg S cp [u] now true with heq | ⟨err, v', w', hv, hw, hr⟩
    · simp only [World.exec, save, add, heq]
      exact ⟨trivial, .refl _⟩
    · simp only [World.exec, save, add, hv, hw]
      cases err <;> exact ⟨rfl, hr⟩
  | canSchedule cp u now =>
    rcases h.solveModel cfg S cp [u] now false with heq | ⟨err, v', w', hv, hw, hr⟩
    · simp only [World.exec, canSchedule, heq]
      exact ⟨trivial, .refl _⟩
    · simp only [World.exec, canSchedule, hv, hw]
      exact ⟨rfl, hr⟩
  | validate cp now =>
    rcases h.solveModel cfg S cp [] now false with heq | ⟨err, v', w', hv, hw, hr⟩
    · simp only [World.exec, validate, heq]
      exact ⟨trivial, .refl _⟩
    · simp only [World.exec, validate, hv, hw]
      cases err <;> exact ⟨rfl, hr⟩
  | create | arrive | cancel | depart | finish | start | scheduleEta | scheduleEtd => cases hop

/-- The results of a sequence of operations. -/
def answers (cfg : BufferScheduler τ) (S : Sorter Nat) (w : World τ) : List (Op τ) → List Result
  | [] => []
  | op :: rest => (w.exec cfg S op).1 :: answers cfg S (w.step cfg S op) rest

/-- No sequence of queries tells the two apart. -/
theorem answers_alike (h : Alike w v) (ops : List (Op τ))
    (hops : ∀ op ∈ ops, op.isQuery = true) : v.answers cfg S ops = w.answers cfg S ops := by
  induction ops generalizing w v with
  | nil => rfl
  | cons op rest ih =>
    obtain ⟨hresult, hnext⟩ := h.exec cfg S (hops op List.mem_cons_self)
    rw [answers, answers, hresult, step, step,
      ih hnext fun op' hop' => hops op' (List.mem_cons_of_mem op hop')]

/-! ## The refusal -/

/-- A refusal changes no event and keeps the live queue. What it leaves
behind is `max_horizon`, raised to the latest time of the model, and the
removal of events that have gone. A refusal that does not raise
`max_horizon` is seen by no later query, and one that removes nothing
either leaves the scheduler as it was. -/
theorem refused_trace {cp : Cp.Solver Var} {u : Nat} {now : Option τ}
    (h : (w.save cfg S cp u now).1 = .ok false) :
    let w' := (w.save cfg S cp u now).2
    w'.obj = w.obj ∧ w'.counter = w.counter ∧
      live w'.obj w'.events = live w.obj w.events ∧
      w'.events = collect w.obj w.events ∧
      w'.maxHorizon = max w.maxHorizon (w.span cfg [u] now).2 ∧
      (w'.maxHorizon = w.maxHorizon →
        (∀ ops : List (Op τ), (∀ op ∈ ops, op.isQuery = true) →
          w'.answers cfg S ops = w.answers cfg S ops) ∧
        (collect w.obj w.events = w.events → w' = w)) := by
  obtain ⟨-, -, hworld⟩ := save_false h
  intro w'
  have hw' : w' = w.gathered cfg [u] now := hworld
  rw [hw']
  refine ⟨rfl, rfl, live_collect _ _, rfl, rfl, fun hmax => ⟨fun ops hops => ?_, fun hkept => ?_⟩⟩
  · have halike : Alike w (w.gathered cfg [u] now) :=
      ⟨rfl, rfl, hmax, collect_collect w.obj w.events⟩
    exact answers_alike halike ops hops
  · have hgathered : w.gathered cfg [u] now = { w with
        events := collect w.obj w.events
        maxHorizon := (w.gathered cfg [u] now).maxHorizon } := rfl
    rw [hgathered, hmax, hkept]

end Alike

/-- A scheduler with horizon 10, an event of length 5 that arrives at 100
and has to be gone at 101, and one of length 50 that arrives at 0. -/
def late : World Int :=
  ((init (.single 10 1 1)).step (.single 10 1 1) (.insertion Nat)
    (.create { duration := 5, eta := .number 100, etd := .number 101 })).step (.single 10 1 1)
    (.insertion Nat) (.create { duration := 50, eta := .number 0 })

theorem late_reached : late.ReachedInteger (.single 10 1 1) (.insertion Nat) :=
  (ReachedInteger.init.step _ (by decide) (by exact ⟨rfl, trivial, trivial⟩)).step _
    (by decide) (by exact ⟨rfl, trivial, trivial⟩)

/-- The answer that serves events one after the other, from 0, 3 and 8 on,
in a window that begins at `lo`. -/
def bookedAnswer (lo : Int) : Cp.Assignment Var :=
  assignmentOf lo fun u => if u = 1 then ⟨0, 0, 2, 2⟩ else if u = 2 then ⟨3, 3, 8, 8⟩
    else ⟨4, 8, 10, 10⟩

/-- A queue with a departed event that no longer matters and one that is
processed from 3 to 8. Of the other two events the first has to leave at
6, the second may wait. -/
def booked : World Int :=
  let cfg := BufferScheduler.single 20 1 1
  let S := Sorter.insertion Nat
  let created := [{ duration := 2, eta := .number 0 },
    { duration := 5, eta := .number 3, etd := .number 8 },
    { duration := 2, eta := .number 4, etd := .number 6 },
    { duration := 2, eta := .number 4 }].foldl (fun w args => w.step cfg S (.create args))
    (init cfg)
  [.save (.trying (bookedAnswer 0)) 1 none, .save (.trying (bookedAnswer 0)) 2 none, .arrive 1 0,
    .start 1 0, .finish 1 2, .depart 1 2].foldl (step cfg S) created

/-- The refusal drops the departed event and nothing else, and the answers
to later queries are the same: the last event still fits. -/
theorem refused_trace_booked :
    let w' := (booked.save (.single 20 1 1) (.insertion Nat) (.trying (bookedAnswer 3)) 3 none).2
    (booked.events = [1, 2] ∧ w'.events = [2] ∧ w'.obj = booked.obj) ∧
      (∀ ops : List (Op Int), (∀ op ∈ ops, op.isQuery = true) →
        w'.answers (.single 20 1 1) (.insertion Nat) ops
          = booked.answers (.single 20 1 1) (.insertion Nat) ops) ∧
      w'.answers (.single 20 1 1) (.insertion Nat)
        [.save (.trying (bookedAnswer 3)) 3 none, .save (.trying (bookedAnswer 3)) 4 none,
          .validate (.trying (bookedAnswer 3)) none] = [.bool false, .bool true, .bool true] := by
  intro w'
  obtain ⟨hobj, -, -, hevents, -, hlater⟩ := refused_trace
    (show (booked.save (.single 20 1 1) (.insertion Nat) (.trying (bookedAnswer 3)) 3 none).1
      = .ok false by decide)
  obtain ⟨hanswers, -⟩ := hlater (by decide)
  refine ⟨⟨by decide, hevents.trans (by decide), hobj⟩, hanswers, ?_⟩
  exact (hanswers _ (by decide)).trans (by decide)

/-- Refusing the first event raises `max_horizon` from 10 to 101, and the
second one, refused before, is accepted afterwards. -/
theorem refused_raises :
    late.ReachedInteger (.single 10 1 1) (.insertion Nat) ∧
      ∀ cp : Cp.Solver Var, cp.Sound → cp.Complete →
        (late.save (.single 10 1 1) (.insertion Nat) cp 1 none).1 = .ok false ∧
        (late.save (.single 10 1 1) (.insertion Nat) cp 1 none).2.maxHorizon
          ≠ late.maxHorizon ∧
        (late.save (.single 10 1 1) (.insertion Nat) cp 2 none).1 = .ok false ∧
        ((late.save (.single 10 1 1) (.insertion Nat) cp 1 none).2.save (.single 10 1 1)
          (.insertion Nat) cp 2 none).1 = .ok true := by
  refine ⟨late_reached, fun cp hsound hcomplete => ?_⟩
  have hread₁ : late.Readable (.single 10 1 1) [1] none := by
    intro u hu
    rw [List.mem_singleton.mp (show u ∈ [1] from hu)]
    exact ⟨_, rfl⟩
  have hread₂ : late.Readable (.single 10 1 1) [2] none := by
    intro u hu
    rw [List.mem_singleton.mp (show u ∈ [2] from hu)]
    exact ⟨_, rfl⟩
  have hfirst := save_of_unsatisfiable (S := .insertion Nat) hsound hread₁ (by
    rintro ⟨s, hs⟩
    have hadmits : Stage.Admits 100 101 _
        (.waiting (some 100, some 100) (some 101, some 101) 5) :=
      (Problem.feasible_of_sat (asks hread₁) hs).admits 1 (by decide)
    simp [Stage.Admits, Bounds.Within] at hadmits
    omega)
  have hsecond := save_of_unsatisfiable (S := .insertion Nat) hsound hread₂ (by
    rintro ⟨s, hs⟩
    have hadmits : Stage.Admits 0 10 _ (.waiting (some 0, some 0) (none, none) 50) :=
      (Problem.feasible_of_sat (asks hread₂) hs).admits 2 (by decide)
    simp [Stage.Admits, Bounds.Within] at hadmits
    omega)
  rw [hfirst, hsecond]
  refine ⟨rfl, by decide, rfl, save_of_satisfiable hcomplete ?_ ?_⟩
  · intro u hu
    rw [List.mem_singleton.mp (show u ∈ [2] from hu)]
    exact ⟨_, rfl⟩
  · exact ⟨assignmentOf 0 fun _ => ⟨0, 0, 50, 50⟩, by decide⟩

end World

end Iams.Scheduler
