/-
Iams.Scheduler.RecurrenceTheorems — first come, first served.

The scheduler contains no recurrence. It asks a solver for the plan whose
departures add up to the least, among the plans that keep the order of
the queue, one machine and the buffers. For events that arrive at a fixed
time and may leave whenever they are done, that plan is the service of a
single server that takes the events in order (`cheapest_served`): no
plan of the model starts an event earlier, and the service itself is one
of them.

`recurrence` carries this to the stored times after every run of accepted
`save`s, and from there to the independence of the order in which the
events were inserted. A float has to hold the times (`Job.Exact`):
`served_early` is an event that starts before its arrival.

No `sorry`, no `axiom`, no `native_decide`.
-/
import Iams.Lib.SingleServer
import Iams.Scheduler.Order
import Iams.Scheduler.SoundnessTheorems
import Iams.Scheduler.Window

namespace Iams.Scheduler

open Iams.Lib

/-- An event that arrives at a fixed time and needs some time on the
machine. -/
structure Job where
  eta : Int
  duration : Int
  deriving DecidableEq, Repr

/-! ## The cheapest plan -/

/-- All events of the problem wait for their start, arrive at a fixed
time, may leave whenever they are done, and queue in the order of their
arrivals. -/
structure Problem.Serial (P : Problem) (job : Nat → Job) : Prop where
  nodup : P.keys.Nodup
  perm : P.order.Perm P.keys
  stage : ∀ u ∈ P.keys,
    P.stage u = .waiting (some (job u).eta, some (job u).eta) (none, none) (job u).duration
  duration : ∀ u ∈ P.keys, 0 < (job u).duration
  sorted : P.order.Pairwise fun a b => (job a).eta ≤ (job b).eta
  inside : ∀ u ∈ P.keys, P.lo ≤ (job u).eta

/-- Every event is processed from its start on and leaves at once. -/
def servedPlan (job : Nat → Job) (start : Nat → Int) : Plan := fun u =>
  ⟨(job u).eta, start u, start u + (job u).duration, start u + (job u).duration⟩

namespace Problem.Serial

variable {P : Problem} {job : Nat → Job} {p : Plan} {start : Nat → Int}

/-- What the plan gives one event. -/
theorem slot (hP : P.Serial job) (h : P.Feasible p) {u : Nat} (hu : u ∈ P.keys) :
    (p u).eta = (job u).eta ∧ (job u).eta ≤ (p u).start ∧
      (p u).finish = (p u).start + (job u).duration ∧ (p u).finish ≤ (p u).etd ∧
      (p u).etd ≤ P.hi := by
  have hadmits := h.admits u hu
  rw [hP.stage u hu] at hadmits
  simp only [Stage.Admits, Bounds.Within, Option.getD_some, Option.getD_none] at hadmits
  omega

/-- A plan serves the events one after the other. -/
theorem admissible (hP : P.Serial job) (h : P.Feasible p) :
    Admissible (fun u => (job u).eta) (fun u => (job u).duration) (fun u => (p u).start)
      P.order := by
  have hmem {u : Nat} (hu : u ∈ P.order) : u ∈ P.keys := hP.perm.mem_iff.mp hu
  have hwaiting : ∀ u ∈ P.order, P.isWaiting u = true := by
    intro u hu
    rw [isWaiting, hP.stage u (hmem hu)]
    rfl
  refine ⟨fun u hu => (hP.slot h (hmem hu)).2.1, isChain_of_neighbours hwaiting fun c hc => ?_⟩
  have hsub := sublist_of_mem_neighbours hc
  have hne : c.1 ≠ c.2 := by
    have := hsub.nodup (hP.perm.nodup_iff.mpr hP.nodup)
    simpa using this
  have hfirst : c.1 ∈ P.keys := hmem (hsub.subset (by simp))
  have hsecond : c.2 ∈ P.keys := hmem (hsub.subset (by simp))
  have horder := (h.queue c hc).2
  -- the later of the two is on the machine when it starts
  have hapart := h.disjoint hfirst hsecond hne (p c.2).start
  obtain ⟨-, -, hfinish₁, -⟩ := hP.slot h hfirst
  obtain ⟨-, -, hfinish₂, -⟩ := hP.slot h hsecond
  have hlast := hP.duration c.2 hsecond
  simp only [Slot.onMachine, decide_eq_true_eq] at hapart
  omega

/-- Where there is a plan, the service of the events in order is one. -/
theorem served_feasible (hP : P.Serial job) (h : P.Feasible p)
    (hserves : Serves (fun u => (job u).eta) (fun u => (job u).duration) start none P.order) :
    P.Feasible (servedPlan job start) ∧ ∀ u ∈ P.keys, start u ≤ (p u).start := by
  have hmem {u : Nat} (hu : u ∈ P.keys) : u ∈ P.order := hP.perm.mem_iff.mpr hu
  have hleast : ∀ u ∈ P.keys, start u ≤ (p u).start := fun u hu =>
    hserves.least (hP.admissible h) u (hmem hu)
  have hadm := hserves.admissible
  have hapart := hadm.pairwise fun u hu => le_of_lt (hP.duration u (hP.perm.mem_iff.mp hu))
  refine ⟨⟨fun u hu => ?_, fun c hc => ?_, fun t => ?_, fun t => ?_, fun t => ?_⟩, hleast⟩
  · obtain ⟨-, -, hfinish, hetd, hhi⟩ := hP.slot h hu
    have harrived := hadm.arrived u (hmem hu)
    have hle := hleast u hu
    have hlo := hP.inside u hu
    have hduration := hP.duration u hu
    rw [hP.stage u hu]
    simp only [Stage.Admits, Bounds.Within, servedPlan, Option.getD_some, Option.getD_none,
      true_and]
    omega
  · have hsub := sublist_of_mem_neighbours hc
    have hfirst := hP.duration c.1 (hP.perm.mem_iff.mp (hsub.subset (by simp)))
    have hstep := neighbours_of_pairwise hapart c hc
    refine ⟨neighbours_of_pairwise hP.sorted c hc, ?_⟩
    simp only [servedPlan]
    omega
  · refine le_trans (Int.ofNat_le.mpr (List.countP_mono_left fun u hu hin => ?_)) (h.input t)
    obtain ⟨heta, -⟩ := hP.slot h hu
    have hle := hleast u hu
    simp only [Slot.inInput, Bool.and_eq_true, decide_eq_true_eq] at hin ⊢
    simp only [servedPlan] at hin
    exact ⟨hin.1, by omega⟩
  · refine Cp.count_le_one_of_apart hP.nodup fun a ha b hb hab => ?_
    have : Std.Symm fun i j : Nat => start i + (job i).duration ≤ start j ∨
        start j + (job j).duration ≤ start i := ⟨fun _ _ h => h.symm⟩
    have hdisjoint := (hapart.imp fun {i j} hij =>
      (Or.inl hij : _ ∨ start j + (job j).duration ≤ start i)).forall (hmem ha) (hmem hb) hab
    simp only [Slot.onMachine, decide_eq_true_eq]
    simp only [servedPlan]
    omega
  · refine le_trans (Int.ofNat_le.mpr (List.countP_mono_left fun u hu hout => ?_)) (h.output t)
    simp only [Slot.inOutput, decide_eq_true_eq] at hout
    simp only [servedPlan] at hout
    omega

/-- Sums of larger terms are larger, unless the terms are the same. -/
theorem eq_of_sum_le {us : List Nat} {f g : Nat → Int} (hle : ∀ u ∈ us, f u ≤ g u)
    (hsum : (us.map g).sum ≤ (us.map f).sum) : ∀ u ∈ us, f u = g u := by
  induction us with
  | nil => exact fun u hu => absurd hu List.not_mem_nil
  | cons a rest ih =>
    have ha := hle a List.mem_cons_self
    have hrest : (rest.map f).sum ≤ (rest.map g).sum :=
      List.sum_le_sum fun u hu => hle u (List.mem_cons_of_mem a hu)
    simp only [List.map_cons, List.sum_cons] at hsum
    intro u hu
    rcases List.mem_cons.mp hu with rfl | hu
    · omega
    · exact ih (fun u hu => hle u (List.mem_cons_of_mem a hu)) (by omega) u hu

/-- No plan has an event depart before the service does. -/
theorem departs (hP : P.Serial job) (h : P.Feasible p)
    (hserves : Serves (fun u => (job u).eta) (fun u => (job u).duration) start none P.order) :
    ∀ u ∈ P.keys, (servedPlan job start u).etd ≤ (p u).etd := by
  intro u hu
  have hle := (hP.served_feasible h hserves).2 u hu
  obtain ⟨-, -, hfinish, hetd, -⟩ := hP.slot h hu
  simp only [servedPlan]
  omega

/-- The service is a cheapest plan. -/
theorem served_cheapest (hP : P.Serial job) (h : P.Feasible p)
    (hserves : Serves (fun u => (job u).eta) (fun u => (job u).duration) start none P.order) :
    P.Cheapest (servedPlan job start) where
  feasible := (hP.served_feasible h hserves).1
  least _ hq := List.sum_le_sum (hP.departs hq hserves)

/-- It is the only one. -/
theorem cheapest_served (hP : P.Serial job) (h : P.Cheapest p)
    (hserves : Serves (fun u => (job u).eta) (fun u => (job u).duration) start none P.order) :
    ∀ u ∈ P.keys, p u = servedPlan job start u := by
  intro u hu
  obtain ⟨hserved, hle⟩ := hP.served_feasible h.feasible hserves
  have hetd : (servedPlan job start u).etd = (p u).etd :=
    eq_of_sum_le (hP.departs h.feasible hserves) (h.least _ hserved) u hu
  obtain ⟨heta, -, hfinish, hdeparts, -⟩ := hP.slot h.feasible hu
  have hstart := hle u hu
  simp only [servedPlan] at hetd ⊢
  cases hslot : p u with
  | mk eta start' finish etd =>
    simp only [hslot] at heta hfinish hdeparts hetd hstart
    rw [Slot.mk.injEq]
    omega

end Problem.Serial

/-! ## Inserting events -/

/-- The arguments an event is created with. -/
def Job.args (job : Job) : EventArgs Int := { duration := job.duration, eta := .number job.eta }

/-- A float holds both times of the job. -/
def Job.Exact (job : Job) : Prop := FloatExact job.eta ∧ FloatExact job.duration

instance (job : Job) : Decidable job.Exact := inferInstanceAs (Decidable (_ ∧ _))

/-- `(eta, duration)` -/
def Job.pair (j : Job) : Int ×ₗ Int := toLex (j.eta, j.duration)

theorem Job.pair_injective : Function.Injective Job.pair := by
  intro i j h
  have heta := congrArg (fun k => (ofLex k).1) h
  have hduration := congrArg (fun k => (ofLex k).2) h
  cases i
  cases j
  simp only [Job.pair, ofLex_toLex] at heta hduration
  rw [heta, hduration]

namespace Event

/-- The event as it was created for a job, but for the plan stored on
it. -/
structure Awaits (e : Event Int) (job : Job) : Prop where
  state : e.state = .new
  duration : e.duration = job.duration
  low : e.eta.constraintLow = some job.eta
  time : e.eta.time = some job.eta
  etdLow : e.etd.constraintLow = none
  etdHigh : e.etd.constraintHigh = none

variable {e : Event Int} {job : Job}

theorem awaits_of_postInit {u : Nat} (h : postInit u job.args = .ok e) : e.Awaits job := by
  simp [postInit, Job.args, buildEtx, ETX.postInit, ETX.fields, ETX.firstSet, ETX.defaults,
    ETX.validate, ETX.less, ETX.pushHigh, ETX.pushLow, ETX.bool] at h
  subst h
  exact ⟨rfl, rfl, rfl, rfl, rfl, rfl⟩

theorem Awaits.hasStage (h : e.Awaits job) :
    e.HasStage (.waiting (some job.eta, some job.eta) (none, none) job.duration) := by
  have hst := HasStage.waiting (e := e) (Or.inl h.state) (by simp [EtdOk, h.etdHigh])
  rwa [h.low, h.duration, etdBounds, h.etdLow, h.etdHigh] at hst

theorem Awaits.exact (h : e.Awaits job) (hjob : job.Exact) : e.Exact := by
  unfold Exact converted
  simp only [h.state, h.duration, h.low, h.etdLow, List.forall_mem_cons, Option.mem_def,
    Option.some.injEq, forall_eq', reduceCtorEq, false_implies, implies_true, true_and]
  exact ⟨hjob.2, hjob.1, fun _ ho => absurd ho List.not_mem_nil⟩

/-- A plan that has the event arrive at its time leaves it waiting. -/
theorem Awaits.storeSlot (h : e.Awaits job) {p : Slot} (hp : p.eta = job.eta) :
    (e.storeSlot p).Awaits job := by
  simp only [Event.storeSlot, h.state]
  exact ⟨rfl, h.duration, h.low, by rw [hp], h.etdLow, h.etdHigh⟩

end Event

namespace World

variable (cfg : BufferScheduler Int) (S : Sorter Nat) (job : Nat → Job)

/-- The operations of a program that creates events, the one numbered `u`
for the job `job u`, and saves them in any order. Every `save` is
accepted. -/
def Inserts (w : World Int) : Op Int → Prop
  | .create args => args = (job w.counter).args ∧ 0 < (job w.counter).duration
  | .save cp u now =>
      w.Created u ∧ cp.Minimizing ∧ (w.save cfg S cp u now).1 = .ok true
  | _ => False

/-- The schedulers such a program leads to. -/
def Accepted (w : World Int) : Prop := Reachable (step cfg S) (Inserts cfg S job) (init cfg) w

/-- `(eta, duration, uid)` -/
def key (u : Nat) : Int ×ₗ Int ×ₗ Nat := toLex ((job u).eta, toLex ((job u).duration, u))

/-- The times stored on an event. -/
structure Stored (e : Event Int) (p : Slot) : Prop where
  eta : e.eta.time = some p.eta
  start : e.scheduleStart = some p.start
  finish : e.scheduleFinish = some p.finish
  etd : e.etd.time = some p.etd

/-- The queue, sorted by `(eta, duration, uid)`, is served first come,
first served, and these are the times stored. -/
def Recurs (w : World Int) : Prop :=
  ∃ (us : List Nat) (start : Nat → Int), (∀ u, u ∈ us ↔ u ∈ w.events) ∧
    us.Pairwise (fun a b => key job a < key job b) ∧
    Serves (fun u => (job u).eta) (fun u => (job u).duration) start none us ∧
    ∀ u ∈ us, Stored (w.obj u) (servedPlan job start u)

/-- What accepted insertions keep, of jobs with times that a float
holds. -/
structure Inserted (w : World Int) : Prop where
  integer : w.Integer
  created : ∀ u ∈ w.events, w.Created u
  awaits : ∀ u, w.Created u → (w.obj u).Awaits (job u) ∧ 0 < (job u).duration
  exact : ∀ u, w.Created u → (job u).Exact
  recurs : w.Recurs job

variable {cfg S job} {w : World Int}

/-- The program creates events with integer times only, and refers to
those. -/
theorem Inserts.numeric {op : Op Int} (hop : w.Inserts cfg S job op) :
    w.Refers op ∧ op.Numeric := by
  cases op with
  | create args =>
    obtain ⟨rfl, -⟩ := hop
    exact ⟨fun u hu => absurd hu List.not_mem_nil, rfl, trivial, trivial⟩
  | save cp u now =>
    refine ⟨fun v hv => ?_, trivial⟩
    rw [List.mem_singleton.mp hv]
    exact hop.1
  | arrive | cancel | depart | finish | start | scheduleEta | scheduleEtd | canSchedule
  | validate => exact hop.elim

/-- The events compare by their keys. -/
theorem ltOn_iff_key (hw : w.Integer) {a b : Nat} (ha : (w.obj a).Awaits (job a))
    (hb : (w.obj b).Awaits (job b)) : ltOn w.obj a b = true ↔ key job a < key job b := by
  have htime := Event.ltTime_iff (w.obj a) (w.obj b) (x := some (job a).eta)
    (y := some (job b).eta) rfl rfl
  simp only [Event.tuple, ha.duration, hb.duration, hw.uid, Option.getD_some] at htime
  rw [key, key, ← htime]
  simp [ltOn, Event.lt, ha.state, hb.state, States.waiting, ETX.eq, ETX.lt, ETX.ltValue, ha.time,
    hb.time]

section Saving

variable {u : Nat} {now : Option Int} (hr : cfg.resolution = 1) (h : w.Inserted job)
variable (hu : w.Created u)

variable (cfg S now) in
include h hu in
theorem Inserted.awaits_keys : ∀ v ∈ (w.problem cfg S [u] now).keys,
    w.Created v ∧ (w.obj v).Awaits (job v) ∧ 0 < (job v).duration := by
  intro v hv
  have hcreated : w.Created v := by
    have hmem := mem_saved.mpr hv
    rw [List.mem_append, List.mem_singleton] at hmem
    rcases hmem with hmem | rfl
    · exact h.created v (List.mem_of_mem_filter hmem)
    · exact hu
  exact ⟨hcreated, h.awaits v hcreated⟩

include hr h hu in
theorem Inserted.stage : ∀ v ∈ (w.problem cfg S [u] now).keys,
    (w.problem cfg S [u] now).stage v
      = .waiting (some (job v).eta, some (job v).eta) (none, none) (job v).duration :=
  fun v hv => by
    obtain ⟨hcreated, hawaits, -⟩ := h.awaits_keys cfg S now hu v hv
    exact hawaits.hasStage.stageD_eq hr (h.integer.numeric v) (hawaits.exact (h.exact v hcreated))

variable (cfg S now) in
include h hu in
/-- The queue is sorted by the keys. -/
theorem Inserted.sorted : (w.problem cfg S [u] now).order.Pairwise
    fun a b => key job a < key job b := by
  have hkeys := h.awaits_keys cfg S now hu
  have hrank : (S.sort (ltOn w.obj) (w.problem cfg S [u] now).keys).Pairwise
      fun a b => key job a ≤ key job b :=
    S.sort_rank_le (key job) fun a ha b hb =>
      ltOn_iff_key h.integer (hkeys a ha).2.1 (hkeys b hb).2.1
  have hnodup : (S.sort (ltOn w.obj) (w.problem cfg S [u] now).keys).Nodup :=
    (S.perm _ _).nodup_iff.mpr (nodup_keysOf _)
  refine (hrank.and hnodup).imp fun {a b} ⟨hle, hne⟩ => lt_of_le_of_ne hle fun heq => hne ?_
  have huid := congrArg (fun k => (ofLex (ofLex k).2).2) heq
  exact huid

include hr h hu in
/-- The queue and a created event are a serial problem. -/
theorem Inserted.serial : (w.problem cfg S [u] now).Serial job where
  nodup := nodup_keysOf _
  perm := S.perm _ _
  stage := h.stage hr hu
  duration v hv := (h.awaits_keys cfg S now hu v hv).2.2
  sorted := (h.sorted cfg S now hu).imp fun {a b} hlt => by
    rw [key, key, Prod.Lex.toLex_lt_toLex] at hlt
    rcases hlt with hlt | ⟨heq, -⟩
    · exact le_of_lt hlt
    · exact le_of_eq heq
  inside v hv := by
    have hcov := problem_covers cfg S w [u] now hv
    rw [h.stage hr hu v hv] at hcov
    exact hcov.low _ rfl

include hr h in
/-- An accepted `save` stores the service of the queue. -/
theorem Inserted.save {cp : Cp.Solver Var} (hu : w.Created u) (hcp : cp.Minimizing)
    (hsave : (w.save cfg S cp u now).1 = .ok true) :
    (w.save cfg S cp u now).2.Inserted job := by
  have hinteger : (w.save cfg S cp u now).2.Integer := by
    have hop : w.Inserts cfg S job (.save cp u now) := ⟨hu, hcp, hsave⟩
    exact h.integer.step hop.numeric.1 hop.numeric.2
  obtain ⟨hread, s, hs⟩ := save_true_iff.mp hsave
  rw [save_of_optimal hread hs] at hinteger ⊢
  have hserial : (w.problem cfg S [u] now).Serial job := h.serial hr hu
  have hkeys := h.awaits_keys cfg S now hu
  have hcheapest := Problem.cheapest_of_optimal (asks hread) (hcp _ s hs)
  obtain ⟨start, hserves⟩ := Serves.exists_serves (fun u => (job u).eta)
    (fun u => (job u).duration) none (hserial.perm.nodup_iff.mpr hserial.nodup)
  have hplan := hserial.cheapest_served hcheapest hserves
  have hobj : ∀ v ∈ (w.problem cfg S [u] now).keys,
      (w.planned cfg [u] now s).obj v = (w.obj v).storeSlot (servedPlan job start v) := by
    intro v hv
    rw [planned_obj hr h.integer s hv, hplan v hv]
  refine ⟨hinteger, fun v hv => (hkeys v (mem_saved.mp hv)).1, fun v hv => ?_, h.exact, ?_⟩
  · refine ⟨?_, (h.awaits v hv).2⟩
    by_cases hkey : v ∈ (w.problem cfg S [u] now).keys
    · dsimp only
      rw [hobj v hkey]
      exact (h.awaits v hv).1.storeSlot rfl
    · have hmem : v ∉ keysOf (w.concerned [u]) := hkey
      change (if v ∈ keysOf (w.concerned [u]) then _ else w.obj v).Awaits (job v)
      rw [if_neg hmem]
      exact (h.awaits v hv).1
  · refine ⟨(w.problem cfg S [u] now).order, start, fun v => ?_, h.sorted cfg S now hu, hserves,
      fun v hv => ?_⟩
    · exact (hserial.perm.mem_iff).trans mem_saved.symm
    · have hkey := hserial.perm.mem_iff.mp hv
      dsimp only
      rw [hobj v hkey]
      simp only [Event.storeSlot, (hkeys v hkey).2.1.state]
      exact ⟨rfl, rfl, rfl, rfl⟩

end Saving

/-- Creating an event leaves the queue alone. -/
theorem Inserted.create {args : EventArgs Int} (h : w.Inserted job)
    (hop : w.Inserts cfg S job (.create args))
    (hexact : ∀ u, (w.step cfg S (.create args)).Created u → (job u).Exact) :
    (w.step cfg S (.create args)).Inserted job := by
  have hinteger : (w.step cfg S (.create args)).Integer :=
    h.integer.step hop.numeric.1 hop.numeric.2
  change (w.create args).2.Integer at hinteger
  change ∀ u, (w.create args).2.Created u → (job u).Exact at hexact
  change (w.create args).2.Inserted job
  unfold World.create at hinteger hexact ⊢
  cases hpost : Event.postInit w.counter args with
  | error err => exact h
  | ok e =>
    rw [hpost] at hinteger hexact
    obtain ⟨rfl, hduration⟩ := hop
    -- the new event is not in the queue
    have hobj {v : Nat} (hv : w.Created v) : (w.setObj w.counter e).obj v = w.obj v := by
      have hne : v ≠ w.counter := ne_of_lt hv.2
      simp [setObj, hne]
    refine ⟨hinteger, fun v hv => ?_, fun v hv => ?_, hexact, ?_⟩
    · exact ⟨(h.created v hv).1, Nat.lt_succ_of_lt (h.created v hv).2⟩
    · by_cases hvc : v = w.counter
      · subst hvc
        dsimp only [setObj]
        rw [Function.update_self]
        exact ⟨Event.awaits_of_postInit hpost, hduration⟩
      · have hv' : w.Created v := ⟨hv.1, lt_of_le_of_ne (Nat.le_of_lt_succ hv.2) hvc⟩
        dsimp only
        rw [hobj hv']
        exact h.awaits v hv'
    · obtain ⟨us, start, hmem, hsorted, hserves, hstored⟩ := h.recurs
      refine ⟨us, start, hmem, hsorted, hserves, fun v hv => ?_⟩
      dsimp only
      rw [hobj (h.created v ((hmem v).mp hv))]
      exact hstored v hv

/-- Every accepted insertion leaves the queue served first come, first
served. -/
theorem Accepted.inserted (hr : cfg.resolution = 1) (h : w.Accepted cfg S job)
    (hexact : ∀ u, w.Created u → (job u).Exact) : w.Inserted job := by
  refine h.invariant (fun w => (∀ u, w.Created u → (job u).Exact) → w.Inserted job) ?_
    (fun w op hw hop hexact => ?_) hexact
  · exact fun hexact => ⟨integer_of_reached (ReachedInteger.init (S := S)),
      fun v hv => absurd hv List.not_mem_nil, fun v hv => absurd hv.2 (Nat.not_lt.mpr hv.1),
      hexact, [], fun _ => 0, fun _ => Iff.rfl, .nil, trivial,
      fun v hv => absurd hv List.not_mem_nil⟩
  · -- what was created before the step is so afterwards
    have hbefore : w.Inserted job := hw fun u hu => hexact u ⟨hu.1, lt_of_lt_of_le hu.2
      (step_changes (A := fun _ => True) cfg S w op hop.numeric.1 fun _ _ => trivial).counter⟩
    cases op with
    | create args => exact hbefore.create hop hexact
    | save cp u now => exact hbefore.save hr hop.1 hop.2.1 hop.2.2
    | arrive | cancel | depart | finish | start | scheduleEta | scheduleEtd | canSchedule
    | validate => exact hop.elim

/-! ## The order of insertion -/

/-- Two queues hold events for the same jobs, one for each job. -/
structure SameJobs (job : Nat → Job) (w : World Int) (job' : Nat → Job) (w' : World Int) :
    Prop where
  distinct : ∀ u ∈ w.events, ∀ v ∈ w.events, job u = job v → u = v
  distinct' : ∀ u ∈ w'.events, ∀ v ∈ w'.events, job' u = job' v → u = v
  same : ∀ j, (∃ u ∈ w.events, job u = j) ↔ ∃ v ∈ w'.events, job' v = j

/-- With one event for each job, sorting by key sorts the jobs. -/
theorem pairwise_pair {us : List Nat} (h : us.Pairwise fun a b => key job a < key job b)
    (hdistinct : ∀ u ∈ us, ∀ v ∈ us, job u = job v → u = v) :
    (us.map fun u => (job u).pair).Pairwise (· < ·) := by
  refine List.pairwise_map.mpr (h.imp_of_mem fun {a b} ha hb hlt => ?_)
  rw [key, key, Prod.Lex.toLex_lt_toLex] at hlt
  rw [Job.pair, Job.pair, Prod.Lex.toLex_lt_toLex]
  rcases hlt with hlt | ⟨heta, hlt⟩
  · exact Or.inl hlt
  · rw [Prod.Lex.toLex_lt_toLex] at hlt
    rcases hlt with hlt | ⟨hduration, hlt⟩
    · exact Or.inr ⟨heta, hlt⟩
    · have hjob : (job a).pair = (job b).pair := by
        rw [Job.pair, Job.pair, toLex_inj, Prod.mk.injEq]
        exact ⟨heta, hduration⟩
      exact absurd (hdistinct a ha b hb (Job.pair_injective hjob)) (ne_of_lt hlt)

/-- The same jobs, sorted, are the same sequence. -/
theorem SameJobs.map_eq {job' : Nat → Job} {w' : World Int} {us vs : List Nat}
    (h : SameJobs job w job' w') (hus : ∀ u, u ∈ us ↔ u ∈ w.events)
    (hvs : ∀ v, v ∈ vs ↔ v ∈ w'.events) (hsorted : us.Pairwise fun a b => key job a < key job b)
    (hsorted' : vs.Pairwise fun a b => key job' a < key job' b) : us.map job = vs.map job' := by
  have hpairs := pairwise_pair hsorted fun u hu v hv =>
    h.distinct u ((hus u).mp hu) v ((hus v).mp hv)
  have hpairs' := pairwise_pair hsorted' fun u hu v hv =>
    h.distinct' u ((hvs u).mp hu) v ((hvs v).mp hv)
  have hmem (x : Int ×ₗ Int) :
      x ∈ us.map (fun u => (job u).pair) ↔ x ∈ vs.map fun v => (job' v).pair := by
    have hsame (j : Job) := h.same j
    simp only [List.mem_map, hus, hvs]
    constructor
    · rintro ⟨u, hu, rfl⟩
      obtain ⟨v, hv, hjob⟩ := (hsame (job u)).mp ⟨u, hu, rfl⟩
      exact ⟨v, hv, by rw [hjob]⟩
    · rintro ⟨v, hv, rfl⟩
      obtain ⟨u, hu, hjob⟩ := (hsame (job' v)).mpr ⟨v, hv, rfl⟩
      exact ⟨u, hu, by rw [hjob]⟩
  have hperm : (us.map fun u => (job u).pair).Perm (vs.map fun v => (job' v).pair) :=
    (List.perm_ext_iff_of_nodup (hpairs.imp ne_of_lt) (hpairs'.imp ne_of_lt)).mpr hmem
  have heq := List.Perm.eq_of_pairwise (fun a b _ _ hab hba => absurd hba (lt_asymm hab))
    hpairs hpairs' hperm
  have hcomp : (us.map job).map Job.pair = (vs.map job').map Job.pair := by
    simpa only [List.map_map, Function.comp_def] using heq
  exact List.map_injective_iff.mpr Job.pair_injective hcomp

/-- After every run of accepted insertions of jobs with times that a float
holds, the queue, sorted by `(eta, duration, uid)`, is served first come,
first served. Two such runs that insert the same jobs, in whatever order,
store the same times. -/
theorem recurrence (hr : cfg.resolution = 1) (h : w.Accepted cfg S job)
    (hexact : ∀ u, w.Created u → (job u).Exact) :
    w.Recurs job ∧
      ∀ (job' : Nat → Job) (w' : World Int), w'.Accepted cfg S job' →
        (∀ v, w'.Created v → (job' v).Exact) → SameJobs job w job' w' →
        ∀ u ∈ w.events, ∀ v ∈ w'.events, job u = job' v →
          ∃ p, Stored (w.obj u) p ∧ Stored (w'.obj v) p := by
  refine ⟨(h.inserted hr hexact).recurs, fun job' w' h' hexact' hsame u hu v hv hjob => ?_⟩
  obtain ⟨us, start, hus, hsorted, hserves, hstored⟩ := (h.inserted hr hexact).recurs
  obtain ⟨vs, start', hvs, hsorted', hserves', hstored'⟩ := (h'.inserted hr hexact').recurs
  have hjobs := hsame.map_eq hus hvs hsorted hsorted'
  have hinputs : us.map (fun u => ((job u).eta, (job u).duration))
      = vs.map fun v => ((job' v).eta, (job' v).duration) := by
    simpa only [List.map_map, Function.comp_def] using
      congrArg (List.map fun j : Job => (j.eta, j.duration)) hjobs
  have hstarts := hserves.map_start hserves' hinputs
  -- the event of the other run that is served like `u`
  have hserved : ((job u).eta, (job u).duration, start u)
      ∈ us.map fun u => ((job u).eta, (job u).duration, start u) :=
    List.mem_map.mpr ⟨u, (hus u).mpr hu, rfl⟩
  rw [hstarts] at hserved
  obtain ⟨v', hv', heq⟩ := List.mem_map.mp hserved
  simp only [Prod.mk.injEq] at heq
  have hjob' : job' v' = job' v := by
    rw [← hjob]
    cases hj : job' v'
    cases hi : job u
    simp only [hj, hi] at heq
    rw [heq.1, heq.2.1]
  have hsameEvent : v' = v := hsame.distinct' v' ((hvs v').mp hv') v hv hjob'
  refine ⟨servedPlan job start u, hstored u ((hus u).mpr hu), ?_⟩
  have hslot : servedPlan job start u = servedPlan job' start' v := by
    rw [servedPlan, servedPlan, hjob, ← heq.2.2, hsameEvent]
  rw [hslot]
  exact hstored' v ((hvs v).mpr hv)

/-- Save an event with a solver that knows the service of the queue. -/
def insert (cfg : BufferScheduler Int) (S : Sorter Nat) (job : Nat → Job) (w : World Int)
    (u : Nat) (start : Nat → Int) : World Int :=
  w.step cfg S (.save (.answering (w.model cfg S [u] none)
    (assignmentOf (w.problem cfg S [u] none).lo (servedPlan job start))) u none)

theorem Accepted.insert {u : Nat} {start : Nat → Int} (hr : cfg.resolution = 1)
    (h : w.Accepted cfg S job) (hexact : ∀ u, w.Created u → (job u).Exact)
    (hu : w.Created u) (hread : w.Readable cfg [u] none)
    (hserves : Serves (fun u => (job u).eta) (fun u => (job u).duration) start none
      (w.problem cfg S [u] none).order)
    (hsat : (w.model cfg S [u] none).Satisfiable) :
    (w.insert cfg S job u start).Accepted cfg S job := by
  obtain ⟨p, hp⟩ := (Problem.satisfiable_iff (asks hread)).mp hsat
  have hcheapest := ((h.inserted hr hexact).serial hr hu).served_cheapest hp hserves
  have hoptimal : (w.model cfg S [u] none).Optimal _ :=
    Problem.optimal_of_cheapest (asks hread) hcheapest
  exact .step _ h ⟨hu, Cp.Solver.answering_minimizing hoptimal,
    save_true_iff.mpr ⟨hread, _, Cp.Solver.answering_self _ _⟩⟩

/-- Two events that arrive at 0, of lengths 2 and 1. -/
def pairJob : Nat → Job := fun u => if u = 1 then ⟨0, 2⟩ else ⟨0, 1⟩

theorem pairJob_exact (u : Nat) : (pairJob u).Exact := by
  unfold pairJob
  split <;> decide

/-- The shorter one is processed first, once both are in the queue. -/
def pairStart : Nat → Int := fun u => if u = 1 then 1 else 0

def pairCreated : World Int :=
  ((init (.single 20 2 1)).step (.single 20 2 1) (.insertion Nat)
    (.create (pairJob 1).args)).step (.single 20 2 1) (.insertion Nat)
    (.create (pairJob 2).args)

/-- One event is inserted, then the other. -/
def pairInserted (first second : Nat) : World Int :=
  (pairCreated.insert (.single 20 2 1) (.insertion Nat) pairJob first fun _ => 0).insert
    (.single 20 2 1) (.insertion Nat) pairJob second pairStart

theorem pairCreated_accepted :
    pairCreated.Accepted (.single 20 2 1) (.insertion Nat) pairJob :=
  .step _ (.step _ .init (by exact ⟨rfl, by decide⟩)) (by exact ⟨rfl, by decide⟩)

theorem pairInserted_accepted {first second : Nat}
    (h : (first, second) = (1, 2) ∨ (first, second) = (2, 1)) :
    (pairInserted first second).Accepted (.single 20 2 1) (.insertion Nat) pairJob := by
  simp only [Prod.mk.injEq] at h
  rcases h with ⟨rfl, rfl⟩ | ⟨rfl, rfl⟩
  · refine Accepted.insert rfl (Accepted.insert rfl pairCreated_accepted
      (fun u _ => pairJob_exact u) (by decide) ?_ (by exact ⟨rfl, trivial⟩) ?_)
      (fun u _ => pairJob_exact u) (by decide) ?_ (by exact ⟨rfl, rfl, trivial⟩) ?_
    · intro u hu
      rw [List.mem_singleton.mp (show u ∈ [1] from hu)]
      exact ⟨_, rfl⟩
    · exact ⟨assignmentOf 0 (servedPlan pairJob fun _ => 0), by decide⟩
    · intro u hu
      have hu : u ∈ [1, 2] := hu
      simp only [List.mem_cons, List.not_mem_nil, or_false] at hu
      rcases hu with rfl | rfl <;> exact ⟨_, rfl⟩
    · exact ⟨assignmentOf 0 (servedPlan pairJob pairStart), by decide⟩
  · refine Accepted.insert rfl (Accepted.insert rfl pairCreated_accepted
      (fun u _ => pairJob_exact u) (by decide) ?_ (by exact ⟨rfl, trivial⟩) ?_)
      (fun u _ => pairJob_exact u) (by decide) ?_ (by exact ⟨rfl, rfl, trivial⟩) ?_
    · intro u hu
      rw [List.mem_singleton.mp (show u ∈ [2] from hu)]
      exact ⟨_, rfl⟩
    · exact ⟨assignmentOf 0 (servedPlan pairJob fun _ => 0), by decide⟩
    · intro u hu
      have hu : u ∈ [2, 1] := hu
      simp only [List.mem_cons, List.not_mem_nil, or_false] at hu
      rcases hu with rfl | rfl <;> exact ⟨_, rfl⟩
    · exact ⟨assignmentOf 0 (servedPlan pairJob pairStart), by decide⟩

theorem recurrence_pair :
    (pairInserted 1 2).Recurs pairJob ∧
      ∃ p, Stored ((pairInserted 1 2).obj 1) p ∧ Stored ((pairInserted 2 1).obj 1) p := by
  have hevents : (pairInserted 1 2).events = [1, 2] ∧ (pairInserted 2 1).events = [2, 1] := by
    decide
  obtain ⟨hrecurs, hsame⟩ := recurrence rfl (pairInserted_accepted (Or.inl rfl))
    fun u _ => pairJob_exact u
  exact ⟨hrecurs, hsame pairJob _ (pairInserted_accepted (Or.inr rfl))
    (fun u _ => pairJob_exact u) ⟨by decide, by decide, by simp [hevents, or_comm]⟩ 1 (by decide)
    1 (by decide) rfl⟩

/-- The job of an event whose arrival no float holds. -/
def vastJob : Nat → Job := fun _ => ⟨2 ^ 53 + 1, 1⟩

/-- The event is accepted, and the time it is stored to arrive at is not its
own. -/
theorem served_early :
    vast.Accepted (.single 10 1 1) (.insertion Nat) vastJob ∧
      ∀ cp : Cp.Solver Var, cp.Minimizing → cp.Complete →
        let w := vast.step (.single 10 1 1) (.insertion Nat) (.save cp 1 none)
        w.Accepted (.single 10 1 1) (.insertion Nat) vastJob ∧ ¬ w.Recurs vastJob := by
  have hcreated : vast.Accepted (.single 10 1 1) (.insertion Nat) vastJob :=
    .step _ .init (by exact ⟨rfl, by decide⟩)
  refine ⟨hcreated, fun cp hminimizing hcomplete => ?_⟩
  obtain ⟨hsave, hevent, -, -, htime⟩ := save_vast
    (fun m s hs => (hminimizing m s hs).sat) hcomplete
  refine ⟨.step _ hcreated ⟨by decide, hminimizing, hsave⟩, ?_⟩
  rintro ⟨us, start, hmem, -, -, hstored⟩
  have heta := htime.symm.trans (hstored 1 ((hmem 1).mpr hevent)).eta
  simp [servedPlan, vastJob] at heta

end World

end Iams.Scheduler
