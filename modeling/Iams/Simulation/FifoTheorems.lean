/-
Iams.Simulation.FifoTheorems — simultaneous events.

Of the events for one time with one priority the comparison puts the one
with the longer delay first, which is the one that was scheduled earlier
if nothing is scheduled for the past. Events that were scheduled at the
same time as well are equal, and then it is the heap that decides:
`fifo_iff` reduces the order of all simultaneous events to what `heappop`
does with equal ones.

§1 what is in the queue, §2 when it was scheduled, §3 the result, §4 four
simultaneous events.

No `sorry`, no `axiom`, no `native_decide`.
-/
import Iams.Simulation.Rules
import Mathlib.Algebra.Order.Group.Int

namespace Iams.Simulation

open Iams.Lib Iams.Lib.Heapq

variable {σ τ β : Type} [AddCommGroup τ] [LinearOrder τ]

/-! ## §1 What is in the queue -/

namespace Run

/-- A queued entry was there already when an event was executed, or it was
scheduled afterwards. -/
structure Remembered (run : Run σ τ β) : Prop where
  queued : ∀ q ∈ run.sim.queue, q.number < run.sim.created
  executed : ∀ e ∈ run.trace, e.event.number < e.before.created ∧
    e.before.created ≤ run.sim.created
  left : ∀ e ∈ run.trace, ∀ q ∈ run.sim.queue, q ∈ e.before.queue ∨ e.before.created ≤ q.number
  order : run.trace.Pairwise fun e e' =>
    e'.event ∈ e.before.queue ∨ e.before.created ≤ e'.event.number

variable {run : Run σ τ β} {event : Queue τ β}

omit [AddCommGroup τ] [LinearOrder τ] in
theorem init_remembered (start : τ) (stop : Option τ) (world : σ) :
    (init start stop world : Run σ τ β).Remembered where
  queued _ h := absurd h List.not_mem_nil
  executed _ h := absurd h List.not_mem_nil
  left _ h := absurd h List.not_mem_nil
  order := .nil

theorem Remembered.perform (h : run.Remembered) (a : Action τ β) :
    (run.perform a).Remembered := by
  cases a with
  | schedule call dt priority =>
    have hmem {q : Queue τ β} (hq : q ∈ (run.perform (.schedule call dt priority)).sim.queue) :
        q = run.sim.entry call dt priority ∨ q ∈ run.sim.queue :=
      List.mem_cons.mp ((heappush_perm _ _).mem_iff.mp hq)
    refine ⟨fun q hq => ?_, fun e he => ?_, fun e he q hq => ?_, h.order⟩
    · rcases hmem hq with rfl | hq
      · exact Nat.lt_succ_self _
      · exact Nat.lt_succ_of_lt (h.queued q hq)
    · obtain ⟨hlt, hle⟩ := h.executed e he
      exact ⟨hlt, Nat.le_succ_of_le hle⟩
    · rcases hmem hq with rfl | hq
      · exact .inr (h.executed e he).2
      · exact h.left e he q hq
  | cancel number =>
    simp only [Run.perform, SimulationInterface.cancel]
    split
    · exact ⟨h.queued, h.executed, h.left, h.order⟩
    · exact h

theorem Remembered.play (h : run.Remembered) (turn : Turn σ τ β) :
    (run.play turn).Remembered :=
  play_keeps turn (fun a _ _ h => h.perform a) ⟨h.queued, h.executed, h.left, h.order⟩

omit [AddCommGroup τ] [LinearOrder τ] in
/-- Entries may leave the queue. -/
theorem Remembered.fewer (h : run.Remembered) {run' : Run σ τ β}
    (hqueue : run'.sim.queue ⊆ run.sim.queue) (hcreated : run'.sim.created = run.sim.created)
    (htrace : run'.trace = run.trace) : run'.Remembered := by
  refine ⟨fun q hq => hcreated ▸ h.queued q (hqueue hq), ?_, ?_, htrace ▸ h.order⟩
  · rw [htrace, hcreated]
    exact h.executed
  · rw [htrace]
    exact fun e he q hq => h.left e he q (hqueue hq)

omit [AddCommGroup τ] in
theorem pop_subset {queue : List (Queue τ β)}
    (hpop : heappop Queue.lt run.sim.queue = some (event, queue)) :
    event ∈ run.sim.queue ∧ queue ⊆ run.sim.queue := by
  have hperm := heappop_perm hpop
  exact ⟨hperm.mem_iff.mpr List.mem_cons_self,
    fun q hq => hperm.mem_iff.mpr (List.mem_cons_of_mem event hq)⟩

theorem Remembered.begin (h : run.Remembered) {queue : List (Queue τ β)}
    (hpop : heappop Queue.lt run.sim.queue = some (event, queue)) (world : σ) :
    (((run.withQueue queue).observe event world).begin event).Remembered := by
  obtain ⟨hevent, hqueue⟩ := pop_subset hpop
  refine ⟨fun q hq => h.queued q (hqueue hq), fun e he => ?_, fun e he q hq => ?_, ?_⟩
  · rcases List.mem_append.mp he with he | he
    · exact h.executed e he
    · rw [List.mem_singleton.mp he]
      exact ⟨h.queued event hevent, le_refl _⟩
  · rcases List.mem_append.mp he with he | he
    · exact h.left e he q (hqueue hq)
    · rw [List.mem_singleton.mp he]
      exact .inl hq
  · refine List.pairwise_append.mpr ⟨h.order, List.pairwise_singleton _ _, fun e he e' he' => ?_⟩
    rw [List.mem_singleton.mp he']
    exact h.left e he event hevent

end Run

theorem Program.keeps_remembered (prog : Program σ τ β) : prog.Keeps Run.Remembered where
  setup run h := h.play _
  agent name run h := h.play _
  count run events h := h.fewer (List.Subset.refl _) rfl rfl
  pass run h := by
    have hpass := prog.iterate_pass run
    generalize prog.iterate run = r at hpass ⊢
    cases hpass with
    | drained => exact h
    | skipped hpop => exact h.fewer (Run.pop_subset hpop).2 rfl rfl
    | beyond hpop => exact h.fewer (Run.pop_subset hpop).2 rfl rfl
    | failed hpop => exact h.fewer (Run.pop_subset hpop).2 rfl rfl
    | executed hpop _ _ world => exact (h.begin hpop world).play _

/-! ## §2 When it was scheduled -/

namespace Run

variable {start : τ} {stop : Option τ} {run : Run σ τ β} {event : Queue τ β}

/-- Later entries were not made earlier. -/
structure Stamped (run : Run σ τ β) : Prop where
  order : run.calls.Pairwise fun p p' => p.1.number < p'.1.number ∧ p.2 ≤ p'.2
  now : ∀ p ∈ run.calls, p.1.number < run.sim.created ∧ p.2 ≤ run.sim.time

theorem Stamped.perform (h : run.Stamped) (a : Action τ β) : (run.perform a).Stamped := by
  cases a with
  | schedule call dt priority =>
    refine ⟨List.pairwise_append.mpr ⟨h.order, List.pairwise_singleton _ _, ?_⟩, fun p hp => ?_⟩
    · intro p hp p' hp'
      rw [List.mem_singleton.mp hp']
      exact h.now p hp
    · rcases List.mem_append.mp hp with hp | hp
      · exact ⟨Nat.lt_succ_of_lt (h.now p hp).1, (h.now p hp).2⟩
      · rw [List.mem_singleton.mp hp]
        exact ⟨Nat.lt_succ_self _, le_refl _⟩
  | cancel number =>
    simp only [Run.perform, SimulationInterface.cancel]
    split
    · exact ⟨h.order, h.now⟩
    · exact h

theorem Stamped.play (h : run.Stamped) (turn : Turn σ τ β) : (run.play turn).Stamped :=
  play_keeps turn (fun a _ _ h => h.perform a) ⟨h.order, h.now⟩

omit [AddCommGroup τ] in
/-- The clock goes forward. -/
theorem Stamped.later (h : run.Stamped) {run' : Run σ τ β} (hcalls : run'.calls = run.calls)
    (hcreated : run'.sim.created = run.sim.created) (htime : run.sim.time ≤ run'.sim.time) :
    run'.Stamped := by
  refine ⟨hcalls ▸ h.order, fun p hp => ?_⟩
  rw [hcalls] at hp
  exact ⟨hcreated ▸ (h.now p hp).1, (h.now p hp).2.trans htime⟩

omit [AddCommGroup τ] in
/-- Of two entries the one with the smaller number was made first. -/
theorem Stamped.stamp_le (h : run.Stamped) {p p' : Queue τ β × τ} (hp : p ∈ run.calls)
    (hp' : p' ∈ run.calls) (hnumber : p.1.number ≤ p'.1.number) : p.2 ≤ p'.2 := by
  obtain ⟨i, hi, rfl⟩ := List.getElem_of_mem hp
  obtain ⟨j, hj, rfl⟩ := List.getElem_of_mem hp'
  have horder := List.pairwise_iff_getElem.mp h.order
  rcases Nat.lt_trichotomy i j with hij | rfl | hji
  · exact (horder i j hi hj hij).2
  · exact le_refl _
  · exact absurd (horder j i hj hi hji).1 (Nat.not_lt.mpr hnumber)

end Run

theorem Program.keeps_stamped [IsOrderedAddMonoid τ] {prog : Program σ τ β}
    (hprog : prog.Forward) (start : τ) (stop : Option τ) :
    prog.Keeps fun run : Run σ τ β => run.Safe start stop ∧ run.Stamped where
  setup run h := ⟨h.1.play (hprog.setup _ _), h.2.play _⟩
  agent name run h := ⟨h.1.play (hprog.agent _ _ _), h.2.play _⟩
  count run events h := ⟨h.1.withWorld run.world events, h.2.order, h.2.now⟩
  pass run h := by
    refine ⟨iterate_safe hprog h.1, ?_⟩
    have hpass := prog.iterate_pass run
    generalize prog.iterate run = r at hpass ⊢
    cases hpass with
    | drained => exact h.2
    | skipped => exact ⟨h.2.order, h.2.now⟩
    | beyond => exact ⟨h.2.order, h.2.now⟩
    | failed => exact ⟨h.2.order, h.2.now⟩
    | @executed event queue hpop _ _ world =>
      have hbegin : (((run.withQueue queue).observe event world).begin event).Stamped :=
        h.2.later rfl rfl (h.1.pop hpop).due
      exact hbegin.play _

/-! ## §3 The order of simultaneous events -/

namespace Queue

omit [AddCommGroup τ] in
/-- `==` holds of entries for the same time, with the same priority and the
same delay. -/
theorem eq_iff {a b : Queue τ β} :
    a.eq b = true ↔ a.time = b.time ∧ a.priority = b.priority ∧ a.dt = b.dt := by
  rw [eq, compareTo_eq_compare, Ordering.isEq_iff_eq_eq, compare_eq_iff_eq, rank, rank,
    toLex_inj, Prod.mk.injEq, toLex_inj, Prod.mk.injEq, Priority.value_injective.eq_iff,
    OrderDual.toDual_inj]

end Queue

/-- No entry of the queue that compares equal to the event was scheduled
before it. -/
def Execution.First (e : Execution τ β) : Prop :=
  ∀ q ∈ e.before.queue, e.event.eq q = true → e.event.number < q.number

namespace Run

/-- Of two executed events for the same time with the same priority the one
that was passed to `schedule` first was executed first. -/
def Fifo (run : Run σ τ β) : Prop :=
  run.trace.Pairwise fun e e' => e.event.time = e'.event.time →
    e.event.priority = e'.event.priority → e.event.number < e'.event.number

/-- `heappop` never returns an event while one that was passed to
`schedule` before, for the same time and with the same priority, is in the
queue and will still be executed. -/
def PopsFirst (run : Run σ τ β) : Prop :=
  run.trace.Pairwise fun e e' => e'.event ∈ e.before.queue → e.event.time = e'.event.time →
    e.event.priority = e'.event.priority → e.event.number < e'.event.number

/-- The same for events that compare equal. -/
def PopsFirstEqual (run : Run σ τ β) : Prop :=
  run.trace.Pairwise fun e e' => e'.event ∈ e.before.queue → e.event.eq e'.event = true →
    e.event.number < e'.event.number

variable {start : τ} {stop : Option τ} {run : Run σ τ β}

omit [AddCommGroup τ] [LinearOrder τ] in
/-- What is scheduled after an execution comes after it anyway. -/
theorem Remembered.fifo_iff_popsFirst (h : run.Remembered) : run.Fifo ↔ run.PopsFirst := by
  constructor
  · exact fun hfifo => hfifo.imp fun hpair _ htime hpriority => hpair htime hpriority
  · intro hfirst
    refine (List.Pairwise.and_mem.mp (h.order.and hfirst)).imp ?_
    rintro e e' ⟨he, -, hqueue | hlater, hpair⟩ htime hpriority
    · exact hpair hqueue htime hpriority
    · exact (h.executed e he).1.trans_le hlater

/-- If nothing is scheduled for the past, an event with a shorter delay was
scheduled later. -/
theorem Stamped.popsFirst_iff [IsOrderedAddMonoid τ] (h : run.Stamped)
    (hsafe : run.Safe start stop) : run.PopsFirst ↔ run.PopsFirstEqual := by
  constructor
  · refine fun hfirst => hfirst.imp fun hpair hqueue heq => ?_
    obtain ⟨htime, hpriority, -⟩ := Queue.eq_iff.mp heq
    exact hpair hqueue htime hpriority
  · intro hequal
    refine (List.Pairwise.and_mem.mp hequal).imp ?_
    rintro e e' ⟨he, -, hpair⟩ hqueue htime hpriority
    have hdt : e'.event.dt ≤ e.event.dt :=
      Queue.dt_le_of_not_lt ((hsafe.sound e he).least _ hqueue) htime.symm hpriority.symm
    rcases hdt.eq_or_lt with hdt | hdt
    · exact hpair hqueue (Queue.eq_iff.mpr ⟨htime, hpriority, hdt.symm⟩)
    · -- it was scheduled at a later time
      by_contra hnumber
      obtain ⟨p, hp, hpe⟩ := List.mem_map.mp (hsafe.seen e he e.event List.mem_cons_self)
      obtain ⟨p', hp', hpe'⟩ :=
        List.mem_map.mp (hsafe.seen e he e'.event (List.mem_cons_of_mem _ hqueue))
      have hstamp : p'.2 ≤ p.2 :=
        h.stamp_le hp' hp (by rw [hpe, hpe']; exact Nat.not_lt.mp hnumber)
      have hsum : p.2 + e.event.dt = p'.2 + e'.event.dt := by
        rw [← hpe, ← hpe', ← hsafe.stamped p hp, ← hsafe.stamped p' hp', hpe, hpe', htime]
      exact absurd hsum (ne_of_gt (add_lt_add_of_le_of_lt hstamp hdt))

end Run

namespace Program

variable [IsOrderedAddMonoid τ] {prog : Program σ τ β} {start : τ} {stop : Option τ} {world : σ}
  {run run' : Run σ τ β} {fuel : Nat} {ending : Ending}

theorem Callable.stamped (hprog : prog.Forward) (h : prog.Callable start stop world run) :
    run.Safe start stop ∧ run.Stamped := by
  have hinit : (Run.init start stop world : Run σ τ β).Stamped :=
    ⟨.nil, fun _ h => absurd h List.not_mem_nil⟩
  refine h.invariant (fun run => run.Safe start stop ∧ run.Stamped)
    ⟨Run.init_safe start stop world, hinit⟩ ?_
  rintro run (turn | fuel) ⟨hsafe, hstamped⟩ hpermitted
  · exact ⟨hsafe.play hpermitted, hstamped.play turn⟩
  · obtain ⟨run', ending, hcall, -⟩ := hpermitted
    rw [use, hcall]
    exact (keeps_stamped hprog start stop).call ⟨hsafe, hstamped⟩ hcall

/-- In every run simultaneous events are executed first in, first out, if
and only if `heappop` does not return one of them before another one that
was scheduled first. If nothing is scheduled for the past, this is about
events that compare equal, and it holds if at every execution the event
was scheduled before the entries of the queue that compare equal to it. -/
theorem fifo_iff (hrun : prog.Used start stop world run)
    (hcall : prog.call fuel run = some (run', ending)) :
    (run'.Fifo ↔ run'.PopsFirst) ∧
      (prog.Forward → prog.Callable start stop world run →
        (run'.PopsFirst ↔ run'.PopsFirstEqual) ∧
          ((∀ e ∈ run'.trace, e.First) → run'.Fifo)) := by
  have hremembered := prog.keeps_remembered
  have hbefore := hremembered.used (Run.init_remembered start stop world)
    (fun _ turn h => h.play turn) hrun
  have hfifo := (hremembered.call hbefore hcall).fifo_iff_popsFirst
  refine ⟨hfifo, fun hprog hcallable => ?_⟩
  obtain ⟨hsafe, hstamped⟩ :=
    (keeps_stamped hprog start stop).call (Callable.stamped hprog hcallable) hcall
  have hequal := hstamped.popsFirst_iff hsafe
  refine ⟨hequal, fun hfirst => hfifo.mpr (hequal.mpr ?_)⟩
  exact List.pairwise_of_forall_mem_list fun e he e' _ hqueue => hfirst e he e'.event hqueue

end Program

/-! ## §4 Simultaneous events -/

/-- So many events are scheduled at once for the same time. -/
def crowdSetup (size : Nat) : Turn Unit Int String where
  world := ()
  actions := List.replicate size (.schedule "pass" 1 (.member .normal))
  outcome := .returns

def crowdPass : Turn Unit Int String where
  world := ()
  actions := []
  outcome := .returns

def crowd (size : Nat) : Program Unit Int String where
  setup _ _ := crowdSetup size
  agents _ := []
  agent _ _ _ := crowdPass
  eventCallback _ _ _ _ := some ()
  callback _ _ _ := crowdPass

theorem crowd_forward (size : Nat) : (crowd size).Forward where
  setup _ _ := fun a ha => by
    rw [List.eq_of_mem_replicate ha]
    decide
  agent _ _ _ := show crowdPass.Forward by decide
  callback _ _ _ := show crowdPass.Forward by decide

/-- In this order the events of a crowd are executed, all for the same time
with the same priority. -/
structure CrowdRun (size : Nat) (order : List Nat) (run : Run Unit Int String) : Prop where
  call : (crowd size).call 10 (.init 0 none ()) = some (run, .drained)
  order : run.trace.map (fun e => e.event.number) = order
  alike : run.trace.map (fun e => (e.event.time, e.event.priority)) =
    List.replicate size (1, .normal)

theorem exists_crowdRun (size : Nat) (order : List Nat)
    (hend : ((crowd size).call 10 (.init 0 none ())).map (fun r =>
      (r.1.trace.map fun e => e.event.number,
        r.1.trace.map fun e => (e.event.time, e.event.priority), r.2)) =
      some (order, List.replicate size (1, .normal), .drained)) :
    ∃ run, CrowdRun size order run := by
  obtain ⟨⟨run, ending⟩, hcall, heq⟩ := Option.map_eq_some_iff.mp hend
  obtain ⟨hnumbers, heq⟩ := Prod.mk.inj heq
  obtain ⟨hkeys, rfl⟩ := Prod.mk.inj heq
  exact ⟨run, hcall, hnumbers, hkeys⟩

/-- Of such a run the numbers tell whether it is first in, first out. -/
theorem CrowdRun.fifo_order {size : Nat} {order : List Nat} {run : Run Unit Int String}
    (h : CrowdRun size order run) : run.Fifo ↔ order.Pairwise (· < ·) := by
  have halike : ∀ e ∈ run.trace, e.event.time = 1 ∧ e.event.priority = .normal := by
    intro e he
    have hmem : (e.event.time, e.event.priority) ∈
        run.trace.map fun e => (e.event.time, e.event.priority) := List.mem_map.mpr ⟨e, he, rfl⟩
    rw [h.alike] at hmem
    exact Prod.mk.inj (List.eq_of_mem_replicate hmem)
  rw [← h.order, List.pairwise_map]
  refine ⟨fun hfifo => hfifo.imp_of_mem fun {e e'} he he' hlt => ?_,
    fun hlt => hlt.imp fun hlt _ _ => hlt⟩
  obtain ⟨htime, hpriority⟩ := halike e he
  obtain ⟨htime', hpriority'⟩ := halike e' he'
  exact hlt (htime.trans htime'.symm) (hpriority.trans hpriority'.symm)

/-- Two events come out in their order, and are popped in it; of four the
third is popped before the second, which compares equal. -/
theorem Program.fifo_iff_crowd :
    (∃ run, CrowdRun 2 [0, 1] run ∧ run.Fifo ∧ run.PopsFirst) ∧
      ∃ run, CrowdRun 4 [0, 2, 1, 3] run ∧ ¬ run.Fifo ∧ ¬ run.PopsFirstEqual := by
  obtain ⟨run₂, hrun₂⟩ := exists_crowdRun 2 [0, 1] (by decide)
  obtain ⟨run₄, hrun₄⟩ := exists_crowdRun 4 [0, 2, 1, 3] (by decide)
  have hinit (size : Nat) : (crowd size).Used 0 none () (.init 0 none ()) := .init
  obtain ⟨hiff₂, -⟩ := fifo_iff (hinit 2) hrun₂.call
  obtain ⟨hiff₄, hforward₄⟩ := fifo_iff (hinit 4) hrun₄.call
  obtain ⟨hequal₄, -⟩ := hforward₄ (crowd_forward 4) .init
  have hfifo₂ : run₂.Fifo := hrun₂.fifo_order.mpr (by decide)
  have hfifo₄ : ¬ run₄.Fifo := fun h => absurd (hrun₄.fifo_order.mp h) (by decide)
  exact ⟨⟨run₂, hrun₂, hfifo₂, hiff₂.mp hfifo₂⟩, run₄, hrun₄, hfifo₄,
    fun h => hfifo₄ (hiff₄.mpr (hequal₄.mpr h))⟩

/-- The third event is executed before the second one. -/
theorem crowd_not_fifo :
    ¬ ∀ (prog : Program Unit Int String) (start : Int) (stop : Option Int)
      (run run' : Run Unit Int String) (fuel : Nat) (ending : Ending),
      prog.Used start stop () run → prog.call fuel run = some (run', ending) → run'.Fifo := by
  intro h
  obtain ⟨run, hrun⟩ := exists_crowdRun 4 [0, 2, 1, 3] (by decide)
  have hfifo := h (crowd 4) 0 none _ run 10 .drained .init hrun.call
  exact absurd (hrun.fifo_order.mp hfifo) (by decide)

end Iams.Simulation
