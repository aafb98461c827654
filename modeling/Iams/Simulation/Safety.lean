/-
Iams.Simulation.Safety — what holds in every state of a simulation.

  §1 Passes     — `Pass` lists what one pass through the loop can do,
                  and `loop_keeps` and `prepare_keeps` are the rules for
                  what comes before the loop and for the loop itself.
  §2 Safety     — `Safe`, the invariant of every state of a simulation:
                  the queue is a heap, no entry of it lies in the past,
                  and no entry is doubled. `Popped` is what holds between
                  `heappop` and the execution.
  §3 Accounting — `Accounted`: every entry that was made is queued,
                  executed, cancelled or beyond the limit.
  §4 Calls      — both for a whole `__call__`, by induction on the
                  passes, and for all that was done before it.

No `sorry`, no `axiom`, no `native_decide`.
-/
import Iams.Simulation.Loop
import Mathlib.Algebra.Order.Group.Basic

namespace Iams.Simulation

open Iams.Lib Iams.Lib.Heapq

variable {σ τ β : Type} [AddCommGroup τ] [LinearOrder τ]

/-! ## §1 Passes -/

/-- One pass through the loop. -/
inductive Program.Pass (prog : Program σ τ β) (run : Run σ τ β) :
    Run σ τ β × Option Ending → Prop where
  | drained (hqueue : run.sim.queue = []) : Pass prog run (run, some .drained)
  | skipped {event queue} (hpop : heappop Queue.lt run.sim.queue = some (event, queue))
      (hdeleted : event.number ∈ run.sim.deleted) : Pass prog run (run.withQueue queue, none)
  | beyond {event queue} (hpop : heappop Queue.lt run.sim.queue = some (event, queue))
      (hbeyond : run.sim.beyond event.time = true) (events : Int) :
      Pass prog run ({ run with sim := { run.sim with queue := queue, events := events } },
        some .limit)
  | failed {event queue} (hpop : heappop Queue.lt run.sim.queue = some (event, queue)) :
      Pass prog run ((run.withQueue queue).observe event run.world, some .raised)
  | executed {event queue} (hpop : heappop Queue.lt run.sim.queue = some (event, queue))
      (halive : event.number ∉ run.sim.deleted) (hwithin : run.sim.beyond event.time = false)
      (world : σ) :
      Pass prog run (prog.execute ((run.withQueue queue).observe event world) event)

theorem Program.iterate_pass (prog : Program σ τ β) (run : Run σ τ β) :
    prog.Pass run (prog.iterate run) := by
  rw [iterate]
  split
  · next h => exact .drained (heappop_eq_none.mp h)
  · next event queue hpop =>
    rw [handle]
    split
    · next hdeleted => exact .skipped hpop hdeleted
    · next halive =>
      split
      · next hbeyond => exact .beyond hpop hbeyond _
      · next hwithin =>
        split
        · exact .failed hpop
        · next world _ => exact .executed hpop halive (eq_false_of_ne_true hwithin) world

/-- What every action of a callback keeps holds after the callback. -/
theorem Run.play_keeps {P : Run σ τ β → Prop} {run : Run σ τ β} (turn : Turn σ τ β)
    (hperform : ∀ a ∈ turn.actions, ∀ run, P run → P (run.perform a))
    (h : P { run with world := turn.world }) : P (run.play turn) := by
  unfold Run.play
  generalize { run with world := turn.world } = run' at h
  generalize turn.actions = actions at hperform
  induction actions generalizing run' with
  | nil => exact h
  | cons a rest ih =>
    rw [List.forall_mem_cons] at hperform
    exact ih _ (hperform.1 _ h) hperform.2

namespace Program

variable {prog : Program σ τ β} {run run' : Run σ τ β} {ending : Ending} {P : Run σ τ β → Prop}

/-- The loop rule: what every pass keeps holds before the last one. -/
theorem loop_keeps {Q : Run σ τ β → Ending → Prop}
    (hnext : ∀ run next, P run → prog.iterate run = (next, none) → P next)
    (hlast : ∀ run last ending, P run → prog.iterate run = (last, some ending) → Q last ending)
    {fuel : Nat} (hrun : P run) (hloop : prog.loop fuel run = some (run', ending)) :
    Q run' ending := by
  induction fuel generalizing run with
  | zero => cases hloop
  | succ fuel ih =>
    rcases hiter : prog.iterate run with ⟨next, passed⟩
    rw [loop, hiter] at hloop
    cases passed with
    | none => exact ih (hnext run next hrun hiter) hloop
    | some ending' =>
      obtain ⟨rfl, rfl⟩ := Prod.mk.inj (Option.some.inj hloop)
      exact hlast run next ending' hrun hiter

theorem initAgents_keeps
    (hagent : ∀ name run, P run → P (run.play (prog.agent name run.world run.sim)))
    (names : List String) (hrun : P run) : P (prog.initAgents names run).1 := by
  induction names generalizing run with
  | nil => exact hrun
  | cons name rest ih =>
    have hplay := hagent name run hrun
    rw [initAgents]
    split
    · exact ih hplay
    · exact hplay

/-- What all turns before the loop keep holds when it begins. -/
theorem prepare_keeps (hsetup : ∀ run, P run → P (run.play (prog.setup run.world run.sim)))
    (hagent : ∀ name run, P run → P (run.play (prog.agent name run.world run.sim)))
    (hrun : P run) : P (prog.prepare run).1 := by
  have hplay := hsetup run hrun
  rw [prepare]
  split
  · exact initAgents_keeps hagent _ hplay
  · exact hplay

end Program

/-! ## §2 Safety -/

/-- What is right about the execution of an event. -/
structure Execution.Sound (stop : Option τ) (e : Execution τ β) : Prop where
  limit : e.before.limit = stop
  least : ∀ q ∈ e.before.queue, q.lt e.event = false
  alive : e.event.number ∉ e.before.deleted
  within : e.before.beyond e.event.time = false
  clock : e.before.time = e.event.time

namespace Run

/-- The entries that are queued or were executed. -/
def kept (run : Run σ τ β) : List (Queue τ β) :=
  run.sim.queue ++ run.trace.map fun e => e.event

/-- The values of the clock, from the first to the last. -/
def clocks (start : τ) (run : Run σ τ β) : List τ :=
  start :: run.trace.map fun e => e.before.time

/-- The invariant of a simulation. -/
structure Safe (start : τ) (stop : Option τ) (run : Run σ τ β) : Prop where
  limit : run.sim.limit = stop
  heap : IsHeap Queue.lt run.sim.queue
  later : ∀ q ∈ run.sim.queue, run.sim.time ≤ q.time
  numbered : (run.calls.map fun p => p.1.number) = List.range run.sim.created
  stamped : ∀ p ∈ run.calls, p.1.time = p.2 + p.1.dt
  listed : ∀ q ∈ run.kept, q ∈ run.calls.map Prod.fst
  once : (run.kept.map fun q => q.number).Nodup
  sound : ∀ e ∈ run.trace, e.Sound stop
  seen : ∀ e ∈ run.trace, ∀ q ∈ e.event :: e.before.queue, q ∈ run.calls.map Prod.fst
  clocks : (run.clocks start).Pairwise (· ≤ ·)
  now : (run.clocks start).getLast? = some run.sim.time
  past : ∀ t ∈ run.clocks start, t ≤ run.sim.time
  deltas : ∀ d ∈ run.deltas, 0 ≤ d

/-- `heappop` has returned the event. -/
structure Popped (start : τ) (stop : Option τ) (run : Run σ τ β) (event : Queue τ β) : Prop
    extends run.Safe start stop where
  due : run.sim.time ≤ event.time
  known : event ∈ run.calls.map Prod.fst
  fresh : event.number ∉ run.kept.map fun q => q.number
  least : ∀ q ∈ run.sim.queue, q.lt event = false

variable {start : τ} {stop : Option τ} {run : Run σ τ β} {event : Queue τ β}

theorem init_safe (start : τ) (stop : Option τ) (world : σ) :
    (init start stop world : Run σ τ β).Safe start stop where
  limit := rfl
  heap := isHeap_nil
  later _ h := absurd h List.not_mem_nil
  numbered := rfl
  stamped _ h := absurd h List.not_mem_nil
  listed _ h := absurd h List.not_mem_nil
  once := List.nodup_nil
  sound _ h := absurd h List.not_mem_nil
  seen _ h := absurd h List.not_mem_nil
  clocks := List.pairwise_singleton _ _
  now := rfl
  past _ h := le_of_eq (List.mem_singleton.mp h)
  deltas _ h := absurd h List.not_mem_nil

/-- The world and the count of events do not matter. -/
theorem Safe.withWorld (h : run.Safe start stop) (world : σ) (events : Int) :
    Run.Safe start stop
      { run with world := world, sim := { run.sim with events := events } } :=
  ⟨h.limit, h.heap, h.later, h.numbered, h.stamped, h.listed, h.once, h.sound, h.seen, h.clocks,
    h.now, h.past, h.deltas⟩

theorem Safe.number_lt (h : run.Safe start stop) {q : Queue τ β}
    (hq : q ∈ run.calls.map Prod.fst) : q.number < run.sim.created := by
  obtain ⟨p, hp, rfl⟩ := List.mem_map.mp hq
  rw [← List.mem_range, ← h.numbered]
  exact List.mem_map_of_mem hp

theorem Safe.cancel (h : run.Safe start stop) (number : Nat) :
    (run.perform (.cancel number)).Safe start stop := by
  simp only [Run.perform, SimulationInterface.cancel]
  split
  · exact ⟨h.limit, h.heap, h.later, h.numbered, h.stamped, h.listed, h.once, h.sound, h.seen,
      h.clocks, h.now, h.past, h.deltas⟩
  · exact h

section

variable [IsOrderedAddMonoid τ]

theorem Safe.schedule (h : run.Safe start stop) (call : β) {dt : τ} (hdt : 0 ≤ dt)
    (priority : Priority.Arg) : (run.perform (.schedule call dt priority)).Safe start stop := by
  have hperm : (run.perform (.schedule call dt priority)).kept.Perm
      (run.sim.entry call dt priority :: run.kept) :=
    (heappush_perm run.sim.queue _).append_right _
  have hcalls (p : Queue τ β × τ) (hp : p ∈ (run.perform (.schedule call dt priority)).calls) :
      p ∈ run.calls ∨ p = (run.sim.entry call dt priority, run.sim.time) := by
    simpa [perform] using hp
  have hlisted {q : Queue τ β} (hq : q ∈ run.sim.entry call dt priority :: run.calls.map Prod.fst) :
      q ∈ (run.perform (.schedule call dt priority)).calls.map Prod.fst := by
    simpa [perform, or_comm] using hq
  refine ⟨h.limit, heappush_isHeap (Queue.weakOrderOn_lt _) h.heap, ?_, ?_, ?_, ?_, ?_, h.sound,
    ?_, h.clocks, h.now, h.past, h.deltas⟩
  · intro q hq
    rcases List.mem_cons.mp ((heappush_perm _ _).mem_iff.mp hq) with rfl | hq
    · exact le_add_of_nonneg_right hdt
    · exact h.later q hq
  · simp only [perform, SimulationInterface.schedule, List.map_append, h.numbered,
      List.range_succ]
    rfl
  · intro p hp
    rcases hcalls p hp with hp | rfl
    · exact h.stamped p hp
    · rfl
  · intro q hq
    rcases List.mem_cons.mp (hperm.mem_iff.mp hq) with rfl | hq
    · exact hlisted List.mem_cons_self
    · exact hlisted (List.mem_cons_of_mem _ (h.listed q hq))
  · refine ((hperm.map _).nodup_iff).mpr (List.nodup_cons.mpr ⟨fun hmem => ?_, h.once⟩)
    -- the number is new
    obtain ⟨q, hq, hnumber⟩ := List.mem_map.mp hmem
    exact absurd (h.number_lt (h.listed q hq)) (by simp [hnumber, SimulationInterface.entry])
  · exact fun e he q hq => hlisted (List.mem_cons_of_mem _ (h.seen e he q hq))

theorem Safe.perform (h : run.Safe start stop) {a : Action τ β} (ha : a.Forward) :
    (run.perform a).Safe start stop := by
  cases a with
  | schedule call dt priority => exact h.schedule call ha priority
  | cancel number => exact h.cancel number

theorem Safe.play (h : run.Safe start stop) {turn : Turn σ τ β} (hturn : turn.Forward) :
    (run.play turn).Safe start stop :=
  play_keeps turn (fun _ ha _ h => h.perform (hturn _ ha)) (h.withWorld turn.world run.sim.events)

end

theorem Safe.pop (h : run.Safe start stop) {queue : List (Queue τ β)}
    (hpop : heappop Queue.lt run.sim.queue = some (event, queue)) :
    (run.withQueue queue).Popped start stop event := by
  have hweak := Queue.weakOrderOn_lt run.sim.queue
  have hperm := heappop_perm hpop
  have hmem {q : Queue τ β} (hq : q ∈ event :: queue) : q ∈ run.sim.queue := hperm.mem_iff.mpr hq
  have hkept : run.kept.Perm (event :: (run.withQueue queue).kept) := hperm.append_right _
  have hevent : event ∈ run.sim.queue := hmem List.mem_cons_self
  have honce := ((hkept.map fun q => q.number).nodup_iff).mp h.once
  rw [List.map_cons, List.nodup_cons] at honce
  exact {
    limit := h.limit
    heap := heappop_isHeap hweak h.heap hpop
    later := fun q hq => h.later q (hmem (List.mem_cons_of_mem _ hq))
    numbered := h.numbered
    stamped := h.stamped
    listed := fun q hq => h.listed q (hkept.mem_iff.mpr (List.mem_cons_of_mem _ hq))
    once := honce.2
    sound := h.sound
    seen := h.seen
    clocks := h.clocks
    now := h.now
    past := h.past
    deltas := h.deltas
    due := h.later event hevent
    known := h.listed event (List.mem_append_left _ hevent)
    fresh := honce.1
    least := fun q hq => heappop_least hweak h.heap hpop q (hmem (List.mem_cons_of_mem _ hq)) }

theorem Popped.observe [IsOrderedAddMonoid τ] (h : run.Popped start stop event) (world : σ) :
    (run.observe event world).Popped start stop event := by
  have hdeltas (d : τ) (hd : d ∈ (run.observe event world).deltas) : 0 ≤ d := by
    rcases List.mem_append.mp hd with hd | hd
    · exact h.deltas d hd
    · rw [List.mem_singleton.mp hd]
      exact sub_nonneg.mpr h.due
  exact ⟨⟨h.limit, h.heap, h.later, h.numbered, h.stamped, h.listed, h.once, h.sound, h.seen,
    h.clocks, h.now, h.past, hdeltas⟩, h.due, h.known, h.fresh, h.least⟩

/-- The execution of an event that is neither cancelled nor beyond the
limit begins. -/
theorem Popped.begin (h : run.Popped start stop event)
    (halive : event.number ∉ run.sim.deleted) (hwithin : run.sim.beyond event.time = false) :
    (run.begin event).Safe start stop := by
  have hkept : (run.begin event).kept = run.kept ++ [event] := by
    simp [kept, Run.begin]
  have hclocks : (run.begin event).clocks start = run.clocks start ++ [event.time] := by
    simp [Run.clocks, Run.begin]
  refine ⟨h.limit, h.heap, ?_, h.numbered, h.stamped, ?_, ?_, ?_, ?_, ?_, ?_, ?_, h.deltas⟩
  · exact fun q hq => Queue.time_le_of_not_lt (h.least q hq)
  · intro q hq
    rw [hkept, List.mem_append, List.mem_singleton] at hq
    rcases hq with hq | rfl
    · exact h.listed q hq
    · exact h.known
  · rw [hkept, List.map_append]
    exact List.Nodup.append h.once (List.nodup_singleton _) (by simpa using h.fresh)
  · intro e he
    rcases List.mem_append.mp he with he | he
    · exact h.sound e he
    · rw [List.mem_singleton.mp he]
      exact ⟨h.limit, h.least, halive, hwithin, rfl⟩
  · intro e he q hq
    rcases List.mem_append.mp he with he | he
    · exact h.seen e he q hq
    · rw [List.mem_singleton.mp he] at hq
      rcases List.mem_cons.mp hq with rfl | hq
      · exact h.known
      · exact h.listed q (List.mem_append_left _ hq)
  · rw [hclocks, List.pairwise_append]
    refine ⟨h.clocks, List.pairwise_singleton _ _, fun t ht t' ht' => ?_⟩
    rw [List.mem_singleton.mp ht']
    exact (h.past t ht).trans h.due
  · rw [hclocks, List.getLast?_concat]
    rfl
  · intro t ht
    rw [hclocks, List.mem_append, List.mem_singleton] at ht
    rcases ht with ht | rfl
    · exact (h.past t ht).trans h.due
    · exact le_rfl

/-! ## §3 Accounting -/

/-- No entry is lost: each is queued, executed, cancelled or beyond the
limit. -/
def Accounted (run : Run σ τ β) : Prop :=
  ∀ q ∈ run.calls.map Prod.fst,
    q ∈ run.kept ∨ q.number ∈ run.sim.deleted ∨ run.sim.beyond q.time = true

/-- What is left in the queue is beyond the limit. -/
def Exhausted (run : Run σ τ β) : Prop := ∀ q ∈ run.sim.queue, run.sim.beyond q.time = true

omit [AddCommGroup τ] in
theorem init_accounted (start : τ) (stop : Option τ) (world : σ) :
    (init start stop world : Run σ τ β).Accounted := fun _ h => absurd h List.not_mem_nil

omit [AddCommGroup τ] in
/-- What is no longer kept must be cancelled or beyond the limit. -/
theorem Accounted.mono {run' : Run σ τ β} (h : run.Accounted) (hcalls : run'.calls = run.calls)
    (hdeleted : run.sim.deleted ⊆ run'.sim.deleted) (hlimit : run'.sim.limit = run.sim.limit)
    (hkept : ∀ q ∈ run.kept,
      q ∈ run'.kept ∨ q.number ∈ run'.sim.deleted ∨ run'.sim.beyond q.time = true) :
    run'.Accounted := by
  intro q hq
  rw [hcalls] at hq
  rcases h q hq with hq | hq | hbeyond
  · exact hkept q hq
  · exact .inr (.inl (hdeleted hq))
  · unfold SimulationInterface.beyond at hbeyond ⊢
    rw [hlimit]
    exact .inr (.inr hbeyond)

theorem Accounted.perform (h : run.Accounted) (a : Action τ β) : (run.perform a).Accounted := by
  cases a with
  | schedule call dt priority =>
    have hpush {q : Queue τ β} : q ∈ (run.perform (.schedule call dt priority)).kept ↔
        q ∈ run.sim.entry call dt priority :: run.kept :=
      ((heappush_perm run.sim.queue _).append_right _).mem_iff
    intro q hq
    simp only [Run.perform, List.map_append, List.mem_append, List.map_cons, List.map_nil,
      List.mem_singleton] at hq
    rw [hpush]
    rcases hq with hq | rfl
    · exact (h q hq).imp_left (List.mem_cons_of_mem _)
    · exact .inl List.mem_cons_self
  | cancel number =>
    simp only [Run.perform, SimulationInterface.cancel]
    split
    · exact h.mono rfl (List.subset_cons_self _ _) rfl fun _ hq => .inl hq
    · exact h

theorem Accounted.play (h : run.Accounted) (turn : Turn σ τ β) : (run.play turn).Accounted :=
  play_keeps turn (fun a _ _ h => h.perform a) h

omit [AddCommGroup τ] in
theorem mem_kept_pop {queue : List (Queue τ β)}
    (hpop : heappop Queue.lt run.sim.queue = some (event, queue)) {q : Queue τ β}
    (hq : q ∈ run.kept) : q = event ∨ q ∈ (run.withQueue queue).kept :=
  List.mem_cons.mp (((heappop_perm hpop).append_right _).mem_iff.mp hq)

omit [AddCommGroup τ] in
/-- A cancelled event need not be kept, nor one beyond the limit. -/
theorem Accounted.drop (h : run.Accounted) {queue : List (Queue τ β)}
    (hpop : heappop Queue.lt run.sim.queue = some (event, queue))
    (hevent : event.number ∈ run.sim.deleted ∨ run.sim.beyond event.time = true) :
    (run.withQueue queue).Accounted := by
  refine h.mono rfl (List.Subset.refl _) rfl fun q hq => ?_
  rcases mem_kept_pop hpop hq with rfl | hq
  · exact .inr hevent
  · exact .inl hq

omit [AddCommGroup τ] in
theorem beyond_mono {sim : SimulationInterface τ β} {t t' : τ} (h : sim.beyond t = true)
    (htt' : t ≤ t') : sim.beyond t' = true := by
  unfold SimulationInterface.beyond at h ⊢
  split at h
  · cases h
  · next limit hlimit =>
    simp only [decide_eq_true_eq] at h ⊢
    exact h.trans_le htt'

end Run

/-! ## §4 Calls -/

namespace Program

variable {prog : Program σ τ β} {start : τ} {stop : Option τ} {run : Run σ τ β}

theorem iterate_safe [IsOrderedAddMonoid τ] (hprog : prog.Forward) (h : run.Safe start stop) :
    (prog.iterate run).1.Safe start stop := by
  have hpass := prog.iterate_pass run
  generalize prog.iterate run = r at hpass ⊢
  cases hpass with
  | drained => exact h
  | skipped hpop => exact (h.pop hpop).toSafe
  | beyond hpop _ events => exact (h.pop hpop).toSafe.withWorld run.world events
  | failed hpop => exact ((h.pop hpop).observe run.world).toSafe
  | executed hpop halive hwithin world =>
    exact (((h.pop hpop).observe world).begin halive hwithin).play (hprog.callback _ _ _)

/-- An event that `heappop` returns is accounted for, unless
`event_callback` raises. -/
theorem iterate_accounted (prog : Program σ τ β) (h : run.Accounted)
    (hend : (prog.iterate run).2 ≠ some .raised) : (prog.iterate run).1.Accounted := by
  have hpass := prog.iterate_pass run
  generalize prog.iterate run = r at hpass hend ⊢
  cases hpass with
  | drained => exact h
  | skipped hpop hdeleted => exact h.drop hpop (.inl hdeleted)
  | beyond hpop hbeyond => exact h.drop hpop (.inr hbeyond)
  | failed => exact absurd rfl hend
  | @executed event queue hpop halive hwithin world =>
    have hkept : (((run.withQueue queue).observe event world).begin event).kept =
        (run.withQueue queue).kept ++ [event] := by
      simp [Run.kept, Run.begin, Run.observe]
    have hbegin : (((run.withQueue queue).observe event world).begin event).Accounted := by
      refine h.mono rfl (List.Subset.refl _) rfl fun q hq => .inl ?_
      rw [hkept, List.mem_append, List.mem_singleton]
      exact (Run.mem_kept_pop hpop hq).symm
    exact hbegin.play _

theorem iterate_exhausted (prog : Program σ τ β) (h : run.Safe start stop)
    (hend : (prog.iterate run).2 = some .drained ∨ (prog.iterate run).2 = some .limit) :
    (prog.iterate run).1.Exhausted := by
  have hpass := prog.iterate_pass run
  generalize prog.iterate run = r at hpass hend ⊢
  cases hpass with
  | drained hqueue =>
    intro q hq
    rw [hqueue] at hq
    exact absurd hq List.not_mem_nil
  | skipped => simp at hend
  | beyond hpop hbeyond =>
    -- no entry of the queue is due before the one that was too late
    intro q hq
    exact Run.beyond_mono hbeyond (Queue.time_le_of_not_lt ((h.pop hpop).least q hq))
  | failed => simp at hend
  | @executed event queue _ _ _ world =>
    simp only [execute] at hend
    generalize (prog.callback _ _ _).outcome = outcome at hend
    cases outcome <;> simp [Outcome.ending] at hend

end Program

/-- What holds when the loop has ended. -/
structure Run.Ended (start : τ) (stop : Option τ) (run : Run σ τ β) (ending : Ending) : Prop where
  safe : run.Safe start stop
  accounted : ending ≠ .raised → run.Accounted
  exhausted : ending = .drained ∨ ending = .limit → run.Exhausted

namespace Program

variable {prog : Program σ τ β} {start : τ} {stop : Option τ} {run run' : Run σ τ β}
  {ending : Ending}

section

variable [IsOrderedAddMonoid τ] (hprog : prog.Forward)

include hprog

theorem loop_ended {fuel : Nat} (h : run.Safe start stop) (haccounted : run.Accounted)
    (hloop : prog.loop fuel run = some (run', ending)) : run'.Ended start stop ending := by
  refine loop_keeps (P := fun run => run.Safe start stop ∧ run.Accounted)
    (Q := fun run ending => run.Ended start stop ending) ?_ ?_ ⟨h, haccounted⟩ hloop
  · rintro run next ⟨h, haccounted⟩ hiter
    have hsafe := iterate_safe hprog h
    have haccounted' := prog.iterate_accounted haccounted
    rw [hiter] at hsafe haccounted'
    exact ⟨hsafe, haccounted' (by simp)⟩
  · rintro run last ending ⟨h, haccounted⟩ hiter
    have hsafe := iterate_safe hprog h
    have haccounted' := prog.iterate_accounted haccounted
    have hexhausted := prog.iterate_exhausted h
    rw [hiter] at hsafe haccounted' hexhausted
    refine ⟨hsafe, fun hraised => haccounted' ?_, fun hend => hexhausted ?_⟩
    · simpa using hraised
    · simpa using hend

theorem prepare_safe (h : run.Safe start stop) : (prog.prepare run).1.Safe start stop :=
  prepare_keeps (fun _ h => h.play (hprog.setup _ _)) (fun _ _ h => h.play (hprog.agent _ _ _)) h

end

theorem prepare_accounted (prog : Program σ τ β) (h : run.Accounted) :
    (prog.prepare run).1.Accounted :=
  prepare_keeps (fun _ h => h.play _) (fun _ _ h => h.play _) h

theorem settle_ended (h : run.Ended start stop ending) :
    (settle (run, ending)).1.Ended start stop (settle (run, ending)).2 := by
  have hcount (events : Int) :
      Run.Ended start stop { run with sim := { run.sim with events := events } } ending :=
    ⟨h.safe.withWorld run.world events, h.accounted, h.exhausted⟩
  cases ending with
  | raised => exact h
  | drained => exact hcount _
  | limit => exact hcount _
  | stopped => exact hcount _

/-- A call ends as its loop does. -/
theorem call_ended [IsOrderedAddMonoid τ] (hprog : prog.Forward) {fuel : Nat}
    (h : run.Safe start stop) (haccounted : run.Accounted)
    (hcall : prog.call fuel run = some (run', ending)) : run'.Ended start stop ending := by
  have hsafe := prepare_safe hprog h
  have haccounted' := prog.prepare_accounted haccounted
  rw [call] at hcall
  split at hcall
  · next ready hprepare =>
    rw [hprepare] at hsafe haccounted'
    obtain ⟨⟨last, ending'⟩, hloop, hsettle⟩ := Option.map_eq_some_iff.mp hcall
    have hended := settle_ended (loop_ended hprog hsafe haccounted' hloop)
    rwa [hsettle] at hended
  · next last outcome hprepare =>
    rw [hprepare] at hsafe
    obtain ⟨rfl, rfl⟩ := Prod.mk.inj (Option.some.inj hcall)
    exact ⟨hsafe, fun hraised => absurd rfl hraised, by simp⟩

/-- Whatever was done with a simulation before. -/
theorem Callable.safe [IsOrderedAddMonoid τ] (hprog : prog.Forward) {world : σ}
    (h : prog.Callable start stop world run) : run.Safe start stop ∧ run.Accounted := by
  refine h.invariant (fun run => run.Safe start stop ∧ run.Accounted)
    ⟨Run.init_safe start stop world, Run.init_accounted start stop world⟩ ?_
  rintro run (turn | fuel) ⟨hsafe, haccounted⟩ hpermitted
  · exact ⟨hsafe.play hpermitted, haccounted.play turn⟩
  · obtain ⟨run', ending, hcall, hraised⟩ := hpermitted
    have hended := call_ended hprog hsafe haccounted hcall
    rw [use, hcall]
    exact ⟨hended.safe, hended.accounted hraised⟩

end Program

end Iams.Simulation
