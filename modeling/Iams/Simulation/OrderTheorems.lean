/-
Iams.Simulation.OrderTheorems — in which order a simulation executes its
events.

`executes_in_order` is about every call of a simulation that ends, with
any callbacks that schedule nothing for the past. The order rests on two
facts. `heappop` returns an entry that no other entry of the queue is less
than, since the comparison of entries is a weak order; and the delay,
which the comparison takes backwards, is the time of the event minus the
time at which it was scheduled, so that of the events for one time with
one priority the earliest scheduled comes first.

No `sorry`, no `axiom`, no `native_decide`.
-/
import Iams.Simulation.Safety
import Mathlib.Algebra.Order.Group.Int

namespace Iams.Simulation

open Iams.Lib

variable {σ τ β : Type} [AddCommGroup τ] [LinearOrder τ]

/-! ## The order of the events -/

namespace Run

/-- The events of a run were executed in order. -/
structure InOrder (start : τ) (stop : Option τ) (run : Run σ τ β) : Prop where
  distinct : (run.calls.map fun p => p.1.number).Nodup
  scheduled : ∀ e ∈ run.trace, ∀ q ∈ e.event :: e.before.pending, q ∈ run.calls.map Prod.fst
  first : ∀ e ∈ run.trace, ∀ q ∈ e.before.pending,
    ¬ toLex (q.time, q.priority.value) < toLex (e.event.time, e.event.priority.value)
  earliest : ∀ e ∈ run.trace, ∀ q ∈ e.before.pending,
    q.time = e.event.time → q.priority = e.event.priority →
    ∀ s t, (e.event, s) ∈ run.calls → (q, t) ∈ run.calls → ¬ t < s
  clock : (run.clocks start).Pairwise (· ≤ ·)
  now : (run.clocks start).getLast? = some run.sim.time
  deltas : ∀ d ∈ run.deltas, 0 ≤ d
  alive : ∀ e ∈ run.trace, e.event.number ∉ e.before.deleted
  within : ∀ e ∈ run.trace, ∀ limit, stop = some limit → ¬ limit < e.event.time
  once : (run.trace.map fun e => e.event.number).Nodup

/-- Every entry that was scheduled up to the limit and not cancelled was
executed, exactly once. -/
def EachOnce (stop : Option τ) (run : Run σ τ β) : Prop :=
  ∀ q ∈ run.calls.map Prod.fst, q.number ∉ run.sim.deleted →
    (∀ limit, stop = some limit → ¬ limit < q.time) →
    (run.trace.filter fun e => e.event.number = q.number).map (fun e => e.event) = [q]

variable {start : τ} {stop : Option τ} {run : Run σ τ β} {ending : Ending}

omit [AddCommGroup τ] in
theorem beyond_eq_true {sim : SimulationInterface τ β} {t : τ} :
    sim.beyond t = true ↔ ∃ limit, sim.limit = some limit ∧ limit < t := by
  unfold SimulationInterface.beyond
  split
  · next hlimit => simp [hlimit]
  · next limit hlimit => simp [hlimit]

omit [AddCommGroup τ] [LinearOrder τ] in
theorem filter_number {trace : List (Execution τ β)}
    (hnodup : (trace.map fun e => e.event.number).Nodup) {e : Execution τ β} (he : e ∈ trace) :
    trace.filter (fun e' => e'.event.number = e.event.number) = [e] := by
  obtain ⟨before, after, rfl⟩ := List.append_of_mem he
  rw [List.map_append, List.map_cons, List.nodup_middle, List.nodup_cons, ← List.map_append]
    at hnodup
  have hother {e' : Execution τ β} (he' : e' ∈ before ++ after) :
      e'.event.number ≠ e.event.number := fun heq =>
    hnodup.1 (heq ▸ List.mem_map_of_mem he')
  have hbefore : before.filter (fun e' => e'.event.number = e.event.number) = [] :=
    List.filter_eq_nil_iff.mpr fun e' he' => by simpa using hother (List.mem_append_left _ he')
  have hafter : after.filter (fun e' => e'.event.number = e.event.number) = [] :=
    List.filter_eq_nil_iff.mpr fun e' he' => by simpa using hother (List.mem_append_right _ he')
  rw [List.filter_append, List.filter_cons, hbefore, hafter]
  simp

theorem Safe.once_trace (h : run.Safe start stop) :
    (run.trace.map fun e => e.event.number).Nodup := by
  have honce := h.once
  rw [kept, List.map_append, List.map_map] at honce
  exact honce.of_append_right

theorem Safe.inOrder [IsOrderedAddMonoid τ] (h : run.Safe start stop) : run.InOrder start stop := by
  have hpending {e : Execution τ β} (he : e ∈ run.trace) {q : Queue τ β}
      (hq : q ∈ e.before.pending) := List.mem_of_mem_filter hq
  refine ⟨h.numbered ▸ List.nodup_range, ?_, ?_, ?_, h.clocks, h.now, h.deltas,
    fun e he => (h.sound e he).alive, ?_, h.once_trace⟩
  · intro e he q hq
    refine h.seen e he q ?_
    rcases List.mem_cons.mp hq with rfl | hq
    · exact List.mem_cons_self
    · exact List.mem_cons_of_mem _ (hpending he hq)
  · exact fun e he q hq => Queue.not_before_of_not_lt ((h.sound e he).least q (hpending he hq))
  · intro e he q hq htime hpriority s t hs ht hlt
    -- the delay is the time that an event was scheduled ahead
    have hdelay : q.dt ≤ e.event.dt :=
      Queue.dt_le_of_not_lt ((h.sound e he).least q (hpending he hq)) htime hpriority
    have hstamped : t + q.dt = s + e.event.dt := by
      rw [← h.stamped _ ht, ← h.stamped _ hs]
      exact htime
    exact absurd hstamped (ne_of_lt (add_lt_add_of_lt_of_le hlt hdelay))
  · intro e he limit hlimit hlt
    have hwithin := (h.sound e he).within
    rw [Bool.eq_false_iff, ne_eq, beyond_eq_true, (h.sound e he).limit] at hwithin
    exact hwithin ⟨limit, hlimit, hlt⟩

/-- Nothing is left to execute where the queue is empty or beyond the
limit. -/
theorem Ended.eachOnce (h : run.Ended start stop ending)
    (hend : ending = .drained ∨ ending = .limit) : run.EachOnce stop := by
  intro q hq halive hwithin
  have hnotBeyond : run.sim.beyond q.time ≠ true := by
    rw [ne_eq, beyond_eq_true, h.safe.limit]
    rintro ⟨limit, hlimit, hlt⟩
    exact hwithin limit hlimit hlt
  have hraised : ending ≠ .raised := by
    rcases hend with rfl | rfl <;> decide
  rcases h.accounted hraised q hq with hkept | hdeleted | hbeyond
  · rcases List.mem_append.mp hkept with hqueue | htrace
    · exact absurd (h.exhausted hend q hqueue) hnotBeyond
    · obtain ⟨e, he, rfl⟩ := List.mem_map.mp htrace
      rw [filter_number h.safe.once_trace he]
      rfl
  · exact absurd hdeleted halive
  · exact absurd hbeyond hnotBeyond

end Run

/-- A simulation executes its events in order: at every execution no
pending event comes before it, and of the pending events that are due at
the same time with the same priority none was scheduled earlier. The clock
never goes back, no cancelled event is executed and none beyond the limit.
Unless something raises, each event up to the limit that is not cancelled
is executed exactly once. -/
theorem Program.executes_in_order [IsOrderedAddMonoid τ] {prog : Program σ τ β}
    (hprog : prog.Forward) {start : τ} {stop : Option τ} {world : σ} {run run' : Run σ τ β}
    (hrun : prog.Callable start stop world run) {fuel : Nat} {ending : Ending}
    (hcall : prog.call fuel run = some (run', ending)) :
    run'.InOrder start stop ∧
      (ending ≠ .stopped → ending ≠ .raised → run'.EachOnce stop) := by
  obtain ⟨hsafe, haccounted⟩ := Callable.safe hprog hrun
  have hended := call_ended hprog hsafe haccounted hcall
  refine ⟨hended.safe.inOrder, fun hstopped hraised => hended.eachOnce ?_⟩
  cases ending with
  | drained => exact .inl rfl
  | limit => exact .inr rfl
  | stopped => exact absurd rfl hstopped
  | raised => exact absurd rfl hraised

/-- What is scheduled at first: two events for the same time, one before
and one after. -/
def relaySetup : Turn Unit Int String where
  world := ()
  actions := [.schedule "pass" 3 (.member .normal), .schedule "pass" 3 (.str "high"),
    .schedule "start" 1 (.member .normal), .schedule "pass" 9 (.member .highest)]
  outcome := .returns

/-- The first callback cancels an event and schedules two, one at once. -/
def relayStart : Turn Unit Int String where
  world := ()
  actions := [.cancel 0, .schedule "pass" 2 (.member .normal), .schedule "pass" 0 (.str "Lowest")]
  outcome := .returns

def relayPass : Turn Unit Int String where
  world := ()
  actions := []
  outcome := .returns

def relay : Program Unit Int String where
  setup _ _ := relaySetup
  agents _ := []
  agent _ _ _ := relayPass
  eventCallback _ _ _ _ := some ()
  callback call _ _ := if call = "start" then relayStart else relayPass

theorem relay_forward : relay.Forward where
  setup _ _ := show relaySetup.Forward by decide
  agent _ _ _ := show relayPass.Forward by decide
  callback call _ _ := by
    simp only [relay]
    split <;> decide

theorem Program.executes_in_order_relay :
    ∃ run, relay.call 10 (.init 0 (some 4) ()) = some (run, .limit) ∧
      run.trace.map (fun e => e.event.number) = [2, 5, 1, 4] ∧
      run.InOrder 0 (some 4) ∧ run.EachOnce (some 4) := by
  have hend : (relay.call 10 (.init 0 (some 4) ())).map
      (fun r => (r.1.trace.map fun e => e.event.number, r.2)) =
      some ([2, 5, 1, 4], .limit) := by decide
  obtain ⟨⟨run, ending⟩, hcall, heq⟩ := Option.map_eq_some_iff.mp hend
  obtain ⟨htrace, rfl⟩ := Prod.mk.inj heq
  obtain ⟨horder, honce⟩ := executes_in_order relay_forward .init hcall
  exact ⟨run, hcall, htrace, horder, honce (by decide) (by decide)⟩

end Iams.Simulation
