/-
Iams.Simulation.ProcessedTheorems — the number of processed events.

`_events` counts what is scheduled. At the end of a simulation the code
takes off what is still queued, and the event that was beyond the limit
when it was popped. `Run.surplus` is what the count is too high by if
these are taken off at once: the callbacks and the executions leave it as
it is, and a pass through the loop that pops a cancelled event adds one.
What the `stop` methods schedule is counted as well, and nothing takes it
off any more.

§1 the end of `__call__`, §2 the surplus, §3 the result.

No `sorry`, no `axiom`, no `native_decide`.
-/
import Iams.Simulation.Safety
import Mathlib.Algebra.Order.Group.Int

namespace Iams.Simulation

open Iams.Lib Iams.Lib.Heapq

variable {σ τ β : Type} [AddCommGroup τ] [LinearOrder τ]

/-! ## §1 The end of `__call__` -/

/-- The code that `__call__` calls after the loop. `agents` are the sorted
keys of `_agents`. The `stop` of an agent that raises one of the three
exceptions that are caught is one that returns. -/
structure Stops (σ τ β : Type) where
  agents : σ → List String
  agent : String → σ → SimulationInterface τ β → Turn σ τ β
  stop : σ → SimulationInterface τ β → Turn σ τ β

namespace Stops

variable (stops : Stops σ τ β)

/-- `for agent in sorted(self._agents)` -/
def stopAgents : List String → Run σ τ β → Run σ τ β × Outcome
  | [], run => (run, .returns)
  | agent :: rest, run =>
    let turn := stops.agent agent run.world run.sim
    match turn.outcome with
    | .returns => stopAgents rest (run.play turn)
    | outcome => (run.play turn, outcome)

/-- The agents and `self.stop(dryrun)`. What is reported then is the number
of events. -/
def finish (run : Run σ τ β) : Run σ τ β × Outcome :=
  match stops.stopAgents (stops.agents run.world) run with
  | (run, .returns) =>
    let turn := stops.stop run.world run.sim
    (run.play turn, turn.outcome)
  | (run, outcome) => (run, outcome)

end Stops

/-! ## §2 The surplus -/

namespace Run

/-- What is counted, and neither executed nor queued. -/
def surplus (run : Run σ τ β) : Int := run.sim.events - run.trace.length - run.sim.queue.length

/-- The number of entries that were popped. -/
def popped (run : Run σ τ β) : Int := run.calls.length - run.sim.queue.length

/-- How many cancelled events the next pass through the loop pops. -/
def skips (run : Run σ τ β) : Nat :=
  match heappop Queue.lt run.sim.queue with
  | none => 0
  | some (event, _) => if event.number ∈ run.sim.deleted then 1 else 0

/-- What a callback leaves as it is: it schedules, and nothing is popped
meanwhile. -/
structure Balanced (run run' : Run σ τ β) : Prop where
  surplus : run'.surplus = run.surplus
  popped : run'.popped = run.popped
  calls : run.calls <+: run'.calls

omit [AddCommGroup τ] [LinearOrder τ] in
theorem Balanced.refl (run : Run σ τ β) : run.Balanced run := ⟨rfl, rfl, List.prefix_rfl⟩

omit [AddCommGroup τ] [LinearOrder τ] in
theorem Balanced.trans {run run' run'' : Run σ τ β} (h : run.Balanced run')
    (h' : run'.Balanced run'') : run.Balanced run'' :=
  ⟨h'.surplus.trans h.surplus, h'.popped.trans h.popped, h.calls.trans h'.calls⟩

/-- What is scheduled is counted and queued. -/
theorem perform_balanced (run : Run σ τ β) (a : Action τ β) : run.Balanced (run.perform a) := by
  cases a with
  | schedule call dt priority =>
    have hlength : (run.perform (.schedule call dt priority)).sim.queue.length =
        run.sim.queue.length + 1 := (heappush_perm _ _).length_eq
    have hcalls : (run.perform (.schedule call dt priority)).calls.length =
        run.calls.length + 1 := List.length_append
    have hevents : (run.perform (.schedule call dt priority)).sim.events = run.sim.events + 1 := rfl
    have htrace : (run.perform (.schedule call dt priority)).trace = run.trace := rfl
    refine ⟨?_, ?_, List.prefix_append _ _⟩
    · rw [surplus, surplus, hlength, hevents, htrace]
      omega
    · rw [popped, popped, hlength, hcalls]
      omega
  | cancel number =>
    simp only [perform, SimulationInterface.cancel]
    split <;> exact ⟨rfl, rfl, List.prefix_rfl⟩

theorem play_balanced (run : Run σ τ β) (turn : Turn σ τ β) : run.Balanced (run.play turn) :=
  play_keeps turn (fun a _ run' h => h.trans (run'.perform_balanced a))
    ⟨rfl, rfl, List.prefix_rfl⟩

end Run

namespace Program

variable {prog : Program σ τ β} {run run' : Run σ τ β} {ending : Ending} {fuel : Nat}

/-- An execution takes the event off the surplus. -/
theorem execute_surplus (event : Queue τ β) :
    (prog.execute run event).1.surplus + 1 = run.surplus := by
  have hbegin : (run.begin event).surplus + 1 = run.surplus := by
    have htrace : (run.begin event).trace.length = run.trace.length + 1 := List.length_append
    have hevents : (run.begin event).sim.events = run.sim.events := rfl
    have hqueue : (run.begin event).sim.queue = run.sim.queue := rfl
    rw [Run.surplus, Run.surplus, htrace, hevents, hqueue]
    omega
  rw [execute, (Run.play_balanced _ _).surplus, hbegin]

/-- So does an event beyond the limit; a cancelled one does not. -/
theorem handle_surplus {event : Queue τ β} (h : (prog.handle run event).2 ≠ some .raised) :
    (prog.handle run event).1.surplus + 1 =
      run.surplus + if event.number ∈ run.sim.deleted then 1 else 0 := by
  rw [handle] at h ⊢
  split
  · rfl
  · next halive =>
    rw [if_neg halive] at h
    split
    · simp only [Run.surplus]
      omega
    · next hwithin =>
      rw [if_neg hwithin] at h
      split
      · next hraised => simp [hraised] at h
      · next world _ =>
        rw [execute_surplus, add_zero]
        rfl

/-- `heappop` takes one event from the queue. -/
theorem iterate_surplus (prog : Program σ τ β) (run : Run σ τ β)
    (h : (prog.iterate run).2 ≠ some .raised) :
    (prog.iterate run).1.surplus = run.surplus + run.skips := by
  rw [iterate] at h ⊢
  rw [Run.skips]
  cases hpop : heappop Queue.lt run.sim.queue with
  | none => exact (add_zero _).symm
  | some p =>
    obtain ⟨event, queue⟩ := p
    rw [hpop] at h
    have hlength : run.sim.queue.length = queue.length + 1 := (heappop_perm hpop).length_eq
    have hpopped : (run.withQueue queue).surplus = run.surplus + 1 := by
      simp only [Run.surplus, Run.withQueue, hlength]
      omega
    have hdeleted : (run.withQueue queue).sim.deleted = run.sim.deleted := rfl
    have hhandle := handle_surplus h
    rw [hpopped, hdeleted] at hhandle
    by_cases hcancelled : event.number ∈ run.sim.deleted
    · simp only [if_pos hcancelled] at hhandle ⊢
      omega
    · simp only [if_neg hcancelled] at hhandle ⊢
      omega

/-- How many cancelled events the loop pops. -/
def loopSkips (prog : Program σ τ β) : Nat → Run σ τ β → Nat
  | 0, _ => 0
  | fuel + 1, run =>
    match prog.iterate run with
    | (next, none) => run.skips + loopSkips prog fuel next
    | (_, some _) => run.skips

/-- How many cancelled events are popped in a call. -/
def callSkips (prog : Program σ τ β) (fuel : Nat) (run : Run σ τ β) : Nat :=
  match prog.prepare run with
  | (ready, .returns) => prog.loopSkips fuel ready
  | (_, _) => 0

/-- By induction on the passes. -/
theorem loop_surplus (hloop : prog.loop fuel run = some (run', ending)) (hend : ending ≠ .raised) :
    run'.surplus = run.surplus + prog.loopSkips fuel run := by
  induction fuel generalizing run with
  | zero => cases hloop
  | succ fuel ih =>
    have hpass := prog.iterate_surplus run
    rcases hiter : prog.iterate run with ⟨next, passed⟩
    rw [hiter] at hpass
    rw [loop, hiter] at hloop
    rw [loopSkips, hiter]
    cases passed with
    | none =>
      have hnext : run'.surplus = next.surplus + prog.loopSkips fuel next := ih hloop
      have hstep : next.surplus = run.surplus + run.skips := hpass (by simp)
      show run'.surplus = run.surplus + ((run.skips + prog.loopSkips fuel next : Nat) : Int)
      omega
    | some ending' =>
      obtain ⟨rfl, rfl⟩ := Prod.mk.inj (Option.some.inj hloop)
      exact hpass (by simpa using hend)

theorem prepare_surplus (prog : Program σ τ β) (run : Run σ τ β) :
    (prog.prepare run).1.surplus = run.surplus := by
  refine prepare_keeps (P := fun run' => run'.surplus = run.surplus) ?_ ?_ rfl
  · exact fun run' h => (run'.play_balanced _).surplus.trans h
  · exact fun _ run' h => (run'.play_balanced _).surplus.trans h

omit [AddCommGroup τ] [LinearOrder τ] in
/-- What is still queued is taken off the count. -/
theorem settle_events (run : Run σ τ β) (hend : ending ≠ .raised) :
    (settle (run, ending)).2 = ending ∧
      (settle (run, ending)).1.sim.events =
        (settle (run, ending)).1.trace.length + run.surplus := by
  have hsum : run.sim.events - run.sim.queue.length = run.trace.length + run.surplus := by
    rw [Run.surplus]
    omega
  cases ending with
  | raised => exact absurd rfl hend
  | drained => exact ⟨rfl, hsum⟩
  | limit => exact ⟨rfl, hsum⟩
  | stopped => exact ⟨rfl, hsum⟩

/-- What the count is too high by after the loop. -/
theorem call_events (hcall : prog.call fuel run = some (run', ending)) (hend : ending ≠ .raised) :
    run'.sim.events = run'.trace.length + (run.surplus + prog.callSkips fuel run) := by
  have hready := prog.prepare_surplus run
  rcases hprepare : prog.prepare run with ⟨ready, outcome⟩
  rw [hprepare] at hready
  rw [call, hprepare] at hcall
  rw [callSkips, hprepare]
  cases outcome with
  | returns =>
    obtain ⟨⟨last, ending'⟩, hloop, hsettle⟩ := Option.map_eq_some_iff.mp hcall
    have hraised : ending' ≠ .raised := by
      rintro rfl
      exact hend (congrArg Prod.snd hsettle).symm
    have hevents := (settle_events last hraised).2
    rw [hsettle, loop_surplus hloop hraised, hready] at hevents
    exact hevents
  | stops => exact absurd (congrArg Prod.snd (Option.some.inj hcall)).symm hend
  | raises => exact absurd (congrArg Prod.snd (Option.some.inj hcall)).symm hend

end Program

namespace Stops

variable {stops : Stops σ τ β} {run run' : Run σ τ β} {outcome : Outcome}

theorem stopAgents_balanced (stops : Stops σ τ β) (names : List String) (run : Run σ τ β) :
    run.Balanced (stops.stopAgents names run).1 := by
  induction names generalizing run with
  | nil => exact .refl run
  | cons name rest ih =>
    have hplay := run.play_balanced (stops.agent name run.world run.sim)
    rw [stopAgents]
    split
    · exact hplay.trans (ih _)
    · exact hplay

theorem finish_balanced (stops : Stops σ τ β) (run : Run σ τ β) :
    run.Balanced (stops.finish run).1 := by
  have hstopped := stops.stopAgents_balanced (stops.agents run.world) run
  rw [finish]
  split
  · next last hagents =>
    rw [hagents] at hstopped
    exact hstopped.trans (last.play_balanced _)
  · next last outcome hagents =>
    rw [hagents] at hstopped
    exact hstopped

end Stops

/-! ## §3 The number of processed events -/

/-- A simulation that was used from outside, but not called. -/
abbrev Run.Fresh (start : τ) (stop : Option τ) (world : σ) : Run σ τ β → Prop :=
  Reachable Run.play (fun _ _ => True) (.init start stop world)

theorem Run.Fresh.surplus {start : τ} {stop : Option τ} {world : σ} {run : Run σ τ β}
    (h : run.Fresh start stop world) : run.surplus = 0 := by
  refine h.invariant (fun run => run.surplus = 0) rfl ?_
  intro run turn hrun _
  rw [(run.play_balanced turn).surplus, hrun]

namespace Program

variable {prog : Program σ τ β} {stops : Stops σ τ β} {run run' last : Run σ τ β}
  {ending : Ending} {fuel : Nat}

theorem finish_events (hcall : prog.call fuel run = some (run', ending)) (hend : ending ≠ .raised)
    (hfinish : stops.finish run' = (last, .returns)) :
    last.sim.events = last.trace.length + (run.surplus + prog.callSkips fuel run +
      (last.calls.length - run'.calls.length)) := by
  have hbalanced := stops.finish_balanced run'
  rw [hfinish] at hbalanced
  have hevents := call_events hcall hend
  have hsurplus := hbalanced.surplus
  have hpopped := hbalanced.popped
  simp only [Run.surplus, Run.popped] at hsurplus hpopped hevents ⊢
  omega

/-- When a call has come to its end, the count of events is the number of
callbacks that were executed if and only if what it was too high by
before, the cancelled events that were popped, and the events that the
`stop` methods have scheduled make zero. In a simulation that was not
called before this means: no cancelled event was popped, and the `stop`
methods have scheduled nothing. -/
theorem processed_iff (hcall : prog.call fuel run = some (run', ending)) (hend : ending ≠ .raised)
    (hfinish : stops.finish run' = (last, .returns)) :
    (last.sim.events = last.trace.length ↔
      run.surplus + prog.callSkips fuel run + (last.calls.length - run'.calls.length) = 0) ∧
    ∀ start stop world, run.Fresh start stop world →
      (last.sim.events = last.trace.length ↔
        prog.callSkips fuel run = 0 ∧ last.calls = run'.calls) := by
  have hevents := finish_events hcall hend hfinish
  refine ⟨by omega, fun start stop world hfresh => ?_⟩
  have hbalanced := stops.finish_balanced run'
  rw [hfinish] at hbalanced
  have hcalls : last.calls = run'.calls ↔ last.calls.length ≤ run'.calls.length :=
    ⟨fun h => h ▸ le_refl _, fun h => (hbalanced.calls.eq_of_length_le h).symm⟩
  have hlength := hbalanced.calls.length_le
  have hsurplus := hfresh.surplus
  rw [hcalls]
  simp only at hlength
  omega

end Program

/-- Two events are scheduled, and those with these numbers are
cancelled. -/
def withdrawalSetup (cancelled : List Nat) : Turn Unit Int String where
  world := ()
  actions := [.schedule "pass" 1 (.member .normal), .schedule "pass" 2 (.member .normal)] ++
    cancelled.map .cancel
  outcome := .returns

def withdrawalPass : Turn Unit Int String where
  world := ()
  actions := []
  outcome := .returns

def withdrawal (cancelled : List Nat) : Program Unit Int String where
  setup _ _ := withdrawalSetup cancelled
  agents _ := []
  agent _ _ _ := withdrawalPass
  eventCallback _ _ _ _ := some ()
  callback _ _ _ := withdrawalPass

def withdrawalStops : Stops Unit Int String where
  agents _ := []
  agent _ _ _ := withdrawalPass
  stop _ _ := withdrawalPass

/-- The call comes to its end with so many events counted and so many
executed. -/
structure WithdrawalRun (cancelled : List Nat) (events : Int) (executed : Nat)
    (run last : Run Unit Int String) : Prop where
  call : (withdrawal cancelled).call 10 (.init 0 none ()) = some (run, .drained)
  finish : withdrawalStops.finish run = (last, .returns)
  events : last.sim.events = events
  executed : last.trace.length = executed

theorem exists_withdrawalRun (cancelled : List Nat) (events : Int) (executed : Nat)
    (hend : ((withdrawal cancelled).call 10 (.init 0 none ())).map (fun r =>
      (r.2, (withdrawalStops.finish r.1).2, (withdrawalStops.finish r.1).1.sim.events,
        (withdrawalStops.finish r.1).1.trace.length)) =
      some (Ending.drained, Outcome.returns, events, executed)) :
    ∃ run last, WithdrawalRun cancelled events executed run last := by
  obtain ⟨⟨run, ending⟩, hcall, heq⟩ := Option.map_eq_some_iff.mp hend
  obtain ⟨rfl, heq⟩ := Prod.mk.inj heq
  obtain ⟨hreturns, heq⟩ := Prod.mk.inj heq
  obtain ⟨hevents, htrace⟩ := Prod.mk.inj heq
  exact ⟨run, (withdrawalStops.finish run).1, hcall, Prod.ext rfl hreturns, hevents, htrace⟩

/-- Where nothing is cancelled, no cancelled event is popped and the count
is right; where one of two events is, it is not. -/
theorem Program.processed_iff_withdrawal :
    (∃ run last, WithdrawalRun [] 2 2 run last ∧
      (withdrawal []).callSkips 10 (.init 0 none ()) = 0 ∧ last.calls = run.calls) ∧
    ∃ run last, WithdrawalRun [1] 2 1 run last ∧
      ¬ ((withdrawal [1]).callSkips 10 (.init 0 none ()) = 0 ∧ last.calls = run.calls) := by
  obtain ⟨run, last, h⟩ := exists_withdrawalRun [] 2 2 (by decide)
  obtain ⟨run', last', h'⟩ := exists_withdrawalRun [1] 2 1 (by decide)
  have hiff := (processed_iff h.call (by decide) h.finish).2 0 none () .init
  have hiff' := (processed_iff h'.call (by decide) h'.finish).2 0 none () .init
  rw [h.events, h.executed] at hiff
  rw [h'.events, h'.executed] at hiff'
  exact ⟨⟨run, last, h, hiff.mp rfl⟩, run', last', h', fun hnone => by simpa using hiff'.mpr hnone⟩

/-- The cancelled event is counted. -/
theorem withdrawal_counted :
    ¬ ∀ (prog : Program Unit Int String) (stops : Stops Unit Int String) (start : Int)
      (stop : Option Int) (run run' last : Run Unit Int String) (fuel : Nat) (ending : Ending),
      run.Fresh start stop () → prog.call fuel run = some (run', ending) → ending ≠ .raised →
      stops.finish run' = (last, .returns) → last.sim.events = last.trace.length := by
  intro h
  obtain ⟨run, last, hrun⟩ := exists_withdrawalRun [1] 2 1 (by decide)
  have hcount := h (withdrawal [1]) withdrawalStops 0 none _ run last 10 .drained .init hrun.call
    (by decide) hrun.finish
  rw [hrun.events, hrun.executed] at hcount
  exact absurd hcount (by decide)

end Iams.Simulation
