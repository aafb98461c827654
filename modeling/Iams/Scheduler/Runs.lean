/-
Iams.Scheduler.Runs — what a program can make of a scheduler.

`World.Reached` are the schedulers that any sequence of operations leads
to, each on events created before it. `World.ReachedInteger` restricts
the created events to integer times; then `World.Integer` holds
(`integer_of_reached`): every event is numeric and carries its own
number. `World.Changes` is what a single operation can do: it changes an
event only through one of the event's own methods or through a write-back,
and the queue takes in created events only (`created_of_reached`).

No `sorry`, no `axiom`, no `native_decide`.
-/
import Iams.Lib.Transition
import Iams.Scheduler.Integer

namespace Iams.Scheduler

open Iams.Lib Iams.Lib.Fallible

section Runs

variable {τ : Type} [Ring τ] [LinearOrder τ] [TimeStep τ]
variable (cfg : BufferScheduler τ) (S : Sorter Nat)

/-- The events an operation refers to. -/
def Op.refs : Op τ → List Nat
  | .create _ | .validate .. => []
  | .arrive u _ | .cancel u | .depart u _ | .finish u _ | .start u _ => [u]
  | .scheduleEta u .. | .scheduleEtd u .. => [u]
  | .save _ u _ | .canSchedule _ u _ => [u]

/-- The new events and the time with which an operation calls
`get_events`, if it does. -/
def Op.gathers : Op τ → Option (List Nat × Option τ)
  | .save _ u now | .canSchedule _ u now => some ([u], now)
  | .validate _ now => some ([], now)
  | _ => none

namespace World

/-- The effect of an operation. -/
def step (w : World τ) (op : Op τ) : World τ := (w.exec cfg S op).2

/-- A program refers to events that it has created. -/
def Refers (w : World τ) (op : Op τ) : Prop := ∀ u ∈ op.refs, w.Created u

instance (w : World τ) (op : Op τ) : Decidable (w.Refers op) :=
  inferInstanceAs (Decidable (∀ u ∈ op.refs, w.Created u))

/-- The schedulers a program can get to. -/
def Reached (w : World τ) : Prop := Reachable (step cfg S) Refers (init cfg) w

variable {cfg S} in
theorem Reached.init : Reached cfg S (World.init cfg) := Reachable.init

variable {cfg S} in
theorem Reached.step {w : World τ} (h : w.Reached cfg S) (op : Op τ) (hrefers : w.Refers op) :
    (w.step cfg S op).Reached cfg S :=
  Reachable.step op h hrefers

/-! ## What a call of `solve_model` changes -/

/-- Every event is as before, or has been written back once. -/
def Rewritten (now : Option τ) (obj obj' : Nat → Event τ) : Prop :=
  ∀ u, obj' u = obj u ∨ ∃ value, obj' u = (obj u).writeBack cfg value now

variable {cfg S} {w : World τ} {new : List Nat} {now : Option τ}

theorem rewritten_planned (w : World τ) (new : List Nat) (now : Option τ)
    (s : Cp.Assignment Var) : Rewritten cfg now w.obj (w.planned cfg new now s).obj := by
  intro u
  unfold planned writeBackAll
  dsimp only
  split
  · exact Or.inr ⟨_, rfl⟩
  · exact Or.inl rfl

omit [TimeStep τ] in
theorem rewritten_refl (obj : Nat → Event τ) : Rewritten cfg now obj obj := fun _ => Or.inl rfl

variable (cfg S) in
/-- A call of `solve_model` creates no event, adds none to the queue and
changes events by write-back only. -/
theorem solveModel_changes (w : World τ) (cp : Cp.Solver Var) (new : List Nat)
    (now : Option τ) (save : Bool) :
    Rewritten cfg now w.obj (w.solveModel cfg S cp new now save).2.obj ∧
      (w.solveModel cfg S cp new now save).2.counter = w.counter ∧
      ∀ u ∈ (w.solveModel cfg S cp new now save).2.events, u ∈ w.events := by
  have hcollect : ∀ u ∈ collect w.obj w.events, u ∈ w.events :=
    fun u hu => (List.mem_filter.mp hu).1
  by_cases h : w.Readable cfg new now
  · rw [solveModel_of_readable h]
    cases cp (w.model cfg S new now) with
    | optimal s => exact ⟨rewritten_planned w new now s, rfl, hcollect⟩
    | status name => exact ⟨rewritten_refl _, rfl, hcollect⟩
    | failed => exact ⟨rewritten_refl _, rfl, hcollect⟩
  · obtain ⟨err, removed, heq, -, -, -⟩ := solveModel_of_not_readable (S := S) h cp save
    rw [heq]
    refine ⟨rewritten_refl _, rfl, ?_⟩
    dsimp only
    clear heq
    generalize w.events = us
    induction removed generalizing us with
    | nil => exact fun _ hu => hu
    | cons x rest ih => exact fun u hu => List.mem_of_mem_erase (ih (us.erase x) u hu)

variable (cfg S) in
/-- The world `save` leaves: the one of `solve_model`, with the event in
the queue on success. -/
theorem save_world (w : World τ) (cp : Cp.Solver Var) (u : Nat) (now : Option τ) :
    (w.save cfg S cp u now).2 = (w.solveModel cfg S cp [u] now true).2 ∨
      (w.save cfg S cp u now).2 = { (w.solveModel cfg S cp [u] now true).2 with
        events := (w.solveModel cfg S cp [u] now true).2.events ++ [u] } := by
  unfold save add
  split
  · next heq => exact Or.inl (by rw [heq])
  · next heq => exact Or.inl (by rw [heq])
  · next heq => exact Or.inr (by rw [heq])

theorem validate_world (w : World τ) (cp : Cp.Solver Var) (now : Option τ) :
    (w.validate cfg S cp now).2 = (w.solveModel cfg S cp [] now false).2 := by
  unfold validate
  split <;> next heq => rw [heq]

/-- One operation, as far as a single event is concerned: it is created
with arguments that satisfy `A`, changed by one of its methods, written
back, or left alone. -/
inductive EventStep (cfg : BufferScheduler τ) (A : EventArgs τ → Prop) (u : Nat)
    (e : Event τ) : Event τ → Prop where
  | same : EventStep cfg A u e e
  | created {args : EventArgs τ} {e' : Event τ} : A args → Event.postInit u args = .ok e' →
      EventStep cfg A u e e'
  | arrive (t : τ) : EventStep cfg A u e (e.arrive t)
  | cancel : EventStep cfg A u e e.cancel
  | depart (t : τ) : EventStep cfg A u e (e.depart t)
  | finish (t : τ) : EventStep cfg A u e (e.finish cfg t)
  | start (t : τ) : EventStep cfg A u e (e.start cfg t)
  | scheduleEta {lower : τ} {upper now : Option τ} {e' : Event τ} :
      e.scheduleEta lower upper now = .ok e' → EventStep cfg A u e e'
  | scheduleEtd {lower : τ} {upper now : Option τ} {e' : Event τ} :
      e.scheduleEtd lower upper now = .ok e' → EventStep cfg A u e e'
  | written (value : Name → Int) (now : Option τ) : EventStep cfg A u e (e.writeBack cfg value now)

variable {A : EventArgs τ → Prop}

omit [TimeStep τ] in
theorem Rewritten.eventStep {obj obj' : Nat → Event τ} (h : Rewritten cfg now obj obj')
    (u : Nat) : EventStep cfg A u (obj u) (obj' u) := by
  rcases h u with h | ⟨value, h⟩ <;> rw [h]
  · exact .same
  · exact .written value now

/-- What one operation changes: each event by one step, the counter
upwards, and the queue by events that have been created. -/
structure Changes (cfg : BufferScheduler τ) (A : EventArgs τ → Prop) (w w' : World τ) : Prop where
  event : ∀ u, EventStep cfg A u (w.obj u) (w'.obj u)
  counter : w.counter ≤ w'.counter
  queue : ∀ u ∈ w'.events, u ∈ w.events ∨ w.Created u

omit [TimeStep τ] in
theorem Changes.refl (w : World τ) : Changes cfg A w w :=
  ⟨fun _ => .same, le_refl _, fun _ hu => Or.inl hu⟩

omit [TimeStep τ] in
/-- A method of one event changes that event only. -/
theorem Changes.setObj {v : Nat} {e : Event τ} (h : EventStep cfg A v (w.obj v) e) :
    Changes cfg A w (w.setObj v e) := by
  refine ⟨fun u => ?_, le_refl _, fun _ hu => Or.inl hu⟩
  by_cases huv : u = v
  · subst huv
    simpa [World.setObj] using h
  · simpa [World.setObj, huv] using EventStep.same

omit [TimeStep τ] in
/-- A method that raises leaves the event as it is. -/
theorem Changes.tryObj {v : Nat} {answer : Answer (Event τ)}
    (h : ∀ e, answer = .ok e → EventStep cfg A v (w.obj v) e) :
    Changes cfg A w (w.tryObj v answer).2 := by
  cases answer with
  | error err => exact .refl w
  | ok e => exact .setObj (h e rfl)

omit [TimeStep τ] in
theorem Changes.create {args : EventArgs τ} (h : A args) : Changes cfg A w (w.create args).2 := by
  unfold World.create
  split
  · exact .refl w
  · next e hpost =>
    have hset : Changes cfg A w (w.setObj w.counter e) := .setObj (.created h hpost)
    exact ⟨hset.event, Nat.le_succ _, hset.queue⟩

theorem Changes.solveModel (cp : Cp.Solver Var) (new : List Nat) (now : Option τ) (save : Bool) :
    Changes cfg A w (w.solveModel cfg S cp new now save).2 := by
  obtain ⟨hobj, hcounter, hevents⟩ := solveModel_changes cfg S w cp new now save
  exact ⟨hobj.eventStep, hcounter.ge, fun u hu => Or.inl (hevents u hu)⟩

/-- An accepted event enters the queue. -/
theorem Changes.save {u : Nat} (hu : w.Created u) (cp : Cp.Solver Var) (now : Option τ) :
    Changes cfg A w (w.save cfg S cp u now).2 := by
  have hsolve : Changes cfg A w (w.solveModel cfg S cp [u] now true).2 := .solveModel ..
  rcases save_world cfg S w cp u now with hw | hw <;> rw [hw]
  · exact hsolve
  · refine ⟨hsolve.event, hsolve.counter, fun v hv => ?_⟩
    rcases List.mem_append.mp hv with hv | hv
    · exact hsolve.queue v hv
    · rw [List.mem_singleton.mp hv]
      exact Or.inr hu

theorem Changes.validate (cp : Cp.Solver Var) (now : Option τ) :
    Changes cfg A w (w.validate cfg S cp now).2 := by
  rw [validate_world]
  exact .solveModel ..

variable (cfg S) in
/-- Every operation changes the scheduler in this way only. -/
theorem step_changes (w : World τ) (op : Op τ) (h : w.Refers op)
    (hA : ∀ args, op = .create args → A args) : Changes cfg A w (w.step cfg S op) := by
  cases op with
  | create args => exact .create (hA args rfl)
  | arrive v t => exact .setObj (.arrive t)
  | cancel v => exact .setObj .cancel
  | depart v t => exact .setObj (.depart t)
  | finish v t => exact .setObj (.finish t)
  | start v t => exact .setObj (.start t)
  | scheduleEta v lower upper now => exact .tryObj fun e he => .scheduleEta he
  | scheduleEtd v lower upper now => exact .tryObj fun e he => .scheduleEtd he
  | save cp v now => exact .save (h v List.mem_cons_self) cp now
  | canSchedule cp v now => exact .solveModel cp [v] now false
  | validate cp now => exact .validate cp now

/-- In every run the queue holds only events that have been created. -/
theorem created_of_reached (h : w.Reached cfg S) : ∀ u ∈ w.events, w.Created u := by
  refine h.invariant (fun w => ∀ u ∈ w.events, w.Created u) ?_ fun w op hw hrefers u hu => ?_
  · exact fun u hu => absurd hu List.not_mem_nil
  · have hstep : Changes cfg (fun _ => True) w (w.step cfg S op) :=
      step_changes cfg S w op hrefers fun _ _ => trivial
    have hcreated : w.Created u := (hstep.queue u hu).elim (hw u) id
    exact ⟨hcreated.1, lt_of_lt_of_le hcreated.2 hstep.counter⟩

end World

end Runs

/-- What the constructor returns, if it returns. -/
theorem Event.postInit_ok {τ : Type} [Ring τ] [LinearOrder τ] {u : Nat} {args : EventArgs τ}
    {e : Event τ} (h : postInit u args = .ok e) :
    ∃ eta etd, buildEtx args.datetime "ETA" args.eta = .ok eta ∧
      buildEtx args.datetime "ETD" args.etd = .ok etd ∧ eta.bool = true ∧
      e = {
        duration := args.duration
        uid := u
        state := if eta.bool && etd.bool then .scheduled else args.state
        eta := { eta with useDatetime := eta.useDatetime || etd.useDatetime }
        etd := { etd with useDatetime := eta.useDatetime || etd.useDatetime }
        scheduleStart := none
        scheduleFinish := none
        activityStart := none
        activityFinish := none
        useDatetime := eta.useDatetime || etd.useDatetime
        canceled := false } := by
  unfold postInit at h
  obtain ⟨eta, heta, h⟩ := bind_eq_ok.mp h
  obtain ⟨etd, hetd, h⟩ := bind_eq_ok.mp h
  cases hbool : eta.bool with
  | true =>
    rw [hbool] at h
    exact ⟨eta, etd, heta, hetd, hbool, by simpa [hbool] using h.symm⟩
  | false => simp [hbool] at h

/-! ## Integer times -/

/-- The argument holds numbers only. -/
def EtxArg.Numeric : EtxArg Int → Prop
  | .dict args => args.useDatetime = false
  | _ => True

/-- The event is created with numbers only. -/
def EventArgs.Numeric (args : EventArgs Int) : Prop :=
  args.datetime = false ∧ args.eta.Numeric ∧ args.etd.Numeric

def Op.Numeric : Op Int → Prop
  | .create args => args.Numeric
  | _ => True

namespace World

variable {cfg : BufferScheduler Int} {S : Sorter Nat} {w : World Int}

variable (cfg S) in
/-- The schedulers a program that creates events with integer times only
can get to. -/
def ReachedInteger (w : World Int) : Prop :=
  Reachable (step cfg S) (fun w op => w.Refers op ∧ op.Numeric) (init cfg) w

theorem ReachedInteger.init : ReachedInteger cfg S (World.init cfg) := Reachable.init

theorem ReachedInteger.step (h : w.ReachedInteger cfg S) (op : Op Int) (hrefers : w.Refers op)
    (hnumeric : op.Numeric) : (w.step cfg S op).ReachedInteger cfg S :=
  Reachable.step op h ⟨hrefers, hnumeric⟩

/-- A program stays able to refer to the events it has created. -/
theorem Refers.step {op op' : Op Int} (h : w.Refers op') (hop : w.Refers op) :
    (w.step cfg S op).Refers op' := fun u hu =>
  have hcounter := (step_changes (A := fun _ => True) cfg S w op hop fun _ _ => trivial).counter
  ⟨(h u hu).1, lt_of_lt_of_le (h u hu).2 hcounter⟩

/-- A program that goes on with the events it has. -/
theorem ReachedInteger.run (h : w.ReachedInteger cfg S) (ops : List (Op Int))
    (hrefers : ∀ op ∈ ops, w.Refers op) (hnumeric : ∀ op ∈ ops, op.Numeric) :
    (ops.foldl (World.step cfg S) w).ReachedInteger cfg S :=
  reachable_of_permitted h ops (permitted_of_forall
    (fun _ _ _ hop hop' => ⟨hop'.1.step hop.1, hop'.2⟩) ops
    fun op hop => ⟨hrefers op hop, hnumeric op hop⟩)

/-- Every event is numeric and carries its own number. -/
structure Integer (w : World Int) : Prop where
  numeric : ∀ u, (w.obj u).Numeric
  uid : ∀ u, (w.obj u).uid = u

/-- A call about the new events converts no time that a float does not
hold. -/
def Exact (w : World Int) (new : List Nat) : Prop := ∀ u ∈ w.concerned new, (w.obj u).Exact

instance (w : World Int) (new : List Nat) : Decidable (w.Exact new) :=
  inferInstanceAs (Decidable (∀ u ∈ w.concerned new, (w.obj u).Exact))

end World

namespace Event

theorem buildEtx_numeric {label : String} {arg : EtxArg Int} {x : ETX Int}
    (harg : arg.Numeric) (h : buildEtx false label arg = .ok x) :
    x.useDatetime = false ∧ ETX.less x.constraintHigh x.constraintLow = false ∧
      0 ≤ x.marginLow ∧ 0 ≤ x.marginHigh := by
  have key {y : ETX Int} (hy : y.useDatetime = false) (h : ETX.postInit false y = .ok x) :
      x.useDatetime = false ∧ ETX.less x.constraintHigh x.constraintLow = false ∧
        0 ≤ x.marginLow ∧ 0 ≤ x.marginHigh := by
    obtain ⟨hless, hmargins, hsame⟩ := ETX.postInit_ok h
    refine ⟨?_, hless, hmargins⟩
    rw [hsame.useDatetime, hy]
    rfl
  unfold buildEtx at h
  split at h
  · exact key harg h
  · exact key rfl h
  · exact key rfl h
  · exact key rfl h
  · cases h
  · exact key rfl h
  · exact key rfl h

/-- An event created with numbers is numeric. -/
theorem postInit_numeric {u : Nat} {args : EventArgs Int} {e : Event Int}
    (hargs : args.Numeric) (h : postInit u args = .ok e) : e.Numeric ∧ e.uid = u := by
  obtain ⟨hdatetime, heta, hetd⟩ := hargs
  obtain ⟨eta, etd, heta', hetd', hbool, rfl⟩ := postInit_ok h
  rw [hdatetime] at heta' hetd'
  obtain ⟨hetaFlag, hless, hmargins⟩ := buildEtx_numeric heta heta'
  obtain ⟨hetdFlag, -, -⟩ := buildEtx_numeric hetd hetd'
  simp only [ETX.bool, Bool.and_eq_true, Option.isSome_iff_exists] at hbool
  obtain ⟨⟨high, hhigh⟩, ⟨low, hlow⟩⟩ := hbool
  have hflag : (eta.useDatetime || etd.useDatetime) = false := by rw [hetaFlag, hetdFlag]; rfl
  refine ⟨⟨hflag, hflag, hflag, ⟨low, high, hlow, hhigh, ?_⟩, hmargins⟩, rfl⟩
  simpa [ETX.less, hlow, hhigh] using hless

theorem markScheduled_numeric {e : Event Int} (h : e.Numeric) :
    e.markScheduled.Numeric ∧ e.markScheduled.uid = e.uid := by
  unfold markScheduled
  split
  · exact ⟨h.congr rfl rfl rfl, rfl⟩
  · exact ⟨h, rfl⟩

/-- A numeric window that is stored is at least as wide as the margins. -/
theorem newWindow_numeric {x y : ETX Int} {lower : Int} {upper now : Option Int}
    (h : x.useDatetime = false) (heq : newWindow x lower upper now = .ok y) :
    ∃ high, x.marginHigh + x.marginLow ≤ high - lower ∧
      y = { x with constraintLow := some lower, constraintHigh := some high } := by
  unfold newWindow at heq
  obtain ⟨high, -, heq⟩ := bind_eq_ok.mp heq
  unfold ETX.setConstraints at heq
  simp only [h, Bool.false_and, Bool.false_eq_true, if_false] at heq
  split at heq
  · cases heq
  · next hwide =>
    refine ⟨high, ?_, ?_⟩
    · simpa [ETX.less] using hwide
    · simpa [ETX.storeConstraints, h] using heq.symm

theorem scheduleEta_numeric {e e' : Event Int} {lower : Int} {upper now : Option Int}
    (h : e.Numeric) (heq : e.scheduleEta lower upper now = .ok e') :
    e'.Numeric ∧ e'.uid = e.uid := by
  unfold scheduleEta at heq
  obtain ⟨eta, heta, heq⟩ := bind_eq_ok.mp heq
  rw [pure_ok, Except.ok.injEq] at heq
  subst heq
  obtain ⟨high, hwide, rfl⟩ := newWindow_numeric h.eta heta
  have hmargins := h.etaMargins
  exact markScheduled_numeric (e := { e with eta := _ }) ⟨h.event, h.eta, h.etd,
    ⟨lower, high, rfl, rfl, by omega⟩, hmargins⟩

theorem scheduleEtd_numeric {e e' : Event Int} {lower : Int} {upper now : Option Int}
    (h : e.Numeric) (heq : e.scheduleEtd lower upper now = .ok e') :
    e'.Numeric ∧ e'.uid = e.uid := by
  unfold scheduleEtd at heq
  obtain ⟨etd, hetd, heq⟩ := bind_eq_ok.mp heq
  rw [pure_ok, Except.ok.injEq] at heq
  subst heq
  obtain ⟨high, -, rfl⟩ := newWindow_numeric h.etd hetd
  exact markScheduled_numeric (e := { e with etd := _ })
    ⟨h.event, h.eta, h.etd, h.window, h.etaMargins⟩

theorem writeBack_numeric_keeps {cfg : BufferScheduler Int} {e : Event Int} (h : e.Numeric)
    (value : Name → Int) (now : Option Int) :
    (e.writeBack cfg value now).Numeric ∧ (e.writeBack cfg value now).uid = e.uid := by
  unfold writeBack
  split
  · refine ⟨h.congr rfl (ETX.set_frame e.eta _ now) ?_, rfl⟩
    dsimp only
    rw [ETX.set_frame]
    rfl
  · exact ⟨h.congr rfl rfl rfl, rfl⟩
  · exact ⟨h.congr rfl rfl rfl, rfl⟩
  · exact ⟨h.congr rfl rfl rfl, rfl⟩
  · exact ⟨h, rfl⟩

/-- Nothing a program does to an event makes it less numeric. -/
theorem eventStep_numeric {cfg : BufferScheduler Int} {u : Nat} {e e' : Event Int}
    (h : World.EventStep cfg EventArgs.Numeric u e e') (he : e.Numeric ∧ e.uid = u) :
    e'.Numeric ∧ e'.uid = u := by
  obtain ⟨hnum, huid⟩ := he
  cases h with
  | same => exact ⟨hnum, huid⟩
  | created hargs hpost => exact postInit_numeric hargs hpost
  | arrive t => exact ⟨hnum.congr rfl (ETX.set_frame _ t none) rfl, huid⟩
  | cancel => exact ⟨hnum.congr rfl rfl rfl, huid⟩
  | depart t =>
    refine ⟨hnum.congr rfl rfl ?_, huid⟩
    simp only [depart, ETX.set_none]
  | finish t =>
    rw [finish, if_neg (by simp [hnum.event])]
    exact ⟨hnum.congr rfl rfl rfl, huid⟩
  | start t =>
    rw [start, if_neg (by simp [hnum.event])]
    exact ⟨hnum.congr rfl rfl rfl, huid⟩
  | scheduleEta heq => exact huid ▸ scheduleEta_numeric hnum heq
  | scheduleEtd heq => exact huid ▸ scheduleEtd_numeric hnum heq
  | written value now => exact huid ▸ writeBack_numeric_keeps hnum value now

end Event

/-- An operation on integer times keeps all events numeric. -/
theorem World.Integer.step {cfg : BufferScheduler Int} {S : Sorter Nat} {w : World Int}
    (hw : w.Integer) {op : Op Int} (hrefers : w.Refers op) (hnumeric : op.Numeric) :
    (w.step cfg S op).Integer := by
  have hA : ∀ args, op = .create args → args.Numeric := by
    rintro args rfl
    exact hnumeric
  have hstep := (World.step_changes cfg S w op hrefers hA).event
  have key u := Event.eventStep_numeric (hstep u) ⟨hw.numeric u, hw.uid u⟩
  exact ⟨fun u => (key u).1, fun u => (key u).2⟩

/-- In every run that creates events with integer times only, all events
are numeric. -/
theorem World.integer_of_reached {cfg : BufferScheduler Int} {S : Sorter Nat} {w : World Int}
    (h : w.ReachedInteger cfg S) : w.Integer := by
  refine h.invariant World.Integer ?_ fun w op hw ⟨hrefers, hnumeric⟩ =>
    hw.step hrefers hnumeric
  exact ⟨fun u => ⟨rfl, rfl, rfl, ⟨0, 0, rfl, rfl, le_refl 0⟩, le_refl 0, le_refl 0⟩,
    fun u => rfl⟩

end Iams.Scheduler
