/-
Iams.Scheduler.Gather — one call of `solve_model`, from the queue to the
stored times.

`World.problem` is the `Problem` a scheduler in state `w` asks about its
queue and new events: `keysOf` the events `get_events` yields, their
stages, the window `get_event_variables` computes. `solveModel_of_readable`
says what a call does when every event's times can be read, for every
reply of the solver, and `solveModel_of_not_readable` what it does
otherwise. The later modules use these two and never unfold the loops
again.

No `sorry`, no `axiom`, no `native_decide`.
-/
import Iams.Lib.Fallible
import Iams.Scheduler.Plan
import Iams.Scheduler.World

namespace Iams.Scheduler

open Iams.Lib

/-! ## The events a problem is about -/

/-- A new key goes to the end of a dictionary. -/
def insertKey (us : List Nat) (u : Nat) : List Nat := if u ∈ us then us else us ++ [u]

/-- The keys of the dictionary that the yielded events leave. -/
def keysOf (us : List Nat) : List Nat := us.foldl insertKey []

theorem mem_insertKey {us : List Nat} {u v : Nat} :
    v ∈ insertKey us u ↔ v ∈ us ∨ v = u := by
  unfold insertKey
  split
  · next h => exact ⟨Or.inl, fun hv => hv.elim id fun hvu => hvu ▸ h⟩
  · simp

theorem nodup_insertKey {us : List Nat} {u : Nat} (h : us.Nodup) : (insertKey us u).Nodup := by
  unfold insertKey
  split
  · exact h
  · next hu =>
    rw [← List.concat_eq_append]
    exact h.concat hu

theorem mem_foldl_insertKey {us vs : List Nat} {v : Nat} :
    v ∈ us.foldl insertKey vs ↔ v ∈ vs ∨ v ∈ us := by
  induction us generalizing vs with
  | nil => simp
  | cons u rest ih => rw [List.foldl_cons, ih, mem_insertKey, List.mem_cons, or_assoc]

@[simp] theorem mem_keysOf {us : List Nat} {v : Nat} : v ∈ keysOf us ↔ v ∈ us := by
  simp [keysOf, mem_foldl_insertKey]

theorem nodup_keysOf (us : List Nat) : (keysOf us).Nodup := by
  have key : ∀ vs : List Nat, vs.Nodup → (us.foldl insertKey vs).Nodup := by
    induction us with
    | nil => exact fun _ h => h
    | cons u rest ih => exact fun vs h => ih _ (nodup_insertKey h)
  exact key [] List.nodup_nil

/-- Without repetitions every event is a key in its place. -/
theorem keysOf_of_nodup {us : List Nat} (h : us.Nodup) : keysOf us = us := by
  have key : ∀ vs : List Nat, (vs ++ us).Nodup → us.foldl insertKey vs = vs ++ us := by
    induction us with
    | nil => simp
    | cons u rest ih =>
      intro vs hvs
      have hu : u ∉ vs := fun hu =>
        (List.nodup_append.mp hvs).2.2 u hu u List.mem_cons_self rfl
      rw [List.foldl_cons, insertKey, if_neg hu,
        ih (List.nodup_cons.mp h).2 _ (by simpa using hvs)]
      simp
  exact key [] (by simpa using h)

theorem dictSet_map (f : Nat → Variables) (us : List Nat) (u : Nat) :
    dictSet u (f u) (us.map fun v => (v, f v)) = (insertKey us u).map fun v => (v, f v) := by
  induction us with
  | nil => rfl
  | cons v rest ih =>
    by_cases hvu : v = u
    · subst hvu
      simp [dictSet, insertKey]
    · have hmem : u ∈ v :: rest ↔ u ∈ rest := by simp [Ne.symm hvu]
      simp only [List.map_cons, dictSet, if_neg hvu, ih, insertKey, hmem]
      split <;> rfl

/-! ## Removing from the queue -/

/-- Erasing other members leaves the head. -/
theorem foldl_erase_cons {a : Nat} {xs us : List Nat} (h : ∀ x ∈ xs, x ≠ a) :
    xs.foldl List.erase (a :: us) = a :: xs.foldl List.erase us := by
  induction xs generalizing us with
  | nil => rfl
  | cons x rest ih =>
    rw [List.foldl_cons, List.foldl_cons,
      List.erase_cons_tail (by simpa using (h x List.mem_cons_self).symm),
      ih fun y hy => h y (List.mem_cons_of_mem x hy)]

/-- Erasing the members that satisfy `drop`, one by one, keeps the
others. -/
theorem foldl_erase_filter (drop : Nat → Bool) (us : List Nat) :
    (us.filter drop).foldl List.erase us = us.filter fun u => !drop u := by
  induction us with
  | nil => rfl
  | cons u rest ih =>
    cases hu : drop u with
    | true => simp [hu, ih]
    | false =>
      have hne : ∀ x ∈ rest.filter drop, x ≠ u := by
        rintro x hx rfl
        rw [(List.mem_filter.mp hx).2] at hu
        cases hu
      simp only [List.filter_cons, hu, Bool.false_eq_true, if_false, Bool.not_false, if_true]
      rw [foldl_erase_cons hne, ih]

/-- Erasing members that a filter drops anyway does not change what it
keeps. -/
theorem filter_foldl_erase {keep : Nat → Bool} {xs us : List Nat}
    (h : ∀ x ∈ xs, keep x = false) :
    (xs.foldl List.erase us).filter keep = us.filter keep := by
  induction xs generalizing us with
  | nil => rfl
  | cons x rest ih =>
    have hx := h x List.mem_cons_self
    rw [List.foldl_cons, ih fun y hy => h y (List.mem_cons_of_mem x hy), ← List.erase_filter,
      List.erase_of_not_mem]
    intro hmem
    rw [(List.mem_filter.mp hmem).2] at hx
    cases hx

/-! ## Reading the events -/

/-- The exceptions `solve_model` is meant to raise, which `save` and
`validate` turn into `False`. -/
def PyError.isCanNotSchedule : PyError → Bool
  | .canNotSchedule _ => true
  | _ => false

@[simp] theorem pure_ok {α : Type} (a : α) : (pure a : Except PyError α) = .ok a := rfl

@[simp] theorem throw_error {α : Type} (err : PyError) :
    (throw err : Except PyError α) = .error err := rfl

/-- A computation that raises, if anything, something else. -/
def NeverRefuses {α : Type} (x : Except PyError α) : Prop :=
  ∀ err, x = .error err → err.isCanNotSchedule = false

/-- Every exception a computation raises satisfies `P`. -/
def Raises {α : Type} (P : PyError → Prop) (x : Except PyError α) : Prop :=
  ∀ err, x = .error err → P err

namespace Raises

variable {P Q : PyError → Prop}

theorem pure {α : Type} (a : α) : Raises P (Pure.pure a : Except PyError α) := by
  intro err h
  cases h

theorem error {α : Type} {err : PyError} (h : P err) :
    Raises P (.error err : Except PyError α) := by
  rintro err' ⟨⟩
  exact h

theorem bind {α β : Type} {x : Except PyError α} {f : α → Except PyError β}
    (hx : Raises P x) (hf : ∀ a, Raises P (f a)) : Raises P (x >>= f) := by
  intro err h
  cases x with
  | error e =>
    cases h
    exact hx _ rfl
  | ok a => exact hf a err h

theorem map {α β : Type} {x : Except PyError α} {f : α → β} (hx : Raises P x) :
    Raises P (f <$> x) := by
  intro err h
  cases x with
  | error e =>
    cases h
    exact hx _ rfl
  | ok a => cases h

theorem mono {α : Type} {x : Except PyError α} (hx : Raises P x) (h : ∀ err, P err → Q err) :
    Raises Q x :=
  fun err herr => h err (hx err herr)

end Raises

/-- Every value a computation returns satisfies `P`. -/
def Returns {α : Type} (P : α → Prop) (x : Except PyError α) : Prop :=
  ∀ a, x = .ok a → P a

namespace Returns

theorem pure {α : Type} {P : α → Prop} {a : α} (h : P a) :
    Returns P (Pure.pure a : Except PyError α) := by
  rintro b ⟨⟩
  exact h

theorem error {α : Type} {P : α → Prop} (err : PyError) :
    Returns P (.error err : Except PyError α) := by
  intro a h
  cases h

theorem bind {α β : Type} {P : β → Prop} {x : Except PyError α} {f : α → Except PyError β}
    (hf : ∀ a, Returns P (f a)) : Returns P (x >>= f) := by
  intro b h
  cases x with
  | error e => cases h
  | ok a => exact hf a b h

end Returns

section Reading

variable {τ : Type} [Ring τ] [LinearOrder τ] [TimeStep τ] (cfg : BufferScheduler τ)

namespace Event

/-- The stage of an event whose times can be read. -/
def stageD (e : Event τ) (now : Option τ) : Stage :=
  match e.stage cfg now with
  | .ok st => st
  | .error _ => .departed 0 0 0

/-- `get_variables` raises no exception. -/
def Readable (e : Event τ) (now : Option τ) : Prop := ∃ st, e.stage cfg now = .ok st

variable {cfg} {e : Event τ} {now : Option τ}

theorem stageD_eq {st : Stage} (h : e.stage cfg now = .ok st) : e.stageD cfg now = st := by
  rw [stageD, h]

theorem Readable.stage_eq (h : e.Readable cfg now) :
    e.stage cfg now = .ok (e.stageD cfg now) := by
  obtain ⟨st, hst⟩ := h
  rw [stageD_eq hst, hst]

theorem Readable.getVariables_eq (h : e.Readable cfg now) :
    e.getVariables cfg now = .ok ((e.stageD cfg now).variables e.uid) := by
  rw [getVariables, h.stage_eq]
  rfl

/-- A time is missing, or needs `now`. -/
def Misread (err : PyError) : Prop := err = .typeError ∨ err = .assertionError

variable (cfg) in
theorem convertTime_raises (b : Bool) (now value : Option τ) :
    Raises Misread (convertTime cfg b now value) := by
  unfold convertTime
  split
  · exact .error (.inl rfl)
  · split
    · exact .error (.inl rfl)
    · exact .pure _

variable (cfg) in
theorem convertSteps_raises (value : Option Int) : Raises Misread (convertSteps cfg value) := by
  unfold convertSteps
  split
  · exact .error (.inl rfl)
  · exact .pure _

variable (cfg) in
theorem convertConstraints_raises (b : Bool) (now : Option τ) (bounds : Option τ × Option τ) :
    Raises Misread (convertConstraints cfg b now bounds) := by
  obtain ⟨low, high⟩ := bounds
  have hlow (v : τ) := (convertTime_raises cfg b now (some v)).map (f := some)
  have hhigh (v : Option Int) := (convertSteps_raises cfg v).map (f := some)
  cases low <;> cases high
  · exact .bind (.pure _) fun _ => .bind (.pure _) fun _ => .pure _
  · exact .bind (.pure _) fun _ => .bind (hhigh _) fun _ => .pure _
  · exact .bind (hlow _) fun _ => .bind (.pure _) fun _ => .pure _
  · exact .bind (hlow _) fun _ => .bind (hhigh _) fun _ => .pure _

variable (cfg) in
theorem getTime_raises (e : Event τ) (value now : Option τ) :
    Raises Misread (e.getTime cfg value now) := by
  unfold getTime
  split
  · exact .pure _
  · split
    · exact .error (.inr rfl)
    · exact .pure _
    · exact .pure _

/-- What `get_variables` raises: a time can not be read, or the event is
canceled. -/
theorem stage_raises (e : Event τ) (now : Option τ) :
    Raises (fun err => Misread err ∨ e.state = .canceled ∧ err = .notImplementedError
      ("Implementation of state " ++ e.state.str ++ " is missing")) (e.stage cfg now) := by
  have misread {x : Except PyError Stage} (hx : Raises Misread x) :
      Raises (fun err => Misread err ∨ e.state = .canceled ∧ err = .notImplementedError
        ("Implementation of state " ++ e.state.str ++ " is missing")) x :=
    hx.mono fun _ => .inl
  have steps (value : Option τ) {f : Int → Except PyError Stage}
      (hf : ∀ n, Raises Misread (f n)) :
      Raises Misread (e.getTime cfg value now >>= fun v => convertSteps cfg v >>= f) :=
    .bind (e.getTime_raises cfg value now) fun v => .bind (convertSteps_raises cfg v) hf
  have etd (f : Bounds → Except PyError Stage) (hf : ∀ b, Raises Misread (f b)) :
      Raises Misread (e.etdConstraints cfg now >>= f) :=
    .bind (convertConstraints_raises cfg _ now _) hf
  unfold stage
  split
  · exact misread (.bind (convertConstraints_raises cfg _ now _) fun _ => etd _ fun _ => .pure _)
  · exact misread (.bind (convertConstraints_raises cfg _ now _) fun _ => etd _ fun _ => .pure _)
  · exact misread (.bind (convertTime_raises cfg _ now _) fun _ => etd _ fun _ => .pure _)
  · exact misread (.bind (convertTime_raises cfg _ now _) fun _ =>
      steps _ fun _ => etd _ fun _ => .pure _)
  · exact misread (steps _ fun _ => steps _ fun _ => etd _ fun _ => .pure _)
  · exact misread (steps _ fun _ => steps _ fun _ =>
      .bind (convertTime_raises cfg _ now _) fun _ => .pure _)
  · next hstate => exact .error (.inr ⟨hstate, rfl⟩)

/-- What `get_variables` raises is never a refusal. -/
theorem stage_neverRefuses (e : Event τ) (now : Option τ) :
    NeverRefuses (e.stage cfg now) := by
  refine (e.stage_raises now).mono ?_
  rintro err ((rfl | rfl) | ⟨-, rfl⟩) <;> rfl

end Event

/-- The stage tells whether the event waits for its start. -/
theorem Event.stage_isWaiting (e : Event τ) (now : Option τ) :
    Returns (fun st => e.state.waiting = st.isWaiting) (e.stage cfg now) := by
  unfold stage
  split <;> rename_i hstate <;> simp only [hstate]
  · exact .bind fun _ => .bind fun _ => .pure rfl
  · exact .bind fun _ => .bind fun _ => .pure rfl
  · exact .bind fun _ => .bind fun _ => .pure rfl
  · exact .bind fun _ => .bind fun _ => .bind fun _ => .bind fun _ => .pure rfl
  · exact .bind fun _ => .bind fun _ => .bind fun _ => .bind fun _ => .bind fun _ => .pure rfl
  · exact .bind fun _ => .bind fun _ => .bind fun _ => .bind fun _ => .bind fun _ => .pure rfl
  · exact .error _

/-- All of these events can be read. -/
def AllReadable (obj : Nat → Event τ) (now : Option τ) (us : List Nat) : Prop :=
  ∀ u ∈ us, (obj u).Readable cfg now

/-- The exception of the first event that can not be read. -/
def firstError (obj : Nat → Event τ) (now : Option τ) : List Nat → Option PyError
  | [] => none
  | u :: rest =>
      match (obj u).stage cfg now with
      | .error err => some err
      | .ok _ => firstError obj now rest

/-- What the loop collects from events that can all be read. -/
def gather (obj : Nat → Event τ) (now : Option τ) (c : Collected) (us : List Nat) :
    Collected :=
  us.foldl (fun c u => c.add u (((obj u).stageD cfg now).variables (obj u).uid)) c

/-- The events a run of actions removes, in order. -/
def removals (actions : List Action) : List Nat :=
  actions.filterMap fun
    | .yield _ => none
    | .remove u => some u

variable {cfg} {obj : Nat → Event τ} {now : Option τ}

/-- The loop over events that can all be read. -/
theorem consume_of_readable {actions : List Action} {c : Collected} {queue : List Nat}
    (h : AllReadable cfg obj now (yields actions)) :
    consume cfg obj now actions c queue
      = (.ok (gather cfg obj now c (yields actions)),
          (removals actions).foldl List.erase queue) := by
  induction actions generalizing c queue with
  | nil => rfl
  | cons action rest ih =>
    cases action with
    | remove u => exact ih h
    | yield u =>
      have hu : (obj u).Readable cfg now := h u List.mem_cons_self
      have hrest : AllReadable cfg obj now (yields rest) :=
        fun v hv => h v (List.mem_cons_of_mem u hv)
      simp only [consume, hu.getVariables_eq, ih hrest]
      rfl

/-- The loop raises at the first event that can not be read, with some
of the removals done. -/
theorem consume_of_not_readable {actions : List Action} (c : Collected)
    (queue : List Nat) (h : ¬ AllReadable cfg obj now (yields actions)) :
    ∃ (err : PyError) (removed : List Nat), consume cfg obj now actions c queue
        = (.error err, removed.foldl List.erase queue) ∧
      firstError cfg obj now (yields actions) = some err ∧
      err.isCanNotSchedule = false ∧ ∀ u ∈ removed, u ∈ removals actions := by
  induction actions generalizing c queue with
  | nil => exact absurd (fun u hu => absurd hu List.not_mem_nil) h
  | cons action rest ih =>
    cases action with
    | remove u =>
      obtain ⟨err, removed, heq, hfirst, herr, hmem⟩ := ih c (queue.erase u) h
      refine ⟨err, u :: removed, heq, hfirst, herr, fun v hv => ?_⟩
      rcases List.mem_cons.mp hv with rfl | hv
      · exact List.mem_cons_self
      · exact List.mem_cons_of_mem u (hmem v hv)
    | yield u =>
      have hyields : yields (.yield u :: rest) = u :: yields rest := rfl
      cases hstage : (obj u).stage cfg now with
      | error err =>
        refine ⟨err, [], ?_, ?_, Event.stage_neverRefuses _ _ err hstage, by simp⟩
        · simp only [consume, Event.getVariables, hstage]
          rfl
        · simp only [hyields, firstError, hstage]
      | ok st =>
        have hrest : ¬ AllReadable cfg obj now (yields rest) := by
          intro hrest
          refine h fun v hv => ?_
          rcases List.mem_cons.mp hv with rfl | hv
          · exact ⟨st, hstage⟩
          · exact hrest v hv
        simp only [consume, Event.getVariables, hstage, hyields, firstError]
        exact ih _ queue hrest

variable (cfg obj now) in
/-- The collected dictionary has one entry for each event. -/
theorem gather_eventsData (c : Collected) (us vs : List Nat)
    (h : c.eventsData = vs.map fun u => (u, ((obj u).stageD cfg now).variables (obj u).uid)) :
    (gather cfg obj now c us).eventsData
      = (us.foldl insertKey vs).map
          fun u => (u, ((obj u).stageD cfg now).variables (obj u).uid) := by
  induction us generalizing c vs with
  | nil => exact h
  | cons u rest ih =>
    refine ih _ (insertKey vs u) ?_
    change dictSet u _ c.eventsData = _
    rw [h]
    exact dictSet_map (fun u => ((obj u).stageD cfg now).variables (obj u).uid) vs u

end Reading

/-! ## The queue -/

section Collecting

variable {τ : Type} [Ring τ] [LinearOrder τ] (obj : Nat → Event τ)

/-- The departed and canceled events that still matter. -/
def kept (events : List Nat) : List Nat :=
  (gone obj events).filter fun u => retained (timeMin obj events) (timeMax obj events) (obj u)

theorem yields_getEvents (events new : List Nat) :
    yields (getEvents obj events new) = live obj events ++ kept obj events ++ new := by
  have hyield (us : List Nat) : yields (us.map .yield) = us := by
    simp [yields, List.filterMap_map]
  have hgone (us : List Nat) (lo hi : Option τ) :
      yields (us.map (goneAction obj lo hi))
        = us.filter fun u => retained lo hi (obj u) := by
    induction us with
    | nil => rfl
    | cons u rest ih =>
      cases hu : retained lo hi (obj u) with
      | true => simpa [yields, goneAction, hu] using ih
      | false => simpa [yields, goneAction, hu] using ih
  have happend (xs ys : List Action) : yields (xs ++ ys) = yields xs ++ yields ys :=
    List.filterMap_append
  rw [getEvents, happend, happend, hyield, hyield, hgone, kept]

theorem removals_getEvents (events new : List Nat) :
    removals (getEvents obj events new)
      = events.filter fun u => !(!(obj u).state.gone ||
          retained (timeMin obj events) (timeMax obj events) (obj u)) := by
  have hyield (us : List Nat) : removals (us.map .yield) = [] := by
    simp [removals, List.filterMap_map]
  have hgone (us : List Nat) (lo hi : Option τ) :
      removals (us.map (goneAction obj lo hi))
        = us.filter fun u => !retained lo hi (obj u) := by
    induction us with
    | nil => rfl
    | cons u rest ih =>
      cases hu : retained lo hi (obj u) with
      | true => simpa [removals, goneAction, hu] using ih
      | false => simpa [removals, goneAction, hu] using ih
  have happend (xs ys : List Action) : removals (xs ++ ys) = removals xs ++ removals ys :=
    List.filterMap_append
  rw [getEvents, happend, happend, hyield, hyield, hgone, gone, List.filter_filter]
  simp [Bool.and_comm]

/-- After all removals exactly `collect` is left. -/
theorem foldl_erase_removals (events new : List Nat) :
    (removals (getEvents obj events new)).foldl List.erase events = collect obj events := by
  rw [removals_getEvents, foldl_erase_filter]
  simp only [Bool.not_not]
  rfl

theorem mem_collect {events : List Nat} {u : Nat} :
    u ∈ collect obj events ↔ u ∈ live obj events ∨ u ∈ kept obj events := by
  simp only [collect, live, kept, gone, List.mem_filter, Bool.or_eq_true, Bool.not_eq_true']
  constructor
  · rintro ⟨hu, h⟩
    cases hgone : (obj u).state.gone with
    | false => exact Or.inl ⟨hu, rfl⟩
    | true => exact Or.inr ⟨⟨hu, rfl⟩, by simpa [hgone] using h⟩
  · rintro (⟨hu, h⟩ | ⟨⟨hu, _⟩, h⟩)
    · exact ⟨hu, Or.inl h⟩
    · exact ⟨hu, Or.inr h⟩

/-- Collecting keeps the live events. -/
theorem live_collect (events : List Nat) : live obj (collect obj events) = live obj events := by
  rw [live, live, collect, List.filter_filter]
  refine List.filter_congr fun u _ => ?_
  cases (obj u).state.gone <;> simp

end Collecting

/-! ## One call of `solve_model` -/

section Solving

variable {τ : Type} [Ring τ] [LinearOrder τ] [TimeStep τ]
variable (cfg : BufferScheduler τ) (S : Sorter Nat)

namespace World

/-- The events a call is about: the live ones, the departed ones that
still matter, and the new ones. -/
def concerned (w : World τ) (new : List Nat) : List Nat :=
  live w.obj w.events ++ kept w.obj w.events ++ new

/-- The times of all events a call is about can be read. -/
def Readable (w : World τ) (new : List Nat) (now : Option τ) : Prop :=
  AllReadable cfg w.obj now (w.concerned new)

/-- The window `get_event_variables` computes from the events alone. -/
def span (w : World τ) (new : List Nat) (now : Option τ) : Int × Int :=
  (gather cfg w.obj now .empty (w.concerned new)).makespan cfg.horizon

/-- What a call asks. -/
def problem (w : World τ) (new : List Nat) (now : Option τ) : Problem where
  keys := keysOf (w.concerned new)
  stage := fun u => (w.obj u).stageD cfg now
  order := S.sort (ltOn w.obj) (keysOf (w.concerned new))
  capacity := cfg.bufferInput.first
  lo := (w.span cfg new now).1
  hi := max w.maxHorizon (w.span cfg new now).2

/-- The model a call hands to the solver. -/
def model (w : World τ) (new : List Nat) (now : Option τ) : Cp.Model Var :=
  assemble w.obj S cfg (w.problem cfg S new now).datas

/-- The scheduler once the events have been gathered. -/
def gathered (w : World τ) (new : List Nat) (now : Option τ) : World τ :=
  { w with
    events := collect w.obj w.events
    maxHorizon := max w.maxHorizon (w.span cfg new now).2 }

/-- The scheduler once the answer `s` has been written back. -/
def planned (w : World τ) (new : List Nat) (now : Option τ) (s : Cp.Assignment Var) :
    World τ :=
  { w.gathered cfg new now with
    obj := writeBackAll cfg w.obj (keysOf (w.concerned new)) s (w.span cfg new now).1 now }

variable {cfg S} {w : World τ} {new : List Nat} {now : Option τ}

theorem getEventVariables_of_readable (h : w.Readable cfg new now) :
    w.getEventVariables cfg new now
      = (.ok ((w.problem cfg S new now).keys.map
            (fun u => (u, ((w.problem cfg S new now).stage u).variables (w.obj u).uid)),
          ((w.problem cfg S new now).lo, (w.problem cfg S new now).hi)),
        w.gathered cfg new now) := by
  have hread : AllReadable cfg w.obj now (yields (getEvents w.obj w.events new)) := by
    rw [yields_getEvents]
    exact h
  rw [getEventVariables, consume_of_readable hread, foldl_erase_removals, yields_getEvents]
  have hdata := gather_eventsData cfg w.obj now .empty (w.concerned new) [] rfl
  simp only [concerned] at hdata
  simp only [hdata]
  rfl

theorem asks (h : w.Readable cfg new now) :
    (w.problem cfg S new now).Asks w.obj S cfg where
  order := rfl
  waiting := by
    intro u hu
    have hread : (w.obj u).Readable cfg now := h u (mem_keysOf.mp hu)
    exact Event.stage_isWaiting cfg (w.obj u) now _ hread.stage_eq
  capacity := rfl

variable (cfg S w new now) in
theorem buildModel_problem :
    buildModel w.obj S cfg ((w.problem cfg S new now).keys.map
        (fun u => (u, ((w.problem cfg S new now).stage u).variables (w.obj u).uid)))
        ((w.problem cfg S new now).lo, (w.problem cfg S new now).hi)
      = .ok (w.model cfg S new now, (w.problem cfg S new now).lo) := by
  rw [buildModel]
  dsimp only
  rw [Problem.newDatas_variables]
  rfl

/-- A call about events that can all be read succeeds exactly on the
solver's answer OPTIMAL; otherwise it is a refusal. -/
theorem solveModel_of_readable (h : w.Readable cfg new now) (cp : Cp.Solver Var)
    (save : Bool) :
    w.solveModel cfg S cp new now save
      = match cp (w.model cfg S new now) with
        | .optimal s => (.ok new, w.planned cfg new now s)
        | .status name =>
            (.error (.canNotSchedule ("Solver returned " ++ name)), w.gathered cfg new now)
        | .failed => (.error (.canNotSchedule "Solver failed"), w.gathered cfg new now) := by
  rw [solveModel, getEventVariables_of_readable (S := S) h]
  dsimp only
  have hobj : (w.gathered cfg new now).obj = w.obj := rfl
  rw [hobj, buildModel_problem cfg S w new now]
  dsimp only
  rw [optimizeModel]
  cases cp (w.model cfg S new now) with
  | optimal s =>
    simp only [List.map_map, Function.comp_def, List.map_id']
    rfl
  | status name => rfl
  | failed => rfl

/-- A call about an event that can not be read raises something else than
a refusal, and may have removed some of the events that do not matter
any more. -/
theorem solveModel_of_not_readable (h : ¬ w.Readable cfg new now) (cp : Cp.Solver Var)
    (save : Bool) :
    ∃ (err : PyError) (removed : List Nat), w.solveModel cfg S cp new now save
        = (.error err, { w with events := removed.foldl List.erase w.events }) ∧
      firstError cfg w.obj now (w.concerned new) = some err ∧
      err.isCanNotSchedule = false ∧
      ∀ u ∈ removed, u ∈ removals (getEvents w.obj w.events new) := by
  have hread : ¬ AllReadable cfg w.obj now (yields (getEvents w.obj w.events new)) := by
    rw [yields_getEvents]
    exact h
  obtain ⟨err, removed, heq, hfirst, herr, hmem⟩ :=
    consume_of_not_readable .empty w.events hread
  rw [yields_getEvents] at hfirst
  exact ⟨err, removed, by rw [solveModel, getEventVariables, heq], hfirst, herr, hmem⟩

/-! ## The callers -/

/-- `save` answers `True` exactly on OPTIMAL. -/
theorem save_true_iff {cp : Cp.Solver Var} {u : Nat} :
    (w.save cfg S cp u now).1 = .ok true ↔
      w.Readable cfg [u] now ∧ ∃ s, cp (w.model cfg S [u] now) = .optimal s := by
  unfold save add
  by_cases h : w.Readable cfg [u] now
  · rw [solveModel_of_readable h]
    cases cp (w.model cfg S [u] now) <;> simp [h]
  · obtain ⟨err, removed, heq, -, herr, -⟩ := solveModel_of_not_readable (S := S) h cp true
    rw [heq]
    cases err <;> simp_all [PyError.isCanNotSchedule]

theorem save_of_optimal {cp : Cp.Solver Var} {u : Nat} {s : Cp.Assignment Var}
    (h : w.Readable cfg [u] now) (hcp : cp (w.model cfg S [u] now) = .optimal s) :
    w.save cfg S cp u now
      = (.ok true, { w.planned cfg [u] now s with
          events := collect w.obj w.events ++ [u] }) := by
  unfold save add
  rw [solveModel_of_readable h, hcp]
  rfl

/-- `save` answers `False` exactly on any other reply of the solver, and
leaves the scheduler as it is after the gathering. -/
theorem save_false {cp : Cp.Solver Var} {u : Nat}
    (h : (w.save cfg S cp u now).1 = .ok false) :
    w.Readable cfg [u] now ∧ (∀ s, cp (w.model cfg S [u] now) ≠ .optimal s) ∧
      (w.save cfg S cp u now).2 = w.gathered cfg [u] now := by
  unfold save add at h ⊢
  by_cases hread : w.Readable cfg [u] now
  · rw [solveModel_of_readable hread] at h ⊢
    cases hcp : cp (w.model cfg S [u] now) with
    | optimal s =>
      rw [hcp] at h
      cases h
    | status name => exact ⟨hread, by simp, rfl⟩
    | failed => exact ⟨hread, by simp, rfl⟩
  · obtain ⟨err, removed, heq, -, herr, -⟩ := solveModel_of_not_readable (S := S) hread cp true
    rw [heq] at h
    cases err <;> simp_all [PyError.isCanNotSchedule]

/-- A complete solver accepts an event whenever its model has a
solution. -/
theorem save_of_satisfiable {cp : Cp.Solver Var} {u : Nat} (hcp : cp.Complete)
    (h : w.Readable cfg [u] now) (hsat : (w.model cfg S [u] now).Satisfiable) :
    (w.save cfg S cp u now).1 = .ok true := by
  obtain ⟨s, hs⟩ := hcp _ Problem.declared hsat
  exact save_true_iff.mpr ⟨h, s, hs⟩

/-- A sound solver refuses an event whose model has none. -/
theorem save_of_unsatisfiable {cp : Cp.Solver Var} {u : Nat} (hcp : cp.Sound)
    (h : w.Readable cfg [u] now) (hunsat : ¬ (w.model cfg S [u] now).Satisfiable) :
    w.save cfg S cp u now = (.ok false, w.gathered cfg [u] now) := by
  unfold save add
  rw [solveModel_of_readable h]
  cases hreply : cp (w.model cfg S [u] now) with
  | optimal s => exact absurd ⟨s, hcp _ s hreply⟩ hunsat
  | status name => rfl
  | failed => rfl

end World

end Solving

end Iams.Scheduler
