/-
Iams.Lib.Interleaving — tasks of one event loop over a shared state.

`Code σ π ε α` is the code of a coroutine: it reads and changes the shared
state, and gives up the loop where it awaits the answer to a request.
`System` is the state with the tasks of all calls made so far. A step
starts a call or answers a waiting one, so that a run is an interleaving of
the calls, cut at the places where they await something.

`Contract` is what the tasks owe to each other: an invariant of the state,
a relation between the state when a task gives up the loop and the state
when it goes on, and the requests that a call may make. `Contract.wp` is the
weakest precondition of code under a contract; `Contract.sound` says that
calls which keep the contract one by one keep it in every interleaving, and
`Contract.later` what the steps from one state of a run to another can do.

No `sorry`, no `axiom`, no `native_decide`.
-/
import Mathlib.Logic.Relation
import Mathlib.Data.List.Basic

namespace Iams.Lib.Interleaving

variable {σ ρ ε : Type} {π : ρ → Type} {α β : Type}

/-! ## Code -/

inductive Code (σ : Type) {ρ : Type} (π : ρ → Type) (ε α : Type) where
  | finish (result : Except ε α)
  | get (next : σ → Code σ π ε α)
  | put (state : σ) (next : Code σ π ε α)
  | await (request : ρ) (next : Except ε (π request) → Code σ π ε α)

/-- A value with `R`, or an exception with `E`. -/
def Ending (R : α → Prop) (E : ε → Prop) : Except ε α → Prop
  | .ok a => R a
  | .error e => E e

namespace Code

/-- Go on with the value or the exception. -/
def andThen : Code σ π ε α → (Except ε α → Code σ π ε β) → Code σ π ε β
  | finish r, f => f r
  | get next, f => get fun s => (next s).andThen f
  | put s next, f => put s (next.andThen f)
  | await request next, f => await request fun r => (next r).andThen f

instance : Monad (Code σ π ε) where
  pure a := finish (.ok a)
  bind x f := x.andThen fun
    | .ok a => f a
    | .error e => finish (.error e)

instance : MonadExceptOf ε (Code σ π ε) where
  throw e := finish (.error e)
  tryCatch x handle := x.andThen fun
    | .ok a => finish (.ok a)
    | .error e => handle e

/-- The shared state. -/
def read : Code σ π ε σ := get fun s => finish (.ok s)

/-- Change the shared state. -/
def modify (f : σ → σ) : Code σ π ε Unit := get fun s => put (f s) (finish (.ok ()))

/-- Await the answer to a request. -/
def ask (request : ρ) : Code σ π ε (π request) := await request finish

end Code

/-! ## Systems -/

/-- A call that has run up to its next `await`, or to its end. -/
inductive Task (σ : Type) {ρ : Type} (π : ρ → Type) (ε α : Type) where
  | waiting (request : ρ) (next : Except ε (π request) → Code σ π ε α)
  | finished (result : Except ε α)

/-- Run until the loop is given up. -/
def Code.advance : Code σ π ε α → σ → σ × Task σ π ε α
  | finish r, s => (s, .finished r)
  | get next, s => (next s).advance s
  | put s next, _ => next.advance s
  | await request next, s => (s, .waiting request next)

section System

variable {κ : Type} {τ : κ → Type}

/-- The state, the tasks of all calls, and the requests made so far, each
with its call and the state it was made in. -/
structure System (σ : Type) {ρ : Type} (π : ρ → Type) (ε : Type) {κ : Type} (τ : κ → Type) where
  state : σ
  tasks : List (Σ k, Task σ π ε (τ k))
  asked : List (κ × σ × ρ)

namespace System

def init (s : σ) : System σ π ε τ := ⟨s, [], []⟩

/-- The calls made so far. -/
def calls (s : System σ π ε τ) : List κ := s.tasks.map Sigma.fst

/-- The request of a call that now waits is entered. -/
def entry (k : κ) : σ × Task σ π ε (τ k) → List (κ × σ × ρ)
  | (s, .waiting request _) => [(k, s, request)]
  | (_, .finished _) => []

/-- A new call runs up to its first `await`. -/
def start (s : System σ π ε τ) (k : κ) (code : Code σ π ε (τ k)) : System σ π ε τ :=
  let out := code.advance s.state
  ⟨out.1, s.tasks ++ [⟨k, out.2⟩], s.asked ++ entry k out⟩

/-- The task in place `i` goes on with `code`. -/
def resume (s : System σ π ε τ) (i : Nat) (k : κ) (code : Code σ π ε (τ k)) : System σ π ε τ :=
  let out := code.advance s.state
  ⟨out.1, s.tasks.set i ⟨k, out.2⟩, s.asked ++ entry k out⟩

end System

/-- A call among `calls` is made, or a waiting one is answered. -/
inductive Step (code : (k : κ) → Code σ π ε (τ k))
    (answers : (request : ρ) → Except ε (π request) → Prop) (calls : κ → Prop) :
    System σ π ε τ → System σ π ε τ → Prop where
  | call (s : System σ π ε τ) (k : κ) (hk : calls k) :
      Step code answers calls s (s.start k (code k))
  | answer (s : System σ π ε τ) (i : Nat) (k : κ) (request : ρ)
      (next : Except ε (π request) → Code σ π ε (τ k)) (r : Except ε (π request))
      (hi : s.tasks[i]? = some ⟨k, .waiting request next⟩) (hr : answers request r) :
      Step code answers calls s (s.resume i k (next r))

/-- A system comes after another in a run. -/
abbrev Run (code : (k : κ) → Code σ π ε (τ k))
    (answers : (request : ρ) → Except ε (π request) → Prop) (calls : κ → Prop) :
    System σ π ε τ → System σ π ε τ → Prop :=
  Relation.ReflTransGen (Step code answers calls)

namespace Step

variable {code : (k : κ) → Code σ π ε (τ k)}
  {answers : (request : ρ) → Except ε (π request) → Prop} {calls calls' : κ → Prop}
  {s s' : System σ π ε τ}

/-- No call is forgotten. -/
theorem calls_subset (h : Step code answers calls s s') : ∀ k ∈ s.calls, k ∈ s'.calls := by
  intro k hk
  cases h with
  | call k' => simp [System.calls, System.start] at hk ⊢; exact .inl hk
  | answer i k' request next r hi =>
    simp only [System.calls, System.resume, List.map_set] at hk ⊢
    have hsame : (s.tasks.map Sigma.fst)[i]? = some k' := by rw [List.getElem?_map, hi]; rfl
    obtain ⟨hlt, rfl⟩ := List.getElem?_eq_some_iff.mp hsame
    rwa [List.set_getElem_self]

theorem restrict (h : Step code answers calls s s') (hcalls : ∀ k ∈ s'.calls, calls' k) :
    Step code answers calls' s s' := by
  cases h with
  | call k => exact .call s k (hcalls k (by simp [System.calls, System.start]))
  | answer i k request next r hi hr => exact .answer s i k request next r hi hr

end Step

variable {code : (k : κ) → Code σ π ε (τ k)}
  {answers : (request : ρ) → Except ε (π request) → Prop} {calls : κ → Prop}

/-- A run makes no other calls than those that are seen at its end. -/
theorem Run.made {s s' : System σ π ε τ} (h : Run code answers calls s s') :
    Run code answers (· ∈ s'.calls) s s' := by
  suffices hall : ∀ calls' : κ → Prop, (∀ k ∈ s'.calls, calls' k) →
      Run code answers calls' s s' from
    hall _ fun _ hk => hk
  induction h with
  | refl => exact fun _ _ => .refl
  | tail _ hstep ih =>
    intro calls' hcalls
    exact (ih calls' fun k hk => hcalls k (hstep.calls_subset k hk)).tail (hstep.restrict hcalls)

/-! ## Schedules -/

/-- What the loop does next: a new call, or the answer for the task in a
place. -/
inductive Event (κ : Type) where
  | call (k : κ)
  | answer (i : Nat)
  deriving Repr

/-- One event, where `reply` answers the requests. -/
def play (code : (k : κ) → Code σ π ε (τ k)) (reply : (request : ρ) → Except ε (π request))
    (s : System σ π ε τ) : Event κ → System σ π ε τ
  | .call k => s.start k (code k)
  | .answer i =>
    match s.tasks[i]? with
    | some ⟨k, .waiting request next⟩ => s.resume i k (next (reply request))
    | _ => s

theorem run_event {reply : (request : ρ) → Except ε (π request)} {event : Event κ}
    (hreply : ∀ request, answers request (reply request))
    (hcall : ∀ k, event = .call k → calls k) (s : System σ π ε τ) :
    Run code answers calls s (play code reply s event) := by
  cases event with
  | call k => exact .single (.call s k (hcall k rfl))
  | answer i =>
    rw [play]
    split
    · next k request next hi => exact .single (.answer s i k request next _ hi (hreply request))
    · exact .refl

/-- A schedule is a run. -/
theorem run_play {reply : (request : ρ) → Except ε (π request)} {events : List (Event κ)}
    (hreply : ∀ request, answers request (reply request))
    (hcalls : ∀ k, .call k ∈ events → calls k) (s : System σ π ε τ) :
    Run code answers calls s (events.foldl (play code reply) s) := by
  induction events generalizing s with
  | nil => exact .refl
  | cons event rest ih =>
    exact (run_event hreply (fun k hk => hcalls k (hk ▸ List.mem_cons_self)) s).trans
      (ih (fun k hk => hcalls k (List.mem_cons_of_mem _ hk)) _)

end System

/-! ## Contracts -/

/-- What the tasks rely on and keep. -/
structure Contract (σ : Type) {ρ : Type} (π : ρ → Type) (ε κ : Type) where
  /-- Holds of the state whenever a task gives up the loop. -/
  inv : σ → Prop
  /-- What may happen between two such states. -/
  rel : σ → σ → Prop
  /-- The requests that a call may make in a state. -/
  may : κ → σ → ρ → Prop
  /-- The answers that a request may get. -/
  answers : (request : ρ) → Except ε (π request) → Prop
  refl : ∀ s, rel s s
  trans : ∀ {s t u}, rel s t → rel t u → rel s u

namespace Contract

variable {κ : Type} (C : Contract σ π ε κ) (k : κ)

/-- The code of call `k` keeps the contract, and ends with `Q` of the state
it last went on in, the state it ends in, and its result. -/
def wp : Code σ π ε α → (σ → σ → Except ε α → Prop) → σ → σ → Prop
  | .finish r, Q, start, s => Q start s r
  | .get next, Q, start, s => wp (next s) Q start s
  | .put s next, Q, start, _ => wp next Q start s
  | .await request next, Q, start, s => C.inv s ∧ C.rel start s ∧ C.may k s request ∧
      ∀ r, C.answers request r → ∀ t, C.inv t → C.rel s t → wp (next r) Q t t

variable {C k} {Q Q' : σ → σ → Except ε α → Prop} {start s : σ}

/-! ### Rules -/

theorem wp_mono {x : Code σ π ε α} (hQ : ∀ start s r, Q start s r → Q' start s r)
    (h : C.wp k x Q start s) : C.wp k x Q' start s := by
  induction x generalizing start s with
  | finish r => exact hQ _ _ _ h
  | get next ih => exact ih s h
  | put s next ih => exact ih h
  | await request next ih =>
    exact ⟨h.1, h.2.1, h.2.2.1, fun r hr t ht hst => ih r (h.2.2.2 r hr t ht hst)⟩

theorem wp_andThen {x : Code σ π ε α} {f : Except ε α → Code σ π ε β}
    {Q : σ → σ → Except ε β → Prop} :
    C.wp k (x.andThen f) Q start s ↔
      C.wp k x (fun start s r => C.wp k (f r) Q start s) start s := by
  induction x generalizing start s with
  | finish r => rfl
  | get next ih => exact ih s
  | put s next ih => exact ih
  | await request next ih =>
    simp only [Code.andThen, wp]
    exact and_congr_right' (and_congr_right' (and_congr_right'
      (forall_congr' fun r => forall_congr' fun _ => forall_congr' fun _ => forall_congr' fun _ =>
        forall_congr' fun _ => ih r)))

@[simp] theorem wp_pure {a : α} : C.wp k (pure a) Q start s ↔ Q start s (.ok a) := Iff.rfl

@[simp] theorem wp_throw {e : ε} : C.wp k (throw e) Q start s ↔ Q start s (.error e) := Iff.rfl

@[simp] theorem wp_read {Q : σ → σ → Except ε σ → Prop} :
    C.wp k Code.read Q start s ↔ Q start s (.ok s) := Iff.rfl

@[simp] theorem wp_modify {f : σ → σ} {Q : σ → σ → Except ε Unit → Prop} :
    C.wp k (Code.modify f) Q start s ↔ Q start (f s) (.ok ()) := Iff.rfl

theorem wp_bind {x : Code σ π ε α} {f : α → Code σ π ε β} {Q : σ → σ → Except ε β → Prop} :
    C.wp k (x >>= f) Q start s ↔ C.wp k x (fun start s r =>
      match r with
      | .ok a => C.wp k (f a) Q start s
      | .error e => Q start s (.error e)) start s := by
  refine wp_andThen.trans ⟨wp_mono ?_, wp_mono ?_⟩ <;> rintro start s (e | a) h <;> exact h

theorem wp_read_bind {f : σ → Code σ π ε α} :
    C.wp k (Code.read >>= f) Q start s ↔ C.wp k (f s) Q start s := Iff.rfl

theorem wp_tryCatch {x : Code σ π ε α} {handle : ε → Code σ π ε α} :
    C.wp k (tryCatch x handle) Q start s ↔ C.wp k x (fun start s r =>
      match r with
      | .ok a => Q start s (.ok a)
      | .error e => C.wp k (handle e) Q start s) start s := by
  refine wp_andThen.trans ⟨wp_mono ?_, wp_mono ?_⟩ <;> rintro start s (e | a) h <;> exact h

/-- A loop that awaits for each item: `J` is kept, `R` says what an item
gives, and `E` what may be raised. -/
theorem wp_mapM' {items : List β} {f : β → Code σ π ε α} {J : σ → σ → Prop} {R : β → α → Prop}
    {E : ε → Prop} (hf : ∀ b ∈ items, ∀ start s, J start s →
      C.wp k (f b) (fun start s r => J start s ∧ Ending (R b) E r) start s)
    (h : J start s) : C.wp k (items.mapM' f)
      (fun start s r => J start s ∧ Ending (List.Forall₂ R items) E r) start s := by
  induction items generalizing start s with
  | nil => exact ⟨h, .nil⟩
  | cons b rest ih =>
    rw [List.mapM', wp_bind]
    refine wp_mono ?_ (hf b List.mem_cons_self start s h)
    rintro start s (e | a) ⟨h, hR⟩
    · exact ⟨h, hR⟩
    refine wp_bind.mpr (wp_mono ?_ (ih (fun c hc => hf c (List.mem_cons_of_mem b hc)) h))
    rintro start s (e | as) ⟨h, hall⟩
    · exact ⟨h, hall⟩
    · exact ⟨h, .cons hR hall⟩

/-! ### Runs -/

variable {τ : κ → Type} (C) (result : (k : κ) → Except ε (τ k) → Prop)

/-- Where the loop is given up for good. -/
def Ends (k : κ) (start s : σ) (r : Except ε (τ k)) : Prop :=
  C.inv s ∧ C.rel start s ∧ result k r

/-- The code of a call keeps the contract. -/
def Keeps (k : κ) (code : Code σ π ε (τ k)) : Prop :=
  ∀ s, C.inv s → C.wp k code (C.Ends result k) s s

/-- A finished task has a good result, and a waiting one goes on well from
the state it waits in and from what the others make of it. -/
def Settled (s : σ) : (Σ k, Task σ π ε (τ k)) → Prop
  | ⟨k, .finished r⟩ => result k r
  | ⟨k, .waiting request next⟩ => ∃ t, C.rel t s ∧ ∀ r, C.answers request r →
      ∀ u, C.inv u → C.rel t u → C.wp k (next r) (C.Ends result k) u u

/-- The contract is kept so far. -/
structure Sound (s : System σ π ε τ) : Prop where
  inv : C.inv s.state
  tasks : ∀ task ∈ s.tasks, C.Settled result s.state task
  asked : ∀ e ∈ s.asked, C.may e.1 e.2.1 e.2.2 ∧ C.rel e.2.1 s.state

variable {C result}

theorem sound_init (h : C.inv s) : C.Sound result (System.init s) :=
  ⟨h, by simp [System.init], by simp [System.init]⟩

theorem Settled.mono {t : σ} {task : Σ k, Task σ π ε (τ k)} (h : C.Settled result s task)
    (hst : C.rel s t) : C.Settled result t task := by
  match task, h with
  | ⟨_, .finished _⟩, h => exact h
  | ⟨_, .waiting _ _⟩, ⟨u, hu, hnext⟩ => exact ⟨u, C.trans hu hst, hnext⟩

/-- What a task has done when it gives up the loop. -/
theorem advance_spec {k : κ} {code : Code σ π ε (τ k)}
    (h : C.wp k code (C.Ends result k) start s) :
    C.inv (code.advance s).1 ∧ C.rel start (code.advance s).1 ∧
      C.Settled result (code.advance s).1 ⟨k, (code.advance s).2⟩ ∧
      ∀ e ∈ System.entry k (code.advance s),
        C.may e.1 e.2.1 e.2.2 ∧ e.2.1 = (code.advance s).1 := by
  induction code generalizing s with
  | finish r => exact ⟨h.1, h.2.1, h.2.2, by simp [Code.advance, System.entry]⟩
  | get next ih => exact ih s h
  | put s next ih => exact ih h
  | await request next _ =>
    refine ⟨h.1, h.2.1, ⟨s, C.refl s, h.2.2.2⟩, ?_⟩
    simpa [Code.advance, System.entry] using h.2.2.1

section Run

variable {code : (k : κ) → Code σ π ε (τ k)} {calls : κ → Prop} {s s' : System σ π ε τ}

/-- The contract is kept over one stretch of a task: `tasks` are the old
tasks and the one that has run. -/
theorem sound_advance (hs : C.Sound result s) {k : κ} {x : Code σ π ε (τ k)}
    {tasks : List (Σ k, Task σ π ε (τ k))} (hx : C.wp k x (C.Ends result k) s.state s.state)
    (htasks : ∀ task ∈ tasks, task ∈ s.tasks ∨ task = ⟨k, (x.advance s.state).2⟩) :
    C.Sound result
      ⟨(x.advance s.state).1, tasks, s.asked ++ System.entry k (x.advance s.state)⟩ := by
  obtain ⟨hinv, hrel, hsettled, hentry⟩ := advance_spec hx
  refine ⟨hinv, fun task htask => ?_, fun e he => ?_⟩
  · rcases htasks task htask with hold | rfl
    · exact (hs.tasks task hold).mono hrel
    · exact hsettled
  · rcases List.mem_append.mp he with hold | hnew
    · exact ⟨(hs.asked e hold).1, C.trans (hs.asked e hold).2 hrel⟩
    · exact ⟨(hentry e hnew).1, (hentry e hnew).2 ▸ C.refl _⟩

/-- A step is a stretch of one task, whose code keeps the contract. -/
theorem step_cases (hcode : ∀ k, calls k → C.Keeps result k (code k)) (hs : C.Sound result s)
    (hstep : Step code C.answers calls s s') :
    ∃ k, ∃ x : Code σ π ε (τ k), C.wp k x (C.Ends result k) s.state s.state ∧
      s'.state = (x.advance s.state).1 ∧
      s'.asked = s.asked ++ System.entry k (x.advance s.state) ∧
      ∀ task ∈ s'.tasks, task ∈ s.tasks ∨ task = ⟨k, (x.advance s.state).2⟩ := by
  cases hstep with
  | call k hk =>
    exact ⟨k, code k, hcode k hk _ hs.inv, rfl, rfl, fun task htask => by
      simpa [System.start] using htask⟩
  | answer i k request next r hi hr =>
    obtain ⟨t, ht, hnext⟩ := hs.tasks _ (List.mem_of_getElem? hi)
    exact ⟨k, next r, hnext r hr _ hs.inv ht, rfl, rfl, fun task htask =>
      List.mem_or_eq_of_mem_set htask⟩

/-- One step keeps the contract, and enters only requests that follow. -/
theorem sound_step (hcode : ∀ k, calls k → C.Keeps result k (code k)) (hs : C.Sound result s)
    (hstep : Step code C.answers calls s s') :
    C.Sound result s' ∧ C.rel s.state s'.state ∧
      ∃ new, s'.asked = s.asked ++ new ∧ ∀ e ∈ new, C.rel s.state e.2.1 := by
  obtain ⟨k, x, hx, hstate, hasked, htasks⟩ := step_cases hcode hs hstep
  have hsound := sound_advance hs hx htasks
  obtain ⟨-, hrel, -, hentry⟩ := advance_spec hx
  refine ⟨?_, hstate ▸ hrel, _, hasked, fun e he => (hentry e he).2 ▸ hrel⟩
  rwa [← hstate, ← hasked] at hsound

/-- Calls that keep the contract one by one keep it in every run. -/
theorem sound (hcode : ∀ k, calls k → C.Keeps result k (code k)) (hs : C.Sound result s)
    (h : Run code C.answers calls s s') : C.Sound result s' := by
  induction h with
  | refl => exact hs
  | tail _ hstep ih => exact (sound_step hcode ih hstep).1

/-- The requests between two states of a run were made in states that
follow on the first one. -/
theorem later (hcode : ∀ k, calls k → C.Keeps result k (code k)) (hs : C.Sound result s)
    (h : Run code C.answers calls s s') :
    C.rel s.state s'.state ∧
      ∃ new, s'.asked = s.asked ++ new ∧ ∀ e ∈ new, C.rel s.state e.2.1 := by
  induction h with
  | refl => exact ⟨C.refl _, [], by simp, by simp⟩
  | @tail t u hrun hstep ih =>
    obtain ⟨hrel, new, hnew, hall⟩ := ih
    obtain ⟨-, hrel', new', hnew', hall'⟩ := sound_step hcode (sound hcode hs hrun) hstep
    refine ⟨C.trans hrel hrel', new ++ new', by rw [hnew', hnew, List.append_assoc], fun e he => ?_⟩
    rcases List.mem_append.mp he with h | h
    · exact hall e h
    · exact C.trans hrel (hall' e h)

end Run

end Contract

end Iams.Lib.Interleaving
