/-
Iams.Aio.ContextTheorems — what `stub` does with the exceptions of the
bodies it is used for.

The handler of `stub` is there for a class without a stub, and the `yield`
of the stub stands in the same `try`. A `KeyError` of the body comes to the
handler where the stub was there already, and the handler yields again.
`transparent_iff` says that this is the only exception that does not leave
the context as it is. `acquire_reaches` says that the contexts of
`Iams.Aio.Pool` are those of this code.

No `sorry`, no `axiom`, no `native_decide`.
-/
import Iams.Aio.Context

namespace Iams.Aio.GRPCCoroutine

open Iams.Lib Pool Gen

variable {ν ε : Type} [DecidableEq ε] {s s' : GRPCCoroutine ν}

/-! ## Exceptions of a body -/

/-- `stub` from the end of `_channel` on. -/
def inChannel (c : Nat) (cls : String) : Gen (GRPCCoroutine ν) Nat ε Unit :=
  (channelBody c).enter fun c next => (stubBody c cls).andThen (leaveWith next)

/-- A stub is yielded by a `stub` that has found its channel. -/
theorem stubContext_reaches [DecidableEq ν] {r : Request ν} {cls : String} {v : Nat}
    {k : Option (Exc ε) → Gen (GRPCCoroutine ν) Nat ε Unit} :
    Reaches (stubContext r cls) s s' (.yielded v k) ↔
      ∃ t c, Reaches (getChannel r : Coro ν ε Nat) s t (.finished (.ok c)) ∧
        Reaches (inChannel c cls) t s' (.yielded v k) := by
  have hcut : (stubContext r cls : Gen (GRPCCoroutine ν) Nat ε Unit) =
      (getChannel r).awaits.andThen _ := enter_awaits_andThen _ _ _
  rw [hcut, reaches_awaits_andThen]
  constructor
  · rintro ⟨t, res, hget, hrest⟩
    cases res with
    | ok c => exact ⟨t, c, hget, hrest⟩
    | error e => cases hrest
  · rintro ⟨t, c, hget, hrest⟩
    exact ⟨t, .ok c, hget, hrest⟩

/-- A channel is counted in, and what follows the `yield` of `channel`
raises the exception again. -/
theorem inChannel_reaches {c : Nat} {cls : String} {p : Point (GRPCCoroutine ν) Nat ε Unit}
    (h : Reaches (inChannel c cls) s s' p) :
    ∃ next : Option (Exc ε) → Gen (GRPCCoroutine ν) Nat ε Unit,
      (∀ e, next (some e) = .finish (.error e)) ∧
      Reaches ((stubBody c cls).andThen (leaveWith next))
        { s with objects := s.objects.modify c fun ch =>
            { ch with connections := ch.connections + 1 } } s' p :=
  ⟨_, fun _ => rfl, reaches_write_iff.mp (reaches_read_iff.mp h)⟩

/-- What the `yield` of a stub goes on with. -/
def afterStub (next : Option (Exc ε) → Gen (GRPCCoroutine ν) Nat ε Unit) :
    Option (Exc ε) → Gen (GRPCCoroutine ν) Nat ε Unit
  | none => leaveWith next (.ok ())
  | some e => leaveWith next (.error e)

/-- The handler yields the stub that it builds, and what comes of this
`yield` it does not handle. -/
theorem missingStub_reaches {next : Option (Exc ε) → Gen (GRPCCoroutine ν) Nat ε Unit}
    (hnext : ∀ e, next (some e) = .finish (.error e)) (c : Nat) (cls : String)
    (s s' : GRPCCoroutine ν) (p : Point (GRPCCoroutine ν) Nat ε Unit) :
    Reaches ((missingStub c cls).andThen (leaveWith next)) s s' p ↔
      match s.objects[c]?.bind fun ch => ch.inst with
      | some i => s' = { s with objects := s.objects.modify c fun ch => rebuildStub ch cls } ∧
          p = .yielded i (afterStub next)
      | none => s' = s ∧ p = .finished (.error .attributeError) := by
  refine reaches_read_iff.trans ?_
  dsimp only
  cases s.objects[c]?.bind fun ch => ch.inst with
  | none =>
    change Reaches (leaveWith next (.error .attributeError)) _ _ _ ↔ _
    rw [exit_propagated (hnext _)]
    exact reaches_finish_iff
  | some i =>
    refine reaches_write_iff.trans (reaches_yield_iff.trans ?_)
    have hafter : afterStub next = fun e => (match e with
        | none => finish (.ok ())
        | some e => finish (.error e)).andThen (leaveWith next) := by
      funext e
      cases e <;> rfl
    exact hafter ▸ Iff.rfl

/-- The handler is not the place for an exception of the body: it yields
again, or there is no instance to build a stub on. -/
theorem not_transparent_of_missingStub {c : Nat} {cls : String}
    {next k : Option (Exc ε) → Gen (GRPCCoroutine ν) Nat ε Unit}
    (hnext : ∀ e, next (some e) = .finish (.error e)) {e : Exc ε} (hkey : e.isKeyError = true)
    (hk : k (some e) = (missingStub c cls).andThen (leaveWith next)) : ¬ Transparent k e s := by
  intro h
  have hreaches := fun s' p => hk ▸ missingStub_reaches hnext c cls s s' p
  cases hinst : s.objects[c]?.bind fun ch => ch.inst with
  | some i =>
    simp only [hinst] at hreaches
    exact h.once _ i _ ((hreaches _ _).mpr ⟨rfl, rfl⟩)
  | none =>
    simp only [hinst] at hreaches
    have hout : outcome (some e) (.error .attributeError) = .error .attributeError := by
      cases e with
      | object _ cls => cases cls <;> simp_all [outcome, Exc.leave, Exc.isStop, Exc.isKeyError]
      | keyError => rfl
      | _ => cases hkey
    have hleft : Reaches (leaveWith k (.error e) : Coro ν ε Unit) s s
        (.finished (.error .attributeError)) := by
      refine exit_reaches ((hreaches _ _).mpr ⟨rfl, rfl⟩) ?_
      rw [hout]
      exact .finish
    cases h.same s _ hleft
    cases hkey

theorem stubOf_connect (s : GRPCCoroutine ν) (c : Nat) (cls : String) (n : Int) :
    stubOf { s with objects := s.objects.modify c fun ch =>
      { ch with connections := ch.connections + n } } c cls = s.stubOf c cls := by
  unfold stubOf
  rw [List.getElem?_modify]
  cases s.objects[c]? <;> simp

/-- What comes of an exception at the `yield` of the stub. -/
theorem inChannel_yielded {c : Nat} {cls : String} {v : Nat}
    {k : Option (Exc ε) → Gen (GRPCCoroutine ν) Nat ε Unit}
    (h : Reaches (inChannel c cls) s s' (.yielded v k)) (e : Exc ε) :
    (s.stubOf c cls ≠ none ∧ e.isKeyError = true) ∧
      (∃ next : Option (Exc ε) → Gen (GRPCCoroutine ν) Nat ε Unit,
        (∀ e, next (some e) = .finish (.error e)) ∧
        k (some e) = (missingStub c cls).andThen (leaveWith next)) ∨
    ¬ (s.stubOf c cls ≠ none ∧ e.isKeyError = true) ∧ k (some e) = .finish (.error e) := by
  obtain ⟨next, hnext, hbody⟩ := inChannel_reaches h
  have hread := reaches_read_iff.mp hbody
  dsimp only at hread
  rw [stubOf_connect] at hread
  cases hstub : s.stubOf c cls with
  | none =>
    -- the stub is built in the handler, whose `yield` is not in the `try`
    rw [hstub] at hread
    change Reaches ((missingStub c cls).andThen (leaveWith next)) _ _ _ at hread
    rw [missingStub_reaches hnext] at hread
    split at hread
    next i _ =>
      cases hread.2
      exact .inr ⟨fun h => absurd rfl h.1, exit_propagated (hnext e)⟩
    next => cases hread.2
  | some j =>
    rw [hstub] at hread
    obtain ⟨-, hpoint⟩ := reaches_yield_iff.mp hread
    cases hpoint
    cases hkey : e.isKeyError with
    | true =>
      refine .inl ⟨⟨Option.some_ne_none v, rfl⟩, next, hnext, ?_⟩
      change (if e.isKeyError then missingStub c cls else throw e).andThen (leaveWith next) = _
      rw [hkey]
      rfl
    | false =>
      refine .inr ⟨fun h => absurd h.2 Bool.false_ne_true, ?_⟩
      change (if e.isKeyError then missingStub c cls else throw e).andThen (leaveWith next) = _
      rw [hkey]
      exact exit_propagated (hnext e)

/-- The context of `stub` is transparent to all exceptions but one: where
the class had a stub, a `KeyError` of the body is not let through. -/
theorem transparent_iff [DecidableEq ν] {r : Request ν} {cls : String} {v : Nat}
    {k : Option (Exc ε) → Gen (GRPCCoroutine ν) Nat ε Unit}
    (h : Reaches (stubContext r cls) s s' (.yielded v k)) :
    ∃ t c, Reaches (getChannel r : Coro ν ε Nat) s t (.finished (.ok c)) ∧
      Reaches (inChannel c cls) t s' (.yielded v k) ∧
      ∀ e u, Transparent k e u ↔ ¬ (t.stubOf c cls ≠ none ∧ e.isKeyError = true) := by
  obtain ⟨t, c, hget, hin⟩ := stubContext_reaches.mp h
  refine ⟨t, c, hget, hin, fun e u => ?_⟩
  rcases inChannel_yielded hin e with ⟨hhandled, next, hnext, hk⟩ | ⟨hother, hk⟩
  · exact iff_of_false (not_transparent_of_missingStub hnext hhandled.2 hk) fun h => h hhandled
  · exact iff_of_true (transparent_of_propagated hk u) hother

/-! ## The contexts of the pool -/

theorem modify_eq_set {α : Type} {l : List α} {c : Nat} {a : α} (h : l[c]? = some a) (f : α → α) :
    l.modify c f = l.set c (f a) := by
  rw [List.modify_eq_set_getElem?, h]
  rfl

theorem missingStub_yields {next : Option (Exc ε) → Gen (GRPCCoroutine ν) Nat ε Unit}
    (hnext : ∀ e, next (some e) = .finish (.error e)) {c i : Nat} (cls : String)
    (hi : (s.objects[c]?.bind fun ch => ch.inst) = some i) :
    ∃ k, Reaches ((missingStub c cls).andThen (leaveWith next)) s
      { s with objects := s.objects.modify c fun ch => rebuildStub ch cls } (.yielded i k) := by
  refine ⟨afterStub next, (missingStub_reaches hnext c cls s _ _).mpr ?_⟩
  rw [hi]
  exact ⟨rfl, rfl⟩

/-- In a channel with an instance, `stub` yields what is yielded in the pool. -/
theorem inChannel_yieldStub {c i : Nat} {ch : Channel ν} (cls : String)
    (hch : s.objects[c]? = some ch) (hi : ch.inst = some i) :
    ∃ v, (yieldStub { ch with connections := ch.connections + 1 } i (some cls)).2 = some v ∧ ∃ k,
      Reaches (inChannel c cls : Gen (GRPCCoroutine ν) Nat ε Unit) s
        { s with
          objects := s.objects.set c
            (yieldStub { ch with connections := ch.connections + 1 } i (some cls)).1 }
        (.yielded v k) := by
  have hmodify := modify_eq_set hch fun ch => { ch with connections := ch.connections + 1 }
  obtain ⟨t, ht⟩ : ∃ t, t = { s with objects := s.objects.modify c fun ch =>
    { ch with connections := ch.connections + 1 } } := ⟨_, rfl⟩
  have htc : t.objects[c]? = some { ch with connections := ch.connections + 1 } := by
    rw [ht, List.getElem?_modify_eq, hch]
    rfl
  have hstub : t.stubOf c cls = ch.stubs.get? cls := by
    rw [stubOf, htc]
    rfl
  unfold yieldStub
  dsimp only
  cases hget : ch.stubs.get? cls with
  | some j =>
    refine ⟨j, rfl, Exists.imp (fun k h => .read (.write (.read h))) ?_⟩
    dsimp only
    rw [← ht, hstub, hget]
    refine ⟨_, reaches_yield_iff.mpr ⟨?_, rfl⟩⟩
    rw [ht, hmodify]
  | none =>
    refine ⟨i, rfl, Exists.imp (fun k h => .read (.write (.read h))) ?_⟩
    dsimp only
    rw [← ht, hstub, hget]
    have hinst : (t.objects[c]?.bind fun ch => ch.inst) = some i := by
      rw [htc]
      exact hi
    have hstate : { s with
          objects := s.objects.set c
            { ch with connections := ch.connections + 1, stubs := ch.stubs.set cls i } } =
        { t with objects := t.objects.modify c fun ch => rebuildStub ch cls } := by
      rw [modify_eq_set htc, ht, hmodify, List.set_set]
      simp only [rebuildStub, hi]
    rw [hstate]
    exact missingStub_yields (fun _ => rfl) cls hinst

omit [DecidableEq ε] in
/-- The channel has an instance then. -/
theorem ensure_reaches [DecidableEq ν] {c : Nat} {ch : Channel ν} (hch : s.objects[c]? = some ch) :
    ∃ t, Reaches (ensure c : Coro ν ε Nat) s t (.finished (.ok c)) ∧
      t = { (s.ensureInstance c ch).1 with
        objects := (s.ensureInstance c ch).1.objects.set c (s.ensureInstance c ch).2.1 } ∧
      t.objects[c]? = some (s.ensureInstance c ch).2.1 ∧
      (s.ensureInstance c ch).2.1.inst = some (s.ensureInstance c ch).2.2 ∧
      (s.ensureInstance c ch).2.1.stubs = ch.stubs := by
  have hlt := (List.getElem?_eq_some_iff.mp hch).1
  refine ⟨_, .read ?_, rfl, ?_, ?_⟩
  · rw [hch]
    exact .write .finish
  · unfold ensureInstance
    cases ch.inst <;> exact List.getElem?_set_self hlt
  · unfold ensureInstance
    cases h : ch.inst with
    | some i => exact ⟨h, rfl⟩
    | none => exact ⟨rfl, rfl⟩

/-- A context of the pool comes to its body where the code yields: with the
same stub and in the same state. It is cached if the class was there. -/
theorem acquire_reaches [DecidableEq ν] {c : Nat} {ch : Channel ν} (cls : String)
    (hch : s.objects[c]? = some ch) :
    ∃ t v, Reaches (ensure c : Coro ν ε Nat) s t (.finished (.ok c)) ∧
      (∃ k, Reaches (inChannel c cls : Gen (GRPCCoroutine ν) Nat ε Unit) t
        (s.acquire c ch (some cls)).1 (.yielded v k)) ∧
      (s.acquire c ch (some cls)).2.stub = some v ∧
      ((s.acquire c ch (some cls)).2.cached = true ↔ t.stubOf c cls ≠ none) := by
  obtain ⟨t, hensure, rfl, htc, hinst, hstubs⟩ := ensure_reaches (ε := ε) hch
  obtain ⟨v, hv, hyields⟩ := inChannel_yieldStub (ε := ε) cls htc hinst
  refine ⟨_, v, hensure, ?_, hv, ?_⟩
  · rw [List.set_set] at hyields
    exact hyields
  · rw [stubOf, htc]
    change (ch.stubs.get? cls).isSome = true ↔ (s.ensureInstance c ch).2.1.stubs.get? cls ≠ none
    rw [hstubs, Option.isSome_iff_ne_none]

/-! ## A stub that is used twice -/

/-- A `stub` on an `aio` of its own. -/
def agentStub : Gen (GRPCCoroutine Nat) Nat Unit Unit :=
  stubContext ⟨none, 5115, false, none, some "Agent"⟩ "Agent"

/-- An exception that is no `KeyError` leaves the first use as it is. -/
theorem transparent_iff_first :
    ∃ v k, (agentStub.run init).2 = .yielded v k ∧ ∀ u, Transparent k (.object () .other) u := by
  refine ⟨0, _, rfl, fun u => ?_⟩
  obtain ⟨t, c, -, -, hiff⟩ := transparent_iff (reaches_run agentStub init)
  exact (hiff _ u).mpr fun h => Bool.false_ne_true h.2

/-- In the second use the stub is there, and a `KeyError` of the body ends
as a `RuntimeError`. -/
theorem keyError_yields_again :
    let s := (agentStub.run init).1
    (∃ k, (agentStub.run s).2 = .yielded 0 k ∧
      ((leaveWith k (.error (.object () .keyError)) : Coro Nat Unit Unit).run
        (agentStub.run s).1).2 = .finished (.error .didNotStop)) ∧
    ¬ ∀ (s s' : GRPCCoroutine Nat) v k, Reaches agentStub s s' (.yielded v k) →
      ∀ e u, Transparent k e u := by
  refine ⟨⟨_, rfl, rfl⟩, fun h => ?_⟩
  have hreaches := reaches_run agentStub (agentStub.run init).1
  have htransparent := h _ _ _ _ hreaches (.object () .keyError) (agentStub.run init).1
  cases htransparent.same _ _ (reaches_run _ _)

end Iams.Aio.GRPCCoroutine
