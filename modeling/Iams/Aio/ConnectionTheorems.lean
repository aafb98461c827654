/-
Iams.Aio.ConnectionTheorems — when the callbacks of a connection follow
the connection.

`connected` is reset in one place, the handler of `RpcError`. A stream
that has delivered a response must therefore end with an `RpcError`: after
any other end `connected` stays as it is, and the next stream is taken for
the old one. `follows_iff` says that nothing else goes wrong.

§1 the invariant, §2 its steps, §3 the result.

No `sorry`, no `axiom`, no `native_decide`.
-/
import Iams.Aio.Connection
import Iams.Lib.Trace

namespace Iams.Aio.GRPCConnectionCoroutine

open Iams.Lib Iams.Lib.Trace Connection

variable {ρ : Type} {s : GRPCConnectionCoroutine ρ}

/-! ## §1 The invariant -/

/-- The order of the callbacks. -/
structure Ordered (log : List Entry) : Prop where
  /-- `connect` has returned before the first response of a stream is
  processed. -/
  connect : Between (· = .opened) (· = .connectReturned) (· = .process) log
  /-- There is a `disconnect` between two calls of `connect`. -/
  disconnect : Between (· = .connect) (· = .disconnect) (· = .connect) log

/-- The callbacks follow the connection. -/
structure Follows (s : GRPCConnectionCoroutine ρ) : Prop where
  connected : s.connected = true → s.streamOpen ∧ s.delivered = true
  ordered : Ordered s.log

/-- The step does not end a stream that has delivered a response, or it
ends it with an `RpcError`. -/
def EndsWell (s : GRPCConnectionCoroutine ρ) : Action ρ → Prop
  | .call => True
  | .resume how => s.connected = true → match s.phase, how with
    | _, .rpcError => True
    | .streaming, .item _ => True
    | .connecting _, .returned => True
    | .processing, .returned => True
    | _, _ => False

/-- The states of the runs in which streams end well. -/
abbrev ReachedWell (default : Option ρ) (s : GRPCConnectionCoroutine ρ) : Prop :=
  Reachable step (fun s a => Enabled s a ∧ EndsWell s a) (init default) s

/-- No stream is open that `connect` has not returned for. -/
def Greeted (s : GRPCConnectionCoroutine ρ) : Prop :=
  ¬ Open (· = .opened) (· = .connectReturned) s.log

structure Inv (s : GRPCConnectionCoroutine ρ) : Prop extends Follows s where
  inside : (∃ r, s.phase = .connecting r) ∨ s.phase = .processing → s.connected = true
  greeted : s.connected = true → s.phase = .streaming ∨ s.phase = .processing → Greeted s
  paired : Open (· = .connect) (· = .disconnect) s.log → s.connected = true

/-! ## §2 The steps -/

theorem Ordered.concat {log : List Entry} (h : Ordered log) {e : Entry} (hprocess : e ≠ .process)
    (hconnect : e ≠ .connect) : Ordered (log ++ [e]) :=
  ⟨between_concat.mpr ⟨h.connect, fun hc => absurd hc hprocess⟩,
    between_concat.mpr ⟨h.disconnect, fun hc => absurd hc hconnect⟩⟩

theorem open_concat_of_ne {log : List Entry} {a b e : Entry} (hne : e ≠ a)
    (h : Open (· = a) (· = b) (log ++ [e])) : Open (· = a) (· = b) log := by
  rcases open_concat.mp h with ha | ⟨hopen, -⟩
  · exact absurd ha hne
  · exact hopen

theorem Inv.init (default : Option ρ) : Inv (init default) := by
  refine ⟨⟨nofun, between_nil, between_nil⟩, ?_, nofun, fun h => absurd h not_open_nil⟩
  rintro (⟨_, h⟩ | h) <;> cases h

/-- While it is not connected, the task may await anything but `connect`
and `process`. -/
theorem Inv.move (h : Inv s) (hconnected : s.connected = false) {phase : Phase ρ}
    (hconnecting : ∀ r, phase ≠ .connecting r) (hprocessing : phase ≠ .processing) :
    Inv { s with phase := phase } := by
  have hnot : ¬ s.connected = true := by rw [hconnected]; exact Bool.false_ne_true
  refine ⟨⟨fun hc => absurd hc hnot, h.ordered⟩, ?_, fun hc => absurd hc hnot, h.paired⟩
  rintro (⟨r, hr⟩ | hp)
  · exact absurd hr (hconnecting r)
  · exact absurd hp hprocessing

theorem Inv.openStream (h : Inv s) (hconnected : s.connected = false) : Inv s.openStream := by
  have hnot : ¬ s.connected = true := by rw [hconnected]; exact Bool.false_ne_true
  refine ⟨⟨fun hc => absurd hc hnot, h.ordered.concat nofun nofun⟩, ?_, fun hc => absurd hc hnot,
    fun hopen => h.paired (open_concat_of_ne (e := .opened) nofun hopen)⟩
  rintro (⟨r, hr⟩ | hp)
  · cases hr
  · cases hp

/-- `process` is called for a stream that `connect` has returned for. -/
theorem Inv.process {t : GRPCConnectionCoroutine ρ} (hconnected : t.connected = true)
    (hdelivered : t.delivered = true) (hordered : Ordered t.log) (hgreeted : Greeted t) :
    Inv t.process := by
  refine ⟨⟨fun _ => ⟨trivial, hdelivered⟩, ?_, ?_⟩, fun _ => hconnected, fun _ _ hopen => ?_,
    fun _ => hconnected⟩
  · exact between_concat.mpr ⟨hordered.connect, fun _ => hgreeted⟩
  · exact between_concat.mpr ⟨hordered.disconnect, nofun⟩
  · exact hgreeted (open_concat_of_ne (e := .process) nofun hopen)

theorem Inv.receive (h : Inv s) (hphase : s.phase = .streaming) (r : ρ) : Inv (s.receive r) := by
  unfold GRPCConnectionCoroutine.receive
  dsimp only
  split
  · next hconnected =>
    exact .process hconnected rfl h.ordered (h.greeted hconnected (.inl hphase))
  · next hconnected =>
    have hnot : ¬ Open (· = .connect) (· = .disconnect) s.log := fun ho => hconnected (h.paired ho)
    refine ⟨⟨fun _ => ⟨trivial, rfl⟩, ?_, ?_⟩, fun _ => rfl, ?_, fun _ => rfl⟩
    · exact between_concat.mpr ⟨h.ordered.connect, nofun⟩
    · exact between_concat.mpr ⟨h.ordered.disconnect, fun _ => hnot⟩
    · rintro - (hp | hp) <;> cases hp

/-- The handler of `RpcError`. -/
theorem Inv.rpcError (h : Inv s) : Inv s.rpcError := by
  unfold GRPCConnectionCoroutine.rpcError
  split
  · refine ⟨⟨nofun, h.ordered.concat nofun nofun⟩, ?_, nofun, fun hopen => ?_⟩
    · rintro (⟨r, hr⟩ | hp)
      · cases hr
      · cases hp
    · rcases open_concat.mp hopen with hc | ⟨-, hd⟩
      · cases hc
      · exact absurd rfl hd
  · next hconnected => exact h.move (by simpa using hconnected) nofun nofun

theorem Inv.raise (h : Inv s) {e : Outcome ρ} (he : s.connected = true → e = .rpcError) :
    Inv (s.raise e) := by
  cases e with
  | rpcError => exact h.rpcError
  | item | returned | cancelled | raised =>
    refine h.move ?_ nofun nofun
    by_contra hconnected
    cases he (by simpa using hconnected)

/-- `connect` has returned. -/
theorem Inv.connectReturned (h : Inv s) {r : ρ} (hphase : s.phase = .connecting r) :
    Inv (s.record .connectReturned).process := by
  have hconnected : s.connected = true := h.inside (.inl ⟨r, hphase⟩)
  refine .process hconnected (h.connected hconnected).2 (h.ordered.concat nofun nofun) ?_
  intro hopen
  rcases open_concat.mp hopen with ho | ⟨-, hr⟩
  · cases ho
  · exact hr rfl

theorem not_connected (h : Follows s) (hclosed : ¬ s.streamOpen) : s.connected = false := by
  by_contra hconnected
  exact hclosed (h.connected (by simpa using hconnected)).1

/-- Outside of a stream. -/
theorem Inv.resume_closed (h : Inv s) (hclosed : ¬ s.streamOpen) (how : Outcome ρ) :
    Inv (s.resume how) := by
  have hfalse : s.connected = false := not_connected h.toFollows hclosed
  have hraise (e : Outcome ρ) : Inv (s.raise e) :=
    h.raise fun hc => by rw [hfalse] at hc; cases hc
  unfold GRPCConnectionCoroutine.resume
  split
  · exact h
  all_goals first
    | exact h.move hfalse nofun nofun
    | exact h.openStream hfalse
    | exact hraise _
    | exact absurd trivial (by simp_all [streamOpen])

theorem Inv.resume (h : Inv s) {how : Outcome ρ} (hwell : EndsWell s (.resume how)) :
    Inv (s.resume how) := by
  unfold EndsWell at hwell
  dsimp only at hwell
  cases hphase : s.phase with
  | idle | created | entering | leaving | disconnecting | sleeping | cleaning =>
    exact h.resume_closed (by rw [streamOpen, hphase]; exact id) how
  | streaming =>
    unfold GRPCConnectionCoroutine.resume
    rw [hphase] at hwell ⊢
    cases how with
    | item r => exact h.receive hphase r
    | returned => exact h.move (by simpa using hwell) nofun nofun
    | rpcError => exact h.rpcError
    | cancelled | raised => exact h.raise fun hc => (hwell hc).elim
  | connecting r =>
    unfold GRPCConnectionCoroutine.resume
    rw [hphase] at hwell ⊢
    cases how with
    | returned => exact h.connectReturned hphase
    | rpcError => exact h.rpcError
    | item | cancelled | raised => exact h.raise fun hc => (hwell hc).elim
  | processing =>
    unfold GRPCConnectionCoroutine.resume
    rw [hphase] at hwell ⊢
    cases how with
    | returned =>
      have hconnected : s.connected = true := h.inside (.inr hphase)
      refine ⟨⟨fun _ => ⟨trivial, (h.connected hconnected).2⟩, h.ordered⟩, fun _ => hconnected,
        fun _ _ => h.greeted hconnected (.inr hphase), h.paired⟩
    | rpcError => exact h.rpcError
    | item | cancelled | raised => exact h.raise fun hc => (hwell hc).elim

theorem Inv.step (h : Inv s) {a : Action ρ} (hwell : EndsWell s a) : Inv (s.step a) := by
  cases a with
  | resume how => exact h.resume hwell
  | call =>
    cases hphase : s.phase with
    | idle =>
      simp only [GRPCConnectionCoroutine.step, hphase]
      exact h.move (not_connected h.toFollows (by rw [streamOpen, hphase]; exact id)) nofun nofun
    | _ =>
      simp only [GRPCConnectionCoroutine.step, hphase]
      exact h

/-- After any other end of a stream it is connected to nothing. -/
theorem not_follows_of_not_endsWell (h : Inv s) {a : Action ρ} (hbad : ¬ EndsWell s a) :
    ¬ Follows (s.step a) := by
  cases a with
  | call => exact absurd trivial hbad
  | resume how =>
    unfold EndsWell at hbad
    dsimp only at hbad
    push Not at hbad
    obtain ⟨hconnected, hbad⟩ := hbad
    have hopen := (h.connected hconnected).1
    suffices hafter : (s.resume how).connected = true ∧ ¬ (s.resume how).streamOpen from
      fun hfollows => hafter.2 (hfollows.connected hafter.1).1
    unfold streamOpen at hopen
    unfold GRPCConnectionCoroutine.resume
    cases hphase : s.phase with
    | streaming | connecting r | processing =>
      rw [hphase] at hbad
      cases how <;> first
        | exact absurd trivial hbad
        | exact ⟨hconnected, id⟩
    | idle | created | entering | leaving | disconnecting | sleeping | cleaning =>
      rw [hphase] at hopen
      exact hopen.elim

/-! ## §3 The result -/

/-- In every run in which each stream that has delivered a response ends
with an `RpcError`, the callbacks follow the connection; and they do so
after one more step if and only if it does not end such a stream
otherwise. -/
theorem follows_iff {default : Option ρ} (h : ReachedWell default s) :
    Follows s ∧ ∀ a, Enabled s a → (Follows (s.step a) ↔ EndsWell s a) := by
  have hinv : Inv s := Reachable.invariant Inv (.init default) (fun _ _ hs ha => hs.step ha.2) h
  refine ⟨hinv.toFollows, fun a _ => ⟨fun hfollows => ?_, fun hwell => (hinv.step hwell).toFollows⟩⟩
  by_contra hbad
  exact not_follows_of_not_endsWell hinv hbad hfollows

/-! ## §4 One connection -/

/-- A first response, up to the end of its callbacks. -/
def greeting : List (Action Nat) :=
  [.call, .resume .returned, .resume .returned, .resume (.item 7), .resume .returned,
    .resume .returned]

/-- The stream may break off. -/
theorem follows_iff_greeting :
    Follows ((greeting.foldl step (init none)).step (.resume .rpcError)) := by
  have hreached : ReachedWell none (greeting.foldl step (init none)) :=
    reachable_of_permitted .init greeting
      ⟨⟨trivial, trivial⟩, ⟨nofun, nofun⟩, ⟨nofun, nofun⟩, ⟨rfl, nofun⟩, ⟨nofun, fun _ => trivial⟩,
        ⟨nofun, fun _ => trivial⟩, trivial⟩
  exact ((follows_iff hreached).2 (.resume .rpcError) ⟨nofun, nofun⟩).mpr fun _ => trivial

/-- The stream is finished instead, and another one is opened: a response
is processed without `connect`. -/
theorem greeting_reopened :
    ((greeting ++ [.resume .returned, .resume .returned, .resume .returned,
        .resume (.item 8)] : List (Action Nat)).foldl step (init none)).log =
      [.opened, .connect, .connectReturned, .process, .opened, .process] ∧
    ¬ ∀ s : GRPCConnectionCoroutine Nat, Reachable step Enabled (init none) s → Follows s := by
  refine ⟨rfl, fun h => ?_⟩
  have hreached : Reachable step Enabled (init none)
      ((greeting ++ [Action.resume .returned]).foldl step (init none)) :=
    reachable_of_permitted .init _ ⟨trivial, nofun, nofun, rfl, nofun, nofun, nofun, trivial⟩
  exact ((h _ hreached).connected rfl).1

end Iams.Aio.GRPCConnectionCoroutine
