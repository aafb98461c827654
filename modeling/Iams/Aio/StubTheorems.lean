/-
Iams.Aio.StubTheorems — when the stubs of `GRPCCoroutine` are live.

A changed option replaces the instance of a channel. The instance is closed
whoever works with it, and what was cached in `stubs` stays there. `Safe`
says when this does no harm, and `live_iff` that nothing else does: the
instance that is closed in the end is one that nobody works with.

§1 the property, §2 its steps, §3 the result.

No `sorry`, no `axiom`, no `native_decide`.
-/
import Iams.Aio.PoolInvariant

namespace Iams.Aio.GRPCCoroutine

open Iams.Lib Pool

variable {ν : Type} {s s' : GRPCCoroutine ν}

/-! ## §1 The property -/

/-- The stub was built on the instance that the channel had at the start of
the body, and this instance was open then and is not closed. -/
def LiveStub (s : GRPCCoroutine ν) (x : Context) : Prop :=
  ∀ body, x.phase = .inside body → x.stub ≠ none →
    body.stub = some body.current ∧ body.wasOpen = true ∧ s.isOpen body.current = true

def Live (s : GRPCCoroutine ν) : Prop := ∀ x ∈ s.contexts, s.LiveStub x

/-- Where an instance is closed to be replaced, no `stub` works with it;
where none is closed, a `stub` finds it open, and its class either not
cached or cached since this instance was made; and where the new one is
made, the class of a `stub` is not cached. -/
def Safe (s : GRPCCoroutine ν) : Action ν → Prop
  | .enter r => ∀ (c : Nat) ch, s.channels.get? (s.keyOf r) = some c → s.objects[c]? = some ch →
    (¬ Unchanged ch r → ∀ x ∈ s.contexts, ∀ body, x.phase = .inside body → x.stub ≠ none →
      ch.inst ≠ some body.current) ∧
    (Unchanged ch r → ∀ cls, r.stub = some cls →
      s.HasOpen ch ∧ ∀ j, ch.stubs.get? cls = some j → ch.inst = some j)
  | .resume x => ∀ ctx ch, s.contexts[x]? = some ctx → s.objects[ctx.channel]? = some ch →
    ∀ cls, ctx.stub = some cls → ch.stubs.get? cls = none
  | _ => True

/-! ## §2 The steps -/

theorem LiveStub.mono {x : Context} (h : s.LiveStub x)
    (hopen : ∀ i, s.isOpen i = true → s'.isOpen i = true) : s'.LiveStub x := by
  intro body hbody hstub
  obtain ⟨hbuilt, hwas, hnow⟩ := h body hbody hstub
  exact ⟨hbuilt, hwas, hopen _ hnow⟩

/-- A body that has just started. -/
theorem liveStub_iff {c : Nat} {ch ch' : Channel ν} {stub : Option String} {body : Body}
    (hacq : Acquired s c ch stub s' body ch') (key : String) :
    s'.LiveStub ⟨key, c, stub, .inside body⟩ ↔ ∀ cls, stub = some cls →
      s'.isOpen body.current = true ∧ ∀ j, ch.stubs.get? cls = some j → j = body.current := by
  have hcached (cls : String) : (ch.stubs.get? cls).getD body.current = body.current ↔
      ∀ j, ch.stubs.get? cls = some j → j = body.current := by
    cases ch.stubs.get? cls <;> simp
  constructor
  · rintro h cls rfl
    obtain ⟨hbuilt, -, hopen⟩ := h body rfl (Option.some_ne_none cls)
    rw [hacq.stub] at hbuilt
    exact ⟨hopen, (hcached cls).mp (Option.some.inj hbuilt)⟩
  · rintro h _ ⟨⟩ hstub
    obtain ⟨cls, hcls⟩ := Option.ne_none_iff_exists'.mp hstub
    obtain ⟨hopen, hfresh⟩ := h cls hcls
    refine ⟨?_, hacq.wasOpen.trans hopen, hopen⟩
    rw [hacq.stub, show stub = some cls from hcls]
    exact congrArg some ((hcached cls).mpr hfresh)

/-- A context more, in its body. -/
theorem live_body {c : Nat} {ch ch' : Channel ν} {stub : Option String} {body : Body}
    (h : Live s) (hacq : Acquired s c ch stub s' body ch') (key : String) :
    Live { s' with contexts := s'.contexts ++ [⟨key, c, stub, .inside body⟩] } ↔
      ∀ cls, stub = some cls →
        s'.isOpen body.current = true ∧ ∀ j, ch.stubs.get? cls = some j → j = body.current := by
  rw [← liveStub_iff hacq key]
  constructor
  · intro hlive
    exact hlive _ (List.mem_append_right _ List.mem_cons_self)
  · intro hnew x hx
    rcases List.mem_append.mp hx with hx | hx
    · rw [hacq.contexts] at hx
      exact (h x hx).mono fun _ hi => (hacq.isOpen (lt_of_isOpen hi)).trans hi
    · cases List.mem_singleton.mp hx
      exact hnew

/-- A context that goes on out of its body, while no instance is closed. -/
theorem Live.setPhase (h : Live s) {x : Nat} (phase : Phase) (hphase : phase.isInside = false)
    (hcontexts : s'.contexts = (s.setPhase x phase).contexts)
    (hopen : ∀ y ∈ s'.contexts, ∀ body, y.phase = .inside body → s.isOpen body.current = true →
      s'.isOpen body.current = true) : Live s' := by
  intro y hy body hbody hstub
  have hold : y ∈ s.contexts := by
    rw [hcontexts] at hy
    rcases mem_modify_cases hy with hy | ⟨ctx, -, rfl⟩
    · exact hy
    · exact absurd hbody (ne_inside hphase body)
  obtain ⟨hbuilt, hwas, hnow⟩ := h y hold body hbody hstub
  exact ⟨hbuilt, hwas, hopen y hy body hbody hnow⟩

theorem safe_enter {r : Request ν} {c : Nat} {ch : Channel ν}
    (hpool : s.channels.get? (s.keyOf r) = some c) (hch : s.objects[c]? = some ch) :
    Safe s (.enter r) ↔
      (¬ Unchanged ch r → ∀ x ∈ s.contexts, ∀ body, x.phase = .inside body → x.stub ≠ none →
        ch.inst ≠ some body.current) ∧
      (Unchanged ch r → ∀ cls, r.stub = some cls →
        s.HasOpen ch ∧ ∀ j, ch.stubs.get? cls = some j → ch.inst = some j) := by
  refine ⟨fun hsafe => hsafe c ch hpool hch, fun hsafe d ch₁ hd hch₁ => ?_⟩
  cases hpool.symm.trans hd
  cases hch.symm.trans hch₁
  exact hsafe

theorem live_enter [DecidableEq ν] (hsound : Sound s) (h : Live s) (r : Request ν) :
    Live (s.enter r) ↔ Safe s (.enter r) := by
  have hentered := entered hsound.pool hsound.ready r
  generalize s.enter r = s' at hentered ⊢
  cases hentered with
  | @fresh s' body ch' hpool hacq =>
    obtain ⟨options, hconfigure⟩ := configure_fst { key := s.keyOf r, persistent := r.persistent } r
    rw [hconfigure] at hacq
    have hinsert : Live (s.insert (s.keyOf r) r.persistent) := h
    refine iff_of_true ((live_body hinsert hacq _).mpr fun cls _ => ?_) fun c ch hsome => ?_
    · exact ⟨(hacq.isOpen_current rfl).2, fun _ hj => by cases hj⟩
    · rw [hpool] at hsome
      cases hsome
  | @kept c ch s' body ch' hpool hch hsame hacq =>
    obtain ⟨options, hconfigure⟩ := configure_fst ch r
    rw [hconfigure] at hacq
    obtain ⟨hkept, hinstances⟩ := hacq.kept (hsound.ready c ch hch)
    have hinst : ch.inst = some body.current := hkept
    have hunchanged := (configure_snd ch r).mp hsame
    rw [safe_enter hpool hch, live_body h hacq]
    constructor
    · refine fun hstub => ⟨fun hchanged => absurd hunchanged hchanged, fun _ cls hcls => ?_⟩
      obtain ⟨hopen, hfresh⟩ := hstub cls hcls
      rw [isOpen_congr hinstances] at hopen
      exact ⟨⟨_, hinst, hopen⟩, fun j hj => by rw [hinst, hfresh j hj]⟩
    · intro hsafe cls hcls
      obtain ⟨⟨i, hi, hopen⟩, hfresh⟩ := hsafe.2 hunchanged cls hcls
      cases hinst.symm.trans hi
      refine ⟨(hacq.isOpen (lt_of_isOpen hopen)).trans hopen, fun j hj => ?_⟩
      cases hinst.symm.trans (hfresh j hj)
      rfl
  | @recreated c ch i hpool hch hchanged hinst =>
    have hnot : ¬ Unchanged ch r := by
      rw [← configure_snd, hchanged]
      exact Bool.noConfusion
    rw [safe_enter hpool hch]
    constructor
    · refine fun hlive =>
        ⟨fun _ x hx body hbody hstub hcurrent => ?_, fun hsame => absurd hsame hnot⟩
      obtain ⟨-, -, hopen⟩ := hlive x (List.mem_append_left _ hx) body hbody hstub
      cases hinst.symm.trans hcurrent
      exact not_hasOpen_close hinst ⟨_, hinst, hopen⟩
    · intro hsafe x hx body hbody hstub
      rcases List.mem_append.mp hx with hmem | hnew
      · obtain ⟨hbuilt, hwas, hopen⟩ := h x hmem body hbody hstub
        refine ⟨hbuilt, hwas, (isOpen_close i _).mpr ⟨hopen, ?_⟩⟩
        rintro rfl
        exact hsafe.1 hnot x hmem body hbody hstub hinst
      · cases List.mem_singleton.mp hnew
        cases hbody

theorem live_resume (hsound : Sound s) (h : Live s) {x : Nat} (henabled : Enabled s (.resume x)) :
    Live (s.resume x) ↔ Safe s (.resume x) := by
  obtain ⟨ctx, hx, hphase⟩ := henabled
  have hmem : ctx ∈ s.contexts := List.mem_of_getElem? hx
  obtain ⟨ch, hch, hkey⟩ := hsound.contexts ctx hmem
  obtain ⟨s', body, ch', hacq, heq⟩ := resumed hx hch
  obtain ⟨hcurrent, hopen⟩ := hacq.isOpen_current rfl
  have hstub : s'.LiveStub ⟨ctx.key, ctx.channel, ctx.stub, .inside body⟩ ↔ Safe s (.resume x) := by
    refine (liveStub_iff hacq _).trans
      ⟨fun hstub ctx' ch₁ hx' hch₁ cls hcls => ?_, fun hsafe cls hcls => ?_⟩
    · cases hx.symm.trans hx'
      cases hch.symm.trans hch₁
      -- what is cached was built before the new instance
      refine Option.eq_none_iff_forall_ne_some.mpr fun j hj => ?_
      have hlt := (hsound.stubs _ ch hch cls j hj).lt
      rw [(hstub cls hcls).2 j hj, hcurrent] at hlt
      exact absurd hlt (Nat.lt_irrefl _)
    · refine ⟨hopen, fun j hj => ?_⟩
      rw [hsafe ctx ch hx hch cls hcls] at hj
      cases hj
  rw [heq, ← hstub]
  have hcontexts : (s'.setPhase x (.inside body)).contexts =
      s.contexts.modify x fun ctx => { ctx with phase := .inside body } := by
    rw [GRPCCoroutine.setPhase, hacq.contexts]
  constructor
  · intro hlive
    refine hlive _ ?_
    rw [hcontexts]
    refine List.mem_of_getElem? (i := x) ?_
    rw [List.getElem?_modify, hx]
    simp
  · intro hlive y hy
    rw [hcontexts] at hy
    rcases mem_modify_cases hy with hy | ⟨ctx', hctx', rfl⟩
    · exact (h y hy).mono fun _ hi => (hacq.isOpen (lt_of_isOpen hi)).trans hi
    · cases hx.symm.trans hctx'
      exact hlive

/-- The instance that is closed in the end is one that nobody works
with. -/
theorem Live.leave (hsound : Sound s) (h : Live s) {x : Nat} (henabled : Enabled s (.leave x)) :
    Live (s.leave x) := by
  obtain ⟨ctx, hx, hbody⟩ := henabled
  obtain ⟨ch, hch, -⟩ := hsound.contexts ctx (List.mem_of_getElem? hx)
  have hleft := left hsound.ready hx hch
  generalize s.leave x = s' at hleft ⊢
  cases hleft with
  | stays => exact h.setPhase (x := x) .left rfl rfl fun _ _ _ _ hi => hi
  | missing => exact h.setPhase (x := x) .keyError rfl rfl fun _ _ _ _ hi => hi
  | @closed c i hlast hpool hinst =>
    have hzero : (s.setPhase x .releasing).inside ctx.channel = 0 :=
      hsound.inside_eq_zero hx (isInside_of_phase hbody) hch hlast.2 rfl
    refine h.setPhase (x := x) .releasing rfl rfl fun y hy body hyBody hopen => ?_
    have hreleasing : Base (s.setPhase x .releasing) := hsound.setPhase hx rfl
    have howned : s.OwnedBy y.channel body.current := (hreleasing.bodies y hy body hyBody).1
    have hclosed : s.OwnedBy ctx.channel i := hsound.inst _ ch hch i hinst
    refine (isOpen_close_of_owned hclosed howned fun hchannel => ?_).mpr hopen
    have hyInside : y.phase.isInside = true := isInside_of_phase ⟨body, hyBody⟩
    exact List.countP_eq_zero.mp hzero y hy (by simp [hyInside, hchannel])

theorem live_step [DecidableEq ν] (hsound : Sound s) (h : Live s) {a : Action ν}
    (henabled : Enabled s a) : Live (s.step a) ↔ Safe s a := by
  cases a with
  | enter r => exact live_enter hsound h r
  | resume x => exact live_resume hsound h henabled
  | leave x => exact iff_of_true (h.leave hsound henabled) trivial
  | raise x keyError =>
    obtain ⟨ctx, hx, -⟩ := henabled
    obtain ⟨ch, hch, -⟩ := hsound.contexts ctx (List.mem_of_getElem? hx)
    obtain ⟨stubs, -, heq⟩ := raised keyError hx hch
    refine iff_of_true ?_ trivial
    rw [GRPCCoroutine.step, heq]
    exact h.setPhase (x := x) .left rfl rfl fun _ _ _ _ hi => hi
  | abort x | released x =>
    exact iff_of_true (h.setPhase (x := x) .left rfl rfl fun _ _ _ _ hi => hi) trivial

/-! ## §3 The result -/

/-- In every run of safe steps all stubs are live, and they are so after
one more step if and only if it is safe. -/
theorem live_iff [DecidableEq ν]
    (h : Reachable step (fun (s : GRPCCoroutine ν) a => Enabled s a ∧ Safe s a) init s) :
    Live s ∧ ∀ a, Enabled s a → (Live (s.step a) ↔ Safe s a) := by
  have hinv : Sound s ∧ Live s :=
    Reachable.invariant (fun s => Sound s ∧ Live s) ⟨.init, fun _ h => by cases h⟩
      (fun s a hs ha => ⟨hs.1.step ha.1, (live_step hs.1 hs.2 ha.1).mpr ha.2⟩) h
  exact ⟨hinv.2, fun a henabled => live_step hinv.1 hinv.2 henabled⟩

/-! ## §4 Two users of one channel -/

/-- A `stub` without options, and one with. -/
def plain : Request Nat := ⟨none, 5115, false, none, some "Agent"⟩

def tuned : Request Nat :=
  ⟨none, 5115, false, some (.set .empty "grpc.keepalive_time_ms" (some 1)), some "Agent"⟩

/-- Two that ask for the same share their stub. -/
theorem live_iff_shared : Live ((init.step (.enter plain)).step (.enter plain)) := by
  have hreached : Reachable step (fun (s : GRPCCoroutine Nat) a => Enabled s a ∧ Safe s a) init
      (init.step (.enter plain)) :=
    reachable_of_permitted .init [Action.enter plain] ⟨⟨trivial, fun _ _ h => by cases h⟩, trivial⟩
  refine ((live_iff hreached).2 (.enter plain) trivial).mpr ?_
  have hunchanged (ch : Channel Nat) : Unchanged ch plain := by
    refine ⟨fun h => ?_, fun _ h => ?_⟩ <;> cases h
  refine (safe_enter (c := 0) rfl rfl).mpr ⟨fun hchanged => absurd (hunchanged _) hchanged, ?_⟩
  rintro _ cls ⟨⟩
  refine ⟨⟨0, rfl, rfl⟩, fun j hj => ?_⟩
  cases (show some 0 = some j from hj)
  rfl

/-- Another option closes the instance that the first works with, and the
second is given the stub that was built on it. -/
theorem tuned_closes_plain :
    let s : GRPCCoroutine Nat := [.enter plain, .enter tuned, .resume 1].foldl step init
    s.contexts.map (fun x => x.phase) =
      [.inside ⟨some 0, 0, true, false⟩, .inside ⟨some 0, 1, true, true⟩] ∧
    s.isOpen 0 = false ∧ ¬ ∀ s : GRPCCoroutine Nat, Reached s → Live s := by
  refine ⟨rfl, rfl, fun h => ?_⟩
  have hreached : Reached (([.enter plain, .enter tuned] : List (Action Nat)).foldl step init) :=
    reachable_of_permitted .init _ ⟨trivial, trivial, trivial⟩
  obtain ⟨-, -, hopen⟩ := h _ hreached _ List.mem_cons_self ⟨some 0, 0, true, false⟩ rfl
    (Option.some_ne_none _)
  cases hopen

end Iams.Aio.GRPCCoroutine
