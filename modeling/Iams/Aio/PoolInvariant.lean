/-
Iams.Aio.PoolInvariant — what holds of the channels in every run.

Every instance belongs to the object it was made for: the instance of a
channel, those its stubs were built on, and those the bodies of its
contexts work with (`Base`). So what one channel closes is closed for the
contexts of this channel only. `connections` is never less than the number
of contexts inside.

§1 the invariant, §2 entering, §3 contexts that go on, §4 every run.

No `sorry`, no `axiom`, no `native_decide`.
-/
import Iams.Aio.PoolSteps

namespace Iams.Aio.GRPCCoroutine

open Iams.Lib Pool

variable {ν : Type} {s s' : GRPCCoroutine ν}

/-! ## §1 The invariant -/

/-- What a body works with belongs to the channel of its context. -/
def BodyOwned (s : GRPCCoroutine ν) (x : Context) : Prop :=
  ∀ body, x.phase = .inside body →
    s.OwnedBy x.channel body.current ∧ ∀ j, body.stub = some j → s.OwnedBy x.channel j

structure Base (s : GRPCCoroutine ν) : Prop where
  pool : ∀ key c, s.channels.get? key = some c → ∃ ch, s.objects[c]? = some ch ∧ ch.key = key
  inst : ∀ (c : Nat) ch, s.objects[c]? = some ch → ∀ i, ch.inst = some i → s.OwnedBy c i
  stubs : ∀ (c : Nat) ch, s.objects[c]? = some ch → ∀ cls j, ch.stubs.get? cls = some j →
    s.OwnedBy c j
  contexts : ∀ x ∈ s.contexts, ∃ ch, s.objects[x.channel]? = some ch ∧ ch.key = x.key
  bodies : ∀ x ∈ s.contexts, s.BodyOwned x
  count : ∀ (c : Nat) ch, s.objects[c]? = some ch → (s.inside c : Int) ≤ ch.connections

/-- A change of one object, and of what may change with it: instances are
made and closed, keys are removed, and a context of the object goes on or
is added. -/
theorem Base.update (h : Base s) {c : Nat} {ch ch' : Channel ν} (hch : s.objects[c]? = some ch)
    (hobjects : s'.objects = s.objects.set c ch') (hkey : ch'.key = ch.key)
    (howned : ∀ d i, s.OwnedBy d i → s'.OwnedBy d i)
    (hinst : ∀ i, ch'.inst = some i → s'.OwnedBy c i)
    (hstubs : ∀ cls j, ch'.stubs.get? cls = some j → s'.OwnedBy c j)
    (hpool : ∀ key d, s'.channels.get? key = some d → s.channels.get? key = some d)
    (hcontexts : ∀ x ∈ s'.contexts, x ∈ s.contexts ∨
      x.channel = c ∧ x.key = ch.key ∧ s'.BodyOwned x)
    (hcount : (s'.inside c : Int) ≤ ch'.connections)
    (hother : ∀ d ≠ c, s'.inside d = s.inside d) : Base s' := by
  have hc : c < s.objects.length := (List.getElem?_eq_some_iff.mp hch).1
  have hset : s'.objects[c]? = some ch' := by rw [hobjects, List.getElem?_set_self hc]
  have hkeep {d : Nat} {ch₁ : Channel ν} (hd : s.objects[d]? = some ch₁) :
      ∃ ch₂, s'.objects[d]? = some ch₂ ∧ ch₂.key = ch₁.key := by
    by_cases hdc : d = c
    · subst hdc
      cases hch.symm.trans hd
      exact ⟨ch', hset, hkey⟩
    · exact ⟨ch₁, by rw [hobjects, List.getElem?_set_ne (Ne.symm hdc)]; exact hd, rfl⟩
  refine ⟨fun key d hd => ?_, fun d ch₁ hd => ?_, fun d ch₁ hd => ?_, fun x hx => ?_,
    fun x hx => ?_, fun d ch₁ hd => ?_⟩
  · obtain ⟨ch₁, hch₁, hkey₁⟩ := h.pool key d (hpool key d hd)
    obtain ⟨ch₂, hch₂, hkey₂⟩ := hkeep hch₁
    exact ⟨ch₂, hch₂, hkey₂.trans hkey₁⟩
  · rw [hobjects] at hd
    rcases getElem?_set_cases hd with ⟨rfl, rfl⟩ | ⟨-, hd⟩
    · exact hinst
    · exact fun i hi => howned d i (h.inst d ch₁ hd i hi)
  · rw [hobjects] at hd
    rcases getElem?_set_cases hd with ⟨rfl, rfl⟩ | ⟨-, hd⟩
    · exact hstubs
    · exact fun cls j hj => howned d j (h.stubs d ch₁ hd cls j hj)
  · rcases hcontexts x hx with hx | ⟨hxc, hxkey, -⟩
    · obtain ⟨ch₁, hch₁, hkey₁⟩ := h.contexts x hx
      obtain ⟨ch₂, hch₂, hkey₂⟩ := hkeep hch₁
      exact ⟨ch₂, hch₂, hkey₂.trans hkey₁⟩
    · exact ⟨ch', hxc ▸ hset, hkey.trans hxkey.symm⟩
  · rcases hcontexts x hx with hx | ⟨-, -, hbody⟩
    · intro body hbody
      obtain ⟨hcurrent, hstub⟩ := h.bodies x hx body hbody
      exact ⟨howned _ _ hcurrent, fun j hj => howned _ _ (hstub j hj)⟩
    · exact hbody
  · rw [hobjects] at hd
    rcases getElem?_set_cases hd with ⟨rfl, rfl⟩ | ⟨hdc, hd⟩
    · exact hcount
    · rw [hother d (Ne.symm hdc)]
      exact h.count d ch₁ hd

/-- A context that is nowhere in its body. -/
theorem Base.setPhase (h : Base s) {x : Nat} {ctx : Context} (hx : s.contexts[x]? = some ctx)
    {phase : Phase} (hphase : phase.isInside = false) : Base (s.setPhase x phase) := by
  refine ⟨h.pool, h.inst, h.stubs, fun y hy => ?_, fun y hy => ?_, fun c ch hch => ?_⟩
  · rcases mem_modify_cases hy with hy | ⟨ctx', hctx', rfl⟩
    · exact h.contexts y hy
    · exact h.contexts ctx' (List.mem_of_getElem? hctx')
  · rcases mem_modify_cases hy with hy | ⟨ctx', -, rfl⟩
    · exact h.bodies y hy
    · exact fun body hbody => absurd hbody (ne_inside hphase body)
  · have hinside := inside_setPhase_out hx phase hphase c
    have hcount := h.count c ch hch
    omega

/-! ## §2 Entering -/

section Acquired

variable {c : Nat} {ch ch' : Channel ν} {stub : Option String} {body : Body}

theorem Acquired.bodyOwned (h : Acquired s c ch stub s' body ch')
    (hinst : ∀ i, ch.inst = some i → s.OwnedBy c i)
    (hstubs : ∀ cls j, ch.stubs.get? cls = some j → s.OwnedBy c j) (key : String) :
    s'.BodyOwned ⟨key, c, stub, .inside body⟩ := by
  rintro _ ⟨⟩
  refine ⟨h.current hinst, fun j hj => ?_⟩
  rw [h.stub] at hj
  obtain ⟨cls, -, rfl⟩ := Option.map_eq_some_iff.mp hj
  cases hcls : ch.stubs.get? cls with
  | none => exact h.current hinst
  | some k => exact h.owned (hstubs cls k hcls)

theorem Base.acquired (h : Base s) {ch₀ : Channel ν} (hch : s.objects[c]? = some ch₀)
    (hacq : Acquired s c ch stub s' body ch') (hkey : ch.key = ch₀.key)
    (hstubs : ch.stubs = ch₀.stubs)
    (hconnections : ch.connections = ch₀.connections)
    (hinst : ∀ i, ch.inst = some i → s.OwnedBy c i) {s'' : GRPCCoroutine ν}
    (hstarts : Starts s' s'' ⟨ch₀.key, c, stub, .inside body⟩) : Base s'' := by
  have howned {d i : Nat} (hi : s'.OwnedBy d i) : s''.OwnedBy d i := by
    rw [OwnedBy, hstarts.instances]
    exact hi
  have hstubs₀ : ∀ cls j, ch.stubs.get? cls = some j → s.OwnedBy c j := by
    rw [hstubs]
    exact h.stubs c ch₀ hch
  refine h.update hch (hstarts.objects.trans hacq.objects) (hacq.key.trans hkey)
    (fun d i hi => howned (hacq.owned hi)) ?_ ?_ ?_ ?_ ?_ ?_
  · intro i hi
    rw [hacq.inst] at hi
    cases hi
    exact howned (hacq.current hinst)
  · intro cls j hj
    rcases hacq.stubs cls j hj with hold | rfl
    · exact howned (hacq.owned (hstubs₀ cls j hold))
    · exact howned (hacq.current hinst)
  · intro key d hd
    rwa [hstarts.channels, hacq.channels] at hd
  · intro x hx
    rcases hstarts.contexts x hx with hx | rfl
    · rw [hacq.contexts] at hx
      exact .inl hx
    · refine .inr ⟨rfl, rfl, fun b hb => ?_⟩
      obtain ⟨hcurrent, hstub⟩ := hacq.bodyOwned hinst hstubs₀ ch₀.key b hb
      exact ⟨howned hcurrent, fun j hj => howned (hstub j hj)⟩
  · have hcount := h.count c ch₀ hch
    rw [hstarts.inside, inside_congr hacq.contexts, hacq.connections, hconnections]
    simp only [decide_true, Bool.toNat_true]
    omega
  · intro d hd
    rw [hstarts.inside, inside_congr hacq.contexts]
    simp [Ne.symm hd]

end Acquired

/-- No context is in a channel that there is not. -/
theorem Base.inside_length (h : Base s) : s.inside s.objects.length = 0 := by
  refine List.countP_eq_zero.mpr fun x hx => ?_
  obtain ⟨ch, hch, -⟩ := h.contexts x hx
  have hlt := (List.getElem?_eq_some_iff.mp hch).1
  simp [Nat.ne_of_lt hlt]

theorem Base.insert (h : Base s) {key : String} (persistent : Bool) :
    Base (s.insert key persistent) := by
  have hkeep {d : Nat} {ch : Channel ν} (hd : s.objects[d]? = some ch) :
      (s.insert key persistent).objects[d]? = some ch := by
    rw [GRPCCoroutine.insert, List.getElem?_append_left (List.getElem?_eq_some_iff.mp hd).1]
    exact hd
  refine ⟨fun k d hd => ?_, fun d ch hd => ?_, fun d ch hd => ?_, fun x hx => ?_, h.bodies,
    fun d ch hd => ?_⟩
  · rw [GRPCCoroutine.insert, Dict.get?_set] at hd
    split at hd
    · next heq =>
      cases hd
      exact ⟨_, List.getElem?_concat_length, heq.symm⟩
    · obtain ⟨ch, hch, hkey⟩ := h.pool k d hd
      exact ⟨ch, hkeep hch, hkey⟩
  · rcases getElem?_concat_cases hd with hd | ⟨-, rfl⟩
    · exact h.inst d ch hd
    · exact fun _ hi => by cases hi
  · rcases getElem?_concat_cases hd with hd | ⟨-, rfl⟩
    · exact h.stubs d ch hd
    · exact fun _ _ hj => by cases hj
  · obtain ⟨ch, hch, hkey⟩ := h.contexts x hx
    exact ⟨ch, hkeep hch, hkey⟩
  · rcases getElem?_concat_cases hd with hd | ⟨rfl, rfl⟩
    · exact h.count d ch hd
    · have hzero : (s.insert key persistent).inside s.objects.length = 0 := h.inside_length
      rw [hzero]
      exact Int.le_refl 0

section Entering

variable [DecidableEq ν] {r : Request ν}

/-- A context is added in its body. -/
theorem Base.body {c : Nat} {ch ch' : Channel ν} {body : Body} (h : Base s)
    (hch : s.objects[c]? = some ch) (hkey : ch.key = s.keyOf r)
    (hacq : Acquired s c (configure ch r).1 r.stub s' body ch') :
    Base { s' with contexts := s'.contexts ++ [⟨s.keyOf r, c, r.stub, .inside body⟩] } := by
  obtain ⟨options, hconfigure⟩ := configure_fst ch r
  rw [hconfigure] at hacq
  rw [← hkey]
  exact h.acquired hch hacq rfl rfl rfl (h.inst c ch hch) (starts_concat rfl)

theorem Base.enter (h : Base s) (hready : Ready s) (r : Request ν) : Base (s.enter r) := by
  have hentered := entered h.pool hready r
  generalize s.enter r = s' at hentered ⊢
  cases hentered with
  | fresh hpool hacq =>
    exact (h.insert r.persistent).body List.getElem?_concat_length rfl hacq
  | kept hpool hch hsame hacq =>
    obtain ⟨ch₀, hch₀, hkey⟩ := h.pool _ _ hpool
    cases hch₀.symm.trans hch
    exact h.body hch hkey hacq
  | @recreated c ch i hpool hch hchanged hinst =>
    obtain ⟨ch₀, hch₀, hkey⟩ := h.pool _ _ hpool
    cases hch₀.symm.trans hch
    obtain ⟨options, hconfigure⟩ := configure_fst ch r
    rw [hconfigure]
    have howned (d j : Nat) (hj : s.OwnedBy d j) : (s.close i).OwnedBy d j := hj.modify rfl
    refine h.update hch rfl rfl howned (fun j hj => howned _ j (h.inst _ _ hch j hj))
      (fun cls j hj => howned _ j (h.stubs _ _ hch cls j hj)) (fun _ _ hd => hd)
      (fun x hx => ?_) ?_ fun d _ => ?_
    · rcases List.mem_append.mp hx with hx | hx
      · exact .inl hx
      · cases List.mem_singleton.mp hx
        exact .inr ⟨rfl, hkey.symm, fun body hbody => absurd hbody (ne_inside rfl body)⟩
    · rw [inside_concat_out (s := s) rfl rfl]
      exact h.count c ch hch
    · exact inside_concat_out rfl rfl d

end Entering

/-! ## §3 Contexts that go on -/

section Contexts

variable {x : Nat} {ctx : Context} {ch : Channel ν}

theorem Base.resume (h : Base s) (hx : s.contexts[x]? = some ctx)
    (hphase : ctx.phase = .acquiring) : Base (s.resume x) := by
  have hmem : ctx ∈ s.contexts := List.mem_of_getElem? hx
  obtain ⟨ch, hch, hkey⟩ := h.contexts ctx hmem
  obtain ⟨s', body, ch', hacq, heq⟩ := resumed hx hch
  have hout : ctx.phase.isInside = false := by rw [hphase]; rfl
  rw [heq]
  have hstarts := starts_setPhase (hacq.contexts ▸ hx) hout body
  rw [← hkey] at hstarts
  exact h.acquired hch hacq rfl rfl rfl (fun _ hi => by cases hi) hstarts

/-- One connection less. -/
theorem Base.disconnect (h : Base s) (hx : s.contexts[x]? = some ctx)
    (hinside : ctx.phase.isInside = true) (hch : s.objects[ctx.channel]? = some ch) (phase : Phase)
    (hphase : phase.isInside = false)
    (hobjects : s'.objects =
      s.objects.set ctx.channel { ch with connections := ch.connections - 1 })
    (hcontexts : s'.contexts = (s.setPhase x phase).contexts)
    (howned : ∀ d i, s.OwnedBy d i → s'.OwnedBy d i)
    (hpool : ∀ key d, s'.channels.get? key = some d → s.channels.get? key = some d) : Base s' := by
  have hsame (d : Nat) : s'.inside d = (s.setPhase x phase).inside d := inside_congr hcontexts d
  refine (h.setPhase hx hphase).update hch hobjects rfl howned
    (fun i hi => howned _ i (h.inst _ ch hch i hi))
    (fun cls j hj => howned _ j (h.stubs _ ch hch cls j hj)) hpool (fun y hy => .inl ?_) ?_
    fun d _ => hsame d
  · rwa [hcontexts] at hy
  · have hle := h.count _ ch hch
    have hself := inside_setPhase_out hx phase hphase ctx.channel
    rw [hinside] at hself
    rw [hsame]
    simp only [Bool.true_and, decide_true, Bool.toNat_true] at hself ⊢
    omega

/-- After the last connection nobody is inside. -/
theorem Base.inside_eq_zero (h : Base s) (hx : s.contexts[x]? = some ctx)
    (hinside : ctx.phase.isInside = true) (hch : s.objects[ctx.channel]? = some ch)
    (hlast : ch.connections - 1 ≤ 0) {phase : Phase} (hphase : phase.isInside = false) :
    (s.setPhase x phase).inside ctx.channel = 0 := by
  have hle := h.count _ ch hch
  have hself := inside_setPhase_out hx phase hphase ctx.channel
  rw [hinside] at hself
  simp only [Bool.true_and, decide_true, Bool.toNat_true] at hself
  omega

theorem Base.leave (h : Base s) (hready : Ready s) (hx : s.contexts[x]? = some ctx)
    (hinside : ctx.phase.isInside = true) : Base (s.leave x) := by
  obtain ⟨ch, hch, -⟩ := h.contexts ctx (List.mem_of_getElem? hx)
  have hleft := left hready hx hch
  generalize s.leave x = s' at hleft ⊢
  cases hleft with
  | stays =>
    exact h.disconnect hx hinside hch .left rfl rfl rfl (fun _ _ hi => hi) fun _ _ hd => hd
  | missing =>
    exact h.disconnect hx hinside hch .keyError rfl rfl rfl (fun _ _ hi => hi) fun _ _ hd => hd
  | closed hlast hpool hinst =>
    refine h.disconnect hx hinside hch .releasing rfl rfl rfl
      (fun _ _ hi => hi.modify rfl) fun key d hd => ?_
    rw [Dict.get?_erase] at hd
    split at hd
    · cases hd
    · exact hd

theorem Base.raise (h : Base s) (hx : s.contexts[x]? = some ctx) (keyError : Bool) :
    Base (s.raise x keyError) := by
  obtain ⟨ch, hch, -⟩ := h.contexts ctx (List.mem_of_getElem? hx)
  obtain ⟨stubs, hstubs, heq⟩ := raised keyError hx hch
  have hleft : Base (s.setPhase x .left) := h.setPhase hx rfl
  rw [heq]
  refine hleft.update hch rfl rfl (fun _ _ hi => hi) (h.inst _ ch hch) (fun cls j hj => ?_)
    (fun _ _ hd => hd) (fun y hy => .inl hy) (hleft.count _ ch hch) fun _ _ => rfl
  rcases hstubs cls j hj with hj | hj
  · exact h.stubs _ ch hch cls j hj
  · exact h.inst _ ch hch j hj

end Contexts

/-! ## §4 Every run -/

theorem Ready.set {c : Nat} {ch' : Channel ν} (hobjects : s'.objects = s.objects.set c ch')
    (h : ∀ d ch, c ≠ d → s.objects[d]? = some ch → ch.inst ≠ none) (hinst : ch'.inst ≠ none) :
    Ready s' := by
  intro d ch hd
  rw [hobjects] at hd
  rcases getElem?_set_cases hd with ⟨-, rfl⟩ | ⟨hne, hd⟩
  · exact hinst
  · exact h d ch hne hd

/-- What holds between steps. -/
structure Sound (s : GRPCCoroutine ν) : Prop extends Base s where
  ready : Ready s

theorem Sound.init : Sound (init : GRPCCoroutine ν) where
  pool _ _ h := by cases h
  inst _ _ h := by cases h
  stubs _ _ h := by cases h
  contexts _ h := by cases h
  bodies _ h := by cases h
  count _ _ h := by cases h
  ready _ _ h := by cases h

theorem Sound.resume (h : Sound s) {x : Nat} (henabled : Enabled s (.resume x)) :
    Sound (s.resume x) := by
  obtain ⟨ctx, hx, hphase⟩ := henabled
  refine ⟨h.toBase.resume hx hphase, ?_⟩
  obtain ⟨ch, hch, -⟩ := h.contexts ctx (List.mem_of_getElem? hx)
  obtain ⟨s', body, ch', hacq, heq⟩ := resumed hx hch
  rw [heq]
  exact .set hacq.objects (fun d ch _ hd => h.ready d ch hd) hacq.inst_ne_none

theorem Sound.leave (h : Sound s) {x : Nat} (henabled : Enabled s (.leave x)) :
    Sound (s.leave x) := by
  obtain ⟨ctx, hx, hbody⟩ := henabled
  obtain ⟨ch, hch, -⟩ := h.contexts ctx (List.mem_of_getElem? hx)
  refine ⟨h.toBase.leave h.ready hx (isInside_of_phase hbody), ?_⟩
  have hleft := left h.ready hx hch
  generalize s.leave x = s' at hleft ⊢
  cases hleft <;> exact .set rfl (fun d ch _ hd => h.ready d ch hd) (h.ready _ ch hch)

theorem Sound.raise (h : Sound s) {x : Nat} {keyError : Bool}
    (henabled : Enabled s (.raise x keyError)) : Sound (s.raise x keyError) := by
  obtain ⟨ctx, hx, -⟩ := henabled
  obtain ⟨ch, hch, -⟩ := h.contexts ctx (List.mem_of_getElem? hx)
  refine ⟨h.toBase.raise hx keyError, ?_⟩
  obtain ⟨stubs, -, heq⟩ := raised keyError hx hch
  rw [heq]
  exact .set rfl (fun d ch _ hd => h.ready d ch hd) (h.ready _ ch hch)

variable [DecidableEq ν]

theorem Sound.enter (h : Sound s) (r : Request ν) : Sound (s.enter r) := by
  refine ⟨h.toBase.enter h.ready r, ?_⟩
  have hentered := entered h.pool h.ready r
  generalize s.enter r = s' at hentered ⊢
  cases hentered with
  | fresh hpool hacq =>
    refine .set hacq.objects (fun d ch hne hd => ?_) hacq.inst_ne_none
    rcases getElem?_concat_cases hd with hd | ⟨rfl, -⟩
    · exact h.ready d ch hd
    · exact absurd rfl hne
  | kept hpool hch hsame hacq =>
    exact .set hacq.objects (fun d ch _ hd => h.ready d ch hd) hacq.inst_ne_none
  | @recreated c ch i hpool hch hchanged hinst =>
    obtain ⟨options, hconfigure⟩ := configure_fst ch r
    rw [hconfigure]
    exact .set rfl (fun d ch _ hd => h.ready d ch hd) (h.ready c ch hch)

theorem Sound.step (h : Sound s) {a : Action ν} (henabled : Enabled s a) : Sound (s.step a) := by
  cases a with
  | enter r => exact h.enter r
  | resume x => exact h.resume henabled
  | leave x => exact h.leave henabled
  | raise x keyError => exact h.raise henabled
  | abort x | released x =>
    obtain ⟨ctx, hx, -⟩ := henabled
    exact ⟨h.toBase.setPhase hx rfl, h.ready⟩

theorem sound_of_reached (h : Reached s) : Sound s :=
  Reachable.invariant Sound .init (fun _ _ hs henabled => hs.step henabled) h

end Iams.Aio.GRPCCoroutine
