/-
Iams.Aio.PersistTheorems — when a persistent channel of `GRPCCoroutine`
stays open.

`_channel` means to make a channel persistent that a temporary request has
made, but the assignment is to another attribute: such a channel is closed
with its last context, and replaced by every persistent request before
that. What comes to a body late also counts late, and then removes the
channel of another from the pool.

§1 the property and its condition, §2 the pool, §3 counting, §4 steps that
keep the channel, §5 a channel that was not upgraded, §6 the result.

No `sorry`, no `axiom`, no `native_decide`.
-/
import Iams.Aio.PoolInvariant

namespace Iams.Aio.GRPCCoroutine

open Iams.Lib Pool

variable {ν : Type} {s s' : GRPCCoroutine ν}

/-! ## §1 The property and its condition -/

/-- A run, with whether a context of it has asked for a persistent
channel. -/
structure Observed (ν : Type) where
  state : GRPCCoroutine ν
  asked : Bool

/-- The context asks for a persistent channel. -/
def Action.asks : Action ν → Bool
  | .enter r => r.persistent
  | _ => false

/-- The channel of a key. -/
def Pooled (s : GRPCCoroutine ν) (key : String) (c : Nat) (ch : Channel ν) : Prop :=
  s.channels.get? key = some c ∧ s.objects[c]? = some ch

/-- The request has no options that the channel does not have. -/
def SameOptions (ch : Channel ν) (r : Request ν) : Prop :=
  ∀ options, r.options = some options →
    ∀ e ∈ options.items, (ch.options.get? e.1).getD none = e.2

section Runs

variable [DecidableEq ν]

def Observed.step (o : Observed ν) (a : Action ν) : Observed ν :=
  ⟨o.state.step a, o.asked || a.asks⟩

/-- All contexts are for one key, and leave normally. -/
def OneKey (key : String) (s : GRPCCoroutine ν) (a : Action ν) : Prop :=
  Enabled s a ∧ match a with
    | .enter r => s.keyOf r = key
    | .raise _ _ | .abort _ => False
    | _ => True

/-- Once a persistent channel was asked for: with every exit the channel is
in the pool and its instance is open, and a request without other options
is given the instance of the channel, and none is made. -/
def Persists (key : String) (o : Observed ν) (a : Action ν) : Prop :=
  o.asked = true → match a with
    | .leave _ | .released _ =>
      ∃ c ch, (o.state.step a).Pooled key c ch ∧ (o.state.step a).HasOpen ch
    | .enter r => ∀ c ch, o.state.Pooled key c ch → SameOptions ch r →
      (o.state.step a).instances = o.state.instances ∧ ∃ body, ch.inst = some body.current ∧
        (o.state.step a).contexts = o.state.contexts ++ [⟨key, c, r.stub, .inside body⟩]
    | _ => True

end Runs

/-- A persistent request does not find the channel of a temporary one. And
once there was one, no context leaves while the instance of the channel is
closed to be replaced, and none that is the last of a temporary channel
which is not in the pool any more. -/
def Kept (key : String) (o : Observed ν) : Action ν → Prop
  | .enter r => r.persistent = true → ∀ c ch, o.state.Pooled key c ch → ch.persistent = true
  | .leave x => o.asked = true →
    (∀ c ch, o.state.Pooled key c ch → o.state.HasOpen ch) ∧
    ∀ ctx ch, o.state.contexts[x]? = some ctx → o.state.objects[ctx.channel]? = some ch →
      ch.persistent = false → ch.connections ≤ 1 → o.state.channels.get? key = some ctx.channel
  | .released _ => o.asked = true → ∀ c ch, o.state.Pooled key c ch → o.state.HasOpen ch
  | _ => True

/-! ## §2 The pool -/

/-- The channel of the key, and whether it is persistent. -/
def PooledAs (s : GRPCCoroutine ν) (key : String) (c : Nat) (persistent : Bool) : Prop :=
  ∃ ch, s.Pooled key c ch ∧ ch.persistent = persistent

/-- A change of one object. -/
theorem Pooled.set {key : String} {c d : Nat} {ch₀ ch : Channel ν} (h : s.Pooled key c ch₀)
    (hch : s.objects[d]? = some ch) (ch' : Channel ν) {P : Channel ν → Prop} (hold : P ch₀)
    (hnew : ch₀ = ch → P ch') (hobjects : s'.objects = s.objects.set d ch')
    (hchannels : s'.channels = s.channels) : ∃ ch₁, s'.Pooled key c ch₁ ∧ P ch₁ := by
  by_cases hdc : d = c
  · subst hdc
    refine ⟨ch', ⟨hchannels ▸ h.1, ?_⟩, hnew (Option.some.inj (h.2.symm.trans hch))⟩
    rw [hobjects, List.getElem?_set_self (List.getElem?_eq_some_iff.mp hch).1]
  · refine ⟨ch₀, ⟨hchannels ▸ h.1, ?_⟩, hold⟩
    rw [hobjects, List.getElem?_set_ne hdc]
    exact h.2

theorem PooledAs.set {key : String} {c d : Nat} {persistent : Bool} {ch : Channel ν}
    (h : s.PooledAs key c persistent) (hch : s.objects[d]? = some ch) (ch' : Channel ν)
    (hpersistent : ch'.persistent = ch.persistent) (hobjects : s'.objects = s.objects.set d ch')
    (hchannels : s'.channels = s.channels) : s'.PooledAs key c persistent := by
  obtain ⟨ch₀, hpooled, hp⟩ := h
  exact hpooled.set hch ch' hp (fun heq => hpersistent.trans (heq ▸ hp)) hobjects hchannels

theorem PooledAs.eq {key : String} {c d : Nat} {persistent : Bool} {ch : Channel ν}
    (h : s.PooledAs key c persistent) (hpool : s.channels.get? key = some d)
    (hch : s.objects[d]? = some ch) : d = c ∧ ch.persistent = persistent := by
  obtain ⟨ch₀, ⟨hpool₀, hch₀⟩, hp⟩ := h
  cases hpool.symm.trans hpool₀
  cases hch.symm.trans hch₀
  exact ⟨rfl, hp⟩

/-- The contexts of a run for one key. -/
def Keyed (key : String) (s : GRPCCoroutine ν) : Prop := ∀ x ∈ s.contexts, x.key = key

theorem Keyed.setPhase {key : String} (h : Keyed key s) (x : Nat) (phase : Phase)
    (hcontexts : s'.contexts = (s.setPhase x phase).contexts) : Keyed key s' := by
  intro y hy
  rw [hcontexts] at hy
  rcases mem_modify_cases hy with hy | ⟨ctx, hctx, rfl⟩
  · exact h y hy
  · exact h ctx (List.mem_of_getElem? hctx)

theorem Keyed.concat {key : String} (h : Keyed key s) {x : Context} (hx : x.key = key)
    (hcontexts : s'.contexts = s.contexts ++ [x]) : Keyed key s' := by
  intro y hy
  rw [hcontexts] at hy
  rcases List.mem_append.mp hy with hy | hy
  · exact h y hy
  · cases List.mem_singleton.mp hy
    exact hx

/-! ## §3 Counting -/

/-- Without exceptions every connection is a context inside. -/
def Balanced (s : GRPCCoroutine ν) : Prop :=
  ∀ (c : Nat) ch, s.objects[c]? = some ch → ch.connections = s.inside c

theorem Balanced.update (h : Balanced s) (c : Nat) (ch' : Channel ν)
    (hobjects : ∀ d ch, s'.objects[d]? = some ch →
      c = d ∧ ch = ch' ∨ c ≠ d ∧ s.objects[d]? = some ch)
    (hself : ch'.connections = s'.inside c) (hother : ∀ d, c ≠ d → s'.inside d = s.inside d) :
    Balanced s' := by
  intro d ch hd
  rcases hobjects d ch hd with ⟨rfl, rfl⟩ | ⟨hne, hd⟩
  · exact hself
  · rw [hother d hne]
    exact h d ch hd

/-- A context comes to its body. -/
theorem Balanced.body (h : Balanced s) {s₀ s'' : GRPCCoroutine ν} {c : Nat} {ch ch' : Channel ν}
    {stub : Option String} {body : Body} {key : String}
    (hacq : Acquired s₀ c ch stub s' body ch')
    (hstarts : Starts s' s'' ⟨key, c, stub, .inside body⟩)
    (hcontexts : s₀.contexts = s.contexts)
    (hobjects : ∀ d ch, c ≠ d → s₀.objects[d]? = some ch → s.objects[d]? = some ch)
    (hconnections : ch.connections = s.inside c) : Balanced s'' := by
  have hinside (d : Nat) : s''.inside d = s.inside d + (decide (c = d)).toNat := by
    rw [hstarts.inside, inside_congr (hacq.contexts.trans hcontexts)]
  refine h.update c ch' (fun d ch₁ hd => ?_) ?_ fun d hne => ?_
  · rw [hstarts.objects, hacq.objects] at hd
    exact (getElem?_set_cases hd).imp_right fun hold => ⟨hold.1, hobjects d ch₁ hold.1 hold.2⟩
  · rw [hinside, decide_eq_true rfl, hacq.connections, hconnections]
    rfl
  · rw [hinside, decide_eq_false hne]
    rfl

/-- A body has ended by itself. -/
theorem Balanced.disconnect (h : Balanced s) {x : Nat} {ctx : Context} {ch : Channel ν}
    (hx : s.contexts[x]? = some ctx) (hinside : ctx.phase.isInside = true)
    (hch : s.objects[ctx.channel]? = some ch) (phase : Phase) (hphase : phase.isInside = false)
    (hobjects : s'.objects =
      s.objects.set ctx.channel { ch with connections := ch.connections - 1 })
    (hcontexts : s'.contexts = (s.setPhase x phase).contexts) : Balanced s' := by
  have hcount (d : Nat) : s'.inside d + (decide (ctx.channel = d)).toNat = s.inside d := by
    have hsame := inside_setPhase_out hx phase hphase d
    rw [hinside, Bool.true_and] at hsame
    rw [inside_congr hcontexts]
    exact hsame
  refine h.update ctx.channel _ (fun d ch₁ hd => getElem?_set_cases (hobjects ▸ hd)) ?_
    fun d hne => ?_
  · have hself := hcount ctx.channel
    rw [decide_eq_true rfl, Bool.toNat_true] at hself
    have hconnections := h _ ch hch
    dsimp only
    omega
  · have hsame := hcount d
    rwa [decide_eq_false hne] at hsame

/-- What holds between the steps of such a run. -/
structure Calm (key : String) (s : GRPCCoroutine ν) : Prop extends Sound s where
  keyed : Keyed key s
  balanced : Balanced s

theorem Calm.init {key : String} : Calm key (init : GRPCCoroutine ν) where
  toSound := .init
  keyed _ h := by cases h
  balanced _ _ h := by cases h

theorem Calm.resume {key : String} (h : Calm key s) {x : Nat} (henabled : Enabled s (.resume x)) :
    Calm key (s.resume x) := by
  have hsound := h.toSound.resume henabled
  obtain ⟨ctx, hx, hphase⟩ := henabled
  obtain ⟨ch, hch, -⟩ := h.contexts ctx (List.mem_of_getElem? hx)
  obtain ⟨s', body, ch', hacq, heq⟩ := resumed hx hch
  have hout : ctx.phase.isInside = false := by rw [hphase]; rfl
  rw [heq] at hsound ⊢
  refine ⟨hsound, h.keyed.setPhase x (.inside body) ?_, ?_⟩
  · rw [GRPCCoroutine.setPhase, hacq.contexts]
    rfl
  · exact h.balanced.body hacq (starts_setPhase (hacq.contexts ▸ hx) hout body) rfl
      (fun _ _ _ hd => hd) (h.balanced _ ch hch)

theorem Calm.leave {key : String} (h : Calm key s) {x : Nat} (henabled : Enabled s (.leave x)) :
    Calm key (s.leave x) := by
  have hsound := h.toSound.leave henabled
  obtain ⟨ctx, hx, hbody⟩ := henabled
  obtain ⟨ch, hch, -⟩ := h.contexts ctx (List.mem_of_getElem? hx)
  have hinside := isInside_of_phase hbody
  have hleft := left h.ready hx hch
  generalize s.leave x = s' at hsound hleft ⊢
  cases hleft with
  | stays =>
    exact ⟨hsound, h.keyed.setPhase x .left rfl,
      h.balanced.disconnect hx hinside hch .left rfl rfl rfl⟩
  | missing =>
    exact ⟨hsound, h.keyed.setPhase x .keyError rfl,
      h.balanced.disconnect hx hinside hch .keyError rfl rfl rfl⟩
  | closed =>
    exact ⟨hsound, h.keyed.setPhase x .releasing rfl,
      h.balanced.disconnect hx hinside hch .releasing rfl rfl rfl⟩

theorem Calm.released {key : String} (h : Calm key s) {x : Nat}
    (henabled : Enabled s (.released x)) : Calm key (s.setPhase x .left) := by
  obtain ⟨ctx, hx, hphase⟩ := henabled
  refine ⟨⟨h.toBase.setPhase hx rfl, h.ready⟩, h.keyed.setPhase x .left rfl,
    fun c ch hch => ?_⟩
  have hinside := inside_setPhase_out hx .left rfl c
  rw [hphase] at hinside
  exact (h.balanced c ch hch).trans (congrArg Nat.cast hinside.symm)

section Entering

variable [DecidableEq ν]

theorem Calm.enter {key : String} (h : Calm key s) {r : Request ν} (hkey : s.keyOf r = key) :
    Calm key (s.enter r) := by
  have hsound := h.toSound.enter r
  have hentered := entered h.pool h.ready r
  generalize s.enter r = s' at hsound hentered ⊢
  cases hentered with
  | fresh hpool hacq =>
    refine ⟨hsound, h.keyed.concat hkey (by rw [hacq.contexts]; rfl), ?_⟩
    refine h.balanced.body hacq (starts_concat rfl) rfl (fun d ch hne hd => ?_) ?_
    · rcases getElem?_concat_cases hd with hd | ⟨rfl, -⟩
      · exact hd
      · exact absurd rfl hne
    · obtain ⟨options, hconfigure⟩ :=
        configure_fst { key := s.keyOf r, persistent := r.persistent } r
      rw [hconfigure, h.inside_length]
      rfl
  | @kept c ch s' body ch' hpool hch hsame hacq =>
    refine ⟨hsound, h.keyed.concat hkey (by rw [hacq.contexts]), ?_⟩
    obtain ⟨options, hconfigure⟩ := configure_fst ch r
    rw [hconfigure] at hacq
    exact h.balanced.body hacq (starts_concat rfl) rfl (fun _ _ _ hd => hd) (h.balanced c ch hch)
  | @recreated c ch i hpool hch hchanged hinst =>
    refine ⟨hsound, h.keyed.concat hkey rfl, ?_⟩
    obtain ⟨options, hconfigure⟩ := configure_fst ch r
    rw [hconfigure]
    refine h.balanced.update c _ (fun d ch₁ hd => getElem?_set_cases hd) ?_ fun d _ => ?_
    · rw [inside_concat_out (s := s) rfl rfl]
      exact h.balanced c ch hch
    · exact inside_concat_out rfl rfl d

theorem Calm.step {key : String} (h : Calm key s) {a : Action ν} (hrun : OneKey key s a) :
    Calm key (s.step a) := by
  cases a with
  | enter r => exact h.enter hrun.2
  | resume x => exact h.resume hrun.1
  | leave x => exact h.leave hrun.1
  | released x => exact h.released hrun.1
  | raise x keyError | abort x => exact hrun.2.elim

end Entering

/-! ## §4 Steps that keep the channel -/

/-- The last context of a temporary channel leaves. -/
def Last (s : GRPCCoroutine ν) (x : Nat) : Prop :=
  ∃ ctx ch, s.contexts[x]? = some ctx ∧ s.objects[ctx.channel]? = some ch ∧
    ch.persistent = false ∧ ch.connections ≤ 1

/-- The channel of the pool is removed with the last context of a temporary
channel, and stays as it is when another leaves. -/
theorem Calm.leave_pool {key : String} (h : Calm key s) {x c : Nat} {ch₀ : Channel ν}
    (hpooled : s.Pooled key c ch₀) (henabled : Enabled s (.leave x)) :
    s.Last x ∧ (s.leave x).channels.get? key = none ∨
    ¬ s.Last x ∧ (∃ ch', (s.leave x).Pooled key c ch' ∧ ch'.persistent = ch₀.persistent ∧
        ((s.leave x).HasOpen ch' ↔ s.HasOpen ch₀)) ∧
      (s.leave x).contexts = (s.setPhase x .left).contexts := by
  obtain ⟨ctx, hx, hbody⟩ := henabled
  obtain ⟨ch, hch, hkey⟩ := h.contexts ctx (List.mem_of_getElem? hx)
  rw [h.keyed ctx (List.mem_of_getElem? hx)] at hkey
  have hlast : s.Last x ↔ ch.persistent = false ∧ ch.connections - 1 ≤ 0 := by
    constructor
    · rintro ⟨ctx', ch', hx', hch', hp, hle⟩
      cases hx.symm.trans hx'
      cases hch.symm.trans hch'
      exact ⟨hp, by omega⟩
    · rintro ⟨hp, hle⟩
      exact ⟨ctx, ch, hx, hch, hp, by omega⟩
  rw [hlast]
  have hleft := left h.ready hx hch
  generalize s.leave x = s' at hleft ⊢
  cases hleft with
  | stays hmore =>
    refine .inr ⟨hmore, ?_, rfl⟩
    refine hpooled.set hch { ch with connections := ch.connections - 1 } ⟨rfl, Iff.rfl⟩
      (fun heq => ?_) rfl rfl
    rw [heq]
    exact ⟨rfl, Iff.rfl⟩
  | missing _ hpool =>
    rw [hkey, hpooled.1] at hpool
    cases hpool
  | closed hend =>
    refine .inl ⟨hend, ?_⟩
    rw [hkey]
    exact Dict.get?_erase_self s.channels key

/-- What else happens leaves it in the pool. -/
theorem Calm.step_pool [DecidableEq ν] {key : String} (h : Calm key s) {a : Action ν} {c : Nat}
    {persistent : Bool} (hpooled : s.PooledAs key c persistent) (hrun : OneKey key s a)
    (hleave : ∀ x, a = .leave x → ¬ s.Last x) : (s.step a).PooledAs key c persistent := by
  cases a with
  | enter r =>
    change (s.enter r).PooledAs key c persistent
    have hkey : s.keyOf r = key := hrun.2
    have hentered := entered h.pool h.ready r
    generalize s.enter r = s' at hentered ⊢
    cases hentered with
    | fresh hpool =>
      obtain ⟨ch₀, ⟨hsome, -⟩, -⟩ := hpooled
      rw [hkey, hsome] at hpool
      cases hpool
    | @kept _ ch _ _ _ _ hch _ hacq =>
      obtain ⟨options, hconfigure⟩ := configure_fst ch r
      rw [hconfigure] at hacq
      exact hpooled.set hch _ hacq.persistent hacq.objects hacq.channels
    | @recreated _ ch _ _ hch =>
      obtain ⟨options, hconfigure⟩ := configure_fst ch r
      rw [hconfigure]
      exact hpooled.set hch { ch with options := options } rfl rfl rfl
  | resume x =>
    obtain ⟨ctx, hx, -⟩ := hrun.1
    obtain ⟨ch, hch, -⟩ := h.contexts ctx (List.mem_of_getElem? hx)
    obtain ⟨s', body, ch', hacq, heq⟩ := resumed hx hch
    change (s.resume x).PooledAs key c persistent
    rw [heq]
    exact hpooled.set hch _ hacq.persistent hacq.objects hacq.channels
  | leave x =>
    obtain ⟨ch, hpooled, hp⟩ := hpooled
    rcases h.leave_pool hpooled hrun.1 with ⟨hlast, -⟩ | ⟨-, ⟨ch', hstill, hpersistent, -⟩, -⟩
    · exact absurd hlast (hleave x rfl)
    · exact ⟨ch', hstill, hpersistent.trans hp⟩
  | released x => exact hpooled
  | raise x keyError | abort x => exact hrun.2.elim

/-- Once a persistent channel was asked for, the pool has one. -/
def Held (key : String) (o : Observed ν) : Prop :=
  o.asked = true → ∃ c, o.state.PooledAs key c true

section Steps

variable [DecidableEq ν] {key : String} {o : Observed ν} {a : Action ν}

/-- The first request decides what the channel is. -/
theorem Calm.enter_fresh (h : Calm key s) {r : Request ν} (hkey : s.keyOf r = key)
    (hpool : s.channels.get? key = none) :
    (s.enter r).PooledAs key s.objects.length r.persistent := by
  have hentered := entered h.pool h.ready r
  generalize s.enter r = s' at hentered ⊢
  cases hentered with
  | @fresh s' body ch' _ hacq =>
    rw [hkey] at hacq
    refine ⟨ch', ⟨?_, ?_⟩, hacq.persistent⟩
    · change s'.channels.get? key = some s.objects.length
      rw [hacq.channels]
      exact Dict.get?_set_self s.channels key s.objects.length
    · change s'.objects[s.objects.length]? = some ch'
      rw [hacq.objects]
      exact List.getElem?_set_self (by simp [insert])
  | kept hsome | recreated hsome =>
    rw [hkey, hpool] at hsome
    cases hsome

/-- A persistent channel is used as it is. -/
theorem Calm.enter_same (h : Calm key s) {r : Request ν} (hkey : s.keyOf r = key) {c : Nat}
    {ch : Channel ν} (hpooled : s.Pooled key c ch) (hp : ch.persistent = true)
    (hsame : SameOptions ch r) :
    (s.enter r).instances = s.instances ∧ ∃ body, ch.inst = some body.current ∧
      (s.enter r).contexts = s.contexts ++ [⟨key, c, r.stub, .inside body⟩] := by
  have hentered := entered h.pool h.ready r
  generalize s.enter r = s' at hentered ⊢
  cases hentered with
  | fresh hpool =>
    rw [hkey, hpooled.1] at hpool
    cases hpool
  | @kept d ch₁ s' body ch' hpool hch _ hacq =>
    rw [hkey] at hpool
    cases hpooled.1.symm.trans hpool
    cases hpooled.2.symm.trans hch
    obtain ⟨options, hconfigure⟩ := configure_fst ch r
    rw [hconfigure] at hacq
    obtain ⟨hinst, hinstances⟩ := hacq.kept (h.ready c ch hch)
    refine ⟨hinstances, body, hinst, ?_⟩
    rw [hkey, hacq.contexts]
  | @recreated d ch₁ i hpool hch hchanged hinst =>
    rw [hkey] at hpool
    cases hpooled.1.symm.trans hpool
    cases hpooled.2.symm.trans hch
    rw [(configure_snd ch r).mpr ⟨fun _ => hp, hsame⟩] at hchanged
    cases hchanged

omit [DecidableEq ν] in
theorem Held.not_last (hheld : Held key o) (hasked : o.asked = true) {x : Nat}
    (hkept : Kept key o (.leave x)) : ¬ o.state.Last x := by
  rintro ⟨ctx, ch, hx, hch, hp, hle⟩
  obtain ⟨c, hpooled⟩ := hheld hasked
  have hpool := (hkept hasked).2 ctx ch hx hch hp hle
  exact Bool.false_ne_true (hp.symm.trans (hpooled.eq hpool hch).2)

theorem Held.step (h : Calm key o.state) (hheld : Held key o) (hrun : OneKey key o.state a)
    (hkept : Kept key o a) : Held key (o.step a) := by
  intro hasked
  cases hbefore : o.asked with
  | true =>
    obtain ⟨c, hpooled⟩ := hheld hbefore
    refine ⟨c, h.step_pool hpooled hrun ?_⟩
    rintro x rfl
    exact hheld.not_last hbefore hkept
  | false =>
    have hasks : a.asks = true := by
      rw [Observed.step, hbefore] at hasked
      exact hasked
    cases a with
    | enter r =>
      have hkey : o.state.keyOf r = key := hrun.2
      cases hpool : o.state.channels.get? key with
      | some c =>
        obtain ⟨ch, hch, -⟩ := h.pool key c hpool
        exact ⟨c, h.step_pool ⟨ch, ⟨hpool, hch⟩, hkept hasks c ch ⟨hpool, hch⟩⟩ hrun
          (fun x hx => by cases hx)⟩
      | none =>
        have hfresh := h.enter_fresh hkey hpool
        rw [show r.persistent = true from hasks] at hfresh
        exact ⟨_, hfresh⟩
    | _ => cases hasks

theorem persists_of_kept (h : Calm key o.state) (hheld : Held key o) (hrun : OneKey key o.state a)
    (hkept : Kept key o a) : Persists key o a := by
  intro hasked
  obtain ⟨c, ch, hpooled, hp⟩ := hheld hasked
  cases a with
  | leave x =>
    rcases h.leave_pool hpooled hrun.1 with ⟨hlast, -⟩ | ⟨-, ⟨ch', hstill, -, hopen⟩, -⟩
    · exact absurd hlast (hheld.not_last hasked hkept)
    · exact ⟨c, ch', hstill, hopen.mpr ((hkept hasked).1 c ch hpooled)⟩
  | released x => exact ⟨c, ch, hpooled, hkept hasked c ch hpooled⟩
  | enter r =>
    rintro d ch₁ hd hsame
    cases hpooled.1.symm.trans hd.1
    cases hpooled.2.symm.trans hd.2
    exact h.enter_same hrun.2 hpooled hp hsame
  | _ => trivial

end Steps

/-! ## §5 A channel that was not upgraded -/

/-- A temporary channel is in the pool, and a context in it. -/
def Stuck (key : String) (s : GRPCCoroutine ν) : Prop :=
  ∃ c, s.PooledAs key c false ∧ ∃ (i : Nat) (x : Context), s.contexts[i]? = some x ∧
    x.channel = c ∧ x.phase.isActive = true

theorem isActive_of_isInside {phase : Phase} (h : phase.isInside = true) :
    phase.isActive = true := by
  cases phase <;> first | rfl | cases h

/-- A context that goes on, but not out of its body. -/
theorem active_setPhase {i x : Nat} {y : Context} (hy : s.contexts[i]? = some y)
    (hactive : y.phase.isActive = true) {phase : Phase}
    (hphase : phase.isActive = true ∨ x ≠ i) :
    ∃ (j : Nat) (z : Context), (s.setPhase x phase).contexts[j]? = some z ∧
      z.channel = y.channel ∧ z.phase.isActive = true := by
  by_cases hxi : x = i
  · subst hxi
    refine ⟨x, { y with phase }, ?_, rfl, hphase.resolve_right fun hne => hne rfl⟩
    rw [GRPCCoroutine.setPhase, List.getElem?_modify, hy]
    simp
  · exact ⟨i, y, (List.getElem?_modify_ne _ _ hxi).trans hy, rfl, hactive⟩

/-- Who leaves a temporary channel that stays is not the last one in it. -/
theorem Calm.leave_active {key : String} (h : Calm key s) {x c : Nat}
    (hpooled : s.PooledAs key c false) (henabled : Enabled s (.leave x)) (hmore : ¬ s.Last x)
    {i : Nat} {y : Context} (hy : s.contexts[i]? = some y) (hchannel : y.channel = c)
    (hactive : y.phase.isActive = true) :
    ∃ (j : Nat) (z : Context), (s.setPhase x .left).contexts[j]? = some z ∧ z.channel = c ∧
      z.phase.isActive = true := by
  subst hchannel
  by_cases hxi : x = i
  · subst hxi
    obtain ⟨ctx, hx, hbody⟩ := henabled
    cases hy.symm.trans hx
    obtain ⟨ch, ⟨-, hch⟩, hp⟩ := hpooled
    have hconnections := h.balanced _ ch hch
    have hcount := inside_setPhase_out hx .left rfl y.channel
    rw [isInside_of_phase hbody, Bool.true_and, decide_eq_true rfl, Bool.toNat_true] at hcount
    have hpos : 0 < (s.setPhase x .left).inside y.channel := by
      by_contra hzero
      exact hmore ⟨y, ch, hx, hch, hp, by omega⟩
    obtain ⟨z, hz, hinside⟩ := List.countP_pos_iff.mp hpos
    obtain ⟨j, hj⟩ := List.mem_iff_getElem?.mp hz
    rw [Bool.and_eq_true, decide_eq_true_eq] at hinside
    exact ⟨j, z, hj, hinside.2, isActive_of_isInside hinside.1⟩
  · exact active_setPhase hy hactive (.inr hxi)

section Steps

variable [DecidableEq ν] {key : String} {o : Observed ν} {a : Action ν}

theorem Calm.enter_active (h : Calm key s) {r : Request ν} (hkey : s.keyOf r = key) :
    ∃ x, (s.enter r).contexts = s.contexts ++ [x] ∧ x.phase.isActive = true ∧
      ∀ c, s.channels.get? key = some c → x.channel = c := by
  have hentered := entered h.pool h.ready r
  generalize s.enter r = s' at hentered ⊢
  cases hentered with
  | fresh hpool hacq =>
    refine ⟨_, by rw [hacq.contexts]; rfl, rfl, fun c hsome => ?_⟩
    rw [hkey, hsome] at hpool
    cases hpool
  | kept hpool _ _ hacq =>
    refine ⟨_, by rw [hacq.contexts], rfl, fun c hsome => ?_⟩
    rw [hkey, hsome] at hpool
    exact (Option.some.inj hpool).symm
  | recreated hpool =>
    refine ⟨_, rfl, rfl, fun c hsome => ?_⟩
    rw [hkey, hsome] at hpool
    exact (Option.some.inj hpool).symm

/-- A request that finds a temporary channel is stuck with it. -/
theorem Calm.enter_stuck (h : Calm key s) {r : Request ν} (hrun : OneKey key s (.enter r)) {c : Nat}
    (hpooled : s.PooledAs key c false) : Stuck key (s.enter r) := by
  obtain ⟨x, hcontexts, hactive, hchannel⟩ := h.enter_active hrun.2
  have hstill : (s.enter r).PooledAs key c false :=
    h.step_pool (a := .enter r) hpooled hrun fun _ ha => by cases ha
  obtain ⟨ch, ⟨hpool, -⟩, -⟩ := hpooled
  refine ⟨c, hstill, s.contexts.length, x, ?_, hchannel c hpool, hactive⟩
  rw [hcontexts]
  exact List.getElem?_concat_length

theorem Stuck.step (hstuck : Stuck key o.state) (h : Calm key o.state) (hasked : o.asked = true)
    (hrun : OneKey key o.state a) (hpersists : Persists key o a) : Stuck key (o.step a).state := by
  obtain ⟨c, hpooled, i, x, hx, hchannel, hactive⟩ := hstuck
  have hleave (y : Nat) (ha : a = .leave y) : ¬ o.state.Last y := by
    subst ha
    obtain ⟨ch, hp, -⟩ := hpooled
    rcases h.leave_pool hp hrun.1 with ⟨-, hnone⟩ | ⟨hmore, -⟩
    · obtain ⟨d, ch', ⟨hsome, -⟩, -⟩ := hpersists hasked
      rw [GRPCCoroutine.step, hnone] at hsome
      cases hsome
    · exact hmore
  refine ⟨c, h.step_pool hpooled hrun hleave, ?_⟩
  cases a with
  | enter r =>
    obtain ⟨z, hcontexts, -, -⟩ := h.enter_active (r := r) hrun.2
    refine ⟨i, x, ?_, hchannel, hactive⟩
    change (o.state.enter r).contexts[i]? = some x
    rw [hcontexts, List.getElem?_append_left (List.getElem?_eq_some_iff.mp hx).1]
    exact hx
  | resume y =>
    obtain ⟨ctx, hctx, -⟩ := hrun.1
    obtain ⟨ch, hch, -⟩ := h.contexts ctx (List.mem_of_getElem? hctx)
    obtain ⟨s', body, ch', hacq, heq⟩ := resumed hctx hch
    change ∃ (i : Nat) (x : Context), (o.state.resume y).contexts[i]? = some x ∧ _
    rw [heq]
    subst hchannel
    exact active_setPhase (hacq.contexts ▸ hx) hactive (.inl rfl)
  | leave y =>
    obtain ⟨ch, hp, hpersistent⟩ := hpooled
    rcases h.leave_pool hp hrun.1 with ⟨hlast, -⟩ | ⟨hmore, -, hcontexts⟩
    · exact absurd hlast (hleave y rfl)
    · change ∃ (i : Nat) (x : Context), (o.state.leave y).contexts[i]? = some x ∧ _
      rw [hcontexts]
      exact h.leave_active ⟨ch, hp, hpersistent⟩ hrun.1 hmore hx hchannel hactive
  | released y =>
    subst hchannel
    refine active_setPhase hx hactive (.inr ?_)
    rintro rfl
    obtain ⟨ctx, hctx, hphase⟩ := hrun.1
    cases hx.symm.trans hctx
    rw [hphase] at hactive
    cases hactive
  | raise y keyError | abort y => exact hrun.2.elim

end Steps

/-! ## §6 The result -/

/-- No context is in its body, or on its way into it. -/
def Complete (s : GRPCCoroutine ν) : Prop := ∀ x ∈ s.contexts, x.phase.isActive = false

section Run

variable [DecidableEq ν] {key : String} {o : Observed ν} {as : List (Action ν)}

theorem kept_of_persists (h : Calm key o.state) (hheld : Held key o) {a : Action ν}
    (hrun : OneKey key o.state a) (henter : ∀ r, a ≠ .enter r) (hpersists : Persists key o a) :
    Kept key o a := by
  cases a with
  | enter r => exact absurd rfl (henter r)
  | leave x =>
    intro hasked
    obtain ⟨c, ch, hpooled, hp⟩ := hheld hasked
    obtain ⟨d, ch₁, hafter, hopen⟩ := hpersists hasked
    rcases h.leave_pool hpooled hrun.1 with ⟨-, hnone⟩ | ⟨hmore, ⟨ch', hstill, -, hsame⟩, -⟩
    · have hsome := hafter.1
      rw [GRPCCoroutine.step, hnone] at hsome
      cases hsome
    · cases hafter.1.symm.trans hstill.1
      cases hafter.2.symm.trans hstill.2
      refine ⟨fun d ch₂ hd => ?_, fun ctx ch₂ hx hch hp hle => ?_⟩
      · cases hpooled.1.symm.trans hd.1
        cases hpooled.2.symm.trans hd.2
        exact hsame.mp hopen
      · exact absurd ⟨ctx, ch₂, hx, hch, hp, hle⟩ hmore
  | released x =>
    intro hasked c ch hpooled
    obtain ⟨d, ch₁, hafter, hopen⟩ := hpersists hasked
    cases hpooled.1.symm.trans hafter.1
    cases hpooled.2.symm.trans hafter.2
    exact hopen
  | resume x => trivial
  | raise x keyError | abort x => exact hrun.2.elim

theorem persists_run (h : Calm key o.state) (hheld : Held key o)
    (hrun : Permitted Observed.step (fun o => OneKey key o.state) o as)
    (hkept : Permitted Observed.step (Kept key) o as) :
    Permitted Observed.step (Persists key) o as := by
  induction as generalizing o with
  | nil => trivial
  | cons a rest ih =>
    exact ⟨persists_of_kept h hheld hrun.1 hkept.1,
      ih (h.step hrun.1) (hheld.step h hrun.1 hkept.1) hrun.2 hkept.2⟩

/-- Who is stuck is so until the end. -/
theorem not_complete_run (hstuck : Stuck key o.state) (h : Calm key o.state)
    (hasked : o.asked = true) (hrun : Permitted Observed.step (fun o => OneKey key o.state) o as)
    (hpersists : Permitted Observed.step (Persists key) o as) :
    ¬ Complete (as.foldl Observed.step o).state := by
  induction as generalizing o with
  | nil =>
    intro hcomplete
    obtain ⟨c, -, i, x, hx, -, hactive⟩ := hstuck
    exact Bool.false_ne_true ((hcomplete x (List.mem_of_getElem? hx)).symm.trans hactive)
  | cons a rest ih =>
    refine ih (hstuck.step h hasked hrun.1 hpersists.1) (h.step hrun.1) ?_ hrun.2 hpersists.2
    rw [Observed.step, hasked]
    rfl

theorem kept_run (h : Calm key o.state) (hheld : Held key o)
    (hrun : Permitted Observed.step (fun o => OneKey key o.state) o as)
    (hcomplete : Complete (as.foldl Observed.step o).state)
    (hpersists : Permitted Observed.step (Persists key) o as) :
    Permitted Observed.step (Kept key) o as := by
  induction as generalizing o with
  | nil => trivial
  | cons a rest ih =>
    have hkept : Kept key o a := by
      cases a with
      | enter r =>
        intro hpersistent c ch hpooled
        -- else the channel is temporary, and this context is never the last to leave it
        by_contra htemporary
        have hstuck := h.enter_stuck hrun.1
          ⟨ch, hpooled, Bool.eq_false_iff.mpr htemporary⟩
        refine not_complete_run (o := o.step (.enter r)) hstuck (h.step hrun.1) ?_ hrun.2
          hpersists.2 hcomplete
        exact (congrArg (o.asked || ·) hpersistent).trans (Bool.or_true _)
      | _ => exact kept_of_persists h hheld hrun.1 (fun _ ha => by cases ha) hpersists.1
    exact ⟨hkept, ih (h.step hrun.1) (hheld.step h hrun.1 hkept) hrun.2 hcomplete hpersists.2⟩

end Run

/-- The start of a run. -/
def unasked : Observed ν := ⟨init, false⟩

/-- Persistent channels stay open in every run of kept steps, and in no
other run that comes to an end. -/
theorem persists_iff [DecidableEq ν] (key : String) (as : List (Action ν))
    (hrun : Permitted Observed.step (fun o => OneKey key o.state) unasked as) :
    (Permitted Observed.step (Kept key) unasked as →
      Permitted Observed.step (Persists key) unasked as) ∧
    (Complete (as.foldl Observed.step unasked).state →
      (Permitted Observed.step (Persists key) unasked as ↔
        Permitted Observed.step (Kept key) unasked as)) := by
  have hheld : Held key (unasked : Observed ν) := fun h => by cases h
  exact ⟨persists_run .init hheld hrun,
    fun hcomplete => ⟨kept_run .init hheld hrun hcomplete, persists_run .init hheld hrun⟩⟩

/-! ## §7 Two runs -/

/-- A request for a persistent channel, and one for a temporary one. -/
def lasting : Request Nat := ⟨none, 5115, true, none, none⟩

def passing : Request Nat := ⟨none, 5115, false, none, none⟩

/-- The first context has made the channel persistent. -/
theorem persists_iff_lasting :
    Permitted Observed.step (Persists "localhost:5115") unasked
      [.enter lasting, .enter passing, .leave 0] := by
  refine (persists_iff "localhost:5115" _ ?_).1 ?_
  · exact ⟨⟨trivial, rfl⟩, ⟨trivial, rfl⟩, ⟨⟨_, rfl, _, rfl⟩, trivial⟩, trivial⟩
  · refine ⟨fun _ c ch h => (by cases h.1), fun h => (by cases h), fun _ => ⟨?_, ?_⟩, trivial⟩
    · rintro c ch ⟨hpool, hch⟩
      cases hpool
      cases hch
      exact ⟨0, rfl, rfl⟩
    · rintro ctx ch hx hch hp
      cases hx
      cases hch
      cases hp

/-- A channel that was made by a temporary request is closed after its last
context, though another request was for a persistent one. -/
theorem lasting_not_kept :
    let as : List (Action Nat) := [.enter passing, .enter lasting, .resume 1, .leave 0, .leave 1]
    (as.foldl step init).channels.get? "localhost:5115" = none ∧
    ¬ ∀ key as, Permitted Observed.step (fun o => OneKey key o.state) unasked as →
      Permitted Observed.step (Persists (ν := Nat) key) unasked as := by
  refine ⟨rfl, fun h => ?_⟩
  have hpersists := h "localhost:5115"
    [.enter passing, .enter lasting, .resume 1, .leave 0, .leave 1]
    ⟨⟨trivial, rfl⟩, ⟨trivial, rfl⟩, ⟨⟨_, rfl, rfl⟩, trivial⟩, ⟨⟨_, rfl, _, rfl⟩, trivial⟩,
      ⟨⟨_, rfl, _, rfl⟩, trivial⟩, trivial⟩
  obtain ⟨-, -, -, -, hlast, -⟩ := hpersists
  obtain ⟨c, ch, ⟨hpool, -⟩, -⟩ := hlast rfl
  cases hpool

end Iams.Aio.GRPCCoroutine
