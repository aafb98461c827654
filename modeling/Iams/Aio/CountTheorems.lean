/-
Iams.Aio.CountTheorems — when the channels of `GRPCCoroutine` are counted
right.

What follows the `yield` in `channel` is not in a `finally`, so a context
that an exception leaves stays counted. And a context that waits in
`_channel` is not counted yet: the last one inside may remove the channel
from the pool under it. `counted_iff` says that besides a wait that is
aborted there is nothing else.

§1 the property, §2 its steps, §3 the result, §4 two runs.

No `sorry`, no `axiom`, no `native_decide`.
-/
import Iams.Aio.PoolInvariant

namespace Iams.Aio.GRPCCoroutine

open Iams.Lib Pool

variable {ν : Type} {s s' : GRPCCoroutine ν}

/-! ## §1 The property -/

/-- A channel counts the contexts inside. If it is not persistent, it is in
the pool while there are some, and its instance is closed when there is
none left; before that it may be closed only to be replaced. -/
structure Counts (s : GRPCCoroutine ν) (c : Nat) (ch : Channel ν) : Prop where
  connections : ch.connections = s.inside c
  pooled : ch.persistent = false → (s.channels.get? ch.key = some c ↔ 0 < s.inside c)
  opened : ch.persistent = false → 0 < s.inside c → s.HasOpen ch ∨ ∃ y, s.Waits c y
  closed : ch.persistent = false → s.inside c = 0 → ¬ s.HasOpen ch

structure Counted (s : GRPCCoroutine ν) : Prop where
  channels : ∀ (c : Nat) ch, s.objects[c]? = some ch → Counts s c ch
  exits : ∀ x ∈ s.contexts, x.phase ≠ .keyError
  /-- Active contexts of one key share the channel of the pool. -/
  shared : ∀ x ∈ s.contexts, ∀ y ∈ s.contexts, x.phase.isActive = true → y.phase.isActive = true →
    x.key = y.key → x.channel = y.channel ∧ s.channels.get? x.key = some x.channel

/-- No body ends by an exception; and of a channel that is not persistent,
the last connection does not end while a context waits, and no wait is
aborted that is the only one for the closed instance. -/
def Mild (s : GRPCCoroutine ν) : Action ν → Prop
  | .raise _ _ => False
  | .leave x => ∀ ctx ch, s.contexts[x]? = some ctx → s.objects[ctx.channel]? = some ch →
    ch.persistent = false → ch.connections ≤ 1 → ∀ y, ¬ s.Waits ctx.channel y
  | .abort x => ∀ ctx ch, s.contexts[x]? = some ctx → s.objects[ctx.channel]? = some ch →
    ch.persistent = false → s.HasOpen ch ∨ ∃ y, x ≠ y ∧ s.Waits ctx.channel y
  | _ => True

/-- Persistent channels are always in the pool, and no context waits for a
channel that is not. -/
structure CountInv (s : GRPCCoroutine ν) : Prop extends Sound s where
  channels : ∀ (c : Nat) ch, s.objects[c]? = some ch → Counts s c ch
  exits : ∀ x ∈ s.contexts, x.phase ≠ .keyError
  persistent : ∀ (c : Nat) ch, s.objects[c]? = some ch → ch.persistent = true →
    s.channels.get? ch.key = some c
  waits : ∀ (c : Nat) ch, s.objects[c]? = some ch → ch.persistent = false →
    ∀ y, s.Waits c y → 0 < s.inside c

theorem inside_pos {x : Context} (hx : x ∈ s.contexts) (hinside : x.phase.isInside = true) :
    0 < s.inside x.channel :=
  List.countP_pos_iff.mpr ⟨x, hx, by simp [hinside]⟩

theorem waits_of_mem {x : Context} (hx : x ∈ s.contexts) (hphase : x.phase = .acquiring) :
    ∃ y, s.Waits x.channel y := by
  obtain ⟨y, hy⟩ := List.mem_iff_getElem?.mp hx
  exact ⟨y, x, hy, rfl, hphase⟩

/-- An active context is in a channel of the pool. -/
theorem CountInv.pooled (h : CountInv s) {x : Context} (hx : x ∈ s.contexts)
    (hactive : x.phase.isActive = true) : s.channels.get? x.key = some x.channel := by
  obtain ⟨ch, hch, hkey⟩ := h.contexts x hx
  rw [← hkey]
  cases hpersistent : ch.persistent with
  | true => exact h.persistent _ ch hch hpersistent
  | false =>
    refine ((h.channels _ ch hch).pooled hpersistent).mpr ?_
    cases hphase : x.phase with
    | inside body => exact inside_pos hx (isInside_of_phase ⟨body, hphase⟩)
    | acquiring =>
      obtain ⟨y, hy⟩ := waits_of_mem hx hphase
      exact h.waits _ ch hch hpersistent y hy
    | releasing | left | keyError =>
      rw [hphase] at hactive
      cases hactive

theorem CountInv.counted (h : CountInv s) : Counted s := by
  refine ⟨h.channels, h.exits, fun x hx y hy hxActive hyActive hkey => ?_⟩
  have hpooled := h.pooled hx hxActive
  have hsame := hpooled
  rw [hkey, h.pooled hy hyActive] at hsame
  exact ⟨(Option.some.inj hsame).symm, hpooled⟩

/-! ## §2 The steps -/

theorem CountInv.init : CountInv (init : GRPCCoroutine ν) where
  toSound := .init
  channels _ _ h := by cases h
  exits _ h := by cases h
  persistent _ _ h := by cases h
  waits _ _ h := by cases h

/-- A change in one channel. -/
theorem CountInv.update (h : CountInv s) (hsound : Sound s') (c : Nat) (ch' : Channel ν)
    (hobjects : ∀ d ch, s'.objects[d]? = some ch →
      c = d ∧ ch = ch' ∨ c ≠ d ∧ s.objects[d]? = some ch)
    (hcounts : Counts s' c ch')
    (hpersistent : ch'.persistent = true → s'.channels.get? ch'.key = some c)
    (hwaits : ch'.persistent = false → ∀ y, s'.Waits c y → 0 < s'.inside c)
    (hexits : ∀ x ∈ s'.contexts, x.phase ≠ .keyError)
    (hpool : ∀ d, c ≠ d → ∀ key, s'.channels.get? key = some d ↔ s.channels.get? key = some d)
    (hinside : ∀ d, c ≠ d → s'.inside d = s.inside d)
    (hopen : ∀ d, c ≠ d → ∀ i, s.OwnedBy d i → (s'.isOpen i = true ↔ s.isOpen i = true))
    (hothers : ∀ d, c ≠ d → ∀ y, s'.Waits d y ↔ s.Waits d y) : CountInv s' := by
  refine ⟨hsound, fun d ch hd => ?_, hexits, fun d ch hd hp => ?_, fun d ch hd hp y hy => ?_⟩
  · rcases hobjects d ch hd with ⟨rfl, rfl⟩ | ⟨hne, hd⟩
    · exact hcounts
    · have hold := h.channels d ch hd
      have hhas : s'.HasOpen ch ↔ s.HasOpen ch :=
        exists_congr fun i => and_congr_right fun hi => hopen d hne i (h.inst d ch hd i hi)
      have hsame : (∃ y, s'.Waits d y) ↔ ∃ y, s.Waits d y := exists_congr (hothers d hne)
      refine ⟨?_, ?_, ?_, ?_⟩ <;> rw [hinside d hne]
      · exact hold.connections
      · rw [hpool d hne]
        exact hold.pooled
      · rw [hhas, hsame]
        exact hold.opened
      · rw [hhas]
        exact hold.closed
  · rcases hobjects d ch hd with ⟨rfl, rfl⟩ | ⟨hne, hd⟩
    · exact hpersistent hp
    · exact (hpool d hne _).mpr (h.persistent d ch hd hp)
  · rcases hobjects d ch hd with ⟨rfl, rfl⟩ | ⟨hne, hd⟩
    · exact hwaits hp y hy
    · rw [hinside d hne]
      exact h.waits d ch hd hp y ((hothers d hne y).mp hy)

/-- A context comes to its body; `s₀` is `s`, or the channel was put into
the pool. -/
theorem CountInv.body (h : CountInv s) {s₀ s'' : GRPCCoroutine ν} (hsound : Sound s'') {c : Nat}
    {ch ch' : Channel ν} {stub : Option String} {body : Body} {key : String}
    (hacq : Acquired s₀ c ch stub s' body ch')
    (hstarts : Starts s' s'' ⟨key, c, stub, .inside body⟩)
    (hcontexts : s₀.contexts = s.contexts) (hinstances : s₀.instances = s.instances)
    (hobjects : ∀ d ch, c ≠ d → s₀.objects[d]? = some ch → s.objects[d]? = some ch)
    (hpool : ∀ d, c ≠ d → ∀ key, s₀.channels.get? key = some d ↔ s.channels.get? key = some d)
    (hpooled : s₀.channels.get? ch.key = some c) (hconnections : ch.connections = s.inside c)
    (hopened : ch.persistent = false → s'.isOpen body.current = true ∨ ∃ y, s''.Waits c y) :
    CountInv s'' := by
  have hchannels : s''.channels = s₀.channels := hstarts.channels.trans hacq.channels
  have hinside (d : Nat) : s''.inside d = s.inside d + (decide (c = d)).toNat := by
    rw [hstarts.inside, inside_congr (hacq.contexts.trans hcontexts)]
  have hself : s''.inside c = s.inside c + 1 := by
    rw [hinside, decide_eq_true rfl, Bool.toNat_true]
  have hpooled' : s''.channels.get? ch'.key = some c := by
    rw [hchannels, hacq.key]
    exact hpooled
  refine h.update hsound c ch' (fun d ch₁ hd => ?_)
    ⟨?_, fun _ => ?_, fun hp _ => ?_, fun _ hz => ?_⟩ (fun _ => hpooled') (fun _ _ _ => ?_)
    (fun x hx => ?_) (fun d hd key => ?_) (fun d hd => ?_) (fun d hd i hi => ?_) fun d hd y => ?_
  · rw [hstarts.objects, hacq.objects] at hd
    rcases getElem?_set_cases hd with hsame | ⟨hne, hd⟩
    · exact .inl hsame
    · exact .inr ⟨hne, hobjects d ch₁ hne hd⟩
  · rw [hacq.connections, hconnections, hself]
    rfl
  · rw [hself]
    exact iff_of_true hpooled' (Nat.succ_pos _)
  · refine (hopened (hacq.persistent ▸ hp)).imp_left fun hopen => ⟨body.current, hacq.inst, ?_⟩
    rw [isOpen_congr hstarts.instances]
    exact hopen
  · rw [hself] at hz
    cases hz
  · rw [hself]
    exact Nat.succ_pos _
  · rcases hstarts.contexts x hx with hx | rfl
    · rw [hacq.contexts, hcontexts] at hx
      exact h.exits x hx
    · simp
  · rw [hchannels]
    exact hpool d hd key
  · rw [hinside, decide_eq_false hd]
    rfl
  · rw [isOpen_congr hstarts.instances, hacq.isOpen (hinstances ▸ hi.lt), isOpen_congr hinstances]
  · rw [hstarts.waits d hd, waits_congr (hacq.contexts.trans hcontexts)]

/-- The instance of a channel of the pool is closed, to be replaced. -/
theorem CountInv.replace (h : CountInv s) {c i : Nat} {ch : Channel ν} {options : Options ν}
    {key : String} {stub : Option String} (hch : s.objects[c]? = some ch)
    (hinst : ch.inst = some i) (hpooled : s.channels.get? ch.key = some c)
    (hobjects : s'.objects = s.objects.set c { ch with options := options })
    (hchannels : s'.channels = s.channels) (hinstances : s'.instances = (s.close i).instances)
    (hcontexts : s'.contexts = s.contexts ++ [⟨key, c, stub, .acquiring⟩]) (hsound : Sound s') :
    CountInv s' := by
  have hcounts := h.channels c ch hch
  have hpos (hp : ch.persistent = false) : 0 < s.inside c := (hcounts.pooled hp).mp hpooled
  have hinside (d : Nat) : s'.inside d = s.inside d := inside_concat_out rfl hcontexts d
  refine h.update hsound c { ch with options := options }
    (fun d ch₁ hd => getElem?_set_cases (hobjects ▸ hd))
    ⟨?_, fun hp => ?_, fun _ _ => ?_, fun hp hz => ?_⟩ (fun _ => hchannels ▸ hpooled)
    (fun hp _ _ => ?_) (fun x hx => ?_) (fun _ _ _ => by rw [hchannels]) (fun d _ => hinside d)
    (fun d hne j hj => ?_) fun d hne y => ?_
  · rw [hinside]
    exact hcounts.connections
  · rw [hinside, hchannels]
    exact hcounts.pooled hp
  · exact .inr ⟨_, (waits_concat hcontexts).mpr (.inr ⟨rfl, rfl, rfl⟩)⟩
  · rw [hinside] at hz
    exact absurd hz (Nat.ne_of_gt (hpos hp))
  · rw [hinside]
    exact hpos hp
  · rw [hcontexts] at hx
    rcases List.mem_append.mp hx with hx | hx
    · exact h.exits x hx
    · cases List.mem_singleton.mp hx
      simp
  · rw [isOpen_congr hinstances]
    exact isOpen_close_of_owned (h.inst c ch hch _ hinst) hj hne
  · rw [waits_concat hcontexts]
    exact or_iff_left fun hnew => hne hnew.2.1

theorem CountInv.enter [DecidableEq ν] (h : CountInv s) (r : Request ν) : CountInv (s.enter r) := by
  have hsound := h.toSound.enter r
  have hentered := entered h.pool h.ready r
  generalize s.enter r = s' at hsound hentered ⊢
  cases hentered with
  | @fresh s' body ch' hpool hacq =>
    obtain ⟨options, hconfigure⟩ := configure_fst { key := s.keyOf r, persistent := r.persistent } r
    rw [hconfigure] at hacq
    refine h.body hsound hacq (starts_concat rfl) rfl rfl (fun d ch hne hd => ?_)
      (fun d hne key => Dict.get?_set_eq_some_iff _ hpool hne) (Dict.get?_set_self _ _ _) ?_
      fun _ => .inl (hacq.isOpen_current rfl).2
    · rcases getElem?_concat_cases hd with hd | ⟨rfl, -⟩
      · exact hd
      · exact absurd rfl hne
    · rw [h.inside_length]
      rfl
  | @kept c ch s' body ch' hpool hch hsame hacq =>
    obtain ⟨ch₀, hch₀, hkey⟩ := h.pool _ _ hpool
    cases hch₀.symm.trans hch
    obtain ⟨options, hconfigure⟩ := configure_fst ch r
    rw [hconfigure] at hacq
    obtain ⟨hinst, hinstances⟩ := hacq.kept (h.ready c ch hch)
    have hcounts := h.channels c ch hch
    have hpooled : s.channels.get? ch.key = some c := hkey ▸ hpool
    refine h.body hsound hacq (starts_concat rfl) rfl rfl (fun _ _ _ hd => hd)
      (fun _ _ _ => Iff.rfl) hpooled hcounts.connections fun hp => ?_
    rcases hcounts.opened hp ((hcounts.pooled hp).mp hpooled) with ⟨i, hi, hopen⟩ | ⟨y, hy⟩
    · cases hi.symm.trans hinst
      rw [isOpen_congr hinstances]
      exact .inl hopen
    · rw [← waits_congr hacq.contexts] at hy
      exact .inr ⟨y, (waits_concat rfl).mpr (.inl hy)⟩
  | @recreated c ch i hpool hch hchanged hinst =>
    obtain ⟨ch₀, hch₀, hkey⟩ := h.pool _ _ hpool
    cases hch₀.symm.trans hch
    obtain ⟨options, hconfigure⟩ := configure_fst ch r
    rw [hconfigure] at hsound ⊢
    exact h.replace hch hinst (hkey ▸ hpool) rfl rfl rfl rfl hsound

theorem CountInv.resume (h : CountInv s) {x : Nat} (henabled : Enabled s (.resume x)) :
    CountInv (s.resume x) := by
  have hsound := h.toSound.resume henabled
  obtain ⟨ctx, hx, hphase⟩ := henabled
  have hmem : ctx ∈ s.contexts := List.mem_of_getElem? hx
  obtain ⟨ch, hch, hkey⟩ := h.contexts ctx hmem
  obtain ⟨s', body, ch', hacq, heq⟩ := resumed hx hch
  rw [heq] at hsound ⊢
  have hpooled : s.channels.get? ctx.key = some ctx.channel :=
    h.pooled hmem (by rw [hphase]; rfl)
  have hout : ctx.phase.isInside = false := by rw [hphase]; rfl
  exact h.body hsound hacq (starts_setPhase (hacq.contexts ▸ hx) hout body) rfl rfl
    (fun _ _ _ hd => hd) (fun _ _ _ => Iff.rfl) (hkey ▸ hpooled)
    (h.channels _ ch hch).connections fun _ => .inl (hacq.isOpen_current rfl).2

/-- An `await` outside of the body has ended, and the context with it. -/
theorem CountInv.setPhase_left (h : CountInv s) {x : Nat} {ctx : Context}
    (hx : s.contexts[x]? = some ctx) (hout : ctx.phase.isInside = false)
    (hmild : ctx.phase = .acquiring → Mild s (.abort x)) : CountInv (s.setPhase x .left) := by
  have hinside (c : Nat) : (s.setPhase x .left).inside c = s.inside c := by
    have hsame := inside_setPhase_out hx .left rfl c
    rw [hout] at hsame
    exact hsame
  refine ⟨⟨h.toBase.setPhase hx rfl, h.ready⟩, fun c ch hch => ?_, fun y hy => ?_, h.persistent,
    fun c ch hch hp y hy => ?_⟩
  · obtain ⟨hconnections, hpooled, hopened, hclosed⟩ := h.channels c ch hch
    rw [← hinside] at hconnections hpooled hopened hclosed
    refine ⟨hconnections, hpooled, fun hp hpos => ?_, hclosed⟩
    rcases hopened hp hpos with hopen | ⟨y, hy⟩
    · exact .inl hopen
    · by_cases hxy : x = y
      · -- it is the one that waited
        subst hxy
        obtain ⟨ctx', hx', rfl, hphase⟩ := hy
        cases hx.symm.trans hx'
        exact (hmild hphase ctx ch hx hch hp).imp_right fun ⟨z, hne, hz⟩ =>
          ⟨z, (waits_setPhase x .left (by simp)).mpr ⟨hne, hz⟩⟩
      · exact .inr ⟨y, (waits_setPhase x .left (by simp)).mpr ⟨hxy, hy⟩⟩
  · rcases mem_modify_cases hy with hy | ⟨ctx', -, rfl⟩
    · exact h.exits y hy
    · simp
  · rw [hinside]
    exact h.waits c ch hch hp y ((waits_setPhase x .left (by simp)).mp hy).2

/-- A body has ended by itself. -/
theorem CountInv.disconnect (h : CountInv s) (hsound : Sound s') {x : Nat} {ctx : Context}
    {ch : Channel ν} (hx : s.contexts[x]? = some ctx) (hinside : ctx.phase.isInside = true)
    (hch : s.objects[ctx.channel]? = some ch) {phase : Phase}
    (hphase : phase = .left ∨ phase = .releasing)
    (hobjects : s'.objects =
      s.objects.set ctx.channel { ch with connections := ch.connections - 1 })
    (hcontexts : s'.contexts = (s.setPhase x phase).contexts)
    (hkept : ch.persistent = true → s'.channels.get? ch.key = some ctx.channel)
    (hpool : ∀ d, ctx.channel ≠ d → ∀ key,
      s'.channels.get? key = some d ↔ s.channels.get? key = some d)
    (hopen : ∀ d, ctx.channel ≠ d → ∀ i, s.OwnedBy d i → (s'.isOpen i = true ↔ s.isOpen i = true))
    (hlast : ch.persistent = false → s'.inside ctx.channel + 1 = s.inside ctx.channel →
      (s'.channels.get? ch.key = some ctx.channel ↔ 0 < s'.inside ctx.channel) ∧
      (0 < s'.inside ctx.channel → s'.HasOpen ch ∨ ∃ y, s'.Waits ctx.channel y) ∧
      (s'.inside ctx.channel = 0 → ¬ s'.HasOpen ch) ∧
      ∀ y, s'.Waits ctx.channel y → 0 < s'.inside ctx.channel) : CountInv s' := by
  have hout : phase.isInside = false := by
    rcases hphase with rfl | rfl <;> rfl
  have hgone : phase ≠ .acquiring := by
    rcases hphase with rfl | rfl <;> simp
  have hcount (d : Nat) : s'.inside d + (decide (ctx.channel = d)).toNat = s.inside d := by
    have hsame := inside_setPhase_out hx phase hout d
    rw [hinside, Bool.true_and] at hsame
    rw [inside_congr hcontexts]
    exact hsame
  have hself : s'.inside ctx.channel + 1 = s.inside ctx.channel := by
    have hsame := hcount ctx.channel
    rwa [decide_eq_true rfl, Bool.toNat_true] at hsame
  refine h.update hsound ctx.channel { ch with connections := ch.connections - 1 }
    (fun d ch₁ hd => getElem?_set_cases (hobjects ▸ hd))
    ⟨?_, fun hp => (hlast hp hself).1, fun hp => (hlast hp hself).2.1,
      fun hp => (hlast hp hself).2.2.1⟩ hkept (fun hp => (hlast hp hself).2.2.2) (fun y hy => ?_)
    hpool (fun d hne => ?_) hopen fun d hne y => ?_
  · have hconnections := (h.channels _ ch hch).connections
    dsimp only
    omega
  · rw [hcontexts] at hy
    rcases mem_modify_cases hy with hy | ⟨ctx', -, rfl⟩
    · exact h.exits y hy
    · rcases hphase with rfl | rfl <;> simp
  · have hsame := hcount d
    rwa [decide_eq_false hne] at hsame
  · rw [waits_congr hcontexts, waits_setPhase x phase hgone]
    refine and_iff_right_of_imp ?_
    rintro ⟨ctx', hx', hchannel, -⟩ rfl
    cases hx.symm.trans hx'
    exact hne hchannel

theorem CountInv.leave (h : CountInv s) {x : Nat} (henabled : Enabled s (.leave x))
    (hmild : Mild s (.leave x)) : CountInv (s.leave x) := by
  have hsound := h.toSound.leave henabled
  obtain ⟨ctx, hx, hbody⟩ := henabled
  have hinside : ctx.phase.isInside = true := isInside_of_phase hbody
  have hmem : ctx ∈ s.contexts := List.mem_of_getElem? hx
  obtain ⟨ch, hch, -⟩ := h.contexts ctx hmem
  have hcounts := h.channels _ ch hch
  have hpos : 0 < s.inside ctx.channel := inside_pos hmem hinside
  have hconnections := hcounts.connections
  have hleft := left h.ready hx hch
  generalize s.leave x = s' at hsound hleft ⊢
  cases hleft with
  | stays hmore =>
    refine h.disconnect hsound hx hinside hch (.inl rfl) rfl rfl (h.persistent _ ch hch)
      (fun _ _ _ => Iff.rfl) (fun _ _ _ _ => Iff.rfl) fun hp hself => ?_
    have hstill : 0 < (s.setPhase x .left).inside ctx.channel := by
      have hgt : ¬ ch.connections - 1 ≤ 0 := fun hle => hmore ⟨hp, hle⟩
      have hself : (s.setPhase x .left).inside ctx.channel + 1 = s.inside ctx.channel := hself
      omega
    refine ⟨iff_of_true ((hcounts.pooled hp).mpr hpos) hstill, fun _ => ?_,
      fun hz => absurd hz (Nat.ne_of_gt hstill), fun _ _ => hstill⟩
    refine (hcounts.opened hp hpos).imp_right fun ⟨y, hy⟩ => ⟨y, ?_⟩
    exact (waits_setPhase x .left (by simp)).mpr ⟨ne_of_waits hx hinside hy, hy⟩
  | missing hlast hpool =>
    rw [(hcounts.pooled hlast.1).mpr hpos] at hpool
    cases hpool
  | @closed c i hlast hpool hinst =>
    have hpooled := (hcounts.pooled hlast.1).mpr hpos
    refine h.disconnect hsound hx hinside hch (.inr rfl) rfl rfl (fun hp => ?_)
      (fun d hne key => Dict.get?_erase_eq_some_iff _ hpooled hne)
      (fun d hne j hj => isOpen_close_of_owned (h.inst _ ch hch _ hinst) hj hne) fun _ hself => ?_
    · exact absurd (hp.symm.trans hlast.1) Bool.noConfusion
    · have hzero : (s.setPhase x .releasing).inside ctx.channel = 0 :=
        h.inside_eq_zero hx hinside hch hlast.2 rfl
      have hnobody : ¬ 0 < (s.setPhase x .releasing).inside ctx.channel := by
        rw [hzero]
        exact Nat.lt_irrefl 0
      refine ⟨iff_of_false ?_ hnobody, fun hsome => absurd hsome hnobody, fun _ => ?_,
        fun y hy => ?_⟩
      · rw [Dict.get?_erase_self]
        exact Option.some_ne_none _ ∘ Eq.symm
      · exact not_hasOpen_close hinst
      · have hle : ch.connections ≤ 1 := by omega
        have hy := (waits_setPhase x .releasing (by simp)).mp hy
        exact absurd hy.2 (hmild ctx ch hx hch hlast.1 hle y)

theorem CountInv.step [DecidableEq ν] (h : CountInv s) {a : Action ν} (henabled : Enabled s a)
    (hmild : Mild s a) : CountInv (s.step a) := by
  cases a with
  | enter r => exact h.enter r
  | resume x => exact h.resume henabled
  | leave x => exact h.leave henabled hmild
  | raise x keyError => exact hmild.elim
  | abort x =>
    obtain ⟨ctx, hx, hphase⟩ := henabled
    exact h.setPhase_left hx (by rw [hphase]; rfl) fun _ => hmild
  | released x =>
    obtain ⟨ctx, hx, hphase⟩ := henabled
    refine h.setPhase_left hx (by rw [hphase]; rfl) fun hacquiring => ?_
    rw [hphase] at hacquiring
    cases hacquiring

/-- An exception leaves a connection. -/
theorem CountInv.not_counted_raise (h : CountInv s) {x : Nat} {keyError : Bool}
    (henabled : Enabled s (.raise x keyError)) : ¬ Counted (s.raise x keyError) := by
  intro hcounted
  obtain ⟨ctx, hx, hbody⟩ := henabled
  obtain ⟨ch, hch, -⟩ := h.contexts ctx (List.mem_of_getElem? hx)
  have hlt := (List.getElem?_eq_some_iff.mp hch).1
  obtain ⟨stubs, -, heq⟩ := raised keyError hx hch
  rw [heq] at hcounted
  have hafter : ch.connections = ((s.setPhase x .left).inside ctx.channel : Nat) :=
    (hcounted.channels ctx.channel _ (List.getElem?_set_self hlt)).connections
  have hbefore := (h.channels _ ch hch).connections
  have hcount := inside_setPhase_out hx .left rfl ctx.channel
  rw [isInside_of_phase hbody, Bool.true_and, decide_eq_true rfl, Bool.toNat_true] at hcount
  omega

/-- The context that waits is left with a channel that is not in the
pool. -/
theorem CountInv.not_counted_leave (h : CountInv s) {x : Nat} (henabled : Enabled s (.leave x))
    (hbad : ¬ Mild s (.leave x)) : ¬ Counted (s.leave x) := by
  intro hcounted
  unfold Mild at hbad
  dsimp only at hbad
  push Not at hbad
  obtain ⟨ctx, ch, hx, hch, hp, hle, y, hy⟩ := hbad
  obtain ⟨ctx', hx', hbody⟩ := henabled
  cases hx.symm.trans hx'
  have hmem : ctx ∈ s.contexts := List.mem_of_getElem? hx
  have hpos : 0 < s.inside ctx.channel := inside_pos hmem (isInside_of_phase hbody)
  have hleft := left h.ready hx hch
  generalize s.leave x = s' at hleft hcounted
  cases hleft with
  | stays hmore => exact hmore ⟨hp, by omega⟩
  | missing hlast hpool =>
    rw [((h.channels _ ch hch).pooled hp).mpr hpos] at hpool
    cases hpool
  | @closed c i hlast hpool hinst =>
    have hxy : x ≠ y := ne_of_waits hx (isInside_of_phase hbody) hy
    obtain ⟨waiting, hwaiting, hchannel, hphase⟩ :=
      (waits_setPhase x .releasing (by simp)).mpr ⟨hxy, hy⟩
    have hactive : waiting.phase.isActive = true := by rw [hphase]; rfl
    have hkey : waiting.key = ch.key := by
      obtain ⟨ctx₁, hctx₁, hchannel₁, -⟩ := hy
      cases hctx₁.symm.trans ((List.getElem?_modify_ne _ _ hxy).symm.trans hwaiting)
      obtain ⟨ch₁, hch₁, hkey₁⟩ := h.contexts waiting (List.mem_of_getElem? hctx₁)
      rw [hchannel₁, hch] at hch₁
      cases hch₁
      exact hkey₁.symm
    have hin := List.mem_of_getElem? hwaiting
    obtain ⟨-, hpooled⟩ := hcounted.shared waiting hin waiting hin hactive hactive rfl
    rw [hkey, Dict.get?_erase_self] at hpooled
    cases hpooled

/-- Nobody replaces the instance that was closed. -/
theorem CountInv.not_counted_abort (h : CountInv s) {x : Nat} (henabled : Enabled s (.abort x))
    (hbad : ¬ Mild s (.abort x)) : ¬ Counted (s.setPhase x .left) := by
  intro hcounted
  unfold Mild at hbad
  dsimp only at hbad
  push Not at hbad
  obtain ⟨ctx, ch, hx, hch, hp, hclosed, hnone⟩ := hbad
  obtain ⟨ctx', hx', hphase⟩ := henabled
  cases hx.symm.trans hx'
  have hcount := inside_setPhase_out hx .left rfl ctx.channel
  rw [hphase] at hcount
  have hpos : 0 < (s.setPhase x .left).inside ctx.channel := by
    have hwaits := h.waits _ ch hch hp x ⟨ctx, hx, rfl, hphase⟩
    rw [← hcount] at hwaits
    exact hwaits
  rcases (hcounted.channels _ ch hch).opened hp hpos with hopen | ⟨y, hy⟩
  · exact hclosed hopen
  · obtain ⟨hne, hy⟩ := (waits_setPhase x .left (by simp)).mp hy
    exact hnone y hne hy

/-! ## §3 The result -/

/-- In every run of mild steps the channels are counted right, and they are
so after one more step if and only if it is mild. -/
theorem counted_iff [DecidableEq ν]
    (h : Reachable step (fun (s : GRPCCoroutine ν) a => Enabled s a ∧ Mild s a) init s) :
    Counted s ∧ ∀ a, Enabled s a → (Counted (s.step a) ↔ Mild s a) := by
  have hinv : CountInv s :=
    Reachable.invariant CountInv .init (fun s a hs ha => hs.step ha.1 ha.2) h
  refine ⟨hinv.counted, fun a henabled => ⟨fun hcounted => ?_, fun hmild => ?_⟩⟩
  · by_contra hbad
    cases a with
    | raise x keyError => exact hinv.not_counted_raise henabled hcounted
    | leave x => exact hinv.not_counted_leave henabled hbad hcounted
    | abort x => exact hinv.not_counted_abort henabled hbad hcounted
    | enter | resume | released => exact hbad trivial
  · exact (hinv.step henabled hmild).counted

/-! ## §4 Two runs -/

/-- A `channel` that is not persistent, and one with another option. -/
def temporary : Request Nat := ⟨none, 5115, false, none, none⟩

def resized : Request Nat :=
  ⟨none, 5115, false, some (.set .empty "grpc.max_send_message_length" (some 1)), none⟩

/-- Of two contexts on one channel the first may leave, but not while the
second waits to open it with other options. -/
theorem counted_iff_temporary :
    Counted ((init.step (.enter temporary)).step (.enter temporary) |>.step (.leave 0)) ∧
      ¬ Counted ((init.step (.enter temporary)).step (.enter resized) |>.step (.leave 0)) := by
  have hreached (second : Request Nat) :
      Reachable step (fun (s : GRPCCoroutine Nat) a => Enabled s a ∧ Mild s a) init
        ((init.step (.enter temporary)).step (.enter second)) :=
    reachable_of_permitted .init [Action.enter temporary, .enter second]
      ⟨⟨trivial, trivial⟩, ⟨trivial, trivial⟩, trivial⟩
  refine ⟨((counted_iff (hreached temporary)).2 (.leave 0) ⟨_, rfl, _, rfl⟩).mpr ?_, fun h => ?_⟩
  · rintro ctx ch hctx hch - hlast
    cases hctx
    cases hch
    exact absurd hlast (by decide)
  · have hmild := ((counted_iff (hreached resized)).2 (.leave 0) ⟨_, rfl, _, rfl⟩).mp h
    exact hmild _ _ rfl rfl rfl (by decide) 1 ⟨_, rfl, rfl, rfl⟩

/-- An exception leaves the body: the connection is still there, and the
channel is not removed. -/
theorem raised_stays_connected :
    let s : GRPCCoroutine Nat := [.enter temporary, .raise 0 false].foldl step init
    s.objects.map (fun ch => ch.connections) = [1] ∧ s.inside 0 = 0 ∧
    s.channels.get? "localhost:5115" = some 0 ∧
    ¬ ∀ s : GRPCCoroutine Nat, Reached s → Counted s := by
  refine ⟨rfl, rfl, rfl, fun h => ?_⟩
  have hreached :
      Reached (([.enter temporary, .raise 0 false] : List (Action Nat)).foldl step init) :=
    reachable_of_permitted .init _ ⟨trivial, ⟨_, rfl, _, rfl⟩, trivial⟩
  cases ((h _ hreached).channels 0 _ rfl).connections

-- the first leaves while the second waits; the second removes the channel of the third
example : (([.enter temporary, .enter resized, .leave 0, .resume 1, .enter temporary, .leave 1,
    .leave 2] : List (Action Nat)).foldl step init).contexts.map (fun x => x.phase) =
      [.releasing, .releasing, .keyError] := rfl

end Iams.Aio.GRPCCoroutine
