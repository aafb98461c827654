/-
Iams.Aio.PoolSteps — what each step does to the channels.

`entered`, `resumed`, `left` and `raised` say once what the steps are. A
context that comes to its body has `Acquired` an instance, and then
`Starts`.

§1 what is asked for, §2 instances, §3 contexts, §4 into the body, §5 the
steps.

No `sorry`, no `axiom`, no `native_decide`.
-/
import Iams.Aio.Pool
import Iams.Lib.Table

namespace Iams.Aio.GRPCCoroutine

open Iams.Lib Pool

variable {ν : Type} {s s' : GRPCCoroutine ν}

/-! ## §1 What is asked for -/

/-- Only options are configured. -/
theorem configure_fst [DecidableEq ν] (ch : Channel ν) (r : Request ν) :
    ∃ options, (configure ch r).1 = { ch with options := options } :=
  ⟨_, rfl⟩

/-- Nothing is asked for that the channel does not have. -/
def Unchanged (ch : Channel ν) (r : Request ν) : Prop :=
  (r.persistent = true → ch.persistent = true) ∧ ∀ options, r.options = some options →
    ∀ e ∈ options.items, (ch.options.get? e.1).getD none = e.2

theorem mergeOptions_snd [DecidableEq ν] (options : Options ν) (items : List (String × Option ν)) :
    (mergeOptions options items).2 = false ↔
      ∀ e ∈ items, (options.get? e.1).getD none = e.2 := by
  induction items with
  | nil => exact ⟨fun _ _ he => absurd he List.not_mem_nil, fun _ => rfl⟩
  | cons e rest ih =>
    rw [List.forall_mem_cons, mergeOptions]
    split
    · next hne => exact iff_of_false Bool.noConfusion fun h => hne h.1
    · next heq =>
      rw [ih]
      exact ⟨fun h => ⟨not_not.mp heq, h⟩, fun h => h.2⟩

theorem configure_snd [DecidableEq ν] (ch : Channel ν) (r : Request ν) :
    (configure ch r).2 = false ↔ Unchanged ch r := by
  have hpersistent : (r.persistent && !ch.persistent) = false ↔
      (r.persistent = true → ch.persistent = true) := by
    cases r.persistent <;> cases ch.persistent <;> simp
  unfold configure Unchanged
  cases hoptions : r.options with
  | none =>
    dsimp only
    rw [Bool.or_false, hpersistent]
    exact ⟨fun h => ⟨h, fun _ ho => by cases ho⟩, fun h => h.1⟩
  | some options =>
    dsimp only
    rw [Bool.or_eq_false_iff, hpersistent, mergeOptions_snd]
    exact ⟨fun h => ⟨h.1, fun _ ho => Option.some.inj ho ▸ h.2⟩, fun h => ⟨h.1, h.2 options rfl⟩⟩

/-! ## §2 Instances -/

/-- An instance that was made for an object. -/
def OwnedBy (s : GRPCCoroutine ν) (c i : Nat) : Prop :=
  ∃ t, s.instances[i]? = some t ∧ t.channel = c

/-- The channel has an open instance. -/
def HasOpen (s : GRPCCoroutine ν) (ch : Channel ν) : Prop :=
  ∃ i, ch.inst = some i ∧ s.isOpen i = true

theorem OwnedBy.concat {c i : Nat} (h : s.OwnedBy c i) {t : Instance ν}
    (hinstances : s'.instances = s.instances ++ [t]) : s'.OwnedBy c i := by
  obtain ⟨u, hu, hchannel⟩ := h
  refine ⟨u, ?_, hchannel⟩
  rw [hinstances, List.getElem?_append_left (List.getElem?_eq_some_iff.mp hu).1]
  exact hu

theorem OwnedBy.modify {c i j : Nat} (h : s.OwnedBy c i)
    (hinstances : s'.instances = s.instances.modify j fun t => { t with closed := true }) :
    s'.OwnedBy c i := by
  obtain ⟨u, hu, hchannel⟩ := h
  rw [OwnedBy, hinstances, List.getElem?_modify, hu]
  by_cases hji : j = i
  · exact ⟨{ u with closed := true }, by simp [hji], hchannel⟩
  · exact ⟨u, by simp [hji], hchannel⟩

theorem OwnedBy.lt {c i : Nat} (h : s.OwnedBy c i) : i < s.instances.length := by
  obtain ⟨t, ht, -⟩ := h
  exact (List.getElem?_eq_some_iff.mp ht).1

/-- One owner only. -/
theorem OwnedBy.unique {c d i : Nat} (hc : s.OwnedBy c i) (hd : s.OwnedBy d i) : c = d := by
  obtain ⟨t, ht, rfl⟩ := hc
  obtain ⟨u, hu, rfl⟩ := hd
  cases ht.symm.trans hu
  rfl

theorem isOpen_close (i j : Nat) :
    (s.close i).isOpen j = true ↔ s.isOpen j = true ∧ i ≠ j := by
  unfold isOpen close
  rw [List.getElem?_modify]
  cases s.instances[j]? with
  | none => simp
  | some t => by_cases hij : i = j <;> simp [hij]

theorem not_hasOpen_close {ch : Channel ν} {i : Nat} (hinst : ch.inst = some i) :
    ¬ (s.close i).HasOpen ch := by
  rintro ⟨j, hj, hopen⟩
  cases hinst.symm.trans hj
  exact ((isOpen_close i i).mp hopen).2 rfl

/-- An instance with another owner is not closed. -/
theorem isOpen_close_of_owned {c d i j : Nat} (hi : s.OwnedBy c i) (hj : s.OwnedBy d j)
    (hne : c ≠ d) : (s.close i).isOpen j = true ↔ s.isOpen j = true := by
  refine (isOpen_close i j).trans (and_iff_left ?_)
  rintro rfl
  exact hne (hi.unique hj)

theorem lt_of_isOpen {i : Nat} (h : s.isOpen i = true) : i < s.instances.length := by
  unfold isOpen at h
  split at h
  · next u hu => exact (List.getElem?_eq_some_iff.mp hu).1
  · cases h

theorem isOpen_concat {t : Instance ν} (hinstances : s'.instances = s.instances ++ [t]) {i : Nat}
    (hi : i < s.instances.length) : s'.isOpen i = s.isOpen i := by
  rw [isOpen, hinstances, List.getElem?_append_left hi]
  rfl

theorem isOpen_congr (hinstances : s'.instances = s.instances) (i : Nat) :
    s'.isOpen i = s.isOpen i := by
  rw [isOpen, hinstances]
  rfl

/-! ## §3 Contexts -/

/-- The number of contexts inside an object. -/
def inside (s : GRPCCoroutine ν) (c : Nat) : Nat :=
  s.contexts.countP fun x => x.phase.isInside && x.channel = c

theorem isInside_of_phase {phase : Phase} (h : ∃ body, phase = .inside body) :
    phase.isInside = true := by
  obtain ⟨body, rfl⟩ := h
  rfl

theorem ne_inside {phase : Phase} (h : phase.isInside = false) (body : Body) :
    phase ≠ .inside body := by
  rintro rfl
  cases h

/-- A context that is added. -/
theorem inside_concat {x : Context} (hcontexts : s'.contexts = s.contexts ++ [x]) (c : Nat) :
    s'.inside c = s.inside c + (x.phase.isInside && x.channel = c).toNat := by
  rw [inside, hcontexts, List.countP_append, List.countP_singleton]
  cases x.phase.isInside && x.channel = c <;> rfl

theorem inside_concat_out {x : Context} (hout : x.phase.isInside = false)
    (hcontexts : s'.contexts = s.contexts ++ [x]) (c : Nat) : s'.inside c = s.inside c := by
  rw [inside_concat hcontexts, hout]
  rfl

theorem inside_congr (hcontexts : s'.contexts = s.contexts) (c : Nat) :
    s'.inside c = s.inside c := by
  rw [inside, hcontexts]
  rfl

/-- A context that goes on. -/
theorem inside_setPhase {x : Nat} {ctx : Context} (hx : s.contexts[x]? = some ctx) (phase : Phase)
    (c : Nat) :
    (s.setPhase x phase).inside c + (ctx.phase.isInside && ctx.channel = c).toNat =
      s.inside c + (phase.isInside && ctx.channel = c).toNat :=
  countP_modify _ hx

/-- A context that is not in its body after that. -/
theorem inside_setPhase_out {x : Nat} {ctx : Context} (hx : s.contexts[x]? = some ctx)
    (phase : Phase) (hphase : phase.isInside = false) (c : Nat) :
    (s.setPhase x phase).inside c + (ctx.phase.isInside && ctx.channel = c).toNat = s.inside c := by
  have hinside := inside_setPhase hx phase c
  rw [hphase] at hinside
  exact hinside

/-- A context waits in `_channel` until the instance is closed. -/
def Waits (s : GRPCCoroutine ν) (c y : Nat) : Prop :=
  ∃ ctx, s.contexts[y]? = some ctx ∧ ctx.channel = c ∧ ctx.phase = .acquiring

/-- A context in its body does not wait. -/
theorem ne_of_waits {x c y : Nat} {ctx : Context} (hx : s.contexts[x]? = some ctx)
    (hinside : ctx.phase.isInside = true) (hy : s.Waits c y) : x ≠ y := by
  rintro rfl
  obtain ⟨ctx', hx', -, hphase⟩ := hy
  cases hx.symm.trans hx'
  rw [hphase] at hinside
  cases hinside

theorem waits_congr (hcontexts : s'.contexts = s.contexts) (c y : Nat) :
    s'.Waits c y ↔ s.Waits c y := by
  rw [Waits, hcontexts]
  rfl

theorem waits_concat {x : Context} (hcontexts : s'.contexts = s.contexts ++ [x]) {c y : Nat} :
    s'.Waits c y ↔
      s.Waits c y ∨ y = s.contexts.length ∧ x.channel = c ∧ x.phase = .acquiring := by
  unfold Waits
  rw [hcontexts]
  constructor
  · rintro ⟨ctx, hctx, hwaits⟩
    rcases getElem?_concat_cases hctx with hctx | ⟨rfl, rfl⟩
    · exact .inl ⟨ctx, hctx, hwaits⟩
    · exact .inr ⟨rfl, hwaits⟩
  · rintro (⟨ctx, hctx, hwaits⟩ | ⟨rfl, hwaits⟩)
    · have hlt := (List.getElem?_eq_some_iff.mp hctx).1
      exact ⟨ctx, by rw [List.getElem?_append_left hlt]; exact hctx, hwaits⟩
    · exact ⟨x, List.getElem?_concat_length, hwaits⟩

/-- A context that goes on does not wait. -/
theorem waits_setPhase (x : Nat) (phase : Phase) (hphase : phase ≠ .acquiring) {c y : Nat} :
    (s.setPhase x phase).Waits c y ↔ x ≠ y ∧ s.Waits c y := by
  constructor
  · rintro ⟨ctx, hctx, hchannel, hwaits⟩
    obtain ⟨ctx', hctx', ⟨-, rfl⟩ | ⟨hne, rfl⟩⟩ := getElem?_modify_cases hctx
    · exact absurd hwaits hphase
    · exact ⟨hne, ctx, hctx', hchannel, hwaits⟩
  · rintro ⟨hne, ctx, hctx, hwaits⟩
    exact ⟨ctx, (List.getElem?_modify_ne _ _ hne).trans hctx, hwaits⟩

/-! ## §4 Into the body -/

/-- What happens between `_channel` and the body: there is an instance, one
more connection, and the stub. -/
structure Acquired (s : GRPCCoroutine ν) (c : Nat) (ch : Channel ν) (stub : Option String)
    (s' : GRPCCoroutine ν) (body : Body) (ch' : Channel ν) : Prop where
  contexts : s'.contexts = s.contexts
  channels : s'.channels = s.channels
  objects : s'.objects = s.objects.set c ch'
  instances : ch.inst = some body.current ∧ s'.instances = s.instances ∨
    ch.inst = none ∧ body.current = s.instances.length ∧
      s'.instances = s.instances ++ [{ channel := c, options := ch.options }]
  key : ch'.key = ch.key
  persistent : ch'.persistent = ch.persistent
  connections : ch'.connections = ch.connections + 1
  inst : ch'.inst = some body.current
  stubs : ∀ cls j, ch'.stubs.get? cls = some j → ch.stubs.get? cls = some j ∨ j = body.current
  stub : body.stub = stub.map fun cls => (ch.stubs.get? cls).getD body.current
  wasOpen : body.wasOpen = s'.isOpen body.current

theorem yieldStub_spec (ch : Channel ν) (i : Nat) (stub : Option String) :
    ∃ stubs, (yieldStub ch i stub).1 = { ch with stubs := stubs } ∧
      (∀ cls j, stubs.get? cls = some j → ch.stubs.get? cls = some j ∨ j = i) ∧
      (yieldStub ch i stub).2 = stub.map fun cls => (ch.stubs.get? cls).getD i := by
  unfold yieldStub
  cases stub with
  | none => exact ⟨ch.stubs, rfl, fun _ _ h => .inl h, rfl⟩
  | some cls =>
    dsimp only
    cases hcls : ch.stubs.get? cls with
    | some j => exact ⟨ch.stubs, rfl, fun _ _ h => .inl h, by simp [hcls]⟩
    | none =>
      refine ⟨ch.stubs.set cls i, rfl, fun cls' j hj => ?_, by simp [hcls]⟩
      rw [Dict.get?_set] at hj
      split at hj
      · cases hj
        exact .inr rfl
      · exact .inl hj

theorem acquired (s : GRPCCoroutine ν) (c : Nat) (ch : Channel ν) (stub : Option String) :
    ∃ ch', Acquired s c ch stub (s.acquire c ch stub).1 (s.acquire c ch stub).2 ch' := by
  unfold acquire ensureInstance
  cases hinst : ch.inst with
  | some i =>
    obtain ⟨stubs, heq, hstubs, hstub⟩ :=
      yieldStub_spec { ch with connections := ch.connections + 1 } i stub
    dsimp only
    rw [heq]
    exact ⟨_, rfl, rfl, rfl, .inl ⟨hinst, rfl⟩, rfl, rfl, rfl, hinst, hstubs, hstub, rfl⟩
  | none =>
    obtain ⟨stubs, heq, hstubs, hstub⟩ := yieldStub_spec
      { ch with inst := some s.instances.length, connections := ch.connections + 1 }
      s.instances.length stub
    dsimp only
    rw [heq]
    exact ⟨_, rfl, rfl, rfl, .inr ⟨hinst, rfl, rfl⟩, rfl, rfl, rfl, rfl, hstubs, hstub, rfl⟩

section Acquired

variable {c : Nat} {ch ch' : Channel ν} {stub : Option String} {body : Body}

theorem Acquired.owned (h : Acquired s c ch stub s' body ch') {d i : Nat} (hi : s.OwnedBy d i) :
    s'.OwnedBy d i := by
  rcases h.instances with ⟨-, heq⟩ | ⟨-, -, heq⟩
  · obtain ⟨t, ht, hchannel⟩ := hi
    exact ⟨t, by rw [heq]; exact ht, hchannel⟩
  · exact hi.concat heq

theorem Acquired.current (h : Acquired s c ch stub s' body ch')
    (hinst : ∀ i, ch.inst = some i → s.OwnedBy c i) : s'.OwnedBy c body.current := by
  rcases h.instances with ⟨hsome, -⟩ | ⟨-, hcurrent, heq⟩
  · exact h.owned (hinst _ hsome)
  · refine ⟨{ channel := c, options := ch.options }, ?_, rfl⟩
    rw [heq, hcurrent]
    exact List.getElem?_concat_length

theorem Acquired.isOpen (h : Acquired s c ch stub s' body ch') {i : Nat}
    (hi : i < s.instances.length) : s'.isOpen i = s.isOpen i := by
  rcases h.instances with ⟨-, heq⟩ | ⟨-, -, heq⟩
  · exact isOpen_congr heq i
  · exact isOpen_concat heq hi

/-- A new instance is open. -/
theorem Acquired.isOpen_current (h : Acquired s c ch stub s' body ch') (hinst : ch.inst = none) :
    body.current = s.instances.length ∧ s'.isOpen body.current = true := by
  rcases h.instances with ⟨hsome, -⟩ | ⟨-, hcurrent, heq⟩
  · rw [hinst] at hsome
    cases hsome
  · refine ⟨hcurrent, ?_⟩
    rw [GRPCCoroutine.isOpen, heq, hcurrent, List.getElem?_concat_length]
    rfl

/-- A channel that has an instance keeps it. -/
theorem Acquired.kept (h : Acquired s c ch stub s' body ch') (hinst : ch.inst ≠ none) :
    ch.inst = some body.current ∧ s'.instances = s.instances := by
  rcases h.instances with hkept | ⟨hnone, -⟩
  · exact hkept
  · exact absurd hnone hinst

theorem Acquired.inst_ne_none (h : Acquired s c ch stub s' body ch') : ch'.inst ≠ none := by
  rw [h.inst]
  exact Option.some_ne_none _

end Acquired

/-- A context has come to its body: it was added there, or it was on its
way. -/
structure Starts (s s' : GRPCCoroutine ν) (x : Context) : Prop where
  objects : s'.objects = s.objects
  channels : s'.channels = s.channels
  instances : s'.instances = s.instances
  contexts : ∀ y ∈ s'.contexts, y ∈ s.contexts ∨ y = x
  inside : ∀ c, s'.inside c = s.inside c + (decide (x.channel = c)).toNat
  waits : ∀ c, x.channel ≠ c → ∀ y, s'.Waits c y ↔ s.Waits c y

theorem starts_concat {x : Context} (hinside : x.phase.isInside = true) :
    Starts s { s with contexts := s.contexts ++ [x] } x := by
  refine ⟨rfl, rfl, rfl, fun y hy => ?_, fun c => ?_, fun c hne y => ?_⟩
  · rcases List.mem_append.mp hy with hy | hy
    · exact .inl hy
    · exact .inr (List.mem_singleton.mp hy)
  · rw [inside_concat (s := s) rfl, hinside, Bool.true_and]
  · rw [waits_concat (s := s) rfl]
    exact or_iff_left fun hnew => hne hnew.2.1

theorem starts_setPhase {x : Nat} {ctx : Context} (hx : s.contexts[x]? = some ctx)
    (hout : ctx.phase.isInside = false) (body : Body) :
    Starts s (s.setPhase x (.inside body)) { ctx with phase := .inside body } := by
  refine ⟨rfl, rfl, rfl, fun y hy => ?_, fun c => ?_, fun c hne y => ?_⟩
  · rcases mem_modify_cases hy with hy | ⟨ctx', hctx', rfl⟩
    · exact .inl hy
    · cases hx.symm.trans hctx'
      exact .inr rfl
  · have hinside := inside_setPhase hx (.inside body) c
    rw [hout] at hinside
    exact hinside
  · rw [waits_setPhase x (.inside body) (by simp)]
    refine and_iff_right_of_imp ?_
    rintro ⟨ctx', hctx', hchannel, -⟩ rfl
    cases hx.symm.trans hctx'
    exact hne hchannel

/-! ## §5 The steps -/

/-- Between steps every channel has an instance. -/
def Ready (s : GRPCCoroutine ν) : Prop := ∀ (c : Nat) ch, s.objects[c]? = some ch → ch.inst ≠ none

/-- A new channel is put into the pool. -/
def insert (s : GRPCCoroutine ν) (key : String) (persistent : Bool) : GRPCCoroutine ν :=
  { s with
    objects := s.objects ++ [{ key, persistent }]
    channels := s.channels.set key s.objects.length }

theorem lookup_of_none {key : String} {persistent : Bool} (h : s.channels.get? key = none) :
    s.lookup key persistent = (s.insert key persistent, s.objects.length) := by
  unfold lookup
  rw [h]
  rfl

theorem lookup_of_some {key : String} {persistent : Bool} {c : Nat}
    (h : s.channels.get? key = some c) : s.lookup key persistent = (s, c) := by
  unfold lookup
  rw [h]

section Entering

variable [DecidableEq ν] {r : Request ν}

/-- How a context is entered. -/
inductive Entered (s : GRPCCoroutine ν) (r : Request ν) : GRPCCoroutine ν → Prop where
  /-- The channel is new. -/
  | fresh {s' : GRPCCoroutine ν} {body : Body} {ch' : Channel ν}
      (hpool : s.channels.get? (s.keyOf r) = none)
      (hacq : Acquired (s.insert (s.keyOf r) r.persistent) s.objects.length
        (configure { key := s.keyOf r, persistent := r.persistent } r).1 r.stub s' body ch') :
      Entered s r { s' with
        contexts := s'.contexts ++ [⟨s.keyOf r, s.objects.length, r.stub, .inside body⟩] }
  /-- The channel is used as it is. -/
  | kept {c : Nat} {ch : Channel ν} {s' : GRPCCoroutine ν} {body : Body} {ch' : Channel ν}
      (hpool : s.channels.get? (s.keyOf r) = some c) (hch : s.objects[c]? = some ch)
      (hsame : (configure ch r).2 = false)
      (hacq : Acquired s c (configure ch r).1 r.stub s' body ch') :
      Entered s r { s' with contexts := s'.contexts ++ [⟨s.keyOf r, c, r.stub, .inside body⟩] }
  /-- The instance of the channel is closed, to be replaced. -/
  | recreated {c : Nat} {ch : Channel ν} {i : Nat}
      (hpool : s.channels.get? (s.keyOf r) = some c) (hch : s.objects[c]? = some ch)
      (hchanged : (configure ch r).2 = true) (hinst : ch.inst = some i) :
      Entered s r { s.close i with
        objects := s.objects.set c (configure ch r).1
        contexts := s.contexts ++ [⟨s.keyOf r, c, r.stub, .acquiring⟩] }

theorem enterChannel_kept {key : String} {c : Nat} {ch : Channel ν}
    (h : (configure ch r).2 = false ∨ ch.inst = none) :
    s.enterChannel key c ch r = { (s.acquire c (configure ch r).1 r.stub).1 with
      contexts := (s.acquire c (configure ch r).1 r.stub).1.contexts ++
        [⟨key, c, r.stub, .inside (s.acquire c (configure ch r).1 r.stub).2⟩] } := by
  unfold enterChannel
  dsimp only
  split
  · next i hchanged hinst =>
    rcases h with h | h
    · rw [h] at hchanged
      cases hchanged
    · rw [h] at hinst
      cases hinst
  · rfl

theorem enterChannel_recreated {key : String} {c : Nat} {ch : Channel ν} {i : Nat}
    (hchanged : (configure ch r).2 = true) (hinst : ch.inst = some i) :
    s.enterChannel key c ch r = { s.close i with
      objects := s.objects.set c (configure ch r).1
      contexts := s.contexts ++ [⟨key, c, r.stub, .acquiring⟩] } := by
  unfold enterChannel
  dsimp only
  rw [hchanged, hinst]

theorem entered (hpooled : ∀ key c, s.channels.get? key = some c →
    ∃ ch, s.objects[c]? = some ch ∧ ch.key = key) (hready : Ready s) (r : Request ν) :
    Entered s r (s.enter r) := by
  unfold enter
  dsimp only
  cases hpool : s.channels.get? (s.keyOf r) with
  | none =>
    have hnew : (s.insert (s.keyOf r) r.persistent).objects[s.objects.length]? =
        some { key := s.keyOf r, persistent := r.persistent } :=
      List.getElem?_concat_length
    obtain ⟨ch', hacq⟩ := acquired (s.insert (s.keyOf r) r.persistent) s.objects.length
      (configure { key := s.keyOf r, persistent := r.persistent } r).1 r.stub
    rw [lookup_of_none hpool]
    dsimp only
    rw [hnew]
    dsimp only
    rw [enterChannel_kept (.inr rfl)]
    exact .fresh hpool hacq
  | some c =>
    obtain ⟨ch, hch, -⟩ := hpooled _ c hpool
    rw [lookup_of_some hpool]
    dsimp only
    rw [hch]
    dsimp only
    cases hchanged : (configure ch r).2 with
    | false =>
      obtain ⟨ch', hacq⟩ := acquired s c (configure ch r).1 r.stub
      rw [enterChannel_kept (.inl hchanged)]
      exact .kept hpool hch hchanged hacq
    | true =>
      obtain ⟨i, hinst⟩ := Option.ne_none_iff_exists'.mp (hready c ch hch)
      rw [enterChannel_recreated hchanged hinst]
      exact .recreated hpool hch hchanged hinst

end Entering

section Contexts

variable {x : Nat} {ctx : Context} {ch : Channel ν}

theorem resumed (hx : s.contexts[x]? = some ctx) (hch : s.objects[ctx.channel]? = some ch) :
    ∃ s' body ch', Acquired s ctx.channel { ch with inst := none } ctx.stub s' body ch' ∧
      s.resume x = s'.setPhase x (.inside body) := by
  obtain ⟨ch', hacq⟩ := acquired s ctx.channel { ch with inst := none } ctx.stub
  refine ⟨_, _, ch', hacq, ?_⟩
  unfold GRPCCoroutine.resume
  rw [hx]
  dsimp only
  rw [hch]

/-- How a body ends by itself. -/
inductive Left (s : GRPCCoroutine ν) (x : Nat) (ctx : Context) (ch : Channel ν) :
    GRPCCoroutine ν → Prop where
  /-- The channel is persistent, or there are other connections. -/
  | stays (h : ¬(ch.persistent = false ∧ ch.connections - 1 ≤ 0)) :
      Left s x ctx ch { s.setPhase x .left with
        objects := s.objects.set ctx.channel { ch with connections := ch.connections - 1 } }
  /-- There is nothing to remove from the pool. -/
  | missing (h : ch.persistent = false ∧ ch.connections - 1 ≤ 0)
      (hpool : s.channels.get? ch.key = none) :
      Left s x ctx ch { s.setPhase x .keyError with
        objects := s.objects.set ctx.channel { ch with connections := ch.connections - 1 } }
  /-- The channel is removed from the pool, and its instance is closed. -/
  | closed {c i : Nat} (h : ch.persistent = false ∧ ch.connections - 1 ≤ 0)
      (hpool : s.channels.get? ch.key = some c) (hinst : ch.inst = some i) :
      Left s x ctx ch { (s.setPhase x .releasing).close i with
        objects := s.objects.set ctx.channel { ch with connections := ch.connections - 1 }
        channels := s.channels.erase ch.key }

theorem left (hready : Ready s) (hx : s.contexts[x]? = some ctx)
    (hch : s.objects[ctx.channel]? = some ch) : Left s x ctx ch (s.leave x) := by
  unfold GRPCCoroutine.leave
  rw [hx]
  dsimp only
  rw [hch]
  dsimp only
  split
  · next hlast =>
    split
    · next hpool => exact .missing hlast hpool
    · next hinst => exact absurd hinst (hready _ ch hch)
    · next hpool hinst => exact .closed hlast hpool hinst
  · next hmore => exact .stays hmore

theorem rebuildStub_spec (ch : Channel ν) (cls : String) :
    ∃ stubs, rebuildStub ch cls = { ch with stubs := stubs } ∧
      ∀ cls' j, stubs.get? cls' = some j → ch.stubs.get? cls' = some j ∨ ch.inst = some j := by
  unfold rebuildStub
  split
  · next i hinst =>
    refine ⟨_, rfl, fun cls' j hj => ?_⟩
    rw [Dict.get?_set] at hj
    split at hj
    · cases hj
      exact .inr hinst
    · exact .inl hj
  · exact ⟨ch.stubs, rfl, fun _ _ hj => .inl hj⟩

/-- How an exception leaves the body. -/
theorem raised (keyError : Bool) (hx : s.contexts[x]? = some ctx)
    (hch : s.objects[ctx.channel]? = some ch) :
    ∃ stubs, (∀ cls j, stubs.get? cls = some j → ch.stubs.get? cls = some j ∨ ch.inst = some j) ∧
      s.raise x keyError = { s.setPhase x .left with
        objects := s.objects.set ctx.channel { ch with stubs := stubs } } := by
  unfold GRPCCoroutine.raise
  rw [hx]
  dsimp only
  split
  · next cls ch' _ _ hch' =>
    cases hch.symm.trans hch'
    obtain ⟨stubs, heq, hstubs⟩ := rebuildStub_spec ch cls
    exact ⟨stubs, hstubs, by rw [heq]; rfl⟩
  · refine ⟨ch.stubs, fun _ _ hj => .inl hj, ?_⟩
    obtain ⟨hlt, hget⟩ := List.getElem?_eq_some_iff.mp hch
    have hsame : s.objects.set ctx.channel { ch with stubs := ch.stubs } = s.objects := by
      rw [← hget]
      exact List.set_getElem_self hlt
    rw [hsame]
    rfl

end Contexts

end Iams.Aio.GRPCCoroutine
