/-
Iams.Runtime.ConfigSteps — the configs of the agents, step by step.

`Filed` is what the runtime keeps of the configs in docker, whatever fails:
a config is named after its agent and its content, and an agent has no two
of a name. `ConfigsApart` leaves the configs of the other agents as they are. §1
has the steps that do not touch configs, §2 a config that is created, §3 the
ones that are removed, and §4 `set_config`.

No `sorry`, no `axiom`, no `native_decide`.
-/
import Iams.Lib.Triple
import Iams.Runtime.DeleteTheorems
import Iams.Runtime.SecretSteps

namespace Iams.Runtime

open Iams.Lib Iams.Lib.Procedure
open Iams.Servicer (AgentData Bytes)

/-! ## §1 Steps that keep the configs -/

/-- The configs are as before, and no id is given twice. -/
structure SameConfigs (c c' : Cluster) : Prop where
  configs : c'.configs = c.configs
  nextId : c.nextId ≤ c'.nextId

theorem frame_sameConfigs : RequestFrame SameConfigs :=
  ⟨⟨fun _ => ⟨rfl, Nat.le_refl _⟩, fun h₁ h₂ =>
    ⟨h₂.configs.trans h₁.configs, Nat.le_trans h₁.nextId h₂.nextId⟩⟩,
    fun _ _ => ⟨rfl, Nat.le_refl _⟩⟩

namespace Docker

variable (docker : Docker)

theorem sameConfigs_createSecret (name : String) (data : Bytes) (labels : Dict String String) :
    Keeps SameConfigs (docker.createSecret name data labels) := by
  refine frame_sameConfigs.keeps_request_bind docker _
    (frame_sameConfigs.keeps_bind frame_sameConfigs.keeps_get fun cluster => ?_)
  refine frame_sameConfigs.keeps_bind (fun c => ⟨rfl, Nat.le_succ c.nextId⟩) fun _ => ?_
  exact frame_sameConfigs.keeps_request_bind docker _ fun _ => ⟨rfl, Nat.le_refl _⟩

theorem sameConfigs_removeSecret (id : Nat) : Keeps SameConfigs (docker.removeSecret id) :=
  frame_sameConfigs.keeps_request_bind docker _ fun _ => ⟨rfl, Nat.le_refl _⟩

theorem sameConfigs_removeService (id : Nat) : Keeps SameConfigs (docker.removeService id) :=
  frame_sameConfigs.keeps_request_bind docker _ fun _ => ⟨rfl, Nat.le_refl _⟩

theorem sameConfigs_createService (spec : ServiceSpec) :
    Keeps SameConfigs (docker.createService spec) :=
  frame_sameConfigs.keeps_request_bind docker _ fun c => ⟨rfl, Nat.le_succ c.nextId⟩

theorem sameConfigs_updateService (id : Nat) (spec : ServiceSpec) :
    Keeps SameConfigs (docker.updateService id spec) :=
  frame_sameConfigs.keeps_request_bind docker _ fun _ => ⟨rfl, Nat.le_refl _⟩

end Docker

namespace DockerSwarmRuntime

variable (rt : DockerSwarmRuntime)

theorem sameConfigs_setSecrets (name : String) (secrets : List Generated) :
    Keeps SameConfigs (rt.setSecrets name secrets) := by
  induction secrets with
  | nil => exact frame_sameConfigs.keeps_pure _
  | cons secret rest ih =>
    refine frame_sameConfigs.keeps_bind (frame_sameConfigs.keeps_bind
      (frame_sameConfigs.keeps_read rt.docker _ _) fun secrets => ?_) fun _ =>
        frame_sameConfigs.keeps_bind ih fun _ => frame_sameConfigs.keeps_pure _
    dsimp only
    split
    · exact frame_sameConfigs.keeps_pure _
    · exact frame_sameConfigs.keeps_bind (rt.docker.sameConfigs_createSecret _ _ _) fun _ =>
        frame_sameConfigs.keeps_pure _

theorem sameConfigs_deleteAgentSecrets (name : String) :
    Keeps SameConfigs (rt.deleteAgentSecrets name) :=
  frame_sameConfigs.keeps_bind (frame_sameConfigs.keeps_read rt.docker _ _) fun _ =>
    frame_sameConfigs.keeps_forM fun _ => rt.docker.sameConfigs_removeSecret _

theorem sameConfigs_scaleAgent (replicas : Nat) (name : String) :
    Keeps SameConfigs (rt.scaleAgent replicas name) := by
  refine frame_sameConfigs.keeps_bind (frame_sameConfigs.keeps_getService rt name) fun _ => ?_
  refine frame_sameConfigs.keeps_bind (frame_sameConfigs.keeps_liftExcept _) fun _ => ?_
  refine frame_sameConfigs.keeps_bind (frame_sameConfigs.keeps_liftExcept _) fun _ => ?_
  split
  · exact rt.docker.sameConfigs_updateService _ _
  · exact frame_sameConfigs.keeps_pure _

/-! ## §2 The configs that are kept -/

variable {rt}

instance (agent : String) (labels : Dict String String) : Decidable (rt.OfAgent agent labels) :=
  inferInstanceAs (Decidable (_ = true))

variable (rt) in
def configsOf (agent : String) (configs : List Blob) : List Blob :=
  configs.filter fun b => rt.OfAgent agent b.labels

variable (rt) in
/-- The name in docker. -/
def configName (agent : String) (data : Bytes) : String := agent ++ "_" ++ rt.md5 data

variable (rt) in
/-- A config is named after its agent and its content, and an agent has no
two of a name. -/
structure Filed (configs : List Blob) (nextId : Nat) : Prop where
  ids : (configs.map Blob.id).Nodup
  fresh : ∀ b ∈ configs, b.id < nextId
  named : ∀ agent, ∀ b ∈ configs, rt.OfAgent agent b.labels →
    b.name = rt.configName agent b.data ∧ b.data ≠ []
  unique : ∀ agent, ∀ b ∈ configs, ∀ b' ∈ configs, rt.OfAgent agent b.labels →
    rt.OfAgent agent b'.labels → b.name = b'.name → b = b'

variable (rt) in
/-- The configs of the other agents are as before. -/
def ConfigsApart (agent : String) (configs configs' : List Blob) : Prop :=
  ∀ other, other ≠ agent → rt.configsOf other configs' = rt.configsOf other configs

variable {agent : String} {configs configs₀ : List Blob} {nextId : Nat}

theorem filed_nil : rt.Filed [] nextId := ⟨List.nodup_nil, nofun, nofun, nofun⟩

theorem mem_configsOf {b : Blob} :
    b ∈ rt.configsOf agent configs ↔ b ∈ configs ∧ rt.OfAgent agent b.labels := by
  rw [configsOf, List.mem_filter, decide_eq_true_eq]

/-- A config belongs to one agent. -/
theorem OfAgent.agent_eq {agent' : String} {labels : Dict String String}
    (h : rt.OfAgent agent labels) (h' : rt.OfAgent agent' labels) : agent = agent' := by
  have hget {a : String} (ha : rt.OfAgent a labels) : labels.get? "iams.agent" = some a := by
    simpa [labelled] using (labelled_append.mp ha).2
  exact Option.some.inj ((hget h).symm.trans (hget h'))

theorem ofAgent_update (rt : DockerSwarmRuntime) (agent : String) :
    rt.OfAgent agent (Dict.empty.update (rt.agentLabels agent)) := by
  refine labelled_update ?_
  show ["com.docker.stack.namespace", "iams.namespace", "iams.agent"].Nodup
  decide

/-- A new config of an agent that has none of this name. -/
theorem Filed.add (h : rt.Filed configs nextId) {b : Blob} (hid : b.id = nextId)
    (hagent : rt.OfAgent agent b.labels) (hname : b.name = rt.configName agent b.data)
    (hdata : b.data ≠ []) (hnew : ∀ b' ∈ configs, rt.OfAgent agent b'.labels → b'.name ≠ b.name) :
    rt.Filed (configs ++ [b]) (nextId + 1) := by
  refine ⟨?_, fun x hx => ?_, fun a x hx ha => ?_, fun a x hx y hy hax hay hxy => ?_⟩
  · rw [List.map_append, List.nodup_append]
    refine ⟨h.ids, List.nodup_singleton _, ?_⟩
    rintro i hi j hj rfl
    obtain ⟨x, hx, rfl⟩ := List.mem_map.mp hi
    have hlt := h.fresh x hx
    rw [List.mem_singleton.mp hj, hid] at hlt
    exact Nat.lt_irrefl _ hlt
  · rcases List.mem_append.mp hx with hx | hx
    · exact Nat.lt_succ_of_lt (h.fresh x hx)
    · rw [List.mem_singleton.mp hx, hid]
      exact Nat.lt_succ_self _
  · rcases List.mem_append.mp hx with hx | hx
    · exact h.named a x hx ha
    · obtain rfl := List.mem_singleton.mp hx
      exact ha.agent_eq hagent ▸ ⟨hname, hdata⟩
  · rcases List.mem_append.mp hx with hx | hx <;> rcases List.mem_append.mp hy with hy | hy
    · exact h.unique a x hx y hy hax hay hxy
    · rw [List.mem_singleton.mp hy] at hay hxy
      exact absurd hxy (hnew x hx (hay.agent_eq hagent ▸ hax))
    · rw [List.mem_singleton.mp hx] at hax hxy
      exact absurd hxy.symm (hnew y hy (hax.agent_eq hagent ▸ hay))
    · rw [List.mem_singleton.mp hx, List.mem_singleton.mp hy]

theorem Filed.remove (h : rt.Filed configs nextId) (p : Blob → Bool) :
    rt.Filed (configs.filter p) nextId :=
  ⟨h.ids.sublist (List.filter_sublist.map _), fun b hb => h.fresh b (List.mem_of_mem_filter hb),
    fun a b hb => h.named a b (List.mem_of_mem_filter hb),
    fun a b hb b' hb' => h.unique a b (List.mem_of_mem_filter hb) b' (List.mem_of_mem_filter hb')⟩

theorem ConfigsApart.add (h : rt.ConfigsApart agent configs₀ configs) {b : Blob}
    (hagent : rt.OfAgent agent b.labels) :
    rt.ConfigsApart agent configs₀ (configs ++ [b]) := by
  intro other hother
  have hnot : ¬ rt.OfAgent other b.labels := fun ho => hother (ho.agent_eq hagent)
  rw [configsOf, List.filter_append, List.filter_cons_of_neg (by simpa using hnot), List.filter_nil,
    List.append_nil]
  exact h other hother

theorem ConfigsApart.remove (h : rt.ConfigsApart agent configs₀ configs) {p : Blob → Bool}
    (hp : ∀ b ∈ configs, p b = false → rt.OfAgent agent b.labels) :
    rt.ConfigsApart agent configs₀ (configs.filter p) := by
  intro other hother
  rw [← h other hother, configsOf, List.filter_filter]
  refine List.filter_congr fun b hb => ?_
  cases hpb : p b with
  | true => rw [Bool.and_true]
  | false =>
    have hnot : ¬ rt.OfAgent other b.labels := fun ho => hother (ho.agent_eq (hp b hb hpb))
    rw [Bool.and_false, decide_eq_false hnot]

/-! ## §3 Listing, creating and removing -/

variable (rt) in
/-- The configs are filed, and `R` holds of them. -/
def Files (R : List Blob → Prop) (c : Cluster) : Prop :=
  rt.Filed c.configs c.nextId ∧ R c.configs

variable {R R' : List Blob → Prop}

theorem Files.imp {c : Cluster} (h : rt.Files R c) (hR : ∀ configs, R configs → R' configs) :
    rt.Files R' c :=
  ⟨h.1, hR _ h.2⟩

theorem Files.same {c c' : Cluster} (h : rt.Files R c) (hsame : SameConfigs c c') :
    rt.Files R c' := by
  obtain ⟨hids, hfresh, hnamed, hunique⟩ := h.1
  rw [Files, hsame.configs]
  exact ⟨⟨hids, fun b hb => Nat.lt_of_lt_of_le (hfresh b hb) hsame.nextId, hnamed, hunique⟩, h.2⟩

/-- Steps that keep the configs. -/
theorem triple_same {α : Type} {x : Proc α} (hx : Keeps SameConfigs x)
    (hR : ∀ configs, R configs → R' configs) :
    Triple (rt.Files R) x (fun _ => rt.Files R) (rt.Files R') :=
  (Triple.of_keeps hx fun _ _ h hsame => h.same hsame).conseq (fun _ h => h) (fun _ _ h => h)
    fun _ h => h.imp hR

theorem triple_listConfigs (hR : ∀ configs, R configs → R' configs) :
    Triple (rt.Files R) (rt.docker.listConfigs "" (rt.agentLabels agent))
      (fun found => rt.Files fun configs =>
        R configs ∧ ∀ b, b ∈ found ↔ b ∈ rt.configsOf agent configs)
      (rt.Files R') := by
  refine .bind (triple_same (frame_sameConfigs.keeps_request rt.docker _) hR) fun _ => ?_
  refine .bind (.get (Q := fun cluster c => cluster = c ∧ rt.Files R c) fun c h => ⟨rfl, h⟩)
    fun cluster => .pure ?_
  rintro c ⟨rfl, h⟩
  refine ⟨h.1, h.2, fun b => ?_⟩
  rw [(rt.docker.list_perm ..).mem_iff, List.mem_filter, mem_configsOf, Bool.and_eq_true]
  exact and_congr_right fun _ => and_iff_right rfl

/-- A config may have been created when the call fails. -/
theorem triple_createConfig {name : String} {data : Bytes} {labels : Dict String String}
    {Q : Blob → List Blob → Prop} (hR : ∀ configs, R configs → R' configs)
    (hnew : ∀ configs nextId, rt.Filed configs nextId → R configs →
      rt.Filed (configs ++ [⟨nextId, name, labels, data⟩]) (nextId + 1) ∧
        Q ⟨nextId, name, labels, data⟩ (configs ++ [⟨nextId, name, labels, data⟩]) ∧
        R' (configs ++ [⟨nextId, name, labels, data⟩])) :
    Triple (rt.Files R) (rt.docker.createConfig name data labels) (fun b => rt.Files (Q b))
      (rt.Files R') := by
  refine .bind (triple_same (frame_sameConfigs.keeps_request rt.docker _) hR) fun _ => ?_
  refine .bind (.get (Q := fun cluster c => cluster = c ∧ rt.Files R c) fun c h => ⟨rfl, h⟩)
    fun cluster => ?_
  refine .bind (.modify (Q := fun _ => rt.Files fun configs =>
    Q ⟨cluster.nextId, name, labels, data⟩ configs ∧ R' configs) ?_) fun _ => ?_
  · rintro c ⟨rfl, h⟩
    exact hnew _ _ h.1 h.2
  · refine .bind (triple_same (frame_sameConfigs.keeps_request rt.docker _) fun _ h => h.2)
      fun _ => .pure fun c h => h.imp fun _ h => h.1

theorem triple_removeConfig {id : Nat} {Q : List Blob → Prop}
    (hR : ∀ configs, R configs → R' configs)
    (hgone : ∀ configs, R configs → Q (configs.filter fun b => b.id ≠ id)) :
    Triple (rt.Files R) (rt.docker.removeConfig id) (fun _ => rt.Files Q) (rt.Files R') := by
  refine .bind (triple_same (frame_sameConfigs.keeps_request rt.docker _) hR) fun _ => .modify ?_
  exact fun c h => ⟨h.1.remove _, hgone _ h.2⟩

/-! ## §4 `set_config` -/

variable {before : List Blob} {data : Bytes}

variable (rt) in
/-- The config with the content is there, and `old` are the others of the
agent. -/
structure Placed (agent : String) (data : Bytes) (before : List Blob) (config : Blob)
    (old configs : List Blob) : Prop where
  mem : config ∈ configs
  ofAgent : rt.OfAgent agent config.labels
  name_eq : config.name = rt.configName agent data
  content : config.data = data ∨ config ∈ before
  origin : ∀ b ∈ configs, b ∈ before ∨ b = config
  mem_old : ∀ b, b ∈ old ↔ (b ∈ configs ∧ rt.OfAgent agent b.labels) ∧ b ≠ config

theorem placed_found {nextId : Nat} {found : List Blob} {config : Blob}
    (hfiled : rt.Filed before nextId) (hfound : ∀ b, b ∈ found ↔ b ∈ rt.configsOf agent before)
    (hconfig : config ∈ found) (hname : config.name = rt.configName agent data) :
    rt.Placed agent data before config
      (found.filter fun b => some b.name ≠ some (rt.configName agent data)) before := by
  have hmem := mem_configsOf.mp ((hfound config).mp hconfig)
  refine ⟨hmem.1, hmem.2, hname, .inr hmem.1, fun b hb => .inl hb, fun b => ?_⟩
  rw [List.mem_filter, hfound, mem_configsOf, decide_eq_true_eq]
  refine and_congr_right fun hb => not_congr ?_
  rw [Option.some.injEq]
  constructor
  · exact fun hbname =>
      hfiled.unique agent b hb.1 config hmem.1 hb.2 hmem.2 (hbname.trans hname.symm)
  · rintro rfl
    exact hname

theorem placed_new {nextId : Nat} {found : List Blob} (hfiled : rt.Filed before nextId)
    (hfound : ∀ b, b ∈ found ↔ b ∈ rt.configsOf agent before)
    (hnone : ∀ b ∈ found, b.name ≠ rt.configName agent data) {config : Blob}
    (hid : config.id = nextId) (hagent : rt.OfAgent agent config.labels)
    (hname : config.name = rt.configName agent data) (hdata : config.data = data) :
    rt.Placed agent data before config
      (found.filter fun b => some b.name ≠ some (rt.configName agent data))
      (before ++ [config]) := by
  refine ⟨by simp, hagent, hname, .inl hdata, fun b hb => by simpa using hb, fun b => ?_⟩
  rw [List.mem_filter, hfound, mem_configsOf, decide_eq_true_eq]
  constructor
  · rintro ⟨⟨hb, hof⟩, -⟩
    refine ⟨⟨List.mem_append_left _ hb, hof⟩, ?_⟩
    rintro rfl
    exact Nat.lt_irrefl _ (hid ▸ hfiled.fresh b hb)
  · rintro ⟨⟨hb, hof⟩, hne⟩
    have hb := (List.mem_append.mp hb).resolve_right fun h => hne (List.mem_singleton.mp h)
    exact ⟨⟨hb, hof⟩, fun h => hnone b ((hfound b).mpr (mem_configsOf.mpr ⟨hb, hof⟩))
      (Option.some.inj h)⟩

/-- `set_config` finds or creates the config, and leaves the other agents
alone even if it fails. -/
theorem triple_setConfig (hdata : data ≠ []) :
    Triple (rt.Files (· = before)) (rt.setConfig agent data)
      (fun out => rt.Files fun configs => rt.ConfigsApart agent before configs ∧
        ∃ config, out.1 = some config ∧ rt.Placed agent data before config out.2 configs)
      (rt.Files (rt.ConfigsApart agent before)) := by
  have hapart : rt.ConfigsApart agent before before := fun _ _ => rfl
  refine .bind (triple_listConfigs (by rintro _ rfl; exact hapart)) fun found => ?_
  rw [if_pos hdata]
  dsimp only
  split
  · next hlast hname =>
    have hnone : ∀ b ∈ found, b.name ≠ rt.configName agent data := by
      intro b hb heq
      have hmem : b ∈ found.filter fun c => some c.name = some (agent ++ "_" ++ rt.md5 data) :=
        List.mem_filter.mpr ⟨hb, by simpa [configName] using heq⟩
      rw [List.getLast?_eq_none_iff.mp hlast] at hmem
      exact List.not_mem_nil hmem
    cases hname
    refine .bind (triple_createConfig (Q := fun b configs => rt.ConfigsApart agent before configs ∧
      rt.Placed agent data before b
        (found.filter fun b => some b.name ≠ some (rt.configName agent data)) configs)
      (by rintro _ ⟨rfl, -⟩; exact hapart) ?_) fun b => .pure fun c h =>
        h.imp fun configs h => ⟨h.1, b, rfl, h.2⟩
    rintro configs nextId hfiled ⟨rfl, hfound⟩
    have hof := rt.ofAgent_update agent
    refine ⟨hfiled.add rfl hof rfl hdata fun b hb hagent => ?_,
      ⟨hapart.add hof, placed_new hfiled hfound hnone rfl hof rfl rfl⟩, hapart.add hof⟩
    exact hnone b ((hfound b).mpr (mem_configsOf.mpr ⟨hb, hagent⟩))
  · next hnot =>
    obtain ⟨config, hlast⟩ := Option.ne_none_iff_exists'.mp fun h => hnot _ h rfl
    have hconfig := List.mem_filter.mp (List.mem_of_getLast? hlast)
    rw [hlast]
    refine .pure fun c h => ⟨h.1, ?_⟩
    obtain ⟨hfiled, rfl, hfound⟩ := h
    exact ⟨hapart, config, rfl, placed_found hfiled hfound hconfig.1 (by
      simpa [configName] using hconfig.2)⟩

/-- The configs without these. -/
def without (old configs : List Blob) : List Blob :=
  configs.filter fun b => ∀ o ∈ old, b.id ≠ o.id

theorem without_append (old : List Blob) (o : Blob) (configs : List Blob) :
    without (old ++ [o]) configs = (without old configs).filter fun b => b.id ≠ o.id := by
  rw [without, without, List.filter_filter]
  refine List.filter_congr fun b _ => ?_
  rw [← Bool.decide_and, decide_eq_decide, List.forall_mem_append, List.forall_mem_singleton]
  exact and_comm

/-- The old configs of an agent are removed one by one. -/
theorem triple_removeConfigs {old configs : List Blob}
    (hold : ∀ o ∈ old, ∀ b ∈ configs, b.id = o.id → rt.OfAgent agent b.labels)
    (hapart : rt.ConfigsApart agent before configs) :
    Triple (rt.Files (· = configs)) (old.forM fun o => rt.docker.removeConfig o.id)
      (fun _ => rt.Files (· = without old configs)) (rt.Files (rt.ConfigsApart agent before)) := by
  have hwithout : ∀ removed rest, removed ++ rest = old →
      rt.ConfigsApart agent before (without removed configs) := by
    rintro removed rest rfl
    refine hapart.remove fun b hb hgone => ?_
    obtain ⟨o, ho, hid⟩ : ∃ o ∈ removed, b.id = o.id := by simpa using hgone
    exact hold o (List.mem_append_left _ ho) b hb hid
  refine (Triple.forM (I := fun rest => rt.Files fun now =>
    ∃ removed, removed ++ rest = old ∧ now = without removed configs) ?_).conseq ?_ ?_ fun _ h => h
  · rintro o rest -
    refine triple_removeConfig ?_ ?_
    · rintro _ ⟨removed, hsplit, rfl⟩
      exact hwithout removed _ hsplit
    · rintro _ ⟨removed, hsplit, rfl⟩
      exact ⟨removed ++ [o], by rw [← hsplit]; simp, (without_append removed o configs).symm⟩
  · exact fun c h => h.imp fun now hnow => ⟨[], rfl, by simp [hnow, without]⟩
  · rintro _ c h
    refine h.imp ?_
    rintro _ ⟨removed, hsplit, rfl⟩
    rw [← hsplit, List.append_nil]

theorem Filed.configsOf_eq_singleton {nextId : Nat} {config : Blob}
    (hfiled : rt.Filed configs nextId)
    (h : ∀ b, b ∈ configs ∧ rt.OfAgent agent b.labels ↔ b = config) :
    rt.configsOf agent configs = [config] := by
  have hnodup : configs.Nodup := hfiled.ids.of_map _
  refine List.perm_singleton.mp ((List.perm_ext_iff_of_nodup (hnodup.filter _)
    (List.nodup_singleton _)).mpr fun b => ?_)
  exact mem_configsOf.trans ((h b).trans List.mem_singleton.symm)

/-- Of an agent only the config that was placed is left. -/
theorem Placed.configsOf_without {nextId : Nat} {config : Blob} {old configs : List Blob}
    (h : rt.Placed agent data before config old configs) (hfiled : rt.Filed configs nextId) :
    rt.configsOf agent (without old configs) = [config] := by
  refine (hfiled.remove _).configsOf_eq_singleton fun b => ?_
  rw [List.mem_filter, decide_eq_true_eq]
  constructor
  · rintro ⟨⟨hb, hnot⟩, hof⟩
    by_contra hne
    exact hnot b ((h.mem_old b).mpr ⟨⟨hb, hof⟩, hne⟩) rfl
  · rintro rfl
    refine ⟨⟨h.mem, fun o ho hid => ?_⟩, h.ofAgent⟩
    obtain ⟨⟨hmem, -⟩, hne⟩ := (h.mem_old o).mp ho
    exact hne (List.inj_on_of_nodup_map hfiled.ids h.mem hmem hid).symm

/-- An agent that had no config has the one that was placed. -/
theorem Placed.configsOf_of_nil {nextId : Nat} {config : Blob} {old configs : List Blob}
    (h : rt.Placed agent data before config old configs) (hfiled : rt.Filed configs nextId)
    (hnone : rt.configsOf agent before = []) : rt.configsOf agent configs = [config] := by
  refine hfiled.configsOf_eq_singleton fun b => ⟨fun ⟨hb, hof⟩ => ?_, ?_⟩
  · refine (h.origin b hb).resolve_left fun hbefore => ?_
    have hmem := mem_configsOf.mpr ⟨hbefore, hof⟩
    rw [hnone] at hmem
    exact List.not_mem_nil hmem
  · rintro rfl
    exact ⟨h.mem, h.ofAgent⟩

end DockerSwarmRuntime

end Iams.Runtime
