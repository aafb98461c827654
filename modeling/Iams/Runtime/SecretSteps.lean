/-
Iams.Runtime.SecretSteps — what `update_agent` does to the secrets, step by
step.

`set_secret` finds the secret with the content it is given or creates it,
and calls the others of its name old (`setSecret_ok`). `SetsAll` is what
comes of several calls one after the other: what an earlier one has set is
old for a later one of the same name and another content
(`SetsAll.clash`). Then the service is submitted, with a reference to each
secret, and after an update the old secrets are removed (`finish_create`,
`finish_update`).

§1 secrets in docker, §2 setting the secrets, §3 what is submitted.

No `sorry`, no `axiom`, no `native_decide`.
-/
import Iams.Runtime.DeleteTheorems
import Iams.Runtime.DeployTheorems

namespace Iams.Runtime

open Iams.Lib Iams.Lib.Procedure
open Iams.Servicer (AgentData Bytes encode)

/-! ## §1 Secrets in docker -/

/-- Docker gives each secret an id and a name of its own. -/
structure Cluster.Consistent (c : Cluster) : Prop where
  names : (c.secrets.map Blob.name).Nodup
  ids : (c.secrets.map Blob.id).Nodup
  fresh : ∀ s ∈ c.secrets, s.id < c.nextId

/-- The secrets are as before, and no id has been given back. -/
structure SameSecrets (c c' : Cluster) : Prop where
  secrets : c'.secrets = c.secrets
  nextId : c.nextId ≤ c'.nextId

theorem frame_sameSecrets : RequestFrame SameSecrets :=
  ⟨⟨fun _ => ⟨rfl, Nat.le_refl _⟩, fun h₁ h₂ =>
    ⟨h₂.secrets.trans h₁.secrets, Nat.le_trans h₁.nextId h₂.nextId⟩⟩,
    fun _ _ => ⟨rfl, Nat.le_refl _⟩⟩

/-- A new config takes an id. -/
theorem sameSecrets_config (c : Cluster) (config : Blob) :
    SameSecrets c { c with configs := c.configs ++ [config], nextId := c.nextId + 1 } :=
  ⟨rfl, Nat.le_succ c.nextId⟩

namespace Docker

theorem listSecrets_ok {docker : Docker} {filters : List (String × String)}
    {secrets : List Blob} {c c' : Cluster}
    (h : exec (docker.listSecrets filters) c = (.ok secrets, c')) :
    SameSecrets c c' ∧ ∀ s, s ∈ secrets ↔ s ∈ c.secrets ∧ labelled filters s.labels = true := by
  have hsame : SameSecrets c (exec (docker.listSecrets filters) c).2 :=
    frame_sameSecrets.keeps_read docker _ _ c
  rw [h] at hsame
  refine ⟨hsame, fun s => ?_⟩
  rw [read_ok h, (docker.list_perm ..).mem_iff, List.mem_filter, hsame.secrets]

/-- The new secret has its content and an id that was free. -/
theorem createSecret_ok {docker : Docker} {name : String} {data : Bytes}
    {labels : Dict String String} {blob : Blob} {c c' : Cluster}
    (h : exec (docker.createSecret name data labels) c = (.ok blob, c')) :
    blob = ⟨c.nextId, name, labels, data⟩ ∧ c'.secrets = c.secrets ++ [blob] ∧
      c'.nextId = c.nextId + 1 := by
  obtain ⟨_, c₁, hrequest, h⟩ := exec_bind_eq_ok.mp h
  obtain ⟨_, _, hget, h⟩ := exec_bind_eq_ok.mp h
  cases hget
  obtain ⟨_, _, hmodify, h⟩ := exec_bind_eq_ok.mp h
  cases hmodify
  obtain ⟨_, c₂, hreload, h⟩ := exec_bind_eq_ok.mp h
  cases h
  obtain rfl := request_ok hrequest
  obtain rfl := request_ok hreload
  exact ⟨rfl, rfl, rfl⟩

/-- The secrets with these ids are gone. -/
theorem removeSecrets_ok {docker : Docker} {blobs : List Blob} {c c' : Cluster}
    (h : exec (blobs.forM fun b => docker.removeSecret b.id) c = (.ok (), c')) {s : Blob} :
    s ∈ c'.secrets ↔ s ∈ c.secrets ∧ ∀ b ∈ blobs, b.id ≠ s.id := by
  induction blobs generalizing c with
  | nil =>
    cases h
    exact ⟨fun hs => ⟨hs, nofun⟩, And.left⟩
  | cons first rest ih =>
    obtain ⟨⟨⟩, c₁, hfirst, hrest⟩ := exec_bind_eq_ok.mp h
    obtain ⟨_, c₀, hrequest, hmodify⟩ := exec_bind_eq_ok.mp hfirst
    obtain rfl := request_ok hrequest
    cases hmodify
    rw [ih hrest, List.forall_mem_cons, List.mem_filter, decide_eq_true_eq]
    constructor
    · rintro ⟨⟨hs, hfirst⟩, hrest⟩
      exact ⟨hs, Ne.symm hfirst, hrest⟩
    · rintro ⟨hs, hfirst, hrest⟩
      exact ⟨⟨hs, Ne.symm hfirst⟩, hrest⟩

end Docker

/-! ## §2 Setting the secrets -/

namespace DockerSwarmRuntime

variable (rt : DockerSwarmRuntime)

/-- The secret has the labels of the agent, and this name among its
secrets. -/
def OfSecret (service name : String) (s : Blob) : Prop :=
  labelled (rt.agentLabels service ++ [("iams.secret", name)]) s.labels = true

/-- The name in docker. -/
def secretName (service : String) (g : Generated) : String :=
  service ++ "_" ++ g.name ++ "_" ++ rt.md5 (encode service ++ g.data)

/-- The secret is the generated one. -/
structure Holds (service : String) (g : Generated) (s : Blob) : Prop where
  ofSecret : rt.OfSecret service g.name s
  name_eq : s.name = rt.secretName service g

/-- The secret is one that the generated one replaces. -/
structure Replaced (service : String) (g : Generated) (s : Blob) : Prop where
  ofSecret : rt.OfSecret service g.name s
  name_ne : s.name ≠ rt.secretName service g

/-- Ids are unique, and names among the secrets that `set_secret` chooses
from. -/
structure Tidy (service : String) (c : Cluster) : Prop where
  ids : (c.secrets.map Blob.id).Nodup
  fresh : ∀ s ∈ c.secrets, s.id < c.nextId
  names : ∀ name, ∀ s ∈ c.secrets, ∀ t ∈ c.secrets, rt.OfSecret service name s →
    rt.OfSecret service name t → s.name = t.name → s = t

variable {rt} {service : String} {c c' : Cluster}

theorem OfSecret.name_unique {name name' : String} {s : Blob} (h : rt.OfSecret service name s)
    (h' : rt.OfSecret service name' s) : name = name' := by
  have hget {n : String} (hn : rt.OfSecret service n s) : s.labels.get? "iams.secret" = some n := by
    simpa [labelled] using (labelled_append.mp hn).2
  exact Option.some.inj ((hget h).symm.trans (hget h'))

theorem Tidy.eq_of_id (h : rt.Tidy service c) {s t : Blob} (hs : s ∈ c.secrets)
    (ht : t ∈ c.secrets) (hid : s.id = t.id) : s = t :=
  List.inj_on_of_nodup_map h.ids hs ht hid

theorem tidy_of_consistent (rt : DockerSwarmRuntime) (service : String) (h : c.Consistent) :
    rt.Tidy service c :=
  ⟨h.ids, h.fresh, fun _ _ hs _ ht _ _ heq => List.inj_on_of_nodup_map h.names hs ht heq⟩

theorem Tidy.congr (h : rt.Tidy service c) (hsame : SameSecrets c c') : rt.Tidy service c' := by
  refine ⟨hsame.secrets ▸ h.ids, ?_, hsame.secrets ▸ h.names⟩
  rw [hsame.secrets]
  exact fun s hs => Nat.lt_of_lt_of_le (h.fresh s hs) hsame.nextId

/-- What `set_secret` does: the secret is there or added, and the others of
its name are old. -/
structure Sets (rt : DockerSwarmRuntime) (service : String) (g : Generated) (c : Cluster)
    (blob : Blob) (old : List Blob) (c' : Cluster) : Prop where
  secrets : SameSecrets c c' ∧ blob ∈ c.secrets ∨
    c'.secrets = c.secrets ++ [blob] ∧ c.nextId ≤ blob.id ∧ blob.id < c'.nextId ∧
      ∀ s ∈ c.secrets, ¬ rt.Holds service g s
  holds : rt.Holds service g blob
  mem_old : ∀ s, s ∈ old ↔ s ∈ c.secrets ∧ rt.Replaced service g s

theorem nodup_secretLabels (rt : DockerSwarmRuntime) (service name : String) :
    ((rt.agentLabels service ++ [("iams.secret", name)]).map Prod.fst).Nodup := by
  show ["com.docker.stack.namespace", "iams.namespace", "iams.agent", "iams.secret"].Nodup
  decide

theorem setSecret_ok {g : Generated} {blob : Blob} {old : List Blob}
    (h : exec (rt.setSecret service g) c = (.ok (blob, old), c')) :
    rt.Sets service g c blob old c' := by
  obtain ⟨secrets, c₁, hlist, h⟩ := exec_bind_eq_ok.mp h
  obtain ⟨hsame, hmem⟩ := Docker.listSecrets_ok hlist
  have hold (s : Blob) : (s ∈ secrets.filter fun s => s.name ≠ rt.secretName service g) ↔
      s ∈ c.secrets ∧ rt.Replaced service g s := by
    rw [List.mem_filter, hmem, decide_eq_true_eq]
    exact ⟨fun ⟨⟨hs, hof⟩, hne⟩ => ⟨hs, hof, hne⟩, fun ⟨hs, hof, hne⟩ => ⟨⟨hs, hof⟩, hne⟩⟩
  dsimp only at h
  split at h
  · next found hfound =>
    cases h
    obtain ⟨hin, hname⟩ := List.mem_filter.mp (List.mem_of_getLast? hfound)
    obtain ⟨hs, hof⟩ := (hmem _).mp hin
    exact ⟨.inl ⟨hsame, hs⟩, ⟨hof, of_decide_eq_true hname⟩, hold⟩
  · next hnone =>
    obtain ⟨created, c₂, hcreate, h⟩ := exec_bind_eq_ok.mp h
    cases h
    obtain ⟨rfl, hsecrets, hnext⟩ := Docker.createSecret_ok hcreate
    have hfree : ∀ s ∈ c.secrets, ¬ rt.Holds service g s := by
      intro s hs hholds
      have hin : s ∈ secrets.filter fun s => s.name = rt.secretName service g :=
        List.mem_filter.mpr ⟨(hmem s).mpr ⟨hs, hholds.ofSecret⟩, decide_eq_true hholds.name_eq⟩
      have hnil : (secrets.filter fun s => s.name = rt.secretName service g) = [] :=
        List.getLast?_eq_none_iff.mp hnone
      rw [hnil] at hin
      cases hin
    rw [hsame.secrets] at hsecrets
    refine ⟨.inr ⟨hsecrets, hsame.nextId, hnext ▸ Nat.lt_succ_self _, hfree⟩, ⟨?_, rfl⟩, hold⟩
    exact labelled_update (rt.nodup_secretLabels service g.name)

theorem Sets.mem {g : Generated} {blob : Blob} {old : List Blob}
    (h : rt.Sets service g c blob old c') : blob ∈ c'.secrets := by
  rcases h.secrets with ⟨hsame, hmem⟩ | ⟨hadd, -⟩
  · rwa [hsame.secrets]
  · rw [hadd]
    exact List.mem_append_right _ List.mem_cons_self

/-- Nothing is lost, and at most this secret is new. -/
theorem Sets.grows {g : Generated} {blob : Blob} {old : List Blob}
    (h : rt.Sets service g c blob old c') :
    ∃ added, c'.secrets = c.secrets ++ added ∧ ∀ s ∈ added, s = blob := by
  rcases h.secrets with ⟨hsame, -⟩ | ⟨hadd, -⟩
  · exact ⟨[], by rw [hsame.secrets, List.append_nil], nofun⟩
  · exact ⟨[blob], hadd, fun s => List.mem_singleton.mp⟩

theorem Sets.tidy {g : Generated} {blob : Blob} {old : List Blob}
    (h : rt.Sets service g c blob old c') (htidy : rt.Tidy service c) : rt.Tidy service c' := by
  rcases h.secrets with ⟨hsame, -⟩ | ⟨hadd, hle, hlt, hfree⟩
  · exact htidy.congr hsame
  -- a new secret of this name is alone with it
  have hnew {s : Blob} (hs : s ∈ c.secrets) {name : String} (hof : rt.OfSecret service name s)
      (hofblob : rt.OfSecret service name blob) : s.name ≠ blob.name := by
    intro heq
    refine hfree s hs ⟨?_, heq.trans h.holds.name_eq⟩
    rwa [h.holds.ofSecret.name_unique hofblob]
  refine ⟨?_, ?_, ?_⟩
  · rw [hadd, List.map_append, List.map_singleton]
    refine List.nodup_append.mpr ⟨htidy.ids, List.nodup_singleton _, ?_⟩
    intro id hid id' hid' heq
    obtain ⟨s, hs, rfl⟩ := List.mem_map.mp hid
    have hfresh := htidy.fresh s hs
    rw [List.mem_singleton.mp hid'] at heq
    omega
  · rw [hadd, List.forall_mem_append, List.forall_mem_singleton]
    exact ⟨fun s hs => by have := htidy.fresh s hs; omega, hlt⟩
  · intro name s hs t ht hofs hoft heq
    rw [hadd, List.mem_append, List.mem_singleton] at hs ht
    rcases hs with hs | rfl <;> rcases ht with ht | rfl
    · exact htidy.names name s hs t ht hofs hoft heq
    · exact absurd heq (hnew hs hofs hoft)
    · exact absurd heq.symm (hnew ht hoft hofs)
    · rfl

/-- The same for all of them: every generated secret has a reference, what
is added has one as well, and the old secrets are those of the same names
that were there when they were looked for. -/
structure SetsAll (rt : DockerSwarmRuntime) (service : String) (gs : List Generated) (c : Cluster)
    (references : List Reference) (olds : List Blob) (c' : Cluster) : Prop where
  grows : ∃ added, c'.secrets = c.secrets ++ added ∧
    ∀ s ∈ added, (∃ g ∈ gs, rt.Holds service g s) ∧ ∃ r ∈ references, r.id = s.id
  reference : ∀ g ∈ gs, ∃ s ∈ c'.secrets, rt.Holds service g s ∧ ∃ r ∈ references, r.id = s.id
  referenced : ∀ r ∈ references, ∃ g ∈ gs, ∃ s ∈ c'.secrets, s.id = r.id ∧ rt.Holds service g s
  old : ∀ s ∈ olds, s ∈ c'.secrets ∧ ∃ g ∈ gs, rt.Replaced service g s
  mem_old : ∀ g ∈ gs, ∀ s ∈ c.secrets, rt.Replaced service g s → s ∈ olds
  clash : ∀ g ∈ gs, ∀ g' ∈ gs, g.name = g'.name →
    rt.secretName service g ≠ rt.secretName service g' →
      ∃ r ∈ references, ∃ s ∈ olds, s.id = r.id
  tidy : rt.Tidy service c → rt.Tidy service c'

/-- A later secret of the same name replaces the one that was just set. -/
theorem Sets.replaced {g g' : Generated} {blob : Blob} {old : List Blob}
    (h : rt.Sets service g c blob old c') (hname : g.name = g'.name)
    (hne : rt.secretName service g ≠ rt.secretName service g') : rt.Replaced service g' blob :=
  ⟨hname ▸ h.holds.ofSecret, h.holds.name_eq ▸ hne⟩

theorem Sets.cons {g : Generated} {rest : List Generated} {blob : Blob} {old : List Blob}
    {references : List Reference} {olds : List Blob} {c₁ : Cluster}
    (h : rt.Sets service g c blob old c₁)
    (hall : rt.SetsAll service rest c₁ references olds c') :
    rt.SetsAll service (g :: rest) c (⟨blob.id, blob.name, g.filename⟩ :: references)
      (old ++ olds) c' := by
  obtain ⟨added₁, hadd₁, hblob⟩ := h.grows
  obtain ⟨added, hadd, hadded⟩ := hall.grows
  have hmem₁ {s : Blob} (hs : s ∈ c.secrets) : s ∈ c₁.secrets := hadd₁ ▸ List.mem_append_left _ hs
  have hmem {s : Blob} (hs : s ∈ c₁.secrets) : s ∈ c'.secrets := hadd ▸ List.mem_append_left _ hs
  have hfirst : ∃ r ∈ (⟨blob.id, blob.name, g.filename⟩ : Reference) :: references,
      r.id = blob.id := ⟨_, List.mem_cons_self, rfl⟩
  have hlater {s : Blob} (hs : ∃ r ∈ references, r.id = s.id) :
      ∃ r ∈ (⟨blob.id, blob.name, g.filename⟩ : Reference) :: references, r.id = s.id :=
    hs.imp fun _ hr => ⟨List.mem_cons_of_mem _ hr.1, hr.2⟩
  -- a clash of the first secret with a later one
  have hclash {g' : Generated} (hg' : g' ∈ rest) (hname : g.name = g'.name)
      (hne : rt.secretName service g ≠ rt.secretName service g') :
      ∃ r ∈ (⟨blob.id, blob.name, g.filename⟩ : Reference) :: references,
        ∃ s ∈ old ++ olds, s.id = r.id :=
    ⟨_, List.mem_cons_self, blob, List.mem_append_right _
      (hall.mem_old g' hg' blob h.mem (h.replaced hname hne)), rfl⟩
  refine ⟨⟨added₁ ++ added, by rw [hadd, hadd₁, List.append_assoc], ?_⟩, ?_, ?_, ?_, ?_, ?_, ?_⟩
  · intro s hs
    rcases List.mem_append.mp hs with hs | hs
    · rw [hblob s hs]
      exact ⟨⟨g, List.mem_cons_self, h.holds⟩, hfirst⟩
    · obtain ⟨⟨g', hg', hholds⟩, href⟩ := hadded s hs
      exact ⟨⟨g', List.mem_cons_of_mem _ hg', hholds⟩, hlater href⟩
  · refine List.forall_mem_cons.mpr ⟨⟨blob, hmem h.mem, h.holds, hfirst⟩, fun g' hg' => ?_⟩
    obtain ⟨s, hs, hholds, href⟩ := hall.reference g' hg'
    exact ⟨s, hs, hholds, hlater href⟩
  · refine List.forall_mem_cons.mpr
      ⟨⟨g, List.mem_cons_self, blob, hmem h.mem, rfl, h.holds⟩, fun r hr => ?_⟩
    obtain ⟨g', hg', hs⟩ := hall.referenced r hr
    exact ⟨g', List.mem_cons_of_mem _ hg', hs⟩
  · intro s hs
    rcases List.mem_append.mp hs with hs | hs
    · obtain ⟨hin, hreplaced⟩ := (h.mem_old s).mp hs
      exact ⟨hmem (hmem₁ hin), g, List.mem_cons_self, hreplaced⟩
    · obtain ⟨hin, g', hg', hreplaced⟩ := hall.old s hs
      exact ⟨hin, g', List.mem_cons_of_mem _ hg', hreplaced⟩
  · refine List.forall_mem_cons.mpr ⟨fun s hs hreplaced => ?_, fun g' hg' s hs hreplaced => ?_⟩
    · exact List.mem_append_left _ ((h.mem_old s).mpr ⟨hs, hreplaced⟩)
    · exact List.mem_append_right _ (hall.mem_old g' hg' s (hmem₁ hs) hreplaced)
  · intro a ha b hb hname hne
    rcases List.mem_cons.mp ha with rfl | harest <;> rcases List.mem_cons.mp hb with rfl | hbrest
    · exact absurd rfl hne
    · exact hclash hbrest hname hne
    · exact hclash harest hname.symm hne.symm
    · obtain ⟨r, hr, s, hs, hid⟩ := hall.clash a harest b hbrest hname hne
      exact ⟨r, List.mem_cons_of_mem _ hr, s, List.mem_append_right _ hs, hid⟩
  · exact fun htidy => hall.tidy (h.tidy htidy)

theorem setSecrets_ok {gs : List Generated} {references : List Reference} {olds : List Blob}
    (h : exec (rt.setSecrets service gs) c = (.ok (references, olds), c')) :
    rt.SetsAll service gs c references olds c' := by
  induction gs generalizing c references olds with
  | nil =>
    cases h
    exact ⟨⟨[], (List.append_nil _).symm, nofun⟩, nofun, nofun, nofun, nofun, nofun, id⟩
  | cons g rest ih =>
    obtain ⟨⟨blob, old⟩, c₁, hset, h⟩ := exec_bind_eq_ok.mp h
    obtain ⟨⟨references, olds⟩, c₂, hrest, h⟩ := exec_bind_eq_ok.mp h
    cases h
    exact (setSecret_ok hset).cons (ih hrest)

end DockerSwarmRuntime

/-! ## §3 What is submitted -/

def Request.spec? : Request → Option ServiceSpec
  | .createService spec => some spec
  | .updateService _ spec => some spec
  | _ => none

/-- The service that was submitted last. -/
def submitted (c : Cluster) : Option ServiceSpec := (c.requests.filterMap Request.spec?).getLast?

def SameSubmitted (c c' : Cluster) : Prop := submitted c' = submitted c

theorem frame_sameSubmitted : Frame SameSubmitted :=
  ⟨fun _ => rfl, fun h₁ h₂ => h₂.trans h₁⟩

/-- The reference to a preconfigured secret. -/
def Configured (c : Cluster) (key : String) (r : Reference) : Prop :=
  ∃ s, c.secrets.find? (fun s => s.name = key) = some s ∧ r.id = s.id

namespace Docker

section

variable (docker : Docker)

theorem submitted_request {r : Request} (hr : r.spec? = none) :
    Keeps SameSubmitted (docker.request r) := by
  intro c
  rw [exec_request, SameSubmitted, submitted, submitted, List.filterMap_append]
  simp [hr]

theorem submitted_removeSecret (id : Nat) : Keeps SameSubmitted (docker.removeSecret id) :=
  frame_sameSubmitted.keeps_bind (docker.submitted_request rfl) fun _ _ => rfl

theorem submitted_removeConfig (id : Nat) : Keeps SameSubmitted (docker.removeConfig id) :=
  frame_sameSubmitted.keeps_bind (docker.submitted_request rfl) fun _ _ => rfl

theorem sameSecrets_removeConfig (id : Nat) : Keeps SameSecrets (docker.removeConfig id) :=
  frame_sameSecrets.keeps_request_bind docker _ fun _ => ⟨rfl, Nat.le_refl _⟩

end

variable {docker : Docker} {c c' : Cluster}

theorem getSecret_ok {key : String} {s : Blob}
    (h : exec (docker.getSecret key) c = (.ok s, c')) :
    SameSecrets c c' ∧ c.secrets.find? (fun s => s.name = key) = some s := by
  have hsame := frame_sameSecrets.keeps_getSecret docker key c
  rw [h] at hsame
  refine ⟨hsame, ?_⟩
  obtain ⟨_, c₁, hrequest, h⟩ := exec_bind_eq_ok.mp h
  obtain ⟨_, _, hget, h⟩ := exec_bind_eq_ok.mp h
  cases hget
  obtain rfl := request_ok hrequest
  dsimp only at h
  split at h
  · next found hfound =>
    cases h
    exact hfound
  · cases h

/-- A service is submitted; its request is the last one. -/
theorem submit_modify_ok {r : Request} {f : Cluster → Cluster} {spec : ServiceSpec}
    (h : exec (docker.request r >>= fun _ => modify f) c = (.ok (), c'))
    (hr : r.spec? = some spec) (hsecrets : ∀ c, (f c).secrets = c.secrets)
    (hrequests : ∀ c, (f c).requests = c.requests) :
    c'.secrets = c.secrets ∧ submitted c' = some spec := by
  obtain ⟨⟨⟩, c₁, hrequest, hmodify⟩ := exec_bind_eq_ok.mp h
  obtain rfl := request_ok hrequest
  cases hmodify
  refine ⟨hsecrets _, ?_⟩
  rw [submitted, hrequests, List.filterMap_append]
  simp [hr]

end Docker

namespace DockerSwarmRuntime

variable {rt : DockerSwarmRuntime} {service : String} {c c' : Cluster}

theorem getSecrets_ok {items : List (String × String)} {references : List Reference}
    (h : exec (rt.getSecrets items) c = (.ok references, c')) :
    SameSecrets c c' ∧ (∀ item ∈ items, ∃ r ∈ references, Configured c item.1 r) ∧
      ∀ r ∈ references, ∃ item ∈ items, Configured c item.1 r := by
  induction items generalizing c references with
  | nil =>
    cases h
    exact ⟨frame_sameSecrets.refl _, nofun, nofun⟩
  | cons item rest ih =>
    obtain ⟨s, c₁, hget, h⟩ := exec_bind_eq_ok.mp h
    obtain ⟨references, c₂, hrest, h⟩ := exec_bind_eq_ok.mp h
    cases h
    obtain ⟨hsame, hfound⟩ := Docker.getSecret_ok hget
    obtain ⟨hsame', hitems, hreferences⟩ := ih hrest
    have hconfigured {key : String} {r : Reference} (hr : Configured c₁ key r) :
        Configured c key r := by rwa [Configured, hsame.secrets] at hr
    refine ⟨frame_sameSecrets.trans hsame hsame', ?_, ?_⟩
    · refine List.forall_mem_cons.mpr ⟨⟨_, List.mem_cons_self, s, hfound, rfl⟩, fun i hi => ?_⟩
      obtain ⟨r, hr, hri⟩ := hitems i hi
      exact ⟨r, List.mem_cons_of_mem _ hr, hconfigured hri⟩
    · refine List.forall_mem_cons.mpr ⟨⟨item, List.mem_cons_self, s, hfound, rfl⟩, fun r hr => ?_⟩
      obtain ⟨i, hi, hri⟩ := hreferences r hr
      exact ⟨i, List.mem_cons_of_mem _ hi, hconfigured hri⟩

/-- After a creation all secrets are left. -/
theorem finish_create {d : Deployment} (h : exec (rt.finish none d) c = (.ok (), c')) :
    c'.secrets = c.secrets ∧ submitted c' = some d.spec :=
  Docker.submit_modify_ok h rfl (fun _ => rfl) fun _ => rfl

/-- After an update the old ones are gone. -/
theorem finish_update {found : Service} {d : Deployment}
    (h : exec (rt.finish (some found) d) c = (.ok (), c')) :
    (∀ s, s ∈ c'.secrets ↔ s ∈ c.secrets ∧ ∀ b ∈ d.oldSecrets, b.id ≠ s.id) ∧
      submitted c' = some d.spec := by
  obtain ⟨_, c₁, hupdate, h⟩ := exec_bind_eq_ok.mp h
  obtain ⟨_, c₂, hsecrets, hconfigs⟩ := exec_bind_eq_ok.mp h
  obtain ⟨hsame, hsubmitted⟩ : c₁.secrets = c.secrets ∧ submitted c₁ = some d.spec :=
    Docker.submit_modify_ok hupdate rfl (fun _ => rfl) fun _ => rfl
  have hsame₃ := frame_sameSecrets.keeps_forM (l := d.oldConfigs)
    (fun config => rt.docker.sameSecrets_removeConfig config.id) c₂
  have hsubmitted₂ := frame_sameSubmitted.keeps_forM (l := d.oldSecrets)
    (fun secret => rt.docker.submitted_removeSecret secret.id) c₁
  have hsubmitted₃ := frame_sameSubmitted.keeps_forM (l := d.oldConfigs)
    (fun config => rt.docker.submitted_removeConfig config.id) c₂
  rw [hconfigs] at hsame₃ hsubmitted₃
  rw [hsecrets] at hsubmitted₂
  refine ⟨fun s => ?_, hsubmitted₃.trans (hsubmitted₂.trans hsubmitted)⟩
  rw [hsame₃.secrets, Docker.removeSecrets_ok hsecrets, hsame]

end DockerSwarmRuntime

end Iams.Runtime
