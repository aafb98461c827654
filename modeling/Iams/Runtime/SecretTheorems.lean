/-
Iams.Runtime.SecretTheorems — the secrets of an agent after `update_agent`.

The service is submitted with references to the secrets that the plugins
and the authority generate, and to preconfigured ones. What a generated
secret has replaced is removed after an update: no secret of that name is
left that is not referenced. It is collected while the secrets are set one
after the other, so a secret that was set by an earlier one of the same
name is removed as well, and so is a preconfigured one that is in the way.
After a creation nothing is removed. `secretsKept_iff` says when the
secrets are as they should be.

No `sorry`, no `axiom`, no `native_decide`.
-/
import Iams.Runtime.SecretSteps

namespace Iams.Runtime

open Iams.Lib Iams.Lib.Procedure
open Iams.Servicer (AgentData Bytes encode)

namespace DockerSwarmRuntime

variable {rt : DockerSwarmRuntime} {service : String} {c c' : Cluster}

/-! ## Secrets that survive -/

/-- The secrets that a service refers to are there, and no other secret of
the agent has the name of a generated one. -/
structure SecretsKept (rt : DockerSwarmRuntime) (service : String) (gs : List Generated)
    (spec : ServiceSpec) (c : Cluster) : Prop where
  exist : ∀ r ∈ spec.secrets, ∃ s ∈ c.secrets, s.id = r.id
  alone : ∀ g ∈ gs, ∀ s ∈ c.secrets, rt.OfSecret service g.name s →
    ∃ r ∈ spec.secrets, r.id = s.id

/-- Generated secrets of the same name have the same content, and no
preconfigured secret is an older one of the agent. -/
structure Compatible (rt : DockerSwarmRuntime) (service : String) (gs : List Generated)
    (keys : List String) (secrets : List Blob) : Prop where
  sameData : ∀ g ∈ gs, ∀ g' ∈ gs, g.name = g'.name → g.data = g'.data
  configured : ∀ g ∈ gs, ∀ s ∈ secrets, s.name ∈ keys → rt.OfSecret service g.name s →
    s.name = rt.secretName service g

/-- Of the generated names, the agent has no secrets yet but those that are
generated again, or preconfigured. -/
def NoLeftovers (rt : DockerSwarmRuntime) (service : String) (gs : List Generated)
    (keys : List String) (secrets : List Blob) : Prop :=
  ∀ g ∈ gs, ∀ s ∈ secrets, rt.OfSecret service g.name s →
    (∃ g' ∈ gs, rt.Holds service g' s) ∨ s.name ∈ keys

/-! ## Before and after -/

/-- The secrets before the service is submitted. -/
structure Prepared (rt : DockerSwarmRuntime) (service : String) (gs : List Generated)
    (keys : List String) (c : Cluster) (generated configured : List Reference) (olds : List Blob)
    (c' : Cluster) : Prop where
  names : (c.secrets.map Blob.name).Nodup
  tidy : rt.Tidy service c'
  sets : rt.SetsAll service gs c generated olds c'
  of_key : ∀ key ∈ keys, ∃ r ∈ configured, Configured c' key r
  of_configured : ∀ r ∈ configured, ∃ key ∈ keys, Configured c' key r

namespace Prepared

variable {gs : List Generated} {keys : List String} {generated configured : List Reference}
  {olds : List Blob} (h : rt.Prepared service gs keys c generated configured olds c')

include h

theorem mem {s : Blob} (hs : s ∈ c.secrets) : s ∈ c'.secrets := by
  obtain ⟨added, hadd, -⟩ := h.sets.grows
  rw [hadd]
  exact List.mem_append_left _ hs

/-- A new secret is one that was generated, and has a reference. -/
theorem new {s : Blob} (hs : s ∈ c'.secrets) (hnew : s ∉ c.secrets) :
    (∃ g ∈ gs, rt.Holds service g s) ∧ ∃ r ∈ generated, r.id = s.id := by
  obtain ⟨added, hadd, hadded⟩ := h.sets.grows
  rw [hadd, List.mem_append] at hs
  exact hadded s (hs.resolve_left hnew)

/-- A preconfigured name that was there before stands for this secret. -/
theorem configured_eq {s : Blob} (hs : s ∈ c.secrets) {r : Reference}
    (hr : Configured c' s.name r) : r.id = s.id := by
  obtain ⟨t, hfind, hid⟩ := hr
  obtain ⟨added, hadd, -⟩ := h.sets.grows
  obtain ⟨u, hu⟩ : ∃ u, c.secrets.find? (fun t => t.name = s.name) = some u :=
    Option.isSome_iff_exists.mp (List.find?_isSome.mpr ⟨s, hs, decide_eq_true rfl⟩)
  rw [hadd, List.find?_append, hu, Option.some_or] at hfind
  cases hfind
  have hname : t.name = s.name := by simpa using List.find?_some hu
  rw [hid, List.inj_on_of_nodup_map h.names (List.mem_of_find?_eq_some hu) hs hname]

theorem exist {r : Reference} (hr : r ∈ generated ++ configured) :
    ∃ s ∈ c'.secrets, s.id = r.id ∧
      ((∃ g ∈ gs, rt.Holds service g s) ∨ s.name ∈ keys) := by
  rcases List.mem_append.mp hr with hr | hr
  · obtain ⟨g, hg, s, hs, hid, hholds⟩ := h.sets.referenced r hr
    exact ⟨s, hs, hid, .inl ⟨g, hg, hholds⟩⟩
  · obtain ⟨key, hkey, s, hfind, hid⟩ := h.of_configured r hr
    have hname : s.name = key := by simpa using List.find?_some hfind
    exact ⟨s, List.mem_of_find?_eq_some hfind, hid.symm, .inr (hname ▸ hkey)⟩

/-- The secret that a generated one is kept in has a reference. -/
theorem holds_referenced {g : Generated} (hg : g ∈ gs) {s : Blob} (hs : s ∈ c'.secrets)
    (hholds : rt.Holds service g s) : ∃ r ∈ generated, r.id = s.id := by
  obtain ⟨t, ht, hholdst, href⟩ := h.sets.reference g hg
  rwa [h.tidy.names g.name s hs t ht hholds.ofSecret hholdst.ofSecret
    (hholds.name_eq.trans hholdst.name_eq.symm)]

/-- After a creation. -/
theorem secretsKept_iff_noLeftovers {spec : ServiceSpec} {c'' : Cluster}
    (hspec : spec.secrets = generated ++ configured) (hsecrets : c''.secrets = c'.secrets) :
    rt.SecretsKept service gs spec c'' ↔ rt.NoLeftovers service gs keys c.secrets := by
  constructor
  · intro hkept g hg s hs hof
    obtain ⟨r, hr, hid⟩ := hkept.alone g hg s (hsecrets ▸ h.mem hs) hof
    obtain ⟨t, ht, htid, hreferenced⟩ := h.exist (hspec ▸ hr)
    obtain rfl : t = s := h.tidy.eq_of_id ht (h.mem hs) (htid.trans hid)
    exact hreferenced
  · intro hleft
    refine ⟨fun r hr => ?_, fun g hg s hs hof => ?_⟩
    · obtain ⟨s, hs, hid, -⟩ := h.exist (hspec ▸ hr)
      exact ⟨s, hsecrets ▸ hs, hid⟩
    · rw [hsecrets] at hs
      rw [hspec]
      by_cases hold : s ∈ c.secrets
      · rcases hleft g hg s hold hof with ⟨g', hg', hholds⟩ | hkey
        · obtain ⟨r, hr, hid⟩ := h.holds_referenced hg' hs hholds
          exact ⟨r, List.mem_append_left _ hr, hid⟩
        · obtain ⟨r, hr, hconfigured⟩ := h.of_key s.name hkey
          exact ⟨r, List.mem_append_right _ hr, h.configured_eq hold hconfigured⟩
      · obtain ⟨-, r, hr, hid⟩ := h.new hs hold
        exact ⟨r, List.mem_append_left _ hr, hid⟩

section Update

/-! After an update, which removes the old secrets. -/

variable {spec : ServiceSpec} {c'' : Cluster} (hspec : spec.secrets = generated ++ configured)
  (hsecrets : ∀ s, s ∈ c''.secrets ↔ s ∈ c'.secrets ∧ ∀ b ∈ olds, b.id ≠ s.id)

include hspec hsecrets

omit h hspec in
/-- No reference is to an old secret. -/
theorem not_removed (hkept : rt.SecretsKept service gs spec c'') {r : Reference}
    (hr : r ∈ spec.secrets) {b : Blob} (hb : b ∈ olds) : b.id ≠ r.id := by
  obtain ⟨s, hs, hid⟩ := hkept.exist r hr
  exact hid ▸ ((hsecrets s).mp hs).2 b hb

theorem compatible_of_kept (hkept : rt.SecretsKept service gs spec c'')
    (hdigest : ∀ g ∈ gs, ∀ g' ∈ gs,
      rt.md5 (encode service ++ g.data) = rt.md5 (encode service ++ g'.data) → g.data = g'.data) :
    rt.Compatible service gs keys c.secrets := by
  refine ⟨fun g hg g' hg' hname => ?_, fun g hg s hs hkey hof => ?_⟩
  · by_contra hne
    have hclash : rt.secretName service g ≠ rt.secretName service g' := by
      intro heq
      rw [secretName, secretName, hname] at heq
      exact hne (hdigest g hg g' hg' ((String.append_right_inj _).mp heq))
    obtain ⟨r, hr, b, hb, hid⟩ := h.sets.clash g hg g' hg' hname hclash
    exact not_removed hsecrets hkept (hspec ▸ List.mem_append_left _ hr) hb hid
  · by_contra hne
    obtain ⟨r, hr, hconfigured⟩ := h.of_key s.name hkey
    exact not_removed hsecrets hkept (hspec ▸ List.mem_append_right _ hr)
      (h.sets.mem_old g hg s hs ⟨hof, hne⟩) (h.configured_eq hs hconfigured).symm

omit hspec hsecrets in
/-- A compatible secret that has a reference is not old. -/
theorem not_old_of_compatible (hcompatible : rt.Compatible service gs keys c.secrets) {s : Blob}
    (hs : s ∈ c'.secrets) (hreferenced : (∃ g ∈ gs, rt.Holds service g s) ∨ s.name ∈ keys) :
    s ∉ olds := by
  intro hold
  obtain ⟨-, g', hg', hreplaced⟩ := h.sets.old s hold
  -- what a generated secret holds, no other one of the name replaces
  have hsame : ¬ ∃ g ∈ gs, rt.Holds service g s := by
    rintro ⟨g, hg, hholds⟩
    have hname := hholds.ofSecret.name_unique hreplaced.ofSecret
    refine hreplaced.name_ne (hholds.name_eq.trans ?_)
    rw [secretName, secretName, hname, hcompatible.sameData g hg g' hg' hname]
  rcases hreferenced with hholds | hkey
  · exact hsame hholds
  · by_cases hbefore : s ∈ c.secrets
    · exact hreplaced.name_ne (hcompatible.configured g' hg' s hbefore hkey hreplaced.ofSecret)
    · exact hsame (h.new hs hbefore).1

/-- What is left of a generated name has a reference. -/
theorem alone_of_removed {g : Generated} (hg : g ∈ gs) {s : Blob} (hs : s ∈ c''.secrets)
    (hof : rt.OfSecret service g.name s) : ∃ r ∈ spec.secrets, r.id = s.id := by
  obtain ⟨hs, hleft⟩ := (hsecrets s).mp hs
  have hgenerated : ∃ r ∈ generated, r.id = s.id := by
    by_cases hbefore : s ∈ c.secrets
    · by_cases hname : s.name = rt.secretName service g
      · exact h.holds_referenced hg hs ⟨hof, hname⟩
      · exact absurd rfl (hleft s (h.sets.mem_old g hg s hbefore ⟨hof, hname⟩))
    · exact (h.new hs hbefore).2
  obtain ⟨r, hr, hid⟩ := hgenerated
  exact ⟨r, hspec ▸ List.mem_append_left _ hr, hid⟩

theorem secretsKept_iff_compatible
    (hdigest : ∀ g ∈ gs, ∀ g' ∈ gs,
      rt.md5 (encode service ++ g.data) = rt.md5 (encode service ++ g'.data) → g.data = g'.data) :
    rt.SecretsKept service gs spec c'' ↔ rt.Compatible service gs keys c.secrets := by
  constructor
  · exact fun hkept => h.compatible_of_kept hspec hsecrets hkept hdigest
  · intro hcompatible
    refine ⟨fun r hr => ?_, fun g hg s => h.alone_of_removed hspec hsecrets hg⟩
    obtain ⟨s, hs, hid, hreferenced⟩ := h.exist (hspec ▸ hr)
    refine ⟨s, (hsecrets s).mpr ⟨hs, fun b hb hbid => ?_⟩, hid⟩
    obtain rfl : b = s := h.tidy.eq_of_id (h.sets.old b hb).1 hs hbid
    exact h.not_old_of_compatible hcompatible hs hreferenced hb

end Update

end Prepared

/-! ## One call -/

/-- What the plugins and the authority have for a request. -/
def resourcesOf (rt : DockerSwarmRuntime) (request : AgentData) : Except Error Resources := do
  let imageLabels ← rt.docker.image (request.image ++ ":" ++ request.version)
  rt.resources request imageLabels

/-- The service is found, and what is read of it is there: it is to be
updated. -/
def Updates (rt : DockerSwarmRuntime) (request : AgentData) (update : Bool) (c : Cluster) : Prop :=
  ∃ found, (exec (rt.current request update) c).1 = .ok found

variable {request : AgentData}

theorem Stages.resourcesOf {scale : Nat} {d : Deployment} {c₁ c₂ c₃ c₄ : Cluster}
    (h : rt.Stages request scale d c c₁ c₂ c₃ c₄) : rt.resourcesOf request = .ok d.resources := by
  obtain ⟨_, _, -, himage⟩ := exec_bind_eq_ok.mp h.image
  rw [exec_liftExcept] at himage
  obtain ⟨himage, -⟩ := Prod.mk.inj himage
  rw [DockerSwarmRuntime.resourcesOf, himage]
  exact h.resources

/-- The secrets before the service is submitted, and until then. -/
theorem Stages.prepared {scale : Nat} {d : Deployment} {c₀ c₁ c₂ c₃ c₄ : Cluster}
    (h : rt.Stages request scale d c₀ c₁ c₂ c₃ c₄) (hconsistent : c.Consistent)
    (hsame : SameSecrets c c₀) :
    rt.Prepared request.name d.resources.generated (d.resources.secrets.items.map Prod.fst) c₁
        d.generated d.configured d.oldSecrets c₂ ∧
      c₁.secrets = c.secrets ∧ c₄.secrets = c₂.secrets := by
  have himage : SameSecrets c₀ c₁ := by
    have hkeeps :=
      frame_sameSecrets.keeps_getImage rt.docker (request.image ++ ":" ++ request.version) c₀
    rwa [h.image] at hkeeps
  have hconfig : SameSecrets c₃ c₄ := by
    have hkeeps := frame_sameSecrets.keeps_deployConfig rt sameSecrets_config request c₃
    rwa [h.config] at hkeeps
  obtain ⟨hconfigured, hkeys, hreferences⟩ := getSecrets_ok h.configured
  have hsame₁ := frame_sameSecrets.trans hsame himage
  have hsets := setSecrets_ok h.generated
  have htidy := hsets.tidy ((rt.tidy_of_consistent request.name hconsistent).congr hsame₁)
  refine ⟨⟨?_, htidy, hsets, ?_, ?_⟩, hsame₁.secrets, ?_⟩
  · rw [hsame₁.secrets]
    exact hconsistent.names
  · exact List.forall_mem_map.mpr hkeys
  · intro r hr
    obtain ⟨item, hitem, hr⟩ := hreferences r hr
    exact ⟨item.1, List.mem_map_of_mem hitem, hr⟩
  · rw [hconfig.secrets, hconfigured.secrets]

/-- The secrets survive a call that returns exactly if, for an update, the
generated secrets are compatible with each other and with the preconfigured
ones, and for a creation, nothing is left of an earlier deployment. -/
theorem secretsKept_iff {create update skipLabelTest : Bool} {result : AgentData} {created : Bool}
    {res : Resources} (hconsistent : c.Consistent) (hres : rt.resourcesOf request = .ok res)
    (hdigest : ∀ g ∈ res.generated, ∀ g' ∈ res.generated,
      rt.md5 (encode request.name ++ g.data) = rt.md5 (encode request.name ++ g'.data) →
        g.data = g'.data)
    (h : exec (rt.updateAgent request create update skipLabelTest) c =
      (.ok (result, some created), c')) :
    (∃ spec, submitted c' = some spec ∧ rt.SecretsKept request.name res.generated spec c') ↔
      (rt.Updates request update c → rt.Compatible request.name res.generated
          (res.secrets.items.map Prod.fst) c.secrets) ∧
        (¬ rt.Updates request update c → rt.NoLeftovers request.name res.generated
          (res.secrets.items.map Prod.fst) c.secrets) := by
  have hsame := rt.keeps_current frame_sameSecrets request update c
  obtain ⟨-, -, ⟨found, c₀, hcurrent, hdeploy⟩ | ⟨e, c₀, hcurrent, -, -, hdeploy⟩⟩ :=
    updateAgent_stages h
  · have hupdates : rt.Updates request update c := ⟨found, by rw [hcurrent]⟩
    rw [hcurrent] at hsame
    obtain ⟨d, c₁, c₂, c₃, c₄, hstages, hfinish, -⟩ := deploy_stages hdeploy
    obtain ⟨hprepared, hbefore, hafter⟩ := hstages.prepared hconsistent hsame
    obtain ⟨hsecrets, hsubmitted⟩ := finish_update hfinish
    rw [hafter] at hsecrets
    cases hres.symm.trans hstages.resourcesOf
    rw [← hbefore, ← hprepared.secretsKept_iff_compatible hstages.spec_secrets hsecrets hdigest]
    simp [hsubmitted, hupdates]
  · have hupdates : ¬ rt.Updates request update c := by
      rintro ⟨found, hfound⟩
      rw [hcurrent] at hfound
      cases hfound
    rw [hcurrent] at hsame
    obtain ⟨d, c₁, c₂, c₃, c₄, hstages, hfinish, -⟩ := deploy_stages hdeploy
    obtain ⟨hprepared, hbefore, hafter⟩ := hstages.prepared hconsistent hsame
    obtain ⟨hsecrets, hsubmitted⟩ := finish_create hfinish
    cases hres.symm.trans hstages.resourcesOf
    rw [← hbefore, ← hprepared.secretsKept_iff_noLeftovers hstages.spec_secrets
      (hsecrets.trans hafter)]
    simp [hsubmitted, hupdates]

/-- A secret that a plugin generates. -/
def token : Generated where
  name := "token"
  filename := "token"
  data := [1]
  labels := .empty

/-- A runtime with a plugin that generates it for every agent. -/
def tokenRuntime : DockerSwarmRuntime :=
  { bare with
    plugins := [{
      label := some "iams.services.agent"
      call := fun _ _ _ _ => .ok ⟨[], [], [], [], [token]⟩
      removeFault := fun _ => none }] }

/-- The token of an earlier deployment of `prod_arm`. -/
def oldToken : Blob where
  id := 0
  name := "prod_arm_token_9a0364b9"
  labels := Dict.empty.update (tokenRuntime.agentLabels "prod_arm" ++ [("iams.secret", "token")])
  data := [0]

/-- A request with an image and a version. -/
def tokenRequest : AgentData := { name := "prod_arm", image := "arm", version := "1" }

theorem resourcesOf_token : ∃ res, tokenRuntime.resourcesOf tokenRequest = .ok res ∧
    res.generated = [token] ∧ res.secrets.items = [] := ⟨_, rfl, rfl, rfl⟩

/-- The cluster with the token, and with the services that are left. -/
def tokenCluster (services : List Service) : Cluster :=
  { services := services, secrets := [oldToken], nextId := 2 }

/-- An update replaces the token. -/
theorem secretsKept_iff_token :
    ∃ spec, submitted (exec (tokenRuntime.updateAgent tokenRequest false true false)
        (tokenCluster [bareService 1 "prod_arm"])).2 = some spec ∧
      tokenRuntime.SecretsKept "prod_arm" [token] spec
        (exec (tokenRuntime.updateAgent tokenRequest false true false)
          (tokenCluster [bareService 1 "prod_arm"])).2 := by
  obtain ⟨res, hres, hgenerated, hitems⟩ := resourcesOf_token
  have hexec : exec (tokenRuntime.updateAgent tokenRequest false true false)
      (tokenCluster [bareService 1 "prod_arm"]) =
        (.ok ({ tokenRequest with preferences := ["node.labels.worker"] }, some false),
          (exec (tokenRuntime.updateAgent tokenRequest false true false)
            (tokenCluster [bareService 1 "prod_arm"])).2) := Prod.ext (by decide) rfl
  have hupdates :
      tokenRuntime.Updates tokenRequest true (tokenCluster [bareService 1 "prod_arm"]) := ⟨_, rfl⟩
  generalize (exec (tokenRuntime.updateAgent tokenRequest false true false)
    (tokenCluster [bareService 1 "prod_arm"])).2 = after at hexec ⊢
  have hiff := secretsKept_iff ⟨by decide, by decide, by decide⟩ hres (by simp [hgenerated]) hexec
  rw [hgenerated, hitems] at hiff
  exact hiff.mpr ⟨fun _ => ⟨by simp, nofun⟩, fun hnot => absurd hupdates hnot⟩

/-- A creation leaves it behind: the token has no reference any more. -/
theorem oldToken_left :
    (exec (tokenRuntime.updateAgent tokenRequest false false false) (tokenCluster [])).1 =
        .ok ({ tokenRequest with preferences := ["node.labels.worker"] }, some true) ∧
      ¬ ∃ spec, submitted (exec (tokenRuntime.updateAgent tokenRequest false false false)
          (tokenCluster [])).2 = some spec ∧
        tokenRuntime.SecretsKept "prod_arm" [token] spec
          (exec (tokenRuntime.updateAgent tokenRequest false false false) (tokenCluster [])).2 := by
  refine ⟨by decide, ?_⟩
  rintro ⟨spec, hspec, hkept⟩
  have hafter : (submitted (exec (tokenRuntime.updateAgent tokenRequest false false false)
        (tokenCluster [])).2).map (fun spec => spec.secrets.map Reference.id) = some [2] ∧
      oldToken ∈ (exec (tokenRuntime.updateAgent tokenRequest false false false)
        (tokenCluster [])).2.secrets := ⟨rfl, List.mem_cons_self⟩
  generalize (exec (tokenRuntime.updateAgent tokenRequest false false false)
    (tokenCluster [])).2 = after at hspec hkept hafter
  obtain ⟨hids, hmem⟩ := hafter
  rw [hspec, Option.map_some, Option.some.injEq] at hids
  obtain ⟨r, hr, hid⟩ := hkept.alone token List.mem_cons_self oldToken hmem
    (by decide : labelled _ _ = true)
  have hmem := List.mem_map_of_mem (f := Reference.id) hr
  rw [hids, hid] at hmem
  exact absurd hmem (by decide)

end DockerSwarmRuntime

end Iams.Runtime
