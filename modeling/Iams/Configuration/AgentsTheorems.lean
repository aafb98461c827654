/-
Iams.Configuration.AgentsTheorems — what `load_agent` constructs, in its first run
and in every later one.

`expected` is what it is for: for each specification, one instance for each
combination of its sorted values, with its own settings, the named globals
over these and the combination over both. It reads each specification once
and changes nothing. `load_agent` writes all this into the one dictionary of
the specification instead. What stays there from a combination or from a
run is at keys that are written again before the next instance is made
(`Fits`), so that it constructs the same (`loadAgent_expected`).

§1 the expansion, §2 one specification, §3 runs, §4 the calls, §5 two
specifications.

No `sorry`, no `axiom`, no `native_decide`.
-/
import Iams.Configuration.Agents
import Iams.Lib.Fallible

namespace Iams.Configuration

open Iams.Lib Iams.Lib.Procedure

variable {C I V : Type}

/-! ## §1 The expansion -/

namespace Code

variable (code : Code C I V)

/-- `v < w`, where equal values are not compared. -/
def valueLt (v w : V) : Except Error Bool :=
  if code.eq v w then .ok false else code.lt v w

/-- The values in order. -/
def sortValues (values : List V) : Except Error (List V) := sortM code.valueLt values

/-- Where the comparison of values is one of a linear order, this is an
ordinary stable sort. -/
theorem sortValues_eq_sort {values : List V} {less : V → V → Bool}
    (h : ∀ v ∈ values, ∀ w ∈ values, code.valueLt v w = .ok (less v w)) :
    code.sortValues values = .ok ((Sorter.insertion V).sort less values) := sortM_eq_sort h

/-- Items of one key are sorted by their values. -/
theorem sortItems_map (key : String) (values : List V) :
    code.sortItems (values.map fun value => (key, value)) =
      (code.sortValues values).map (List.map fun value => (key, value)) := by
  have hlt (v w : V) : code.itemLt (key, v) (key, w) = code.valueLt v w :=
    if_neg (not_not.mpr rfl)
  exact sortM_map hlt values

end Code

/-- `global_settings[name]` for each of these names. -/
def lookupAll (globals : Dict String V) (names : List String) :
    Except Error (List (String × V)) :=
  names.mapM fun name =>
    match globals.get? name with
    | some value => .ok (name, value)
    | none => .error (.keyError name)

section LookupAll

variable {globals : Dict String V} {name : String} {names : List String}

theorem lookupAll_cons_of_none (hget : globals.get? name = none) :
    lookupAll globals (name :: names) = .error (.keyError name) :=
  Fallible.mapM_cons_of_error (by rw [hget]) names

theorem lookupAll_cons_of_some {value : V} (hget : globals.get? name = some value) :
    lookupAll globals (name :: names) = (lookupAll globals names).map ((name, value) :: ·) :=
  Fallible.mapM_cons_of_ok (by rw [hget]) names

/-- Each value is at its name. -/
theorem keys_of_lookupAll {named : List (String × V)} (h : lookupAll globals names = .ok named) :
    named.map Prod.fst = names := by
  have hpairs : List.Forall₂ (fun name pair => pair.1 = name) names named := by
    refine (Fallible.forall₂_of_mapM h).imp fun name pair hpair => ?_
    cases hget : globals.get? name with
    | none =>
      rw [hget] at hpair
      cases hpair
    | some value =>
      rw [hget] at hpair
      cases hpair
      rfl
  have hkeys := List.forall₂_map_left_iff.mpr hpairs.flip
  rwa [List.forall₂_eq_eq_eq] at hkeys

end LookupAll

namespace AgentSpec

variable (code : Code C I V) (agent : AgentSpec V)

/-- The class of the agents. -/
def loadClass : Except Error C :=
  match agent.cls with
  | some name => code.loadClass name
  | none => .error (.keyError "class")

/-- The sorted values of each key. -/
def factors : Except Error (List (List (String × V))) :=
  agent.products.items.mapM fun (key, values) => do
    return (← code.sortValues values).map fun value => (key, value)

/-- The class, and the keyword arguments of each instance: the settings of
the specification, the globals over them, and each combination over both. -/
def expand (globals own : Dict String V) : Except Error (C × List (Dict String V)) := do
  let cls ← agent.loadClass code
  let named ← lookupAll globals agent.useGlobal
  let factors ← agent.factors code
  return (cls, (product factors).map fun combination => (own.update named).update combination)

/-- The settings that the specification has. -/
def own (h : Heap (Dict String V)) : Dict String V :=
  match agent.settings with
  | some settings => h.read settings
  | none => .empty

/-- The keys that are written, in this order. -/
def names : List String := agent.useGlobal ++ agent.products.keys

end AgentSpec

/-- What a specification is there for. -/
def expectedSpec (code : Code C I V) (globals own : Dict String V) (agent : AgentSpec V) :
    Procedure (Log C I V) Error Unit := do
  let (cls, arguments) ← liftExcept (agent.expand code globals own)
  arguments.forM (create code cls)

/-- What `load_agent` is there for. -/
def expected (code : Code C I V) (agents : List (AgentSpec V)) (globals : Nat)
    (h : Heap (Dict String V)) : Procedure (Log C I V) Error Unit :=
  agents.forM fun agent => expectedSpec code (h.read globals) (agent.own h) agent

/-- Each combination has the keys of the products. -/
theorem AgentSpec.keys_of_mem {code : Code C I V} {agent : AgentSpec V}
    {factors : List (List (String × V))} (h : agent.factors code = .ok factors)
    {combination : List (String × V)} (hmem : combination ∈ product factors) :
    combination.map Prod.fst = agent.products.keys := by
  refine keys_of_mem_product ?_ hmem
  rw [Dict.keys, List.forall₂_map_left_iff]
  refine (Fallible.forall₂_of_mapM h).imp fun item factor hfactor => ?_
  obtain ⟨values, -, hvalues⟩ := Fallible.bind_eq_ok.mp hfactor
  cases hvalues
  intro pair hpair
  obtain ⟨value, -, rfl⟩ := List.mem_map.mp hpair
  rfl

/-! ## §2 One specification -/

section Steps

variable {h : Heap (Dict String V)} {r : Nat}

theorem exec_useGlobal (globals : Nat) (name : String) (log : Log C I V) :
    exec (useGlobal globals r name) ⟨h, log⟩ =
      match (h.read globals).get? name with
      | some value => (.ok (), ⟨updated h r [(name, value)], log⟩)
      | none => (.error (.keyError name), ⟨h, log⟩) := by
  rw [useGlobal, exec_bind, exec_get]
  dsimp only
  cases (h.read globals).get? name <;> rfl

/-- All names are found and written, or those before the first that is not
there. -/
theorem exec_useGlobals {globals : Nat} (hne : globals ≠ r) (names : List String)
    (log : Log C I V) :
    ∃ written, written.map Prod.fst <+: names ∧
      exec (names.forM (useGlobal globals r)) ⟨h, log⟩ =
        ((lookupAll (h.read globals) names).map fun _ => (), ⟨updated h r written, log⟩) ∧
      ∀ named, lookupAll (h.read globals) names = .ok named → written = named := by
  induction names generalizing h with
  | nil =>
    refine ⟨[], List.nil_prefix, ?_, ?_⟩
    · rw [updated_nil]
      rfl
    · rintro named ⟨⟩
      rfl
  | cons name rest ih =>
    rw [exec_forM_cons, exec_useGlobal]
    cases hget : (h.read globals).get? name with
    | none =>
      refine ⟨[], List.nil_prefix, ?_, fun named hnamed => ?_⟩
      · rw [lookupAll_cons_of_none hget, updated_nil]
        rfl
      · rw [lookupAll_cons_of_none hget] at hnamed
        cases hnamed
    | some value =>
      obtain ⟨written, hprefix, hexec, hok⟩ := ih (h := updated h r [(name, value)])
      have hglobals : (updated h r [(name, value)]).read globals = h.read globals :=
        h.read_write_of_ne hne _
      rw [hglobals] at hexec hok
      refine ⟨(name, value) :: written, ?_, ?_, fun named hnamed => ?_⟩
      · exact (List.prefix_cons_inj name).mpr hprefix
      · dsimp only
        rw [hexec, lookupAll_cons_of_some hget, updated_append]
        cases lookupAll (h.read globals) rest <;> rfl
      · rw [lookupAll_cons_of_some hget] at hnamed
        cases hrest : lookupAll (h.read globals) rest with
        | error e =>
          rw [hrest] at hnamed
          cases hnamed
        | ok named' =>
          rw [hrest] at hnamed
          cases hnamed
          rw [hok named' hrest]

/-- One round of the last loop. -/
def createFrom (code : Code C I V) (cls : C) (r : Nat) (combination : List (String × V)) :
    Loader C I V Unit := do
  updateAt r (Dict.ofPairs combination).items
  let w ← get
  logged (create code cls (w.dicts.read r))

/-- Each instance is made from `base` and its combination, whatever the
dictionary has been overwritten with, and in the end that is one
combination or none. -/
theorem exec_combinations (code : Code C I V) (cls : C) {keys : List String} (hnodup : keys.Nodup)
    {base : Dict String V} (hbase : Dict.Absorbs keys base (h.read r))
    {combinations : List (List (String × V))}
    (hkeys : ∀ combination ∈ combinations, combination.map Prod.fst = keys) (log : Log C I V) :
    ∃ written, (written = [] ∨ written.map Prod.fst = keys) ∧
      exec (combinations.forM (createFrom code cls r)) ⟨h, log⟩ =
        ((exec ((combinations.map base.update).forM (create code cls)) log).1,
          ⟨updated h r written,
            (exec ((combinations.map base.update).forM (create code cls)) log).2⟩) := by
  induction combinations generalizing h log with
  | nil =>
    refine ⟨[], .inl rfl, ?_⟩
    rw [updated_nil]
    rfl
  | cons combination rest ih =>
    have hkey := hkeys combination List.mem_cons_self
    have hdict := read_updated_of_absorbs hbase hkey
    have hstep : exec (createFrom code cls r combination) ⟨h, log⟩ =
        ((exec (create code cls (base.update combination)) log).1,
          ⟨updated h r combination, (exec (create code cls (base.update combination)) log).2⟩) := by
      rw [← hdict, createFrom, Dict.items_ofPairs (hkey ▸ hnodup)]
      rfl
    rw [List.map_cons, exec_forM_cons, exec_forM_cons, hstep]
    rcases exec (create code cls (base.update combination)) log with ⟨e | ⟨⟩, log'⟩
    · exact ⟨combination, .inr hkey, rfl⟩
    · have hprefix : combination.map Prod.fst <+: keys := hkey ▸ List.prefix_rfl
      have hbase' := absorbs_updated hbase hprefix
      obtain ⟨written, hwritten, hexec⟩ :=
        ih hbase' (fun c hc => hkeys c (List.mem_cons_of_mem _ hc)) log'
      rcases hwritten with rfl | hwritten
      · rw [updated_nil] at hexec
        exact ⟨combination, .inr hkey, hexec⟩
      · rw [updated_updated h r (hkey.trans hwritten.symm)] at hexec
        exact ⟨written, .inr hwritten, hexec⟩

end Steps

/-! ## §3 Runs -/

/-- Each specification has a settings dictionary of its own, or none, and
the global settings are another one. -/
structure Separate (agents : List (AgentSpec V)) (globals : Nat) (h : Heap (Dict String V)) :
    Prop where
  distinct : (globals :: agents.filterMap AgentSpec.settings).Nodup
  allocated : ∀ r ∈ globals :: agents.filterMap AgentSpec.settings, r < h.next

/-- After some runs: the globals are as they were, and what has been written
to a settings dictionary will be written again before it counts. -/
structure Fits (agents : List (AgentSpec V)) (globals : Nat) (h₀ h : Heap (Dict String V)) :
    Prop where
  next_le : h₀.next ≤ h.next
  globals : h.read globals = h₀.read globals
  settings : ∀ agent ∈ agents, ∀ r, agent.settings = some r →
    Dict.Absorbs agent.names (h₀.read r) (h.read r)

section Runs

variable {agents : List (AgentSpec V)} {globals : Nat} {h₀ h : Heap (Dict String V)}

theorem Fits.refl (agents : List (AgentSpec V)) (globals : Nat) (h : Heap (Dict String V)) :
    Fits agents globals h h := ⟨Nat.le_refl _, rfl, fun _ _ _ _ => .refl _ _⟩

/-- Different specifications have different dictionaries. -/
theorem eq_of_settings {agents : List (AgentSpec V)}
    (hdistinct : (agents.filterMap AgentSpec.settings).Nodup) {a b : AgentSpec V} (ha : a ∈ agents)
    (hb : b ∈ agents) {r : Nat} (har : a.settings = some r) (hbr : b.settings = some r) :
    a = b := by
  have hmem {rest : List (AgentSpec V)} {a : AgentSpec V} (ha : a ∈ rest)
      (har : a.settings = some r) : r ∈ rest.filterMap AgentSpec.settings :=
    List.mem_filterMap.mpr ⟨a, ha, har⟩
  induction agents with
  | nil => cases ha
  | cons first rest ih =>
    rcases List.mem_cons.mp ha with rfl | ha' <;> rcases List.mem_cons.mp hb with rfl | hb'
    · rfl
    · rw [List.filterMap_cons_some har, List.nodup_cons] at hdistinct
      exact absurd (hmem hb' hbr) hdistinct.1
    · rw [List.filterMap_cons_some hbr, List.nodup_cons] at hdistinct
      exact absurd (hmem ha' har) hdistinct.1
    · exact ih (hdistinct.sublist ((List.sublist_cons_self _ _).filterMap _)) ha' hb'

/-- The dictionary that a specification works on. Writing at its keys keeps
the others, and makes no difference to this one. -/
theorem exec_getSettings (hsep : Separate agents globals h₀) (hfits : Fits agents globals h₀ h)
    {agent : AgentSpec V} (hagent : agent ∈ agents) (log : Log C I V) :
    ∃ r h₁, exec (getSettings agent.settings) ⟨h, log⟩ = (.ok r, ⟨h₁, log⟩) ∧ globals ≠ r ∧
      h₁.read globals = h₀.read globals ∧
      Dict.Absorbs agent.names (agent.own h₀) (h₁.read r) ∧
      ∀ written, written.map Prod.fst <+: agent.names →
        Fits agents globals h₀ (updated h₁ r written) := by
  obtain ⟨hglobals, hdistinct⟩ := List.nodup_cons.mp hsep.distinct
  have hbelow {r : Nat} (hr : r ∈ globals :: agents.filterMap AgentSpec.settings) : r < h.next :=
    Nat.lt_of_lt_of_le (hsep.allocated r hr) hfits.next_le
  have hsettings {other : AgentSpec V} (hother : other ∈ agents) {r : Nat}
      (hr : other.settings = some r) : r ∈ agents.filterMap AgentSpec.settings :=
    List.mem_filterMap.mpr ⟨other, hother, hr⟩
  cases hown : agent.settings with
  | some r =>
    have hne : globals ≠ r := fun heq => hglobals (heq ▸ hsettings hagent hown)
    have habsorbs := hfits.settings agent hagent r hown
    refine ⟨r, h, rfl, hne, hfits.globals, ?_, fun written hwritten => ⟨hfits.next_le, ?_, ?_⟩⟩
    · rw [AgentSpec.own, hown]
      exact habsorbs
    · exact (h.read_write_of_ne hne _).trans hfits.globals
    · intro other hother q hq
      by_cases hqr : q = r
      · subst hqr
        obtain rfl := eq_of_settings hdistinct hagent hother hown hq
        exact absorbs_updated habsorbs hwritten
      · rw [updated, Heap.read_write_of_ne _ hqr]
        exact hfits.settings other hother q hq
  | none =>
    -- the new dictionary is no other one
    have hglobalsLt := hbelow List.mem_cons_self
    refine ⟨h.next, h.alloc .empty, rfl, Nat.ne_of_lt hglobalsLt, ?_, ?_,
      fun written hwritten => ⟨Nat.le_succ_of_le hfits.next_le, ?_, ?_⟩⟩
    · rw [Heap.read_alloc_of_lt _ hglobalsLt, hfits.globals]
    · rw [AgentSpec.own, hown, Heap.read_alloc_self]
      exact .refl _ _
    · rw [updated, Heap.read_write_of_ne _ (Nat.ne_of_lt hglobalsLt),
        Heap.read_alloc_of_lt _ hglobalsLt, hfits.globals]
    · intro other hother q hq
      have hlt := hbelow (List.mem_cons_of_mem _ (hsettings hother hq))
      rw [updated, Heap.read_write_of_ne _ (Nat.ne_of_lt hlt), Heap.read_alloc_of_lt _ hlt]
      exact hfits.settings other hother q hq

theorem sortItems_eq (code : Code C I V) (item : String × List V) :
    code.sortItems (item.2.map fun value => (item.1, value)) = do
      return (← code.sortValues item.2).map fun value => (item.1, value) := by
  rw [code.sortItems_map]
  cases code.sortValues item.2 <;> rfl

theorem loadSpec_eq (code : Code C I V) (globals : Nat) (agent : AgentSpec V) :
    loadSpec code globals agent = (do
      let cls ← liftExcept (agent.loadClass code)
      let r ← getSettings agent.settings
      agent.useGlobal.forM (useGlobal globals r)
      let factors ← liftExcept (agent.factors code)
      (product factors).forM (createFrom code cls r)) := by
  unfold loadSpec AgentSpec.factors
  simp only [sortItems_eq]
  rfl

/-- A specification is expanded as if nothing had been written yet. -/
theorem exec_loadSpec (code : Code C I V) (hsep : Separate agents globals h₀)
    (hfits : Fits agents globals h₀ h) {agent : AgentSpec V} (hagent : agent ∈ agents)
    (log : Log C I V) :
    ∃ h', Fits agents globals h₀ h' ∧
      exec (loadSpec code globals agent) ⟨h, log⟩ =
        ((exec (expectedSpec code (h₀.read globals) (agent.own h₀) agent) log).1,
          ⟨h', (exec (expectedSpec code (h₀.read globals) (agent.own h₀) agent) log).2⟩) := by
  obtain ⟨r, h₁, hget, hne, hglobals, habsorbs, hkeeps⟩ := exec_getSettings hsep hfits hagent log
  rw [loadSpec_eq, expectedSpec, exec_bind, exec_bind, exec_liftExcept, exec_liftExcept,
    AgentSpec.expand]
  cases agent.loadClass code with
  | error e => exact ⟨h, hfits, rfl⟩
  | ok cls =>
    dsimp only
    rw [exec_bind_of_ok hget, exec_bind]
    obtain ⟨written, hwritten, hexec, hnamed⟩ := exec_useGlobals hne agent.useGlobal log
    rw [hexec]
    rw [hglobals] at hnamed ⊢
    cases hlookup : lookupAll (h₀.read globals) agent.useGlobal with
    | error e =>
      exact ⟨_, hkeeps written (hwritten.trans (List.prefix_append _ _)), rfl⟩
    | ok named =>
      obtain rfl := hnamed named hlookup
      have hkeys := keys_of_lookupAll hlookup
      dsimp only [Except.map]
      rw [exec_bind, exec_liftExcept]
      cases hfactors : agent.factors code with
      | error e =>
        exact ⟨_, hkeeps written (hwritten.trans (List.prefix_append _ _)), rfl⟩
      | ok factors =>
        have hbase : Dict.Absorbs agent.products.keys ((agent.own h₀).update written)
            ((updated h₁ r written).read r) := by
          intro combination hcombination
          rw [read_updated, ← Dict.update_append, ← Dict.update_append]
          refine habsorbs _ ?_
          rw [List.map_append, hkeys, hcombination]
          rfl
        obtain ⟨last, hlast, hexec⟩ := exec_combinations code cls agent.products.nodup hbase
          (fun combination hmem => agent.keys_of_mem hfactors hmem) log
        refine ⟨updated (updated h₁ r written) r last, ?_, hexec⟩
        rw [updated_append]
        refine hkeeps _ ?_
        rw [List.map_append, hkeys]
        rcases hlast with rfl | hlast
        · rw [List.map_nil, List.append_nil]
          exact List.prefix_append _ _
        · rw [hlast]
          exact List.prefix_rfl

/-- From then on as well, whatever the runs are followed by. -/
theorem exec_loadAgent (code : Code C I V) (hsep : Separate agents globals h₀)
    (hfits : Fits agents globals h₀ h) {todo : List (AgentSpec V)} (htodo : todo ⊆ agents)
    (log : Log C I V) :
    ∃ h', Fits agents globals h₀ h' ∧
      exec (loadAgent code todo globals) ⟨h, log⟩ =
        ((exec (expected code todo globals h₀) log).1,
          ⟨h', (exec (expected code todo globals h₀) log).2⟩) := by
  unfold loadAgent expected
  induction todo generalizing h log with
  | nil => exact ⟨h, hfits, rfl⟩
  | cons agent rest ih =>
    obtain ⟨hagent, hrest⟩ := List.cons_subset.mp htodo
    obtain ⟨h₁, hfits₁, hexec⟩ := exec_loadSpec code hsep hfits hagent log
    rw [exec_forM_cons, exec_forM_cons, hexec]
    rcases exec (expectedSpec code (h₀.read globals) (agent.own h₀) agent) log with
      ⟨e | ⟨⟩, log'⟩
    · exact ⟨h₁, hfits₁, rfl⟩
    · exact ih hfits₁ hrest log'

/-- The dictionaries after so many runs. -/
def rerun (code : Code C I V) (agents : List (AgentSpec V)) (globals : Nat)
    (h : Heap (Dict String V)) : Nat → Heap (Dict String V)
  | 0 => h
  | n + 1 => (exec (loadAgent code agents globals) ⟨rerun code agents globals h n, {}⟩).2.dicts

theorem fits_rerun (code : Code C I V) (hsep : Separate agents globals h) (n : Nat) :
    Fits agents globals h (rerun code agents globals h n) := by
  induction n with
  | zero => exact .refl _ _ _
  | succ n ih =>
    obtain ⟨h', hfits, hexec⟩ := exec_loadAgent code hsep ih (List.Subset.refl agents) {}
    rw [rerun, hexec]
    exact hfits

/-! ## §4 The calls -/

/-- Every class accepts what it is called with. -/
def Accepted (code : Code C I V) (expansions : List (C × List (Dict String V))) : Prop :=
  ∀ expansion ∈ expansions, ∀ arguments ∈ expansion.2,
    ∃ agent, code.call expansion.1 arguments = .ok agent

/-- The calls of constructors, specification by specification. -/
def callsOf (expansions : List (C × List (Dict String V))) : List (C × Dict String V) :=
  expansions.flatMap fun expansion => expansion.2.map fun arguments => (expansion.1, arguments)

/-- The agents that the calls return, one for each. -/
def Made (code : Code C I V) (calls : List (C × Dict String V)) (made : List I) : Prop :=
  List.Forall₂ (fun call agent => code.call call.1 call.2 = .ok agent) calls made

theorem exec_creates (code : Code C I V) (cls : C) {arguments : List (Dict String V)}
    (haccepted : ∀ a ∈ arguments, ∃ agent, code.call cls a = .ok agent) (log : Log C I V) :
    ∃ made, Made code (arguments.map fun a => (cls, a)) made ∧
      exec (arguments.forM (create code cls)) log =
        (.ok (), ⟨log.calls ++ arguments.map fun a => (cls, a), log.agents ++ made⟩) := by
  induction arguments generalizing log with
  | nil =>
    refine ⟨[], .nil, ?_⟩
    rw [List.map_nil, List.append_nil, List.append_nil]
    rfl
  | cons a rest ih =>
    obtain ⟨agent, hagent⟩ := haccepted a List.mem_cons_self
    have hstep : exec (create code cls a) log =
        (.ok (), ⟨log.calls ++ [(cls, a)], log.agents ++ [agent]⟩) := by
      simp only [create, exec_bind, exec_modify, hagent]
    obtain ⟨made, hmade, hexec⟩ := ih (fun b hb => haccepted b (List.mem_cons_of_mem _ hb))
      ⟨log.calls ++ [(cls, a)], log.agents ++ [agent]⟩
    refine ⟨agent :: made, .cons hagent hmade, ?_⟩
    rw [exec_forM_cons, hstep]
    dsimp only
    rw [hexec, List.append_assoc, List.append_assoc]
    rfl

/-- Where every specification can be expanded and every class accepts its
arguments, all instances are made. -/
theorem exec_expected {code : Code C I V} {expansions : List (C × List (Dict String V))}
    (hexpand : agents.mapM (fun agent => agent.expand code (h.read globals) (agent.own h)) =
      .ok expansions)
    (haccepted : Accepted code expansions) (log : Log C I V) :
    ∃ made, Made code (callsOf expansions) made ∧
      exec (expected code agents globals h) log =
        (.ok (), ⟨log.calls ++ callsOf expansions, log.agents ++ made⟩) := by
  unfold expected
  induction agents generalizing expansions log with
  | nil =>
    rw [List.mapM_nil] at hexpand
    cases hexpand
    refine ⟨[], .nil, ?_⟩
    rw [callsOf, List.flatMap_nil, List.append_nil, List.append_nil]
    rfl
  | cons agent rest ih =>
    obtain ⟨expansion, expansions', hexpansion, hrest, rfl⟩ :=
      Fallible.mapM_cons_eq_ok.mp hexpand
    obtain ⟨hfirst, haccepted⟩ := List.forall_mem_cons.mp haccepted
    obtain ⟨made, hmade, hexec⟩ := exec_creates code expansion.1 hfirst log
    obtain ⟨made', hmade', hexec'⟩ := ih hrest haccepted
      ⟨log.calls ++ expansion.2.map fun a => (expansion.1, a), log.agents ++ made⟩
    have hstep : exec (expectedSpec code (h.read globals) (agent.own h) agent) log =
        exec (expansion.2.forM (create code expansion.1)) log := by
      rw [expectedSpec, exec_bind, exec_liftExcept, hexpansion]
    refine ⟨made ++ made', List.rel_append hmade hmade', ?_⟩
    rw [exec_forM_cons, hstep, hexec]
    dsimp only
    rw [hexec', List.append_assoc, List.append_assoc]
    rfl

/-- How a run ends, and what it has constructed. -/
def observed (out : Except Error Unit × World (Log C I V) V) : Except Error Unit × Log C I V :=
  (out.1, out.2.log)

/-- Each run constructs what the specifications, as they were before the
first run, expand to. -/
theorem loadAgent_expected (code : Code C I V) (hsep : Separate agents globals h) (n : Nat)
    (log : Log C I V) :
    observed (exec (loadAgent code agents globals) ⟨rerun code agents globals h n, log⟩) =
        exec (expected code agents globals h) log ∧
      ∀ expansions, agents.mapM (fun agent =>
          agent.expand code (h.read globals) (agent.own h)) = .ok expansions →
        Accepted code expansions → ∃ made, Made code (callsOf expansions) made ∧
          observed (exec (loadAgent code agents globals) ⟨rerun code agents globals h n, log⟩) =
            (.ok (), ⟨log.calls ++ callsOf expansions, log.agents ++ made⟩) := by
  have hrun : observed (exec (loadAgent code agents globals)
      ⟨rerun code agents globals h n, log⟩) = exec (expected code agents globals h) log := by
    obtain ⟨h', -, hexec⟩ :=
      exec_loadAgent code hsep (fits_rerun code hsep n) (List.Subset.refl agents) log
    rw [hexec]
    rfl
  refine ⟨hrun, fun expansions hexpand haccepted => ?_⟩
  obtain ⟨made, hmade, hexec⟩ := exec_expected hexpand haccepted log
  exact ⟨made, hmade, hrun.trans hexec⟩

end Runs

/-! ## §5 Two specifications -/

/-- Classes that accept everything, and numbers as values. -/
def plainCode : Code String Nat Nat where
  getClass moduleName className := .ok (moduleName ++ ":" ++ className)
  repr cls := cls
  call _ settings := .ok settings.items.length
  eq v w := v = w
  lt v w := .ok (v < w)

/-- Arms of two sizes and two modes, and a belt without settings. -/
def armsAndBelt : List (AgentSpec Nat) :=
  [{ cls := some "cell.arms.Arm", settings := some 1, useGlobal := ["seed"],
     products := .ofPairs [("size", [2, 1]), ("mode", [3, 4])] },
   { cls := some "cell.Belt", settings := none }]

/-- The global settings, and those of the arms. -/
def armSettings : Heap (Dict String Nat) where
  cells r := if r = 0 then .ofPairs [("seed", 5)] else .ofPairs [("speed", 7), ("size", 0)]
  next := 2

/-- The second run calls the constructors like the first one, although the
arms have been left with the last size and mode. -/
theorem loadAgent_expected_arms :
    ((rerun plainCode armsAndBelt 0 armSettings 1).read 1).items =
        [("speed", 7), ("size", 2), ("seed", 5), ("mode", 4)] ∧
      ((observed (exec (loadAgent plainCode armsAndBelt 0)
          ⟨rerun plainCode armsAndBelt 0 armSettings 1, {}⟩)).2.calls.map
          fun call => (call.1, call.2.items)) =
        [("cell.arms:Arm", [("speed", 7), ("size", 1), ("seed", 5), ("mode", 3)]),
          ("cell.arms:Arm", [("speed", 7), ("size", 1), ("seed", 5), ("mode", 4)]),
          ("cell.arms:Arm", [("speed", 7), ("size", 2), ("seed", 5), ("mode", 3)]),
          ("cell.arms:Arm", [("speed", 7), ("size", 2), ("seed", 5), ("mode", 4)]),
          ("cell:Belt", [])] := by
  have hsep : Separate armsAndBelt 0 armSettings := ⟨by decide, by decide⟩
  have hrun := (loadAgent_expected plainCode hsep 1 {}).1
  refine ⟨by decide +kernel, ?_⟩
  rw [hrun]
  decide +kernel

end Iams.Configuration
