/-
Iams.Runtime.AgentName — `get_valid_agent_name` of `DockerSwarmRuntime` in
`iams/runtime.py`, and the names that it accepts.

A name is a core, with the first four characters of the namespace and an
underscore before it or without them. The expression ends in `$`, and that
matches before a newline at the end of a text as well: a valid name with a
newline behind it is accepted, and the newline dropped
(`getValidAgentName_eq_ok`). For every other name the function is what it
is meant to be (`grammar_iff`).

The namespace is formatted into the pattern. Its characters are letters
and digits, which stand for themselves there.

No `sorry`, no `axiom`, no `native_decide`.
-/
import Iams.Lib.Regex
import Mathlib.Data.Set.Basic

namespace Iams.Runtime

open Iams.Lib

/-- A namespace. A letter beyond ASCII stands for itself in a pattern as
well. -/
structure Namespace where
  value : String
  literal : value.toList.all (fun c => c.isAlphanum || 127 < c.toNat) = true

/-- `iams.exceptions.InvalidAgentName` -/
structure InvalidAgentName where
  text : String
  deriving DecidableEq, Repr

namespace Namespace

variable (ns : Namespace)

/-- `iams_namespace[0:4]` -/
def short : List Char := ns.value.toList.take 4

/-- `[a-zA-Z0-9-]` -/
def inner (c : Char) : Bool := c.isAlphanum || c = '-'

/-- `[a-zA-Z][a-zA-Z0-9-]+[a-zA-Z0-9]` -/
def coreRegex : Regex := .seq (.char Char.isAlpha) (.seq (.plus inner) (.char Char.isAlphanum))

/-- `self.regex`; `match` starts at `^` anyway. -/
def regex : Regex :=
  .seq (.opt (.group 1 (.literal (ns.short ++ ['_'])))) (.seq (.group 2 coreRegex) .atEnd)

/-- `get_valid_agent_name`; the second group takes part in every match. -/
def getValidAgentName (name : String) : Except InvalidAgentName String :=
  match ns.regex.match? name.toList with
  | some groups =>
    .ok (String.ofList (ns.short ++ ['_'] ++ (groups.group? 2).getD []))
  | none => .error ⟨name ++ " is not a valid agent-name"⟩

/-! ## The grammar -/

/-- A letter, one or more letters, digits or hyphens, and a letter or
digit. -/
def Core (core : List Char) : Prop :=
  ∃ first middle last, core = first :: middle ++ [last] ∧ first.isAlpha = true ∧
    middle ≠ [] ∧ (∀ c ∈ middle, inner c = true) ∧ last.isAlphanum = true

/-- The core with the namespace before it. -/
def qualified (core : List Char) : List Char := ns.short ++ ['_'] ++ core

/-- The ways to write a name. -/
def Spells (core name : List Char) : Prop := name = core ∨ name = ns.qualified core

/-- What `$` leaves behind. -/
def AtEnd (rest : List Char) : Prop := rest = [] ∨ rest = ['\n']

theorem inner_of_isAlphanum {c : Char} (h : c.isAlphanum = true) : inner c = true := by
  rw [inner, h, Bool.true_or]

/-- Neither an underscore nor a newline is part of a core. -/
theorem Core.inner_of_mem {core : List Char} (h : Core core) : ∀ c ∈ core, inner c = true := by
  obtain ⟨first, middle, last, rfl, hfirst, -, hmiddle, hlast⟩ := h
  have hfirst : first.isAlphanum = true := by rw [Char.isAlphanum, hfirst, Bool.true_or]
  simp only [List.mem_append, List.mem_cons, List.not_mem_nil, or_false]
  rintro c ((rfl | hc) | rfl)
  · exact inner_of_isAlphanum hfirst
  · exact hmiddle c hc
  · exact inner_of_isAlphanum hlast

theorem Core.newline_not_mem {core : List Char} (h : Core core) : '\n' ∉ core :=
  fun hmem => absurd (h.inner_of_mem _ hmem) (by decide)

theorem Core.underscore_not_mem {core : List Char} (h : Core core) : '_' ∉ core :=
  fun hmem => absurd (h.inner_of_mem _ hmem) (by decide)

theorem reads_coreRegex {text rest : List Char} {before after : Regex.Groups} :
    coreRegex.Reads text rest before after ↔ Core text ∧ after = before := by
  simp only [coreRegex, Regex.Reads, Core]
  constructor
  · rintro ⟨_, _, _, rfl, ⟨⟨first, hfirst, rfl⟩, rfl⟩, middle, _, _, rfl, ⟨hne, hall, rfl⟩,
      ⟨last, hlast, rfl⟩, rfl⟩
    exact ⟨⟨first, middle, last, rfl, hfirst, hne, hall, hlast⟩, rfl⟩
  · rintro ⟨⟨first, middle, last, rfl, hfirst, hne, hall, hlast⟩, rfl⟩
    exact ⟨[first], middle ++ [last], after, rfl, ⟨⟨first, hfirst, rfl⟩, rfl⟩, middle, [last],
      after, rfl, ⟨hne, hall, rfl⟩, ⟨last, hlast, rfl⟩, rfl⟩

/-- What the pattern reads: a name, and the second group has its core. -/
theorem reads_regex {text rest : List Char} {groups : Regex.Groups}
    (h : ns.regex.Reads text rest [] groups) :
    ∃ core, Core core ∧ ns.Spells core text ∧ AtEnd rest ∧ groups.group? 2 = some core := by
  simp only [regex, Regex.Reads, reads_coreRegex, Regex.reads_literal] at h
  obtain ⟨a, _, _, rfl, hqualifier, core, _, _, rfl, ⟨_, ⟨hcore, rfl⟩, rfl⟩, rfl, hend, rfl⟩ := h
  refine ⟨core, hcore, ?_, hend, rfl⟩
  rcases hqualifier with ⟨_, ⟨rfl, rfl⟩, rfl⟩ | ⟨rfl, rfl⟩
  · exact .inr (by rw [qualified, List.append_nil])
  · exact .inl (by rw [List.nil_append, List.append_nil])

theorem regex_reads {core text rest : List Char} (hcore : Core core)
    (hspells : ns.Spells core text) (hend : AtEnd rest) :
    ∃ groups, ns.regex.Reads text rest [] groups := by
  simp only [regex, Regex.Reads, reads_coreRegex, Regex.reads_literal]
  rcases hspells with rfl | rfl
  · exact ⟨_, [], text, [], rfl, .inr ⟨rfl, rfl⟩, text, [], _, (List.append_nil _).symm,
      ⟨_, ⟨hcore, rfl⟩, rfl⟩, rfl, hend, rfl⟩
  · exact ⟨_, ns.short ++ ['_'], core, _, rfl, .inl ⟨_, ⟨rfl, rfl⟩, rfl⟩, core, [], _,
      (List.append_nil _).symm, ⟨_, ⟨hcore, rfl⟩, rfl⟩, rfl, hend, rfl⟩

/-! ## One core for a name -/

theorem append_atEnd_inj {a b rest rest' : List Char} (ha : '\n' ∉ a) (hb : '\n' ∉ b)
    (hrest : AtEnd rest) (hrest' : AtEnd rest') (heq : a ++ rest = b ++ rest') : a = b := by
  rcases hrest with rfl | rfl <;> rcases hrest' with rfl | rfl
  · rwa [List.append_nil, List.append_nil] at heq
  · rw [List.append_nil] at heq
    exact absurd (heq ▸ List.mem_append_right b List.mem_cons_self) ha
  · rw [List.append_nil] at heq
    exact absurd (heq ▸ List.mem_append_right a List.mem_cons_self) hb
  · exact List.append_cancel_right heq

variable {ns}

theorem Spells.newline_not_mem {core name : List Char} (hcore : Core core)
    (h : ns.Spells core name) : '\n' ∉ name := by
  rcases h with rfl | rfl
  · exact hcore.newline_not_mem
  · rw [qualified, List.mem_append, List.mem_append]
    rintro ((hmem | hmem) | hmem)
    · exact absurd (List.all_eq_true.mp ns.literal _ (List.mem_of_mem_take hmem)) (by decide)
    · exact absurd hmem (by decide)
    · exact hcore.newline_not_mem hmem

theorem Spells.core_unique {a b name : List Char} (ha : Core a) (hb : Core b)
    (hspellsa : ns.Spells a name) (hspellsb : ns.Spells b name) : a = b := by
  have hunderscore (core : List Char) : '_' ∈ ns.qualified core :=
    List.mem_append_left _ (List.mem_append_right _ List.mem_cons_self)
  rcases hspellsa with rfl | rfl <;> rcases hspellsb with heq | heq
  · exact heq
  · exact absurd (heq ▸ hunderscore b) ha.underscore_not_mem
  · exact absurd (heq ▸ hunderscore a) hb.underscore_not_mem
  · exact List.append_cancel_left heq

/-! ## What is accepted -/

/-- A name, or a name and a newline behind it. -/
theorem getValidAgentName_eq_ok {name result : String} :
    ns.getValidAgentName name = .ok result ↔
      ∃ core text rest, Core core ∧ ns.Spells core text ∧ AtEnd rest ∧
        name.toList = text ++ rest ∧ result = String.ofList (ns.qualified core) := by
  have hread {groups : Regex.Groups} (h : ns.regex.match? name.toList = some groups) :
      ∃ core text rest, Core core ∧ ns.Spells core text ∧ AtEnd rest ∧
        name.toList = text ++ rest ∧ groups.group? 2 = some core := by
    obtain ⟨text, rest, heq, hreads⟩ := Regex.accepts_of_match? h
    obtain ⟨core, hcore, hspells, hend, hgroup⟩ := ns.reads_regex hreads
    exact ⟨core, text, rest, hcore, hspells, hend, heq, hgroup⟩
  constructor
  · intro h
    cases hmatch : ns.regex.match? name.toList with
    | none => simp [getValidAgentName, hmatch] at h
    | some groups =>
      obtain ⟨core, text, rest, hcore, hspells, hend, heq, hgroup⟩ := hread hmatch
      refine ⟨core, text, rest, hcore, hspells, hend, heq, ?_⟩
      simp only [getValidAgentName, hmatch, hgroup, Option.getD_some, Except.ok.injEq] at h
      exact h.symm
  · rintro ⟨core, text, rest, hcore, hspells, hend, heq, rfl⟩
    obtain ⟨groups, hreads⟩ := ns.regex_reads hcore hspells hend
    obtain ⟨groups, hmatch⟩ :=
      Option.isSome_iff_exists.mp (Regex.match?_isSome ⟨text, rest, heq, hreads⟩)
    obtain ⟨other, text', rest', hcore', hspells', hend', heq', hgroup⟩ := hread hmatch
    have htext : text = text' := append_atEnd_inj (hspells.newline_not_mem hcore)
      (hspells'.newline_not_mem hcore') hend hend' (heq.symm.trans heq')
    have hcores : core = other := hspells.core_unique hcore hcore' (htext ▸ hspells')
    simp only [getValidAgentName, hmatch, hgroup, Option.getD_some, hcores, qualified]

theorem getValidAgentName_of_spells {core : List Char} {name : String} (hcore : Core core)
    (hspells : ns.Spells core name.toList) :
    ns.getValidAgentName name = .ok (String.ofList (ns.qualified core)) :=
  getValidAgentName_eq_ok.mpr
    ⟨core, name.toList, [], hcore, hspells, .inl rfl, (List.append_nil _).symm, rfl⟩

variable (ns)

/-- A valid name with a newline behind it. -/
def Trailing (name : String) : Prop :=
  ∃ core text, Core core ∧ ns.Spells core text ∧ name.toList = text ++ ['\n']

/-- What the function is meant to do with these names. -/
structure Grammar (names : Set String) : Prop where
  accepts : ∀ name ∈ names, (∃ result, ns.getValidAgentName name = .ok result) ↔
    ∃ core, Core core ∧ ns.Spells core name.toList
  result : ∀ name ∈ names, ∀ core, Core core → ns.Spells core name.toList →
    ns.getValidAgentName name = .ok (String.ofList (ns.qualified core))
  idempotent : ∀ name ∈ names, ∀ result, ns.getValidAgentName name = .ok result →
    ns.getValidAgentName result = .ok result
  sameCore : ∀ a ∈ names, ∀ b ∈ names, ∀ result, ns.getValidAgentName a = .ok result →
    ns.getValidAgentName b = .ok result →
      ∃ core, Core core ∧ ns.Spells core a.toList ∧ ns.Spells core b.toList

variable {ns}

theorem Trailing.not_spelled {name : String} (h : ns.Trailing name) :
    ¬ ∃ core, Core core ∧ ns.Spells core name.toList := by
  rintro ⟨core, hcore, hspells⟩
  obtain ⟨-, text, -, -, heq⟩ := h
  have hmem : '\n' ∈ name.toList := heq ▸ List.mem_append_right text List.mem_cons_self
  exact hspells.newline_not_mem hcore hmem

/-- Without a newline behind it, an accepted name is spelled right. -/
theorem spells_of_accepted {name result : String} (h : ns.getValidAgentName name = .ok result)
    (htrailing : ¬ ns.Trailing name) :
    ∃ core, Core core ∧ ns.Spells core name.toList ∧
      result = String.ofList (ns.qualified core) := by
  obtain ⟨core, text, rest, hcore, hspells, rfl | rfl, heq, rfl⟩ := getValidAgentName_eq_ok.mp h
  · rw [List.append_nil] at heq
    exact ⟨core, hcore, heq ▸ hspells, rfl⟩
  · exact absurd ⟨core, text, hcore, hspells, heq⟩ htrailing

theorem getValidAgentName_idempotent {name result : String}
    (h : ns.getValidAgentName name = .ok result) : ns.getValidAgentName result = .ok result := by
  obtain ⟨core, -, -, hcore, -, -, -, rfl⟩ := getValidAgentName_eq_ok.mp h
  exact getValidAgentName_of_spells hcore (.inr String.toList_ofList)

/-- The function is what it is meant to be on all names but valid ones
with a newline behind them. -/
theorem grammar_iff (ns : Namespace) (names : Set String) :
    ns.Grammar names ↔ ∀ name ∈ names, ¬ ns.Trailing name := by
  constructor
  · intro h name hname htrailing
    have ⟨core, text, hcore, hspells, heq⟩ := htrailing
    have hresult : ns.getValidAgentName name = .ok (String.ofList (ns.qualified core)) :=
      getValidAgentName_eq_ok.mpr ⟨core, text, _, hcore, hspells, .inr rfl, heq, rfl⟩
    exact htrailing.not_spelled ((h.accepts name hname).mp ⟨_, hresult⟩)
  · intro h
    refine ⟨fun name hname => ⟨?_, ?_⟩, fun _ _ _ => getValidAgentName_of_spells,
      fun _ _ _ => getValidAgentName_idempotent, fun a ha b hb result hresulta hresultb => ?_⟩
    · rintro ⟨result, hresult⟩
      obtain ⟨core, hcore, hspells, -⟩ := spells_of_accepted hresult (h name hname)
      exact ⟨core, hcore, hspells⟩
    · rintro ⟨core, hcore, hspells⟩
      exact ⟨_, getValidAgentName_of_spells hcore hspells⟩
    · obtain ⟨core, hcore, hspells, rfl⟩ := spells_of_accepted hresulta (h a ha)
      obtain ⟨other, -, hother, heq⟩ := spells_of_accepted hresultb (h b hb)
      have hcores : core = other := List.append_cancel_left (String.ofList_injective heq)
      exact ⟨core, hcore, hspells, hcores ▸ hother⟩

/-- The namespace of a production system. -/
def prod : Namespace where
  value := "prod"
  literal := by decide

example : prod.getValidAgentName "test-1" = .ok "prod_test-1" := by decide

/-- A newline behind the name is accepted, and dropped. -/
theorem newline_accepted :
    prod.getValidAgentName "sensor\n" = .ok "prod_sensor" ∧ ¬ prod.Grammar Set.univ := by
  have hresult : prod.getValidAgentName "sensor\n" = .ok "prod_sensor" := by decide
  refine ⟨hresult, fun h => ?_⟩
  obtain ⟨core, hcore, hspells⟩ := (h.accepts "sensor\n" trivial).mp ⟨_, hresult⟩
  exact hspells.newline_not_mem hcore (by decide)

end Namespace

end Iams.Runtime
