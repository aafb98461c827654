/-
Iams.Simulation.StateTheorems — when `get_state` of a simulation loses
nothing.

The entry of a key is the name of the agent, an underscore and the key as a
text. Names and keys may have underscores themselves, so that the entries of
two agents meet if the name of one is the name of the other with a part
behind it, and a key of the other starts with this part
(`entry_eq_iff`). The later value replaces the earlier one then.

No `sorry`, no `axiom`, no `native_decide`.
-/
import Iams.Simulation.RegistryTheorems
import Mathlib.Data.List.Nodup

namespace Iams.Simulation.Registry

open Iams.Lib

variable {α κ ω ε : Type} {s : Registry α ω} {text : κ → String}

/-! ## Entries -/

theorem append_underscore_inj {a b k l : List Char} (h : a ++ '_' :: k = b ++ '_' :: l) :
    a = b ∧ k = l ∨ (∃ part, b = a ++ '_' :: part ∧ k = part ++ '_' :: l) ∨
      ∃ part, a = b ++ '_' :: part ∧ l = part ++ '_' :: k := by
  rcases List.append_eq_append_iff.mp h with ⟨rest, rfl, heq⟩ | ⟨rest, rfl, heq⟩
  · cases rest with
    | nil =>
      cases heq
      exact .inl ⟨(List.append_nil a).symm, rfl⟩
    | cons c part =>
      cases heq
      exact .inr (.inl ⟨part, rfl, rfl⟩)
  · cases rest with
    | nil =>
      cases heq
      exact .inl ⟨List.append_nil b, rfl⟩
    | cons c part =>
      cases heq
      exact .inr (.inr ⟨part, rfl, rfl⟩)

/-- The name of the second is the one of the first with a part behind it,
with which the key of the first starts. -/
def Meets (text : κ → String) (a : String) (k : κ) (b : String) (l : κ) : Prop :=
  ∃ part, b = a ++ "_" ++ part ∧ text k = part ++ "_" ++ text l

theorem toList_entry (a : String) (k : κ) :
    (entry text a k).toList = a.toList ++ '_' :: (text k).toList := by
  rw [entry, String.toList_append, String.toList_append, List.append_assoc]
  rfl

/-- A text that is put together with an underscore. -/
theorem eq_append_of_toList {a b c : String} {part : List Char}
    (h : a.toList = b.toList ++ '_' :: part) (hpart : part = c.toList) : a = b ++ "_" ++ c := by
  refine String.toList_injective ?_
  rw [h, hpart, String.toList_append, String.toList_append, List.append_assoc]
  rfl

theorem entry_eq_iff {a b : String} {k l : κ} :
    entry text a k = entry text b l ↔
      a = b ∧ text k = text l ∨ Meets text a k b l ∨ Meets text b l a k := by
  constructor
  · intro h
    have hlist := congrArg String.toList h
    rw [toList_entry, toList_entry] at hlist
    rcases append_underscore_inj hlist with ⟨ha, hk⟩ | ⟨part, hb, hk⟩ | ⟨part, ha, hl⟩
    · exact .inl ⟨String.toList_injective ha, String.toList_injective hk⟩
    · refine .inr (.inl ⟨String.ofList part, ?_, ?_⟩)
      · exact eq_append_of_toList hb String.toList_ofList.symm
      · rw [← String.toList_ofList (l := part)] at hk
        exact eq_append_of_toList hk rfl
    · refine .inr (.inr ⟨String.ofList part, ?_, ?_⟩)
      · exact eq_append_of_toList ha String.toList_ofList.symm
      · rw [← String.toList_ofList (l := part)] at hl
        exact eq_append_of_toList hl rfl
  · rintro (⟨rfl, h⟩ | ⟨part, rfl, h⟩ | ⟨part, rfl, h⟩)
    · rw [entry, entry, h]
    · rw [entry, entry, h]
      simp only [String.append_assoc]
    · rw [entry, entry, h]
      simp only [String.append_assoc]

theorem Meets.ne {a b : String} {k l : κ} (h : Meets text a k b l) : a ≠ b := by
  obtain ⟨part, hb, -⟩ := h
  intro heq
  have hlength := congrArg String.length (heq.trans hb)
  rw [String.length_append, String.length_append] at hlength
  have hone : "_".length = 1 := rfl
  omega

/-! ## The property and its condition -/

section State

variable (text) (asdict : α → Except ε (Option (Dict κ ω))) (s)

/-- Every value that an agent reports has an entry of its own. -/
structure LosesNothing (result : Dict String ω) : Prop where
  kept : ∀ a items, s.report asdict a = .ok items → ∀ i ∈ items.items,
    result.get? (entry text a i.1) = some i.2
  apart : ∀ a as b bs, s.report asdict a = .ok as → s.report asdict b = .ok bs →
    ∀ i ∈ as.items, ∀ j ∈ bs.items, (a, i.1) ≠ (b, j.1) → entry text a i.1 ≠ entry text b j.1

/-- The keys of an agent are different texts, and the names and keys of two
agents do not meet. -/
structure Separate : Prop where
  keys : ∀ a items, s.report asdict a = .ok items → ∀ i ∈ items.items, ∀ j ∈ items.items,
    text i.1 = text j.1 → i.1 = j.1
  names : ∀ a as b bs, s.report asdict a = .ok as → s.report asdict b = .ok bs →
    ∀ i ∈ as.items, ∀ j ∈ bs.items, ¬ Meets text a i.1 b j.1

end State

section Separate

variable {asdict : α → Except ε (Option (Dict κ ω))} {result : Dict String ω}

theorem LosesNothing.separate (h : s.LosesNothing text asdict result) :
    s.Separate text asdict := by
  constructor
  · intro a items hitems i hi j hj htext
    by_contra hne
    refine h.apart a items a items hitems hitems i hi j hj (fun heq => hne ?_) ?_
    · exact (Prod.mk.inj heq).2
    · exact entry_eq_iff.mpr (.inl ⟨rfl, htext⟩)
  · intro a as b bs has hbs i hi j hj hmeets
    refine h.apart a as b bs has hbs i hi j hj (fun heq => hmeets.ne ?_) ?_
    · exact (Prod.mk.inj heq).1
    · exact entry_eq_iff.mpr (.inr (.inl hmeets))

theorem Separate.apart (h : s.Separate text asdict) {a b : String} {as bs : Dict κ ω}
    (has : s.report asdict a = .ok as) (hbs : s.report asdict b = .ok bs) {i j : κ × ω}
    (hi : i ∈ as.items) (hj : j ∈ bs.items) (heq : entry text a i.1 = entry text b j.1) :
    (a, i.1) = (b, j.1) := by
  rcases entry_eq_iff.mp heq with ⟨rfl, htext⟩ | hmeets | hmeets
  · cases has.symm.trans hbs
    rw [h.keys a as has i hi j hj htext]
  · exact absurd hmeets (h.names a as b bs has hbs i hi j hj)
  · exact absurd hmeets (h.names b bs a as hbs has j hj i hi)

/-! ## The entries of a state -/

/-- The pairs of agents and keys, with their values. -/
def pairs (reports : List (String × Dict κ ω)) : List ((String × κ) × ω) :=
  reports.flatMap fun r => r.2.items.map fun i => ((r.1, i.1), i.2)

theorem mem_pairs {reports : List (String × Dict κ ω)} {p : (String × κ) × ω} :
    p ∈ pairs reports ↔ ∃ r ∈ reports, ∃ i ∈ r.2.items, p = ((r.1, i.1), i.2) := by
  simp only [pairs, List.mem_flatMap, List.mem_map, eq_comm]

theorem pairs_cons (r : String × Dict κ ω) (rest : List (String × Dict κ ω)) :
    pairs (r :: rest) = (r.2.items.map fun i => ((r.1, i.1), i.2)) ++ pairs rest :=
  List.flatMap_cons

/-- A state is the entries of the pairs, one after the other. -/
theorem foldl_reports (reports : List (String × Dict κ ω)) (kwargs : Dict String ω) :
    reports.foldl
      (fun d r => r.2.items.foldl (fun d item => d.set (entry text r.1 item.1) item.2) d) kwargs =
    kwargs.update ((pairs reports).map fun p => (entry text p.1.1 p.1.2, p.2)) := by
  induction reports generalizing kwargs with
  | nil => rfl
  | cons r rest ih =>
    rw [List.foldl_cons, ih, Dict.update, Dict.update, pairs_cons, List.map_append,
      List.foldl_append, List.map_map]
    simp only [List.foldl_map, Function.comp]

theorem nodup_pairs {reports : List (String × Dict κ ω)} (h : (reports.map Prod.fst).Nodup) :
    ((pairs reports).map Prod.fst).Nodup := by
  induction reports with
  | nil => exact List.nodup_nil
  | cons r rest ih =>
    rw [List.map_cons, List.nodup_cons] at h
    rw [pairs_cons, List.map_append, List.map_map]
    refine List.Nodup.append ?_ (ih h.2) ?_
    · have hkeys : (r.2.items.map fun i => (r.1, i.1)) = (r.2.items.map Prod.fst).map (r.1, ·) := by
        rw [List.map_map]
        rfl
      change (r.2.items.map fun i => (r.1, i.1)).Nodup
      rw [hkeys]
      exact r.2.nodup.map fun _ _ heq => (Prod.mk.inj heq).2
    · intro p hp hrest
      obtain ⟨i, hi, rfl⟩ := List.mem_map.mp hp
      obtain ⟨q, hq, heq⟩ := List.mem_map.mp hrest
      obtain ⟨r', hr', j, hj, rfl⟩ := mem_pairs.mp hq
      refine h.1 (List.mem_map.mpr ⟨r', hr', ?_⟩)
      exact (Prod.mk.inj heq).1

/-- Where no two pairs meet, every value is there. -/
theorem Separate.kept (h : s.Separate text asdict) {reports : List (String × Dict κ ω)}
    (hnodup : (reports.map Prod.fst).Nodup)
    (hreports : ∀ r ∈ reports, s.report asdict r.1 = .ok r.2) (kwargs : Dict String ω)
    {r : String × Dict κ ω} (hr : r ∈ reports) {i : κ × ω} (hi : i ∈ r.2.items) :
    (kwargs.update ((pairs reports).map fun p => (entry text p.1.1 p.1.2, p.2))).get?
      (entry text r.1 i.1) = some i.2 := by
  have hentries : (((pairs reports).map fun p => (entry text p.1.1 p.1.2, p.2)).map
      Prod.fst).Nodup := by
    have hfst : (((pairs reports).map fun p => (entry text p.1.1 p.1.2, p.2)).map Prod.fst) =
        ((pairs reports).map Prod.fst).map fun q => entry text q.1 q.2 := by
      rw [List.map_map, List.map_map]
      rfl
    rw [hfst]
    refine (nodup_pairs hnodup).map_on fun p hp q hq heq => ?_
    obtain ⟨p', hp', rfl⟩ := List.mem_map.mp hp
    obtain ⟨q', hq', rfl⟩ := List.mem_map.mp hq
    obtain ⟨a, ha, i, hi, rfl⟩ := mem_pairs.mp hp'
    obtain ⟨b, hb, j, hj, rfl⟩ := mem_pairs.mp hq'
    exact h.apart (hreports a ha) (hreports b hb) hi hj heq
  have hmem : (entry text r.1 i.1, i.2) ∈
      (pairs reports).map fun p => (entry text p.1.1 p.1.2, p.2) :=
    List.mem_map.mpr ⟨((r.1, i.1), i.2), mem_pairs.mpr ⟨r, hr, i, hi, rfl⟩, rfl⟩
  exact Dict.get?_update_of_mem kwargs hentries hmem

end Separate

/-! ## The result -/

/-- What is registered is a node of the topology. -/
def Listed (s : Registry α ω) : Prop :=
  ∀ agent, (s.agents.get? agent).isSome = true → agent ∈ s.df.agents

theorem Listed.step {name : α → String} (h : Listed s) (a : Action α ω ε) :
    Listed (s.step name a) := by
  cases a with
  | register agent attributes =>
    cases hregister : s.register name agent attributes with
    | error e => rwa [Registry.step, hregister]
    | ok s' =>
      rw [Registry.step, hregister]
      obtain ⟨hagents, attrs, htopology⟩ := register_spec hregister
      intro other
      rw [mem_agents_iff, hagents, htopology, Dict.get?_set, Dict.get?_set]
      split
      · exact fun _ => rfl
      · exact fun hother => mem_agents_iff.mp (h other hother)
  | unregister agent =>
    change Listed (s.unregister name agent)
    unfold unregister
    split
    · intro other hother
      rw [Dict.get?_erase] at hother
      split at hother
      · cases hother
      · exact h other hother
    · exact h

/-- After every run, a state has a value for every key of every registered
agent if and only if the keys of each are different texts and no two of
them meet. -/
theorem losesNothing_iff {name : α → String}
    (hreached : Reachable (step name) (fun _ (_ : Action α ω ε) => True) init s)
    {asdict : α → Except ε (Option (Dict κ ω))} {own : Except ε (Option (Dict String ω))}
    {kwargs result : Dict String ω} (h : s.getState text asdict own kwargs = .ok result) :
    s.LosesNothing text asdict result ↔ s.Separate text asdict := by
  have hlisted : Listed s :=
    Reachable.invariant Listed (fun _ h => by cases h) (fun _ a hs _ => hs.step a) hreached
  refine ⟨LosesNothing.separate, fun hseparate => ⟨fun a items hitems i hi => ?_,
    fun a as b bs has hbs i hi j hj hne heq => hne (hseparate.apart has hbs hi hj heq)⟩⟩
  cases own with
  | error e => cases h
  | ok data =>
    obtain ⟨reports, hagents, hreports, rfl⟩ := addReports_eq_ok h
    obtain ⟨agent, hagent, -⟩ := report_eq_ok.mp hitems
    have hmem : a ∈ reports.map Prod.fst := by
      rw [hagents]
      exact hlisted a (by rw [hagent]; rfl)
    obtain ⟨r, hr, rfl⟩ := List.mem_map.mp hmem
    cases (hreports r hr).symm.trans hitems
    rw [foldl_reports]
    refine hseparate.kept ?_ hreports _ hr hi
    rw [hagents]
    exact s.df.topology.nodup

/-- Two agents whose names could meet report two keys and one; with a key
of the first that starts like the name of the second, they do meet. -/
theorem losesNothing_iff_sink :
    let s : Registry String Nat := [Action.register (ε := Unit) "sink" (.ok none),
      .register "sink_b" (.ok none)].foldl (step id) init
    let asdict (long : String) : String → Except Unit (Option (Dict String Nat)) := fun agent =>
      let x := Dict.empty.set "x" (if agent = "sink" then 1 else 3)
      .ok (some (if agent = "sink" then x.set long 2 else x))
    (∃ result, s.getState id (asdict "y") (.ok none) .empty = .ok result ∧
      s.LosesNothing id (asdict "y") result) ∧
    ∃ result, s.getState id (asdict "b_x") (.ok none) .empty = .ok result ∧
      ¬ s.LosesNothing id (asdict "b_x") result := by
  intro s asdict
  have hreached : Reachable (step id) (fun _ (_ : Action String Nat Unit) => True) init s :=
    reachable_of_permitted .init [Action.register "sink" (.ok none), .register "sink_b" (.ok none)]
      ⟨trivial, trivial, trivial⟩
  obtain ⟨result, hstate⟩ : ∃ result, s.getState id (asdict "y") (.ok none) .empty = .ok result :=
    ⟨_, rfl⟩
  obtain ⟨result', hstate'⟩ :
      ∃ result, s.getState id (asdict "b_x") (.ok none) .empty = .ok result := ⟨_, rfl⟩
  refine ⟨⟨result, hstate, (losesNothing_iff hreached hstate).mpr
    ⟨fun _ _ _ _ _ _ _ h => h, ?_⟩⟩, result', hstate', fun h => ?_⟩
  · -- keys of one letter do not start with a part and an underscore
    have hletter (agent : String) (items : Dict String Nat)
        (h : s.report (asdict "y") agent = .ok items) : ∀ i ∈ items.items, i.1.length = 1 := by
      obtain ⟨a, -, ha⟩ := report_eq_ok.mp h
      obtain rfl : _ = items := Option.some.inj (Except.ok.inj ha)
      split <;> decide
    rintro a as b bs has hbs i hi j hj ⟨part, -, htext⟩
    have hlength := congrArg String.length htext
    simp only [id_eq, String.length_append, hletter a as has i hi, hletter b bs hbs j hj] at hlength
    have hunderscore : "_".length = 1 := rfl
    omega
  · exact ((losesNothing_iff hreached hstate').mp h).names "sink" _ "sink_b" _ rfl rfl
      ("b_x", 2) (by decide) ("x", 3) (by decide) ⟨"b", by decide, by decide⟩

/-- A key of the first agent is replaced by one of the second. -/
theorem entry_replaced :
    let s : Registry String Nat := [Action.register (ε := Unit) "a" (.ok none),
      .register "a_b" (.ok none)].foldl (step id) init
    let asdict : String → Except Unit (Option (Dict String Nat)) := fun agent =>
      .ok (some (if agent = "a" then Dict.empty.set "b_c" 1 else Dict.empty.set "c" 2))
    ∃ result, s.getState id asdict (.ok none) .empty = .ok result ∧
      result.items = [("a_b_c", 2)] ∧ ¬ s.LosesNothing id asdict result := by
  intro s asdict
  refine ⟨_, rfl, rfl, fun h => ?_⟩
  have hkept := h.kept "a" _ rfl ("b_c", 1) (.head _)
  cases hkept

end Iams.Simulation.Registry
