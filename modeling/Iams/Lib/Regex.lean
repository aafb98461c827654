/-
Iams.Lib.Regex — regular expressions, matched by backtracking.

`run` lists the ways to match an expression at a position, in the order in
which a backtracking matcher tries them: repetitions and optional parts are
greedy. `match?` takes the first one. `Reads` says what an expression reads,
without an order, and `mem_run` that the matcher finds just that. A match
remembers what each group has read.

`$` matches at the end of the text, and before a newline that ends it.

No `sorry`, no `axiom`, no `native_decide`.
-/
import Mathlib.Data.List.Basic

namespace Iams.Lib

inductive Regex where
  | empty
  /-- A character of a class. -/
  | char (p : Char → Bool)
  /-- One or more characters of a class. -/
  | plus (p : Char → Bool)
  | seq (r s : Regex)
  | opt (r : Regex)
  | group (n : Nat) (r : Regex)
  | atEnd

namespace Regex

/-- What the groups have read, the last one first. -/
abbrev Groups := List (Nat × List Char)

/-- What a group has read, if it has taken part. -/
def Groups.group? (groups : Groups) (n : Nat) : Option (List Char) :=
  (groups.find? fun g => g.1 = n).map Prod.snd

/-- A text, character by character. -/
def literal : List Char → Regex
  | [] => .empty
  | c :: cs => .seq (.char (· = c)) (literal cs)

/-! ## The matcher -/

/-- A position in a text: what is left of it, and the groups so far. -/
structure Position where
  rest : List Char
  groups : Groups := []

/-- What is left behind one or more characters of a class, the longest
repetition first. -/
def repetitions (p : Char → Bool) : List Char → List (List Char)
  | [] => []
  | c :: cs => if p c then repetitions p cs ++ [cs] else []

/-- The positions behind a match. -/
def run : Regex → Position → List Position
  | .empty, s => [s]
  | .char p, s =>
    match s.rest with
    | c :: rest => if p c then [{ s with rest := rest }] else []
    | [] => []
  | .plus p, s => (repetitions p s.rest).map fun rest => { s with rest := rest }
  | .seq r t, s => (run r s).flatMap (run t)
  | .opt r, s => run r s ++ [s]
  | .group n r, s => (run r s).map fun t =>
      { t with groups := (n, s.rest.take (s.rest.length - t.rest.length)) :: t.groups }
  | .atEnd, s => if s.rest = [] ∨ s.rest = ['\n'] then [s] else []

/-- The groups of a match at the start of the text. -/
def match? (r : Regex) (text : List Char) : Option Groups :=
  (run r { rest := text }).head?.map Position.groups

/-! ## What an expression reads -/

/-- The expression can read `text` where `rest` is behind it. The groups
become `after`. -/
def Reads : Regex → (text rest : List Char) → (before after : Groups) → Prop
  | .empty, text, _, before, after => text = [] ∧ after = before
  | .char p, text, _, before, after => (∃ c, p c = true ∧ text = [c]) ∧ after = before
  | .plus p, text, _, before, after =>
    text ≠ [] ∧ (∀ c ∈ text, p c = true) ∧ after = before
  | .seq r s, text, rest, before, after =>
    ∃ a b groups, text = a ++ b ∧ Reads r a (b ++ rest) before groups ∧
      Reads s b rest groups after
  | .opt r, text, rest, before, after =>
    Reads r text rest before after ∨ text = [] ∧ after = before
  | .group n r, text, rest, before, after =>
    ∃ groups, Reads r text rest before groups ∧ after = (n, text) :: groups
  | .atEnd, text, rest, before, after =>
    text = [] ∧ (rest = [] ∨ rest = ['\n']) ∧ after = before

theorem reads_literal (cs text rest : List Char) (before after : Groups) :
    Reads (literal cs) text rest before after ↔ text = cs ∧ after = before := by
  induction cs generalizing text before with
  | nil => exact Iff.rfl
  | cons c cs ih =>
    simp only [literal, Reads, ih, decide_eq_true_eq]
    constructor
    · rintro ⟨a, b, groups, rfl, ⟨⟨d, rfl, rfl⟩, rfl⟩, rfl, rfl⟩
      exact ⟨rfl, rfl⟩
    · rintro ⟨rfl, rfl⟩
      exact ⟨[c], cs, after, rfl, ⟨⟨c, rfl, rfl⟩, rfl⟩, rfl, rfl⟩

theorem mem_repetitions {p : Char → Bool} {cs rest : List Char} :
    rest ∈ repetitions p cs ↔
      ∃ text, cs = text ++ rest ∧ text ≠ [] ∧ ∀ c ∈ text, p c = true := by
  induction cs with
  | nil =>
    refine iff_of_false List.not_mem_nil ?_
    rintro ⟨text, heq, hne, -⟩
    exact hne (List.append_eq_nil_iff.mp heq.symm).1
  | cons c cs ih =>
    constructor
    · intro h
      by_cases hc : p c = true
      · rw [repetitions, if_pos hc, List.mem_append, List.mem_singleton, ih] at h
        rcases h with ⟨text, rfl, -, hall⟩ | rfl
        · exact ⟨c :: text, rfl, nofun, List.forall_mem_cons.mpr ⟨hc, hall⟩⟩
        · exact ⟨[c], rfl, nofun, List.forall_mem_singleton.mpr hc⟩
      · rw [repetitions, if_neg hc] at h
        cases h
    · rintro ⟨_ | ⟨d, text⟩, heq, hne, hall⟩
      · exact absurd rfl hne
      · obtain ⟨rfl, rfl⟩ := List.cons.inj heq
        obtain ⟨hc, hall⟩ := List.forall_mem_cons.mp hall
        rw [repetitions, if_pos hc, List.mem_append, List.mem_singleton, ih]
        cases text with
        | nil => exact .inr rfl
        | cons e text => exact .inl ⟨e :: text, rfl, nofun, hall⟩

/-- The matcher finds what the expression reads, and nothing else. -/
theorem mem_run {r : Regex} {s t : Position} :
    t ∈ run r s ↔ ∃ text, s.rest = text ++ t.rest ∧ Reads r text t.rest s.groups t.groups := by
  induction r generalizing s t with
  | empty =>
    obtain ⟨rest, groups⟩ := t
    obtain ⟨rest', groups'⟩ := s
    simp [run, Reads, eq_comm]
  | char p =>
    obtain ⟨rest, groups⟩ := t
    obtain ⟨_ | ⟨c, cs⟩, groups'⟩ := s
    · simp [run, Reads]
    · by_cases hc : p c = true
      · simp only [run, if_pos hc, List.mem_singleton, Position.mk.injEq, Reads]
        constructor
        · rintro ⟨rfl, rfl⟩
          exact ⟨[c], rfl, ⟨c, hc, rfl⟩, rfl⟩
        · rintro ⟨text, heq, ⟨d, -, rfl⟩, rfl⟩
          exact ⟨(List.cons.inj heq).2.symm, rfl⟩
      · simp only [run, if_neg hc, Reads, List.not_mem_nil, false_iff]
        rintro ⟨text, heq, ⟨d, hd, rfl⟩, -⟩
        exact hc ((List.cons.inj heq).1 ▸ hd)
  | plus p =>
    obtain ⟨rest, groups⟩ := t
    simp only [run, List.mem_map, mem_repetitions, Position.mk.injEq, Reads]
    constructor
    · rintro ⟨_, ⟨text, heq, hne, hall⟩, rfl, rfl⟩
      exact ⟨text, heq, hne, hall, rfl⟩
    · rintro ⟨text, heq, hne, hall, rfl⟩
      exact ⟨rest, ⟨text, heq, hne, hall⟩, rfl, rfl⟩
  | seq r u ihr ihu =>
    simp only [run, List.mem_flatMap, ihr, ihu, Reads]
    constructor
    · rintro ⟨m, ⟨a, ha, hr⟩, b, hb, hu⟩
      exact ⟨a ++ b, by rw [ha, hb, List.append_assoc], a, b, m.groups, rfl, hb ▸ hr, hu⟩
    · rintro ⟨_, heq, a, b, groups, rfl, hr, hu⟩
      exact ⟨⟨b ++ t.rest, groups⟩, ⟨a, by rw [heq, List.append_assoc], hr⟩, b, rfl, hu⟩
  | opt r ih =>
    obtain ⟨rest, groups⟩ := t
    obtain ⟨rest', groups'⟩ := s
    simp only [run, List.mem_append, ih, List.mem_singleton, Position.mk.injEq, Reads]
    constructor
    · rintro (⟨text, heq, hr⟩ | ⟨rfl, rfl⟩)
      · exact ⟨text, heq, .inl hr⟩
      · exact ⟨[], rfl, .inr ⟨rfl, rfl⟩⟩
    · rintro ⟨text, heq, hr | ⟨rfl, rfl⟩⟩
      · exact .inl ⟨text, heq, hr⟩
      · exact .inr ⟨heq.symm, rfl⟩
  | group n r ih =>
    obtain ⟨rest, groups⟩ := t
    simp only [run, List.mem_map, Position.mk.injEq, Reads]
    -- what is left tells what has been read
    have htake {text rest' : List Char} (heq : s.rest = text ++ rest') :
        s.rest.take (s.rest.length - rest'.length) = text := by
      rw [heq, List.length_append, Nat.add_sub_cancel, List.take_left]
    constructor
    · rintro ⟨m, hm, rfl, rfl⟩
      obtain ⟨text, heq, hr⟩ := ih.mp hm
      exact ⟨text, heq, m.groups, hr, by rw [htake heq]⟩
    · rintro ⟨text, heq, groups', hr, rfl⟩
      exact ⟨⟨rest, groups'⟩, ih.mpr ⟨text, heq, hr⟩, rfl, by rw [htake heq]⟩
  | atEnd =>
    obtain ⟨rest, groups⟩ := t
    obtain ⟨rest', groups'⟩ := s
    simp only [run, Reads]
    split
    · rename_i hend
      simp only [List.mem_singleton, Position.mk.injEq]
      constructor
      · rintro ⟨rfl, rfl⟩
        exact ⟨[], rfl, rfl, hend, rfl⟩
      · rintro ⟨_, heq, rfl, -, rfl⟩
        exact ⟨heq.symm, rfl⟩
    · rename_i hend
      refine iff_of_false List.not_mem_nil ?_
      rintro ⟨_, heq, rfl, hrest, -⟩
      rw [List.nil_append] at heq
      exact hend (heq ▸ hrest)

/-! ## Matching a text -/

/-- Some part of the text, from its start on, is read. -/
def Accepts (r : Regex) (text : List Char) (groups : Groups) : Prop :=
  ∃ read rest, text = read ++ rest ∧ Reads r read rest [] groups

theorem accepts_of_match? {r : Regex} {text : List Char} {groups : Groups}
    (h : r.match? text = some groups) : r.Accepts text groups := by
  obtain ⟨t, hhead, rfl⟩ := Option.map_eq_some_iff.mp h
  obtain ⟨read, heq, hreads⟩ := mem_run.mp (List.mem_of_mem_head? hhead)
  exact ⟨read, t.rest, heq, hreads⟩

theorem match?_isSome {r : Regex} {text : List Char} {groups : Groups}
    (h : r.Accepts text groups) : (r.match? text).isSome = true := by
  obtain ⟨read, rest, heq, hreads⟩ := h
  have hmem : (⟨rest, groups⟩ : Position) ∈ run r { rest := text } :=
    mem_run.mpr ⟨read, heq, hreads⟩
  rw [match?, Option.isSome_map, List.isSome_head?]
  exact List.ne_nil_of_mem hmem

end Regex

end Iams.Lib
