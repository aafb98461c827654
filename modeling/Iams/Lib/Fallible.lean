/-
Iams.Lib.Fallible — values in `Except`, taken apart.

`bind_eq_ok` says what must have happened for a sequence to have a value,
`forall₂_of_mapM` for a function to have one on each member of a list. The
order of the list does not count for that (`mapM_perm`).

No `sorry`, no `axiom`, no `native_decide`.
-/
import Mathlib.Data.List.Forall2

namespace Iams.Lib.Fallible

variable {α β ε : Type}

@[simp] theorem ok_bind (a : α) (f : α → Except ε β) : (Except.ok a >>= f) = f a := rfl

@[simp] theorem error_bind (e : ε) (f : α → Except ε β) :
    (Except.error e >>= f) = .error e := rfl

theorem bind_eq_ok {x : Except ε α} {f : α → Except ε β} {b : β} :
    (x >>= f) = .ok b ↔ ∃ a, x = .ok a ∧ f a = .ok b := by
  cases x with
  | error e => exact iff_of_false nofun nofun
  | ok a =>
    constructor
    · exact fun h => ⟨a, rfl, h⟩
    · rintro ⟨_, ⟨⟩, h⟩
      exact h

theorem mapM_cons_of_ok {f : α → Except ε β} {a : α} {b : β} (h : f a = .ok b) (l : List α) :
    (a :: l).mapM f = (l.mapM f).map (b :: ·) := by
  rw [List.mapM_cons, h]
  cases l.mapM f <;> rfl

theorem mapM_cons_of_error {f : α → Except ε β} {a : α} {e : ε} (h : f a = .error e)
    (l : List α) : (a :: l).mapM f = .error e := by
  rw [List.mapM_cons, h]
  rfl

theorem mapM_cons_eq_ok {f : α → Except ε β} {a : α} {l : List α} {m : List β} :
    (a :: l).mapM f = .ok m ↔ ∃ b rest, f a = .ok b ∧ l.mapM f = .ok rest ∧ m = b :: rest := by
  rw [List.mapM_cons, bind_eq_ok]
  constructor
  · rintro ⟨b, hb, h⟩
    obtain ⟨rest, hrest, h⟩ := bind_eq_ok.mp h
    cases h
    exact ⟨b, rest, hb, hrest, rfl⟩
  · rintro ⟨b, rest, hb, hrest, rfl⟩
    exact ⟨b, hb, bind_eq_ok.mpr ⟨rest, hrest, rfl⟩⟩

/-- The members of the list and the values, one by one. -/
theorem forall₂_of_mapM {f : α → Except ε β} {l : List α} {m : List β} (h : l.mapM f = .ok m) :
    List.Forall₂ (fun a b => f a = .ok b) l m := by
  induction l generalizing m with
  | nil =>
    cases h
    exact .nil
  | cons a rest ih =>
    obtain ⟨b, m', hb, hm, rfl⟩ := mapM_cons_eq_ok.mp h
    exact .cons hb (ih hm)

theorem mem_of_mapM {f : α → Except ε β} {l : List α} {m : List β} (h : l.mapM f = .ok m) {b : β}
    (hb : b ∈ m) : ∃ a ∈ l, f a = .ok b := by
  induction l generalizing m with
  | nil =>
    cases h
    cases hb
  | cons a rest ih =>
    obtain ⟨b', m', hb', hm, rfl⟩ := mapM_cons_eq_ok.mp h
    rcases List.mem_cons.mp hb with rfl | hb
    · exact ⟨a, List.mem_cons_self, hb'⟩
    · obtain ⟨a', ha', hfa⟩ := ih hm hb
      exact ⟨a', List.mem_cons_of_mem _ ha', hfa⟩

theorem exists_of_mapM {f : α → Except ε β} {l : List α} {m : List β} (h : l.mapM f = .ok m)
    {a : α} (ha : a ∈ l) : ∃ b ∈ m, f a = .ok b := by
  induction l generalizing m with
  | nil => cases ha
  | cons a' rest ih =>
    obtain ⟨b', m', hb', hm, rfl⟩ := mapM_cons_eq_ok.mp h
    rcases List.mem_cons.mp ha with rfl | ha
    · exact ⟨b', List.mem_cons_self, hb'⟩
    · obtain ⟨b, hb, hfa⟩ := ih hm ha
      exact ⟨b, List.mem_cons_of_mem _ hb, hfa⟩

/-- In another order there are the same values. -/
theorem mapM_perm {f : α → Except ε β} {l l' : List α} (hperm : l.Perm l') {m : List β}
    (h : l.mapM f = .ok m) : ∃ m', l'.mapM f = .ok m' ∧ m.Perm m' := by
  induction hperm generalizing m with
  | nil => exact ⟨m, h, .refl _⟩
  | cons a _ ih =>
    obtain ⟨b, rest, hb, hrest, rfl⟩ := mapM_cons_eq_ok.mp h
    obtain ⟨rest', hrest', hperm⟩ := ih hrest
    exact ⟨b :: rest', mapM_cons_eq_ok.mpr ⟨b, rest', hb, hrest', rfl⟩, hperm.cons b⟩
  | swap a a' l =>
    obtain ⟨b', _, hb', htail, rfl⟩ := mapM_cons_eq_ok.mp h
    obtain ⟨b, rest, hb, hrest, rfl⟩ := mapM_cons_eq_ok.mp htail
    have hswapped := mapM_cons_eq_ok.mpr ⟨b', rest, hb', hrest, rfl⟩
    exact ⟨b :: b' :: rest, mapM_cons_eq_ok.mpr ⟨b, _, hb, hswapped, rfl⟩, .swap _ _ _⟩
  | trans _ _ ih ih' =>
    obtain ⟨m', hm', hperm⟩ := ih h
    obtain ⟨m'', hm'', hperm'⟩ := ih' hm'
    exact ⟨m'', hm'', hperm.trans hperm'⟩

end Iams.Lib.Fallible
