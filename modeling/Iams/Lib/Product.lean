/-
Iams.Lib.Product — the Cartesian product of lists, in the order of Python's
`itertools.product`: the last factor changes fastest.

Its elements take one member of each factor (`mem_product`), and there are
as many as the product of the lengths (`length_product`). When the factors
are lists of items, each for one key, every combination has the same keys
(`keys_of_mem_product`).

No `sorry`, no `axiom`, no `native_decide`.
-/
import Mathlib.Algebra.BigOperators.Group.List.Basic
import Mathlib.Data.List.Forall2

namespace Iams.Lib

variable {α κ ν : Type}

/-- `itertools.product(*factors)` -/
def product : List (List α) → List (List α)
  | [] => [[]]
  | factor :: rest => factor.flatMap fun a => (product rest).map (a :: ·)

theorem mem_product {factors : List (List α)} {combination : List α} :
    combination ∈ product factors ↔ List.Forall₂ (· ∈ ·) combination factors := by
  induction factors generalizing combination with
  | nil => simp [product]
  | cons factor rest ih =>
    simp only [product, List.mem_flatMap, List.mem_map, ih]
    constructor
    · rintro ⟨a, ha, tail, htail, rfl⟩
      exact .cons ha htail
    · rintro (_ | ⟨ha, htail⟩)
      exact ⟨_, ha, _, htail, rfl⟩

theorem length_product (factors : List (List α)) :
    (product factors).length = (factors.map List.length).prod := by
  induction factors with
  | nil => rfl
  | cons factor rest ih => simp [product, ih]

/-- One factor for each key. -/
theorem keys_of_mem_product {keys : List κ} {factors : List (List (κ × ν))}
    (hkeys : List.Forall₂ (fun key factor => ∀ item ∈ factor, item.1 = key) keys factors)
    {combination : List (κ × ν)} (h : combination ∈ product factors) :
    combination.map Prod.fst = keys := by
  rw [mem_product] at h
  induction hkeys generalizing combination with
  | nil =>
    cases h
    rfl
  | cons hkey _ ih =>
    obtain _ | ⟨hmem, htail⟩ := h
    rw [List.map_cons, hkey _ hmem, ih htail]

end Iams.Lib
