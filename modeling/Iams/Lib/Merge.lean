/-
Iams.Lib.Merge — what several parties write to one dictionary.

Items are `Consistent` if no key is given two values. Then every item is
found after an update (`Consistent.get?_update`), and another order of the
items leads to the same lookups (`Consistent.get?_update_perm`). Parties that
have keys of their own are consistent with each other
(`Consistent.flatMap`).

No `sorry`, no `axiom`, no `native_decide`.
-/
import Iams.Lib.Overlay

namespace Iams.Lib

variable {ι κ ν : Type} [DecidableEq κ]

/-! ## Updates -/

namespace Dict

/-- A key that is written has one of the values that are written to it. -/
theorem exists_get?_update (d : Dict κ ν) {items : List (κ × ν)} {k : κ}
    (h : k ∈ items.map Prod.fst) : ∃ v, (k, v) ∈ items ∧ (d.update items).get? k = some v := by
  induction items generalizing d with
  | nil => cases h
  | cons item rest ih =>
    by_cases hrest : k ∈ rest.map Prod.fst
    · obtain ⟨v, hv, hget⟩ := ih (d.set item.1 item.2) hrest
      exact ⟨v, List.mem_cons_of_mem _ hv, hget⟩
    · rw [List.map_cons, List.mem_cons] at h
      obtain rfl := h.resolve_right hrest
      refine ⟨item.2, List.mem_cons_self, ?_⟩
      exact (get?_update_of_notMem (d.set item.1 item.2) _ hrest).trans (get?_set_self d _ _)

/-- Dictionaries with the same values have the same values after an update. -/
theorem get?_update_ext {d d' : Dict κ ν} (h : ∀ k, d.get? k = d'.get? k)
    (items : List (κ × ν)) (k : κ) : (d.update items).get? k = (d'.update items).get? k := by
  by_cases hk : k ∈ items.map Prod.fst
  · exact get?_update_congr d d' hk
  · rw [get?_update_of_notMem _ _ hk, get?_update_of_notMem _ _ hk, h]

/-- One update after the other is one update with all of the items. -/
theorem foldl_update {β : Type} (f : β → List (κ × ν)) (parties : List β) (d : Dict κ ν) :
    parties.foldl (fun d party => d.update (f party)) d = d.update (parties.flatMap f) := by
  induction parties generalizing d with
  | nil => rfl
  | cons party rest ih => rw [List.foldl_cons, ih, List.flatMap_cons, update_append]

end Dict

/-! ## Items that do not clash -/

omit [DecidableEq κ] in
/-- No key is given two values. -/
def Consistent (items : List (κ × ν)) : Prop :=
  ∀ k v v', (k, v) ∈ items → (k, v') ∈ items → v = v'

namespace Consistent

variable {items items' : List (κ × ν)}

omit [DecidableEq κ] in
theorem nil : Consistent ([] : List (κ × ν)) := fun _ _ _ h => nomatch h

omit [DecidableEq κ] in
/-- Each key once. -/
theorem of_nodup (h : (items.map Prod.fst).Nodup) : Consistent items := by
  intro k v v' hv hv'
  exact (Prod.ext_iff.mp (List.inj_on_of_nodup_map h hv hv' rfl)).2

omit [DecidableEq κ] in
/-- Parties that have keys of their own, or write the same. -/
theorem flatMap {f : ι → List (κ × ν)} {parties : List ι}
    (hown : ∀ p ∈ parties, Consistent (f p))
    (hkeys : ∀ p ∈ parties, ∀ q ∈ parties, f p ≠ f q →
      ∀ k ∈ (f p).map Prod.fst, k ∉ (f q).map Prod.fst) : Consistent (parties.flatMap f) := by
  intro k v v' hv hv'
  obtain ⟨p, hp, hv⟩ := List.mem_flatMap.mp hv
  obtain ⟨q, hq, hv'⟩ := List.mem_flatMap.mp hv'
  by_cases heq : f p = f q
  · exact hown p hp k v v' hv (heq ▸ hv')
  · exact absurd (List.mem_map_of_mem hv') (hkeys p hp q hq heq k (List.mem_map_of_mem hv))

/-- Every item is found. -/
theorem get?_update (h : Consistent items) (d : Dict κ ν) {k : κ} {v : ν} (hv : (k, v) ∈ items) :
    (d.update items).get? k = some v := by
  obtain ⟨v', hv', hget⟩ := d.exists_get?_update (List.mem_map_of_mem hv)
  rw [hget, h k v' v hv' hv]

/-- The order does not count. -/
theorem get?_update_perm (h : Consistent items) (hperm : items.Perm items') (d : Dict κ ν)
    (k : κ) : (d.update items).get? k = (d.update items').get? k := by
  have h' : Consistent items' := fun k v v' hv hv' =>
    h k v v' (hperm.mem_iff.mpr hv) (hperm.mem_iff.mpr hv')
  by_cases hk : k ∈ items.map Prod.fst
  · obtain ⟨v, hv, hget⟩ := d.exists_get?_update hk
    rw [hget, h'.get?_update d (hperm.mem_iff.mp hv)]
  · have hk' : k ∉ items'.map Prod.fst := fun hmem => hk ((hperm.map _).mem_iff.mpr hmem)
    rw [d.get?_update_of_notMem _ hk, d.get?_update_of_notMem _ hk']

end Consistent

end Iams.Lib
