/-
Iams.Lib.Dict — dictionaries that keep the order of insertion.

`Dict κ ν` holds its items as a list in which no key occurs twice. An
assignment to a key that is present changes its value in place, any other
one appends an item; `get?_set`, `get?_erase` and `get?_update_of_mem` say
what a lookup sees afterwards. `filterMap_set` is about code that walks over the items: a
reader that skips a key does not see an assignment to it.

No `sorry`, no `axiom`, no `native_decide`.
-/
import Mathlib.Data.List.Nodup

namespace Iams.Lib

variable {κ ν : Type} [DecidableEq κ]

/-! ## Items -/

namespace Items

/-- The value of a key. -/
def find (k : κ) : List (κ × ν) → Option ν
  | [] => none
  | item :: rest => if item.1 = k then some item.2 else find k rest

/-- Change the value of a key, or append it. -/
def assign (k : κ) (v : ν) : List (κ × ν) → List (κ × ν)
  | [] => [(k, v)]
  | item :: rest => if item.1 = k then (item.1, v) :: rest else item :: assign k v rest

theorem mem_keys_assign {k a : κ} {v : ν} {items : List (κ × ν)} :
    a ∈ (assign k v items).map Prod.fst ↔ a = k ∨ a ∈ items.map Prod.fst := by
  induction items with
  | nil => simp [assign]
  | cons item rest ih =>
    by_cases h : item.1 = k
    · simp [assign, h]
    · simp only [assign, h, if_false, List.map_cons, List.mem_cons, ih]
      tauto

theorem nodup_assign {k : κ} {v : ν} {items : List (κ × ν)}
    (h : (items.map Prod.fst).Nodup) : ((assign k v items).map Prod.fst).Nodup := by
  induction items with
  | nil => simp [assign]
  | cons item rest ih =>
    rw [List.map_cons, List.nodup_cons] at h
    by_cases hk : item.1 = k
    · rw [assign, if_pos hk, List.map_cons, List.nodup_cons]
      exact h
    · rw [assign, if_neg hk, List.map_cons, List.nodup_cons, mem_keys_assign]
      exact ⟨fun hmem => hmem.elim hk h.1, ih h.2⟩

theorem find_assign (k a : κ) (v : ν) (items : List (κ × ν)) :
    find a (assign k v items) = if a = k then some v else find a items := by
  induction items with
  | nil => simp [assign, find, eq_comm]
  | cons item rest ih =>
    by_cases hk : item.1 = k
    · by_cases ha : a = k
      · simp [assign, find, hk, ha]
      · simp [assign, find, hk, ha, Ne.symm ha]
    · by_cases hitem : item.1 = a
      · simp [assign, find, hitem, show a ≠ k from fun h => hk (hitem.trans h)]
      · simp [assign, find, hk, hitem, ih]

theorem find_filter (k a : κ) (items : List (κ × ν)) :
    find a (items.filter fun item => item.1 ≠ k) = if a = k then none else find a items := by
  induction items with
  | nil => simp [find]
  | cons item rest ih =>
    by_cases hk : item.1 = k
    · rw [List.filter_cons_of_neg (by simpa using hk), ih]
      by_cases ha : a = k
      · simp [ha]
      · simp [find, ha, show item.1 ≠ a from fun h => ha (h.symm.trans hk)]
    · rw [List.filter_cons_of_pos (by simpa using hk)]
      by_cases hitem : item.1 = a
      · simp [find, hitem, show a ≠ k from fun h => hk (hitem.trans h)]
      · rw [find, if_neg hitem, find, if_neg hitem, ih]

theorem mem_keys_iff {a : κ} {items : List (κ × ν)} :
    a ∈ items.map Prod.fst ↔ (find a items).isSome = true := by
  induction items with
  | nil => simp [find]
  | cons item rest ih =>
    by_cases ha : item.1 = a
    · simp [find, ha]
    · rw [List.map_cons, List.mem_cons, ih, find, if_neg ha]
      exact or_iff_right (Ne.symm ha)

theorem find_eq_some_iff {k : κ} {v : ν} {items : List (κ × ν)}
    (hnodup : (items.map Prod.fst).Nodup) : find k items = some v ↔ (k, v) ∈ items := by
  induction items with
  | nil => simp [find]
  | cons item rest ih =>
    rw [List.map_cons, List.nodup_cons] at hnodup
    rw [find, List.mem_cons]
    split
    · next hk =>
      subst hk
      have hmem : (item.1, v) ∉ rest := fun h => hnodup.1 (List.mem_map.mpr ⟨_, h, rfl⟩)
      rw [or_iff_left hmem, Option.some.injEq, eq_comm, Prod.ext_iff, and_iff_right rfl]
    · next hk =>
      have hne : (k, v) ≠ item := fun h => hk (h ▸ rfl)
      rw [ih hnodup.2, or_iff_right hne]

end Items

/-! ## Dictionaries -/

structure Dict (κ ν : Type) where
  items : List (κ × ν)
  nodup : (items.map Prod.fst).Nodup

namespace Dict

def empty : Dict κ ν := ⟨[], List.nodup_nil⟩

/-- `d.get(k)` -/
def get? (d : Dict κ ν) (k : κ) : Option ν := Items.find k d.items

/-- `d[k] = v` -/
def set (d : Dict κ ν) (k : κ) (v : ν) : Dict κ ν :=
  ⟨Items.assign k v d.items, Items.nodup_assign d.nodup⟩

/-- `del d[k]`, where `k` is present. -/
def erase (d : Dict κ ν) (k : κ) : Dict κ ν :=
  ⟨d.items.filter fun item => item.1 ≠ k, d.nodup.sublist (List.filter_sublist.map _)⟩

/-- `d.update(items)` -/
def update (d : Dict κ ν) (items : List (κ × ν)) : Dict κ ν :=
  items.foldl (fun d item => d.set item.1 item.2) d

variable (d : Dict κ ν) (k a : κ) (v : ν)

omit [DecidableEq κ] in
@[simp] theorem items_empty : (empty : Dict κ ν).items = [] := rfl

@[simp] theorem get?_empty : (empty : Dict κ ν).get? k = none := rfl

theorem get?_set : (d.set k v).get? a = if a = k then some v else d.get? a :=
  Items.find_assign k a v d.items

@[simp] theorem get?_set_self : (d.set k v).get? k = some v := by
  rw [get?_set, if_pos rfl]

theorem get?_set_of_ne {k a : κ} (h : a ≠ k) : (d.set k v).get? a = d.get? a := by
  rw [get?_set, if_neg h]

theorem get?_erase : (d.erase k).get? a = if a = k then none else d.get? a :=
  Items.find_filter k a d.items

@[simp] theorem get?_erase_self : (d.erase k).get? k = none := by
  rw [get?_erase, if_pos rfl]

theorem get?_erase_of_ne {k a : κ} (h : a ≠ k) : (d.erase k).get? a = d.get? a := by
  rw [get?_erase, if_neg h]

theorem mem_keys_iff {a : κ} : a ∈ d.items.map Prod.fst ↔ (d.get? a).isSome = true :=
  Items.mem_keys_iff

/-- The items are what a lookup finds. -/
theorem get?_eq_some_iff {k : κ} {v : ν} : d.get? k = some v ↔ (k, v) ∈ d.items :=
  Items.find_eq_some_iff d.nodup

/-- A new key says nothing about other values. -/
theorem get?_set_eq_some_iff {k a : κ} {v w : ν} (h : d.get? k = none) (hne : v ≠ w) :
    (d.set k v).get? a = some w ↔ d.get? a = some w := by
  rw [get?_set]
  split
  · next heq => simp [heq, h, hne]
  · exact Iff.rfl

/-- Without its key, a value is lost, but no other one. -/
theorem get?_erase_eq_some_iff {k a : κ} {v w : ν} (h : d.get? k = some v) (hne : v ≠ w) :
    (d.erase k).get? a = some w ↔ d.get? a = some w := by
  rw [get?_erase]
  split
  · next heq => simp [heq, h, hne]
  · exact Iff.rfl

theorem get?_update_of_notMem {items : List (κ × ν)} (h : a ∉ items.map Prod.fst) :
    (d.update items).get? a = d.get? a := by
  induction items generalizing d with
  | nil => rfl
  | cons item rest ih =>
    rw [List.map_cons, List.mem_cons, not_or] at h
    exact (ih (d.set item.1 item.2) h.2).trans (get?_set_of_ne d item.2 h.1)

/-- Each key once: no item is overridden by a later one. -/
theorem get?_update_of_mem {items : List (κ × ν)} (hnodup : (items.map Prod.fst).Nodup)
    {item : κ × ν} (h : item ∈ items) : (d.update items).get? item.1 = some item.2 := by
  induction items generalizing d with
  | nil => cases h
  | cons first rest ih =>
    rw [List.map_cons, List.nodup_cons] at hnodup
    rcases List.mem_cons.mp h with rfl | hmem
    · exact (get?_update_of_notMem (d.set item.1 item.2) _ hnodup.1).trans
        (get?_set_self d item.1 item.2)
    · exact ih (d.set first.1 first.2) hnodup.2 hmem

/-- A reader that skips a key does not see an assignment to it. -/
theorem filterMap_set {β : Type} {f : κ × ν → Option β} {k : κ} (hf : ∀ v, f (k, v) = none)
    (d : Dict κ ν) (v : ν) : (d.set k v).items.filterMap f = d.items.filterMap f := by
  change (Items.assign k v d.items).filterMap f = _
  induction d.items with
  | nil => simp [Items.assign, hf]
  | cons item rest ih =>
    by_cases h : item.1 = k
    · obtain ⟨key, value⟩ := item
      obtain rfl : key = k := h
      simp [Items.assign, hf]
    · simp only [Items.assign, h, if_false, List.filterMap_cons, ih]

end Dict

end Iams.Lib
