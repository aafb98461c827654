/-
Iams.Lib.Overlay — dictionaries that are written over again and again.

A dictionary is its keys, in order, and what a lookup finds
(`Dict.ext_keys`). So a second update of the same keys leaves nothing of a
first one (`update_update`).

`Absorbs names base d` says that `d` is `base` with values written to it
that do not count any more: whatever is written at `names` next, the result
is what it would be over `base`. Writing at `names`, or at the first of
them, keeps that (`Absorbs.update`). It is what a piece of code may rely on
that shares one dictionary between its runs.

No `sorry`, no `axiom`, no `native_decide`.
-/
import Iams.Lib.Dict

namespace Iams.Lib

variable {κ ν : Type} [DecidableEq κ]

/-- Lists with the same keys in one order, and the same values. -/
theorem Items.ext_find {items items' : List (κ × ν)} (hnodup : (items.map Prod.fst).Nodup)
    (hkeys : items.map Prod.fst = items'.map Prod.fst)
    (hfind : ∀ k, find k items = find k items') : items = items' := by
  induction items generalizing items' with
  | nil => exact (List.map_eq_nil_iff.mp hkeys.symm).symm
  | cons item rest ih =>
    cases items' with
    | nil => cases hkeys
    | cons item' rest' =>
      obtain ⟨key, value⟩ := item
      obtain ⟨key', value'⟩ := item'
      obtain ⟨rfl, hrest⟩ := List.cons.inj hkeys
      rw [List.map_cons, List.nodup_cons] at hnodup
      have hvalue := hfind key
      simp only [find, if_pos] at hvalue
      cases hvalue
      rw [ih hnodup.2 hrest fun k => ?_]
      by_cases hk : key = k
      · subst hk
        have hmissing {l : List (κ × ν)} (h : key ∉ l.map Prod.fst) : find key l = none := by
          rw [mem_keys_iff] at h
          exact Option.not_isSome_iff_eq_none.mp h
        rw [hmissing hnodup.1, hmissing]
        have hkeys : rest.map Prod.fst = rest'.map Prod.fst := hrest
        rw [← hkeys]
        exact hnodup.1
      · have hk' := hfind k
        simpa only [find, if_neg hk] using hk'

/-- A key that is there stays where it is. -/
theorem Items.keys_assign_of_mem {k : κ} {items : List (κ × ν)} (h : k ∈ items.map Prod.fst)
    (v : ν) : (assign k v items).map Prod.fst = items.map Prod.fst := by
  induction items with
  | nil => cases h
  | cons item rest ih =>
    by_cases hk : item.1 = k
    · simp [assign, hk]
    · rw [List.map_cons, List.mem_cons] at h
      rw [assign, if_neg hk, List.map_cons, List.map_cons, ih (h.resolve_left (Ne.symm hk))]

/-- A key that is not there is appended. -/
theorem Items.assign_of_notMem {k : κ} {items : List (κ × ν)} (h : k ∉ items.map Prod.fst)
    (v : ν) : assign k v items = items ++ [(k, v)] := by
  induction items with
  | nil => rfl
  | cons item rest ih =>
    rw [List.map_cons, List.mem_cons, not_or] at h
    rw [assign, if_neg (Ne.symm h.1), ih h.2]
    rfl

namespace Dict

/-- `list(d)` -/
def keys (d : Dict κ ν) : List κ := d.items.map Prod.fst

theorem ext_keys {d d' : Dict κ ν} (hkeys : d.keys = d'.keys) (hget : ∀ k, d.get? k = d'.get? k) :
    d = d' := by
  obtain ⟨items, hnodup⟩ := d
  obtain ⟨items', hnodup'⟩ := d'
  obtain rfl : items = items' := Items.ext_find hnodup hkeys hget
  rfl

/-! ## The keys of an update -/

/-- A key that is written. -/
def addKey (keys : List κ) (k : κ) : List κ := if k ∈ keys then keys else keys ++ [k]

theorem keys_set (d : Dict κ ν) (k : κ) (v : ν) : (d.set k v).keys = addKey d.keys k := by
  unfold addKey
  split
  · next hmem => exact Items.keys_assign_of_mem hmem v
  · next hmem =>
    calc (d.set k v).keys = (d.items ++ [(k, v)]).map Prod.fst :=
          congrArg _ (Items.assign_of_notMem hmem v)
      _ = d.keys ++ [k] := List.map_append

theorem keys_update (d : Dict κ ν) (l : List (κ × ν)) :
    (d.update l).keys = (l.map Prod.fst).foldl addKey d.keys := by
  induction l generalizing d with
  | nil => rfl
  | cons item rest ih =>
    rw [List.map_cons, List.foldl_cons, ← keys_set]
    exact ih (d.set item.1 item.2)

theorem mem_foldl_addKey {keys names : List κ} {k : κ} :
    k ∈ names.foldl addKey keys ↔ k ∈ keys ∨ k ∈ names := by
  induction names generalizing keys with
  | nil => simp
  | cons name rest ih =>
    rw [List.foldl_cons, ih, List.mem_cons]
    unfold addKey
    split
    · next hmem =>
      constructor
      · rintro (h | h)
        · exact .inl h
        · exact .inr (.inr h)
      · rintro (h | rfl | h)
        · exact .inl h
        · exact .inl hmem
        · exact .inr h
    · rw [List.mem_append, List.mem_singleton, or_assoc]

/-- Keys that are there are not added. -/
theorem foldl_addKey_of_subset {keys names : List κ} (h : ∀ k ∈ names, k ∈ keys) :
    names.foldl addKey keys = keys := by
  induction names with
  | nil => rfl
  | cons name rest ih =>
    rw [List.foldl_cons, addKey, if_pos (h name List.mem_cons_self)]
    exact ih fun k hk => h k (List.mem_cons_of_mem _ hk)

/-! ## Updates over each other -/

/-- The value of a key that is written does not depend on what was there. -/
theorem get?_update_congr (d d' : Dict κ ν) {l : List (κ × ν)} {k : κ}
    (h : k ∈ l.map Prod.fst) : (d.update l).get? k = (d'.update l).get? k := by
  induction l generalizing d d' with
  | nil => cases h
  | cons item rest ih =>
    by_cases hrest : k ∈ rest.map Prod.fst
    · exact ih (d.set item.1 item.2) (d'.set item.1 item.2) hrest
    · have hk : k = item.1 := by
        rw [List.map_cons, List.mem_cons] at h
        exact h.resolve_right hrest
      calc (d.update (item :: rest)).get? k = (d.set item.1 item.2).get? k :=
            get?_update_of_notMem _ _ hrest
        _ = (d'.set item.1 item.2).get? k := by rw [hk, get?_set_self, get?_set_self]
        _ = (d'.update (item :: rest)).get? k := (get?_update_of_notMem _ _ hrest).symm

theorem update_append (d : Dict κ ν) (l l' : List (κ × ν)) :
    d.update (l ++ l') = (d.update l).update l' := List.foldl_append

/-- A second update of the same keys leaves nothing of the first. -/
theorem update_update (d : Dict κ ν) {l l' : List (κ × ν)}
    (h : l.map Prod.fst = l'.map Prod.fst) : (d.update l).update l' = d.update l' := by
  refine ext_keys ?_ fun k => ?_
  · rw [keys_update, keys_update, keys_update, ← h]
    exact foldl_addKey_of_subset fun k hk => mem_foldl_addKey.mpr (.inr hk)
  · by_cases hk : k ∈ l'.map Prod.fst
    · exact get?_update_congr _ _ hk
    · rw [get?_update_of_notMem _ _ hk, get?_update_of_notMem _ _ hk]
      exact get?_update_of_notMem _ _ (h ▸ hk)

/-- Whatever is written at these keys, the result is as over `base`. -/
def Absorbs (names : List κ) (base d : Dict κ ν) : Prop :=
  ∀ l : List (κ × ν), l.map Prod.fst = names → d.update l = base.update l

theorem Absorbs.refl (names : List κ) (d : Dict κ ν) : Absorbs names d d := fun _ _ => rfl

/-- Writing at these keys from the first on is not seen later. -/
theorem Absorbs.update {names : List κ} {base d : Dict κ ν} (h : Absorbs names base d)
    {written : List (κ × ν)} (hwritten : written.map Prod.fst <+: names) :
    Absorbs names base (d.update written) := by
  intro l hl
  obtain ⟨names', hnames⟩ := hwritten
  -- the part of `l` that overrides what was written
  obtain ⟨l₁, l₂, rfl, h₁, -⟩ := List.map_eq_append_iff.mp (hl.trans hnames.symm)
  have h₁ : written.map Prod.fst = l₁.map Prod.fst := h₁.symm
  rw [update_append, update_update _ h₁, ← update_append]
  exact h _ hl

/-- New keys are added behind the others. -/
theorem items_update_of_new (d : Dict κ ν) {l : List (κ × ν)}
    (hnew : ∀ item ∈ l, item.1 ∉ d.keys) (hnodup : (l.map Prod.fst).Nodup) :
    (d.update l).items = d.items ++ l := by
  induction l generalizing d with
  | nil => exact (List.append_nil _).symm
  | cons item rest ih =>
    rw [List.map_cons, List.nodup_cons] at hnodup
    have hitem : (d.set item.1 item.2).items = d.items ++ [item] :=
      Items.assign_of_notMem (hnew item List.mem_cons_self) item.2
    have hrest := ih (d.set item.1 item.2) (fun other hother => ?_) hnodup.2
    · rw [show d.update (item :: rest) = (d.set item.1 item.2).update rest from rfl, hrest, hitem,
        List.append_assoc, List.singleton_append]
    · rw [keys, hitem, List.map_append, List.mem_append, not_or]
      refine ⟨hnew other (List.mem_cons_of_mem _ hother), fun hmem => hnodup.1 ?_⟩
      rw [← List.mem_singleton.mp hmem]
      exact List.mem_map_of_mem hother

/-- `dict(l)` -/
def ofPairs (l : List (κ × ν)) : Dict κ ν := empty.update l

/-- Pairs with different keys are the items of their dictionary. -/
theorem items_ofPairs {l : List (κ × ν)} (hnodup : (l.map Prod.fst).Nodup) :
    (ofPairs l).items = l :=
  items_update_of_new empty (fun _ _ => List.not_mem_nil) hnodup

end Dict

end Iams.Lib
