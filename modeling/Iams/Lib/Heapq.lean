/-
Iams.Lib.Heapq — CPython's `heapq` on a list.

`heappush` appends and lets the new entry rise; `heappop` puts the last
entry at the root, lets it fall along the smaller children down to a
leaf, and lets it rise again from there. An entry moves by exchanging it
with its neighbour, as in CPython's own implementation, and the code asks
for nothing but `lt`. Both loops carry a bound on their steps that is
never reached.

Under a weak order the operations keep `IsHeap` (`heappush_isHeap`,
`heappop_isHeap`), and what `heappop` returns is an entry that no entry
is less than (`heappop_least`). Nothing is said about the order in which
entries leave that are not less than each other: the heap is not stable.

No `sorry`, no `axiom`, no `native_decide`.
-/
import Iams.Lib.Sorting

namespace Iams.Lib.Heapq

variable {α : Type}

/-! ## The algorithm -/

/-- `(pos - 1) >> 1`. -/
def parent (pos : Nat) : Nat := (pos - 1) / 2

/-- `_siftdown`: the entry at `pos` rises towards `startpos`, past every
parent that it is less than. -/
def siftdown (lt : α → α → Bool) (startpos : Nat) : Nat → List α → Nat → List α
  | 0, heap, _ => heap
  | steps + 1, heap, pos =>
    if startpos < pos then
      match heap[pos]?, heap[parent pos]? with
      | some newitem, some above =>
        if lt newitem above then
          siftdown lt startpos steps (heap.swap (parent pos) pos) (parent pos)
        else heap
      | _, _ => heap
    else heap

/-- The smaller child of `pos`, the right one unless the left one is less. -/
def smallerChild (lt : α → α → Bool) (heap : List α) (pos : Nat) : Nat :=
  match heap[2 * pos + 1]?, heap[2 * pos + 2]? with
  | some left, some right => if lt left right then 2 * pos + 1 else 2 * pos + 2
  | _, _ => 2 * pos + 1

/-- `_siftup`: the entry at `pos` falls to a leaf, past the smaller child
at each level, and rises again from there. -/
def siftup (lt : α → α → Bool) (startpos : Nat) : Nat → List α → Nat → List α
  | 0, heap, _ => heap
  | steps + 1, heap, pos =>
    if 2 * pos + 1 < heap.length then
      siftup lt startpos steps (heap.swap (smallerChild lt heap pos) pos)
        (smallerChild lt heap pos)
    else siftdown lt startpos heap.length heap pos

/-- `heappush`. -/
def heappush (lt : α → α → Bool) (heap : List α) (item : α) : List α :=
  siftdown lt 0 (heap.length + 1) (heap ++ [item]) heap.length

/-- `heappop`, with `none` where the heap is empty. -/
def heappop (lt : α → α → Bool) (heap : List α) : Option (α × List α) :=
  match heap.getLast? with
  | none => none
  | some lastelt =>
    match heap.dropLast with
    | [] => some (lastelt, [])
    | returnitem :: rest =>
      some (returnitem, siftup lt 0 (rest.length + 1) (lastelt :: rest) 0)

/-! ## Positions -/

theorem parent_lt {pos : Nat} (h : 0 < pos) : parent pos < pos := by
  unfold parent; omega

/-- The positions below `pos` are its two children. -/
theorem parent_eq_iff {i pos : Nat} (hi : 0 < i) :
    parent i = pos ↔ i = 2 * pos + 1 ∨ i = 2 * pos + 2 := by
  unfold parent; omega

/-- An exchange of two positions, seen from a position. -/
theorem getElem?_swap {l : List α} {i j : Nat} (hi : i < l.length) (hj : j < l.length)
    (k : Nat) : (l.swap i j)[k]? = if k = i then l[j]? else if k = j then l[i]? else l[k]? := by
  rw [List.swap_eq_of_lt hi hj, List.getElem?_set, List.getElem?_set]
  grind

/-! ## The heap order -/

/-- The entry at position `j`, if there is one, is not less than the one at
position `i`. -/
def Before (lt : α → α → Bool) (heap : List α) (i j : Nat) : Prop :=
  ∀ x y, heap[i]? = some x → heap[j]? = some y → lt y x = false

/-- No entry is less than its parent. -/
def IsHeap (lt : α → α → Bool) (heap : List α) : Prop :=
  ∀ i, 0 < i → Before lt heap (parent i) i

variable {lt : α → α → Bool} {heap : List α}

theorem Before.of_length_le {i j : Nat} (hj : heap.length ≤ j) : Before lt heap i j := by
  intro x y _ hy
  rw [List.getElem?_eq_none hj] at hy
  cases hy

theorem Before.refl (h : WeakOrderOn lt heap) (i : Nat) : Before lt heap i i := by
  intro x y hx hy
  obtain rfl : x = y := Option.some.inj (hx.symm.trans hy)
  have hmem := List.mem_of_getElem? hx
  by_contra hlt
  have hlt : lt x x = true := by simpa using hlt
  exact absurd (h.asymm x hmem x hmem hlt) (by simp [hlt])

theorem Before.trans (h : WeakOrderOn lt heap) {i j k : Nat} (hj : j < heap.length)
    (hij : Before lt heap i j) (hjk : Before lt heap j k) : Before lt heap i k := by
  intro x z hx hz
  have hy := List.getElem?_eq_getElem hj
  exact h.notLtTrans x (List.mem_of_getElem? hx) _ (List.getElem_mem hj) z
    (List.mem_of_getElem? hz) (hij x _ hx hy) (hjk _ z hy hz)

/-- What is less is before. -/
theorem Before.of_lt (h : WeakOrderOn lt heap) {i j : Nat} {x y : α} (hx : heap[i]? = some x)
    (hy : heap[j]? = some y) (hlt : lt x y = true) : Before lt heap i j := by
  intro x' y' hx' hy'
  obtain rfl : x = x' := Option.some.inj (hx.symm.trans hx')
  obtain rfl : y = y' := Option.some.inj (hy.symm.trans hy')
  exact h.asymm x (List.mem_of_getElem? hx) y (List.mem_of_getElem? hy) hlt

theorem Before.of_not_lt {i j : Nat} {x y : α} (hx : heap[i]? = some x)
    (hy : heap[j]? = some y) (hlt : lt y x = false) : Before lt heap i j := by
  intro x' y' hx' hy'
  obtain rfl : x = x' := Option.some.inj (hx.symm.trans hx')
  obtain rfl : y = y' := Option.some.inj (hy.symm.trans hy')
  exact hlt

/-- The order only depends on the two entries. -/
theorem Before.congr {heap' : List α} {i j i' j' : Nat} (h : Before lt heap i j)
    (hi : heap'[i']? = heap[i]?) (hj : heap'[j']? = heap[j]?) : Before lt heap' i' j' := by
  intro x y hx hy
  exact h x y (hi ▸ hx) (hj ▸ hy)

/-- The root of a heap comes before every entry. -/
theorem IsHeap.root (h : IsHeap lt heap) (hweak : WeakOrderOn lt heap) (i : Nat) :
    Before lt heap 0 i := by
  induction i using Nat.strongRecOn with
  | ind i ih =>
    rcases Nat.eq_zero_or_pos i with rfl | hi
    · exact .refl hweak 0
    by_cases hlen : heap.length ≤ i
    · exact .of_length_le hlen
    · have hlt := parent_lt hi
      exact (ih (parent i) hlt).trans hweak (by omega) (h i hi)

theorem isHeap_nil : IsHeap lt ([] : List α) := fun _ _ => .of_length_le (Nat.zero_le _)

/-! ## An entry rises -/

/-- A heap but for the entry at `pos`, which may be less than its parent. -/
structure Rising (lt : α → α → Bool) (heap : List α) (pos : Nat) : Prop where
  off : ∀ i, 0 < i → i ≠ pos → Before lt heap (parent i) i
  above : 0 < pos → ∀ i, 0 < i → parent i = pos → Before lt heap (parent pos) i

/-- The entry changes places with its parent. -/
theorem Rising.exchange {pos : Nat} (h : Rising lt heap pos) (hweak : WeakOrderOn lt heap)
    (hpos : 0 < pos) {newitem above : α} (hnew : heap[pos]? = some newitem)
    (habove : heap[parent pos]? = some above) (hlt : lt newitem above = true) :
    Rising lt (heap.swap (parent pos) pos) (parent pos) := by
  have hq := parent_lt hpos
  have hlen : pos < heap.length := (List.getElem?_eq_some_iff.mp hnew).1
  have hswap := getElem?_swap (l := heap) (i := parent pos) (j := pos) (by omega) hlen
  -- the two entries in their new places, and the others where they were
  have hup : (heap.swap (parent pos) pos)[parent pos]? = heap[pos]? := by simp [hswap]
  have hdown : (heap.swap (parent pos) pos)[pos]? = heap[parent pos]? := by
    rw [hswap, if_neg (by omega), if_pos rfl]
  have hother {i : Nat} (hi : i ≠ parent pos) (hi' : i ≠ pos) :
      (heap.swap (parent pos) pos)[i]? = heap[i]? := by rw [hswap, if_neg hi, if_neg hi']
  have hbefore : Before lt heap pos (parent pos) := .of_lt hweak hnew habove hlt
  constructor
  · intro i hi hne
    by_cases hipos : i = pos
    · subst hipos
      exact hbefore.congr hup hdown
    by_cases hchild : parent i = pos
    · rw [hchild]
      exact (h.above hpos i hi hchild).congr hdown (hother hne hipos)
    by_cases hsibling : parent i = parent pos
    · rw [hsibling]
      refine (hbefore.trans hweak (by omega) ?_).congr hup (hother hne hipos)
      exact hsibling ▸ h.off i hi hipos
    · exact (h.off i hi hipos).congr (hother hsibling hchild) (hother hne hipos)
  · intro hq0 i hi hparent
    have hpp := parent_lt hq0
    have hgrand := h.off (parent pos) hq0 (by omega)
    by_cases hipos : i = pos
    · subst hipos
      exact hgrand.congr (hother (by omega) (by omega)) hdown
    · have hne : i ≠ parent pos := by
        have := parent_lt hi
        omega
      have := h.off i hi hipos
      rw [hparent] at this
      exact (hgrand.trans hweak (by omega) this).congr (hother (by omega) (by omega))
        (hother hne hipos)

/-- Where the entry is not less than its parent, it has found its place. -/
theorem Rising.isHeap {pos : Nat} (h : Rising lt heap pos)
    (hplace : 0 < pos → Before lt heap (parent pos) pos) : IsHeap lt heap := by
  intro i hi
  by_cases hipos : i = pos
  · subst hipos
    exact hplace hi
  · exact h.off i hi hipos

theorem siftdown_perm (startpos steps : Nat) (heap : List α) (pos : Nat) :
    (siftdown lt startpos steps heap pos).Perm heap := by
  fun_induction siftdown lt startpos steps heap pos with
  | case1 => exact .refl _
  | case2 _ _ _ _ _ _ _ _ _ ih => exact ih.trans (List.swap_perm _ _ _)
  | case3 => exact .refl _
  | case4 => exact .refl _
  | case5 => exact .refl _

/-- An entry that rises to the root at most leaves a heap. -/
theorem siftdown_isHeap {steps pos : Nat} (hweak : WeakOrderOn lt heap)
    (h : Rising lt heap pos) (hsteps : pos < steps) : IsHeap lt (siftdown lt 0 steps heap pos) := by
  induction steps generalizing heap pos with
  | zero => omega
  | succ steps ih =>
    rw [siftdown]
    split
    · next hpos =>
      split
      · next newitem above hnew habove =>
        split
        · next hlt =>
          have hmem {a : α} := (List.swap_perm heap (parent pos) pos).mem_iff (a := a)
          have hq := parent_lt hpos
          exact ih (hweak.mono fun a ha => hmem.mp ha)
            (h.exchange hweak hpos hnew habove hlt) (by omega)
        · next hlt =>
          exact h.isHeap fun _ => .of_not_lt habove hnew (by simpa using hlt)
      · next hnone =>
        refine h.isHeap fun _ x y hx hy => ?_
        exact absurd hx (hnone y x hy)
    · next hpos => exact h.isHeap fun h0 => absurd h0 hpos

/-! ## An entry falls -/

/-- A heap but for the entry at `pos`, which may be anything; its children
are not less than its parent. -/
structure Falling (lt : α → α → Bool) (heap : List α) (pos : Nat) : Prop where
  off : ∀ i, 0 < i → i ≠ pos → parent i ≠ pos → Before lt heap (parent i) i
  above : 0 < pos → ∀ i, 0 < i → parent i = pos → Before lt heap (parent pos) i

/-- The smaller child is a child, and its sibling is not less. -/
theorem smallerChild_spec {pos : Nat} (hweak : WeakOrderOn lt heap)
    (hpos : 2 * pos + 1 < heap.length) :
    smallerChild lt heap pos < heap.length ∧ pos < smallerChild lt heap pos ∧
      parent (smallerChild lt heap pos) = pos ∧
      ∀ i, 0 < i → parent i = pos → Before lt heap (smallerChild lt heap pos) i := by
  have hchildren {i : Nat} (hi : 0 < i) (hparent : parent i = pos) :=
    (parent_eq_iff hi).mp hparent
  unfold smallerChild
  split
  · next left right hleft hright =>
    have hlen := (List.getElem?_eq_some_iff.mp hright).1
    split
    · next hlt =>
      refine ⟨by omega, by omega, (parent_eq_iff (by omega)).mpr (.inl rfl), ?_⟩
      intro i hi hparent
      obtain rfl | rfl := hchildren hi hparent
      · exact .refl hweak _
      · exact .of_lt hweak hleft hright hlt
    · next hlt =>
      refine ⟨hlen, by omega, (parent_eq_iff (by omega)).mpr (.inr rfl), ?_⟩
      intro i hi hparent
      obtain rfl | rfl := hchildren hi hparent
      · exact .of_not_lt hright hleft (by simpa using hlt)
      · exact .refl hweak _
  · next hnone =>
    refine ⟨hpos, by omega, (parent_eq_iff (by omega)).mpr (.inl rfl), ?_⟩
    intro i hi hparent
    obtain rfl | rfl := hchildren hi hparent
    · exact .refl hweak _
    · refine .of_length_le (le_of_not_gt fun hlen => ?_)
      exact hnone _ _ (List.getElem?_eq_getElem hpos) (List.getElem?_eq_getElem hlen)

/-- The entry changes places with its smaller child. -/
theorem Falling.exchange {pos : Nat} (h : Falling lt heap pos) (hweak : WeakOrderOn lt heap)
    (hpos : 2 * pos + 1 < heap.length) :
    Falling lt (heap.swap (smallerChild lt heap pos) pos) (smallerChild lt heap pos) := by
  obtain ⟨hlen, hlt, hchild, hleast⟩ := smallerChild_spec hweak hpos
  generalize smallerChild lt heap pos = c at hlen hlt hchild hleast ⊢
  have hswap := getElem?_swap hlen (show pos < heap.length by omega)
  have hup : (heap.swap c pos)[pos]? = heap[c]? := by rw [hswap, if_neg (by omega), if_pos rfl]
  have hother {i : Nat} (hi : i ≠ c) (hi' : i ≠ pos) : (heap.swap c pos)[i]? = heap[i]? := by
    rw [hswap, if_neg hi, if_neg hi']
  constructor
  · intro i hi hic hparent
    by_cases hipos : i = pos
    · subst hipos
      have hp := parent_lt hi
      exact (h.above hi c (by omega) hchild).congr (hother hparent (by omega)) hup
    by_cases hsibling : parent i = pos
    · rw [hsibling]
      exact (hleast i hi hsibling).congr hup (hother hic hipos)
    · exact (h.off i hi hipos hsibling).congr (hother hparent hsibling) (hother hic hipos)
  · intro _ i hi hparent
    have hgt := parent_lt hi
    have hbefore := h.off i hi (by omega) (by omega)
    rw [hparent] at hbefore
    rw [hchild]
    exact hbefore.congr hup (hother (by omega) (by omega))

/-- At a leaf, only the entry itself is out of place. -/
theorem Falling.rising {pos : Nat} (h : Falling lt heap pos)
    (hleaf : heap.length ≤ 2 * pos + 1) : Rising lt heap pos := by
  have hnone {i : Nat} (hi : 0 < i) (hparent : parent i = pos) (j : Nat) : Before lt heap j i := by
    have := (parent_eq_iff hi).mp hparent
    exact .of_length_le (by omega)
  constructor
  · intro i hi hipos
    by_cases hparent : parent i = pos
    · exact hnone hi hparent _
    · exact h.off i hi hipos hparent
  · intro _ i hi hparent
    exact hnone hi hparent _

theorem siftup_perm (startpos steps : Nat) (heap : List α) (pos : Nat) :
    (siftup lt startpos steps heap pos).Perm heap := by
  fun_induction siftup lt startpos steps heap pos with
  | case1 => exact .refl _
  | case2 _ _ _ _ ih => exact ih.trans (List.swap_perm _ _ _)
  | case3 => exact siftdown_perm _ _ _ _

/-- An entry that falls from anywhere leaves a heap. -/
theorem siftup_isHeap {steps pos : Nat} (hweak : WeakOrderOn lt heap)
    (h : Falling lt heap pos) (hpos : pos < heap.length) (hsteps : heap.length ≤ pos + steps) :
    IsHeap lt (siftup lt 0 steps heap pos) := by
  induction steps generalizing heap pos with
  | zero => omega
  | succ steps ih =>
    rw [siftup]
    split
    · next hchild =>
      have hmem {a : α} := (List.swap_perm heap (smallerChild lt heap pos) pos).mem_iff (a := a)
      obtain ⟨hlen, hlt, -, -⟩ := smallerChild_spec hweak hchild
      refine ih (hweak.mono fun a ha => hmem.mp ha) (h.exchange hweak hchild) ?_ ?_
      · rw [List.length_swap]
        exact hlen
      · rw [List.length_swap]
        omega
    · next hleaf => exact siftdown_isHeap hweak (h.rising (by omega)) hpos

/-! ## The operations -/

theorem heappush_perm (heap : List α) (item : α) :
    (heappush lt heap item).Perm (item :: heap) :=
  (siftdown_perm _ _ _ _).trans List.perm_append_comm

theorem heappush_isHeap {item : α} (hweak : WeakOrderOn lt (item :: heap))
    (h : IsHeap lt heap) : IsHeap lt (heappush lt heap item) := by
  have hbelow {i : Nat} (hi : i < heap.length) : (heap ++ [item])[i]? = heap[i]? :=
    List.getElem?_append_left hi
  refine siftdown_isHeap (hweak.mono fun a ha => List.perm_append_comm.mem_iff.mp ha) ⟨?_, ?_⟩
    (Nat.lt_succ_self _)
  · intro i hi hne
    have hp := parent_lt hi
    by_cases hlen : i < heap.length
    · exact (h i hi).congr (hbelow (by omega)) (hbelow hlen)
    · refine .of_length_le ?_
      rw [List.length_append, List.length_singleton]
      omega
  · intro _ i hi hparent
    have hp := parent_lt hi
    refine .of_length_le ?_
    rw [List.length_append, List.length_singleton]
    omega

theorem heappop_eq_none : heappop lt heap = none ↔ heap = [] := by
  unfold heappop
  split
  · next h => simpa using h
  · next lastelt h =>
    have : heap ≠ [] := by
      rintro rfl
      simp at h
    split <;> simp [this]

/-- The root leaves; the last entry, if it is another one, takes its place
and falls. -/
theorem heappop_cases {item : α} {rest : List α} (h : heappop lt heap = some (item, rest)) :
    heap = [item] ∧ rest = [] ∨
      ∃ others lastelt, heap = item :: others ++ [lastelt] ∧
        rest = siftup lt 0 (others.length + 1) (lastelt :: others) 0 := by
  unfold heappop at h
  split at h
  · cases h
  · next lastelt hlast =>
    have heq := List.dropLast_append_getLast? lastelt hlast
    split at h
    · next hnil =>
      obtain ⟨rfl, rfl⟩ := Prod.mk.inj (Option.some.inj h)
      rw [hnil] at heq
      exact .inl ⟨heq.symm, rfl⟩
    · next returnitem others hcons =>
      obtain ⟨rfl, rfl⟩ := Prod.mk.inj (Option.some.inj h)
      rw [hcons] at heq
      exact .inr ⟨others, lastelt, heq.symm, rfl⟩

theorem heappop_perm {item : α} {rest : List α} (h : heappop lt heap = some (item, rest)) :
    heap.Perm (item :: rest) := by
  obtain ⟨rfl, rfl⟩ | ⟨others, lastelt, rfl, rfl⟩ := heappop_cases h
  · exact .refl _
  · exact .cons _ (List.perm_append_comm.trans (siftup_perm _ _ _ _).symm)

theorem heappop_isHeap {item : α} {rest : List α} (hweak : WeakOrderOn lt heap)
    (hheap : IsHeap lt heap) (h : heappop lt heap = some (item, rest)) : IsHeap lt rest := by
  obtain ⟨-, rfl⟩ | ⟨others, lastelt, rfl, rfl⟩ := heappop_cases h
  · exact isHeap_nil
  have hmem {a : α} (ha : a ∈ lastelt :: others) : a ∈ item :: others ++ [lastelt] := by
    simpa [or_comm] using List.mem_cons_of_mem item ha
  refine siftup_isHeap (hweak.mono fun a ha => hmem ha) ⟨?_, ?_⟩ (by simp) (by simp)
  · -- away from the root the entries are where they were
    intro i hi _ hparent
    have hkeep {j : Nat} (hj : 0 < j) (hlen : j < (lastelt :: others).length) :
        (lastelt :: others)[j]? = (item :: others ++ [lastelt])[j]? := by
      obtain ⟨k, rfl⟩ := Nat.exists_eq_add_of_lt hj
      simp only [List.length_cons] at hlen
      simp [List.getElem?_append_left (show k < others.length by omega)]
    by_cases hlen : i < (lastelt :: others).length
    · have hp := parent_lt hi
      exact (hheap i hi).congr (hkeep (by omega) (by omega)) (hkeep hi hlen)
    · exact .of_length_le (by omega)
  · intro h0
    omega

/-- The entry that leaves: no entry is less. -/
theorem heappop_least {item : α} {rest : List α} (hweak : WeakOrderOn lt heap)
    (hheap : IsHeap lt heap) (h : heappop lt heap = some (item, rest)) :
    ∀ a ∈ heap, lt a item = false := by
  have hroot : heap[0]? = some item := by
    obtain ⟨rfl, -⟩ | ⟨others, lastelt, rfl, -⟩ := heappop_cases h <;> rfl
  intro a ha
  obtain ⟨i, hi⟩ := List.mem_iff_getElem?.mp ha
  exact hheap.root hweak i item a hroot hi

end Iams.Lib.Heapq
