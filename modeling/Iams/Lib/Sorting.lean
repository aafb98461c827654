/-
Iams.Lib.Sorting — comparison sorting as a caller may rely on it.

A sort that only calls a Boolean "less than" promises something about
the order of its result only where that comparison is a strict weak
order on the list it is given. `WeakOrderOn lt l` is that condition,
restricted to the members of one list, and a `Sorter` is any procedure
that permutes its input and, under the condition, returns it ordered and
stable. Nothing is promised about a comparison that is not a weak order,
except that the result is a permutation that depends on the comparisons
between members only.

`Sorter.insertion` is an executable instance. `WeakOrderOn.of_rank` is
the way a comparison is usually shown to be a weak order: through a rank
in a linear order; `WeakOrderOn.of_classes` puts a weak order together
from weak orders on classes. Under a weak order the result is determined
(`Arranges.unique`), so that sorting commutes with leaving members out
(`sort_filter`); if no two members are equivalent, it does not depend on
the order of the input either (`sort_eq_of_perm`).

`sortM` is for a comparison that may raise: it returns what `insertion`
does if no comparison raises (`sortM_eq_sort`).

No `sorry`, no `axiom`, no `native_decide`.
-/
import Mathlib.Data.List.Sort
import Mathlib.Order.Basic

namespace Iams.Lib

variable {α : Type}

/-- `lt` is a strict weak order on the members of `l`: two members are
not less than each other both ways round, and "not less than" carries
over along the list. -/
structure WeakOrderOn (lt : α → α → Bool) (l : List α) : Prop where
  asymm : ∀ a ∈ l, ∀ b ∈ l, lt a b = true → lt b a = false
  notLtTrans : ∀ a ∈ l, ∀ b ∈ l, ∀ c ∈ l,
    lt b a = false → lt c b = false → lt c a = false

/-- A comparison that agrees with a rank in a linear order is a weak
order. -/
theorem WeakOrderOn.of_rank {β : Type} [LinearOrder β] (rank : α → β)
    {lt : α → α → Bool} {l : List α}
    (h : ∀ a ∈ l, ∀ b ∈ l, (lt a b = true ↔ rank a < rank b)) :
    WeakOrderOn lt l where
  asymm := by
    intro a ha b hb hab
    rw [Bool.eq_false_iff, ne_eq, h b hb a ha, not_lt]
    exact le_of_lt ((h a ha b hb).mp hab)
  notLtTrans := by
    intro a ha b hb c hc hba hcb
    rw [Bool.eq_false_iff, ne_eq, h b hb a ha, not_lt] at hba
    rw [Bool.eq_false_iff, ne_eq, h c hc b hb, not_lt] at hcb
    rw [Bool.eq_false_iff, ne_eq, h c hc a ha, not_lt]
    exact le_trans hba hcb

theorem WeakOrderOn.irrefl {lt : α → α → Bool} {l : List α} (h : WeakOrderOn lt l) {a : α}
    (ha : a ∈ l) : lt a a = false := by
  cases haa : lt a a with
  | false => rfl
  | true => rw [← haa, h.asymm a ha a ha haa]

theorem WeakOrderOn.trans {lt : α → α → Bool} {l : List α} (h : WeakOrderOn lt l) {a b c : α}
    (ha : a ∈ l) (hb : b ∈ l) (hc : c ∈ l) (hab : lt a b = true) (hbc : lt b c = true) :
    lt a c = true := by
  by_contra hac
  rw [Bool.not_eq_true] at hac
  have hnot := h.notLtTrans c hc a ha b hb hac (h.asymm a ha b hb hab)
  rw [hnot] at hbc
  cases hbc

/-- An order under which two different members are never equivalent is a
weak order. -/
theorem WeakOrderOn.of_total {lt : α → α → Bool} {l : List α}
    (hasymm : ∀ a ∈ l, ∀ b ∈ l, lt a b = true → lt b a = false)
    (htrans : ∀ a ∈ l, ∀ b ∈ l, ∀ c ∈ l, lt a b = true → lt b c = true → lt a c = true)
    (htotal : ∀ a ∈ l, ∀ b ∈ l, lt a b = false → lt b a = false → a = b) :
    WeakOrderOn lt l where
  asymm := hasymm
  notLtTrans := by
    intro a ha b hb c hc hba hcb
    cases hab : lt a b with
    | false => rwa [htotal a ha b hb hab hba]
    | true =>
      cases hbc : lt b c with
      | false => rwa [← htotal b hb c hc hbc hcb]
      | true => exact hasymm a ha c hc (htrans a ha b hb c hc hab hbc)

/-- Fewer members are weakly ordered as well. -/
theorem WeakOrderOn.mono {lt : α → α → Bool} {l l' : List α} (h : WeakOrderOn lt l)
    (hsub : ∀ a ∈ l', a ∈ l) : WeakOrderOn lt l' where
  asymm a ha b hb := h.asymm a (hsub a ha) b (hsub b hb)
  notLtTrans a ha b hb c hc := h.notLtTrans a (hsub a ha) b (hsub b hb) c (hsub c hc)

/-- A comparison by class, weakly ordered within each class, is a weak
order. -/
theorem WeakOrderOn.of_classes {β : Type} [LinearOrder β] (cls : α → β)
    {lt : α → α → Bool} {l : List α}
    (hwithin : ∀ c, WeakOrderOn lt (l.filter fun a => cls a = c))
    (hbetween : ∀ a ∈ l, ∀ b ∈ l, cls a ≠ cls b → (lt a b = true ↔ cls a < cls b)) :
    WeakOrderOn lt l := by
  have hmem {a : α} (ha : a ∈ l) {c : β} (hc : cls a = c) :
      a ∈ l.filter fun a => cls a = c := List.mem_filter.mpr ⟨ha, by simpa using hc⟩
  -- not less than means: of no earlier class
  have hcls {a b : α} (ha : a ∈ l) (hb : b ∈ l) (hba : lt b a = false) : cls a ≤ cls b := by
    by_contra hlt
    rw [not_le] at hlt
    rw [(hbetween b hb a ha (ne_of_lt hlt)).mpr hlt] at hba
    cases hba
  constructor
  · intro a ha b hb hab
    by_cases hc : cls a = cls b
    · exact (hwithin (cls b)).asymm a (hmem ha hc) b (hmem hb rfl) hab
    · have hlt := (hbetween a ha b hb hc).mp hab
      rw [Bool.eq_false_iff, ne_eq, hbetween b hb a ha (Ne.symm hc), not_lt]
      exact le_of_lt hlt
  · intro a ha b hb c hc hba hcb
    have hab := hcls ha hb hba
    have hbc := hcls hb hc hcb
    by_cases hac : cls a = cls c
    · have hb' : cls b = cls c := le_antisymm hbc (hac ▸ hab)
      exact (hwithin (cls c)).notLtTrans a (hmem ha hac) b (hmem hb hb') c (hmem hc rfl) hba hcb
    · rw [Bool.eq_false_iff, ne_eq, hbetween c hc a ha (Ne.symm hac), not_lt]
      exact le_trans hab hbc

/-- A stable sorting procedure. It calls the comparison on members of the
list only (`congr`). -/
structure Sorter (α : Type) where
  sort : (α → α → Bool) → List α → List α
  perm : ∀ lt l, (sort lt l).Perm l
  congr : ∀ lt lt' l, (∀ a ∈ l, ∀ b ∈ l, lt a b = lt' a b) → sort lt l = sort lt' l
  ordered : ∀ lt l, WeakOrderOn lt l →
    (sort lt l).Pairwise (fun a b => lt b a = false)
  stable : ∀ lt l, WeakOrderOn lt l → ∀ a b, [a, b].Sublist l →
    lt b a = false → [a, b].Sublist (sort lt l)

namespace Sorter

theorem mem_sort (S : Sorter α) (lt : α → α → Bool) (l : List α) (a : α) :
    a ∈ S.sort lt l ↔ a ∈ l :=
  (S.perm lt l).mem_iff

/-- Under a rank, the result is ordered by the rank. -/
theorem sort_rank_le {β : Type} [LinearOrder β] (S : Sorter α) (rank : α → β)
    {lt : α → α → Bool} {l : List α}
    (h : ∀ a ∈ l, ∀ b ∈ l, (lt a b = true ↔ rank a < rank b)) :
    (S.sort lt l).Pairwise (fun a b => rank a ≤ rank b) := by
  refine (S.ordered lt l (WeakOrderOn.of_rank rank h)).imp_of_mem ?_
  intro a b ha hb hba
  rw [Bool.eq_false_iff, ne_eq, h b ((S.mem_sort lt l b).mp hb) a
    ((S.mem_sort lt l a).mp ha), not_lt] at hba
  exact hba

/-- A list is a stable arrangement of `l`: its members in order, with
ties as in `l`. -/
structure Arranges (lt : α → α → Bool) (l m : List α) : Prop where
  perm : m.Perm l
  ordered : m.Pairwise fun a b => lt b a = false
  stable : ∀ a b, [a, b].Sublist l → lt b a = false → [a, b].Sublist m

/-- Two members do not occur in both orders. -/
theorem not_both_orders {l : List α} (hl : l.Nodup) {a b : α} (hab : [a, b].Sublist l)
    (hba : [b, a].Sublist l) : False := by
  induction l with
  | nil => cases hab
  | cons c rest ih =>
    obtain ⟨hc, hrest⟩ := List.nodup_cons.mp hl
    cases hab with
    | cons _ hab =>
      cases hba with
      | cons _ hba => exact ih hrest hab hba
      | cons_cons _ hba => exact hc (hab.subset (by simp))
    | cons_cons _ hab =>
      cases hba with
      | cons _ hba => exact hc (hba.subset (by simp))
      | cons_cons _ hba => exact hc (hab.subset (by simp))

/-- Two different members occur in one of the orders. -/
theorem one_of_orders {l : List α} {a b : α} (ha : a ∈ l) (hb : b ∈ l) (hab : a ≠ b) :
    [a, b].Sublist l ∨ [b, a].Sublist l := by
  induction l with
  | nil => cases ha
  | cons c rest ih =>
    rcases List.mem_cons.mp ha with rfl | ha' <;> rcases List.mem_cons.mp hb with rfl | hb'
    · exact absurd rfl hab
    · exact Or.inl ((List.singleton_sublist.mpr hb').cons_cons a)
    · exact Or.inr ((List.singleton_sublist.mpr ha').cons_cons b)
    · exact (ih ha' hb').imp (fun h => h.cons c) (fun h => h.cons c)

/-- There is only one stable arrangement. -/
theorem Arranges.unique {lt : α → α → Bool} {l m m' : List α} (hl : l.Nodup)
    (h : Arranges lt l m) (h' : Arranges lt l m') : m = m' := by
  -- `a` may stand before `b`
  have before {m : List α} (h : Arranges lt l m) : m.Pairwise fun a b =>
      lt b a = false ∧ (lt a b = false → [a, b].Sublist l) := by
    refine List.pairwise_iff_forall_sublist.mpr fun {a b} hab => ?_
    refine ⟨List.pairwise_iff_forall_sublist.mp h.ordered hab, fun hlt => ?_⟩
    have hne : a ≠ b := fun hab' => by
      have := hab.nodup (h.perm.nodup_iff.mpr hl)
      simp [hab'] at this
    have ha : a ∈ l := h.perm.mem_iff.mp (hab.subset (by simp))
    have hb : b ∈ l := h.perm.mem_iff.mp (hab.subset (by simp))
    rcases one_of_orders ha hb hne with hsub | hsub
    · exact hsub
    · exact (not_both_orders (h.perm.nodup_iff.mpr hl) hab (h.stable b a hsub hlt)).elim
  refine List.Perm.eq_of_pairwise ?_ (before h) (before h') (h.perm.trans h'.perm.symm)
  rintro a b - - ⟨hba, hab'⟩ ⟨hab, hba'⟩
  exact (not_both_orders hl (hab' hab) (hba' hba)).elim

/-- Where two different members are never equivalent, the order of the
input does not matter. -/
theorem sort_eq_of_perm (S : Sorter α) {lt : α → α → Bool} {l l' : List α} (h : WeakOrderOn lt l)
    (htotal : ∀ a ∈ l, ∀ b ∈ l, lt a b = false → lt b a = false → a = b) (hperm : l'.Perm l) :
    S.sort lt l' = S.sort lt l := by
  have hmem {a : α} (ha : a ∈ S.sort lt l') : a ∈ l :=
    hperm.mem_iff.mp ((S.mem_sort lt l' a).mp ha)
  have h' : WeakOrderOn lt l' := h.mono fun a ha => hperm.mem_iff.mp ha
  refine List.Perm.eq_of_pairwise ?_ (S.ordered lt l' h') (S.ordered lt l h)
    (((S.perm lt l').trans hperm).trans (S.perm lt l).symm)
  intro a b ha hb hba hab
  exact htotal a (hmem ha) b ((S.mem_sort lt l b).mp hb) hab hba

/-! ## An executable instance -/

/-- "Not after": the reflexive relation a stable sort keeps. -/
def NotAfter (lt : α → α → Bool) (a b : α) : Prop := lt b a = false

instance (lt : α → α → Bool) : DecidableRel (NotAfter lt) :=
  fun a b => inferInstanceAs (Decidable (lt b a = false))

/-- On the members of a list, a weak order makes `NotAfter` a total
preorder. -/
theorem notAfter_attach {lt : α → α → Bool} {l : List α} (h : WeakOrderOn lt l) :
    (∀ a b : {x // x ∈ l}, NotAfter lt a.1 b.1 ∨ NotAfter lt b.1 a.1) ∧
      ∀ a b c : {x // x ∈ l},
        NotAfter lt a.1 b.1 → NotAfter lt b.1 c.1 → NotAfter lt a.1 c.1 := by
  constructor
  · intro a b
    cases hab : lt b.1 a.1 with
    | false => exact Or.inl hab
    | true => exact Or.inr (h.asymm _ b.2 _ a.2 hab)
  · intro a b c hab hbc
    exact h.notLtTrans _ a.2 _ b.2 _ c.2 hab hbc

/-- Sorting a list is sorting its members, with their membership proofs
dropped. -/
theorem insertionSort_attach (lt : α → α → Bool) (l : List α) :
    (l.attach.insertionSort (fun a b => NotAfter lt a.1 b.1)).map Subtype.val
      = l.insertionSort (NotAfter lt) := by
  rw [List.map_insertionSort (fun a b : {x // x ∈ l} => NotAfter lt a.1 b.1)
    (NotAfter lt) Subtype.val l.attach (fun _ _ _ _ => Iff.rfl)]
  rw [List.attach_map_subtype_val]

/-- Insertion sort, as a `Sorter`. -/
def insertion (α : Type) : Sorter α where
  sort lt l := l.insertionSort (NotAfter lt)
  perm lt l := List.perm_insertionSort _ l
  congr lt lt' l h := by
    rw [← insertionSort_attach, ← insertionSort_attach]
    congr 1
    have hrel : (fun a b : {x // x ∈ l} => NotAfter lt a.1 b.1)
        = fun a b => NotAfter lt' a.1 b.1 := by
      funext a b
      rw [NotAfter, NotAfter, h b.1 b.2 a.1 a.2]
    congr 1
  ordered lt l h := by
    obtain ⟨htotal, htrans⟩ := notAfter_attach h
    have : Std.Total (fun a b : {x // x ∈ l} => NotAfter lt a.1 b.1) := ⟨htotal⟩
    have : IsTrans {x // x ∈ l} (fun a b => NotAfter lt a.1 b.1) := ⟨htrans⟩
    rw [← insertionSort_attach]
    exact List.pairwise_map.mpr
      (List.pairwise_insertionSort (fun a b : {x // x ∈ l} => NotAfter lt a.1 b.1) l.attach)
  stable lt l h a b hab hlt := by
    obtain ⟨htotal, htrans⟩ := notAfter_attach h
    have : Std.Total (fun a b : {x // x ∈ l} => NotAfter lt a.1 b.1) := ⟨htotal⟩
    have : IsTrans {x // x ∈ l} (fun a b => NotAfter lt a.1 b.1) := ⟨htrans⟩
    have hmem := hab.subset
    have ha : a ∈ l := hmem (by simp)
    have hb : b ∈ l := hmem (by simp)
    have hab' : [(⟨a, ha⟩ : {x // x ∈ l}), ⟨b, hb⟩].Sublist l.attach := by
      rw [← List.attach_map_subtype_val l] at hab
      obtain ⟨c, hc, hce⟩ := List.sublist_map_iff.mp hab
      match c, hce with
      | [x, y], hce =>
        simp only [List.map_cons, List.map_nil, List.cons.injEq, and_true] at hce
        have hx : x = ⟨a, ha⟩ := Subtype.ext hce.1.symm
        have hy : y = ⟨b, hb⟩ := Subtype.ext hce.2.symm
        rw [hx, hy] at hc
        exact hc
    have hlt' : NotAfter lt (⟨a, ha⟩ : {x // x ∈ l}).1 (⟨b, hb⟩ : {x // x ∈ l}).1 := hlt
    rw [← insertionSort_attach]
    exact (List.pair_sublist_insertionSort
      (r := fun a b : {x // x ∈ l} => NotAfter lt a.1 b.1) hlt' hab').map Subtype.val

end Sorter

/-! ## Comparisons that may raise -/

variable {β ε : Type}

def insertM (lt : α → α → Except ε Bool) (a : α) : List α → Except ε (List α)
  | [] => .ok [a]
  | b :: rest => do
    if ← lt b a then return b :: (← insertM lt a rest)
    return a :: b :: rest

/-- Insertion sort. Each member is compared with earlier ones, as to whether
it is less. -/
def sortM (lt : α → α → Except ε Bool) : List α → Except ε (List α)
  | [] => .ok []
  | a :: rest => do insertM lt a (← sortM lt rest)

/-- A function that keeps the comparisons may be applied afterwards. -/
theorem insertM_map {f : α → β} {lt : α → α → Except ε Bool} {lt' : β → β → Except ε Bool}
    (h : ∀ a b, lt' (f a) (f b) = lt a b) (a : α) (l : List α) :
    insertM lt' (f a) (l.map f) = (insertM lt a l).map (List.map f) := by
  induction l with
  | nil => rfl
  | cons b rest ih =>
    simp only [List.map_cons, insertM, h, ih, bind, Except.bind]
    rcases lt b a with e | (_ | _)
    · rfl
    · rfl
    · cases insertM lt a rest <;> rfl

theorem sortM_map {f : α → β} {lt : α → α → Except ε Bool} {lt' : β → β → Except ε Bool}
    (h : ∀ a b, lt' (f a) (f b) = lt a b) (l : List α) :
    sortM lt' (l.map f) = (sortM lt l).map (List.map f) := by
  induction l with
  | nil => rfl
  | cons a rest ih =>
    simp only [List.map_cons, sortM, ih, bind, Except.bind]
    cases sortM lt rest with
    | error e => rfl
    | ok m => exact insertM_map h a m

/-- Without exceptions this is an ordinary sort. -/
theorem sortM_eq_sort {lt : α → α → Except ε Bool} {less : α → α → Bool} {l : List α}
    (h : ∀ a ∈ l, ∀ b ∈ l, lt a b = .ok (less a b)) :
    sortM lt l = .ok ((Sorter.insertion α).sort less l) := by
  have hinsert (a : α) (m : List α) (hm : ∀ b ∈ m, lt b a = .ok (less b a)) :
      insertM lt a m = .ok (m.orderedInsert (Sorter.NotAfter less) a) := by
    induction m with
    | nil => rfl
    | cons b rest ih =>
      have hrest := ih fun c hc => hm c (List.mem_cons_of_mem _ hc)
      simp only [insertM, hm b List.mem_cons_self, hrest, bind, Except.bind,
        List.orderedInsert_cons, Sorter.NotAfter]
      by_cases hless : less b a = true
      · simp [hless, pure, Except.pure]
      · simp [hless, pure, Except.pure]
  induction l with
  | nil => rfl
  | cons a rest ih =>
    have hrest := ih fun b hb c hc =>
      h b (List.mem_cons_of_mem _ hb) c (List.mem_cons_of_mem _ hc)
    simp only [sortM, hrest, bind, Except.bind]
    refine hinsert a _ fun b hb => ?_
    have hmem : b ∈ rest := ((Sorter.insertion α).perm less rest).mem_iff.mp hb
    exact h b (List.mem_cons_of_mem _ hmem) a List.mem_cons_self

end Iams.Lib
