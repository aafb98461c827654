/-
Iams.Scheduler.OrderingTheorems — whether the events are totally ordered.

`Event.__lt__` orders the events of a scheduler only under a condition,
which `totallyOrdered_iff` states. The comparison of two waiting events
takes `ETX.__eq__`, which compares the times alone, together with
`ETX.__lt__`, which falls back to the lower constraint: an event with a
time and one without are compared by a value that two events without a
time are not compared by. Two departed events, and two cancelled ones, are
compared by their arrival without a tie-break. And a number and a
`datetime` are not compared at all.

§1 the comparison with its exception, §2 waiting events, §3 the result.

No `sorry`, no `axiom`, no `native_decide`.
-/
import Iams.Scheduler.Order

namespace Iams.Scheduler

open Iams.Lib

namespace Event

variable {τ : Type} [Ring τ] [LinearOrder τ]

/-! ## §1 The comparison with its exception -/

/-- `__lt__` reaches `<` on a number and a `datetime`. Two ETX without a
time are equal, whatever their constraints are. -/
def mixes (a b : Event τ) : Bool :=
  if a.state.waiting && b.state.waiting then
    (a.eta.time.isSome || b.eta.time.isSome) && a.eta.useDatetime != b.eta.useDatetime
  else if a.state.value = b.state.value then
    if a.state = .started ∨ a.state = .finished then a.useDatetime != b.useDatetime
    else a.eta.useDatetime != b.eta.useDatetime
  else false

/-- `__lt__`, with the `TypeError` of that `<`. -/
def tryLt (a b : Event τ) : Except PyError Bool :=
  if a.mixes b then .error .typeError else .ok (a.lt b)

omit [Ring τ] in
theorem tryLt_eq_ok {a b : Event τ} : a.tryLt b = .ok (a.lt b) ↔ a.mixes b = false := by
  unfold tryLt
  cases a.mixes b <;> simp

/-! ## §2 Waiting events -/

/-- What decides between equal ETX. -/
def rest (e : Event τ) : τ ×ₗ Nat := toLex (e.duration, e.uid)

/-- A waiting event with its hard window set. -/
structure Waits (e : Event τ) : Prop where
  waiting : e.state.waiting = true
  window : e.eta.bool = true

omit [Ring τ] [LinearOrder τ] in
theorem ltValue_isSome {e : Event τ} (h : e.eta.bool = true) : e.eta.ltValue.isSome := by
  rw [ETX.bool, Bool.and_eq_true] at h
  unfold ETX.ltValue
  split
  · exact h.2
  · rfl

variable {a b c : Event τ}

omit [Ring τ] in
theorem lt_waiting (ha : a.Waits) (hb : b.Waits) :
    a.lt b = if a.eta.eq b.eta then ltRest a b else a.eta.lt b.eta := by
  rw [lt, ha.waiting, hb.waiting]
  rfl

omit [Ring τ] in
/-- Two events without a time. -/
theorem lt_untimed (ha : a.Waits) (hb : b.Waits) (hat : a.eta.time = none)
    (hbt : b.eta.time = none) : a.lt b = true ↔ a.rest < b.rest := by
  have heq : a.eta.eq b.eta = true := by rw [ETX.eq, hat, hbt]; rfl
  rw [lt_waiting ha hb, if_pos heq]
  exact ltRest_iff a b

/-- Two events that do not have the same time. -/
theorem lt_of_time_ne (ha : a.Waits) (hb : b.Waits) (hne : a.eta.time ≠ b.eta.time) :
    a.lt b = true ↔ a.value < b.value := by
  have heq : a.eta.eq b.eta = false := by simpa [ETX.eq] using hne
  rw [lt_waiting ha hb, heq]
  exact lt_eta_iff (ltValue_isSome ha.window) (ltValue_isSome hb.window)

/-- Two events with a time. -/
theorem lt_timed (ha : a.Waits) (hb : b.Waits) (hat : a.eta.time.isSome)
    (hbt : b.eta.time.isSome) :
    a.lt b = true ↔ toLex (a.value, a.rest) < toLex (b.value, b.rest) := by
  obtain ⟨s, hs⟩ := Option.isSome_iff_exists.mp hat
  obtain ⟨t, ht⟩ := Option.isSome_iff_exists.mp hbt
  have hvs : a.value = s := by simp [value, ETX.ltValue, hs]
  have hvt : b.value = t := by simp [value, ETX.ltValue, ht]
  rw [Prod.Lex.toLex_lt_toLex, hvs, hvt]
  by_cases hst : s = t
  · have heq : a.eta.eq b.eta = true := by simp [ETX.eq, hs, ht, hst]
    rw [lt_waiting ha hb, if_pos heq, ltRest_iff]
    simp [hst, rest]
  · rw [lt_of_time_ne ha hb (by simp [hs, ht, hst]), hvs, hvt]
    simp [hst]

theorem lt_asymm_waiting (ha : a.Waits) (hb : b.Waits) (hab : a.lt b = true) :
    b.lt a = false := by
  rw [Bool.eq_false_iff, ne_eq]
  intro hba
  by_cases htime : a.eta.time = b.eta.time
  · cases hat : a.eta.time with
    | none =>
      have hbt : b.eta.time = none := htime.symm.trans hat
      exact lt_asymm ((lt_untimed ha hb hat hbt).mp hab) ((lt_untimed hb ha hbt hat).mp hba)
    | some t =>
      have hat' : a.eta.time.isSome := by rw [hat]; rfl
      have hbt' : b.eta.time.isSome := htime ▸ hat'
      exact lt_asymm ((lt_timed ha hb hat' hbt').mp hab) ((lt_timed hb ha hbt' hat').mp hba)
  · exact lt_asymm ((lt_of_time_ne ha hb htime).mp hab)
      ((lt_of_time_ne hb ha (Ne.symm htime)).mp hba)

end Event

/-- What makes the comparison a total order on waiting events: the time of
one is not the lower constraint of another one that has no time; and if
it lies between the lower constraints of two that have none, these are
ordered by duration and uid in the same way. -/
structure Consistent {τ : Type} [Ring τ] [LinearOrder τ] (obj : Nat → Event τ) (ws : List Nat) :
    Prop where
  apart : ∀ a ∈ ws, ∀ b ∈ ws, (obj a).eta.time = none → (obj b).eta.time.isSome →
    (obj a).value ≠ (obj b).value
  agree : ∀ a ∈ ws, ∀ b ∈ ws, ∀ c ∈ ws, (obj a).eta.time = none → (obj b).eta.time.isSome →
    (obj c).eta.time = none → (obj a).value < (obj b).value → (obj b).value < (obj c).value →
    (obj a).rest < (obj c).rest

namespace Consistent

variable {τ : Type} [Ring τ] [LinearOrder τ] {obj : Nat → Event τ} {ws : List Nat} {a b c : Nat}

/-- An event without a time, one before it without a time, and one with
a time after it. -/
theorem value_lt_left (h : Consistent obj ws) (ha : a ∈ ws) (hb : b ∈ ws) (hc : c ∈ ws)
    (hat : (obj a).eta.time = none) (hbt : (obj b).eta.time = none)
    (hct : (obj c).eta.time.isSome) (hab : (obj a).rest < (obj b).rest)
    (hbc : (obj b).value < (obj c).value) : (obj a).value < (obj c).value := by
  by_contra hnot
  have hca : (obj c).value < (obj a).value :=
    lt_of_le_of_ne (not_lt.mp hnot) (h.apart a ha c hc hat hct).symm
  exact lt_asymm hab (h.agree b hb c hc a ha hbt hct hat hbc hca)

theorem value_lt_right (h : Consistent obj ws) (ha : a ∈ ws) (hb : b ∈ ws) (hc : c ∈ ws)
    (hat : (obj a).eta.time.isSome) (hbt : (obj b).eta.time = none)
    (hct : (obj c).eta.time = none) (hab : (obj a).value < (obj b).value)
    (hbc : (obj b).rest < (obj c).rest) : (obj a).value < (obj c).value := by
  by_contra hnot
  have hca : (obj c).value < (obj a).value :=
    lt_of_le_of_ne (not_lt.mp hnot) (h.apart c hc a ha hct hat)
  exact lt_asymm hbc (h.agree c hc a ha b hb hct hat hbt hca hab)

/-- The cases are the events that have a time. -/
theorem trans (h : Consistent obj ws) (hw : ∀ u ∈ ws, (obj u).Waits) (ha : a ∈ ws) (hb : b ∈ ws)
    (hc : c ∈ ws) (hab : (obj a).lt (obj b) = true) (hbc : (obj b).lt (obj c) = true) :
    (obj a).lt (obj c) = true := by
  have hwa := hw a ha
  have hwb := hw b hb
  have hwc := hw c hc
  cases hat : (obj a).eta.time with
  | none =>
    cases hbt : (obj b).eta.time with
    | none =>
      rw [Event.lt_untimed hwa hwb hat hbt] at hab
      cases hct : (obj c).eta.time with
      | none =>
        rw [Event.lt_untimed hwb hwc hbt hct] at hbc
        exact (Event.lt_untimed hwa hwc hat hct).mpr (hab.trans hbc)
      | some t =>
        rw [Event.lt_of_time_ne hwb hwc (by simp [hbt, hct])] at hbc
        rw [Event.lt_of_time_ne hwa hwc (by simp [hat, hct])]
        exact h.value_lt_left ha hb hc hat hbt (by simp [hct]) hab hbc
    | some t =>
      rw [Event.lt_of_time_ne hwa hwb (by simp [hat, hbt])] at hab
      cases hct : (obj c).eta.time with
      | none =>
        rw [Event.lt_of_time_ne hwb hwc (by simp [hbt, hct])] at hbc
        exact (Event.lt_untimed hwa hwc hat hct).mpr
          (h.agree a ha b hb c hc hat (by simp [hbt]) hct hab hbc)
      | some t' =>
        rw [Event.lt_timed hwb hwc (by simp [hbt]) (by simp [hct]), Prod.Lex.toLex_lt_toLex] at hbc
        rw [Event.lt_of_time_ne hwa hwc (by simp [hat, hct])]
        rcases hbc with hbc | ⟨hbc, -⟩
        · exact hab.trans hbc
        · exact hab.trans_eq hbc
  | some t =>
    cases hbt : (obj b).eta.time with
    | none =>
      rw [Event.lt_of_time_ne hwa hwb (by simp [hat, hbt])] at hab
      cases hct : (obj c).eta.time with
      | none =>
        rw [Event.lt_untimed hwb hwc hbt hct] at hbc
        rw [Event.lt_of_time_ne hwa hwc (by simp [hat, hct])]
        exact h.value_lt_right ha hb hc (by simp [hat]) hbt hct hab hbc
      | some t' =>
        rw [Event.lt_of_time_ne hwb hwc (by simp [hbt, hct])] at hbc
        rw [Event.lt_timed hwa hwc (by simp [hat]) (by simp [hct]), Prod.Lex.toLex_lt_toLex]
        exact .inl (hab.trans hbc)
    | some t' =>
      rw [Event.lt_timed hwa hwb (by simp [hat]) (by simp [hbt])] at hab
      cases hct : (obj c).eta.time with
      | none =>
        rw [Event.lt_of_time_ne hwb hwc (by simp [hbt, hct])] at hbc
        rw [Event.lt_of_time_ne hwa hwc (by simp [hat, hct])]
        rcases Prod.Lex.toLex_lt_toLex.mp hab with hab | ⟨hab, -⟩
        · exact hab.trans hbc
        · exact hab.trans_lt hbc
      | some t'' =>
        rw [Event.lt_timed hwb hwc (by simp [hbt]) (by simp [hct])] at hbc
        exact (Event.lt_timed hwa hwc (by simp [hat]) (by simp [hct])).mpr (hab.trans hbc)

/-- Different events are not equivalent. -/
theorem total (h : Consistent obj ws) (hw : ∀ u ∈ ws, (obj u).Waits)
    (huid : ∀ u ∈ ws, (obj u).uid = u) (ha : a ∈ ws) (hb : b ∈ ws)
    (hab : (obj a).lt (obj b) = false) (hba : (obj b).lt (obj a) = false) : a = b := by
  have hwa := hw a ha
  have hwb := hw b hb
  have hrest (heq : (obj a).rest = (obj b).rest) : a = b := by
    have hpair := toLex_inj.mp heq
    rw [← huid a ha, ← huid b hb]
    exact congrArg Prod.snd hpair
  rw [Bool.eq_false_iff, ne_eq] at hab hba
  cases hat : (obj a).eta.time with
  | none =>
    cases hbt : (obj b).eta.time with
    | none =>
      rw [Event.lt_untimed hwa hwb hat hbt, not_lt] at hab
      rw [Event.lt_untimed hwb hwa hbt hat, not_lt] at hba
      exact hrest (le_antisymm hba hab)
    | some t =>
      rw [Event.lt_of_time_ne hwa hwb (by simp [hat, hbt]), not_lt] at hab
      rw [Event.lt_of_time_ne hwb hwa (by simp [hat, hbt]), not_lt] at hba
      exact absurd (le_antisymm hba hab) (h.apart a ha b hb hat (by simp [hbt]))
  | some t =>
    cases hbt : (obj b).eta.time with
    | none =>
      rw [Event.lt_of_time_ne hwa hwb (by simp [hat, hbt]), not_lt] at hab
      rw [Event.lt_of_time_ne hwb hwa (by simp [hat, hbt]), not_lt] at hba
      exact absurd (le_antisymm hab hba) (h.apart b hb a ha hbt (by simp [hat]))
    | some t' =>
      rw [Event.lt_timed hwa hwb (by simp [hat]) (by simp [hbt]), not_lt] at hab
      rw [Event.lt_timed hwb hwa (by simp [hbt]) (by simp [hat]), not_lt] at hba
      exact hrest (congrArg Prod.snd (toLex_inj.mp (le_antisymm hba hab)))

theorem weakOrderOn (h : Consistent obj ws) (hw : ∀ u ∈ ws, (obj u).Waits)
    (huid : ∀ u ∈ ws, (obj u).uid = u) : WeakOrderOn (ltOn obj) ws :=
  .of_total (fun a ha b hb => Event.lt_asymm_waiting (hw a ha) (hw b hb))
    (fun _ ha _ hb _ hc => h.trans hw ha hb hc) fun _ ha _ hb => h.total hw huid ha hb

end Consistent

/-! ## §3 The order of all events -/

section

variable {τ : Type} [Ring τ] [LinearOrder τ]

/-- The events that a scheduler has created. -/
structure WellFormed (obj : Nat → Event τ) (us : List Nat) : Prop where
  uid : ∀ u ∈ us, (obj u).uid = u
  window : ∀ u ∈ us, (obj u).eta.bool = true
  start : ∀ u ∈ us, (obj u).state = .started → (obj u).scheduleStart.isSome
  finish : ∀ u ∈ us, (obj u).state = .finished → (obj u).scheduleFinish.isSome

/-- `__lt__` is a strict total order on the events, and the order in which
`sorted` gets them does not matter. -/
structure TotallyOrdered (obj : Nat → Event τ) (us : List Nat) : Prop where
  returns : ∀ a ∈ us, ∀ b ∈ us, (obj a).tryLt (obj b) = .ok (ltOn obj a b)
  irrefl : ∀ a ∈ us, ltOn obj a a = false
  trans : ∀ a ∈ us, ∀ b ∈ us, ∀ c ∈ us,
    ltOn obj a b = true → ltOn obj b c = true → ltOn obj a c = true
  total : ∀ a ∈ us, ∀ b ∈ us, a ≠ b → ltOn obj a b = !ltOn obj b a
  sorted : ∀ (S : Sorter Nat) (us' : List Nat), us'.Perm us →
    S.sort (ltOn obj) us' = S.sort (ltOn obj) us

/-- Numbers and datetimes do not meet, the waiting events are consistent,
and no two departed events have one arrival, nor two cancelled ones. -/
structure Orderable (obj : Nat → Event τ) (us : List Nat) : Prop where
  kinds : ∀ a ∈ us, ∀ b ∈ us, (obj a).mixes (obj b) = false
  waiting : Consistent obj (us.filter fun u => (obj u).state.waiting)
  apart : ∀ a ∈ us, ∀ b ∈ us, a ≠ b → (obj a).state = (obj b).state →
    (obj a).state = .departed ∨ (obj a).state = .canceled → (obj a).value ≠ (obj b).value

namespace WellFormed

variable {obj : Nat → Event τ} {us : List Nat} {a b : Nat}

omit [Ring τ] [LinearOrder τ] in
theorem comparable (h : WellFormed obj us) (ha : a ∈ us) : (obj a).Comparable :=
  ⟨h.start a ha, h.finish a ha, Event.ltValue_isSome (h.window a ha)⟩

omit [Ring τ] [LinearOrder τ] in
theorem waits (h : WellFormed obj us) (ha : a ∈ us.filter fun u => (obj u).state.waiting) :
    (obj a).Waits :=
  ⟨(List.mem_filter.mp ha).2, h.window a (List.mem_of_mem_filter ha)⟩

omit [LinearOrder τ] in
theorem tuple_injective (h : WellFormed obj us) (ha : a ∈ us) (hb : b ∈ us) {x y : Option τ}
    (heq : (obj a).tuple x = (obj b).tuple y) : a = b := by
  have hpair := toLex_inj.mp (congrArg Prod.snd (toLex_inj.mp heq))
  rw [← h.uid a ha, ← h.uid b hb]
  exact congrArg Prod.snd hpair

/-- Different events are not equivalent. -/
theorem total (h : WellFormed obj us) (horder : Orderable obj us) (ha : a ∈ us) (hb : b ∈ us)
    (hab : ltOn obj a b = false) (hba : ltOn obj b a = false) : a = b := by
  have hac := h.comparable ha
  have hbc := h.comparable hb
  rw [ltOn, Bool.eq_false_iff, ne_eq] at hab hba
  by_cases hrank : (obj a).state.rank = (obj b).state.rank
  · cases hwa : (obj a).state.waiting with
    | true =>
      have hwb : (obj b).state.waiting = true :=
        States.rank_waiting.mp (hrank.symm.trans (States.rank_waiting.mpr hwa))
      exact horder.waiting.total (fun u hu => h.waits hu)
        (fun u hu => h.uid u (List.mem_of_mem_filter hu)) (List.mem_filter.mpr ⟨ha, hwa⟩)
        (List.mem_filter.mpr ⟨hb, hwb⟩) (Bool.eq_false_iff.mpr hab) (Bool.eq_false_iff.mpr hba)
    | false =>
      have hstate := States.eq_of_rank hrank hwa
      by_cases hstarted : (obj b).state = .started
      · have hsa := hstate.trans hstarted
        rw [Event.lt_started hsa hstarted hac hbc, not_lt] at hab
        rw [Event.lt_started hstarted hsa hbc hac, not_lt] at hba
        exact h.tuple_injective ha hb (le_antisymm hba hab)
      by_cases hfinished : (obj b).state = .finished
      · have hfa := hstate.trans hfinished
        rw [Event.lt_finished hfa hfinished hac hbc, not_lt] at hab
        rw [Event.lt_finished hfinished hfa hbc hac, not_lt] at hba
        exact h.tuple_injective ha hb (le_antisymm hba hab)
      · have hsa := hstate.symm ▸ hstarted
        have hfa := hstate.symm ▸ hfinished
        rw [Event.lt_left hstate (hstate ▸ hwa) hstarted hfinished hac hbc, not_lt] at hab
        rw [Event.lt_left hstate.symm hwa hsa hfa hbc hac, not_lt] at hba
        by_contra hne
        exact horder.apart a ha b hb hne hstate
          (States.left_iff.mpr ⟨hwa, hsa, hfa⟩) (le_antisymm hba hab)
  · rw [Event.lt_of_rank_ne hrank, not_lt] at hab
    rw [Event.lt_of_rank_ne (Ne.symm hrank), not_lt] at hba
    exact absurd (le_antisymm hba hab) hrank

theorem weakOrderOn (h : WellFormed obj us) (horder : Orderable obj us) :
    WeakOrderOn (ltOn obj) us :=
  Event.weakOrderOn_ltOn (fun _ hu => h.comparable hu)
    (horder.waiting.weakOrderOn (fun _ hu => h.waits hu)
      fun u hu => h.uid u (List.mem_of_mem_filter hu))

theorem totallyOrdered (h : WellFormed obj us) (horder : Orderable obj us) :
    TotallyOrdered obj us where
  returns a ha b hb := Event.tryLt_eq_ok.mpr (horder.kinds a ha b hb)
  irrefl a ha := (h.weakOrderOn horder).irrefl ha
  trans a ha b hb c hc := (h.weakOrderOn horder).trans ha hb hc
  total a ha b hb hne := by
    cases hab : ltOn obj a b with
    | true => rw [(h.weakOrderOn horder).asymm a ha b hb hab]; rfl
    | false =>
      cases hba : ltOn obj b a with
      | true => rfl
      | false => exact absurd (h.total horder ha hb hab hba) hne
  sorted S us' hperm :=
    S.sort_eq_of_perm (h.weakOrderOn horder) (fun _ ha _ hb => h.total horder ha hb) hperm

end WellFormed

namespace TotallyOrdered

variable {obj : Nat → Event τ} {us : List Nat} {a b : Nat}

omit [Ring τ] in
/-- Two different events are not equivalent. -/
theorem ne_of_false (h : TotallyOrdered obj us) (ha : a ∈ us) (hb : b ∈ us) (hne : a ≠ b)
    (hab : (obj a).lt (obj b) = false) (hba : (obj b).lt (obj a) = false) : False := by
  have htotal := h.total a ha b hb hne
  rw [ltOn, ltOn, hab, hba] at htotal
  cases htotal

theorem consistent (h : TotallyOrdered obj us) (hformed : WellFormed obj us) :
    Consistent obj (us.filter fun u => (obj u).state.waiting) where
  apart a ha b hb hat hbt heq := by
    have hwa := hformed.waits ha
    have hwb := hformed.waits hb
    have htime : (obj a).eta.time ≠ (obj b).eta.time := by
      rw [hat]
      exact (Option.ne_none_iff_isSome.mpr hbt).symm
    have hab : (obj a).lt (obj b) = false := by
      rw [Bool.eq_false_iff, ne_eq, Event.lt_of_time_ne hwa hwb htime, heq]
      exact lt_irrefl _
    have hba : (obj b).lt (obj a) = false := by
      rw [Bool.eq_false_iff, ne_eq, Event.lt_of_time_ne hwb hwa (Ne.symm htime), heq]
      exact lt_irrefl _
    exact h.ne_of_false (List.mem_of_mem_filter ha) (List.mem_of_mem_filter hb)
      (fun hne => htime (by rw [hne])) hab hba
  agree a ha b hb c hc hat hbt hct hab hbc := by
    have hwa := hformed.waits ha
    have hwb := hformed.waits hb
    have hwc := hformed.waits hc
    obtain ⟨t, hbt⟩ := Option.isSome_iff_exists.mp hbt
    have hltab := (Event.lt_of_time_ne hwa hwb (by simp [hat, hbt])).mpr hab
    have hltbc := (Event.lt_of_time_ne hwb hwc (by simp [hct, hbt])).mpr hbc
    exact (Event.lt_untimed hwa hwc hat hct).mp
      (h.trans a (List.mem_of_mem_filter ha) b (List.mem_of_mem_filter hb) c
        (List.mem_of_mem_filter hc) hltab hltbc)

theorem orderable (h : TotallyOrdered obj us) (hformed : WellFormed obj us) : Orderable obj us where
  kinds a ha b hb := Event.tryLt_eq_ok.mp (h.returns a ha b hb)
  waiting := h.consistent hformed
  apart a ha b hb hne hstate hleft heq := by
    have hac := hformed.comparable ha
    have hbc := hformed.comparable hb
    obtain ⟨hwaiting, hstarted, hfinished⟩ := States.left_iff.mp hleft
    have hab : (obj a).lt (obj b) = false := by
      rw [Bool.eq_false_iff, ne_eq, Event.lt_left hstate (hstate ▸ hwaiting) (hstate ▸ hstarted)
        (hstate ▸ hfinished) hac hbc, heq]
      exact lt_irrefl _
    have hba : (obj b).lt (obj a) = false := by
      rw [Bool.eq_false_iff, ne_eq, Event.lt_left hstate.symm hwaiting hstarted hfinished hbc hac,
        heq]
      exact lt_irrefl _
    exact h.ne_of_false ha hb hne hab hba

end TotallyOrdered

/-- The events that a scheduler has created are totally ordered by
`__lt__` if and only if numbers and datetimes do not meet, no time of a
waiting event is the lower constraint of one without a time, none lies
between the lower constraints of two that are ordered the other way round
by duration and uid, and no two departed or cancelled events have one
arrival. -/
theorem totallyOrdered_iff {obj : Nat → Event τ} {us : List Nat} (h : WellFormed obj us) :
    TotallyOrdered obj us ↔ Orderable obj us :=
  ⟨fun horder => horder.orderable h, h.totallyOrdered⟩

end

/-- The second event has its time between the lower constraints of the
two others, of which the shorter one comes last. -/
def circular : World Int :=
  ((((World.init (.single 30 1 1)).create
    { duration := 9, eta := .list [some 1, some 20] }).2.create
    { duration := 1, eta := .number 5 }).2.create
    { duration := 1, eta := .list [some 8, some 20] }).2

theorem circular_wellFormed : WellFormed circular.obj [1, 2, 3] where
  uid := by decide
  window := by decide
  start := by decide
  finish := by decide

/-- Any two of the events are ordered, all three are not. -/
theorem totallyOrdered_iff_circular :
    TotallyOrdered circular.obj [1, 2] ∧ ¬ TotallyOrdered circular.obj [1, 2, 3] := by
  constructor
  · refine (totallyOrdered_iff ⟨by decide, by decide, by decide, by decide⟩).mpr ?_
    exact ⟨by decide, ⟨by decide, by decide⟩, by decide⟩
  · intro h
    have horderable := (totallyOrdered_iff circular_wellFormed).mp h
    exact absurd (horderable.waiting.agree 1 (by decide) 2 (by decide) 3 (by decide)) (by decide)

/-- Each of the three events comes before another one. -/
theorem circular_not_ordered :
    ¬ ∀ (obj : Nat → Event Int) (us : List Nat), us.Nodup → WellFormed obj us →
      TotallyOrdered obj us := by
  intro h
  have htrans := (h circular.obj [1, 2, 3] (by decide) circular_wellFormed).trans 1 (by simp) 2
    (by simp) 3 (by simp) (by decide) (by decide)
  exact absurd htrans (by decide)

end Iams.Scheduler
