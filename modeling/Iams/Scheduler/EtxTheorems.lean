/-
Iams.Scheduler.EtxTheorems — what an ETX keeps of the times it is given.

`assignConstraints` is `set_constraints` as a call on an object, which
raises or assigns; `assignConstraints_run` relates it to the function of
`Etx.lean`. `roundTrips_iff` says for which windows a time relative to
`now` comes back as it was given: a datetime ETX subtracts the two offsets
before it has made datetimes of them.

`Nested` is the order an ETX is meant to have, from the hard constraints
over the soft range to the time. The constructor checks the order within
each pair and then widens the soft range; `nested_iff` is what it would
have to check of its arguments.

No `sorry`, no `axiom`, no `native_decide`.
-/
import Iams.Scheduler.Etx

namespace Iams.Scheduler

namespace ETX

variable {τ : Type} [Ring τ] [LinearOrder τ]

/-! ## Relative times -/

/-- A call of `set_constraints`: the exception it raises, if any, and the
ETX it leaves. -/
def assignConstraints (x : ETX τ) (lower upper now : Option τ) : Except PyError Unit × ETX τ :=
  match lower, upper with
  | some low, some high =>
      -- with `now` both are numbers of seconds, whose difference is one too
      if x.useDatetime && now.isSome then (.error .attributeError, x)
      else if high - low < x.marginHigh + x.marginLow then
        (.error (.valueError
          "Upper-bond ({%s}) or lower-bond ({lower}) are out of their margins"), x)
      else (.ok (), x.storeConstraints lower upper now)
  | _, _ => (.ok (), x.storeConstraints lower upper now)

/-- The call does what `setConstraints` computes. -/
theorem assignConstraints_eq (x : ETX τ) (lower upper now : Option τ) :
    x.assignConstraints lower upper now =
      match x.setConstraints lower upper now with
      | .ok y => (.ok (), y)
      | .error err => (.error err, x) := by
  cases lower with
  | none => cases upper <;> simp [assignConstraints, setConstraints, less]
  | some low =>
    cases upper with
    | none => simp [assignConstraints, setConstraints, less]
    | some high =>
      unfold assignConstraints setConstraints
      cases x.useDatetime && now.isSome with
      | true => rfl
      | false =>
        by_cases hwide : high - low < x.marginHigh + x.marginLow <;> simp [less, hwide]

/-- A time relative to `now` comes back as it was set, a window that is at
least as wide as the margins is accepted and comes back too, and a call
that raises leaves the constraints. -/
structure RoundTrips (x : ETX τ) (now : Option τ) (time : τ) (lower upper : Option τ) :
    Prop where
  time : (x.set time now).get now = some time
  accepted : (∀ low high, lower = some low → upper = some high →
      x.marginLow + x.marginHigh ≤ high - low) →
    (x.assignConstraints lower upper now).1 = .ok () ∧
      (x.assignConstraints lower upper now).2.getConstraints now = (lower, upper)
  refused : ∀ err, (x.assignConstraints lower upper now).1 = .error err →
    (x.assignConstraints lower upper now).2.constraintLow = x.constraintLow ∧
      (x.assignConstraints lower upper now).2.constraintHigh = x.constraintHigh

omit [LinearOrder τ] in
theorem get_set {x : ETX τ} {now : Option τ} (hnow : x.useDatetime = true → now.isSome)
    (time : τ) : (x.set time now).get now = some time := by
  cases hkind : x.useDatetime with
  | false => simp [set, get, hkind]
  | true =>
    obtain ⟨n, rfl⟩ := Option.isSome_iff_exists.mp (hnow hkind)
    simp [set, get, hkind]

omit [LinearOrder τ] in
theorem getConstraints_storeConstraints {x : ETX τ} {now : Option τ}
    (hnow : x.useDatetime = true → now.isSome) (lower upper : Option τ) :
    (x.storeConstraints lower upper now).getConstraints now = (lower, upper) := by
  cases hkind : x.useDatetime with
  | false => simp [storeConstraints, getConstraints, hkind]
  | true =>
    obtain ⟨n, rfl⟩ := Option.isSome_iff_exists.mp (hnow hkind)
    simp [storeConstraints, getConstraints, hkind, Function.comp_def]

/-- Relative times make the round trip, except a window of a datetime ETX
that has both sides and is as wide as the margins. -/
theorem roundTrips_iff (x : ETX τ) (now : Option τ) (time : τ) (lower upper : Option τ)
    (hnow : x.useDatetime = true → now.isSome) :
    x.RoundTrips now time lower upper ↔
      (x.useDatetime = true → ∀ low high, lower = some low → upper = some high →
        high - low < x.marginLow + x.marginHigh) := by
  constructor
  · intro h hkind low high hlow hhigh
    by_contra hwide
    have haccepted := (h.accepted fun _ _ hlow' hhigh' => by
      rw [hlow] at hlow'
      rw [hhigh] at hhigh'
      cases hlow'
      cases hhigh'
      exact not_lt.mp hwide).1
    simp [assignConstraints, hlow, hhigh, hkind, hnow hkind] at haccepted
  · intro h
    refine ⟨get_set hnow time, fun hwide => ?_, fun err herr => ?_⟩
    · have hassign : x.assignConstraints lower upper now =
          (.ok (), x.storeConstraints lower upper now) := by
        cases lower with
        | none => rfl
        | some low =>
          cases upper with
          | none => rfl
          | some high =>
            have hmargins := hwide low high rfl rfl
            have hkind : x.useDatetime = false := by
              by_contra hkind
              exact absurd (h (by simpa using hkind) low high rfl rfl) (not_lt.mpr hmargins)
            rw [add_comm] at hmargins
            simp [assignConstraints, hkind, not_lt.mpr hmargins]
      rw [hassign]
      exact ⟨rfl, getConstraints_storeConstraints hnow lower upper⟩
    · have hsame : (x.assignConstraints lower upper now).2 = x := by
        rw [assignConstraints_eq] at herr ⊢
        cases hset : x.setConstraints lower upper now with
        | ok y =>
          rw [hset] at herr
          cases herr
        | error err => rfl
      rw [hsame]
      exact ⟨rfl, rfl⟩

/-- An arrival with datetimes, as `Event` builds it of the moment 0. -/
def clockEtx : ETX Int :=
  { fields (some 0) (some 0) (some 0) with
    timeHigh := some 0, timeLow := some 0, useDatetime := true }

/-- After the moment 100, a window that is open above makes the round trip
of relative times, one from 5 to 10 seconds does not. -/
theorem roundTrips_iff_clock :
    clockEtx.RoundTrips (some 100) 5 (some 5) none ∧
      ¬ clockEtx.RoundTrips (some 100) 5 (some 5) (some 10) := by
  constructor
  · exact (roundTrips_iff clockEtx (some 100) 5 (some 5) none (by decide)).mpr (by simp)
  · intro h
    have hnarrow := (roundTrips_iff clockEtx (some 100) 5 (some 5) (some 10) (by decide)).mp h
    exact absurd (hnarrow rfl 5 10 rfl rfl) (by decide)

/-- The window has no round trip: the two numbers of seconds are
subtracted as if they were datetimes. -/
theorem clock_window_raises :
    postInit true (fields (some 0) (some 0) (some (0 : Int))) = .ok clockEtx ∧
      clockEtx.assignConstraints (some 5) (some 10) (some 100) =
        (.error .attributeError, clockEtx) ∧
      ¬ ∀ (x : ETX Int) (now : Option Int) (time : Int) (lower upper : Option Int),
        (x.useDatetime = true → now.isSome) → x.RoundTrips now time lower upper := by
  refine ⟨by decide, by decide, fun h => ?_⟩
  have htrip := h clockEtx (some 100) 5 (some 5) (some 10) (by decide)
  have haccepted := (htrip.accepted (by
    intro low high hlow hhigh
    cases hlow
    cases hhigh
    decide)).1
  exact absurd haccepted (by decide)

/-! ## Nesting -/

/-- The soft range keeps its margins around the time and stays within the
hard constraints. -/
structure Nested (x : ETX τ) : Prop where
  constraintLow : ∀ hard low, x.constraintLow = some hard → x.timeLow = some low → hard ≤ low
  low : ∀ low time, x.timeLow = some low → x.time = some time → low + x.marginLow ≤ time
  high : ∀ time high, x.time = some time → x.timeHigh = some high → time + x.marginHigh ≤ high
  constraintHigh : ∀ high hard, x.timeHigh = some high → x.constraintHigh = some hard →
    high ≤ hard

/-- The times given are within the hard constraints given, the time at
least by its margins. -/
structure WithinHard (x : ETX τ) : Prop where
  timeLow : ∀ hard low, x.constraintLow = some hard → x.timeLow = some low → hard ≤ low
  low : ∀ hard time, x.constraintLow = some hard → x.time = some time →
    hard + x.marginLow ≤ time
  high : ∀ time hard, x.time = some time → x.constraintHigh = some hard →
    time + x.marginHigh ≤ hard
  timeHigh : ∀ high hard, x.timeHigh = some high → x.constraintHigh = some hard → high ≤ hard

/-- The lower end of the soft range that the constructor leaves. -/
def softLow (x : ETX τ) : Option τ :=
  match x.timeLow.or x.constraintLow, x.time with
  | some low, some time => some (min low (time - x.marginLow))
  | some low, none => some low
  | none, time => time.map (· - x.marginLow)

/-- The upper end of the soft range that the constructor leaves. -/
def softHigh (x : ETX τ) : Option τ :=
  match x.timeHigh.or x.constraintHigh, x.time with
  | some high, some time => some (max high (time + x.marginHigh))
  | some high, none => some high
  | none, time => time.map (· + x.marginHigh)

/-- What `validate` lets through is the soft range pushed out. -/
theorem validate_eq {x y : ETX τ} (h : x.validate = .ok y) : y = x.pushHigh.pushLow := by
  unfold validate at h
  split at h
  · cases h
  · split at h
    · cases h
    · split at h
      · cases h
      · exact (Except.ok.inj h).symm

theorem postInit_eq {datetime : Bool} {x y : ETX τ} (h : postInit datetime x = .ok y) :
    y = ({ x with useDatetime := y.useDatetime }).defaults.pushHigh.pushLow := by
  have huse := (postInit_ok h).2.2.useDatetime
  unfold postInit at h
  dsimp only at h
  split at h
  · cases h
  · split at h
    · cases h
    · rw [huse]
      exact validate_eq h

theorem pushHigh_timeLow (x : ETX τ) : x.pushHigh.timeLow = x.timeLow := by
  unfold pushHigh
  split
  · split <;> rfl
  · rfl

theorem pushLow_timeHigh (x : ETX τ) : x.pushLow.timeHigh = x.timeHigh := by
  unfold pushLow
  split
  · split <;> rfl
  · rfl

variable [IsStrictOrderedRing τ]

/-- Pushing the soft range out takes the lesser of its end and the margin. -/
theorem pushLow_timeLow (x : ETX τ) : x.pushLow.timeLow =
    match x.timeLow, x.time with
    | some low, some time => some (min low (time - x.marginLow))
    | low, _ => low := by
  unfold pushLow
  cases hlow : x.timeLow with
  | none => simp [hlow]
  | some low =>
    cases x.time with
    | none => simp [hlow]
    | some time =>
      dsimp only
      split
      · next hlt => simp [min_eq_right (sub_lt_comm.mp hlt).le]
      · next hle =>
        rw [sub_lt_comm, not_lt] at hle
        simp [hlow, min_eq_left hle]

theorem pushHigh_timeHigh (x : ETX τ) : x.pushHigh.timeHigh =
    match x.timeHigh, x.time with
    | some high, some time => some (max high (time + x.marginHigh))
    | high, _ => high := by
  unfold pushHigh
  cases hhigh : x.timeHigh with
  | none => simp [hhigh]
  | some high =>
    cases x.time with
    | none => simp [hhigh]
    | some time =>
      dsimp only
      split
      · next hlt => simp [max_eq_right (sub_lt_iff_lt_add'.mp hlt).le]
      · next hle =>
        rw [sub_lt_iff_lt_add', not_lt] at hle
        simp [hhigh, max_eq_left hle]

/-- The soft range that the constructor leaves. -/
theorem postInit_soft {datetime : Bool} {x y : ETX τ} (h : postInit datetime x = .ok y) :
    y.timeLow = x.softLow ∧ y.timeHigh = x.softHigh := by
  rw [postInit_eq h]
  constructor
  · rw [pushLow_timeLow, pushHigh_timeLow, (pushHigh_sameHard _).time,
      (pushHigh_sameHard _).marginLow]
    unfold defaults softLow
    cases x.timeLow <;> cases x.constraintLow <;> cases x.time <;> simp
  · rw [pushLow_timeHigh, pushHigh_timeHigh]
    unfold defaults softHigh
    cases x.timeHigh <;> cases x.constraintHigh <;> cases x.time <;> simp

/-- The margins always fit between the soft range and the time. -/
theorem softLow_margin (x : ETX τ) (low time : τ) (hlow : x.softLow = some low)
    (htime : x.time = some time) : low + x.marginLow ≤ time := by
  unfold softLow at hlow
  rw [htime] at hlow
  cases hgiven : x.timeLow.or x.constraintLow with
  | none =>
    rw [hgiven] at hlow
    cases hlow
    exact (sub_add_cancel time x.marginLow).le
  | some given =>
    rw [hgiven] at hlow
    cases hlow
    exact le_sub_iff_add_le.mp (min_le_right given _)

omit [IsStrictOrderedRing τ] in
theorem softHigh_margin (x : ETX τ) (time high : τ) (htime : x.time = some time)
    (hhigh : x.softHigh = some high) : time + x.marginHigh ≤ high := by
  unfold softHigh at hhigh
  rw [htime] at hhigh
  cases hgiven : x.timeHigh.or x.constraintHigh with
  | none =>
    rw [hgiven] at hhigh
    cases hhigh
    exact le_rfl
  | some given =>
    rw [hgiven] at hhigh
    cases hhigh
    exact le_max_right given _

/-- The soft range is above the lower hard constraint if and only if the
times given are. -/
theorem softLow_within (x : ETX τ) :
    (∀ hard low, x.constraintLow = some hard → x.softLow = some low → hard ≤ low) ↔
      (∀ hard low, x.constraintLow = some hard → x.timeLow = some low → hard ≤ low) ∧
        ∀ hard time, x.constraintLow = some hard → x.time = some time →
          hard + x.marginLow ≤ time := by
  unfold softLow
  cases x.constraintLow <;> cases x.timeLow <;> cases x.time <;> simp [le_sub_iff_add_le]

omit [IsStrictOrderedRing τ] in
theorem softHigh_within (x : ETX τ) :
    (∀ high hard, x.softHigh = some high → x.constraintHigh = some hard → high ≤ hard) ↔
      (∀ high hard, x.timeHigh = some high → x.constraintHigh = some hard → high ≤ hard) ∧
        ∀ time hard, x.time = some time → x.constraintHigh = some hard →
          time + x.marginHigh ≤ hard := by
  unfold softHigh
  cases x.constraintHigh <;> cases x.timeHigh <;> cases x.time <;> simp

/-- An ETX is nested once it is constructed if and only if the times it was
given are within the hard constraints, with the margins. -/
theorem nested_iff {datetime : Bool} {x y : ETX τ} (h : postInit datetime x = .ok y) :
    y.Nested ↔ x.WithinHard := by
  obtain ⟨hlow, hhigh⟩ := postInit_soft h
  obtain ⟨-, -, hsame⟩ := postInit_ok h
  have hmarginLow : y.marginLow = x.marginLow := hsame.marginLow
  have hmarginHigh : y.marginHigh = x.marginHigh := hsame.marginHigh
  have htime : y.time = x.time := hsame.time
  constructor
  · intro hy
    obtain ⟨hgivenLow, htimeLow⟩ := x.softLow_within.mp fun hard low hhard hsoft =>
      hy.constraintLow hard low (hsame.low.trans hhard) (hlow.trans hsoft)
    obtain ⟨hgivenHigh, htimeHigh⟩ := x.softHigh_within.mp fun high hard hsoft hhard =>
      hy.constraintHigh high hard (hhigh.trans hsoft) (hsame.high.trans hhard)
    exact ⟨hgivenLow, htimeLow, htimeHigh, hgivenHigh⟩
  · intro hx
    constructor
    · intro hard low hhard hy
      exact x.softLow_within.mpr ⟨hx.timeLow, hx.low⟩ hard low (hsame.low.symm.trans hhard)
        (hlow.symm.trans hy)
    · intro low time hy hytime
      rw [hmarginLow]
      exact x.softLow_margin low time (hlow.symm.trans hy) (htime.symm.trans hytime)
    · intro time high hytime hy
      rw [hmarginHigh]
      exact x.softHigh_margin time high (htime.symm.trans hytime) (hhigh.symm.trans hy)
    · intro high hard hy hhard
      exact x.softHigh_within.mpr ⟨hx.timeHigh, hx.high⟩ high hard (hhigh.symm.trans hy)
        (hsame.high.symm.trans hhard)

/-- An arrival at 0 with a margin of 5 before it and a hard window from 0
to 10, and what is made of it. -/
def tightArgs : ETX Int := { fields (some 0) (some 0) (some 10) with marginLow := 5 }

def tightEtx : ETX Int := { tightArgs with timeHigh := some 10, timeLow := some (-5) }

/-- Without the margin the soft range is nested, with it it is not. -/
theorem nested_iff_tight :
    { tightEtx with marginLow := 0, timeLow := some 0 }.Nested ∧ ¬ tightEtx.Nested := by
  have hloose : postInit false { tightArgs with marginLow := 0 } =
      .ok { tightEtx with marginLow := 0, timeLow := some 0 } := by decide
  refine ⟨(nested_iff hloose).mpr ⟨?_, ?_, ?_, ?_⟩, fun h => ?_⟩
  · rintro _ _ ⟨⟩ ⟨⟩
  · rintro _ _ ⟨⟩ ⟨⟩
    decide
  · rintro _ _ ⟨⟩ ⟨⟩
    decide
  · rintro _ _ ⟨⟩
  · have hwithin := (nested_iff (show postInit false tightArgs = .ok tightEtx by decide)).mp h
    exact absurd (hwithin.low 0 0 rfl rfl) (by decide)

/-- The soft range starts 5 before the window that is not allowed to
change. -/
theorem tight_not_nested :
    postInit false tightArgs = .ok tightEtx ∧
      ¬ ∀ x y : ETX Int, postInit false x = .ok y → y.Nested := by
  have htight : postInit false tightArgs = .ok tightEtx := by decide
  refine ⟨htight, fun h => ?_⟩
  exact absurd ((h tightArgs tightEtx htight).constraintLow 0 (-5) rfl rfl) (by decide)

end ETX

end Iams.Scheduler
