/-
Iams.Lib.Trace — the order of events in a log.

`Open a b log` says that there has been an `a` since the last `b`.
`Between a b c log` says that there is a `b` between every `a` and every
later `c`. Both are about a log that grows at its end, and
`open_concat` and `between_concat` say what one more event does to them:
a `c` must not come while an `a` is open.

No `sorry`, no `axiom`, no `native_decide`.
-/
import Mathlib.Data.List.Basic

namespace Iams.Lib.Trace

variable {α : Type} {a b c : α → Prop} {log : List α} {e : α}

/-- An `a` has no `b` after it. -/
def Open (a b : α → Prop) (log : List α) : Prop :=
  ∃ before x after, log = before ++ x :: after ∧ a x ∧ ∀ y ∈ after, ¬ b y

/-- Between an `a` and a later `c` there is always a `b`. -/
def Between (a b c : α → Prop) (log : List α) : Prop :=
  ∀ before x middle z after, log = before ++ x :: (middle ++ z :: after) → a x → c z →
    ∃ y ∈ middle, b y

@[simp] theorem not_open_nil : ¬ Open a b ([] : List α) := by
  rintro ⟨before, x, after, h, -⟩
  simp at h

@[simp] theorem between_nil : Between a b c ([] : List α) := by
  intro before x middle z after h
  simp at h

theorem open_concat : Open a b (log ++ [e]) ↔ a e ∨ Open a b log ∧ ¬ b e := by
  constructor
  · rintro ⟨before, x, after, h, hx, hafter⟩
    rcases List.eq_nil_or_concat after with rfl | ⟨rest, last, rfl⟩
    · obtain ⟨-, hlast⟩ := List.append_inj' h rfl
      cases hlast
      exact .inl hx
    · have hsplit : log ++ [e] = (before ++ x :: rest) ++ [last] := by simpa using h
      obtain ⟨hlog, hlast⟩ := List.append_inj' hsplit rfl
      cases hlast
      exact .inr ⟨⟨before, x, rest, hlog, hx, fun y hy => hafter y (by simp [hy])⟩,
        hafter e (by simp)⟩
  · rintro (ha | ⟨⟨before, x, after, rfl, hx, hafter⟩, hb⟩)
    · exact ⟨log, e, [], rfl, ha, nofun⟩
    · refine ⟨before, x, after ++ [e], by simp, hx, fun y hy => ?_⟩
      rcases List.mem_append.mp hy with hy | hy
      · exact hafter y hy
      · rw [List.mem_singleton.mp hy]
        exact hb

theorem between_concat :
    Between a b c (log ++ [e]) ↔ Between a b c log ∧ (c e → ¬ Open a b log) := by
  constructor
  · refine fun h => ⟨fun before x middle z after hlog => ?_, ?_⟩
    · exact h before x middle z (after ++ [e]) (by simp [hlog])
    · rintro hc ⟨before, x, after, rfl, hx, hafter⟩
      obtain ⟨y, hy, hb⟩ := h before x after e [] (by simp) hx hc
      exact hafter y hy hb
  · rintro ⟨h, hc⟩ before x middle z after hlog hx hz
    rcases List.eq_nil_or_concat after with rfl | ⟨rest, last, rfl⟩
    · have hsplit : log ++ [e] = (before ++ x :: middle) ++ [z] := by simpa using hlog
      obtain ⟨rfl, hlast⟩ := List.append_inj' hsplit rfl
      cases hlast
      by_contra hnone
      push Not at hnone
      exact hc hz ⟨before, x, middle, rfl, hx, hnone⟩
    · have hsplit : log ++ [e] = (before ++ x :: (middle ++ z :: rest)) ++ [last] := by
        simpa using hlog
      exact h before x middle z rest (List.append_inj' hsplit rfl).1 hx hz

end Iams.Lib.Trace
