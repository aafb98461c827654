/-
Iams.Lib.Triple — preconditions and postconditions of programs that may
raise.

`Triple P x Q E` says that the program `x`, from a state with `P`, returns
with `Q` of its value and of the state, or raises and leaves a state with
`E`. There is a rule for each way to build a program; a loop has an
invariant that may depend on what is left of its list (`Triple.forM`).

`Triple.of_ok` is what is known of a program that has returned, and
`Triple.always` what holds however it ended.

No `sorry`, no `axiom`, no `native_decide`.
-/
import Iams.Lib.Procedure

namespace Iams.Lib.Procedure

variable {σ ε α β : Type}

/-- From a state with `P` the program returns with `Q`, or raises with `E`. -/
def Triple (P : σ → Prop) (x : Procedure σ ε α) (Q : α → σ → Prop) (E : σ → Prop) : Prop :=
  ∀ s, P s → match exec x s with
    | (.ok a, s') => Q a s'
    | (.error _, s') => E s'

namespace Triple

variable {P P' E E' : σ → Prop} {Q Q' : α → σ → Prop} {R : β → σ → Prop}

/-! ## What a triple says -/

theorem of_ok {x : Procedure σ ε α} (h : Triple P x Q E) {s s' : σ} {a : α} (hs : P s)
    (hexec : exec x s = (.ok a, s')) : Q a s' := by
  have hx := h s hs
  rwa [hexec] at hx

/-- One condition for both ends of a program. -/
theorem always {x : Procedure σ ε α} (h : Triple P x (fun _ => E) E) {s : σ} (hs : P s) :
    E (exec x s).2 := by
  have hx := h s hs
  rcases hexec : exec x s with ⟨_ | _, s'⟩ <;> rwa [hexec] at hx

theorem conseq {x : Procedure σ ε α} (h : Triple P x Q E) (hP : ∀ s, P' s → P s)
    (hQ : ∀ a s, Q a s → Q' a s) (hE : ∀ s, E s → E' s) : Triple P' x Q' E' := by
  intro s hs
  have hx := h s (hP s hs)
  rcases hexec : exec x s with ⟨_ | _, s'⟩ <;> rw [hexec] at hx
  · exact hE _ hx
  · exact hQ _ _ hx

theorem post {x : Procedure σ ε α} (h : Triple P x Q E) (hQ : ∀ a s, Q a s → Q' a s) :
    Triple P x Q' E :=
  h.conseq (fun _ hs => hs) hQ fun _ hs => hs

theorem pre {x : Procedure σ ε α} (h : Triple P x Q E) (hP : ∀ s, P' s → P s) :
    Triple P' x Q E :=
  h.conseq hP (fun _ _ hs => hs) fun _ hs => hs

/-- What a frame does not touch is as before. -/
theorem of_keeps {R : σ → σ → Prop} {x : Procedure σ ε α} (hx : Keeps R x)
    (hP : ∀ s s', P s → R s s' → P s') : Triple P x (fun _ => P) P := by
  intro s hs
  have hR := hP s _ hs (hx s)
  rcases hexec : exec x s with ⟨_ | _, s'⟩ <;> rwa [hexec] at hR

/-- The frame rule: what the program does not touch may be added. -/
theorem frame {R : σ → σ → Prop} {F : σ → Prop} {x : Procedure σ ε α} (h : Triple P x Q E)
    (hx : Keeps R x) (hF : ∀ s s', F s → R s s' → F s') :
    Triple (fun s => P s ∧ F s) x (fun a s => Q a s ∧ F s) E := by
  intro s hs
  have hFs := hF s _ hs.2 (hx s)
  have hxs := h s hs.1
  rcases hexec : exec x s with ⟨_ | _, s'⟩ <;> rw [hexec] at hxs hFs
  · exact hxs
  · exact ⟨hxs, hFs⟩

/-- What does not depend on the state may be used for the program. -/
theorem assume {x : Procedure σ ε α} {p : Prop} (h : p → Triple P x Q E) :
    Triple (fun s => p ∧ P s) x Q E :=
  fun s hs => h hs.1 s hs.2

/-! ## Rules -/

protected theorem pure {a : α} (h : ∀ s, P s → Q a s) :
    Triple P (Pure.pure a : Procedure σ ε α) Q E :=
  h

protected theorem throw {e : ε} (h : ∀ s, P s → E s) :
    Triple P (MonadExcept.throw e : Procedure σ ε α) Q E :=
  h

protected theorem get {Q : σ → σ → Prop} (h : ∀ s, P s → Q s s) :
    Triple P (MonadState.get : Procedure σ ε σ) Q E :=
  h

protected theorem modify {f : σ → σ} {Q : PUnit → σ → Prop} (h : ∀ s, P s → Q ⟨⟩ (f s)) :
    Triple P (modify f : Procedure σ ε PUnit) Q E :=
  h

protected theorem bind {x : Procedure σ ε α} {f : α → Procedure σ ε β} (hx : Triple P x Q E)
    (hf : ∀ a, Triple (Q a) (f a) R E) : Triple P (x >>= f) R E := by
  intro s hs
  have hxs := hx s hs
  rw [exec_bind]
  rcases hexec : exec x s with ⟨_ | a, s'⟩ <;> rw [hexec] at hxs
  · exact hxs
  · exact hf a s' hxs

protected theorem tryCatch {x : Procedure σ ε α} {f : ε → Procedure σ ε α} (hx : Triple P x Q E)
    (hf : ∀ e, Triple E (f e) Q E') : Triple P (MonadExcept.tryCatch x f) Q E' := by
  intro s hs
  have hxs := hx s hs
  rw [exec_tryCatch]
  rcases hexec : exec x s with ⟨e | a, s'⟩ <;> rw [hexec] at hxs
  · exact hf e s' hxs
  · exact hxs

/-- An exception in some states, and the program in the others. -/
theorem guarded {p : σ → Prop} [DecidablePred p] {e : ε} {x : Procedure σ ε α}
    (hE : ∀ s, P s → E s) (hx : Triple (fun s => ¬ p s ∧ P s) x Q E) :
    Triple P (MonadState.get >>= fun s => if p s then MonadExcept.throw e >>= fun _ : PUnit => x
      else x) Q E := by
  refine .bind (.get (Q := fun s s' => s' = s ∧ P s) fun s hs => ⟨rfl, hs⟩) fun s => ?_
  split
  · refine .bind (Q := fun _ _ => False) (.throw ?_) fun _ _ => False.elim
    rintro _ ⟨rfl, hs⟩
    exact hE _ hs
  · next hp =>
    refine hx.pre ?_
    rintro _ ⟨rfl, hs⟩
    exact ⟨hp, hs⟩

/-- A loop, with an invariant about the rest of its list. -/
protected theorem forM {I : List α → σ → Prop} {f : α → Procedure σ ε PUnit} {l : List α}
    (hf : ∀ a rest, (∃ before, before ++ a :: rest = l) →
      Triple (I (a :: rest)) (f a) (fun _ => I rest) E) :
    Triple (I l) (l.forM f) (fun _ => I []) E := by
  suffices ∀ before rest, before ++ rest = l →
      Triple (I rest) (rest.forM f) (fun _ => I []) E from this [] l rfl
  intro before rest
  induction rest generalizing before with
  | nil => exact fun _ => .pure fun _ hs => hs
  | cons a rest ih =>
    refine fun hl => .bind (hf a rest ⟨before, hl⟩) fun _ => ih (before ++ [a]) ?_
    rw [List.append_assoc]
    exact hl

/-- A loop, with an invariant about the state only. -/
theorem forM_same {I : σ → Prop} {f : α → Procedure σ ε PUnit} {l : List α}
    (hf : ∀ a ∈ l, Triple I (f a) (fun _ => I) E) : Triple I (l.forM f) (fun _ => I) E := by
  refine Triple.forM (I := fun _ => I) ?_
  rintro a rest ⟨before, rfl⟩
  exact hf a (List.mem_append_right _ List.mem_cons_self)

end Triple

end Iams.Lib.Procedure
