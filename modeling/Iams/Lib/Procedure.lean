/-
Iams.Lib.Procedure — programs that change a state and may raise.

`x.exec s` is how the program `x` ends in the state `s`: its value or the
exception, and the state it leaves. What was changed before an exception
stays changed. `exec_bind` runs a sequence, `exec_bind_eq_ok` takes a
sequence apart that has returned.

`Keeps R x` says that `x` leads from every state to one that is related to
it by `R`, whether it returns or raises. For a `Frame`, a reflexive and
transitive `R` such as "this part of the state is as before", it follows
from the steps of `x`.

`Ends P x Q` says that `x` returns from every state with `P`, and that its
value and the state it leaves satisfy `Q`.

No `sorry`, no `axiom`, no `native_decide`.
-/

namespace Iams.Lib

/-- A program with the state `σ` and exceptions in `ε`. -/
abbrev Procedure (σ ε : Type) := ExceptT ε (StateM σ)

namespace Procedure

variable {σ ε α β : Type}

/-- How a program ends, and the state it leaves. -/
def exec (x : Procedure σ ε α) (s : σ) : Except ε α × σ := x.run.run s

/-! ## Single steps -/

@[simp] theorem exec_pure (a : α) (s : σ) : exec (pure a : Procedure σ ε α) s = (.ok a, s) := rfl

@[simp] theorem exec_throw (e : ε) (s : σ) :
    exec (throw e : Procedure σ ε α) s = (.error e, s) := rfl

@[simp] theorem exec_get (s : σ) : exec (get : Procedure σ ε σ) s = (.ok s, s) := rfl

@[simp] theorem exec_modify (f : σ → σ) (s : σ) :
    exec (modify f : Procedure σ ε PUnit) s = (.ok ⟨⟩, f s) := rfl

@[simp] theorem exec_liftExcept (x : Except ε α) (s : σ) :
    exec (liftExcept x : Procedure σ ε α) s = (x, s) := by
  cases x <;> rfl

theorem exec_bind (x : Procedure σ ε α) (f : α → Procedure σ ε β) (s : σ) :
    exec (x >>= f) s =
      match exec x s with
      | (.ok a, s') => exec (f a) s'
      | (.error e, s') => (.error e, s') := by
  simp only [exec, bind, ExceptT.bind, ExceptT.mk, ExceptT.run, StateT.run, StateT.bind]
  rcases x s with ⟨_ | _, _⟩ <;> rfl

theorem exec_tryCatch (x : Procedure σ ε α) (f : ε → Procedure σ ε α) (s : σ) :
    exec (tryCatch x f) s =
      match exec x s with
      | (.ok a, s') => (.ok a, s')
      | (.error e, s') => exec (f e) s' := by
  simp only [exec, tryCatch, tryCatchThe, MonadExceptOf.tryCatch, ExceptT.tryCatch, ExceptT.mk,
    ExceptT.run, StateT.run, bind, StateT.bind]
  rcases x s with ⟨_ | _, _⟩ <;> rfl

/-- A loop is its first round and the loop over the rest. -/
theorem exec_forM_cons (f : α → Procedure σ ε PUnit) (a : α) (l : List α) (s : σ) :
    exec ((a :: l).forM f) s =
      match exec (f a) s with
      | (.ok _, s') => exec (l.forM f) s'
      | (.error e, s') => (.error e, s') := by
  show exec (f a >>= fun _ => l.forM f) s = _
  rw [exec_bind]
  rcases exec (f a) s with ⟨_ | _, _⟩ <;> rfl

/-- A program that returns, as it can be computed. -/
theorem exec_of_toBool {x : Procedure σ ε Unit} {s : σ} (h : (exec x s).1.toBool = true) :
    exec x s = (.ok (), (exec x s).2) := by
  rcases hexec : exec x s with ⟨e | ⟨⟩, s'⟩
  · rw [hexec] at h
    cases h
  · rfl

/-- What must have happened for a sequence to return. -/
theorem exec_bind_eq_ok {x : Procedure σ ε α} {f : α → Procedure σ ε β} {s s' : σ} {b : β} :
    exec (x >>= f) s = (.ok b, s') ↔
      ∃ a s₁, exec x s = (.ok a, s₁) ∧ exec (f a) s₁ = (.ok b, s') := by
  rw [exec_bind]
  rcases h : exec x s with ⟨e | a, s₁⟩
  · simp
  · constructor
    · exact fun hf => ⟨a, s₁, rfl, hf⟩
    · rintro ⟨_, _, hx, hf⟩
      cases hx
      exact hf

/-- A sequence after a first step that returns. -/
theorem exec_bind_of_ok {x : Procedure σ ε α} {f : α → Procedure σ ε β} {s s₁ : σ} {a : α}
    (h : exec x s = (.ok a, s₁)) : exec (x >>= f) s = exec (f a) s₁ := by
  rw [exec_bind, h]

/-! ## What a program leaves as it is -/

/-- From every state the program leads to one related by `R`. -/
def Keeps (R : σ → σ → Prop) (x : Procedure σ ε α) : Prop := ∀ s, R s (exec x s).2

/-- A relation that single steps keep and sequences keep as well. -/
structure Frame (R : σ → σ → Prop) : Prop where
  refl : ∀ s, R s s
  trans : ∀ {s₁ s₂ s₃}, R s₁ s₂ → R s₂ s₃ → R s₁ s₃

variable {R R' : σ → σ → Prop}

theorem Keeps.mono {x : Procedure σ ε α} (hx : Keeps R x) (h : ∀ s s', R s s' → R' s s') :
    Keeps R' x :=
  fun s => h _ _ (hx s)

namespace Frame

theorem keeps_pure (hR : Frame R) (a : α) : Keeps R (pure a : Procedure σ ε α) := hR.refl

theorem keeps_throw (hR : Frame R) (e : ε) : Keeps R (throw e : Procedure σ ε α) := hR.refl

theorem keeps_get (hR : Frame R) : Keeps R (get : Procedure σ ε σ) := hR.refl

theorem keeps_modify {f : σ → σ} (hf : ∀ s, R s (f s)) :
    Keeps R (modify f : Procedure σ ε PUnit) := hf

theorem keeps_liftExcept (hR : Frame R) (x : Except ε α) :
    Keeps R (liftExcept x : Procedure σ ε α) := by
  intro s
  rw [exec_liftExcept]
  exact hR.refl s

theorem keeps_bind (hR : Frame R) {x : Procedure σ ε α} {f : α → Procedure σ ε β}
    (hx : Keeps R x) (hf : ∀ a, Keeps R (f a)) : Keeps R (x >>= f) := by
  intro s
  have hs := hx s
  rw [exec_bind]
  rcases h : exec x s with ⟨e | a, s'⟩ <;> rw [h] at hs
  · exact hs
  · exact hR.trans hs (hf a s')

/-- An exception in some states, and the program in the others. -/
theorem keeps_unless (hR : Frame R) {p : σ → Prop} [DecidablePred p] {e : ε}
    {x : Procedure σ ε α} (hx : Keeps R x) :
    Keeps R (get >>= fun s => if p s then throw e >>= fun _ : PUnit => x else x) := by
  refine hR.keeps_bind hR.keeps_get fun s => ?_
  split
  · exact hR.keeps_bind (hR.keeps_throw e) fun _ => hx
  · exact hx

theorem keeps_forM (hR : Frame R) {f : α → Procedure σ ε PUnit} {l : List α}
    (hf : ∀ a, Keeps R (f a)) : Keeps R (l.forM f) := by
  induction l with
  | nil => exact hR.keeps_pure _
  | cons a rest ih => exact hR.keeps_bind (hf a) fun _ => ih

end Frame

/-! ## Programs that return -/

/-- From a state with `P` the program returns; `Q` holds of its value and
of the state it leaves. -/
def Ends (P : σ → Prop) (x : Procedure σ ε α) (Q : α → σ → Prop) : Prop :=
  ∀ s, P s → ∃ a s', exec x s = (.ok a, s') ∧ Q a s'

namespace Ends

variable {P P' : σ → Prop} {Q : α → σ → Prop} {Q' : β → σ → Prop}

protected theorem pure {a : α} (h : ∀ s, P s → Q a s) :
    Ends P (Pure.pure a : Procedure σ ε α) Q :=
  fun s hs => ⟨a, s, rfl, h s hs⟩

protected theorem get {Q : σ → σ → Prop} (h : ∀ s, P s → Q s s) :
    Ends P (MonadState.get : Procedure σ ε σ) Q :=
  fun s hs => ⟨s, s, rfl, h s hs⟩

protected theorem modify {f : σ → σ} {Q : PUnit → σ → Prop} (h : ∀ s, P s → Q ⟨⟩ (f s)) :
    Ends P (modify f : Procedure σ ε PUnit) Q :=
  fun s hs => ⟨⟨⟩, f s, rfl, h s hs⟩

protected theorem liftExcept {x : Except ε α} {a : α} (hx : x = .ok a) (h : ∀ s, P s → Q a s) :
    Ends P (liftExcept x : Procedure σ ε α) Q := by
  subst hx
  exact fun s hs => ⟨a, s, rfl, h s hs⟩

protected theorem bind {x : Procedure σ ε α} {f : α → Procedure σ ε β} (hx : Ends P x Q)
    (hf : ∀ a, Ends (Q a) (f a) Q') : Ends P (x >>= f) Q' := by
  intro s hs
  obtain ⟨a, s₁, hxs, ha⟩ := hx s hs
  obtain ⟨b, s₂, hfs, hb⟩ := hf a s₁ ha
  exact ⟨b, s₂, by rw [exec_bind_of_ok hxs, hfs], hb⟩

/-- What is known of a value may be used for the rest of the program. -/
theorem assume {x : Procedure σ ε α} {p : Prop} (hx : p → Ends P x Q) :
    Ends (fun s => p ∧ P s) x Q :=
  fun s hs => hx hs.1 s hs.2

protected theorem forM {f : α → Procedure σ ε PUnit} {l : List α}
    (hf : ∀ a, Ends P (f a) fun _ => P) : Ends P (l.forM f) fun _ => P := by
  induction l with
  | nil => exact .pure fun _ h => h
  | cons a rest ih => exact .bind (hf a) fun _ => ih

end Ends

end Procedure

end Iams.Lib
