/-
Iams.Configuration.Settings — what the functions of `iams/simulation.py` share: the
exceptions, dotted names of classes, and the dictionaries of settings.

A dictionary of settings is used by every run of a configuration, or by
every agent of a specification, and each of them writes to it. So these
dictionaries are objects of a heap, and a configuration has a reference to
its own. One that has no settings is given a new dictionary each time.

No `sorry`, no `axiom`, no `native_decide`.
-/
import Iams.Lib.Heap
import Iams.Lib.Overlay
import Iams.Lib.Procedure
import Iams.Runtime.Swarm

namespace Iams.Configuration

open Iams.Lib Iams.Lib.Procedure
open Iams.Runtime (rsplitOnce)

/-- Exceptions. -/
inductive Error where
  | keyError (key : String)
  | attributeError (text : String)
  | valueError (text : String)
  | typeError (text : String)
  | indexError (text : String)
  | assertionError (text : String)
  | notImplementedError (text : String)
  | other (text : String)
  deriving DecidableEq, Repr

/-- `module_name, class_name = name.rsplit('.', 1)` -/
def splitClass (name : String) : Except Error (String × String) :=
  match rsplitOnce '.' name.toList with
  | [moduleName, className] => .ok (String.ofList moduleName, String.ofList className)
  | _ => .error (.valueError "not enough values to unpack (expected 2, got 1)")

/-! ## Settings -/

/-- The dictionaries, and what the code in question has done so far. -/
structure World (L V : Type) where
  dicts : Heap (Dict String V)
  log : L

variable {L V : Type}

/-- `settings.update(items)` -/
def updateAt (settings : Nat) (items : List (String × V)) : Procedure (World L V) Error Unit :=
  modify fun w => { w with
    dicts := w.dicts.write settings ((w.dicts.read settings).update items) }

/-- `d.get('settings', {})` -/
def getSettings : Option Nat → Procedure (World L V) Error Nat
  | some settings => return settings
  | none => do
    let w ← get
    modify fun w => { w with dicts := w.dicts.alloc .empty }
    return w.dicts.next

/-- The heap after `settings.update(items)`. -/
def updated (h : Heap (Dict String V)) (r : Nat) (items : List (String × V)) :
    Heap (Dict String V) := h.write r ((h.read r).update items)

variable (h : Heap (Dict String V)) (r : Nat)

@[simp] theorem exec_updateAt (items : List (String × V)) (log : L) :
    exec (updateAt r items) ⟨h, log⟩ = (.ok (), ⟨updated h r items, log⟩) := rfl

@[simp] theorem read_updated (items : List (String × V)) :
    (updated h r items).read r = (h.read r).update items := h.read_write_self _

theorem updated_nil : updated h r [] = h := h.write_read r

theorem updated_append (l l' : List (String × V)) :
    updated (updated h r l) r l' = updated h r (l ++ l') := by
  unfold updated
  rw [Heap.read_write_self, Heap.write_write, Dict.update_append]

/-- Writing the same keys again leaves nothing of the first values. -/
theorem updated_updated {l l' : List (String × V)} (hkeys : l.map Prod.fst = l'.map Prod.fst) :
    updated (updated h r l) r l' = updated h r l' := by
  unfold updated
  rw [Heap.read_write_self, Heap.write_write, Dict.update_update _ hkeys]

variable {h r} {keys : List String} {base : Dict String V}

/-- All the keys are written: what was there before is gone. -/
theorem read_updated_of_absorbs (habsorbs : Dict.Absorbs keys base (h.read r))
    {items : List (String × V)} (hitems : items.map Prod.fst = keys) :
    (updated h r items).read r = base.update items := by
  rw [read_updated]
  exact habsorbs items hitems

/-- Some of the keys are written, from the first one on. -/
theorem absorbs_updated (habsorbs : Dict.Absorbs keys base (h.read r))
    {items : List (String × V)} (hitems : items.map Prod.fst <+: keys) :
    Dict.Absorbs keys base ((updated h r items).read r) := by
  rw [read_updated]
  exact habsorbs.update hitems

end Iams.Configuration
