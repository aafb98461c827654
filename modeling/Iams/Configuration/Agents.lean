/-
Iams.Configuration.Agents — `load_agent` in `iams/simulation.py`.

`load_agent` writes the global settings and each combination of the products
into the one dictionary that a specification has. The generator is run to
its end or to an exception, as `run_simulation` does. `Code` is what the
specifications name: the classes, and how the values in them compare. Values
are not looked into otherwise.

No `sorry`, no `axiom`, no `native_decide`.
-/
import Iams.Configuration.Settings
import Iams.Lib.Product
import Iams.Lib.Sorting

namespace Iams.Configuration

open Iams.Lib

/-! ## Classes and values -/

/-- What specifications name. -/
structure Code (C I V : Type) where
  /-- `getattr(import_module(module_name), class_name)` -/
  getClass : String → String → Except Error C
  /-- `f'{cls!r}'` -/
  repr : C → String
  /-- `cls(**settings)` -/
  call : C → Dict String V → Except Error I
  /-- `v == w` -/
  eq : V → V → Bool
  /-- `v < w` -/
  lt : V → V → Except Error Bool

namespace Code

variable {C I V : Type} (code : Code C I V)

/-- The class with this dotted name. -/
def loadClass (name : String) : Except Error C := do
  let (moduleName, className) ← splitClass name
  code.getClass moduleName className

/-- `(k, v) < (l, w)`: the first items that differ decide. -/
def itemLt (a b : String × V) : Except Error Bool :=
  if a.1 ≠ b.1 then .ok (a.1 < b.1)
  else if code.eq a.2 b.2 then .ok false
  else code.lt a.2 b.2

/-- `sorted(data)` -/
def sortItems (data : List (String × V)) : Except Error (List (String × V)) :=
  sortM code.itemLt data

end Code

/-! ## `load_agent` -/

/-- The specification of some agents; without `use_global` or `products`
these are empty. -/
structure AgentSpec (V : Type) where
  cls : Option String
  settings : Option Nat
  useGlobal : List String := []
  products : Dict String (List V) := .empty

/-- The calls of constructors, with their keyword arguments, and the agents
that have been created. -/
structure Log (C I V : Type) where
  calls : List (C × Dict String V) := []
  agents : List I := []

section Load

variable {C I V : Type}

/-- Code of `load_agent`. -/
abbrev Loader (C I V : Type) := Procedure (World (Log C I V) V) Error

/-- Code that creates agents. -/
def logged {α : Type} (x : Procedure (Log C I V) Error α) : Loader C I V α :=
  ExceptT.mk fun w => ((x.exec w.log).1, { w with log := (x.exec w.log).2 })

/-- `settings[name] = global_settings[name]` -/
def useGlobal (globals settings : Nat) (name : String) : Loader C I V Unit := do
  let w ← get
  match (w.dicts.read globals).get? name with
  | some value => updateAt settings [(name, value)]
  | none => throw (.keyError name)

variable (code : Code C I V)

/-- `instance = cls(**settings)`, and `yield instance` -/
def create (cls : C) (settings : Dict String V) : Procedure (Log C I V) Error Unit := do
  modify fun log => { log with calls := log.calls ++ [(cls, settings)] }
  match code.call cls settings with
  | .ok agent => modify fun log => { log with agents := log.agents ++ [agent] }
  | .error (.typeError text) => throw (.typeError (text ++ " on " ++ code.repr cls))
  | .error e => throw e

/-- One specification of the loop in `load_agent`. -/
def loadSpec (globals : Nat) (agent : AgentSpec V) : Loader C I V Unit := do
  let cls ← liftExcept do
    match agent.cls with
    | some name => code.loadClass name
    | none => throw (.keyError "class")
  let settings ← getSettings agent.settings
  agent.useGlobal.forM (useGlobal globals settings)
  let products ← liftExcept <| agent.products.items.mapM fun (key, values) =>
    code.sortItems (values.map fun value => (key, value))
  (product products).forM fun prod => do
    updateAt settings (Dict.ofPairs prod).items
    let w ← get
    logged (create code cls (w.dicts.read settings))

/-- `load_agent` -/
def loadAgent (agents : List (AgentSpec V)) (globals : Nat) :
    Loader C I V Unit :=
  agents.forM (loadSpec code globals)

end Load

end Iams.Configuration
