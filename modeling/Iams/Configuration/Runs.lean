/-
Iams.Configuration.Runs — `process_config`, `prepare_run` and `main` in
`iams/simulation.py`.

A run is what the simulation function is called with. `process_config` is
given what its caller does with each run, as the two take turns: `main`
copies a run before `process_config` goes on, and with it the dictionary of
settings, which the next run is written to as well.

`Imports` is what a configuration names and `System` the operating system.
The values of a configuration are not looked into. The logarithm in the
width of the numbers is exact.

No `sorry`, no `axiom`, no `native_decide`.
-/
import Iams.Configuration.Format
import Iams.Lib.Product
import Iams.Simulation.Registry

namespace Iams.Configuration

open Iams.Lib
open Iams.Simulation (DF)

/-! ## Paths -/

/-- `os.path.basename` -/
def basename (path : String) : String :=
  String.ofList (path.toList.reverse.takeWhile (· ≠ '/')).reverse

/-- `os.path.dirname` -/
def dirname (path : String) : String :=
  let head := path.toList.reverse.dropWhile (· ≠ '/')
  if head.all (· = '/') then String.ofList head.reverse
  else String.ofList (head.dropWhile (· = '/')).reverse

/-- `os.path.join` -/
def joinPath (a b : String) : String :=
  if b.toList.head? = some '/' then b
  else if a = "" ∨ a.toList.getLast? = some '/' then a ++ b
  else a ++ "/" ++ b

/-- The file system. -/
structure System where
  abspath : String → String
  pathExists : String → Bool
  mkdir : String → Except Error Unit

/-! ## Configurations -/

/-- A setting that should be a text. -/
inductive Setting (V : Type) where
  | text (s : String)
  | other (v : V)

/-- A configuration. Its settings are the dictionary itself in a file, and a
reference to it once it is loaded. -/
structure Config (σ V : Type) where
  foldername : Option String := none
  products : Option (Dict String (List V)) := none
  formatter : Option String := none
  simulationClass : Option (Setting V) := none
  directoryFacilitator : Option (Setting V) := none
  seed : Option (Setting V) := none
  settings : Option σ := none
  start : Option V := none
  stop : Option V := none
  /-- All the other keys. -/
  rest : Dict String V := .empty

/-- A configuration without the keys that `prepare_run` deletes. -/
structure Remaining (V : Type) where
  foldername : Option String
  rest : Dict String V

/-- What a configuration names, and what there is besides. -/
structure Imports (S V : Type) where
  /-- `getattr(import_module(module_name), class_name)` -/
  getClass : String → String → Except Error S
  /-- `issubclass(simcls, SimulationInterface)` -/
  isSimulation : S → Except Error Bool
  qualname : S → String
  formatFields : FormatFields V
  /-- `0` -/
  zero : V
  /-- Whether `sentry_sdk` is installed. -/
  sentry : Bool

/-! ## `prepare_run` -/

/-- What `prepare_run` returns. -/
structure Prepared (S V : Type) where
  config : Remaining V
  df : DF V
  fileData : String
  fileLog : String
  folder : String
  name : String
  seed : String
  settings : Nat
  simcls : S
  start : V
  stop : Option V

section Prepare

variable {S V L : Type} (imports : Imports S V)

/-- `config[key].rsplit('.', 1)`, in two parts -/
def splitSetting (key : String) : Option (Setting V) → Except Error (String × String)
  | none => .error (.keyError key)
  | some (.other _) => .error (.attributeError "object has no attribute 'rsplit'")
  | some (.text name) => splitClass name

/-- `except (KeyError, AttributeError)` -/
def Error.isMissing : Error → Bool
  | .keyError _ | .attributeError _ => true
  | _ => false

/-- The class of the simulation. -/
def loadSimulation (setting : Option (Setting V)) : Except Error S :=
  match splitSetting "simulation-class" setting with
  | .error e =>
    if e.isMissing then .error (.valueError
      "The configuration-file needs a valid \"simulation-class-setting")
    else .error e
  | .ok (moduleName, className) => do
    let simcls ← imports.getClass moduleName className
    if ← imports.isSimulation simcls then return simcls
    throw (.assertionError (imports.qualname simcls ++
      " needs to be a subclass of SimulationInterface"))

/-- The directory facilitator. -/
def loadDf (setting : Option (Setting V)) : Except Error (DF V) :=
  match splitSetting "directory-facilitator" setting with
  | .error e => if e.isMissing then .ok ⟨.empty⟩ else .error e
  | .ok _ => .error (.notImplementedError "the directory facilitator cannot be changed")

/-- `config.get('seed', name).format(count, **run_config)` -/
def formatSeed (count : Nat) (name : String) (runConfig : Dict String V) :
    Option (Setting V) → Except Error String
  | none => format imports.formatFields name count runConfig
  | some (.text seed) => format imports.formatFields seed count runConfig
  | some (.other _) => .error (.attributeError "object has no attribute 'format'")

/-- `prepare_run` -/
def prepareRun (count : Nat) (folder template : String) (runConfig : Dict String V)
    (config : Config Nat V) : Procedure (World L V) Error (Prepared S V) := do
  let name ← liftExcept (format imports.formatFields template count runConfig)
  let seed ← liftExcept (formatSeed imports count name runConfig config.seed)
  let start := config.start.getD imports.zero
  let stop := config.stop
  let simcls ← liftExcept (loadSimulation imports config.simulationClass)
  let df ← liftExcept (loadDf config.directoryFacilitator)
  let settings ← getSettings config.settings
  updateAt settings runConfig.items
  return {
    config := ⟨config.foldername, config.rest⟩
    df, fileData := joinPath folder (name ++ ".dat"), fileLog := joinPath folder (name ++ ".log")
    folder, name, seed, settings, simcls, start, stop }

end Prepare

/-! ## `process_config` -/

/-- `logging.DEBUG` and so on -/
def DEBUG : Nat := 10
def INFO : Nat := 20
def WARNING : Nat := 30

/-- The handler `'file'`. -/
structure FileHandler where
  level : Nat
  formatter : String
  filename : String
  mode : String := "w"

/-- The configuration for `dictConfig`. -/
structure LogConfig where
  version : Nat := 1
  disableExistingLoggers : Bool := false
  formatters : List (String × String) := [
    ("default", "%(levelname)s %(message)s"),
    ("logfile", "%(message)s"),
    ("debug", "%(levelname)s [%(name)s:%(lineno)s] %(message)s")]
  consoleLevel : Nat
  consoleFormatter : String
  file : Option FileHandler
  rootHandlers : List String
  rootLevel : Nat

/-- `log_config` -/
def logConfig (dryrun : Bool) (loglevel : Nat) (fileLog : String) : LogConfig :=
  let level := if loglevel < INFO then DEBUG else INFO
  if dryrun then {
    consoleLevel := loglevel
    consoleFormatter := if loglevel < INFO then "debug" else "default"
    file := none
    rootHandlers := ["console"]
    rootLevel := level }
  else {
    consoleLevel := WARNING
    consoleFormatter := "logfile"
    file := some {
      level
      formatter := if loglevel < INFO then "debug" else "logfile"
      filename := fileLog }
    rootHandlers := ["console", "file"]
    rootLevel := level }

/-- What the simulation function is called with; `σ` as in `Config`. -/
structure Kwargs (S σ V : Type) where
  config : Remaining V
  df : DF V
  fileData : Option String
  folder : String
  name : String
  seed : String
  settings : σ
  simcls : S
  start : V
  stop : Option V
  logConfig : LogConfig
  dryrun : Bool
  dsn : Option String

/-- A run as `main` has collected it. -/
abbrev Run (S V : Type) := Kwargs S (Dict String V) V

/-- The arguments of `process_config` that are passed on. -/
structure Options where
  dryrun : Bool
  force : Bool
  loglevel : Nat
  dsn : Option String

/-- `project`, from the absolute path -/
def projectOf (path : String) : String :=
  String.ofList ((basename path).toList.take ((basename path).toList.length - 5))

/-- `floor(log10(length)) + 1` -/
def widthOf (length : Nat) : Nat := Nat.log 10 length + 1

/-- The logarithm is the exact one. -/
theorem widthOf_eq (length : Nat) : widthOf length = ⌊Real.logb 10 length⌋₊ + 1 := by
  rw [widthOf, Decimal.natFloor_logb_ten]

/-- `template` -/
def templateOf (project : String) (length : Nat) (formatter : Option String) : String :=
  if 1 < length then
    match formatter with
    | some formatter => project ++ "-" ++ formatter
    | none => project ++ "-" ++ numberField (widthOf length)
  else project

section Process

variable {S V L : Type} (imports : Imports S V) (system : System) (options : Options)

/-- `config.get("products", {})` -/
def Config.getProducts {σ : Type} (config : Config σ V) : Dict String (List V) :=
  config.products.getD .empty

/-- `products` -/
def Config.factors {σ : Type} (config : Config σ V) : List (List (String × V)) :=
  config.getProducts.items.map fun item => item.2.map fun value => (item.1, value)

/-- `length` -/
def Config.length {σ : Type} (config : Config σ V) : Nat :=
  config.getProducts.items.foldl (fun length item => length * item.2.length) 1

/-- A run, with its logging. -/
def Prepared.toKwargs (prepared : Prepared S V) : Kwargs S Nat V where
  config := prepared.config
  df := prepared.df
  fileData := if options.dryrun then none else some prepared.fileData
  folder := prepared.folder
  name := prepared.name
  seed := prepared.seed
  settings := prepared.settings
  simcls := prepared.simcls
  start := prepared.start
  stop := prepared.stop
  logConfig := Iams.Configuration.logConfig options.dryrun options.loglevel prepared.fileLog
  dryrun := options.dryrun
  dsn := if imports.sentry then options.dsn else none

/-- One run of the loop in `process_config`; `yield` is the body of its
caller's loop. -/
def processRun (folder template : String) (config : Config Nat V)
    (yield : Kwargs S Nat V → Procedure (World L V) Error Unit)
    (run : List (String × V) × Nat) : Procedure (World L V) Error Unit := do
  let prepared ← prepareRun imports run.2 folder template (Dict.ofPairs run.1) config
  if !options.dryrun && !options.force && system.pathExists prepared.fileData then
    return
  yield (prepared.toKwargs imports options)

/-- `process_config` -/
def processConfig (path : String) (config : Config Nat V)
    (yield : Kwargs S Nat V → Procedure (World L V) Error Unit) :
    Procedure (World L V) Error Unit := do
  let path := system.abspath path
  let folder := joinPath (dirname path) (config.foldername.getD "results")
  let project := projectOf path
  if !options.dryrun && !system.pathExists folder then
    liftExcept (system.mkdir folder)
  let template := templateOf project config.length config.formatter
  ((product config.factors).zipIdx 1).forM
    (processRun imports system options folder template config yield)

end Process

/-! ## `main` -/

/-- An open file; `load` is what `yaml.load` does, which need not return a
dictionary. -/
structure ConfigFile (V : Type) where
  name : String
  load : Except Error (Option (Config (Dict String V) V))

/-- `args` -/
structure Args (V : Type) extends Options where
  configs : List (ConfigFile V)
  single : Bool

section Main

variable {S V : Type} (imports : Imports S V) (system : System)

/-- The settings are a new object. -/
def allocate {L : Type} (config : Config (Dict String V) V) :
    Procedure (World L V) Error (Config Nat V) := do
  match config.settings with
  | none => return { config with settings := none }
  | some settings => do
    let w ← get
    modify fun w => { w with dicts := w.dicts.alloc settings }
    return { config with settings := some w.dicts.next }

/-- `deepcopy(kwargs)` -/
def Kwargs.copy (kwargs : Kwargs S Nat V) (dicts : Heap (Dict String V)) : Run S V :=
  { kwargs with settings := dicts.read kwargs.settings }

/-- `main` while it collects runs: these are `kwarg_list`. -/
abbrev Collecting (S V : Type) := Procedure (World (List (Run S V)) V) Error

/-- `kwarg_list.append(deepcopy(kwargs))` -/
def collectRun (kwargs : Kwargs S Nat V) : Collecting S V Unit :=
  modify fun w => { w with log := w.log ++ [kwargs.copy w.dicts] }

/-- One file of the loop in `main`. -/
def collectFile (options : Options) (file : ConfigFile V) : Collecting S V Unit := do
  if !".yaml".toList.isSuffixOf file.name.toList then
    throw (.assertionError "Config needs to be '.yaml' file")
  match ← liftExcept file.load with
  | none => throw (.assertionError "Config has the wrong format")
  | some config =>
    let config ← allocate config
    processConfig imports system options file.name config collectRun

/-- The loop of `main`. -/
def collect (args : Args V) : Collecting S V Unit :=
  args.configs.forM (collectFile imports system args.toOptions)

/-- What `main` does with the runs. -/
inductive Started (S V : Type) where
  | nothing
  | called (run : Run S V)
  | submitted (runs : List (Run S V))

/-- `main` -/
def main (args : Args V) : Collecting S V (Started S V) := do
  collect imports system args
  let w ← get
  if w.log.length = 1 || args.single then
    match w.log with
    | [] => throw (.indexError "pop from empty list")
    | run :: rest =>
      modify fun w => { w with log := rest }
      return .called run
  else if 1 < w.log.length then return .submitted w.log
  else return .nothing

end Main

end Iams.Configuration
