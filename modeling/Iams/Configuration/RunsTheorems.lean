/-
Iams.Configuration.RunsTheorems — the runs that `main` collects from a
configuration.

All runs of a configuration are written to one dictionary of settings.
Every combination of the products writes the same keys, so nothing of an
earlier run is left in a later one, and `main` copies each run before the
next is prepared (`exec_processRun`). With more than one run the names end
in a number with as many digits as there are in the number of runs, so that
they are in order as texts (`collect_expands`).

§1 what is asked of a configuration, §2 one run, §3 all runs, §4 names, §5 a
configuration of twelve runs.

No `sorry`, no `axiom`, no `native_decide`.
-/
import Iams.Configuration.Runs

namespace Iams.Configuration

open Iams.Lib Iams.Lib.Procedure
open Iams.Lib.Decimal (zeroPad)

variable {S V : Type} {imports : Imports S V} {system : System}

/-! ## §1 Configurations -/

/-- The name of the file, without the five characters of `.yaml`. -/
def System.project (system : System) (path : String) : String := projectOf (system.abspath path)

/-- The configuration that a file is loaded to has a simulation class, and
neither a formatter nor a seed nor a directory facilitator, and there is no
brace in the name of the file. -/
structure Valid (imports : Imports S V) (system : System) (file : ConfigFile V)
    (config : Config (Dict String V) V) : Prop where
  yaml : ".yaml".toList.isSuffixOf file.name.toList = true
  load : file.load = .ok (some config)
  simulationClass : ∃ simcls, loadSimulation imports config.simulationClass = .ok simcls
  formatter : config.formatter = none
  seed : config.seed = none
  directoryFacilitator : config.directoryFacilitator = none
  plain : Plain (basename (system.abspath file.name)).toList

/-- The folder of the results is there or can be made. -/
def System.HasFolder (system : System) (path : String) (foldername : Option String) : Prop :=
  let folder := joinPath (dirname (system.abspath path)) (foldername.getD "results")
  system.pathExists folder = true ∨ system.mkdir folder = .ok ()

/-- The name of a run. -/
def runName (project : String) (length count : Nat) : String :=
  if 1 < length then project ++ "-" ++ String.ofList (zeroPad (widthOf length) count)
  else project

/-- The settings that are configured. -/
def Config.own (config : Config (Dict String V) V) : Dict String V :=
  config.settings.getD .empty

theorem plain_append {a b : List Char} (ha : Plain a) (hb : Plain b) : Plain (a ++ b) := by
  intro c hc
  exact (List.mem_append.mp hc).elim (ha c) (hb c)

theorem plain_digits (width count : Nat) : Plain (zeroPad width count) := by
  intro c hc
  unfold zeroPad List.leftpad at hc
  rcases List.mem_append.mp hc with hc | hc
  · rw [List.eq_of_mem_replicate hc]
    decide
  · constructor <;> rintro rfl <;> exact absurd (isDigit_toDigits hc) (by decide)

theorem plain_runName {project : String} (h : Plain project.toList) (length count : Nat) :
    Plain (runName project length count).toList := by
  unfold runName
  split
  · have hdigits : Plain (String.ofList (zeroPad (widthOf length) count)).toList := by
      rw [String.toList_ofList]
      exact plain_digits _ _
    rw [String.toList_append, String.toList_append]
    exact plain_append (plain_append h (by decide)) hdigits
  · exact h

/-- The template stands for the names. -/
theorem format_template {project : String} (h : Plain project.toList) (length count : Nat)
    (runConfig : Dict String V) :
    format imports.formatFields (templateOf project length none) count runConfig =
      .ok (runName project length count) := by
  unfold templateOf runName
  split
  · refine format_numbered imports.formatFields count runConfig ?_ _
    rw [String.toList_append]
    exact plain_append h (by decide)
  · exact format_plain imports.formatFields count runConfig h

theorem Valid.plain_project {file : ConfigFile V} {config : Config (Dict String V) V}
    (h : Valid imports system file config) : Plain (system.project file.name).toList := by
  intro c hc
  rw [System.project, projectOf, String.toList_ofList] at hc
  exact h.plain c (List.mem_of_mem_take hc)

/-! ## §2 One run -/

section Run

variable {L : Type} {keys : List String} {base : Dict String V} {h : Heap (Dict String V)}
  {config : Config Nat V}

/-- What the runs so far have left in the settings does not count. -/
def Config.Fits (keys : List String) (base : Dict String V) (h : Heap (Dict String V))
    (config : Config Nat V) : Prop :=
  match config.settings with
  | some settings => Dict.Absorbs keys base (h.read settings)
  | none => base = .empty

/-- The dictionary of a run has the configured settings and its combination
over them, whatever has been in there. -/
theorem exec_settings (hfits : config.Fits keys base h) {combination : List (String × V)}
    (hkeys : combination.map Prod.fst = keys) (log : L) :
    ∃ r h₁, exec (getSettings config.settings) ⟨h, log⟩ = (.ok r, ⟨h₁, log⟩) ∧
      (updated h₁ r combination).read r = base.update combination ∧
      config.Fits keys base (updated h₁ r combination) := by
  unfold Config.Fits at *
  cases hsettings : config.settings with
  | some r =>
    rw [hsettings] at hfits
    exact ⟨r, h, rfl, read_updated_of_absorbs hfits hkeys,
      absorbs_updated hfits (hkeys ▸ List.prefix_rfl)⟩
  | none =>
    rw [hsettings] at hfits
    refine ⟨h.next, h.alloc .empty, rfl, ?_, hfits⟩
    rw [read_updated, Heap.read_alloc_self, hfits]

/-- What is asked of a configuration that is loaded. -/
structure Config.Prepares (imports : Imports S V) (config : Config Nat V) : Prop where
  simulationClass : ∃ simcls, loadSimulation imports config.simulationClass = .ok simcls
  seed : config.seed = none
  directoryFacilitator : config.directoryFacilitator = none

variable {combination : List (String × V)}

theorem exec_prepareRun (hconfig : config.Prepares imports) (hfits : config.Fits keys base h)
    (hkeys : combination.map Prod.fst = keys) (hnodup : keys.Nodup) {template name : String}
    {count : Nat}
    (hname : format imports.formatFields template count (.ofPairs combination) = .ok name)
    (hplain : Plain name.toList) (folder : String) (log : L) :
    ∃ (prepared : Prepared S V) (h₁ : Heap (Dict String V)),
      exec (prepareRun imports count folder template (.ofPairs combination) config) ⟨h, log⟩ =
        (.ok prepared, ⟨h₁, log⟩) ∧ prepared.name = name ∧
      h₁.read prepared.settings = base.update combination ∧ config.Fits keys base h₁ := by
  obtain ⟨simcls, hsimcls⟩ := hconfig.simulationClass
  obtain ⟨r, h₁, hget, hread, hfits₁⟩ := exec_settings hfits hkeys log
  have hseed : formatSeed imports count name (.ofPairs combination) config.seed = .ok name := by
    rw [hconfig.seed]
    exact format_plain imports.formatFields count _ hplain
  have hdf : loadDf config.directoryFacilitator = .ok ⟨.empty⟩ := by
    rw [hconfig.directoryFacilitator]
    rfl
  let prepared : Prepared S V := {
    config := ⟨config.foldername, config.rest⟩
    df := ⟨.empty⟩
    fileData := joinPath folder (name ++ ".dat")
    fileLog := joinPath folder (name ++ ".log")
    folder, name, seed := name, settings := r, simcls
    start := config.start.getD imports.zero
    stop := config.stop }
  refine ⟨prepared, updated h₁ r combination, ?_, rfl, hread, hfits₁⟩
  unfold prepareRun
  simp only [exec_bind, exec_liftExcept, hname, hseed, hsimcls, hdf, hget, exec_updateAt,
    Dict.items_ofPairs (hkeys ▸ hnodup), exec_pure]
  rfl

/-- A run of this name with these settings. -/
structure Kwargs.Is (run : Run S V) (name : String)
    (settings : Dict String V) : Prop where
  name_eq : run.name = name
  settings_eq : run.settings = settings

/-- A run that is not skipped is copied before the next one is prepared. -/
theorem exec_processRun (system : System) (hconfig : config.Prepares imports)
    (hfits : config.Fits keys base h) (hkeys : combination.map Prod.fst = keys)
    (hnodup : keys.Nodup) {template name : String}
    {count : Nat}
    (hname : format imports.formatFields template count (.ofPairs combination) = .ok name)
    (hplain : Plain name.toList) {options : Options}
    (hoptions : options.dryrun = true ∨ options.force = true) (folder : String)
    (runs : List (Run S V)) :
    ∃ (run : Run S V) (h₁ : Heap (Dict String V)),
      exec (processRun imports system options folder template config collectRun
          (combination, count)) ⟨h, runs⟩ = (.ok (), ⟨h₁, runs ++ [run]⟩) ∧
      run.Is name (base.update combination) ∧ config.Fits keys base h₁ := by
  obtain ⟨prepared, h₁, hexec, hprepared, hread, hfits₁⟩ :=
    exec_prepareRun hconfig hfits hkeys hnodup hname hplain folder runs
  have hskip : (!options.dryrun && !options.force && system.pathExists prepared.fileData) =
      false := by
    rcases hoptions with hoption | hoption <;> simp [hoption]
  refine ⟨(prepared.toKwargs imports options).copy h₁, h₁, ?_, ⟨hprepared, hread⟩, hfits₁⟩
  unfold processRun
  rw [exec_bind_of_ok hexec, hskip]
  rfl

/-- All runs that are left. -/
theorem exec_processRuns (system : System) (hconfig : config.Prepares imports)
    (hfits : config.Fits keys base h) (hnodup : keys.Nodup) {template : String}
    {name : Nat → String}
    (hname : ∀ count runConfig, format imports.formatFields template count runConfig =
      .ok (name count))
    (hplain : ∀ count, Plain (name count).toList) {options : Options}
    (hoptions : options.dryrun = true ∨ options.force = true) (folder : String)
    {combinations : List (List (String × V))}
    (hkeys : ∀ combination ∈ combinations, combination.map Prod.fst = keys) (count : Nat)
    (runs : List (Run S V)) :
    ∃ (runs' : List (Run S V)) (h₁ : Heap (Dict String V)),
      exec ((combinations.zipIdx count).forM
          (processRun imports system options folder template config collectRun)) ⟨h, runs⟩ =
        (.ok (), ⟨h₁, runs ++ runs'⟩) ∧
      runs'.map (·.settings) = combinations.map base.update ∧
      runs'.map (·.name) = (List.range' count combinations.length).map name := by
  induction combinations generalizing h count runs with
  | nil =>
    refine ⟨[], h, ?_, rfl, rfl⟩
    rw [List.append_nil]
    rfl
  | cons combination rest ih =>
    obtain ⟨run, h₁, hexec, hrun, hfits₁⟩ := exec_processRun system hconfig hfits
      (hkeys combination List.mem_cons_self) hnodup (hname count _) (hplain count) hoptions folder
      runs
    obtain ⟨runs', h₂, hexec', hsettings, hnames⟩ :=
      ih hfits₁ (fun c hc => hkeys c (List.mem_cons_of_mem _ hc)) (count + 1) (runs ++ [run])
    refine ⟨run :: runs', h₂, ?_, ?_, ?_⟩
    · rw [List.zipIdx_cons, exec_forM_cons, hexec]
      dsimp only
      rw [hexec', List.append_assoc]
      rfl
    · rw [List.map_cons, List.map_cons, hrun.settings_eq, hsettings]
    · rw [List.map_cons, hrun.name_eq, hnames, List.length_cons, List.range'_succ, List.map_cons]

end Run

/-! ## §3 All runs -/

theorem Config.keys_of_mem {σ : Type} (config : Config σ V) {combination : List (String × V)}
    (h : combination ∈ product config.factors) :
    combination.map Prod.fst = config.getProducts.keys := by
  refine keys_of_mem_product ?_ h
  rw [Dict.keys, factors, List.forall₂_map_left_iff, List.forall₂_map_right_iff,
    List.forall₂_same]
  intro item _ pair hpair
  obtain ⟨value, -, rfl⟩ := List.mem_map.mp hpair
  rfl

/-- There is one run for each combination. -/
theorem Config.length_eq {σ : Type} (config : Config σ V) :
    config.length = (product config.factors).length := by
  have hfoldl (items : List (String × List V)) (n : Nat) :
      items.foldl (fun length item => length * item.2.length) n =
        n * (items.map fun item => item.2.length).prod := by
    induction items generalizing n with
    | nil => simp
    | cons item rest ih => simp [ih, Nat.mul_assoc]
  rw [length_product, factors, length, hfoldl, Nat.one_mul, List.map_map]
  congr 2
  funext item
  simp

section All

variable {options : Options} {L : Type} {h : Heap (Dict String V)}

theorem exec_processConfig (config : Config Nat V) {base : Dict String V} {path : String}
    (hconfig : config.Prepares imports) (hfits : config.Fits config.getProducts.keys base h)
    (hformatter : config.formatter = none) (hplain : Plain (system.project path).toList)
    (hoptions : options.dryrun = true ∨ options.force = true)
    (hfolder : options.dryrun = true ∨ system.HasFolder path config.foldername)
    (runs : List (Run S V)) :
    ∃ (runs' : List (Run S V)) (h₁ : Heap (Dict String V)),
      exec (processConfig imports system options path config collectRun) ⟨h, runs⟩ =
        (.ok (), ⟨h₁, runs ++ runs'⟩) ∧
      runs'.map (·.settings) = (product config.factors).map base.update ∧
      runs'.map (·.name) = (List.range' 1 config.length).map
        (runName (system.project path) config.length) := by
  let folder := joinPath (dirname (system.abspath path)) (config.foldername.getD "results")
  obtain ⟨runs', h₁, hexec, hsettings, hnames⟩ := exec_processRuns system hconfig hfits
    config.getProducts.nodup (format_template hplain config.length)
    (plain_runName hplain config.length) hoptions folder
    (fun combination hmem => config.keys_of_mem hmem) 1 runs
  refine ⟨runs', h₁, ?_, hsettings, config.length_eq ▸ hnames⟩
  unfold processConfig
  rw [hformatter]
  dsimp only
  split
  · next hmissing =>
    rw [Bool.and_eq_true, Bool.not_eq_true', Bool.not_eq_true'] at hmissing
    have hmkdir : system.mkdir folder = .ok () := by
      rcases hfolder with hdryrun | hexists | hmkdir
      · exact absurd (hdryrun.symm.trans hmissing.1) nofun
      · exact absurd (hexists.symm.trans hmissing.2) nofun
      · exact hmkdir
    rw [exec_bind, exec_liftExcept, hmkdir]
    exact hexec
  · exact hexec

/-- The settings of a configuration that is loaded are a new object. -/
theorem exec_allocate (config : Config (Dict String V) V) (keys : List String)
    (h : Heap (Dict String V)) (log : L) :
    ∃ (settings : Option Nat) (h₁ : Heap (Dict String V)),
      exec (allocate config) ⟨h, log⟩ = (.ok { config with settings := settings }, ⟨h₁, log⟩) ∧
      Config.Fits keys config.own h₁ { config with settings := settings } := by
  unfold allocate Config.own Config.Fits
  cases config.settings with
  | none => exact ⟨none, h, rfl, rfl⟩
  | some settings =>
    refine ⟨some h.next, h.alloc settings, rfl, ?_⟩
    dsimp only
    rw [Heap.read_alloc_self]
    exact .refl _ _

/-- The runs of a file: one for each combination, with the configured
settings and the combination over them, and with numbered names. -/
structure Expands (system : System) (path : String) (config : Config (Dict String V) V)
    (runs : List (Run S V)) : Prop where
  settings : runs.map (·.settings) = (product config.factors).map config.own.update
  names : runs.map (·.name) =
    (List.range' 1 runs.length).map (runName (system.project path) runs.length)

theorem exec_collectFile {file : ConfigFile V} {config : Config (Dict String V) V}
    (hvalid : Valid imports system file config)
    (hoptions : options.dryrun = true ∨ options.force = true)
    (hfolder : options.dryrun = true ∨ system.HasFolder file.name config.foldername)
    (runs : List (Run S V)) :
    ∃ (runs' : List (Run S V)) (h₁ : Heap (Dict String V)),
      exec (collectFile imports system options file) ⟨h, runs⟩ =
        (.ok (), ⟨h₁, runs ++ runs'⟩) ∧ Expands system file.name config runs' := by
  obtain ⟨settings, h₀, hallocate, hfits⟩ :=
    exec_allocate config config.getProducts.keys h runs
  obtain ⟨runs', h₁, hexec, hsettings, hnames⟩ := exec_processConfig
    { config with settings := settings }
    ⟨hvalid.simulationClass, hvalid.seed, hvalid.directoryFacilitator⟩ hfits hvalid.formatter
    hvalid.plain_project hoptions hfolder runs
  have hlength : runs'.length = Config.length config := by
    rw [Config.length_eq, ← List.length_map (·.settings), hsettings, List.length_map]
    rfl
  refine ⟨runs', h₁, ?_, hsettings, hlength ▸ hnames⟩
  unfold collectFile
  rw [hvalid.yaml]
  show exec (liftExcept file.load >>= _) _ = _
  rw [exec_bind, exec_liftExcept, hvalid.load]
  exact (exec_bind_of_ok hallocate).trans hexec

/-- The files one after the other. -/
theorem exec_collectFiles {files : List (ConfigFile V)}
    (hvalid : ∀ file ∈ files, ∃ config, Valid imports system file config ∧
      (options.dryrun = true ∨ system.HasFolder file.name config.foldername))
    (hoptions : options.dryrun = true ∨ options.force = true)
    (runs : List (Run S V)) :
    ∃ (runs' : List (List (Run S V))) (h₁ : Heap (Dict String V)),
      exec (files.forM (collectFile imports system options)) ⟨h, runs⟩ =
        (.ok (), ⟨h₁, runs ++ runs'.flatten⟩) ∧
      List.Forall₂ (fun file runs => ∃ config, file.load = .ok (some config) ∧
        Expands system file.name config runs) files runs' := by
  induction files generalizing h runs with
  | nil =>
    refine ⟨[], h, ?_, .nil⟩
    rw [List.flatten_nil, List.append_nil]
    rfl
  | cons file rest ih =>
    obtain ⟨⟨config, hfile, hfolder⟩, hrest⟩ := List.forall_mem_cons.mp hvalid
    obtain ⟨first, h₁, hexec, hexpands⟩ := exec_collectFile hfile hoptions hfolder runs
    obtain ⟨runs', h₂, hexec', hall⟩ := ih hrest (runs ++ first)
    refine ⟨first :: runs', h₂, ?_, .cons ⟨config, hfile.load, hexpands⟩ hall⟩
    rw [exec_forM_cons, hexec]
    dsimp only
    rw [hexec', List.flatten_cons, List.append_assoc]

end All

/-! ## §4 Names -/

/-- Numbers up to the number of runs have no more digits than it. -/
theorem runName_lt (project : String) {length i j : Nat} (hlength : 1 < length) (h : i < j)
    (hj : j ≤ length) : runName project length i < runName project length j := by
  have hdigits : j < 10 ^ widthOf length :=
    Nat.lt_of_le_of_lt hj (Nat.lt_pow_succ_log_self (by decide) length)
  have hpad := Decimal.zeroPad_lt (Nat.succ_pos _) h hdigits
  unfold runName
  rw [if_pos hlength, if_pos hlength]
  simp only [String.lt_iff, String.toList_append, String.toList_ofList]
  exact List.append_left_lt hpad

/-- The names are the project and a number with leading zeros, and they are
in order. -/
structure Numbered (project : String) (runs : List (Run S V)) : Prop where
  names : runs.map (·.name) = (List.range' 1 runs.length).map fun count =>
    project ++ "-" ++ String.ofList (zeroPad (widthOf runs.length) count)
  distinct : (runs.map (·.name)).Nodup
  ordered : (runs.map (·.name)).Pairwise (· < ·)

theorem Expands.numbered {path : String} {config : Config (Dict String V) V}
    {runs : List (Run S V)} (h : Expands system path config runs)
    (hmany : 1 < runs.length) : Numbered (system.project path) runs := by
  have hordered : (runs.map (·.name)).Pairwise (· < ·) := by
    rw [h.names, List.pairwise_map]
    refine List.Pairwise.imp_of_mem ?_ (List.pairwise_lt_range' 1 (by decide))
    intro i j _ hj hij
    rw [List.mem_range'_1] at hj
    exact runName_lt _ hmany hij (by omega)
  have hdistinct : (runs.map (·.name)).Nodup := by
    refine List.Pairwise.imp (fun {a b} hlt => ?_) hordered
    rintro rfl
    exact String.lt_irrefl a hlt
  refine ⟨?_, hdistinct, hordered⟩
  rw [h.names]
  refine List.map_congr_left fun count _ => ?_
  rw [runName, if_pos hmany]

/-- Two or more runs are submitted as they were collected. -/
theorem exec_main {args : Args V} {w w' : World (List (Run S V)) V}
    (hcollect : exec (collect imports system args) w = (.ok (), w')) (hsingle : args.single = false)
    (hmany : 1 < w'.log.length) :
    exec (main imports system args) w = (.ok (.submitted w'.log), w') := by
  unfold main
  rw [exec_bind_of_ok hcollect, exec_bind, exec_get]
  dsimp only
  rw [hsingle, if_neg (by simp; omega), if_pos hmany]
  rfl

/-- With `--dry-run` or `--force`, each file of valid configurations has one
run for each combination of its products, in the order of the product. Two
or more runs of a file are numbered. -/
theorem collect_expands {args : Args V}
    (hvalid : ∀ file ∈ args.configs, ∃ config, Valid imports system file config ∧
      (args.dryrun = true ∨ system.HasFolder file.name config.foldername))
    (hmode : args.dryrun = true ∨ args.force = true) (h : Heap (Dict String V)) :
    ∃ (runs : List (List (Run S V))) (h₁ : Heap (Dict String V)),
      exec (collect imports system args) ⟨h, []⟩ = (.ok (), ⟨h₁, runs.flatten⟩) ∧
      (args.single = false → 1 < runs.flatten.length →
        exec (main imports system args) ⟨h, []⟩ =
          (.ok (.submitted runs.flatten), ⟨h₁, runs.flatten⟩)) ∧
      List.Forall₂ (fun file runs => ∃ config, file.load = .ok (some config) ∧
        runs.map (·.settings) = (product config.factors).map config.own.update ∧
        (1 < runs.length → Numbered (system.project file.name) runs)) args.configs runs := by
  obtain ⟨runs, h₁, hexec, hall⟩ := exec_collectFiles hvalid hmode []
  refine ⟨runs, h₁, hexec, exec_main hexec, hall.imp ?_⟩
  rintro file runs ⟨config, hload, hexpands⟩
  exact ⟨config, hload, hexpands.settings, hexpands.numbered⟩

/-! ## §5 A configuration of twelve runs -/

/-- A class for every name, and numbers as values. -/
def plainImports : Imports String Nat where
  getClass moduleName className := .ok (moduleName ++ ":" ++ className)
  isSimulation _ := .ok true
  qualname simcls := simcls
  formatFields _ _ _ := .error (.other "not formatted")
  zero := 0
  sentry := false

/-- An empty file system. -/
def emptySystem : System where
  abspath path := "/srv/" ++ path
  pathExists _ := false
  mkdir _ := .ok ()

/-- Three sizes and four modes. -/
def cellConfig : Config (Dict String Nat) Nat where
  simulationClass := some (.text "cell.Simulation")
  settings := some (.ofPairs [("speed", 7), ("size", 0)])
  products := some (.ofPairs [("size", [3, 1, 2]), ("mode", [1, 2, 3, 4])])

def cellArgs : Args Nat where
  dryrun := false
  force := true
  loglevel := INFO
  dsn := none
  configs := [⟨"sims/cell.yaml", .ok (some cellConfig)⟩]
  single := false

/-- The file is valid, and its folder can be made. -/
theorem valid_cell : Valid plainImports emptySystem ⟨"sims/cell.yaml", .ok (some cellConfig)⟩
    cellConfig :=
  ⟨by decide, rfl, ⟨"cell:Simulation", by decide⟩, rfl, rfl, rfl, by decide⟩

/-- The settings of each run are its own, although all have been written to
one dictionary. -/
theorem collect_expands_cell :
    ∃ (runs : List (Run String Nat)) (h₁ : Heap (Dict String Nat)),
      exec (main plainImports emptySystem cellArgs) ⟨⟨fun _ => .empty, 0⟩, []⟩ =
        (.ok (.submitted runs), ⟨h₁, runs⟩) ∧
      runs.map (fun run => run.settings.items) =
        [3, 1, 2].flatMap (fun size => [1, 2, 3, 4].map fun mode =>
          [("speed", 7), ("size", size), ("mode", mode)]) ∧
      Numbered "cell" runs := by
  have hvalid : ∀ file ∈ cellArgs.configs, ∃ config,
      Valid plainImports emptySystem file config ∧ (cellArgs.dryrun = true ∨
        emptySystem.HasFolder file.name config.foldername) := by
    intro file hfile
    rw [List.mem_singleton.mp hfile]
    exact ⟨cellConfig, valid_cell, .inr (.inr rfl)⟩
  obtain ⟨runs, h₁, -, hmain, hall⟩ := collect_expands hvalid (.inr rfl) ⟨fun _ => .empty, 0⟩
  obtain _ | ⟨⟨config, hload, hsettings, hnumbered⟩, ⟨⟩⟩ := hall
  next runs =>
  cases hload
  rw [List.flatten_cons, List.flatten_nil, List.append_nil] at hmain
  have hlength : 1 < runs.length := by
    rw [← List.length_map (·.settings), hsettings]
    decide
  have hitems : (runs.map (·.settings)).map Dict.items =
      [3, 1, 2].flatMap (fun size => [1, 2, 3, 4].map fun mode =>
        [("speed", 7), ("size", size), ("mode", mode)]) := by
    rw [hsettings]
    decide
  rw [List.map_map] at hitems
  exact ⟨runs, h₁, hmain rfl hlength, hitems, hnumbered hlength⟩

end Iams.Configuration
