/-
Iams.Simulation.Output — `write_csv` in `iams/interfaces/simulation.py`, and
the file that a simulation writes with it.

The first call makes the `csv.DictWriter`, with the sorted keys of its
dictionary as the names of the columns, and writes them as the header. A
later call writes a row or, for a key that is no column, raises and writes
nothing. So the file is a table: the header, and one row for each call that
returned, in their order, where every value is found under its key
(`writeCsvs_read`).

`str` is the text of a value, which is empty for `None`.

No `sorry`, no `axiom`, no `native_decide`.
-/
import Iams.Lib.Csv
import Iams.Lib.Overlay
import Iams.Lib.Procedure
import Mathlib.Data.List.Sort
import Mathlib.Data.String.Basic

namespace Iams.Simulation

open Iams.Lib Iams.Lib.Procedure

/-! ## The file -/

namespace Output

/-- `ValueError`, for a dictionary with fields that are no columns. -/
inductive Error where
  | valueError
  deriving DecidableEq, Repr

end Output

/-- `_fobj` and `_csv_writer`, with its `fieldnames` once there is one. -/
structure Output where
  fobj : List Char := []
  csvWriter : Option (List String) := none

namespace Output

variable {ν : Type} (str : ν → String)

/-- `sorted(keys)` -/
def sorted (keys : List String) : List String := keys.insertionSort (· ≤ ·)

/-- `row.get(key, '')`, as it is written -/
def cell (data : Dict String ν) (key : String) : List Char :=
  match data.get? key with
  | some value => (str value).toList
  | none => []

/-- `DictWriter.writerow` -/
def writerow (fieldnames : List String) (data : Dict String ν) : Procedure Output Error Unit := do
  if data.keys.any (· ∉ fieldnames) then throw .valueError
  modify fun out =>
    { out with fobj := out.fobj ++ Csv.writeRow (fieldnames.map (cell str data)) }

/-- `DictWriter.writeheader` -/
def writeheader (fieldnames : List String) : Procedure Output Error Unit :=
  modify fun out => { out with fobj := out.fobj ++ Csv.writeRow (fieldnames.map String.toList) }

/-- `write_csv` -/
def writeCsv (data : Dict String ν) : Procedure Output Error Unit := do
  match (← get).csvWriter with
  | some fieldnames => writerow str fieldnames data
  | none =>
    -- the `AttributeError` of `None`
    let fieldnames := sorted data.keys
    modify fun out => { out with csvWriter := some fieldnames }
    writeheader fieldnames
    writerow str fieldnames data

/-- Calls one after the other, with what each of them returns or raises. -/
def writeCsvs : List (Dict String ν) → Output → List (Except Error Unit) × Output
  | [], out => ([], out)
  | data :: rest, out =>
    let (result, out) := exec (writeCsv str data) out
    let (results, out) := writeCsvs rest out
    (result :: results, out)

/-! ## One call -/

/-- Every key is a column. -/
def fits (fieldnames : List String) (data : Dict String ν) : Bool :=
  data.keys.all (· ∈ fieldnames)

theorem exec_writerow (fieldnames : List String) (data : Dict String ν) (out : Output) :
    exec (writerow str fieldnames data) out =
      if fits fieldnames data then
        (.ok (), { out with fobj := out.fobj ++ Csv.writeRow (fieldnames.map (cell str data)) })
      else (.error .valueError, out) := by
  have hany : data.keys.any (· ∉ fieldnames) = !fits fieldnames data := by
    rw [fits, List.not_all_eq_any_not]
    simp
  unfold writerow
  rw [hany]
  cases fits fieldnames data <;> rfl

theorem mem_sorted {keys : List String} {key : String} : key ∈ sorted keys ↔ key ∈ keys :=
  (List.perm_insertionSort _ keys).mem_iff

/-- The columns are in order, each of them once. -/
theorem sorted_strict {keys : List String} (hnodup : keys.Nodup) :
    (sorted keys).Pairwise (· < ·) := by
  have hle := List.pairwise_insertionSort (· ≤ ·) keys
  have hne : (sorted keys).Pairwise (· ≠ ·) :=
    (List.perm_insertionSort (· ≤ ·) keys).nodup_iff.mpr hnodup
  exact (hle.and hne).imp fun h => lt_of_le_of_ne h.1 h.2

/-! ## Runs -/

/-- The row of a call that fits. -/
def row (fieldnames : List String) (data : Dict String ν) : List Csv.Field :=
  fieldnames.map (cell str data)

/-- The calls after the first one. -/
theorem writeCsvs_some (fieldnames : List String) (calls : List (Dict String ν))
    (text : List Char) :
    writeCsvs str calls { fobj := text, csvWriter := some fieldnames } =
      (calls.map fun data => if fits fieldnames data then .ok () else .error .valueError,
        { fobj := text ++ Csv.writeRows ((calls.filter (fits fieldnames)).map (row str fieldnames)),
          csvWriter := some fieldnames }) := by
  induction calls generalizing text with
  | nil =>
    show _ = (([] : List (Except Error Unit)),
      ({ fobj := text ++ [], csvWriter := some fieldnames } : Output))
    rw [List.append_nil]
    rfl
  | cons data rest ih =>
    have hcall : exec (writeCsv str data) { fobj := text, csvWriter := some fieldnames } =
        exec (writerow str fieldnames data) { fobj := text, csvWriter := some fieldnames } := rfl
    rw [writeCsvs, hcall, exec_writerow]
    by_cases hfits : fits fieldnames data = true
    · simp only [if_pos hfits, ih, List.map_cons,
        List.filter_cons_of_pos hfits, Csv.writeRows_cons, List.append_assoc]
      rfl
    · simp only [if_neg hfits, ih, List.map_cons,
        List.filter_cons_of_neg hfits]

/-- The first call fits by itself. -/
theorem writeCsvs_cons (first : Dict String ν) (rest : List (Dict String ν)) :
    writeCsvs str (first :: rest) {} =
      ((first :: rest).map fun data =>
          if fits (sorted first.keys) data then .ok () else .error .valueError,
        { fobj := Csv.writeRows ((sorted first.keys).map String.toList ::
            ((first :: rest).filter (fits (sorted first.keys))).map (row str (sorted first.keys))),
          csvWriter := some (sorted first.keys) }) := by
  have hfits : fits (sorted first.keys) first = true :=
    List.all_eq_true.mpr fun key hkey => decide_eq_true (mem_sorted.mpr hkey)
  have hcall : exec (writeCsv str first) {} = exec (writerow str (sorted first.keys) first)
      { fobj := Csv.writeRow ((sorted first.keys).map String.toList),
        csvWriter := some (sorted first.keys) } := rfl
  rw [writeCsvs, hcall, exec_writerow, if_pos hfits]
  simp only [writeCsvs_some, List.map_cons, if_pos hfits,
    List.filter_cons_of_pos hfits, Csv.writeRows_cons, List.append_assoc]
  rfl

/-- The file is read as the header and a row for each call that returned;
one that raised, which is one with a key that is no column, has left nothing.
In a row each value of its call is found under its key. -/
theorem writeCsvs_read (calls : List (Dict String ν)) :
    let columns := (calls.head?.map fun first => sorted first.keys).getD []
    let out := writeCsvs str calls {}
    out.1 = (calls.map fun data => if fits columns data then .ok () else .error .valueError) ∧
    Csv.read out.2.fobj = (calls.head?.map fun _ => columns.map String.toList).toList ++
      (calls.filter (fits columns)).map (row str columns) ∧
    columns.Pairwise (· < ·) ∧
    ∀ data ∈ calls.filter (fits columns), ∀ key value, data.get? key = some value →
      Items.find key (columns.zip (row str columns data)) = some (str value).toList := by
  intro columns
  have hcolumns : columns.Pairwise (· < ·) := by
    cases calls with
    | nil => exact .nil
    | cons first rest => exact sorted_strict first.nodup
  refine ⟨?_, ?_, hcolumns, fun data hdata key value hvalue => ?_⟩
  · cases calls with
    | nil => rfl
    | cons first rest => rw [writeCsvs_cons]; rfl
  · cases calls with
    | nil => rfl
    | cons first rest =>
      rw [writeCsvs_cons]
      exact Csv.read_writeRows _
  · have hkey : key ∈ columns := by
      have hfits := List.all_eq_true.mp (List.mem_filter.mp hdata).2
      refine of_decide_eq_true (hfits key ?_)
      rw [Dict.keys, Dict.mem_keys_iff, hvalue]
      rfl
    have hzip : columns.zip (row str columns data) =
        columns.map fun key => (key, cell str data key) :=
      List.map_prod_left_eq_zip.symm
    have hnodup : ((columns.map fun key => (key, cell str data key)).map Prod.fst).Nodup := by
      rw [List.map_map]
      exact (hcolumns.imp fun h => ne_of_lt h).map id fun _ _ h => h
    rw [hzip, Items.find_eq_some_iff hnodup, List.mem_map]
    exact ⟨key, hkey, by rw [cell, hvalue]⟩

end Output

end Iams.Simulation
