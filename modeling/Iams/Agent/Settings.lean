/-
Iams.Agent.Settings — what an agent reads from its environment.

An agent runs in a container, with the variables of its image and the items
of its service. Docker splits an item at the first equals sign; an item
without one takes a variable away (`containerEnviron`). The modules of
`iams/aio` and `iams/helper.py` read their settings when they are imported,
and are switched off where a variable is missing. The libraries they need
are taken to be installed, and the ports are not modelled, which no plugin
sets.

`containerEnviron_formatItems` reads the environment of a service back.

No `sorry`, no `axiom`, no `native_decide`.
-/
import Iams.Plugins.Shipped
import Iams.Runtime.Submit
import Mathlib.Data.List.TakeWhile

namespace Iams.Agent

open Iams.Lib
open Iams.Plugins (Environ)
open Iams.Runtime (EnvValue formatEnvironment formatItems)

/-! ## The container -/

/-- An item, split at the first equals sign. -/
def splitItem (item : String) : String × Option String :=
  (String.ofList (item.toList.takeWhile (· ≠ '=')),
    if '=' ∈ item.toList then
      some (String.ofList ((item.toList.dropWhile (· ≠ '=')).drop 1))
    else none)

/-- The environment of a process whose image has the variables `image`. -/
def containerEnviron (image : Environ) (items : List String) : Environ :=
  items.foldl (fun environ item key =>
    if key = (splitItem item).1 then (splitItem item).2 else environ key) image

/-! ## The settings -/

/-- `HOST` and `TOPIC` in `iams/aio/mqtt.py`, unless `MQTT` is false. -/
def mqtt (environ : Environ) : Option (String × Option String) :=
  (environ "MQTT_HOST").map fun host => (host, environ "MQTT_TOPIC")

/-- `HOST` and `NAME` in `iams/aio/zeebe.py`, unless `ENABLE` is false. -/
def zeebe (environ : Environ) : Option (String × Option String) :=
  (environ "ZEEBE_HOST").map fun host => (host, environ "ZEEBE_NAME")

/-- The arguments of an `InfluxCoroutine`. -/
structure Influx where
  url : String
  bucket : String
  token : String
  org : String
  deriving DecidableEq, Repr

/-- The settings in `iams/aio/influx.py`, unless `ENABLED` is false. -/
def influx (environ : Environ) : Option Influx := do
  let bucket ← environ "INFLUX_BUCKET"
  let url ← environ "INFLUX_HOST"
  let org ← environ "INFLUX_ORG"
  let token ← environ "INFLUX_TOKEN"
  return { url, bucket, token, org }

/-- A variable that is there and not empty. -/
def truthy (value : Option String) : Option String := value.filter (· ≠ "")

/-- `host` and `tag` of the handler in `get_logging_config`, if there is
one. -/
def fluentd (environ : Environ) : Option (String × String) := do
  let host ← truthy (environ "FLUENTD_HOST")
  let tag ← truthy (environ "FLUENTD_TAG")
  return (host, tag)

/-- The arguments of `sentry_sdk.init` in `get_logging_config`, if it is
called. -/
def sentry (environ : Environ) : Option (String × Option String) :=
  (truthy (environ "SENTRY_DSN")).map fun dsn => (dsn, environ "IAMS_AGENT")

/-! ## Reading an environment back -/

/-- A value as a process sees it. -/
def text : EnvValue → Option String
  | .none => none
  | .str s => some s
  | .int n => some (toString n)

theorem splitItem_of_notMem {key : String} (hkey : '=' ∉ key.toList) :
    splitItem key = (key, none) := by
  have htake : key.toList.takeWhile (· ≠ '=') = key.toList :=
    List.takeWhile_eq_self_iff.mpr fun c hc => by
      simpa using fun h : c = '=' => hkey (h ▸ hc)
  rw [splitItem, if_neg hkey, htake, String.ofList_toList]

theorem splitItem_append {key : String} (hkey : '=' ∉ key.toList) (value : String) :
    splitItem (key ++ "=" ++ value) = (key, some value) := by
  have hlist : (key ++ "=" ++ value).toList = key.toList ++ '=' :: value.toList := by
    rw [String.toList_append, String.toList_append, List.append_assoc]
    rfl
  have hne : ∀ c ∈ key.toList, decide (c ≠ '=') = true := fun c hc => by
    simpa using fun h : c = '=' => hkey (h ▸ hc)
  rw [splitItem, hlist, List.takeWhile_append_of_pos hne, List.dropWhile_append_of_pos hne,
    if_pos (by simp)]
  simp

theorem splitItem_format {key : String} (hkey : '=' ∉ key.toList) (value : EnvValue) :
    splitItem (formatEnvironment key value) = (key, text value) := by
  cases value with
  | none => exact splitItem_of_notMem hkey
  | str s => exact splitItem_append hkey s
  | int n => exact splitItem_append hkey (toString n)

/-- A process sees the values of its service, and those of its image behind
them. -/
theorem containerEnviron_formatItems {env : Dict String EnvValue}
    (hkeys : ∀ key ∈ env.items.map Prod.fst, '=' ∉ key.toList) (image : Environ) (key : String) :
    containerEnviron image (formatItems env) key =
      ((env.get? key).map text).getD (image key) := by
  obtain ⟨items, hnodup⟩ := env
  change containerEnviron image (items.map _) key = ((Items.find key items).map text).getD _
  induction items generalizing image with
  | nil => rfl
  | cons item rest ih =>
    obtain ⟨hitem, hrest⟩ := List.forall_mem_cons.mp hkeys
    obtain ⟨hnew, hnodup⟩ := List.nodup_cons.mp hnodup
    rw [List.map_cons, containerEnviron, List.foldl_cons]
    refine (ih _ hnodup hrest).trans ?_
    rw [splitItem_format hitem, Items.find]
    by_cases hkey : item.1 = key
    · subst hkey
      have hnone : Items.find item.1 rest = none := by
        rw [Items.mem_keys_iff] at hnew
        exact Option.not_isSome_iff_eq_none.mp hnew
      rw [hnone, if_pos rfl, if_pos rfl]
      rfl
    · rw [if_neg hkey, if_neg (Ne.symm hkey)]

end Iams.Agent
