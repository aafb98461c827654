/-
Iams.Plugins.Shipped — the plugins in `iams/plugins`, and how the server
loads them.

`Interface` is the base class in `iams/interfaces/plugin.py`: a plugin
overrides some of its methods, and `__call__` puts together what they
return. Each plugin reads its settings from the environment of the server
when it is created, and is skipped where one is missing. Three of them add
a host and a text with the name of the agent (`hostPlugin`).

`Server.get_plugins` creates the plugins in the order in which
`iams/utils/plugins.py` finds their directories, which the operating system
decides. Only the plugins of the package are here; the argument `simulation`
is not read by any of them.

No `sorry`, no `axiom`, no `native_decide`.
-/
import Iams.Runtime.Swarm

namespace Iams.Plugins

open Iams.Lib
open Iams.Runtime (Applied Error Generated Plugin)

/-- `os.environ.get` -/
abbrev Environ := String → Option String

/-! ## The base class -/

/-- A subclass of `iams.interfaces.plugin.Plugin`, where `κ` has the keyword
arguments that `get_kwargs` returns. -/
structure Interface (κ : Type) where
  label : Option String
  getKwargs : String → String → String → String → Except Error κ
  getEnv : κ → Except Error (List (String × String)) := fun _ => .ok []
  getLabels : κ → Except Error (List (String × String)) := fun _ => .ok []
  getNetworks : κ → Except Error (List String) := fun _ => .ok []
  getConfiguredSecrets : κ → Except Error (List (String × String)) := fun _ => .ok []
  getGeneratedSecrets : κ → Except Error (List Generated) := fun _ => .ok []

namespace Interface

/-- `__call__` -/
def call {κ : Type} (plugin : Interface κ) (name image version config : String) :
    Except Error Applied := do
  let kwargs ← plugin.getKwargs name image version config
  let env ← plugin.getEnv kwargs
  let labels ← plugin.getLabels kwargs
  let networks ← plugin.getNetworks kwargs
  let secrets ← plugin.getConfiguredSecrets kwargs
  let generated ← plugin.getGeneratedSecrets kwargs
  return { env, labels, networks, secrets, generated }

/-- The plugin as the runtime has it; `remove` does nothing. -/
def toPlugin {κ : Type} (plugin : Interface κ) : Plugin where
  label := plugin.label
  call := plugin.call
  removeFault _ := none

end Interface

/-- What stands behind the first underscore. -/
def afterUnderscore (name : String) : String :=
  String.ofList ((name.toList.dropWhile (· ≠ '_')).drop 1)

/-- `name.split('_', 1)[1]` -/
def splitRest (name : String) : Except Error String :=
  if '_' ∈ name.toList then .ok (afterUnderscore name)
  else .error (.other "list index out of range")

/-! ## The plugins -/

/-- The process of the server. -/
structure Server where
  environ : Environ
  /-- `self.runtime.get_namespace()` -/
  stackNamespace : String
  /-- The text in `/run/secrets/arango`, without blanks around it. -/
  arangoSecret : Except Error String

variable (server : Server)

/-- `iams.plugins.arango.plugin.Arango`. `get_credentials` returns the
database, the password and a digest, in this order, and the plugin takes the
password. -/
def arango : Option Plugin :=
  some <| Interface.toPlugin {
    label := some "iams.plugins.arango"
    getKwargs := fun _ _ _ _ => .ok ()
    getEnv := fun _ => do
      let password ← server.arangoSecret
      return [
        ("ARANGO_HOSTS", (server.environ "IAMS_ARANGO_HOSTS").getD "http://tasks.arangodb:8529"),
        ("ARANGO_DATABASE", "iams_" ++ server.stackNamespace),
        ("ARANGO_USERNAME", "root"),
        ("ARANGO_PASSWORD", password)]
    getNetworks := fun _ => .ok [server.stackNamespace ++ "_arango"] }

/-- `iams.plugins.envoy.plugin.Envoy` -/
def envoy : Option Plugin :=
  some <| Interface.toPlugin {
    label := some "iams.plugins.envoy"
    getKwargs := fun _ _ _ _ => .ok ()
    getNetworks := fun _ => .ok [server.stackNamespace ++ "_envoy"] }

/-- A plugin that passes on a host, and a text that ends with the name of
the agent. -/
def hostPlugin (label network host text start : String) : Option Plugin :=
  (server.environ host).map fun value => Interface.toPlugin {
    label := some label
    getKwargs := fun name _ _ _ => splitRest name
    getEnv := fun name => .ok [(host, value), (text, start ++ name)]
    getNetworks := fun _ => .ok [server.stackNamespace ++ network] }

/-- `iams.plugins.fluentd.plugin.Fluentd` -/
def fluentd : Option Plugin :=
  hostPlugin server "iams.plugins.fluentd" "_fluentd" "FLUENTD_HOST" "FLUENTD_TAG" "iams.agent."

/-- `iams.plugins.mqtt.plugin.Mqtt` -/
def mqtt : Option Plugin :=
  hostPlugin server "iams.plugins.mqtt" "_mqtt" "MQTT_HOST" "MQTT_TOPIC" "agents/"

/-- `iams.plugins.zeebe.plugin.Zeebe` -/
def zeebe : Option Plugin :=
  hostPlugin server "iams.plugins.zeebe" "_zeebe" "ZEEBE_HOST" "ZEEBE_NAME" ""

/-- `iams.plugins.influxdb.plugin.InfluxDB` -/
def influxdb : Option Plugin := do
  let bucket ← server.environ "INFLUX_BUCKET"
  let host ← server.environ "INFLUX_HOST"
  let org ← server.environ "INFLUX_ORG"
  let token ← server.environ "INFLUX_TOKEN"
  return Interface.toPlugin {
    label := some "iams.plugins.influxdb"
    getKwargs := fun _ _ _ _ => .ok ()
    getEnv := fun _ => .ok [
      ("INFLUX_HOST", host), ("INFLUX_BUCKET", bucket), ("INFLUX_ORG", org),
      ("INFLUX_TOKEN", token)]
    getNetworks := fun _ => .ok [server.stackNamespace ++ "_influxdb"] }

/-- `iams.plugins.sentry.plugin.Sentry` -/
def sentry : Option Plugin :=
  (server.environ "SENTRY_DSN").map fun dsn => Interface.toPlugin {
    label := some "iams.plugins.sentry"
    getKwargs := fun _ _ _ _ => .ok ()
    getEnv := fun _ => .ok [("SENTRY_DSN", dsn)] }

/-! ## Loading -/

/-- The directories in `iams/plugins`. -/
inductive Shipped where
  | arango
  | envoy
  | fluentd
  | influxdb
  | mqtt
  | sentry
  | zeebe
  deriving DecidableEq, Repr

namespace Shipped

/-- `cls.label()` -/
def label : Shipped → String
  | .arango => "iams.plugins.arango"
  | .envoy => "iams.plugins.envoy"
  | .fluentd => "iams.plugins.fluentd"
  | .influxdb => "iams.plugins.influxdb"
  | .mqtt => "iams.plugins.mqtt"
  | .sentry => "iams.plugins.sentry"
  | .zeebe => "iams.plugins.zeebe"

/-- `cls(namespace, simulation)`, where `none` stands for a `SkipPlugin`. -/
def create : Shipped → Option Plugin
  | .arango => Plugins.arango server
  | .envoy => Plugins.envoy server
  | .fluentd => Plugins.fluentd server
  | .influxdb => Plugins.influxdb server
  | .mqtt => Plugins.mqtt server
  | .sentry => Plugins.sentry server
  | .zeebe => Plugins.zeebe server

end Shipped

/-- `Server.get_plugins`: those that are not skipped are registered. -/
def Server.getPlugins (found : List Shipped) : List Plugin :=
  found.filterMap (Shipped.create server)

end Iams.Plugins
