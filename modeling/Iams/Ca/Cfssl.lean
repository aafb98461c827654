/-
Iams.Ca.Cfssl — the certificate authority in `iams/ca.py`.

`get_certificate` works out for which hosts a certificate is requested, and
`_get_certificate` sends the request to the service, which is a parameter
here. `authority` is what the runtime is given.

No `sorry`, no `axiom`, no `native_decide`.
-/
import Iams.Runtime.Swarm

namespace Iams.Ca

open Iams.Lib
open Iams.Runtime (CertificateAuthority Error)
open Iams.Servicer (Bytes encode)

/-- The request in `_get_certificate`. -/
structure CertificateRequest where
  hosts : List String
  cn : Option String
  algo : String
  size : Nat
  profile : String
  deriving DecidableEq, Repr

/-- What the service answers: the certificate and the private key. -/
structure Issued where
  certificate : String
  privateKey : String

/-- The argument `hosts` of `get_certificate`. -/
inductive Hosts where
  | none
  | true
  | list (hosts : List String)

structure CFSSL where
  hosts : List String
  /-- The answer of the service to a request. -/
  newcert : CertificateRequest → Except Error Issued

namespace CFSSL

/-- `__init__` -/
def init (hosts : Option (List String)) (newcert : CertificateRequest → Except Error Issued) :
    CFSSL where
  hosts := ["127.0.0.1", "localhost"] ++ hosts.getD []
  newcert

variable (ca : CFSSL)

/-- `get_ca_secret` -/
def getCaSecret (data : Dict String String) (stackNamespace : String) : Dict String String :=
  data.set (stackNamespace ++ "_ca.crt") "ca.crt"

/-- `_get_certificate`, up to the request. -/
def request (cn : Option String) (hosts : List String) (profile algo : String) (size : Nat) :
    CertificateRequest where
  hosts := if hosts = [] then [""] else hosts
  cn
  algo
  size
  profile

/-- The hosts and the profile that `get_certificate` begins with. `True` can
be passed without an agent only. -/
def profile (agent : Option String) (hosts : Hosts) : Except Error (List String × String) :=
  match agent, hosts with
  | .none, .none => .ok ([""], "client")
  | .none, .true => .ok (ca.hosts, "peer")
  | .none, .list hosts => .ok (hosts ++ ca.hosts, "peer")
  | .some _, .none => .ok (ca.hosts, "peer")
  | .some _, .true => .error (.typeError "unsupported operand type(s) for +=: 'bool' and 'list'")
  | .some _, .list hosts => .ok (hosts ++ ca.hosts, "peer")

/-- `get_certificate`, up to the request. An empty text is no name. -/
def getCertificate (agent cn : Option String) (hosts : Hosts) :
    Except Error CertificateRequest := do
  let (hosts, profile) ← ca.profile agent hosts
  let cn := agent.or cn
  let hosts :=
    match cn with
    | .some name => if name ≠ "" ∧ name ∉ hosts then name :: hosts else hosts
    | .none => hosts
  return request cn hosts profile "ecdsa" 256

/-- The certificate and the key in the answer. -/
def issue (r : CertificateRequest) : Except Error (Bytes × Bytes) :=
  (ca.newcert r).map fun issued => (encode issued.certificate, encode issued.privateKey)

/-- `get_agent_certificate` -/
def getAgentCertificate (name : String) (hosts : Hosts := .none) : Except Error (Bytes × Bytes) :=
  ca.getCertificate (.some name) .none hosts >>= ca.issue

/-- `get_service_certificate` -/
def getServiceCertificate (name : String) (hosts : Hosts := .none) :
    Except Error (Bytes × Bytes) :=
  ca.getCertificate .none (.some name) hosts >>= ca.issue

/-- The authority of a runtime; `expire` reads the date in a certificate. -/
def authority (expire : Bytes → Except Error String) : CertificateAuthority where
  getCaSecret data stackNamespace := .ok (getCaSecret data stackNamespace)
  getAgentCertificate name := some <$> ca.getAgentCertificate name
  expire

end CFSSL

end Iams.Ca
