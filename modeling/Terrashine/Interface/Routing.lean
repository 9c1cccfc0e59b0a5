import Terrashine.Library.Router
import Terrashine.Library.PercentDecoding
import Terrashine.Interface.Deployment

/-!
# Routing

From a method and a path to the request of a deployment: the table of the application, the method
of each of its entries, and the extractors, which decode the parameters of the path and read a
version or an integer out of them.
-/

set_option autoImplicit false

namespace Terrashine.Interface

open Terrashine.Library Terrashine.Model

inductive Method where
  | get
  | head
  | post
  | delete
  | other
  deriving DecidableEq

/-- The entries of the table. -/
inductive Endpoint where
  | credentials
  | index
  | version
  | artifact
  | healthcheck
  | metrics
  deriving DecidableEq

/-- SOURCE: src/app.rs:91-107, src/http/api/mod.rs:17-21 -/
def routeTable : List (Router.Pattern × Endpoint) :=
  [(.ofText "/api/v1/credentials/\x7bhostname\x7d".toList, .credentials),
    (.ofText "/mirror/v1/\x7bhostname\x7d/\x7bnamespace\x7d/\x7bprovider_type\x7d/index.json".toList,
      .index),
    (.ofText "/mirror/v1/\x7bhostname\x7d/\x7bnamespace\x7d/\x7bprovider_type\x7d/\x7bversion\x7d".toList,
      .version),
    (.ofText "/mirror/v1/artifacts/\x7bversion_id\x7d".toList, .artifact),
    (.ofText "/healthcheck".toList, .healthcheck),
    (.ofText "/metrics".toList, .metrics)]

/-- The handlers behind the entries. -/
inductive Handler where
  | update
  | delete
  | exists_
  | index
  | version
  | artifact
  | healthcheck
  | metrics
  deriving DecidableEq

/-- A `get` route also answers HEAD.
SOURCE: src/app.rs:93-107, src/http/api/mod.rs:20 -/
def Endpoint.handler : Endpoint → Method → Option Handler
  | .credentials, .post => some .update
  | .credentials, .delete => some .delete
  | .credentials, .get => some .exists_
  | .credentials, .head => some .exists_
  | .index, .get => some .index
  | .index, .head => some .index
  | .version, .get => some .version
  | .version, .head => some .version
  | .artifact, .get => some .artifact
  | .artifact, .head => some .artifact
  | .healthcheck, .get => some .healthcheck
  | .healthcheck, .head => some .healthcheck
  | .metrics, .get => some .metrics
  | .metrics, .head => some .metrics
  | _, _ => none

/-- Why a request reaches no handler. -/
inductive Rejection where
  | notFound
  | methodNotAllowed
  | badPath
  | badBody
  deriving DecidableEq

inductive Dispatched where
  | handled (route : Route)
  | healthcheck
  | metrics
  | rejected (reason : Rejection)
  deriving DecidableEq

/-- The extractors of the handlers; the token is the one the body holds, if it holds one.
SOURCE: src/http/index.rs:32, src/http/version.rs:21, src/http/artifacts.rs:63,
src/http/api/v1/credential.rs:24-27, 47, 65 -/
def Handler.extract (token : Option Text) : Handler → List Text → Dispatched
  | .update, [hostname] => match token with
    | some token => .handled (.updateCredential hostname token)
    | none => .rejected .badBody
  | .delete, [hostname] => .handled (.deleteCredential hostname)
  | .exists_, [hostname] => .handled (.existsCredential hostname)
  | .index, [hostname, namespace_, providerType] =>
    .handled (.index
      { hostname := hostname, namespace_ := namespace_, providerType := providerType })
  | .version, [hostname, namespace_, providerType, segment] => match Version.tryFrom segment with
    | .ok _ => .handled (.version
        { hostname := hostname, namespace_ := namespace_, providerType := providerType } segment)
    | .error _ => .rejected .badPath
  | .artifact, [versionId] => match Text.toInt64? versionId with
    | some versionId => .handled (.artifact versionId)
    | none => .rejected .badPath
  | .healthcheck, _ => .healthcheck
  | .metrics, _ => .metrics
  | _, _ => .rejected .badPath

/-- What a request reaches.
SOURCE: src/app.rs:69-123 -/
def dispatch (method : Method) (path : Text) (token : Option Text) : Dispatched :=
  match (Router.segments path).bind (Router.lookup routeTable) with
  | none => .rejected .notFound
  | some (endpoint, captured) => match endpoint.handler method with
    | none => .rejected .methodNotAllowed
    | some handler => match captured.mapM Url.percentDecode with
      | none => .rejected .badPath
      | some params => handler.extract token params

/-! ## Paths that clients build -/

/-- How a client writes a name into a path: everything is escaped that stands for something else
in a path. -/
def segmentSet (c : Char) : Bool := Url.pathSet c || c == '%' || c == '/'

def encodeSegment (t : Text) : Text := Url.percentEncode segmentSet t

/-- The fields of a provider in a path. -/
def providerSegments (p : TerraformProvider) : List Text :=
  [encodeSegment p.hostname, encodeSegment p.namespace_, encodeSegment p.providerType]

namespace Route

def method : Route → Method
  | index _ => .get
  | version _ _ => .get
  | artifact _ => .get
  | updateCredential _ _ => .post
  | deleteCredential _ => .delete
  | existsCredential _ => .get

/-- The segments of the path at which a client asks for the route. -/
def segments : Route → List Text
  | index p => ["mirror".toList, "v1".toList] ++ providerSegments p ++ ["index.json".toList]
  | version p segment =>
    ["mirror".toList, "v1".toList] ++ providerSegments p ++ [encodeSegment segment]
  | artifact versionId => ["mirror".toList, "v1".toList, "artifacts".toList, Text.ofInt versionId]
  | updateCredential hostname _ =>
    ["api".toList, "v1".toList, "credentials".toList, encodeSegment hostname]
  | deleteCredential hostname =>
    ["api".toList, "v1".toList, "credentials".toList, encodeSegment hostname]
  | existsCredential hostname =>
    ["api".toList, "v1".toList, "credentials".toList, encodeSegment hostname]

def path (route : Route) : Text := Router.path route.segments

/-- The token that the client sends with it. -/
def token : Route → Option Text
  | updateCredential _ token => some token
  | _ => none

end Route

end Terrashine.Interface
