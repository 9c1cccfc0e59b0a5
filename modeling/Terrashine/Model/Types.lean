import Terrashine.Library.Url
import Mathlib.Data.Finmap

/-!
# The data of the mirror

The records that the handlers, the refresher and the registry client pass around, with the
errors they return.  Times are natural numbers, hash maps are finite maps.
-/

set_option autoImplicit false

namespace Terrashine.Model

open Terrashine.Library

/-- A hash map. -/
abbrev HashMap (κ β : Type) : Type := Finmap (fun _ : κ => β)

/-- A provider as clients name it.
SOURCE: src/refresh.rs:19-24 -/
structure TerraformProvider where
  hostname : Text
  namespace_ : Text
  providerType : Text
  deriving DecidableEq

/-! ## The answers of upstream registries -/

/-- SOURCE: src/registry/types.rs:23-27 -/
structure ProviderPlatform where
  os : Text
  arch : Text
  deriving DecidableEq

/-- SOURCE: src/registry/types.rs:15-21 -/
structure ProviderVersionItem where
  version : Text
  platforms : List ProviderPlatform
  deriving DecidableEq

/-- SOURCE: src/registry/types.rs:10-13 -/
structure ProviderVersions where
  versions : List ProviderVersionItem
  deriving DecidableEq

/-- SOURCE: src/registry/types.rs:31-43 -/
structure ProviderResponse where
  downloadUrl : Url
  deriving DecidableEq

/-- SOURCE: src/registry/client.rs:28-37 -/
structure DiscoveredServices where
  providersV1 : Option Text
  modulesV1 : Option Text
  loginV1 : Option Text
  deriving DecidableEq

/-! ## HTTP -/

abbrev Bytes : Type := List UInt8

/-- A GET request, with the tokens of its `Authorization: Bearer` headers. -/
structure HttpRequest where
  url : Url
  bearers : List Text
  deriving DecidableEq

/-- How the body of a response ends. -/
inductive BodyEnd where
  | complete
  | broken
  deriving DecidableEq

/-- A body as it will arrive: its chunks in order, and how it ends. -/
structure Body where
  chunks : List Bytes
  ending : BodyEnd
  deriving DecidableEq

structure HttpResponse where
  status : ℕ
  body : Body
  deriving DecidableEq

inductive HttpError where
  | builder
  | transport
  | status (code : ℕ)
  deriving DecidableEq

/-- A request while it is built.  The first part that cannot be added leaves an error in its place,
which sending it returns. -/
structure RequestBuilder where
  request : Except HttpError HttpRequest
  deriving DecidableEq

/-- `client.get(url)` -/
def RequestBuilder.get (url : Url) : RequestBuilder :=
  { request := .ok { url := url, bearers := [] } }

/-- A header value holds no control character but tabs. -/
def legalHeaderValue (t : Text) : Bool := t.all fun c => c == '\t' || (32 ≤ c.toNat && c.toNat != 127)

/-- `bearer_auth`: one more header, if the token can be in one. -/
def RequestBuilder.bearerAuth (self : RequestBuilder) (token : Text) : RequestBuilder :=
  match self.request with
  | .error _ => self
  | .ok request =>
    if legalHeaderValue token then
      { request := .ok { request with bearers := request.bearers ++ [token] } }
    else { request := .error .builder }

/-- The status codes the handlers answer with. -/
inductive StatusCode where
  | ok
  | badRequest
  | notFound
  | internalServerError
  | badGateway
  deriving DecidableEq

/-! ## Errors -/

inductive SqlError where
  | unavailable
  | invalidText
  | checkViolation
  | notNullViolation
  | foreignKeyViolation
  | uniqueViolation
  deriving DecidableEq

/-- A failed call to the object storage. -/
inductive S3Error where
  | failed
  deriving DecidableEq

/-- An `anyhow::Error`: its source is erased, the contexts put around it stay. -/
structure AnyhowError where
  contexts : List Text
  deriving DecidableEq

/-- SOURCE: src/error.rs:5-46 -/
inductive TerrashineError where
  | databaseError (source : SqlError)
  | providerResponseTooLarge (limit : ℕ)
  | providerResponseFailure (source : HttpError)
  | providerDeserializationError
  | terraformServiceNotSupported (serviceType : Text) (hostname : Text)
  | concurrentProviderFetch (provider : TerraformProvider)
  | tooManyRequestsInChannel (channelName : Text)
  | providerGetBuildUrlFailure (hostname : Text) (port : ℕ) (baseUrl : Text) (path : Text)
  | brokenRefresherChannel
  | anyhow (source : AnyhowError)
  deriving DecidableEq

/-! ## The refresher's messages -/

/-- A message to the refresher; the channel is that of the request that waits for the
answer, named by the request.
SOURCE: src/refresh.rs:26-31 -/
structure RefreshRequest where
  provider : TerraformProvider
  responseChannel : Option ℕ
  deriving DecidableEq

/-- SOURCE: src/refresh.rs:33-44 -/
inductive RefreshResponse where
  | refreshPerformed (result : Except TerrashineError ProviderVersions)
  | providerVersionNotStale
  deriving DecidableEq

inductive TrySendError where
  | full
  | closed
  deriving DecidableEq

inductive SendTimeoutError where
  | timeout
  | closed
  deriving DecidableEq

/-! ## The answers to clients -/

/-- SOURCE: src/http/response_types.rs:14-20 -/
structure MirrorIndex where
  versions : HashMap Text (HashMap Text Text)
  deriving DecidableEq

/-- SOURCE: src/http/response_types.rs:9-12 -/
structure TargetPlatformIdentifier where
  url : Text
  deriving DecidableEq

/-- SOURCE: src/http/response_types.rs:4-7 -/
structure MirrorVersion where
  archives : HashMap Text TargetPlatformIdentifier
  deriving DecidableEq

/-- A presigned GET of one object.
SOURCE: src/http/artifacts.rs:367-381 -/
structure PresignedUri where
  bucket : Text
  key : Text
  expiresIn : ℕ
  deriving DecidableEq

/-- SOURCE: src/http/artifacts.rs:28-30 -/
structure ArtifactResponse where
  uri : PresignedUri
  deriving DecidableEq

/-! ## Artifacts -/

/-- SOURCE: src/http/artifacts.rs:142-153 -/
structure ArtifactDetails where
  versionId : ℕ
  hostname : Text
  namespace_ : Text
  providerType : Text
  version : Text
  os : Text
  arch : Text
  artifactId : Option ℕ
  deriving DecidableEq

/-- SOURCE: src/http/artifacts.rs:155-165 -/
structure Artifact where
  versionId : ℕ
  hostname : Text
  namespace_ : Text
  providerType : Text
  version : Text
  os : Text
  arch : Text
  artifactId : ℕ
  deriving DecidableEq

/-- SOURCE: src/http/version.rs:80-84 -/
structure DatabaseDownloadResult where
  os : Text
  arch : Text
  id : ℕ
  deriving DecidableEq

/-- A part of a multipart upload as the completion request lists it. -/
structure CompletedPart where
  eTag : Text
  partNumber : ℕ
  deriving DecidableEq

/-- SOURCE: src/credhelper/types.rs:5-9 -/
inductive Credential where
  | notFound
  | entry (token : Option Text)
  deriving DecidableEq

end Terrashine.Model
