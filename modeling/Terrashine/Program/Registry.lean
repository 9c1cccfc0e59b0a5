import Terrashine.Model.Calls

/-!
# The registry client

Service discovery, the construction of the upstream URL, and the request that carries the
token of the registry.  Host texts and JSON documents are read by code outside the
repository: `Externals` holds it.
-/

set_option autoImplicit false

namespace Terrashine.Model

open Terrashine.Library

/-- The host parser of the `url` crate, what it makes of a reference that begins with a backslash
where the base is not special, and the JSON decoders that `serde` derives. -/
structure Externals where
  host : HostParser
  backslashes : Bool
  decodeServices : Bytes → Option DiscoveredServices
  decodeVersions : Bytes → Option ProviderVersions
  decodeResponse : Bytes → Option ProviderResponse

/-! ## Credentials -/

/-- SOURCE: src/credhelper/types.rs:11-42 -/
structure CredentialHelper (m : Type → Type) where
  get : Text → ExceptT AnyhowError m Credential
  store : Text → Text → ExceptT AnyhowError m Unit
  forget : Text → ExceptT AnyhowError m Unit

/-- SOURCE: src/credhelper/types.rs:29-41 -/
def CredentialHelper.transform {m : Type → Type} [Monad m] (self : CredentialHelper m)
    (request : RequestBuilder) (hostname : Text) : ExceptT AnyhowError m RequestBuilder := do
  match ← self.get hostname with
  | .notFound => pure request
  | .entry none => pure request
  | .entry (some token) => pure (request.bearerAuth token)

/-- An error that becomes an `anyhow::Error` without a context. -/
def anyhow {ε : Type} (_ : ε) : AnyhowError := { contexts := [] }

/-- SOURCE: src/credhelper/database.rs:19-62 -/
def databaseCredentials : CredentialHelper Io where
  get hostname := do
    match ← tryCall anyhow (perform (.selectAuthToken hostname)) with
    | some token => pure (.entry token)
    | none => pure .notFound
  store hostname cred := tryCall anyhow (perform (.upsertAuthToken hostname cred))
  forget hostname := tryCall anyhow (perform (.deleteAuthToken hostname))

/-! ## Reading a response -/

/-- SOURCE: src/registry/client.rs:8 -/
def discoveryResponseSizeMaxBytes : ℕ := 16384

/-- SOURCE: src/registry/client.rs:9 -/
def registryMetadataSizeMaxBytes : ℕ := 8388608

/-- The loop over the chunks that are still to come, with the buffer it fills.
SOURCE: src/registry/client.rs:44-50 -/
def readChunks (limit : ℕ) (ending : BodyEnd) :
    Bytes → List Bytes → Except TerrashineError Unit × Bytes
  | buffer, [] => match ending with
    | .complete => (.ok (), buffer)
    | .broken => (.error (.providerResponseFailure .transport), buffer)
  | buffer, chunk :: rest =>
    if limit < buffer.length + chunk.length then
      (.error (.providerResponseTooLarge limit), buffer)
    else readChunks limit ending (buffer ++ chunk) rest

/-- SOURCE: src/registry/client.rs:39-51 -/
def readBodyLimit (buffer : Bytes) (response : HttpResponse) (limit : ℕ) :
    Except TerrashineError Unit × Bytes :=
  readChunks limit response.body.ending buffer response.body.chunks

/-- A client or server error status makes the response an error. -/
def HttpResponse.errorForStatus (response : HttpResponse) : Except HttpError HttpResponse :=
  if 400 ≤ response.status ∧ response.status < 600 then .error (.status response.status)
  else .ok response

/-- `send().await?.error_for_status()?` -/
def sendRequest (builder : RequestBuilder) : ExceptT HttpError Io HttpResponse := do
  let request ← liftResult builder.request
  let response ← tryCall id (perform (.httpGet request))
  liftResult response.errorForStatus

/-- The whole response within the limit, decoded. -/
def readJson {A : Type} (decode : Bytes → Option A) (limit : ℕ) (response : HttpResponse) :
    Except TerrashineError A :=
  match readBodyLimit [] response limit with
  | (.error err, _) => .error err
  | (.ok (), buffer) => match decode buffer with
    | some a => .ok a
    | none => .error .providerDeserializationError

/-! ## The client -/

/-- SOURCE: src/registry/client.rs:11-16 -/
structure RegistryClient where
  port : ℕ
  credentials : CredentialHelper Io

/-- The text of the discovery URL.
SOURCE: src/registry/client.rs:59-62 -/
def discoveryText (port : ℕ) (hostname : Text) : Text :=
  "https://".toList ++ hostname ++ ":".toList ++ Text.ofNat port ++
    "/.well-known/terraform.json".toList

/-- `expect`: a failure ends the task. -/
def expect {ε α : Type} (message : Text) : Except ε α → Io α
  | .ok a => .done a
  | .error _ => .panicked message

/-- SOURCE: src/registry/client.rs:55-74 -/
def discoverServices (deps : Externals) (self : RegistryClient) (hostname : Text) :
    ExceptT TerrashineError Io DiscoveredServices := do
  let url ← ExceptT.lift
    (expect "Could not parse URL".toList (Url.parse deps.host (discoveryText self.port hostname)))
  let response ← tryCall .providerResponseFailure (sendRequest (.get url)).run
  liftResult (readJson deps.decodeServices discoveryResponseSizeMaxBytes response)

/-- `base_url` resolved against the registry's own address.
SOURCE: src/registry/client.rs:83-84 -/
def registryBase (deps : Externals) (port : ℕ) (hostname baseUrl : Text) :
    Except UrlParseError Url := do
  let u ← Url.parse deps.host ("https://".toList ++ hostname ++ ":".toList ++ Text.ofNat port)
  u.join deps.host deps.backslashes baseUrl

/-- SOURCE: src/registry/client.rs:83-91 -/
def providerUrl (deps : Externals) (port : ℕ) (hostname baseUrl path : Text) :
    Except TerrashineError Url :=
  match registryBase deps port hostname baseUrl >>= fun u =>
      u.join deps.host deps.backslashes path with
  | .ok u => .ok u
  | .error _ => .error (.providerGetBuildUrlFailure hostname port baseUrl path)

/-- SOURCE: src/registry/client.rs:76-112 -/
def providerGet {A : Type} (deps : Externals) (decode : Bytes → Option A) (self : RegistryClient)
    (hostname path : Text) : ExceptT TerrashineError Io A := do
  let services ← discoverServices deps self hostname
  match services.providersV1 with
  | some baseUrl =>
    let url ← liftResult (providerUrl deps self.port hostname baseUrl path)
    let request ← tryCall .anyhow
      (self.credentials.transform (.get url) hostname).run
    let response ← tryCall .providerResponseFailure (sendRequest request).run
    liftResult (readJson decode registryMetadataSizeMaxBytes response)
  | none =>
    liftResult (.error (.terraformServiceNotSupported "provider".toList hostname))

end Terrashine.Model
