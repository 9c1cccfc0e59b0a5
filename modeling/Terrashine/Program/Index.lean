import Terrashine.Model.Database
import Terrashine.Program.Registry

/-!
# The index of a provider

The handler that lists the versions of a provider, the refresh that fetches them upstream,
and the transaction that stores them.
-/

set_option autoImplicit false

namespace Terrashine.Model

open Terrashine.Library

/-! ## Storing the versions of a provider -/

/-- The versions array: one entry for each platform of each version.
SOURCE: src/http/index.rs:182-188 -/
def ProviderVersions.versionColumn (response : ProviderVersions) : List Text :=
  response.versions.flatMap fun item => item.platforms.map fun _ => item.version

def ProviderVersions.osColumn (response : ProviderVersions) : List Text :=
  response.versions.flatMap fun item => item.platforms.map fun platform => platform.os

def ProviderVersions.archColumn (response : ProviderVersions) : List Text :=
  response.versions.flatMap fun item => item.platforms.map fun platform => platform.arch

/-- The points at which the connection may fail during the transaction. -/
inductive StoreStep where
  | begin
  | upsert
  | insert
  | commit
  deriving DecidableEq

/-- The transaction, with the step at which the connection fails, if it does.
SOURCE: src/http/index.rs:171-253 -/
def storeProviderVersions (fault : Option StoreStep) (now : ℕ) (db : Database)
    (provider : TerraformProvider) (response : ProviderVersions) :
    Except TerrashineError ℕ × Database :=
  let failed (err : SqlError) (cur : Database) : Except TerrashineError ℕ × Database :=
    (.error (.databaseError err), db.rollback cur)
  if fault = some .begin then failed .unavailable db
  else if fault = some .upsert then failed .unavailable db
  else match db.upsertProvider now provider with
    | (.error err, cur) => failed err cur
    | (.ok (), cur) =>
      if fault = some .insert then failed .unavailable cur
      else match cur.insertProviderVersions response.versionColumn response.osColumn
          response.archColumn provider with
        | (.error err, cur') => failed err cur'
        | (.ok records, cur') =>
          if fault = some .commit then failed .unavailable cur'
          else (.ok records.length, cur')

/-! ## Indexes -/

/-- An index with these versions; the map of each version is empty. -/
def MirrorIndex.insertAll (versions : List Text) : MirrorIndex :=
  { versions := versions.foldl (fun m version => m.insert version ∅) ∅ }

/-- SOURCE: src/http/index.rs:255-263 -/
def MirrorIndex.ofProviderVersions (providerVersions : ProviderVersions) : MirrorIndex :=
  .insertAll (providerVersions.versions.map (·.version))

/-- SOURCE: src/http/index.rs:265-275 -/
def MirrorIndex.ofVersions (versions : List Text) : MirrorIndex := .insertAll versions

/-- The rows of the query as an answer; a null version would empty the list.
SOURCE: src/http/index.rs:159-168 -/
def MirrorIndex.ofRows (rows : List (Option Text)) : Option MirrorIndex :=
  match rows with
  | [] => none
  | _ => some (.ofVersions ((rows.mapM id).getD []))

/-- SOURCE: src/http/index.rs:137-169 -/
def listProviderVersions (provider : TerraformProvider) :
    ExceptT TerrashineError Io (Option MirrorIndex) := do
  let rows ← tryCall .databaseError (perform (.selectVersions provider))
  pure (MirrorIndex.ofRows rows)

/-! ## Refreshing -/

/-- SOURCE: src/http/index.rs:129 -/
def versionsPath (namespace_ providerType : Text) : Text :=
  namespace_ ++ "/".toList ++ providerType ++ "/versions".toList

/-- SOURCE: src/http/index.rs:121-135 -/
def refreshVersions (deps : Externals) (registry : RegistryClient) (provider : TerraformProvider) :
    ExceptT TerrashineError Io ProviderVersions := do
  let providerVersions ← providerGet deps deps.decodeVersions registry provider.hostname
    (versionsPath provider.namespace_ provider.providerType)
  let _ ← tryCall id (perform (.storeProviderVersions provider providerVersions))
  pure providerVersions

/-! ## The handler -/

/-- SOURCE: src/http/index.rs:84-96 -/
def sendTimeoutError : SendTimeoutError → TerrashineError
  | .timeout => .tooManyRequestsInChannel "refresher".toList
  | .closed => .brokenRefresherChannel

/-- SOURCE: src/http/index.rs:100-118 -/
def refreshAnswer (provider : TerraformProvider) :
    Option RefreshResponse → Except TerrashineError MirrorIndex
  | some (.refreshPerformed (.ok versions)) => .ok (.ofProviderVersions versions)
  | some (.refreshPerformed (.error err)) => .error err
  | some .providerVersionNotStale => .error (.concurrentProviderFetch provider)
  | none => .error .brokenRefresherChannel

/-- The path of a provider that the database does not know, or could not be asked about.
SOURCE: src/http/index.rs:63-118 -/
def requestRefresh (channel : ℕ) (provider : TerraformProvider) :
    Io (Except TerrashineError MirrorIndex) := do
  match ← perform (.sendTimeout { provider := provider, responseChannel := some channel } 1) with
  | .error err => pure (.error (sendTimeoutError err))
  | .ok () => pure (refreshAnswer provider (← perform .receiveResponse))

/-- The handler of the request whose response channel is `channel`.
SOURCE: src/http/index.rs:26-119 -/
def indexHandler (channel : ℕ) (provider : TerraformProvider) :
    Io (Except TerrashineError MirrorIndex) := do
  match ← (listProviderVersions provider).run with
  | .ok (some mirrorIndex) =>
    let _ ← perform (.trySend { provider := provider, responseChannel := none })
    pure (.ok mirrorIndex)
  | .ok none => requestRefresh channel provider
  | .error _ => requestRefresh channel provider

end Terrashine.Model
