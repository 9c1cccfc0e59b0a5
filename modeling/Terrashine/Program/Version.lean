import Terrashine.Model.Database
import Terrashine.Program.Registry

/-!
# The downloads of one version

The path segment that names a version, the archives a version offers, and the handler that
lists them.
-/

set_option autoImplicit false

namespace Terrashine.Model

open Terrashine.Library

/-- A path segment that ends in `.json`.
SOURCE: src/http/version.rs:38-42 -/
structure Version where
  full : Text
  verified : (Text.stripSuffix ".json".toList full).isSome

/-- SOURCE: src/http/version.rs:44-46 -/
structure VersionParseError where
  value : Text
  deriving DecidableEq

/-- SOURCE: src/http/version.rs:48-53 -/
def Version.versionPrefix (self : Version) : Text :=
  (Text.stripSuffix ".json".toList self.full).get self.verified

/-- SOURCE: src/http/version.rs:55-63 -/
def Version.tryFrom (value : Text) : Except VersionParseError Version :=
  if h : (Text.stripSuffix ".json".toList value).isSome then .ok { full := value, verified := h }
  else .error { value := value }

/-- SOURCE: src/http/version.rs:65-71 -/
def archiveName (os arch : Text) : Text := os ++ ['_'] ++ arch

/-- SOURCE: src/http/version.rs:73-78 -/
def buildUrl (baseUrl : Text) (id : ℤ) : Text := baseUrl ++ "artifacts/".toList ++ Text.ofInt id

/-- SOURCE: src/http/version.rs:86-96 -/
def MirrorVersion.build (result : List DatabaseDownloadResult) (baseUrl : Text) : MirrorVersion :=
  { archives := result.foldl
      (fun archives row => archives.insert (archiveName row.os row.arch)
        { url := buildUrl baseUrl row.id }) ∅ }

/-- SOURCE: src/http/version.rs:117-152 -/
def listDownloads (provider : TerraformProvider) (version : Text) :
    ExceptT AnyhowError Io (List DatabaseDownloadResult) :=
  tryCall anyhow (perform (.selectDownloads provider version))

/-- SOURCE: src/http/version.rs:15-36 -/
def versionHandler (httpRedirectUrl : Url) (provider : TerraformProvider) (version : Version) :
    Io (Except StatusCode MirrorVersion) := do
  match ← (listDownloads provider version.versionPrefix).run with
  | .ok downloads => pure (.ok (.build downloads httpRedirectUrl.serialize))
  | .error _ => pure (.error .internalServerError)

end Terrashine.Model
