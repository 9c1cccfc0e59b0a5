import Terrashine.Program.Registry

/-!
# Artifacts

The handler that redirects a client to the archive of a version.  The first request for a
version downloads the archive upstream and stores it in the bucket: a multipart upload whose
parts are cut from the stream as it arrives, and then the update of the version's row.
-/

set_option autoImplicit false

namespace Terrashine.Model

open Terrashine.Library

/-- SOURCE: src/http/artifacts.rs:26 -/
def s3MinimumUploadChunkBytes : ℕ := 10485760

/-- The key of the artifact with that id.
SOURCE: src/http/artifacts.rs:167-174 -/
def s3Key (bucketPrefix : Text) (artifactId : ℕ) : Text :=
  bucketPrefix ++ "artifacts/".toList ++ Text.ofNat artifactId

/-- SOURCE: src/http/artifacts.rs:167-174 -/
def Artifact.toS3Key (self : Artifact) (bucketPrefix : Text) : Text :=
  s3Key bucketPrefix self.artifactId

/-- The artifact of a row, under an id of its own or a new one.
SOURCE: src/http/artifacts.rs:83-92, 106-115 -/
def ArtifactDetails.artifact (detail : ArtifactDetails) (id : ℕ) : Artifact :=
  { versionId := detail.versionId, hostname := detail.hostname, namespace_ := detail.namespace_
    providerType := detail.providerType, version := detail.version, os := detail.os
    arch := detail.arch, artifactId := id }

/-- `context`: a text in front of an error's own. -/
def AnyhowError.context (self : AnyhowError) (text : Text) : AnyhowError :=
  { contexts := text :: self.contexts }

def withContext {ε : Type} (text : Text) (err : ε) : AnyhowError := (anyhow err).context text

/-! ## Upstream and the database -/

/-- SOURCE: src/http/artifacts.rs:176-202 -/
def getArtifactFromDatabase (versionId : ℤ) : ExceptT AnyhowError Io (Option ArtifactDetails) :=
  tryCall anyhow (perform (.selectArtifact versionId))

/-- SOURCE: src/http/artifacts.rs:209-212 -/
def downloadPath (artifact : ArtifactDetails) : Text :=
  artifact.namespace_ ++ "/".toList ++ artifact.providerType ++ "/".toList ++ artifact.version ++
    "/download/".toList ++ artifact.os ++ "/".toList ++ artifact.arch

/-- SOURCE: src/http/artifacts.rs:204-223 -/
def getUpstream (deps : Externals) (registry : RegistryClient) (artifact : ArtifactDetails) :
    ExceptT AnyhowError Io Body := do
  let provider ← tryCall anyhow
    (providerGet deps deps.decodeResponse registry artifact.hostname (downloadPath artifact)).run
  let response ← tryCall anyhow (sendRequest (.get provider.downloadUrl)).run
  pure response.body

/-- SOURCE: src/http/artifacts.rs:225-235 -/
def allocateArtifactId : ExceptT AnyhowError Io ℕ :=
  tryCall (withContext "Failure allocating next id".toList) (perform .nextvalArtifactIds)

/-- SOURCE: src/http/artifacts.rs:350-365 -/
def storeArtifactInDatabase (artifact : Artifact) : ExceptT AnyhowError Io Unit :=
  tryCall
    (withContext ("Writing artifact id(".toList ++ Text.ofNat artifact.artifactId ++
      ") to database".toList))
    (perform (.updateArtifact artifact.artifactId artifact.versionId))

/-! ## The upload -/

/-- Where a multipart upload goes. -/
structure UploadTarget where
  bucketName : Text
  key : Text
  uploadId : ℕ
  deriving DecidableEq

/-- One part, and the entry the completion request will list for it.
SOURCE: src/http/artifacts.rs:264-279, 310-325 -/
def uploadPart (target : UploadTarget) (partNumber : ℕ) (buffer : Bytes) :
    ExceptT AnyhowError Io CompletedPart := do
  let answer ← tryCall anyhow
    (perform (.uploadPart target.bucketName target.key target.uploadId partNumber buffer))
  match answer with
  | some eTag => pure { eTag := eTag, partNumber := partNumber }
  | none => liftResult (.error (withContext "No etag found on response".toList ()))

/-- The stream broke: the upload is aborted before the error is returned.
SOURCE: src/http/artifacts.rs:287-301 -/
def abortUpload {α : Type} (target : UploadTarget) : ExceptT AnyhowError Io α :=
  ExceptT.mk do
    match ← perform (.abortMultipartUpload target.bucketName target.key target.uploadId) with
    | .ok () => pure (.error (withContext "Upstream aborted while streaming".toList ()))
    | .error err => pure (.error (withContext [] err))

/-- What the loop carries: the bytes not yet uploaded, the parts uploaded so far and the
number of the next one. -/
structure UploadState where
  uploadBuffer : Bytes
  uploadParts : List CompletedPart
  partNumber : ℕ
  deriving DecidableEq

/-- The loop over the chunks that are still to come.
SOURCE: src/http/artifacts.rs:255-306 -/
def uploadChunks (target : UploadTarget) (ending : BodyEnd) :
    UploadState → List Bytes → ExceptT AnyhowError Io UploadState
  | state, [] => match ending with
    | .complete => pure state
    | .broken => abortUpload target
  | state, chunk :: rest =>
    let buffer := state.uploadBuffer ++ chunk
    if buffer.length < s3MinimumUploadChunkBytes then
      uploadChunks target ending { state with uploadBuffer := buffer } rest
    else do
      let part ← uploadPart target state.partNumber buffer
      uploadChunks target ending
        { uploadBuffer := [], uploadParts := state.uploadParts ++ [part]
          partNumber := state.partNumber + 1 } rest

/-- What is left in the buffer after the last chunk.
SOURCE: src/http/artifacts.rs:307-326 -/
def uploadRemaining (target : UploadTarget) (state : UploadState) :
    ExceptT AnyhowError Io (List CompletedPart) :=
  if state.uploadBuffer = [] then pure state.uploadParts
  else do
    let part ← uploadPart target state.partNumber state.uploadBuffer
    pure (state.uploadParts ++ [part])

/-- SOURCE: src/http/artifacts.rs:237-348 -/
def stashArtifact (bucketName bucketPrefix : Text) (artifact : Artifact) (stream : Body) :
    ExceptT AnyhowError Io Unit := do
  let key := artifact.toS3Key bucketPrefix
  match ← tryCall anyhow (perform (.createMultipartUpload bucketName key)) with
  | none => liftResult (.error (withContext "No upload id returned from endpoint".toList ()))
  | some uploadId =>
    let target : UploadTarget := { bucketName := bucketName, key := key, uploadId := uploadId }
    let state ← uploadChunks target stream.ending
      { uploadBuffer := [], uploadParts := [], partNumber := 1 } stream.chunks
    let uploadParts ← uploadRemaining target state
    tryCall anyhow (perform (.completeMultipartUpload bucketName key uploadId uploadParts))
    storeArtifactInDatabase artifact

/-- SOURCE: src/http/artifacts.rs:367-381 -/
def presignRequest (bucketName bucketPrefix : Text) (artifact : Artifact) :
    ExceptT AnyhowError Io PresignedUri :=
  tryCall anyhow (perform (.presign bucketName (artifact.toS3Key bucketPrefix) 120))

/-! ## The handler -/

/-- The artifact of a row that has none yet.
SOURCE: src/http/artifacts.rs:94-131 -/
def fetchArtifact (deps : Externals) (registry : RegistryClient) (bucketName bucketPrefix : Text)
    (detail : ArtifactDetails) : ExceptT StatusCode Io Artifact := do
  let upstreamResponse := tryCall (fun _ => StatusCode.badGateway)
    (getUpstream deps registry detail).run
  let responseId := tryCall (fun _ => StatusCode.internalServerError) allocateArtifactId.run
  let (id, body) ← ExceptT.mk (Prog.tryJoin responseId.run upstreamResponse.run)
  let artifact := detail.artifact id
  tryCall (fun _ => .internalServerError)
    (stashArtifact bucketName bucketPrefix artifact body).run
  pure artifact

/-- SOURCE: src/http/artifacts.rs:132-139 -/
def redirect (bucketName bucketPrefix : Text) (artifact : Artifact) :
    ExceptT StatusCode Io ArtifactResponse := do
  let uri ← tryCall (fun _ => .internalServerError)
    (presignRequest bucketName bucketPrefix artifact).run
  pure { uri := uri }

/-- SOURCE: src/http/artifacts.rs:56-140 -/
def artifactsHandler (deps : Externals) (registry : RegistryClient)
    (bucketName bucketPrefix : Text) (versionId : ℤ) : ExceptT StatusCode Io ArtifactResponse := do
  let found ← tryCall (fun _ => .internalServerError) (getArtifactFromDatabase versionId).run
  match found with
  | none => liftResult (.error .notFound)
  | some detail => match detail.artifactId with
    | some id => redirect bucketName bucketPrefix (detail.artifact id)
    | none => do
      let artifact ← fetchArtifact deps registry bucketName bucketPrefix detail
      redirect bucketName bucketPrefix artifact

end Terrashine.Model
