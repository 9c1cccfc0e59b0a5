import Terrashine.Program.Index
import Terrashine.Program.Artifacts
import Mathlib.Data.List.Perm.Basic

/-!
# The world the instances share

One database, one object storage, and for each instance the channel to its refresher and
its connections.  `World.perform` says which answers a call can get in a world, and what the
call leaves behind.

Any call to the database, to the storage or upstream may fail at any moment.  A failed call
has done nothing, or, when the flag `applied` is set, its acknowledgement was lost: it took
effect and its caller sees the error.  Upstream registries answer as they like.
-/

set_option autoImplicit false

namespace Terrashine.Interface

open Terrashine.Library Terrashine.Model

/-! ## The object storage -/

structure UploadedPart where
  partNumber : ℕ
  eTag : Option Text
  body : Bytes
  deriving DecidableEq

/-- A multipart upload that is neither completed nor aborted. -/
structure Upload where
  bucket : Text
  key : Text
  parts : List UploadedPart
  deriving DecidableEq

structure ObjectStorage where
  uploads : ℕ → Option Upload
  nextUpload : ℕ
  objects : Text → Text → Option Bytes

/-- The body an entry of a completion request stands for: that of the latest part uploaded
under its number, when the e-tags agree. -/
def Upload.partBody (upload : Upload) (entry : CompletedPart) : Option Bytes :=
  match upload.parts.reverse.find? fun part => part.partNumber = entry.partNumber with
  | some part => if part.eTag = some entry.eTag then some part.body else none
  | none => none

/-- The object a completion request makes: the listed parts in order. -/
def Upload.assemble (upload : Upload) (entries : List CompletedPart) : Option Bytes :=
  if (entries.map (·.partNumber)).Pairwise (· < ·) then
    (entries.mapM upload.partBody).map List.flatten
  else none

namespace ObjectStorage

def empty : ObjectStorage where
  uploads _ := none
  nextUpload := 1
  objects _ _ := none

variable (s : ObjectStorage)

def create (bucket key : Text) : ObjectStorage :=
  { s with
    uploads := Function.update s.uploads s.nextUpload
      (some { bucket := bucket, key := key, parts := [] })
    nextUpload := s.nextUpload + 1 }

def openUpload (bucket key : Text) (uploadId : ℕ) : Option Upload :=
  (s.uploads uploadId).filter fun upload => upload.bucket = bucket ∧ upload.key = key

def putPart (bucket key : Text) (uploadId : ℕ) (part : UploadedPart) : Option ObjectStorage :=
  (s.openUpload bucket key uploadId).map fun upload =>
    { s with
      uploads := Function.update s.uploads uploadId
        (some { upload with parts := upload.parts ++ [part] }) }

def abort (bucket key : Text) (uploadId : ℕ) : Option ObjectStorage :=
  (s.openUpload bucket key uploadId).map fun _ =>
    { s with uploads := Function.update s.uploads uploadId none }

def complete (bucket key : Text) (uploadId : ℕ) (entries : List CompletedPart) :
    Option ObjectStorage :=
  (s.openUpload bucket key uploadId).bind fun upload =>
    (upload.assemble entries).map fun content =>
      { s with
        uploads := Function.update s.uploads uploadId none
        objects := Function.update s.objects bucket
          (Function.update (s.objects bucket) key (some content)) }

end ObjectStorage

/-! ## Instances -/

/-- A channel that carries one response back. -/
inductive Oneshot where
  | pending
  | sent (response : RefreshResponse)
  | closed
  deriving DecidableEq

structure ResponseChannel where
  value : Oneshot
  listening : Bool
  deriving DecidableEq

/-- The channel to the refresher, the cancellation token, the open connections and the
requests that are being handled on them. -/
structure Instance where
  queue : List RefreshRequest
  receiverDropped : Bool
  cancelled : Bool
  connections : ℕ
  inFlight : List ℕ
  deriving DecidableEq

def Instance.initial : Instance :=
  { queue := [], receiverDropped := false, cancelled := false, connections := 0, inFlight := [] }

/-- SOURCE: src/lib.rs:194 -/
def channelCapacity : ℕ := 10000

structure World where
  db : Database
  s3 : ObjectStorage
  instances : ℕ → Instance
  channels : ℕ → ResponseChannel
  clock : ℕ

namespace World

/-- After the migration, before the first instance is started. -/
def initial : World where
  db := Database.empty
  s3 := ObjectStorage.empty
  instances _ := Instance.initial
  channels _ := { value := .pending, listening := true }
  clock := 0

variable (w : World)

def setInstance (k : ℕ) (i : Instance) : World :=
  { w with instances := Function.update w.instances k i }

def setChannel (n : ℕ) (c : ResponseChannel) : World :=
  { w with channels := Function.update w.channels n c }

/-! ## Calls -/

/-- A query: it changes nothing. -/
def query {α : Type} (valid : Bool) (accepted : α → Bool) : Except SqlError α → Option World
  | .ok a => if valid && accepted a then some w else none
  | .error .unavailable => some w
  | .error .invalidText => if valid then none else some w
  | .error _ => none

/-- A statement or a transaction with the given result. -/
def statement {ε α : Type} [DecidableEq ε] [DecidableEq α] (lost : ε)
    (result : Except ε α × Database) (answer : Except ε α) (applied : Bool) : Option World :=
  if answer = result.1 then some { w with db := result.2 }
  else if answer = .error lost then
    if applied then some { w with db := result.2 } else some w
  else none

/-- A request to the object storage, with what it leaves there when it succeeds. -/
def storage {α : Type} (result : Option ObjectStorage) (answer : Except S3Error α)
    (applied : Bool) : Option World :=
  match answer with
  | .ok _ => result.map fun s => { w with s3 := s }
  | .error _ => if applied then result.map fun s => { w with s3 := s } else some w

/-- The message is put into the channel of instance `k`. -/
def enqueue (k : ℕ) (message : RefreshRequest) : Option World :=
  let i := w.instances k
  if i.receiverDropped = false ∧ i.queue.length < channelCapacity then
    some (w.setInstance k { i with queue := i.queue ++ [message] })
  else none

/-- The receiver of instance `k` is dropped with the messages still in the channel, and with
them the senders of their response channels. -/
def dropReceiver (k : ℕ) : World :=
  let i := w.instances k
  let w' := w.setInstance k { i with receiverDropped := true, queue := [] }
  { w' with channels := fun n =>
      if some n ∈ i.queue.map (·.responseChannel) then { w.channels n with value := .closed }
      else w.channels n }

/-- The refresher sends a response; the answer says whether anybody listens. -/
def respond (n : ℕ) (response : RefreshResponse) (delivered : Bool) : Option World :=
  let c := w.channels n
  if delivered = c.listening then
    some (w.setChannel n { c with value := if delivered then .sent response else .closed })
  else none

/-- The world after a call of a task of instance `k`, whose own response channel is
`channel`. -/
def perform (k : ℕ) (channel : Option ℕ) (c : Call) (r : c.Ret) (applied : Bool) :
    Option World :=
  match c, r with
  | .selectVersions p, r =>
    w.query (validText p.hostname && validText p.namespace_ && validText p.providerType)
      (fun rows => rows.isPerm (w.db.selectVersions p)) r
  | .storeProviderVersions p response, r =>
    w.statement (.databaseError .unavailable)
      (Terrashine.Model.storeProviderVersions none w.clock w.db p response) r applied
  | .selectDownloads p version, r =>
    w.query (validText p.hostname && validText p.namespace_ && validText p.providerType &&
      validText version) (fun rows => rows.isPerm (w.db.selectDownloads p version)) r
  | .selectArtifact versionId, r =>
    w.query true (fun row => row = w.db.selectArtifact versionId) r
  | .nextvalArtifactIds, r =>
    w.statement .unavailable (.ok w.db.nextvalArtifactIds.1, w.db.nextvalArtifactIds.2) r applied
  | .updateArtifact artifactId versionId, r =>
    w.statement .unavailable (w.db.updateArtifact w.clock artifactId versionId) r applied
  | .selectAuthToken hostname, r =>
    w.query (validText hostname) (fun row => row = w.db.selectAuthToken hostname) r
  | .upsertAuthToken hostname token, r =>
    w.statement .unavailable (w.db.upsertAuthToken hostname token) r applied
  | .deleteAuthToken hostname, r =>
    w.statement .unavailable (w.db.deleteAuthToken hostname) r applied
  | .httpGet _, _ => some w
  | .createMultipartUpload bucket key, r =>
    match r with
    | .ok (some uploadId) =>
      if uploadId = w.s3.nextUpload then some { w with s3 := w.s3.create bucket key } else none
    | r => w.storage (some (w.s3.create bucket key)) r applied
  | .uploadPart bucket key uploadId partNumber body, r =>
    let eTag := match r with
      | .ok eTag => eTag
      | .error _ => none
    w.storage (w.s3.putPart bucket key uploadId
      { partNumber := partNumber, eTag := eTag, body := body }) r applied
  | .abortMultipartUpload bucket key uploadId, r =>
    w.storage (w.s3.abort bucket key uploadId) r applied
  | .completeMultipartUpload bucket key uploadId entries, r =>
    w.storage (w.s3.complete bucket key uploadId entries) r applied
  | .presign bucket key expiresIn, r =>
    match r with
    | .ok uri =>
      if uri = { bucket := bucket, key := key, expiresIn := expiresIn } then some w else none
    | .error _ => some w
  | .trySend message, r =>
    match r with
    | .ok () => w.enqueue k message
    | .error .full =>
      if (w.instances k).receiverDropped = false ∧ channelCapacity ≤ (w.instances k).queue.length
      then some w else none
    | .error .closed => if (w.instances k).receiverDropped then some w else none
  | .sendTimeout message _, r =>
    match r with
    | .ok () => w.enqueue k message
    | .error .timeout =>
      if (w.instances k).receiverDropped = false ∧ channelCapacity ≤ (w.instances k).queue.length
      then some w else none
    | .error .closed => if (w.instances k).receiverDropped then some w else none
  | .receiveResponse, r =>
    match channel with
    | some n => match (w.channels n).value, r with
      | .sent response, some response' => if response' = response then some w else none
      | .closed, none => some w
      | _, _ => none
    | none => none
  | .respond n response, r => w.respond n response r
  | .recvOrCancelled, r =>
    match r, (w.instances k).queue with
    | some message, message' :: rest =>
      if message = message' then some (w.setInstance k { w.instances k with queue := rest })
      else none
    | some _, [] => none
    | none, _ => if (w.instances k).cancelled then some w else none
  | .dropReceiver, _ => some (w.dropReceiver k)
  | .instantNow, r => if r = w.clock then some w else none
  | .acceptOrCancelled, r =>
    if r then
      some (w.setInstance k
        { w.instances k with connections := (w.instances k).connections + 1 })
    else if (w.instances k).cancelled then some w else none
  | .joinAll, _ => if (w.instances k).connections = 0 then some w else none

end World

end Terrashine.Interface
