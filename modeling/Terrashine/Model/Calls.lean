import Terrashine.Library.Program
import Terrashine.Model.Types

/-!
# What the program calls out to

Every point at which the program waits for something outside its own task is a call: the
statements to the database, requests to upstream registries, the object storage, the
channel to the refresher, the clock.  `Io` is a program over these calls.

A transaction is one call: between its statements no other task sees anything of it, and
the row lock its first statement takes keeps other transactions on the same provider out.
-/

set_option autoImplicit false

namespace Terrashine.Model

open Terrashine.Library

inductive Call where
  -- the database
  | selectVersions (provider : TerraformProvider)
  | storeProviderVersions (provider : TerraformProvider) (response : ProviderVersions)
  | selectDownloads (provider : TerraformProvider) (version : Text)
  | selectArtifact (versionId : ℤ)
  | nextvalArtifactIds
  | updateArtifact (artifactId versionId : ℕ)
  | selectAuthToken (hostname : Text)
  | upsertAuthToken (hostname token : Text)
  | deleteAuthToken (hostname : Text)
  -- upstream registries
  | httpGet (request : HttpRequest)
  -- the object storage
  | createMultipartUpload (bucket key : Text)
  | uploadPart (bucket key : Text) (uploadId partNumber : ℕ) (body : Bytes)
  | abortMultipartUpload (bucket key : Text) (uploadId : ℕ)
  | completeMultipartUpload (bucket key : Text) (uploadId : ℕ) (parts : List CompletedPart)
  | presign (bucket key : Text) (expiresIn : ℕ)
  -- the channel to the refresher and the channels back
  | trySend (message : RefreshRequest)
  | sendTimeout (message : RefreshRequest) (seconds : ℕ)
  | receiveResponse
  | respond (channel : ℕ) (response : RefreshResponse)
  | recvOrCancelled
  | dropReceiver
  | instantNow
  -- the accept loop
  | acceptOrCancelled
  | joinAll
  deriving DecidableEq

/-- What a call is answered with. -/
@[reducible] def Call.Ret : Call → Type
  | .selectVersions _ => Except SqlError (List (Option Text))
  | .storeProviderVersions _ _ => Except TerrashineError ℕ
  | .selectDownloads _ _ => Except SqlError (List DatabaseDownloadResult)
  | .selectArtifact _ => Except SqlError (Option ArtifactDetails)
  | .nextvalArtifactIds => Except SqlError ℕ
  | .updateArtifact _ _ => Except SqlError Unit
  | .selectAuthToken _ => Except SqlError (Option (Option Text))
  | .upsertAuthToken _ _ => Except SqlError Unit
  | .deleteAuthToken _ => Except SqlError Unit
  | .httpGet _ => Except HttpError HttpResponse
  | .createMultipartUpload _ _ => Except S3Error (Option ℕ)
  | .uploadPart _ _ _ _ _ => Except S3Error (Option Text)
  | .abortMultipartUpload _ _ _ => Except S3Error Unit
  | .completeMultipartUpload _ _ _ _ => Except S3Error Unit
  | .presign _ _ _ => Except S3Error PresignedUri
  | .trySend _ => Except TrySendError Unit
  | .sendTimeout _ _ => Except SendTimeoutError Unit
  | .receiveResponse => Option RefreshResponse
  | .respond _ _ => Bool
  | .recvOrCancelled => Option RefreshRequest
  | .dropReceiver => Unit
  | .instantNow => ℕ
  | .acceptOrCancelled => Bool
  | .joinAll => Unit

/-- The answer to a call that succeeds and finds nothing. -/
def Call.usual : (c : Call) → c.Ret
  | .selectVersions _ => .ok []
  | .storeProviderVersions _ _ => .ok 0
  | .selectDownloads _ _ => .ok []
  | .selectArtifact _ => .ok none
  | .nextvalArtifactIds => .ok 1
  | .updateArtifact _ _ => .ok ()
  | .selectAuthToken _ => .ok none
  | .upsertAuthToken _ _ => .ok ()
  | .deleteAuthToken _ => .ok ()
  | .httpGet _ => .ok { status := 200, body := { chunks := [], ending := .complete } }
  | .createMultipartUpload _ _ => .ok (some 1)
  | .uploadPart _ _ _ _ _ => .ok (some [])
  | .abortMultipartUpload _ _ _ => .ok ()
  | .completeMultipartUpload _ _ _ _ => .ok ()
  | .presign bucket key expiresIn => .ok { bucket := bucket, key := key, expiresIn := expiresIn }
  | .trySend _ => .ok ()
  | .sendTimeout _ _ => .ok ()
  | .receiveResponse => none
  | .respond _ _ => true
  | .recvOrCancelled => none
  | .dropReceiver => ()
  | .instantNow => 0
  | .acceptOrCancelled => true
  | .joinAll => ()

/-- A program of the mirror. -/
abbrev Io (α : Type) : Type := Prog Call Call.Ret α

/-- One call and its answer. -/
abbrev IoEvent : Type := Event Call Call.Ret

/-- The call that waits for `c`. -/
def perform (c : Call) : Io c.Ret := Prog.perform c

/-- A call of the mirror is one that waits for its answer. -/
@[simp] theorem perform_def (c : Call) : perform c = Prog.call c Prog.done := rfl

/-- A call that reports an error of its own kind, with the error the caller turns it into:
the `?` operator. -/
def tryCall {ε ε' α : Type} (into : ε → ε') (p : Io (Except ε α)) : ExceptT ε' Io α :=
  ExceptT.mk (p >>= fun
    | .ok a => pure (.ok a)
    | .error err => pure (.error (into err)))

/-- The `?` operator turns the error of the call into one of the caller's. -/
@[simp] theorem run_tryCall {ε ε' α : Type} (into : ε → ε') (p : Io (Except ε α)) :
    (tryCall into p).run = p >>= fun
      | .ok a => pure (.ok a)
      | .error err => pure (.error (into err)) := rfl

/-- A pure result in the middle of a program. -/
def liftResult {ε α : Type} (r : Except ε α) : ExceptT ε Io α := ExceptT.mk (pure r)

section TryCall

variable {ε ε' α : Type} {into : ε → ε'} {p : Io (Except ε α)}

/-- The rule of the `?` operator: an error meets the postcondition as what it is turned into. -/
theorem wp_tryCall {φ : List IoEvent → Call → Prop} {Q : Except ε' α → List IoEvent → Prop}
    {h : List IoEvent} :
    (tryCall into p).run.wp φ Q h ↔ p.wp φ (fun (r : Except ε α) h' => match r with
      | .ok a => Q (.ok a) h'
      | .error err => Q (.error (into err)) h') h := by
  rw [run_tryCall, Prog.wp_bind]
  constructor
  · intro hw
    refine Prog.wp_mono _ hw ?_
    rintro (err | a) h' - hq <;> exact (Prog.wp_pure _).mp hq
  · intro hw
    refine Prog.wp_mono _ hw ?_
    rintro (err | a) h' - hq <;> exact (Prog.wp_pure _).mpr hq

/-- The `?` operator makes no call of its own. -/
theorem calls_tryCall {C : Call → Prop} (hp : p.Calls C) : (tryCall into p).run.Calls C := by
  refine Prog.calls_bind hp fun r => ?_
  cases r <;> exact (Prog.calls_pure C _).mpr trivial

/-- A call does not panic. -/
theorem neverPanics_perform (c : Call) : (perform c).NeverPanics := Prog.neverPanics_perform c

/-- The `?` operator does not panic. -/
theorem neverPanics_tryCall (hp : p.NeverPanics) : (tryCall into p).run.NeverPanics := by
  refine Prog.neverPanics_bind hp fun r => ?_
  cases r <;> exact (Prog.neverPanics_pure _).mpr trivial

/-- Where it succeeds, the call did. -/
theorem runs_tryCall_ok {tr : List IoEvent} {a : α}
    (hr : Prog.Runs (tryCall into p).run tr (.returned (.ok a))) :
    Prog.Runs p tr (.returned (.ok a)) := by
  rcases Prog.runs_bind_iff.mp hr with ⟨m, -, hm⟩ | ⟨tr₁, tr₂, r, rfl, hrp, hrd⟩
  · cases hm
  · cases r with
    | ok a' =>
      obtain ⟨rfl, hout⟩ := Prog.runs_done_iff.mp hrd
      cases hout
      rw [List.append_nil]
      exact hrp
    | error err => cases (Prog.runs_done_iff.mp hrd).2

end TryCall

/-- A result that is known makes no call. -/
theorem calls_liftResult {C : Call → Prop} {ε α : Type} (r : Except ε α) :
    (liftResult r).run.Calls C := (Prog.calls_done C r).mpr trivial

/-- A result that is known does not panic. -/
theorem neverPanics_liftResult {ε α : Type} (r : Except ε α) : (liftResult r).run.NeverPanics :=
  (Prog.neverPanics_done r).mpr trivial

/-- A result that is known is there at once. -/
@[simp] theorem run_liftResult {ε α : Type} (r : Except ε α) :
    (liftResult r).run = Prog.done r := rfl

end Terrashine.Model
