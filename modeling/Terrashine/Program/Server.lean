import Terrashine.Program.Registry

/-!
# The server loop and the credentials API
-/

set_option autoImplicit false

namespace Terrashine.Model

open Terrashine.Library

/-- One round of the accept loop: `true` to go on, `false` once cancelled and drained.
SOURCE: src/lib.rs:47-93 -/
def serveRound : Io Bool := do
  match ← perform .acceptOrCancelled with
  | true => pure true
  | false =>
    perform .joinAll
    pure false

/-- The JSON bodies of the credentials API. -/
inductive CredentialBody where
  | data
  | found (found : Bool)
  | error (msg : Text)
  deriving DecidableEq

section Credentials

variable {m : Type → Type} [Monad m] (credentials : CredentialHelper m)

/-- SOURCE: src/http/api/v1/credential.rs:20-41 -/
def updateCredential (hostname token : Text) : m (StatusCode × CredentialBody) := do
  match ← (credentials.store hostname token).run with
  | .ok _ => pure (.ok, .data)
  | .error _ => pure (.internalServerError, .error "Error occurred updating credential".toList)

/-- SOURCE: src/http/api/v1/credential.rs:43-61 -/
def deleteCredential (hostname : Text) : m (StatusCode × CredentialBody) := do
  match ← (credentials.forget hostname).run with
  | .ok _ => pure (.ok, .data)
  | .error _ => pure (.internalServerError, .error "Error occurred deleting credential".toList)

/-- SOURCE: src/http/api/v1/credential.rs:63-88 -/
def existsCredential (hostname : Text) : m (StatusCode × CredentialBody) := do
  match ← (credentials.get hostname).run with
  | .ok (.entry _) => pure (.ok, .found true)
  | .ok .notFound => pure (.notFound, .found false)
  | .error _ => pure (.internalServerError, .error "Error occurred checking credential".toList)

end Credentials

end Terrashine.Model
