import Terrashine.Program.Registry

/-!
# Credentials in memory

The helper that keeps its tokens in a hash map behind a lock which it never waits for, and the
methods of either helper as one kind of request.
-/

set_option autoImplicit false

namespace Terrashine.Model

open Terrashine.Library

/-- SOURCE: src/credhelper/memory.rs:10-13 -/
abbrev CredentialMap : Type := HashMap Text (Option Text)

/-- A method of the memory helper: whether it obtains the lock, and the map behind it. -/
abbrev Locked : Type → Type := ReaderT Bool (StateM CredentialMap)

/-- `try_read` and `try_write`. -/
def tryLock (message : Text) : ExceptT AnyhowError Locked Unit := do
  if ← read then pure () else throw { contexts := [message] }

/-- SOURCE: src/credhelper/memory.rs:29-58 -/
def memoryCredentials : CredentialHelper Locked where
  get hostname := do
    tryLock "Could not acquire read lock on in memory credential store".toList
    let map : CredentialMap ← getThe CredentialMap
    pure ((map.lookup hostname).elim .notFound .entry)
  store hostname cred := do
    tryLock "Could not acquire write lock on in memory credential store".toList
    modifyThe CredentialMap fun map => map.insert hostname (some cred)
  forget hostname := do
    tryLock "Could not acquire write lock on in memory credential store".toList
    modifyThe CredentialMap fun map => map.erase hostname

/-! ## The methods -/

/-- A call of one of the methods. -/
inductive CredentialOp where
  | store (hostname token : Text)
  | forget (hostname : Text)
  | get (hostname : Text)
  | transform (request : RequestBuilder) (hostname : Text)
  deriving DecidableEq

def CredentialOp.hostname : CredentialOp → Text
  | .store hostname _ => hostname
  | .forget hostname => hostname
  | .get hostname => hostname
  | .transform _ hostname => hostname

/-- What the methods return when they succeed. -/
inductive CredentialAnswer where
  | done
  | credential (found : Credential)
  | request (request : RequestBuilder)
  deriving DecidableEq

/-- SOURCE: src/credhelper/types.rs:11-42 -/
def CredentialHelper.apply {m : Type → Type} [Monad m] (self : CredentialHelper m) :
    CredentialOp → ExceptT AnyhowError m CredentialAnswer
  | .store hostname token => do
    self.store hostname token
    pure .done
  | .forget hostname => do
    self.forget hostname
    pure .done
  | .get hostname => do
    let found ← self.get hostname
    pure (.credential found)
  | .transform request hostname => do
    let transformed ← self.transform request hostname
    pure (.request transformed)

end Terrashine.Model
