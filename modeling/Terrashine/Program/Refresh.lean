import Terrashine.Program.Index

/-!
# The refresher

One task of each instance takes the refresh requests out of the channel, one after the
other, and remembers for each provider when it last asked upstream.  The treatment of one
message is written over `RefresherOps`, what it needs of its surroundings, so that the same
text runs in the deployment and over a script of clock readings and results.
-/

set_option autoImplicit false

namespace Terrashine.Model

open Terrashine.Library

/-- When each provider was last refreshed. -/
abbrev LastRefresh : Type := HashMap TerraformProvider ℕ

/-- The clock, the refresh itself, and the channels of the requests. -/
structure RefresherOps (m : Type → Type) where
  instantNow : m ℕ
  refreshVersions : TerraformProvider → m (Except TerrashineError ProviderVersions)
  send : ℕ → RefreshResponse → m Bool

section Message

variable {m : Type → Type} [Monad m] (ops : RefresherOps m)

/-- A response, when the message asks for one; that nobody listens is only logged.
SOURCE: src/refresh.rs:90-95, 110-115, 120-125 -/
def RefresherOps.answer (channel : Option ℕ) (response : RefreshResponse) : m Unit :=
  match channel with
  | some sender => do
    let _ ← ops.send sender response
    pure ()
  | none => pure ()

/-- A new provider is only entered when its refresh succeeded.
SOURCE: src/refresh.rs:87-89 -/
def enterVacant (lastRefresh : LastRefresh) (provider : TerraformProvider)
    (result : Except TerrashineError ProviderVersions) : m LastRefresh :=
  match result with
  | .ok _ => do
    let now ← ops.instantNow
    pure (lastRefresh.insert provider now)
  | .error _ => pure lastRefresh

/-- The provider is not in the map.
SOURCE: src/refresh.rs:74-96 -/
def refreshVacant (lastRefresh : LastRefresh) (message : RefreshRequest) : m LastRefresh := do
  let result ← ops.refreshVersions message.provider
  let lastRefresh' ← enterVacant ops lastRefresh message.provider result
  ops.answer message.responseChannel (.refreshPerformed result)
  pure lastRefresh'

/-- The provider is stale: its entry is renewed whatever the refresh ends with.
SOURCE: src/refresh.rs:97-116 -/
def refreshStale (lastRefresh : LastRefresh) (message : RefreshRequest) : m LastRefresh := do
  let result ← ops.refreshVersions message.provider
  let now ← ops.instantNow
  ops.answer message.responseChannel (.refreshPerformed result)
  pure (lastRefresh.insert message.provider now)

/-- The interval has not passed.
SOURCE: src/refresh.rs:117-126 -/
def answerFresh (lastRefresh : LastRefresh) (message : RefreshRequest) : m LastRefresh := do
  ops.answer message.responseChannel .providerVersionNotStale
  pure lastRefresh

/-- The body of the loop for one message.
SOURCE: src/refresh.rs:67-128 -/
def handleMessage (refreshInterval : ℕ) (lastRefresh : LastRefresh) (message : RefreshRequest) :
    m LastRefresh :=
  match lastRefresh.lookup message.provider with
  | none => refreshVacant ops lastRefresh message
  | some last => do
    let now ← ops.instantNow
    if refreshInterval < now - last then refreshStale ops lastRefresh message
    else answerFresh ops lastRefresh message

/-- A sequence of messages, one after the other. -/
def handleMessages (refreshInterval : ℕ) : LastRefresh → List RefreshRequest → m LastRefresh
  | lastRefresh, [] => pure lastRefresh
  | lastRefresh, message :: messages => do
    let lastRefresh' ← handleMessage ops refreshInterval lastRefresh message
    handleMessages refreshInterval lastRefresh' messages

end Message

/-- The refresher of a running instance. -/
def refresherOps (deps : Externals) (registry : RegistryClient) : RefresherOps Io where
  instantNow := perform .instantNow
  refreshVersions provider := (refreshVersions deps registry provider).run
  send channel response := perform (.respond channel response)

/-- One round of the loop: `some` map to go on with, or `none` after the cancellation.
SOURCE: src/refresh.rs:53-139 -/
def refresherRound (deps : Externals) (registry : RegistryClient) (refreshInterval : ℕ)
    (lastRefresh : LastRefresh) : Io (Option LastRefresh) := do
  match ← perform .recvOrCancelled with
  | some message =>
    let lastRefresh' ← handleMessage (refresherOps deps registry) refreshInterval lastRefresh message
    pure (some lastRefresh')
  | none =>
    -- the receiver goes out of scope with the function
    perform .dropReceiver
    pure none

end Terrashine.Model
