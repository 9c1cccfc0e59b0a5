import Terrashine.Library.Machine
import Terrashine.Interface.World
import Terrashine.Program.Refresh
import Terrashine.Program.Version
import Terrashine.Program.Server

/-!
# A deployment

Any number of instances over one world, each with its accept loop and its refresher, and any
number of client requests.  The tasks of a deployment are those of `Library.Machine`; a task
that stops for ever is a run in which it takes no further step, so a crashed instance, and
one that is started again under a new number, need no steps of their own.
-/

set_option autoImplicit false

namespace Terrashine.Interface

open Terrashine.Library Terrashine.Model

/-- The arguments of a server that its handlers and its refresher read.
SOURCE: src/config.rs:45-129 -/
structure ServerArgs where
  httpRedirectUrl : Url
  s3BucketName : Text
  s3BucketPrefix : Text
  refreshInterval : ℕ
  upstreamRegistryPort : ℕ

/-- The defaults of the arguments that have one; times are in nanoseconds.
SOURCE: src/config.rs:74-114 -/
def ServerArgs.withDefaults (httpRedirectUrl : Url) (s3BucketName : Text) : ServerArgs :=
  { httpRedirectUrl := httpRedirectUrl, s3BucketName := s3BucketName, s3BucketPrefix := []
    refreshInterval := 3600000000000, upstreamRegistryPort := 443 }

/-- The routes, with what the extractors read out of the path and the body.
SOURCE: src/app.rs:92-103, src/http/api/mod.rs:14-23 -/
inductive Route where
  | index (provider : TerraformProvider)
  | version (provider : TerraformProvider) (segment : Text)
  | artifact (versionId : ℤ)
  | updateCredential (hostname token : Text)
  | deleteCredential (hostname : Text)
  | existsCredential (hostname : Text)
  deriving DecidableEq

/-- A client request and the instance it reaches. -/
structure Request where
  instanceId : ℕ
  route : Route
  deriving DecidableEq

/-- The instances share the database, the bucket and the prefix. -/
structure Deployment where
  deps : Externals
  args : ℕ → ServerArgs
  requests : ℕ → Request
  bucketName : Text
  bucketPrefix : Text
  sameBucket : ∀ k, (args k).s3BucketName = bucketName
  samePrefix : ∀ k, (args k).s3BucketPrefix = bucketPrefix

/-- Instances that are all started with the same arguments. -/
def Deployment.uniform (deps : Externals) (args : ServerArgs) (requests : ℕ → Request) :
    Deployment where
  deps := deps
  args _ := args
  requests := requests
  bucketName := args.s3BucketName
  bucketPrefix := args.s3BucketPrefix
  sameBucket _ := rfl
  samePrefix _ := rfl

inductive Task where
  | request (n : ℕ)
  | refresher (k : ℕ)
  | server (k : ℕ)
  deriving DecidableEq

/-- What the program of a task ends with. -/
inductive Answer where
  | index (result : Except TerrashineError MirrorIndex)
  | version (result : Except StatusCode MirrorVersion)
  | artifact (result : Except StatusCode ArtifactResponse)
  | credential (status : StatusCode) (body : CredentialBody)
  | refresher (lastRefresh : Option LastRefresh)
  | server (goOn : Bool)
  deriving DecidableEq

/-- What happens without the program's doing. -/
inductive EnvMove where
  | cancel (k : ℕ)
  | closeConnection (k : ℕ)
  | tick (elapsed : ℕ)
  | skipSequences (q : Sequences)
  deriving DecidableEq

namespace Deployment

variable (D : Deployment)

def registry (k : ℕ) : RegistryClient :=
  { port := (D.args k).upstreamRegistryPort, credentials := databaseCredentials }

/-- The handler of request `n`.  A version segment without its suffix is refused by the
extractor. -/
def handler (n : ℕ) : Io Answer :=
  let k := (D.requests n).instanceId
  match (D.requests n).route with
  | .index provider => Answer.index <$> indexHandler n provider
  | .version provider segment => match Version.tryFrom segment with
    | .ok version => Answer.version <$> versionHandler (D.args k).httpRedirectUrl provider version
    | .error _ => pure (.version (.error .badRequest))
  | .artifact versionId =>
    Answer.artifact <$> (artifactsHandler D.deps (D.registry k) (D.args k).s3BucketName
      (D.args k).s3BucketPrefix versionId).run
  | .updateCredential hostname token =>
    (fun r => .credential r.1 r.2) <$> updateCredential databaseCredentials hostname token
  | .deleteCredential hostname =>
    (fun r => .credential r.1 r.2) <$> deleteCredential databaseCredentials hostname
  | .existsCredential hostname =>
    (fun r => .credential r.1 r.2) <$> existsCredential databaseCredentials hostname

/-- One round of the refresher of instance `k`. -/
def refresherRound (k : ℕ) (lastRefresh : LastRefresh) : Io Answer :=
  Answer.refresher <$>
    Model.refresherRound D.deps (D.registry k) (D.args k).refreshInterval lastRefresh

def main : Task → Io Answer
  | .request n => D.handler n
  | .refresher k => D.refresherRound k ∅
  | .server _ => Answer.server <$> serveRound

def again : Task → Answer → Option (Io Answer)
  | .refresher k, .refresher (some lastRefresh) => some (D.refresherRound k lastRefresh)
  | .server _, .server true => some (Answer.server <$> serveRound)
  | _, _ => none

def instanceOf : Task → ℕ
  | .request n => (D.requests n).instanceId
  | .refresher k => k
  | .server k => k

/-- The response channel a task listens to. -/
def channelOf : Task → Option ℕ
  | .request n => some n
  | _ => none

/-- A request arrives on an open connection. -/
def start (i : Task) (w : World) : Option World :=
  match i with
  | .request n =>
    let k := (D.requests n).instanceId
    if 0 < (w.instances k).connections then
      some (w.setInstance k
        { w.instances k with inFlight := (w.instances k).inFlight ++ [n] })
    else none
  | _ => some w

/-- A request is over, answered or dropped, and nobody listens to its channel any more. -/
def requestOver (n : ℕ) (w : World) : World :=
  let k := (D.requests n).instanceId
  (w.setInstance k { w.instances k with inFlight := (w.instances k).inFlight.erase n }).setChannel n
    { w.channels n with listening := false }

def finish (i : Task) (w : World) : World :=
  match i with
  | .request n => D.requestOver n w
  | _ => w

/-- The handler of a request is dropped when its client goes away; the other tasks are only
ever joined. -/
def drop (i : Task) (w : World) : Option World :=
  match i with
  | .request n => some (D.requestOver n w)
  | _ => none

/-- A connection is only closed by its peer when no request on it is being handled. -/
def envMove (m : EnvMove) (w : World) : Option World :=
  match m with
  | .cancel k => some (w.setInstance k { w.instances k with cancelled := true })
  | .closeConnection k =>
    let i := w.instances k
    if 1 < i.connections ∨ i.connections = 1 ∧ i.inFlight = [] then
      some (w.setInstance k { i with connections := i.connections - 1 })
    else none
  | .tick elapsed => some { w with clock := w.clock + elapsed }
  | .skipSequences q =>
    some { w with db := { w.db with
      sequences := w.db.sequences.latest q
      schema := w.db.schema.advance (Sequences.le_latest _ _) } }

/-- All interleavings of the tasks of the deployment. -/
def machine : Machine Task Call Call.Ret Answer World EnvMove where
  main := D.main
  again := D.again
  start := D.start
  perform i w c r applied := w.perform (D.instanceOf i) (channelOf i) c r applied
  finish := D.finish
  drop := D.drop
  env := envMove

end Deployment

/-- A state of the deployment. -/
abbrev DeploymentState : Type := State Task Call Call.Ret Answer World EnvMove

/-- One step of a deployment, as it stands in the trace. -/
abbrev DeploymentLabel : Type := Label Task Call Call.Ret EnvMove

/-- One choice of a script for a run of a deployment. -/
abbrev ScriptMove : Type := Machine.Move Task Call Call.Ret EnvMove

/-- A state that some run of the deployment reaches. -/
abbrev Deployment.Reachable (D : Deployment) (s : DeploymentState) : Prop :=
  D.machine.Reachable (fun _ _ => True) World.initial s

/-- A run of the deployment from one state to a later one. -/
abbrev Deployment.Leads (D : Deployment) (s s' : DeploymentState) : Prop :=
  D.machine.Run (fun _ _ => True) s s'

/-! ## Scripts -/

/-- The arguments of the servers in the scripts. -/
def mirrorArgs : ServerArgs :=
  .withDefaults { Url.ofScheme "https".toList with host := some "mirror.test".toList }
    "terrashine".toList

/-- The call the task waits at gets this answer. -/
def answered (i : Task) (c : Call) (r : c.Ret) : ScriptMove :=
  .call i fun e => if h : c = e then some (h ▸ r, false) else none

/-- The call the task waits at gets its usual answer. -/
def usual (i : Task) : ScriptMove := .call i fun e => some (e.usual, false)

/-- The accept loop of instance `k` accepts a connection. -/
def opened (k : ℕ) : List ScriptMove := [.start (.server k), usual (.server k)]

/-- Request `n` asks for the index of a provider that the database does not know, and its
message is put into the channel. -/
def enqueued (n : ℕ) (p : TerraformProvider) : List ScriptMove :=
  [.start (.request n), answered (.request n) (.selectVersions p) (.ok []), usual (.request n)]

/-- The message of request `n` is taken out of the channel of instance `k`. -/
def taken (k n : ℕ) (p : TerraformProvider) : ScriptMove :=
  answered (.refresher k) .recvOrCancelled (some { provider := p, responseChannel := some n })

/-- The refresher discovers the registry, looks for a token, fetches the versions, stores
them, looks at the clock and responds. -/
def refreshed (k : ℕ) (p : TerraformProvider) (versions : ProviderVersions) (rows : ℕ) :
    List ScriptMove :=
  [usual (.refresher k), usual (.refresher k), usual (.refresher k),
    answered (.refresher k) (.storeProviderVersions p versions) (.ok rows),
    usual (.refresher k), usual (.refresher k)]

/-- The refresher takes the message of request `n`, whose provider is not stale, and the request
receives that response. -/
def foundFresh (k n : ℕ) (p : TerraformProvider) : List ScriptMove :=
  [.again (.refresher k), taken k n p, usual (.refresher k), usual (.refresher k),
    answered (.request n) .receiveResponse (some .providerVersionNotStale)]

/-- Request `n` is answered from the rows it reads in the database. -/
def cached (n : ℕ) (p : TerraformProvider) (rows : List (Option Text)) : List ScriptMove :=
  [.start (.request n), answered (.request n) (.selectVersions p) (.ok rows), usual (.request n),
    .finish (.request n)]

end Terrashine.Interface
