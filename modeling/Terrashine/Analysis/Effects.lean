import Terrashine.Interface.Deployment
import Terrashine.Analysis.Catalogue

/-!
# What a step does to the world

A step of a deployment is a call of some task, answered as `World.perform` allows, or it
leaves the tables and the object storage alone.  A call leaves alone what it is not about:
`perform_frame` says so for all calls at once, and the lemmas after it read off what the
statements, the queries and the requests to the storage do.
-/

set_option autoImplicit false

namespace Terrashine.Analysis

open Terrashine.Library Terrashine.Model Terrashine.Interface

/-- The statements and transactions that may change a table or a sequence. -/
def onDatabase : Call → Bool
  | .storeProviderVersions _ _ => true
  | .nextvalArtifactIds => true
  | .updateArtifact _ _ => true
  | .upsertAuthToken _ _ => true
  | .deleteAuthToken _ => true
  | _ => false

/-- The requests that may change the object storage. -/
def onStorage : Call → Bool
  | .createMultipartUpload _ _ => true
  | .uploadPart _ _ _ _ _ => true
  | .abortMultipartUpload _ _ _ => true
  | .completeMultipartUpload _ _ _ _ => true
  | _ => false

/-- The calls that may change a queue, a channel or the number of connections. -/
def onInstances : Call → Bool
  | .trySend _ => true
  | .sendTimeout _ _ => true
  | .respond _ _ => true
  | .recvOrCancelled => true
  | .dropReceiver => true
  | .acceptOrCancelled => true
  | _ => false

section Calls

variable {w w' : World} {k : ℕ} {channel : Option ℕ} {applied : Bool}

/-- A query changes nothing, and its answer is an accepted one. -/
theorem query_eq_some {α : Type} {valid : Bool} {accepted : α → Bool} {r : Except SqlError α}
    (h : w.query valid accepted r = some w') :
    w' = w ∧ ∀ a, r = .ok a → valid = true ∧ accepted a = true := by
  unfold World.query at h
  split at h
  · next a =>
    split at h
    · next hok =>
      simp only [Bool.and_eq_true] at hok
      cases h
      refine ⟨rfl, fun a' ha' => ?_⟩
      cases ha'
      exact hok
    · cases h
  · cases h
    exact ⟨rfl, fun a ha => by cases ha⟩
  · split at h
    · cases h
    · cases h
      exact ⟨rfl, fun a ha => by cases ha⟩
  · cases h

/-- A statement took effect, or its connection failed before it did. -/
theorem statement_eq_some {ε α : Type} [DecidableEq ε] [DecidableEq α] {lost : ε}
    {result : Except ε α × Database} {answer : Except ε α}
    (h : w.statement lost result answer applied = some w') :
    (w' = { w with db := result.2 } ∧
        (answer = result.1 ∨ answer = .error lost ∧ applied = true)) ∨
      (w' = w ∧ answer ≠ result.1 ∧ answer = .error lost ∧ applied = false) := by
  unfold World.statement at h
  split at h
  · next ha =>
    cases h
    exact .inl ⟨rfl, .inl ha⟩
  · next ha =>
    split at h
    · next hlost =>
      cases applied with
      | true =>
        cases h
        exact .inl ⟨rfl, .inr ⟨hlost, rfl⟩⟩
      | false =>
        cases h
        exact .inr ⟨rfl, ha, hlost, rfl⟩
    · cases h

/-- A request to the storage took effect, or it failed before it did. -/
theorem storage_eq_some {α : Type} {result : Option ObjectStorage} {answer : Except S3Error α}
    (h : w.storage result answer applied = some w') :
    (∃ s, result = some s ∧ w' = { w with s3 := s } ∧
        ((∃ a, answer = .ok a) ∨ applied = true)) ∨
      (w' = w ∧ applied = false ∧ ∀ a, answer ≠ .ok a) := by
  unfold World.storage at h
  cases answer with
  | ok a =>
    obtain ⟨s, hs, rfl⟩ := Option.map_eq_some_iff.mp h
    exact .inl ⟨s, hs, rfl, .inl ⟨a, rfl⟩⟩
  | error err =>
    cases applied with
    | true =>
      obtain ⟨s, hs, rfl⟩ := Option.map_eq_some_iff.mp h
      exact .inl ⟨s, hs, rfl, .inr rfl⟩
    | false =>
      cases h
      exact .inr ⟨rfl, rfl, fun a ha => by cases ha⟩

/-- What a call leaves as it was. -/
structure Frame (c : Call) (w w' : World) : Prop where
  db : onDatabase c = false → w'.db = w.db
  s3 : onStorage c = false → w'.s3 = w.s3
  instances : onInstances c = false → w'.instances = w.instances
  channels : onInstances c = false → w'.channels = w.channels
  clock : w'.clock = w.clock

/-- A world that stays the same keeps all that a call has to keep. -/
theorem Frame.refl (c : Call) (w : World) : Frame c w w :=
  ⟨fun _ => rfl, fun _ => rfl, fun _ => rfl, fun _ => rfl, rfl⟩

/-- A query keeps the world. -/
theorem Frame.of_query {c : Call} {α : Type} {valid : Bool} {accepted : α → Bool}
    {r : Except SqlError α} (h : w.query valid accepted r = some w') : Frame c w w' := by
  obtain ⟨rfl, -⟩ := query_eq_some h
  exact Frame.refl c w'

/-- A statement changes the database only. -/
theorem Frame.of_statement {c : Call} (hc : onDatabase c = true) {ε α : Type} [DecidableEq ε]
    [DecidableEq α] {lost : ε} {result : Except ε α × Database} {answer : Except ε α}
    (h : w.statement lost result answer applied = some w') : Frame c w w' := by
  rcases statement_eq_some h with ⟨rfl, -⟩ | ⟨rfl, -⟩
  · exact ⟨by simp [hc], fun _ => rfl, fun _ => rfl, fun _ => rfl, rfl⟩
  · exact Frame.refl c w'

/-- A request to the object storage changes the storage only. -/
theorem Frame.of_storage {c : Call} (hc : onStorage c = true) {α : Type}
    {result : Option ObjectStorage} {answer : Except S3Error α}
    (h : w.storage result answer applied = some w') : Frame c w w' := by
  rcases storage_eq_some h with ⟨s, -, rfl, -⟩ | ⟨rfl, -⟩
  · exact ⟨fun _ => rfl, by simp [hc], fun _ => rfl, fun _ => rfl, rfl⟩
  · exact Frame.refl c w'

/-- A call that only sees the queues, the channels and the connections. -/
theorem Frame.of_instances {c : Call} (hc : onInstances c = true) (hdb : w'.db = w.db)
    (hs3 : w'.s3 = w.s3) (hclock : w'.clock = w.clock) : Frame c w w' :=
  ⟨fun _ => hdb, fun _ => hs3, by simp [hc], by simp [hc], hclock⟩

/-- A message enters a channel that has a receiver, at its end. -/
theorem enqueue_eq_some {message : RefreshRequest} (h : w.enqueue k message = some w') :
    (w.instances k).receiverDropped = false ∧
      w' = w.setInstance k
        { w.instances k with queue := (w.instances k).queue ++ [message] } := by
  unfold World.enqueue at h
  dsimp only at h
  split at h
  · next hopen =>
    cases h
    exact ⟨hopen.1, rfl⟩
  · cases h

/-- Putting a message into a channel changes the instances only. -/
theorem Frame.of_enqueue {c : Call} (hc : onInstances c = true) {message : RefreshRequest}
    (h : w.enqueue k message = some w') : Frame c w w' := by
  obtain ⟨-, rfl⟩ := enqueue_eq_some h
  exact Frame.of_instances hc rfl rfl rfl

/-- A response arrives where somebody listens, and closes the channel where nobody does. -/
theorem respond_eq_some {n : ℕ} {response : RefreshResponse} {delivered : Bool}
    (h : w.respond n response delivered = some w') :
    delivered = (w.channels n).listening ∧
      w' = w.setChannel n { w.channels n with
        value := if delivered then .sent response else .closed } := by
  unfold World.respond at h
  dsimp only at h
  split at h
  · next hd =>
    cases h
    exact ⟨hd, rfl⟩
  · cases h

/-- **A call leaves alone what it is not about.** -/
theorem perform_frame {c : Call} {r : c.Ret} (h : w.perform k channel c r applied = some w') :
    Frame c w w' := by
  cases c with
  | selectVersions p => exact .of_query h
  | storeProviderVersions p response => exact .of_statement rfl h
  | selectDownloads p version => exact .of_query h
  | selectArtifact versionId => exact .of_query h
  | nextvalArtifactIds => exact .of_statement rfl h
  | updateArtifact artifactId versionId => exact .of_statement rfl h
  | selectAuthToken hostname => exact .of_query h
  | upsertAuthToken hostname token => exact .of_statement rfl h
  | deleteAuthToken hostname => exact .of_statement rfl h
  | httpGet request =>
    cases h
    exact .refl _ _
  | createMultipartUpload bucket key =>
    unfold World.perform at h
    dsimp only at h
    split at h
    · split at h
      · cases h
        exact ⟨fun _ => rfl, by simp [onStorage], fun _ => rfl, fun _ => rfl, rfl⟩
      · cases h
    · exact .of_storage rfl h
  | uploadPart bucket key uploadId partNumber body => exact .of_storage rfl h
  | abortMultipartUpload bucket key uploadId => exact .of_storage rfl h
  | completeMultipartUpload bucket key uploadId parts => exact .of_storage rfl h
  | presign bucket key expiresIn =>
    unfold World.perform at h
    dsimp only at h
    split at h
    · split at h
      · cases h
        exact .refl _ _
      · cases h
    · cases h
      exact .refl _ _
  | trySend message =>
    unfold World.perform at h
    dsimp only at h
    split at h
    · exact .of_enqueue rfl h
    · split at h
      · cases h
        exact .refl _ _
      · cases h
    · split at h
      · cases h
        exact .refl _ _
      · cases h
  | sendTimeout message seconds =>
    unfold World.perform at h
    dsimp only at h
    split at h
    · exact .of_enqueue rfl h
    · split at h
      · cases h
        exact .refl _ _
      · cases h
    · split at h
      · cases h
        exact .refl _ _
      · cases h
  | receiveResponse =>
    unfold World.perform at h
    dsimp only at h
    split at h
    · split at h
      · split at h
        · cases h
          exact .refl _ _
        · cases h
      · cases h
        exact .refl _ _
      · cases h
    · cases h
  | respond n response =>
    obtain ⟨-, rfl⟩ := respond_eq_some h
    exact .of_instances rfl rfl rfl rfl
  | recvOrCancelled =>
    unfold World.perform at h
    dsimp only at h
    split at h
    · split at h
      · cases h
        exact .of_instances rfl rfl rfl rfl
      · cases h
    · cases h
    · split at h
      · cases h
        exact .refl _ _
      · cases h
  | dropReceiver =>
    cases h
    exact .of_instances rfl rfl rfl rfl
  | instantNow =>
    unfold World.perform at h
    dsimp only at h
    split at h
    · cases h
      exact .refl _ _
    · cases h
  | acceptOrCancelled =>
    unfold World.perform at h
    dsimp only at h
    split at h
    · cases h
      exact .of_instances rfl rfl rfl rfl
    · split at h
      · cases h
        exact .refl _ _
      · cases h
  | joinAll =>
    unfold World.perform at h
    dsimp only at h
    split at h
    · cases h
      exact .refl _ _
    · cases h

/-! ## Queues and channels -/

/-- `try_send` puts the message into the channel, or leaves the world as it is. -/
theorem perform_trySend {message : RefreshRequest} {r : (Call.trySend message).Ret}
    (h : w.perform k channel (.trySend message) r applied = some w') :
    (r = .ok () ∧ w.enqueue k message = some w') ∨ ((∀ u, r ≠ .ok u) ∧ w' = w) := by
  unfold World.perform at h
  dsimp only at h
  split at h
  · exact .inl ⟨rfl, h⟩
  all_goals
    split at h
    · cases h
      exact .inr ⟨by simp, rfl⟩
    · cases h

/-- `send_timeout` puts the message into the channel, or leaves the world as it is. -/
theorem perform_sendTimeout {message : RefreshRequest} {seconds : ℕ}
    {r : (Call.sendTimeout message seconds).Ret}
    (h : w.perform k channel (.sendTimeout message seconds) r applied = some w') :
    (r = .ok () ∧ w.enqueue k message = some w') ∨ ((∀ u, r ≠ .ok u) ∧ w' = w) := by
  unfold World.perform at h
  dsimp only at h
  split at h
  · exact .inl ⟨rfl, h⟩
  all_goals
    split at h
    · cases h
      exact .inr ⟨by simp, rfl⟩
    · cases h

/-- The refresher takes the first message, or sees the cancellation. -/
theorem perform_recvOrCancelled {r : Call.recvOrCancelled.Ret}
    (h : w.perform k channel .recvOrCancelled r applied = some w') :
    (∃ message rest, r = some message ∧ (w.instances k).queue = message :: rest ∧
        w' = w.setInstance k { w.instances k with queue := rest }) ∨
      (r = none ∧ (w.instances k).cancelled = true ∧ w' = w) := by
  unfold World.perform at h
  dsimp only at h
  split at h
  · next message message' rest heq =>
    split at h
    · next hsame =>
      cases h
      exact .inl ⟨message, rest, rfl, by rw [heq, hsame], rfl⟩
    · cases h
  · cases h
  · split at h
    · next hcancelled =>
      cases h
      exact .inr ⟨rfl, hcancelled, rfl⟩
    · cases h

/-- A request waits until there is a response on its channel, or none will come. -/
theorem perform_receiveResponse {r : Call.receiveResponse.Ret}
    (h : w.perform k channel .receiveResponse r applied = some w') :
    w' = w ∧ ∃ n, channel = some n ∧
      ((∃ response, r = some response ∧ (w.channels n).value = .sent response) ∨
        (r = none ∧ (w.channels n).value = .closed)) := by
  unfold World.perform at h
  dsimp only at h
  split at h
  · next n =>
    split at h
    · next response response' hvalue =>
      split at h
      · next hsame =>
        cases h
        exact ⟨rfl, n, rfl, .inl ⟨response', rfl, by rw [hvalue, hsame]⟩⟩
      · cases h
    · next hvalue =>
      cases h
      exact ⟨rfl, n, rfl, .inr ⟨rfl, hvalue⟩⟩
    · cases h
  · cases h

/-- The accept loop opens a connection, or sees the cancellation. -/
theorem perform_acceptOrCancelled {r : Call.acceptOrCancelled.Ret}
    (h : w.perform k channel .acceptOrCancelled r applied = some w') :
    (r = true ∧ w' = w.setInstance k
        { w.instances k with connections := (w.instances k).connections + 1 }) ∨
      (r = false ∧ (w.instances k).cancelled = true ∧ w' = w) := by
  unfold World.perform at h
  dsimp only at h
  split at h
  · next hr =>
    cases h
    exact .inl ⟨hr, rfl⟩
  · next hr =>
    split at h
    · next hcancelled =>
      cases h
      exact .inr ⟨by simpa using hr, hcancelled, rfl⟩
    · cases h

/-- The accept loop joins when no connection is open. -/
theorem perform_joinAll {r : Call.joinAll.Ret}
    (h : w.perform k channel .joinAll r applied = some w') :
    (w.instances k).connections = 0 ∧ w' = w := by
  unfold World.perform at h
  dsimp only at h
  split at h
  · next hzero =>
    cases h
    exact ⟨hzero, rfl⟩
  · cases h

/-! ## Queries -/

/-- An index query answers with the versions of the database, in some order. -/
theorem perform_selectVersions {p : TerraformProvider} {rows : List (Option Text)}
    (h : w.perform k channel (.selectVersions p) (.ok rows) applied = some w') :
    rows.Perm (w.db.selectVersions p) := by
  have hquery : w.query _ (fun rows => List.isPerm rows (w.db.selectVersions p)) (.ok rows) =
      some w' := h
  obtain ⟨-, hok⟩ := query_eq_some hquery
  obtain ⟨-, hperm⟩ := hok rows rfl
  exact List.isPerm_iff.mp hperm

/-- The texts of the query are ones PostgreSQL has. -/
def ValidQuery (p : TerraformProvider) (version : Text) : Prop :=
  (validText p.hostname && validText p.namespace_ && validText p.providerType &&
    validText version) = true

/-- The downloads are read exactly when the texts are valid, in any order. -/
theorem perform_selectDownloads_iff {p : TerraformProvider} {version : Text}
    {downloads : List DatabaseDownloadResult} :
    w.perform k channel (.selectDownloads p version) (.ok downloads) applied = some w ↔
      ValidQuery p version ∧ downloads.Perm (w.db.selectDownloads p version) := by
  have hquery : w.perform k channel (.selectDownloads p version) (.ok downloads) applied =
      w.query (validText p.hostname && validText p.namespace_ && validText p.providerType &&
        validText version)
        (fun rows => List.isPerm rows (w.db.selectDownloads p version)) (.ok downloads) := rfl
  rw [hquery]
  constructor
  · intro h
    obtain ⟨-, hok⟩ := query_eq_some h
    obtain ⟨hvalid, hperm⟩ := hok downloads rfl
    exact ⟨hvalid, List.isPerm_iff.mp hperm⟩
  · rintro ⟨hvalid, hperm⟩
    have hperm' : List.isPerm downloads (w.db.selectDownloads p version) = true :=
      List.isPerm_iff.mpr hperm
    unfold ValidQuery at hvalid
    simp [World.query, hvalid, hperm']

end Calls

/-! ## The database only grows -/

/-- A store extends the database, whatever comes of it. -/
theorem extends_store (fault : Option StoreStep) (now : ℕ) (db : Database) (p : TerraformProvider)
    (response : ProviderVersions) :
    Extends db (storeProviderVersions fault now db p response).2 := by
  cases hrun : storeProviderVersions fault now db p response with
  | mk result db' =>
    cases result with
    | error err =>
      obtain ⟨htables, hseq⟩ := store_error hrun
      apply Extends.of_tables
      · rw [Database.providers, htables]
      · rw [Database.versions, htables]
      · exact hseq
    | ok n =>
      obtain ⟨pid, new, hs, -⟩ := store_ok hrun
      exact hs.grows

/-- Drawing an id extends the database. -/
theorem extends_nextval (db : Database) : Extends db db.nextvalArtifactIds.2 :=
  .of_tables rfl rfl ⟨Nat.le_refl _, Nat.le_refl _, Nat.le_refl _, Nat.le_succ _⟩

/-- The update of an artifact extends the database. -/
theorem extends_updateArtifact (now : ℕ) (db : Database) (artifactId versionId : ℕ) :
    Extends db (db.updateArtifact now artifactId versionId).2 := by
  unfold Database.updateArtifact
  split
  · exact Extends.refl db
  · refine ⟨fun q hq => ⟨q, hq, rfl, rfl⟩, fun r hr => ?_, Sequences.Le.refl _⟩
    refine ⟨r.withArtifact now artifactId versionId, List.mem_map_of_mem hr, withArtifact_id r,
      withArtifact_key r, fun ha => ?_⟩
    rw [withArtifact_artifactId]
    split
    · simp
    · exact ha

/-- The tokens are kept in a table of their own. -/
theorem tables_upsertAuthToken (db : Database) (hostname token : Text) :
    (db.upsertAuthToken hostname token).2.providers = db.providers ∧
      (db.upsertAuthToken hostname token).2.versions = db.versions := by
  unfold Database.upsertAuthToken
  split
  · split
    · unfold Database.providers Database.versions Tables.withToken
      dsimp only
      split <;> exact ⟨rfl, rfl⟩
    · exact ⟨rfl, rfl⟩
  · exact ⟨rfl, rfl⟩

/-- Deleting a token leaves providers and versions as they are. -/
theorem tables_deleteAuthToken (db : Database) (hostname : Text) :
    (db.deleteAuthToken hostname).2.providers = db.providers ∧
      (db.deleteAuthToken hostname).2.versions = db.versions := by
  unfold Database.deleteAuthToken
  split <;> exact ⟨rfl, rfl⟩

/-- An upserted token extends the database. -/
theorem extends_upsertAuthToken (db : Database) (hostname token : Text) :
    Extends db (db.upsertAuthToken hostname token).2 := by
  obtain ⟨hproviders, hversions⟩ := tables_upsertAuthToken db hostname token
  apply Extends.of_tables hproviders hversions
  unfold Database.upsertAuthToken
  split
  · split
    · exact Sequences.le_drawHost
    · exact Sequences.le_drawHost
  · exact Sequences.Le.refl _

/-- A deleted token extends the database. -/
theorem extends_deleteAuthToken (db : Database) (hostname : Text) :
    Extends db (db.deleteAuthToken hostname).2 := by
  obtain ⟨hproviders, hversions⟩ := tables_deleteAuthToken db hostname
  apply Extends.of_tables hproviders hversions
  unfold Database.deleteAuthToken
  split <;> exact Sequences.Le.refl _

/-- A statement extends the database when its result does. -/
theorem statement_extends {w w' : World} {ε α : Type} [DecidableEq ε] [DecidableEq α] {lost : ε}
    {result : Except ε α × Database} {answer : Except ε α} {applied : Bool}
    (hresult : Extends w.db result.2) (h : w.statement lost result answer applied = some w') :
    Extends w.db w'.db := by
  rcases statement_eq_some h with ⟨rfl, -⟩ | ⟨rfl, -⟩
  · exact hresult
  · exact Extends.refl _

/-- No call takes a row away or changes what it stands for. -/
theorem perform_extends {w w' : World} {k : ℕ} {channel : Option ℕ} {applied : Bool} {c : Call}
    {r : c.Ret} (h : w.perform k channel c r applied = some w') : Extends w.db w'.db := by
  have hother : onDatabase c = false → Extends w.db w'.db := by
    intro hc
    rw [(perform_frame h).db hc]
    exact Extends.refl _
  cases c with
  | storeProviderVersions p response => exact statement_extends (extends_store ..) h
  | nextvalArtifactIds => exact statement_extends (extends_nextval _) h
  | updateArtifact artifactId versionId => exact statement_extends (extends_updateArtifact ..) h
  | upsertAuthToken hostname token => exact statement_extends (extends_upsertAuthToken ..) h
  | deleteAuthToken hostname => exact statement_extends (extends_deleteAuthToken ..) h
  | _ => exact hother rfl

/-! ## Steps of a deployment -/

section Steps

variable {D : Deployment} {s s' : DeploymentState} {l : DeploymentLabel}

/-- What a step that is no call leaves alone. -/
structure Quiet (l : DeploymentLabel) (w w' : World) : Prop where
  noCall : ∀ i ev applied, l ≠ .call i ev applied
  tables : w'.db.tables = w.db.tables
  sequences : w.db.sequences.Le w'.db.sequences
  s3 : w'.s3 = w.s3
  queue : ∀ k, (w'.instances k).queue = (w.instances k).queue
  value : ∀ n, (w'.channels n).value = (w.channels n).value

/-- **A step is a call, or it leaves the tables and the object storage alone.** -/
theorem step_cases (h : D.machine.Step s l s') :
    (∃ i ev applied, l = .call i ev applied ∧
      s.world.perform (D.instanceOf i) (Deployment.channelOf i) ev.1 ev.2 applied = some s'.world) ∨
    Quiet l s.world s'.world := by
  have hquiet : ∀ w : World, w.db = s.world.db → w.s3 = s.world.s3 →
      (∀ i ev applied, l ≠ .call i ev applied) →
      (∀ k, (w.instances k).queue = (s.world.instances k).queue) →
      (∀ n, (w.channels n).value = (s.world.channels n).value) → Quiet l s.world w := by
    intro w hdb hs3 hl hqueue hvalue
    refine ⟨hl, by rw [hdb], ?_, hs3, hqueue, hvalue⟩
    rw [hdb]
    exact Sequences.Le.refl _
  have hset : ∀ (w : World) k (i : Instance), i.queue = (w.instances k).queue →
      ∀ k', ((w.setInstance k i).instances k').queue = (w.instances k').queue := by
    intro w k i hi k'
    by_cases hk : k' = k
    · subst hk
      simpa [World.setInstance] using hi
    · simp [World.setInstance, hk]
  have hover : ∀ n (w : World), (∀ k, ((D.requestOver n w).instances k).queue = (w.instances k).queue) ∧
      ∀ m, ((D.requestOver n w).channels m).value = (w.channels m).value := by
    intro n w
    constructor
    · intro k
      apply hset w
      rfl
    · intro m
      by_cases hm : m = n
      · subst hm
        simp [Deployment.requestOver, World.setChannel]
      · simp [Deployment.requestOver, World.setChannel, World.setInstance, hm]
  have hidle : ∀ k : ℕ, (s.world.instances k).queue = (s.world.instances k).queue := fun _ => rfl
  cases h with
  | start i w hp hw =>
    right
    have hw' : Deployment.start D i s.world = some w := hw
    cases i with
    | request n =>
      unfold Deployment.start at hw'
      dsimp only at hw'
      split at hw'
      · cases hw'
        exact hquiet _ rfl rfl (by simp) (hset _ _ _ rfl) fun _ => rfl
      · cases hw'
    | refresher k =>
      cases hw'
      exact hquiet _ rfl rfl (by simp) hidle fun _ => rfl
    | server k =>
      cases hw'
      exact hquiet _ rfl rfl (by simp) hidle fun _ => rfl
  | call i e next r applied w hp hw => exact .inl ⟨i, ⟨e, r⟩, applied, rfl, hw⟩
  | pick i next b hp => exact .inr (hquiet _ rfl rfl (by simp) hidle fun _ => rfl)
  | again i a p hp ha => exact .inr (hquiet _ rfl rfl (by simp) hidle fun _ => rfl)
  | finish i a hp ha =>
    right
    cases i with
    | request n => exact hquiet _ rfl rfl (by simp) (hover n _).1 (hover n _).2
    | refresher k => exact hquiet _ rfl rfl (by simp) hidle fun _ => rfl
    | server k => exact hquiet _ rfl rfl (by simp) hidle fun _ => rfl
  | drop i p w hp hw =>
    right
    have hw' : Deployment.drop D i s.world = some w := hw
    cases i with
    | request n =>
      cases hw'
      exact hquiet _ rfl rfl (by simp) (hover n _).1 (hover n _).2
    | refresher k => cases hw'
    | server k => cases hw'
  | env m w hw =>
    right
    have hw' : Deployment.envMove m s.world = some w := hw
    cases m with
    | cancel k =>
      cases hw'
      exact hquiet _ rfl rfl (by simp) (hset _ _ _ rfl) fun _ => rfl
    | closeConnection k =>
      unfold Deployment.envMove at hw'
      dsimp only at hw'
      split at hw'
      · cases hw'
        exact hquiet _ rfl rfl (by simp) (hset _ _ _ rfl) fun _ => rfl
      · cases hw'
    | tick elapsed =>
      cases hw'
      exact hquiet _ rfl rfl (by simp) hidle fun _ => rfl
    | skipSequences q =>
      cases hw'
      exact ⟨by simp, rfl, Sequences.le_latest _ _, rfl, hidle, fun _ => rfl⟩

/-- A call of a task is one the world answers. -/
theorem perform_of_step {i : Task} {ev : IoEvent} {applied : Bool}
    (h : D.machine.Step s (.call i ev applied) s') :
    s.world.perform (D.instanceOf i) (Deployment.channelOf i) ev.1 ev.2 applied = some s'.world := by
  cases h with
  | call i e next r applied w hp hw => exact hw

/-- A call in the history of a task is one the world answered. -/
theorem step_own (h : D.machine.Step s l s') {i : Task} {ev : IoEvent}
    (hown : Label.own i l = some ev) :
    ∃ applied, s.world.perform (D.instanceOf i) (Deployment.channelOf i) ev.1 ev.2 applied =
      some s'.world := by
  obtain ⟨applied, rfl⟩ := Label.own_eq_some.mp hown
  exact ⟨applied, perform_of_step h⟩

/-- A call is added to the history of its own task. -/
theorem history_self {i : Task} {ev : IoEvent} {applied : Bool}
    (hl : D.machine.Step s (.call i ev applied) s') : s'.history i = s.history i ++ [ev] := by
  rw [hl.history]
  simp [Label.own]

/-- A call leaves the histories of the other tasks alone. -/
theorem history_other {i j : Task} {ev : IoEvent} {applied : Bool} (hj : j ≠ i)
    (hl : D.machine.Step s (.call i ev applied) s') : s'.history j = s.history j := by
  rw [hl.history]
  simp [Label.own, hj.symm]

/-- Histories only grow. -/
theorem history_extends {l : DeploymentLabel} (hl : D.machine.Step s l s') (i : Task) :
    s.history i <+: s'.history i := by
  rw [hl.history]
  exact List.prefix_append _ _

/-- A step that is no call extends the database. -/
theorem Quiet.extends {w w' : World} (h : Quiet l w w') : Extends w.db w'.db := by
  apply Extends.of_tables
  · rw [Database.providers, h.tables]
  · rw [Database.versions, h.tables]
  · exact h.sequences

/-- **Every step extends the database.** -/
theorem step_extends (h : D.machine.Step s l s') : Extends s.world.db s'.world.db := by
  rcases step_cases h with ⟨i, ev, applied, -, hw⟩ | hq
  · exact perform_extends hw
  · exact hq.extends

/-- **The catalogue of every later state extends that of every earlier one.** -/
theorem leads_extends (h : D.Leads s s') : Extends s.world.db s'.world.db := by
  induction h with
  | refl => exact Extends.refl _
  | tail _ hl ih =>
    obtain ⟨l, -, hl⟩ := hl
    exact ih.trans (step_extends hl)

end Steps

end Terrashine.Analysis
