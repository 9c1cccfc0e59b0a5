import Terrashine.Analysis.RefresherRounds
import Terrashine.Analysis.Effects

/-!
# Who uses the channels

Index requests send messages and wait for responses, the refresher takes the messages and
responds, the accept loop accepts; every other request keeps away from the channels.
`channelProtocol` says which call each task may make after which history, and
`channelProtocol_obeyed` that all programs of a deployment keep to it, so that it holds in
every reachable state.
-/

set_option autoImplicit false

namespace Terrashine.Analysis

open Terrashine.Library Terrashine.Model Terrashine.Interface

/-! ## Requests that keep away from the channels -/

/-- A call that is about no queue, no channel and no connection. -/
def KeepsAway (c : Call) : Prop := onInstances c = false

/-- The version handler makes one query. -/
theorem calls_versionHandler {C : Call → Prop} (url : Url) (p : TerraformProvider)
    (version : Version) (hC : C (.selectDownloads p version.versionPrefix)) :
    (versionHandler url p version).Calls C := by
  unfold versionHandler listDownloads
  refine Prog.calls_bind (calls_tryCall ((Prog.calls_perform _ _).mpr hC)) fun r => ?_
  cases r <;> exact (Prog.calls_pure _ _).mpr trivial

section Artifacts

variable {target : UploadTarget}

/-- The upload of a part keeps away from the channels. -/
theorem calls_uploadPart (partNumber : ℕ) (buffer : Bytes) :
    (uploadPart target partNumber buffer).run.Calls KeepsAway := by
  unfold uploadPart
  refine Prog.calls_run_bind (calls_tryCall ((Prog.calls_perform _ _).mpr rfl)) fun answer => ?_
  cases answer with
  | some eTag => exact Prog.calls_run_pure _
  | none => exact calls_liftResult _

/-- An abort keeps away from the channels. -/
theorem calls_abortUpload {α : Type} :
    (abortUpload target : ExceptT AnyhowError Io α).run.Calls KeepsAway := by
  show Prog.Calls KeepsAway (perform _ >>= _)
  refine Prog.calls_bind ((Prog.calls_perform _ _).mpr rfl) fun r => ?_
  cases r <;> exact (Prog.calls_pure _ _).mpr trivial

/-- The loop over the chunks keeps away from the channels. -/
theorem calls_uploadChunks (ending : BodyEnd) (chunks : List Bytes) (state : UploadState) :
    (uploadChunks target ending state chunks).run.Calls KeepsAway := by
  induction chunks generalizing state with
  | nil =>
    cases ending with
    | complete => exact Prog.calls_run_pure _
    | broken => exact calls_abortUpload
  | cons chunk rest ih =>
    unfold uploadChunks
    dsimp only
    split
    · exact ih _
    · exact Prog.calls_run_bind (calls_uploadPart _ _) fun part => ih _

/-- The tail after the loop keeps away from the channels. -/
theorem calls_uploadRemaining (state : UploadState) :
    (uploadRemaining target state).run.Calls KeepsAway := by
  unfold uploadRemaining
  split
  · exact Prog.calls_run_pure _
  · exact Prog.calls_run_bind (calls_uploadPart _ _) fun part => Prog.calls_run_pure _

/-- The whole upload keeps away from the channels. -/
theorem calls_stashArtifact (bucketName bucketPrefix : Text) (artifact : Artifact) (stream : Body) :
    (stashArtifact bucketName bucketPrefix artifact stream).run.Calls KeepsAway := by
  unfold stashArtifact
  refine Prog.calls_run_bind (calls_tryCall ((Prog.calls_perform _ _).mpr rfl)) fun answer => ?_
  cases answer with
  | none => exact calls_liftResult _
  | some uploadId =>
    refine Prog.calls_run_bind (calls_uploadChunks _ _ _) fun state => ?_
    refine Prog.calls_run_bind (calls_uploadRemaining _) fun parts => ?_
    refine Prog.calls_run_bind (calls_tryCall ((Prog.calls_perform _ _).mpr rfl)) fun u => ?_
    exact calls_tryCall ((Prog.calls_perform _ _).mpr rfl)

/-- A redirect keeps away from the channels. -/
theorem calls_redirect (bucketName bucketPrefix : Text) (artifact : Artifact) :
    (redirect bucketName bucketPrefix artifact).run.Calls KeepsAway := by
  unfold redirect presignRequest
  refine Prog.calls_run_bind (calls_tryCall (calls_tryCall ?_)) fun uri => Prog.calls_run_pure _
  exact (Prog.calls_perform _ _).mpr rfl

/-- A request that fetches an archive keeps away from the channels. -/
theorem calls_fetchArtifact (deps : Externals) (port : ℕ) (bucketName bucketPrefix : Text)
    (detail : ArtifactDetails) :
    (fetchArtifact deps (databaseRegistry port) bucketName bucketPrefix
      detail).run.Calls KeepsAway := by
  have hupstream : (getUpstream deps (databaseRegistry port) detail).run.Calls KeepsAway := by
    refine Prog.calls_mono ?_ (calls_getUpstream deps port detail)
    intro c hc
    cases c <;> first | exact hc.elim | rfl
  have hid : allocateArtifactId.run.Calls KeepsAway :=
    calls_tryCall ((Prog.calls_perform _ _).mpr rfl)
  unfold fetchArtifact
  refine Prog.calls_run_bind ?_ fun found => ?_
  · rw [ExceptT.run_mk]
    apply Prog.calls_tryJoin
    · exact calls_tryCall hid
    · exact calls_tryCall hupstream
  · exact Prog.calls_run_bind (calls_tryCall (calls_stashArtifact _ _ _ _))
      fun u => Prog.calls_run_pure _

/-- The handler of the artifacts keeps away from the channels. -/
theorem calls_artifactsHandler (deps : Externals) (port : ℕ) (bucketName bucketPrefix : Text)
    (versionId : ℤ) :
    (artifactsHandler deps (databaseRegistry port) bucketName bucketPrefix
      versionId).run.Calls KeepsAway := by
  unfold artifactsHandler getArtifactFromDatabase
  refine Prog.calls_run_bind
    (calls_tryCall (calls_tryCall ((Prog.calls_perform _ _).mpr rfl))) fun found => ?_
  cases found with
  | none => exact calls_liftResult _
  | some detail =>
    dsimp only
    cases detail.artifactId with
    | some id => exact calls_redirect _ _ _
    | none =>
      exact Prog.calls_run_bind (calls_fetchArtifact _ _ _ _ _) fun artifact => calls_redirect _ _ _

end Artifacts

/-- Updating a credential makes one upsert and no other call. -/
theorem calls_updateCredential {C : Call → Prop} (hostname token : Text)
    (hC : C (.upsertAuthToken hostname token)) :
    (updateCredential databaseCredentials hostname token).Calls C := by
  unfold updateCredential databaseCredentials
  refine Prog.calls_bind (calls_tryCall ((Prog.calls_perform _ _).mpr hC)) fun r => ?_
  cases r <;> exact (Prog.calls_pure _ _).mpr trivial

/-- Deleting a credential makes one deletion and no other call. -/
theorem calls_deleteCredential {C : Call → Prop} (hostname : Text)
    (hC : C (.deleteAuthToken hostname)) :
    (deleteCredential databaseCredentials hostname).Calls C := by
  unfold deleteCredential databaseCredentials
  refine Prog.calls_bind (calls_tryCall ((Prog.calls_perform _ _).mpr hC)) fun r => ?_
  cases r <;> exact (Prog.calls_pure _ _).mpr trivial

/-- Asking for a credential makes one query and no other call. -/
theorem calls_existsCredential {C : Call → Prop} (hostname : Text)
    (hC : C (.selectAuthToken hostname)) :
    (existsCredential databaseCredentials hostname).Calls C := by
  unfold existsCredential databaseCredentials
  refine Prog.calls_bind (Prog.calls_run_bind
    (calls_tryCall ((Prog.calls_perform _ _).mpr hC)) fun row => ?_) fun r => ?_
  · cases row <;> exact Prog.calls_run_pure _
  · rcases r with err | (_ | token) <;> exact (Prog.calls_pure _ _).mpr trivial

/-- A function of the result makes no call. -/
theorem calls_map {α β : Type} {C : Call → Prop} (f : α → β) {p : Io α} (hp : p.Calls C) :
    (f <$> p).Calls C := Prog.calls_bind hp fun _ => (Prog.calls_pure _ _).mpr trivial

/-- A request for anything but an index keeps away from the channels. -/
theorem calls_handler {D : Deployment} {n : ℕ} (h : ∀ p, (D.requests n).route ≠ .index p) :
    (D.handler n).Calls KeepsAway := by
  unfold Deployment.handler
  cases hroute : (D.requests n).route with
  | index p => exact absurd hroute (h p)
  | version p segment =>
    dsimp only
    split
    · exact calls_map _ (calls_versionHandler _ _ _ rfl)
    · exact (Prog.calls_pure _ _).mpr trivial
  | artifact versionId => exact calls_map _ (calls_artifactsHandler _ _ _ _ _)
  | updateCredential hostname token => exact calls_map _ (calls_updateCredential _ _ rfl)
  | deleteCredential hostname => exact calls_map _ (calls_deleteCredential _ rfl)
  | existsCredential hostname => exact calls_map _ (calls_existsCredential _ rfl)

/-! ## The protocol -/

/-- The accept loop has waited for its connections. -/
def Joined (h : List IoEvent) : Prop := (⟨.joinAll, ()⟩ : IoEvent) ∈ h

/-- What each task does with the channels. -/
def channelProtocol (D : Deployment) : Machine.Protocol Task Call Call.Ret Answer where
  allows i h c := match i with
    | .request n => (∀ p, (D.requests n).route = .index p → IndexCall n p h c) ∧
        ((∀ p, (D.requests n).route ≠ .index p) → KeepsAway c)
    | .refresher k => RefresherCall D.deps (D.args k).upstreamRegistryPort h c
    | .server _ => ¬ Joined h ∧ (c = .acceptOrCancelled ∨ c = .joinAll)
  ensures i a h := match i with
    | .request n => ∀ p, (D.requests n).route = .index p →
        ∃ result, a = .index result ∧ IndexResult n p h result
    | .refresher _ => ∀ lastRefresh, a = .refresher (some lastRefresh) →
        BetweenRounds lastRefresh h
    | .server _ => ∃ goOn, a = .server goOn ∧ (Joined h ↔ goOn = false)

/-- Every handler keeps to the channel protocol. -/
theorem wp_handler (D : Deployment) (n : ℕ) :
    (D.handler n).wp ((channelProtocol D).allows (.request n))
      ((channelProtocol D).ensures (.request n)) [] := by
  by_cases hindex : ∃ p, (D.requests n).route = .index p
  · obtain ⟨p, hp⟩ := hindex
    have hcalls : (channelProtocol D).allows (.request n) = IndexCall n p := by
      funext h c
      apply propext
      constructor
      · intro hc
        exact hc.1 p hp
      · intro hc
        refine ⟨fun p' hp' => ?_, fun hno => absurd hp (hno p)⟩
        rw [hp] at hp'
        cases hp'
        exact hc
    unfold Deployment.handler
    rw [hp, hcalls]
    dsimp only
    rw [Prog.wp_map]
    refine Prog.wp_mono _ (wp_indexHandler n p) ?_
    intro result h _ hresult p' hp'
    rw [hp] at hp'
    cases hp'
    exact ⟨result, rfl, hresult⟩
  · push Not at hindex
    refine Prog.Calls.wp (calls_handler hindex) ?_ ?_ []
    · intro h c hc
      exact ⟨fun p hp => absurd hp (hindex p), fun _ => hc⟩
    · intro a h p hp
      exact absurd hp (hindex p)

/-- Every round of the refresher keeps to the channel protocol. -/
theorem wp_round (D : Deployment) (k : ℕ) {lastRefresh : LastRefresh} {h : List IoEvent}
    (hb : BetweenRounds lastRefresh h) :
    (D.refresherRound k lastRefresh).wp ((channelProtocol D).allows (.refresher k))
      ((channelProtocol D).ensures (.refresher k)) h := by
  unfold Deployment.refresherRound
  rw [Prog.wp_map]
  refine Prog.wp_mono _ (wp_refresherRound hb) ?_
  intro r h' _ hround lastRefresh' heq
  cases heq
  exact hround lastRefresh' rfl

/-- Every round of the accept loop keeps to the channel protocol. -/
theorem wp_serveRound (D : Deployment) (k : ℕ) {h : List IoEvent} (hopen : ¬ Joined h) :
    (Answer.server <$> serveRound).wp ((channelProtocol D).allows (.server k))
      ((channelProtocol D).ensures (.server k)) h := by
  have hstill : ∀ r, ¬ Joined (h ++ [⟨.acceptOrCancelled, r⟩]) := by
    intro r hjoined
    rcases List.mem_append.mp hjoined with hmem | hmem
    · exact hopen hmem
    · simp at hmem
  unfold serveRound
  rw [Prog.wp_map, perform_def, Prog.call_bind, Prog.wp_call]
  refine ⟨⟨hopen, .inl rfl⟩, fun r => ?_⟩
  cases r with
  | true =>
    refine (Prog.wp_pure _).mpr ⟨true, rfl, ?_⟩
    simp [hstill true]
  | false =>
    show Prog.wp _ _ (perform .joinAll >>= fun _ => pure false) _
    rw [perform_def, Prog.call_bind, Prog.wp_call]
    refine ⟨⟨hstill false, .inr rfl⟩, fun u => (Prog.wp_pure _).mpr ⟨false, rfl, ?_⟩⟩
    simp [Joined]

/-- **Every program of a deployment keeps to the protocol.** -/
theorem channelProtocol_obeyed (D : Deployment) : D.machine.Obeys (channelProtocol D) := by
  constructor
  · intro i
    cases i with
    | request n => exact wp_handler D n
    | refresher k => exact wp_round D k betweenRounds_nil
    | server k => exact wp_serveRound D k List.not_mem_nil
  · intro i a p h hensures hagain
    cases i with
    | request n => cases hagain
    | refresher k =>
      cases a with
      | refresher lastRefresh =>
        cases lastRefresh with
        | some lastRefresh =>
          cases hagain
          exact wp_round D k (hensures lastRefresh rfl)
        | none => cases hagain
      | _ => cases hagain
    | server k =>
      obtain ⟨goOn, rfl, hjoined⟩ := hensures
      cases goOn with
      | true =>
        cases hagain
        apply wp_serveRound D k
        simp [hjoined]
      | false => cases hagain

end Terrashine.Analysis
