import Terrashine.Analysis.MirrorView
import Terrashine.Analysis.Responses

/-!
# What a mirror answers

Every finished request of a deployment was answered at one moment of its life, and its answer
says what the mirror was at that moment: `explained_of_finished`.  A change that goes with the
answer is made for the request (`MadeFor`), mostly by a call of its own.  For an index that had to
be fetched the moment is not a step of the request at all: it is the commit with which the
refresher, that has the message of this request in hand, publishes what the registry announced.
Moments keep the order of time, so that all answers of all instances together are those of one
mirror which takes one request after the other: `mirror_linearizable`.
-/

set_option autoImplicit false

namespace Terrashine.Analysis

open Terrashine.Library Terrashine.Model Terrashine.Interface

/-! ## Requests and answers as clients mean them -/

def asked : Route → Mirror.Request
  | .index p => .versions p
  | .version p segment => match Version.tryFrom segment with
    | .ok version => .builds p version.versionPrefix
    | .error _ => .malformed
  | .artifact v => .archive v
  | .updateCredential hostname token => .setToken hostname token
  | .deleteCredential hostname => .forgetToken hostname
  | .existsCredential hostname => .hasToken hostname

/-- What a segment that is a version asks for. -/
theorem asked_version {p : TerraformProvider} {segment : Text} {version : Version}
    (h : Version.tryFrom segment = .ok version) :
    asked (.version p segment) = .builds p version.versionPrefix := by
  unfold asked
  dsimp only
  rw [h]

/-- What an answer says to a client, who follows a redirect into the object storage. -/
inductive Says (w : World) (url : Url) : Answer → Mirror.Reply → Prop
  | index (i : MirrorIndex) : Says w url (.index (.ok i)) (.versions {v | v ∈ versionSet i})
  | noIndex (err : TerrashineError) : Says w url (.index (.error err)) .failed
  | version (rows : List DatabaseDownloadResult) :
      Says w url (.version (.ok (.build rows url.serialize)))
        (.builds {b | ({ os := b.1, arch := b.2.1, id := b.2.2 } : DatabaseDownloadResult) ∈ rows})
  | noVersion (status : StatusCode) : Says w url (.version (.error status)) .failed
  | archive (response : ArtifactResponse) (content : Bytes)
      (h : w.s3.objects response.uri.bucket response.uri.key = some content) :
      Says w url (.artifact (.ok response)) (.archive content)
  | absent : Says w url (.artifact (.error .notFound)) .absent
  | noArchive (status : StatusCode) (h : status ≠ .notFound) :
      Says w url (.artifact (.error status)) .failed
  | done : Says w url (.credential .ok .data) .done
  | hasToken : Says w url (.credential .ok (.found true)) (.hasToken true)
  | hasNone : Says w url (.credential .notFound (.found false)) (.hasToken false)
  | notDone (status : StatusCode) (msg : Text) :
      Says w url (.credential status (.error msg)) .failed

/-! ## What the ends of programs tell -/

/-- The `?` operator fails in the ways its errors are turned into. -/
theorem failsIn_tryCall {ε ε' α : Type} {P : ε' → Prop} {into : ε → ε'} (hinto : ∀ e, P (into e))
    (p : Io (Except ε α)) : (tryCall into p).run.FailsIn P := by
  rw [run_tryCall]
  apply Prog.failsIn_bind
  intro r
  cases r with
  | ok a => exact Prog.failsIn_run_pure a
  | error e => exact Prog.failsIn_error (hinto e)

section Ends

variable {deps : Externals} {port : ℕ} {bucketName bucketPrefix : Text} {versionId : ℤ}

/-- A redirect that fails does not say that the archive is missing. -/
theorem failsIn_redirect (artifact : Artifact) :
    (redirect bucketName bucketPrefix artifact).run.FailsIn (· ≠ .notFound) := by
  unfold redirect
  exact (failsIn_tryCall (by simp) _).run_bind fun uri => Prog.failsIn_run_pure _

/-- A download that fails does not say that the archive is missing. -/
theorem failsIn_fetchArtifact (registry : RegistryClient) (detail : ArtifactDetails) :
    (fetchArtifact deps registry bucketName bucketPrefix detail).run.FailsIn (· ≠ .notFound) := by
  unfold fetchArtifact
  apply Prog.FailsIn.run_bind
  · rw [ExceptT.run_mk]
    apply Prog.failsIn_tryJoin
    · exact failsIn_tryCall (by simp) _
    · exact failsIn_tryCall (by simp) _
  · intro found
    exact (failsIn_tryCall (by simp) _).run_bind fun u => Prog.failsIn_run_pure _

/-- A request that answers that there is no such archive has read of no such row. -/
theorem wp_artifactsHandler_notFound (registry : RegistryClient) :
    (artifactsHandler deps registry bucketName bucketPrefix versionId).run.wp (fun _ _ => True)
      (fun result h => result = .error .notFound →
        (⟨.selectArtifact versionId, .ok none⟩ : IoEvent) ∈ h) [] := by
  have hfound : ∀ {p : Io (Except StatusCode ArtifactResponse)} {h : List IoEvent},
      p.FailsIn (· ≠ .notFound) → p.wp (fun _ _ => True) (fun result h => result = .error .notFound →
        (⟨.selectArtifact versionId, .ok none⟩ : IoEvent) ∈ h) h := by
    intro p h hp
    refine Prog.wp_mono _ (hp.wp h) ?_
    intro result h' _ hne heq
    exact absurd rfl (hne _ heq)
  unfold artifactsHandler getArtifactFromDatabase
  rw [Prog.wp_run_bind, wp_tryCall, wp_tryCall, perform_def, Prog.wp_call]
  refine ⟨trivial, fun r => (Prog.wp_done r).mpr ?_⟩
  cases r with
  | error err =>
    intro heq
    cases heq
  | ok found =>
    cases found with
    | none =>
      exact (Prog.wp_done _).mpr fun _ => List.mem_append_right _ (List.mem_singleton_self _)
    | some detail =>
      apply hfound
      dsimp only
      cases detail.artifactId with
      | some id => exact failsIn_redirect _
      | none => exact (failsIn_fetchArtifact registry detail).run_bind fun artifact =>
          failsIn_redirect artifact

/-- A refresh that succeeds has stored the versions that it returns. -/
theorem refreshVersions_stores {p : TerraformProvider} {tr : List IoEvent}
    {versions : ProviderVersions}
    (hr : Prog.Runs (refreshVersions deps (databaseRegistry port) p).run tr
      (.returned (.ok versions))) :
    ∃ rows, (⟨.storeProviderVersions p versions, .ok rows⟩ : IoEvent) ∈ tr := by
  unfold refreshVersions at hr
  obtain ⟨tr₁, tr₂, response, rfl, -, hr₂⟩ := Prog.runs_run_bind_ok hr
  obtain ⟨tr₃, tr₄, rows, rfl, hr₃, hr₄⟩ := Prog.runs_run_bind_ok hr₂
  obtain ⟨-, hout⟩ := Prog.runs_done_iff.mp hr₄
  cases hout
  have hcall := runs_tryCall_ok hr₃
  rw [perform_def, Prog.runs_call_iff] at hcall
  obtain ⟨r, tr', rfl, hdone⟩ := hcall
  obtain ⟨-, hout⟩ := Prog.runs_done_iff.mp hdone
  cases hout
  exact ⟨rows, by simp⟩

/-- A refresh that was performed has stored the versions, over calls that all worked. -/
theorem OwnOutcome.stores {p : TerraformProvider} {tr : List IoEvent}
    {versions : ProviderVersions}
    (h : OwnOutcome deps port p tr (.refreshPerformed (.ok versions))) :
    (∀ ev ∈ tr, Working ev.1) ∧
      ∃ rows, (⟨.storeProviderVersions p versions, .ok rows⟩ : IoEvent) ∈ tr := by
  generalize hresponse : RefreshResponse.refreshPerformed (.ok versions) = response at h
  cases h with
  | notStale now => cases hresponse
  | performed before tr after result hbefore hafter hr =>
    cases hresponse
    constructor
    · intro ev hev
      rcases List.mem_append.mp hev with hev | hev
      · rcases List.mem_append.mp hev with hev | hev
        · rw [hbefore ev hev]
          trivial
        · exact (calls_refreshVersions deps port p).of_runs hr ev hev
      · rw [hafter ev hev]
        trivial
    · obtain ⟨rows, hmem⟩ := refreshVersions_stores hr
      exact ⟨rows, by simp [hmem]⟩

end Ends

section Requests

variable {D : Deployment} {s s' : DeploymentState} {n : ℕ}

/-- What artifact requests have read that answer with a missing archive. -/
def missingProtocol (D : Deployment) : Machine.Protocol Task Call Call.Ret Answer where
  allows _ _ _ := True
  ensures i a h := match i with
    | .request n => ∀ v, (D.requests n).route = .artifact v → a = .artifact (.error .notFound) →
        (⟨.selectArtifact v, .ok none⟩ : IoEvent) ∈ h
    | _ => True

/-- Every request that answers that an archive is missing has read so. -/
theorem missingProtocol_obeyed (D : Deployment) : D.machine.Obeys (missingProtocol D) := by
  constructor
  · intro i
    cases i with
    | request n =>
      show (D.handler n).wp _ _ []
      by_cases hartifact : ∃ v, (D.requests n).route = .artifact v
      · obtain ⟨v, hv⟩ := hartifact
        unfold Deployment.handler
        rw [hv]
        dsimp only
        rw [Prog.wp_map]
        refine Prog.wp_mono _ (wp_artifactsHandler_notFound _) ?_
        intro result h _ hresult v' hv' heq
        rw [hv] at hv'
        cases hv'
        cases heq
        exact hresult rfl
      · exact Prog.wp_trivial (fun _ _ => trivial)
          (fun _ _ v hv => absurd ⟨v, hv⟩ hartifact) _
    | refresher k => exact Prog.wp_trivial (fun _ _ => trivial) (fun _ _ => trivial) _
    | server k => exact Prog.wp_trivial (fun _ _ => trivial) (fun _ _ => trivial) _
  · intro i a p h _ hagain
    cases i with
    | request n => cases hagain
    | refresher k => exact Prog.wp_trivial (fun _ _ => trivial) (fun _ _ => trivial) _
    | server k => exact Prog.wp_trivial (fun _ _ => trivial) (fun _ _ => trivial) _

/-- An answered message stays answered. -/
theorem answered_later {response : RefreshResponse} {delivered : Bool} (hs : D.Reachable s)
    (hlater : D.Leads s s') (h : life D n s.trace = .answered response delivered) :
    life D n s'.trace = .answered response delivered := by
  induction hlater with
  | refl => exact h
  | tail hr hl ih =>
    obtain ⟨l, -, hl⟩ := hl
    have hmoves := lifeStep (n := n) (hs.trans hr) hl
    rw [ih] at hmoves
    generalize life D n _ = after at hmoves
    cases hmoves with
    | stays => rfl

/-- No row holds a null token. -/
theorem token_ne_null (hs : D.Reachable s) (hostname : Text) :
    s.world.db.selectAuthToken hostname ≠ some none := by
  refine Machine.invariant
    (I := fun s => ∀ hostname, s.world.db.selectAuthToken hostname ≠ some none) ?_ ?_ hs hostname
  · intro hostname h
    cases h
  · intro s l s' _ ih _ hl hostname
    rcases step_cases hl with ⟨i, ev, applied, rfl, hw⟩ | hq
    · have hchange : ∀ key row, row ≠ some none →
          Function.update s.world.db.selectAuthToken key row hostname ≠ some none := by
        intro key row hrow
        by_cases hkey : hostname = key
        · rw [hkey, Function.update_self]
          exact hrow
        · rw [Function.update_of_ne hkey]
          exact ih hostname
      have htokens := perform_tokens hw
      generalize ev.1 = c at htokens
      cases htokens with
      | same c h =>
        rw [h]
        exact ih hostname
      | upsert key token h =>
        rw [h]
        exact hchange key _ (by simp)
      | delete key h =>
        rw [h]
        exact hchange key _ (by simp)
    · rw [selectAuthToken_of_hosts (congrArg Tables.terraformRegistryHost hq.tables)]
      exact ih hostname

/-- The object that a row has named is still there. -/
theorem archive_kept (hs : D.Reachable s) (hlater : D.Leads s s') {v a : ℕ}
    (ha : artifactOf s.world.db v = some a) :
    ∃ content, archiveOf D s.world v = some content ∧
      s'.world.s3.objects D.bucketName (s3Key D.bucketPrefix a) = some content := by
  obtain ⟨i, answer, hev⟩ := updated_of_reachable hs ha
  obtain ⟨n, detail, body, parts, rfl, -, hdone, -, -⟩ := completed_of_update hs hev
  have hdone' := hdone.later (Machine.Run.history_prefix hlater (.request n))
  refine ⟨_, ?_, object_of_reachable (hs.trans hlater) hdone'⟩
  unfold archiveOf
  rw [ha, Option.bind_some, object_of_reachable hs hdone]

/-! ## Moments -/

/-- The step that is taken in the state `s` makes the change, and makes it for request `n`. -/
inductive MadeFor (D : Deployment) (n : ℕ) (s : DeploymentState) :
    DeploymentLabel → Mirror.Change → Prop
  | publish (p : TerraformProvider) (response : ProviderVersions) (rows : ℕ) (applied : Bool)
      (hhand : inHand (s.history (.refresher (D.requests n).instanceId)) =
        some (ownMessage n p)) :
      MadeFor D n s (.call (.refresher (D.requests n).instanceId)
        ⟨.storeProviderVersions p response, .ok rows⟩ applied) (.publish p (announcement response))
  | store (a id : ℕ) (content : Bytes) (applied : Bool) :
      MadeFor D n s (.call (.request n) ⟨.updateArtifact a id, .ok ()⟩ applied) (.store id content)
  | setToken (hostname token : Text) (applied : Bool) :
      MadeFor D n s (.call (.request n) ⟨.upsertAuthToken hostname token, .ok ()⟩ applied)
        (.setToken hostname token)
  | forgetToken (hostname : Text) (applied : Bool) :
      MadeFor D n s (.call (.request n) ⟨.deleteAuthToken hostname, .ok ()⟩ applied)
        (.forgetToken hostname)

/-- The step answers request `n` with what the answer says, and its change, if it makes one, is
made for the request. -/
structure AnsweredBy (D : Deployment) (s : DeploymentState) (n : ℕ) (answer : Answer)
    (s₁ : DeploymentState) (l : DeploymentLabel) (s₂ : DeploymentState) : Prop where
  answers : ∃ change reply,
    Says s.world (D.args (D.requests n).instanceId).httpRedirectUrl answer reply ∧
      (mirrorOf D s₁).Answers (asked (D.requests n).route) change (mirrorOf D s₂) reply ∧
        ∀ made, change = some made → MadeFor D n s₁ l made

/-- The request got its answer at the step from `s₁` to `s₂`. -/
structure Explained (D : Deployment) (s : DeploymentState) (n : ℕ) (answer : Answer)
    (s₁ s₂ : DeploymentState) : Prop where
  moment : ∃ l, Machine.Within D.machine (fun _ _ => True) World.initial (.request n) s₁ l s₂ s ∧
    AnsweredBy D s n answer s₁ l s₂

/-- An answer that goes with no change. -/
theorem AnsweredBy.stays {answer : Answer} {s₁ s₂ : DeploymentState} {l : DeploymentLabel}
    {reply : Mirror.Reply} (hs₁ : D.Reachable s₁) (hl : D.machine.Step s₁ l s₂)
    (hno : ∀ m m', ¬ MirrorMove D l m m')
    (hreply : Says s.world (D.args (D.requests n).instanceId).httpRedirectUrl answer reply)
    (hanswers : (mirrorOf D s₁).Answers (asked (D.requests n).route) none (mirrorOf D s₁) reply) :
    AnsweredBy D s n answer s₁ l s₂ := by
  refine ⟨none, reply, hreply, ?_, fun made h => by cases h⟩
  rw [mirrorOf_of_step hs₁ hl hno]
  exact hanswers

/-- An answer that goes with a change. -/
theorem AnsweredBy.changes {answer : Answer} {s₁ s₂ : DeploymentState} {l : DeploymentLabel}
    {change : Mirror.Change} {reply : Mirror.Reply}
    (hreply : Says s.world (D.args (D.requests n).instanceId).httpRedirectUrl answer reply)
    (hanswers : (mirrorOf D s₁).Answers (asked (D.requests n).route) (some change)
      (mirrorOf D s₂) reply)
    (hmade : MadeFor D n s₁ l change) : AnsweredBy D s n answer s₁ l s₂ := by
  refine ⟨some change, reply, hreply, hanswers, ?_⟩
  rintro made ⟨⟩
  exact hmade

/-- A request that fails might as well have failed when it arrived. -/
theorem explained_failed (hs : D.Reachable s) {answer : Answer}
    (hfin : s.pool (.request n) = .finished answer)
    (hmeans : Says s.world (D.args (D.requests n).instanceId).httpRedirectUrl answer .failed) :
    ∃ s₁ s₂, Explained D s n answer s₁ s₂ := by
  obtain ⟨s₁, s₂, hwithin⟩ := Machine.within_of_started hs (i := .request n) (by simp [hfin])
  refine ⟨s₁, s₂, _, hwithin, ?_⟩
  exact .stays hwithin.reachable hwithin.step (fun m m' h => by cases h) hmeans (.failed _)

/-- A request whose answer is what one of its own calls showed. -/
theorem explained_of_call (hs : D.Reachable s) {answer : Answer} {ev : IoEvent}
    (hev : ev ∈ s.history (.request n))
    (hmoment : ∀ s₁ s₂ applied, D.Reachable s₁ →
      D.machine.Step s₁ (.call (.request n) ev applied) s₂ → D.Leads s₂ s →
      AnsweredBy D s n answer s₁ (.call (.request n) ev applied) s₂) :
    ∃ s₁ s₂, Explained D s n answer s₁ s₂ := by
  obtain ⟨s₁, s₂, applied, hwithin⟩ := Machine.within_of_mem hs hev
  exact ⟨s₁, s₂, _, hwithin,
    hmoment s₁ s₂ applied hwithin.reachable hwithin.step hwithin.later⟩

/-! ## Requests of a single call -/

/-- The rows of a list of downloads are builds, and all the builds of the version. -/
theorem downloads_eq_builds {db : Database} {p : TerraformProvider} {version : Text}
    {rows : List DatabaseDownloadResult} (hrows : rows.Perm (db.selectDownloads p version)) :
    {b : Text × Text × ℕ |
        ({ os := b.1, arch := b.2.1, id := b.2.2 } : DatabaseDownloadResult) ∈ rows} =
      {b | buildOf db b.2.2 = some (p, ⟨version, b.1, b.2.1⟩)} := by
  ext ⟨os, arch, id⟩
  show _ ∈ rows ↔ buildOf db id = some (p, ⟨version, os, arch⟩)
  rw [hrows.mem_iff, mem_selectDownloads, buildOf_eq_some]
  constructor
  · rintro ⟨r, hrow, rfl, heq⟩
    cases heq
    exact ⟨r, hrow, rfl, rfl⟩
  · rintro ⟨r, hrow, rfl, htuple⟩
    cases htuple
    exact ⟨r, hrow, rfl, rfl⟩

/-- The downloads that a step reads are those of the database. -/
theorem downloads_of_step {i : Task} {p : TerraformProvider} {version : Text}
    {rows : List DatabaseDownloadResult} {applied : Bool}
    (hl : D.machine.Step s (.call i ⟨.selectDownloads p version, .ok rows⟩ applied) s') :
    rows.Perm (s.world.db.selectDownloads p version) := by
  have hquery : s.world.query _
      (fun rows => List.isPerm rows (s.world.db.selectDownloads p version)) (.ok rows) =
        some s'.world := perform_of_step hl
  obtain ⟨-, hok⟩ := query_eq_some hquery
  exact List.isPerm_iff.mp (hok rows rfl).2

/-- A successful upsert has set the token. -/
theorem upserted_of_step {i : Task} {hostname token : Text} {applied : Bool}
    (hl : D.machine.Step s (.call i ⟨.upsertAuthToken hostname token, .ok ()⟩ applied) s') :
    s'.world.db.selectAuthToken =
      Function.update s.world.db.selectAuthToken hostname (some (some token)) := by
  have hst : s.world.statement SqlError.unavailable (s.world.db.upsertAuthToken hostname token)
    (.ok ()) applied = some s'.world := perform_of_step hl
  rcases statement_eq_some hst with ⟨hworld, hanswer⟩ | ⟨-, -, hlost, -⟩
  · rcases hanswer with hok | ⟨hlost, -⟩
    · rw [hworld]
      exact selectAuthToken_upsert (Prod.ext hok.symm rfl)
    · cases hlost
  · cases hlost

/-- A successful deletion has removed the token. -/
theorem deleted_of_step {i : Task} {hostname : Text} {applied : Bool}
    (hl : D.machine.Step s (.call i ⟨.deleteAuthToken hostname, .ok ()⟩ applied) s') :
    s'.world.db.selectAuthToken =
      Function.update s.world.db.selectAuthToken hostname none := by
  have hst : s.world.statement SqlError.unavailable (s.world.db.deleteAuthToken hostname)
    (.ok ()) applied = some s'.world := perform_of_step hl
  rcases statement_eq_some hst with ⟨hworld, hanswer⟩ | ⟨-, -, hlost, -⟩
  · rcases hanswer with hok | ⟨hlost, -⟩
    · rw [hworld]
      exact selectAuthToken_delete (Prod.ext hok.symm rfl)
    · cases hlost
  · cases hlost

/-- A look-up of a token has found what was there. -/
theorem selected_of_step {i : Task} {hostname : Text} {row : Option (Option Text)} {applied : Bool}
    (hl : D.machine.Step s (.call i ⟨.selectAuthToken hostname, .ok row⟩ applied) s') :
    s.world.db.selectAuthToken hostname = row := by
  have hquery : s.world.query (validText hostname)
      (fun row => row = s.world.db.selectAuthToken hostname) (.ok row) = some s'.world :=
    perform_of_step hl
  obtain ⟨-, hok⟩ := query_eq_some hquery
  exact (of_decide_eq_true (hok row rfl).2).symm

/-- A request for the downloads of a version, or to the credentials API. -/
theorem explained_short (hs : D.Reachable s) {answer : Answer}
    (hfin : s.pool (.request n) = .finished answer) (hshort : Short (D.requests n).route) :
    ∃ s₁ s₂, Explained D s n answer s₁ s₂ := by
  have hresult := shortResult_of_finished hs hshort hfin
  generalize hroute : (D.requests n).route = route at hresult
  generalize hh : s.history (.request n) = h at hresult
  cases hresult with
  | malformed p segment err hsegment => exact explained_failed hs hfin (.noVersion _)
  | notListed p segment version err hsegment => exact explained_failed hs hfin (.noVersion _)
  | notUpdated hostname token err msg => exact explained_failed hs hfin (.notDone _ _)
  | notDeleted hostname err msg => exact explained_failed hs hfin (.notDone _ _)
  | notChecked hostname err msg => exact explained_failed hs hfin (.notDone _ _)
  | listed p segment version downloads hsegment =>
    refine explained_of_call hs (hh ▸ List.mem_singleton_self _) fun s₁ s₂ applied hs₁ hl _ => ?_
    refine .stays hs₁ hl (fun m m' h => by cases h) (.version _) ?_
    rw [hroute, asked_version hsegment, downloads_eq_builds (downloads_of_step hl)]
    exact .builds p version.versionPrefix
  | updated hostname token =>
    refine explained_of_call hs (hh ▸ List.mem_singleton_self _) fun s₁ s₂ applied hs₁ hl _ => ?_
    refine .changes .done ?_ (.setToken hostname token applied)
    rw [hroute]
    exact .setToken _ hostname token (changes_of_upsert hs₁ hl (upserted_of_step hl))
  | deleted hostname =>
    refine explained_of_call hs (hh ▸ List.mem_singleton_self _) fun s₁ s₂ applied hs₁ hl _ => ?_
    refine .changes .done ?_ (.forgetToken hostname applied)
    rw [hroute]
    exact .forgetToken _ hostname (changes_of_delete hs₁ hl (deleted_of_step hl))
  | found hostname token =>
    refine explained_of_call hs (hh ▸ List.mem_singleton_self _) fun s₁ s₂ applied hs₁ hl _ => ?_
    refine .stays hs₁ hl (fun m m' h => by cases h) .hasToken ?_
    have hrow := selected_of_step hl
    have htoken : ((mirrorOf D s₁).token hostname).isSome = true := by
      show (tokenOf s₁.world.db hostname).isSome = true
      unfold tokenOf
      rw [hrow]
      cases token with
      | none => exact absurd hrow (token_ne_null hs₁ hostname)
      | some token => rfl
    rw [hroute, ← htoken]
    exact .hasToken hostname
  | notFound hostname =>
    refine explained_of_call hs (hh ▸ List.mem_singleton_self _) fun s₁ s₂ applied hs₁ hl _ => ?_
    refine .stays hs₁ hl (fun m m' h => by cases h) .hasNone ?_
    have hrow := selected_of_step hl
    have htoken : ((mirrorOf D s₁).token hostname).isSome = false := by
      show (tokenOf s₁.world.db hostname).isSome = false
      unfold tokenOf
      rw [hrow]
      rfl
    rw [hroute, ← htoken]
    exact .hasToken hostname

/-! ## Archives -/

/-- A successful upload has updated its row. -/
theorem updated_of_stored {bucketName key : Text} {artifact : Artifact} {stream : Body}
    {tr : List IoEvent}
    (h : StashEnds bucketName key artifact stream tr (.returned (.ok ()))) :
    (⟨.updateArtifact artifact.artifactId artifact.versionId, .ok ()⟩ : IoEvent) ∈ tr := by
  cases h with
  | completed uploadId parts hending hbodies answer result hresult =>
    rw [← hresult.mp rfl]
    simp

/-- The archive behind a redirect was the one of its row when the request read the row, or when it
updated the row itself. -/
theorem explained_redirect (hs : D.Reachable s) {v : ℤ} {response : ArtifactResponse} {key : Text}
    (hroute : (D.requests n).route = .artifact v)
    (hev : (⟨.presign D.bucketName key 120, .ok response.uri⟩ : IoEvent) ∈ s.history (.request n)) :
    ∃ s₁ s₂, Explained D s n (.artifact (.ok response)) s₁ s₂ := by
  have huri := uri_of_presigned hs hev
  have hmeans : ∀ {id : ℕ} {content : Bytes}, key = s3Key D.bucketPrefix id →
      s.world.s3.objects D.bucketName (s3Key D.bucketPrefix id) = some content →
      Says s.world (D.args (D.requests n).instanceId).httpRedirectUrl (.artifact (.ok response))
        (.archive content) := by
    intro id content hkey hobject
    apply Says.archive
    rw [huri, hkey]
    exact hobject
  obtain ⟨h₁, h₂, hh⟩ := List.append_of_mem hev
  have hcall : Deployment.ArtifactCall D n v h₁ (.presign D.bucketName key 120) :=
    artifactCall_of_route hs hroute hh
  have hmem : ∀ ev ∈ h₁, ev ∈ s.history (.request n) := by
    intro ev hin
    rw [hh]
    exact List.mem_append_left _ hin
  generalize hc : Call.presign D.bucketName key 120 = c at hcall
  cases hcall with
  | read => cases hc
  | fetch detail tr c hnone hc' =>
    subst hc
    simp [Fetching, Upstream] at hc'
  | stash detail tr id body tr' c hnone hfetched hstash => cases hstash <;> cases hc
  | redirectKnown detail id hsome =>
    cases hc
    refine explained_of_call hs (hmem _ List.mem_cons_self) fun s₁ s₂ applied hs₁ hl hlater => ?_
    obtain ⟨r, hnames, hid, hartifact⟩ :=
      selectArtifact_eq_some (perform_selectArtifact (perform_of_step hl))
    have hrow : artifactOf s₁.world.db r.id = some id := by
      rw [artifactOf_eq hnames.provider.1, ← hartifact, hsome]
    obtain ⟨content, harchive, hobject⟩ := archive_kept hs₁ (.head ⟨_, trivial, hl⟩ hlater) hrow
    refine .stays hs₁ hl (fun m m' h => by cases h) (hmeans rfl hobject) ?_
    rw [hroute, ← hid]
    exact .archived r.id content harchive
  | redirectNew detail tr id body tr' hnone hfetched hstash =>
    cases hc
    have hupdate : (⟨.updateArtifact id detail.versionId, .ok ()⟩ : IoEvent) ∈
        s.history (.request n) :=
      hmem _ (List.mem_cons_of_mem _ (List.mem_append_right _ (updated_of_stored hstash)))
    refine explained_of_call hs hupdate fun s₁ s₂ applied hs₁ hl hlater => ?_
    have hupdates : Updates detail.versionId
        (.call (.request n) ⟨.updateArtifact id detail.versionId, .ok ()⟩ applied) (.request n) id :=
      .answered _ _ _
    obtain ⟨m, hm, hversion⟩ := route_of_updates hs₁ hl hupdates
    cases hm
    have hs₂ : D.Reachable s₂ := hs₁.tail ⟨_, trivial, hl⟩
    obtain ⟨content, harchive, hobject⟩ :=
      archive_kept hs₂ hlater (artifactOf_of_updates hs₁ hl hupdates)
    obtain ⟨content', hchanges, -⟩ := changes_of_updates hs₁ hl hupdates
    have hcontent : content' = content := by
      cases hchanges with
      | store id content hbuild hstored htoken =>
        have hsame : archiveOf D s₂.world detail.versionId = some content' := by
          show (mirrorOf D s₂).archive detail.versionId = some content'
          rw [hstored, Function.update_self]
        rw [harchive] at hsame
        exact (Option.some.inj hsame).symm
    rw [hcontent] at hchanges
    refine .changes (hmeans rfl hobject) ?_ (.store id detail.versionId content applied)
    rw [hversion]
    exact .stored _ detail.versionId content hchanges

/-- Every finished request for an archive was answered at one moment of its life. -/
theorem explained_artifact (hs : D.Reachable s) {v : ℤ} {answer : Answer}
    (hroute : (D.requests n).route = .artifact v)
    (hfin : s.pool (.request n) = .finished answer) :
    ∃ s₁ s₂, Explained D s n answer s₁ s₂ := by
  obtain ⟨result, rfl, hresult⟩ := artifactResult_of_finished hs hroute hfin
  cases result with
  | ok response =>
    obtain ⟨key, hev⟩ := hresult.presigned response rfl
    exact explained_redirect hs hroute hev
  | error status =>
    by_cases hstatus : status = .notFound
    · subst hstatus
      have hread := ((missingProtocol_obeyed D).sound hs (.request n)).finished _ hfin v hroute rfl
      refine explained_of_call hs hread fun s₁ s₂ applied hs₁ hl _ => ?_
      refine .stays hs₁ hl (fun m m' h => by cases h) .absent ?_
      rw [hroute]
      apply Mirror.Answers.absent
      intro id hid
      show buildOf s₁.world.db id = none
      unfold buildOf
      rw [hid, perform_selectArtifact (perform_of_step hl)]
      rfl
    · exact explained_failed hs hfin (.noArchive status hstatus)

/-! ## Indexes -/

/-- A response that was received had been sent. -/
theorem life_of_received {response : RefreshResponse} (hs : D.Reachable s)
    (hreceived : (⟨.receiveResponse, some response⟩ : IoEvent) ∈ s.history (.request n)) :
    life D n s.trace = .answered response true := by
  obtain ⟨s₁, s₂, applied, hs₁, -, hl, hlater⟩ := Machine.exists_step hs hreceived
  apply answered_later hs₁ (.head ⟨_, trivial, hl⟩ hlater)
  obtain ⟨-, m, hm, hvalue⟩ := perform_receiveResponse (perform_of_step hl)
  cases hm
  have hsent : (s₁.world.channels n).value = .sent response := by
    rcases hvalue with ⟨response', heq, hv⟩ | ⟨heq, -⟩
    · cases heq
      exact hv
    · cases heq
  rw [(tracks_of_reachable hs₁ n).value] at hsent
  cases hlife : life D n s₁.trace with
  | answered response' delivered =>
    rw [hlife] at hsent
    cases delivered with
    | true =>
      cases hsent
      rfl
    | false => cases hsent
  | _ =>
    rw [hlife] at hsent
    cases hsent

/-- While its message is in the hand of the refresher, a request has been started, and has not
finished if it is to receive a response. -/
theorem unfinished_of_inHand {message : RefreshRequest} {p : TerraformProvider}
    {r : Except SqlError (List (Option Text))} {response : RefreshResponse}
    (hs : D.Reachable s) (hlater : D.Leads s s') (hroute : (D.requests n).route = .index p)
    (hlife : life D n s.trace = .inHand message)
    (hh : s'.history (.request n) = [⟨.selectVersions p, r⟩,
      ⟨.sendTimeout (ownMessage n p) 1, .ok ()⟩, ⟨.receiveResponse, some response⟩]) :
    Label.start (.request n) ∈ s.trace ∧ Label.finish (.request n) ∉ s.trace := by
  constructor
  · obtain ⟨p', hsent⟩ := (tracks_of_reachable hs n).sent (by rw [hlife]; simp)
    obtain ⟨s₁, s₂, applied, hwithin⟩ := Machine.within_of_mem hs hsent
    exact (Machine.Run.trace_prefix hwithin.later).subset hwithin.started
  · intro hfin
    obtain ⟨answer, hanswer⟩ := (Machine.staged_of_reachable hs (.request n)).finished.mp hfin
    obtain ⟨result, -, hresult⟩ :=
      ((channelProtocol_obeyed D).sound hs (.request n)).finished answer hanswer p hroute
    have hprefix := Machine.Run.history_prefix hlater (.request n)
    rw [hh] at hprefix
    generalize hbefore : s.history (.request n) = h at hresult hprefix
    cases hresult with
    | cached r index sent hknown => simp at hprefix
    | refused r err hknown => simp at hprefix
    | answered r response' hknown =>
      simp only [List.cons_prefix_cons] at hprefix
      obtain ⟨-, -, hresponse, -⟩ := hprefix
      cases hresponse
      have hreceived : (⟨.receiveResponse, some response⟩ : IoEvent) ∈ s.history (.request n) := by
        rw [hbefore]
        simp
      rw [life_of_received hs hreceived] at hlife
      cases hlife

/-- A fetched index is that of the commit of the refresher. -/
theorem explained_fetched (hs : D.Reachable s) {p : TerraformProvider}
    {r : Except SqlError (List (Option Text))} {versions : ProviderVersions}
    (hroute : (D.requests n).route = .index p)
    (hh : s.history (.request n) = [⟨.selectVersions p, r⟩,
      ⟨.sendTimeout (ownMessage n p) 1, .ok ()⟩,
      ⟨.receiveResponse, some (.refreshPerformed (.ok versions))⟩]) :
    ∃ s₁ s₂, Explained D s n (.index (.ok (.ofProviderVersions versions))) s₁ s₂ := by
  have hreceived : (⟨.receiveResponse, some (.refreshPerformed (.ok versions))⟩ : IoEvent) ∈
      s.history (.request n) := by simp [hh]
  obtain ⟨p', before, tr, after, hroute', hhistory, hown, -⟩ := received_responded hs hreceived
  rw [hroute] at hroute'
  cases hroute'
  obtain ⟨hworking, rows, hstore⟩ := hown.stores
  obtain ⟨tr₁, tr₂, rfl⟩ := List.append_of_mem hstore
  have hsplit : s.history (.refresher (D.requests n).instanceId) =
      During before (ownMessage n p) tr₁ ++
        (⟨.storeProviderVersions p versions, .ok rows⟩ : IoEvent) ::
          (tr₂ ++ ⟨.respond n (.refreshPerformed (.ok versions)), true⟩ :: after) := by
    rw [hhistory]
    simp [During]
  obtain ⟨s₁, s₂, applied, hs₁, -, hl, hlater, hbefore⟩ := Machine.exists_step_after hs hsplit
  have hhand : inHand (s₁.history (.refresher (D.requests n).instanceId)) =
      some (ownMessage n p) := by
    rw [hbefore]
    exact inHand_during fun ev hev => hworking ev (List.mem_append_left _ hev)
  obtain ⟨-, hlife⟩ := ((tracks_of_reachable hs₁ n).hand _ _).mp ⟨hhand, rfl⟩
  obtain ⟨hstarted, hunfinished⟩ :=
    unfinished_of_inHand hs₁ (.head ⟨_, trivial, hl⟩ hlater) hroute hlife hh
  refine ⟨s₁, s₂, _, ⟨hs₁, trivial, hl, hlater, ?_, hunfinished⟩, ?_⟩
  · rw [hl.trace]
    exact List.mem_append_left _ hstarted
  · refine .changes (.index _) ?_ (.publish p versions rows applied hhand)
    have hlisted : {v | v ∈ versionSet (.ofProviderVersions versions)} =
        (announcement versions).versions := Set.ext fun v => mem_versionSet_insertAll
    rw [hroute, hlisted]
    rcases perform_store (i := .refresher (D.requests n).instanceId) (perform_of_step hl) with
      ⟨-, -, pid, new, hstored⟩ | ⟨hno, -⟩
    · exact .announced _ p _ (changes_of_stored hs₁ hl hstored)
    · exact absurd ⟨_, _, _, rfl, .inl ⟨rows, rfl⟩⟩ hno

/-- Every finished request for an index was answered at one moment of its life. -/
theorem explained_index (hs : D.Reachable s) {p : TerraformProvider} {answer : Answer}
    (hroute : (D.requests n).route = .index p)
    (hfin : s.pool (.request n) = .finished answer) :
    ∃ s₁ s₂, Explained D s n answer s₁ s₂ := by
  obtain ⟨result, rfl, hresult⟩ :=
    ((channelProtocol_obeyed D).sound hs (.request n)).finished answer hfin p hroute
  generalize hh : s.history (.request n) = h at hresult
  cases hresult with
  | refused r err hknown => exact explained_failed hs hfin (.noIndex _)
  | cached r index sent hknown =>
    obtain ⟨rows, rfl, hindex⟩ := hknown
    have hread : (⟨.selectVersions p, .ok rows⟩ : IoEvent) ∈ s.history (.request n) := by
      rw [hh]
      exact List.mem_cons_self
    refine explained_of_call hs hread fun s₁ s₂ applied hs₁ hl _ => ?_
    refine .stays hs₁ hl (fun m m' h => by cases h) (.index index) ?_
    rw [hroute]
    rcases ofRows_eq (perform_selectVersions (perform_of_step hl)) with
      ⟨hnone, -⟩ | ⟨index', hindex', hne, hset⟩
    · rw [hindex] at hnone
      cases hnone
    · rw [hindex] at hindex'
      cases hindex'
      rw [← offers_mirrorOf D s₁] at hne hset
      have heq : {v | v ∈ versionSet index} =
          {v | ∃ t ∈ (mirrorOf D s₁).offers p, t.version = v} := Set.ext hset
      rw [heq]
      exact .listed p hne
  | answered r response hknown =>
    cases response with
    | none => exact explained_failed hs hfin (.noIndex _)
    | some response =>
      cases response with
      | providerVersionNotStale => exact explained_failed hs hfin (.noIndex _)
      | refreshPerformed outcome =>
        cases outcome with
        | error err => exact explained_failed hs hfin (.noIndex _)
        | ok versions => exact explained_fetched hs hroute hh

/-! ## The main result -/

/-- **Every finished request was answered at one moment of its life.** -/
theorem explained_of_finished (hs : D.Reachable s) {answer : Answer}
    (hfin : s.pool (.request n) = .finished answer) :
    ∃ s₁ s₂, Explained D s n answer s₁ s₂ := by
  cases hroute : (D.requests n).route with
  | index p => exact explained_index hs hroute hfin
  | artifact v => exact explained_artifact hs hroute hfin
  | _ => exact explained_short hs hfin (by rw [hroute]; trivial)

end Requests

/-- The moments at which the finished requests were answered: each within the life of its request,
and in the order of time where one request had finished before another was started. -/
structure Linearization (D : Deployment) (s : DeploymentState) (before after : ℕ → DeploymentState) :
    Prop where
  explained : ∀ n answer, s.pool (.request n) = .finished answer →
    Explained D s n answer (before n) (after n)
  ordered : ∀ m n answer answer' past future, s.pool (.request m) = .finished answer →
    s.pool (.request n) = .finished answer' → s.trace = past ++ future →
    Label.finish (.request m) ∈ past → Label.start (.request n) ∉ past →
    D.Leads (after m) (before n)

/-- **All instances together answer like one mirror that takes one request after the other.** -/
theorem mirror_linearizable (D : Deployment) (s : DeploymentState) (hs : D.Reachable s) :
    ∃ before after, Linearization D s before after := by
  have hall : ∀ n, ∃ s₁ s₂, ∀ answer, s.pool (.request n) = .finished answer →
      Explained D s n answer s₁ s₂ := by
    intro n
    cases hpool : s.pool (.request n) with
    | finished answer =>
      obtain ⟨s₁, s₂, hexplained⟩ := explained_of_finished hs hpool
      refine ⟨s₁, s₂, ?_⟩
      rintro answer' ⟨⟩
      exact hexplained
    | _ => exact ⟨s, s, fun answer h => by cases h⟩
  choose before after hexplained using hall
  refine ⟨before, after, hexplained, ?_⟩
  intro m n answer answer' past future hm hn htrace hfinished hstarted
  obtain ⟨l, hfirst, -⟩ := (hexplained m answer hm).moment
  obtain ⟨l', hsecond, -⟩ := (hexplained n answer' hn).moment
  exact hfirst.before hsecond htrace hfinished hstarted

/-- The first two requests: the one that has the versions fetched, and the one that has the archive
stored. -/
theorem mirror_linearizable_stored : ∃ s before after, archiveDeployment.Reachable s ∧
    (s.pool (.request 0) = .finished (.index (.ok (.ofProviderVersions builtVersions))) ∧
      s.pool (.request 1) = .finished (.artifact (.ok { uri :=
        { bucket := "terrashine".toList, key := s3Key [] 1, expiresIn := 120 } }))) ∧
    Linearization archiveDeployment s before after := by
  obtain ⟨s, hs, hview⟩ : ∃ s, archiveDeployment.Reachable s ∧
      (s.pool (.request 0), s.pool (.request 1)) =
        (.finished (.index (.ok (.ofProviderVersions builtVersions))),
          .finished (.artifact (.ok { uri :=
            { bucket := "terrashine".toList, key := s3Key [] 1, expiresIn := 120 } }))) :=
    Machine.exists_run_of_play
      (fun s : DeploymentState => (s.pool (.request 0), s.pool (.request 1)))
      (versionStored ++ [answered (.request 0) .receiveResponse
          (some (.refreshPerformed (.ok builtVersions))), .finish (.request 0)] ++
        readsNone 1 ++ downloads 1 1 ++ stores 1 1 1) rfl
  obtain ⟨before, after, hlinear⟩ := mirror_linearizable archiveDeployment s hs
  obtain ⟨hindex, hartifact⟩ := Prod.mk.inj hview
  exact ⟨s, before, after, hs, ⟨hindex, hartifact⟩, hlinear⟩

end Terrashine.Analysis
