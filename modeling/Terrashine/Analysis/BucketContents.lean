import Terrashine.Analysis.ServedArtifacts

/-!
# Everything in the bucket

The rows of the database name complete archives, but the bucket also holds what no row names: the
object of a request that failed after its completion, or whose row another request has overwritten.
Those are complete archives too, since a completion is only asked for when the whole body is
uploaded (`whole_of_runs`).  And an upload that is still open belongs to a request that has not
redirected to it, or nobody was told that it was created: `bucket_accounted`.
-/

set_option autoImplicit false

namespace Terrashine.Analysis

open Terrashine.Library Terrashine.Model Terrashine.Interface

/-! ## Completions -/

/-- The request for the completion of an upload, after the calls `tr`: all of the stream has been
uploaded, and the entries list its parts. -/
structure WholeUpload (bucketName key : Text) (stream : Body) (uploadId : ℕ)
    (entries : List CompletedPart) (parts : List (Bytes × Text)) (tr : List IoEvent) : Prop where
  calls : tr = ⟨.createMultipartUpload bucketName key, .ok (some uploadId)⟩ ::
    uploadEvents ⟨bucketName, key, uploadId⟩ 1 parts
  listed : entries = listed 1 parts
  ending : stream.ending = .complete
  whole : (parts.map Prod.fst).flatten = stream.chunks.flatten

section Stash

variable {bucketName bucketPrefix key : Text} {artifact : Artifact} {stream : Body}
  {tr₁ tr₂ : List IoEvent}

/-- No upload of a part is a completion. -/
theorem completion_not_mem_uploadEvents {target : UploadTarget} {n : ℕ}
    {parts : List (Bytes × Text)} {bucket key' : Text} {uploadId : ℕ}
    {entries : List CompletedPart} {r : Except S3Error Unit} :
    (⟨.completeMultipartUpload bucket key' uploadId entries, r⟩ : IoEvent) ∉
      uploadEvents target n parts := by
  intro hmem
  obtain ⟨m, body, hev⟩ := call_of_mem_uploadEvents hmem
  cases hev

/-- An upload that has been cut short is not completed. -/
theorem not_mem_cutShort {target : UploadTarget} {n : ℕ} {tr : List IoEvent}
    (h : CutShort target n tr) {bucket : Text} {uploadId : ℕ} {entries : List CompletedPart}
    {r : Except S3Error Unit} :
    (⟨.completeMultipartUpload bucket key uploadId entries, r⟩ : IoEvent) ∉ tr := by
  intro hmem
  cases h with
  | aborted parts r' =>
    rcases List.mem_append.mp hmem with hmem | hmem
    · exact completion_not_mem_uploadEvents hmem
    · simp at hmem
  | refused parts body r' hr =>
    rcases List.mem_append.mp hmem with hmem | hmem
    · exact completion_not_mem_uploadEvents hmem
    · simp at hmem

/-- A completion that succeeds. -/
theorem whole_of_ends {bucket' key' : Text} {uploadId : ℕ} {entries : List CompletedPart}
    {out : Outcome (Except AnyhowError Unit)}
    (h : StashEnds bucketName key artifact stream
      (tr₁ ++ ⟨.completeMultipartUpload bucket' key' uploadId entries, .ok ()⟩ :: tr₂) out) :
    bucket' = bucketName ∧ key' = key ∧
      ∃ parts, WholeUpload bucketName key stream uploadId entries parts tr₁ := by
  have hmem : (⟨.completeMultipartUpload bucket' key' uploadId entries, .ok ()⟩ : IoEvent) ∈
      tr₁ ++ ⟨.completeMultipartUpload bucket' key' uploadId entries, .ok ()⟩ :: tr₂ := by simp
  generalize htr : tr₁ ++ ⟨.completeMultipartUpload bucket' key' uploadId entries, .ok ()⟩ :: tr₂ =
    tr at h hmem
  cases h with
  | notCreated r hr err => simp at hmem
  | cutShort uploadId' tr hcut err =>
    rcases List.mem_cons.mp hmem with hmem | hmem
    · cases hmem
    · exact absurd hmem (not_mem_cutShort hcut)
  | notCompleted uploadId' parts source err =>
    rcases List.mem_cons.mp hmem with hmem | hmem
    · cases hmem
    rcases List.mem_append.mp hmem with hmem | hmem
    · exact absurd hmem completion_not_mem_uploadEvents
    · simp at hmem
  | completed uploadId' parts hending hbodies r result hresult =>
    cases tr₁ with
    | nil =>
      obtain ⟨hev, -⟩ := List.cons_eq_cons.mp htr
      cases hev
    | cons first t =>
      obtain ⟨rfl, htr'⟩ := List.cons_eq_cons.mp htr
      rcases split_uploadEvents htr'.symm with ⟨done, body, -, hev⟩ | ⟨rest, rfl, hrest⟩
      · cases hev
      cases rest with
      | nil =>
        obtain ⟨hev, -⟩ := List.cons_eq_cons.mp hrest
        cases hev
        refine ⟨rfl, rfl, parts, by rw [List.append_nil], rfl, hending, ?_⟩
        rw [hbodies, Chunking.flatten_parts]
      | cons second rest =>
        obtain ⟨-, hrest'⟩ := List.cons_eq_cons.mp hrest
        obtain ⟨-, hev⟩ := eq_of_singleton hrest'
        cases hev

/-- **A completion is only asked for when the whole stream is uploaded**, whatever becomes of
it. -/
theorem whole_of_runs {bucket' key' : Text} {uploadId : ℕ} {entries : List CompletedPart}
    {r : Except S3Error Unit} {out : Outcome (Except AnyhowError Unit)}
    (hr : Prog.Runs (stashArtifact bucketName bucketPrefix artifact stream).run
      (tr₁ ++ ⟨.completeMultipartUpload bucket' key' uploadId entries, r⟩ :: tr₂) out) :
    bucket' = bucketName ∧ key' = artifact.toS3Key bucketPrefix ∧
      ∃ parts, WholeUpload bucketName (artifact.toS3Key bucketPrefix) stream uploadId entries parts
        tr₁ := by
  -- had it succeeded, the run would be that of a whole upload
  obtain ⟨tr₂', out', hr'⟩ := Prog.runs_reanswer Call.usual hr (.ok ())
  exact whole_of_ends (stashArtifact_ends hr')

end Stash

/-! ## The requests for artifacts -/

/-- The request for an artifact asks for a completion only when it has uploaded all that it has
downloaded, under the key of the id that it has drawn. -/
def WholeCall (deps : Externals) (port : ℕ) (bucketName bucketPrefix : Text) (versionId : ℤ)
    (h : List IoEvent) (c : Call) : Prop :=
  ∀ bucket key uploadId entries, c = .completeMultipartUpload bucket key uploadId entries →
    ∃ detail tr id body parts tr', bucket = bucketName ∧ key = s3Key bucketPrefix id ∧
      h = ⟨.selectArtifact versionId, .ok (some detail)⟩ :: (tr ++ tr') ∧
      Fetched deps port detail tr id body ∧
      WholeUpload bucketName key body uploadId entries parts tr'

section Handler

variable {deps : Externals} {port : ℕ} {bucketName bucketPrefix : Text} {versionId : ℤ}

/-- The condition only bears on calls that complete an upload. -/
theorem wholeCall_of_ne {h : List IoEvent} {c : Call}
    (hc : ∀ bucket key uploadId entries, c ≠ .completeMultipartUpload bucket key uploadId entries) :
    WholeCall deps port bucketName bucketPrefix versionId h c :=
  fun bucket key uploadId entries heq => absurd heq (hc bucket key uploadId entries)

/-- A call that fetches completes no upload. -/
theorem wholeCall_of_fetching {h : List IoEvent} {c : Call} (hc : Fetching c) :
    WholeCall deps port bucketName bucketPrefix versionId h c := by
  apply wholeCall_of_ne
  rintro bucket key uploadId entries rfl
  simp [Fetching, Upstream] at hc

/-- The redirect completes nothing. -/
theorem wp_redirect_whole (artifact : Artifact) (h : List IoEvent) :
    (redirect bucketName bucketPrefix artifact).run.wp
      (WholeCall deps port bucketName bucketPrefix versionId) (fun _ _ => True) h := by
  have hwp : (redirect bucketName bucketPrefix artifact).run.wp
      (WholeCall deps port bucketName bucketPrefix versionId)
      (fun result h' => ArtifactResult bucketName versionId h' result) h := by
    apply wp_redirect
    apply wholeCall_of_ne
    intro bucket key uploadId entries heq
    cases heq
  exact Prog.wp_mono _ hwp fun _ _ _ _ => trivial

/-- The two halves of the download, when both have succeeded. -/
theorem fetched_of_runs {detail : ArtifactDetails} {tr : List IoEvent} {id : ℕ} {body : Body}
    (hr : Prog.Runs (Prog.tryJoin
      (tryCall (fun _ => StatusCode.internalServerError) allocateArtifactId.run).run
      (tryCall (fun _ => StatusCode.badGateway)
        (getUpstream deps (databaseRegistry port) detail).run).run) tr (.returned (.ok (id, body))))
    (hcalls : ∀ ev ∈ tr, Fetching ev.1) : Fetched deps port detail tr id body := by
  obtain ⟨tr₁, tr₂, hid, hbody, hsub₁, hsub₂⟩ := Prog.runs_tryJoin _ _ _ _ _ hr
  refine ⟨hcalls, ?_, tr₂, runs_tryCall_ok hbody, hsub₂⟩
  obtain ⟨r, tr', rfl, hdone⟩ := Prog.runs_call_iff.mp (runs_tryCall_ok (runs_tryCall_ok hid))
  obtain ⟨rfl, hout⟩ := Prog.runs_done_iff.mp hdone
  cases hout
  exact hsub₁.subset (List.mem_singleton_self _)

/-- A request that fetches completes the upload of all that it has downloaded, and no other one. -/
theorem wp_fetchArtifact_whole (detail : ArtifactDetails) :
    (fetchArtifact deps (databaseRegistry port) bucketName bucketPrefix detail).run.wp
      (WholeCall deps port bucketName bucketPrefix versionId) (fun _ _ => True)
      [⟨.selectArtifact versionId, .ok (some detail)⟩] := by
  have hjoin : (Prog.tryJoin
      (tryCall (fun _ => StatusCode.internalServerError) allocateArtifactId.run).run
      (tryCall (fun _ => StatusCode.badGateway)
        (getUpstream deps (databaseRegistry port) detail).run).run).Calls Fetching := by
    apply Prog.calls_tryJoin
    · exact calls_tryCall (calls_tryCall ((Prog.calls_perform _ _).mpr (.inl rfl)))
    · refine calls_tryCall (Prog.calls_mono ?_ (calls_getUpstream deps port detail))
      exact fun c hc => .inr hc
  unfold fetchArtifact
  rw [Prog.wp_run_bind, ExceptT.run_mk]
  refine Prog.wp_mono _
    (Prog.wp_of_calls hjoin _ fun tr c _ hc => wholeCall_of_fetching hc) ?_
  rintro r h - ⟨tr, rfl, hr, hcalls⟩
  cases r with
  | error err => trivial
  | ok found =>
    obtain ⟨id, body⟩ := found
    have hfetched := fetched_of_runs hr hcalls
    dsimp only
    rw [Prog.wp_run_bind, wp_tryCall]
    refine Prog.wp_of_runs Call.usual ?_ ?_
    · rintro tr' out tr₁ ev tr₂ hr' rfl bucket key uploadId entries hev
      obtain ⟨c, r⟩ := ev
      cases hev
      obtain ⟨rfl, rfl, parts, hwhole⟩ := whole_of_runs hr'
      exact ⟨detail, tr, id, body, parts, tr₁, rfl, rfl, by simp, hfetched, hwhole⟩
    · intro tr' result hr'
      cases result with
      | error err => trivial
      | ok u => exact (Prog.wp_pure _).mpr trivial

/-- The handler of the artifacts completes an upload only with all the parts of a complete
archive. -/
theorem wp_artifactsHandler_whole :
    (artifactsHandler deps (databaseRegistry port) bucketName bucketPrefix versionId).run.wp
      (WholeCall deps port bucketName bucketPrefix versionId) (fun _ _ => True) [] := by
  unfold artifactsHandler getArtifactFromDatabase
  rw [Prog.wp_run_bind, wp_tryCall, wp_tryCall, perform_def, Prog.wp_call]
  have hread : WholeCall deps port bucketName bucketPrefix versionId []
      (.selectArtifact versionId) := by
    apply wholeCall_of_ne
    intro bucket key uploadId entries heq
    cases heq
  refine ⟨hread, fun r => (Prog.wp_done r).mpr ?_⟩
  rw [List.nil_append]
  cases r with
  | error err => trivial
  | ok found =>
    cases found with
    | none => exact (Prog.wp_done _).mpr trivial
    | some detail =>
      dsimp only
      cases hid : detail.artifactId with
      | some id => exact wp_redirect_whole _ _
      | none =>
        dsimp only
        rw [Prog.wp_run_bind]
        refine Prog.wp_mono _ (wp_fetchArtifact_whole detail) ?_
        rintro result h - -
        cases result with
        | error err => trivial
        | ok artifact => exact wp_redirect_whole _ _

end Handler

/-- Every artifact request of the deployment keeps to it. -/
def wholeProtocol (D : Deployment) : Machine.Protocol Task Call Call.Ret Answer where
  allows i h c := match i with
    | .request n => ∀ v, (D.requests n).route = .artifact v →
        WholeCall D.deps (D.args (D.requests n).instanceId).upstreamRegistryPort D.bucketName
          D.bucketPrefix v h c
    | _ => True
  ensures _ _ _ := True

/-- Every task completes uploads only with whole archives. -/
theorem wholeProtocol_obeyed (D : Deployment) : D.machine.Obeys (wholeProtocol D) := by
  constructor
  · intro i
    cases i with
    | request n =>
      show (D.handler n).wp _ _ []
      by_cases hartifact : ∃ v, (D.requests n).route = .artifact v
      · obtain ⟨v, hv⟩ := hartifact
        have hhandler : (D.handler n).wp (WholeCall D.deps
            (D.args (D.requests n).instanceId).upstreamRegistryPort D.bucketName D.bucketPrefix v)
            (fun _ _ => True) [] := by
          unfold Deployment.handler
          rw [hv]
          dsimp only
          rw [D.sameBucket, D.samePrefix, Prog.wp_map]
          exact wp_artifactsHandler_whole
        refine Prog.wp_weaken _ hhandler ?_
        intro h c hcall v' hv'
        rw [hv] at hv'
        cases hv'
        exact hcall
      · push Not at hartifact
        exact Prog.wp_trivial (fun h c v hv => absurd hv (hartifact v)) (fun _ _ => trivial) _
    | refresher k => exact Prog.wp_trivial (fun _ _ => trivial) (fun _ _ => trivial) _
    | server k => exact Prog.wp_trivial (fun _ _ => trivial) (fun _ _ => trivial) _
  · intro i a p h _ hagain
    cases i with
    | request n => cases hagain
    | refresher k => exact Prog.wp_trivial (fun _ _ => trivial) (fun _ _ => trivial) _
    | server k => exact Prog.wp_trivial (fun _ _ => trivial) (fun _ _ => trivial) _

/-! ## Objects -/

/-- The content is the whole body that request `n` has downloaded for the version that it has read,
and the key is that of the id that it has drawn. -/
def IsArchive (D : Deployment) (s : DeploymentState) (n : ℕ) (key : Text) (content : Bytes) :
    Prop :=
  ∃ v detail id tr body, (D.requests n).route = .artifact v ∧
    (⟨.selectArtifact v, .ok (some detail)⟩ : IoEvent) ∈ s.history (.request n) ∧
    Fetched D.deps (D.args (D.requests n).instanceId).upstreamRegistryPort detail tr id body ∧
    tr.Sublist (s.history (.request n)) ∧ body.ending = .complete ∧
    content = body.chunks.flatten ∧ key = s3Key D.bucketPrefix id

section Objects

variable {D : Deployment} {s s' : DeploymentState} {l : DeploymentLabel} {n m : ℕ}
  {bucket key : Text} {content : Bytes}

/-- What was downloaded for a key stays what was downloaded for it. -/
theorem IsArchive.later (h : IsArchive D s n key content) (hl : D.machine.Step s l s') :
    IsArchive D s' n key content := by
  obtain ⟨v, detail, id, tr, body, hroute, hread, hfetched, hsub, hrest⟩ := h
  have hextends := history_extends hl (.request n)
  exact ⟨v, detail, id, tr, body, hroute, hextends.subset hread, hfetched,
    hsub.trans hextends.sublist, hrest⟩

/-- Nobody else has drawn the id of the key. -/
theorem IsArchive.owner (hs : D.Reachable s) (h : IsArchive D s n key content)
    (h' : IsArchive D s m key content) : m = n := by
  obtain ⟨v, detail, id, tr, body, -, -, hfetched, hsub, -, -, rfl⟩ := h
  obtain ⟨v', detail', id', tr', body', -, -, hfetched', hsub', -, -, hkey⟩ := h'
  obtain rfl := s3Key_injective D.bucketPrefix hkey
  have howner := (issues_artifactIds D).owner hs (hsub'.subset hfetched'.drawn) rfl
    (hsub.subset hfetched.drawn) rfl
  cases howner
  rfl

/-- A completion makes an archive. -/
theorem isArchive_of_completion (hs : D.Reachable s) {i : Task} {uploadId : ℕ}
    {entries : List CompletedPart} {r : Except S3Error Unit} {applied : Bool}
    (hl : D.machine.Step s
      (.call i ⟨.completeMultipartUpload bucket key uploadId entries, r⟩ applied) s')
    (hcomplete : s.world.s3.complete bucket key uploadId entries = some s'.world.s3)
    (hobject : s'.world.s3.objects bucket key = some content) :
    bucket = D.bucketName ∧ ∃ n, IsArchive D s' n key content := by
  have hs' : D.Reachable s' := hs.tail ⟨_, trivial, hl⟩
  obtain ⟨n, v, rfl, hroute, -⟩ := artifactCall_of_stores hs' (history_self hl) rfl
  have hwhole :=
    (wholeProtocol_obeyed D).allowed_step hs hl v hroute bucket key uploadId entries rfl
  obtain ⟨detail, tr, id, body, parts, tr', rfl, rfl, hhistory, hfetched, hwhole⟩ := hwhole
  rw [hwhole.calls, ← List.cons_append] at hhistory
  have hopen := upload_of_reachable hs hhistory
  obtain ⟨upload, made, hupload, hmade, heq⟩ := complete_eq_some hcomplete
  obtain ⟨hsome, -, -⟩ := openUpload_eq_some.mp hupload
  rw [hopen] at hsome
  cases hsome
  rw [hwhole.listed, assemble_listed, hwhole.whole] at hmade
  cases hmade
  rw [heq] at hobject
  simp only [Function.update_self, Option.some.injEq] at hobject
  refine ⟨rfl, n, v, detail, id, tr, body, hroute, ?_, hfetched, ?_, hwhole.ending, hobject.symm,
    rfl⟩
  · rw [history_self hl, hhistory]
    simp
  · rw [history_self hl, hhistory, List.cons_append, List.cons_append, List.append_assoc]
    exact (List.sublist_append_left _ _).cons _

/-- **Every object is a whole archive.** -/
theorem isArchive_of_object (hs : D.Reachable s)
    (hobject : s.world.s3.objects bucket key = some content) :
    bucket = D.bucketName ∧ ∃ n, IsArchive D s n key content := by
  revert bucket key content
  refine Machine.invariant (I := fun s => ∀ {bucket key content},
    s.world.s3.objects bucket key = some content →
      bucket = D.bucketName ∧ ∃ n, IsArchive D s n key content) ?_ ?_ hs
  · intro bucket key content hobject
    cases hobject
  · intro s l s' hs ih _ hl bucket key content hobject
    have hkept : s'.world.s3.objects bucket key = s.world.s3.objects bucket key →
        bucket = D.bucketName ∧ ∃ n, IsArchive D s' n key content := by
      intro heq
      rw [heq] at hobject
      obtain ⟨hbucket, n, harchive⟩ := ih hobject
      exact ⟨hbucket, n, harchive.later hl⟩
    rcases step_cases hl with ⟨i, ⟨c, r⟩, applied, rfl, hw⟩ | hq
    · have hstorage := perform_storage hw
      by_cases hc : ∃ uploadId entries, c = .completeMultipartUpload bucket key uploadId entries
      · obtain ⟨uploadId, entries, rfl⟩ := hc
        generalize hafter : s'.world.s3 = after at hstorage
        cases hstorage with
        | same => exact hkept (by rw [hafter])
        | completes bucket key uploadId entries after hcomplete =>
          rw [← hafter] at hcomplete
          exact isArchive_of_completion hs hl hcomplete hobject
      · exact hkept (hstorage.objects fun uploadId entries heq => hc ⟨uploadId, entries, heq⟩)
    · exact hkept (by rw [hq.s3])

end Objects

/-! ## Open uploads -/

/-- Request `n` has created the upload, and neither completed nor aborted it. -/
structure Unfinished (s : DeploymentState) (n uploadId : ℕ) : Prop where
  created : ∃ bucket key, (⟨.createMultipartUpload bucket key, .ok (some uploadId)⟩ : IoEvent) ∈
    s.history (.request n)
  notCompleted : ∀ bucket key entries,
    (⟨.completeMultipartUpload bucket key uploadId entries, .ok ()⟩ : IoEvent) ∉
      s.history (.request n)
  notAborted : ∀ bucket key, (⟨.abortMultipartUpload bucket key uploadId, .ok ()⟩ : IoEvent) ∉
    s.history (.request n)

/-- The upload has no parts, and the request that created it was not told its id. -/
structure Forgotten (s : DeploymentState) (uploadId : ℕ) (upload : Upload) : Prop where
  empty : upload.parts = []
  unknown : ∀ i, ∀ ev ∈ s.history i, createdUpload ev ≠ some uploadId
  lost : ∃ i r, (⟨.createMultipartUpload upload.bucket upload.key, r⟩ : IoEvent) ∈ s.history i ∧
    ∀ id, r ≠ .ok (some id)

section Storage

variable {s s' : ObjectStorage} {c : Call} {uploadId : ℕ} {upload : Upload}

/-- An upload that is open has been open before, or was created with this step. -/
theorem StorageStep.opened (h : StorageStep s c s') (hopen : s'.uploads uploadId = some upload) :
    (∃ before, s.uploads uploadId = some before) ∨
    uploadId = s.nextUpload ∧ uploadId < s'.nextUpload ∧
      c = .createMultipartUpload upload.bucket upload.key ∧ upload.parts = [] := by
  have hother : ∀ (uploadId' : ℕ) (u : Option Upload), uploadId ≠ uploadId' →
      Function.update s.uploads uploadId' u uploadId = some upload →
        ∃ before, s.uploads uploadId = some before := by
    intro uploadId' u hne heq
    rw [Function.update_of_ne hne] at heq
    exact ⟨upload, heq⟩
  cases h with
  | same => exact .inl ⟨upload, hopen⟩
  | creates bucket key =>
    by_cases hid : uploadId = s.nextUpload
    · subst hid
      right
      have hcreated : (s.create bucket key).uploads s.nextUpload =
          some { bucket := bucket, key := key, parts := [] } := Function.update_self _ _ _
      rw [hcreated] at hopen
      cases hopen
      exact ⟨rfl, Nat.lt_succ_self _, rfl, rfl⟩
    · exact .inl (hother _ _ hid hopen)
  | puts bucket key uploadId' partNumber body eTag s' h =>
    obtain ⟨before, hbefore, rfl⟩ := putPart_eq_some h
    by_cases hid : uploadId = uploadId'
    · subst hid
      exact .inl ⟨before, (openUpload_eq_some.mp hbefore).1⟩
    · exact .inl (hother _ _ hid hopen)
  | aborts bucket key uploadId' s' h =>
    obtain ⟨before, hbefore, rfl⟩ := Option.map_eq_some_iff.mp h
    by_cases hid : uploadId = uploadId'
    · subst hid
      exact .inl ⟨before, (openUpload_eq_some.mp hbefore).1⟩
    · exact .inl (hother _ _ hid hopen)
  | completes bucket key uploadId' entries s' h =>
    obtain ⟨before, content, hbefore, -, rfl⟩ := complete_eq_some h
    by_cases hid : uploadId = uploadId'
    · subst hid
      exact .inl ⟨before, (openUpload_eq_some.mp hbefore).1⟩
    · exact .inl (hother _ _ hid hopen)

end Storage

section Uploads

variable {D : Deployment} {s s' : DeploymentState} {l : DeploymentLabel} {n uploadId : ℕ}
  {upload : Upload} {i : Task}

/-- Who uses an upload was told its id before. -/
theorem known_of_used (hs : D.Reachable s) {h₁ h₂ : List IoEvent} {ev : IoEvent}
    (hh : s.history i = h₁ ++ ev :: h₂) (hused : usedUpload ev.1 = some uploadId) :
    ∃ ev' ∈ h₁, createdUpload ev' = some uploadId := by
  have hstores : storesArtifact ev.1 = true := by
    obtain ⟨c, r⟩ := ev
    cases c <;> first | rfl | cases hused
  obtain ⟨m, v, rfl, -, hcall⟩ := artifactCall_of_stores hs hh hstores
  obtain ⟨bucket, key, hmem⟩ := created_of_used hcall hused
  exact ⟨_, hmem, rfl⟩

/-- Nobody has used an upload that is only created now. -/
theorem not_used_of_next (hs : D.Reachable s) {ev : IoEvent} (hev : ev ∈ s.history i) :
    usedUpload ev.1 ≠ some s.world.s3.nextUpload := by
  intro hused
  obtain ⟨h₁, h₂, hh⟩ := List.append_of_mem hev
  obtain ⟨ev', hev', hcreated⟩ := known_of_used hs hh hused
  have hmem : ev' ∈ s.history i := by
    rw [hh]
    exact List.mem_append_left _ hev'
  exact absurd ((issues_uploads D).lt hs hmem hcreated) (Nat.lt_irrefl _)

/-- The upload is gone after a completion or an abort that succeeded. -/
theorem Unfinished.later (h : Unfinished s n uploadId) (hl : D.machine.Step s l s')
    (hopen : s'.world.s3.uploads uploadId = some upload) : Unfinished s' n uploadId := by
  obtain ⟨bucket, key, hcreated⟩ := h.created
  refine ⟨⟨bucket, key, (history_extends hl _).subset hcreated⟩, ?_, ?_⟩
  · intro bucket' key' entries hmem
    obtain ⟨applied, rfl⟩ :=
      (hl.mem_history hmem).resolve_left (h.notCompleted bucket' key' entries)
    obtain ⟨before, content, -, -, heq⟩ :=
      complete_eq_some (perform_complete_ok (perform_of_step hl))
    rw [heq] at hopen
    simp at hopen
  · intro bucket' key' hmem
    obtain ⟨applied, rfl⟩ := (hl.mem_history hmem).resolve_left (h.notAborted bucket' key')
    have hstorage : s.world.storage (s.world.s3.abort bucket' key' uploadId)
        (.ok () : Except S3Error Unit) applied = some s'.world := perform_of_step hl
    obtain ⟨before, -, heq⟩ := Option.map_eq_some_iff.mp (storage_ok hstorage)
    rw [← heq] at hopen
    simp at hopen

/-- Nobody can use an upload whose id he does not know. -/
theorem Forgotten.later (hs : D.Reachable s) (h : Forgotten s uploadId upload)
    (hold : uploadId < s.world.s3.nextUpload) (hl : D.machine.Step s l s') :
    Forgotten s' uploadId upload ∧ s'.world.s3.uploads uploadId = s.world.s3.uploads uploadId := by
  have hs' : D.Reachable s' := hs.tail ⟨l, trivial, hl⟩
  obtain ⟨i, r, hlost, hr⟩ := h.lost
  refine ⟨⟨h.empty, fun j ev hev hcreated => ?_, i, r, (history_extends hl i).subset hlost, hr⟩, ?_⟩
  · rcases hl.mem_history hev with hev | ⟨applied, rfl⟩
    · exact h.unknown j ev hev hcreated
    · -- a new upload gets a new id
      obtain ⟨hnext, -⟩ := (issues_uploads D).fresh s j ev applied s' uploadId hl hcreated
      omega
  · rcases step_cases hl with ⟨j, ev, applied, rfl, hw⟩ | hq
    · apply (perform_storage hw).uploads _ hold
      intro hused
      obtain ⟨ev', hev', hcreated⟩ := known_of_used hs' (history_self hl) hused
      exact h.unknown j ev' hev' hcreated
    · rw [hq.s3]

/-- An upload that was created with this step. -/
theorem opened_of_create (hs : D.Reachable s) {bucket key : Text}
    {r : (Call.createMultipartUpload bucket key).Ret} {applied : Bool}
    (hl : D.machine.Step s (.call i ⟨.createMultipartUpload bucket key, r⟩ applied) s')
    (hbucket : bucket = upload.bucket) (hkey : key = upload.key) (hempty : upload.parts = []) :
    (∃ n, Unfinished s' n s.world.s3.nextUpload) ∨ Forgotten s' s.world.s3.nextUpload upload := by
  have hs' : D.Reachable s' := hs.tail ⟨_, trivial, hl⟩
  have hmem : (⟨.createMultipartUpload bucket key, r⟩ : IoEvent) ∈ s'.history i := by
    rw [history_self hl]
    exact List.mem_append_right _ (List.mem_singleton_self _)
  by_cases hr : ∃ id, r = .ok (some id)
  · obtain ⟨id, rfl⟩ := hr
    left
    obtain ⟨n, v, rfl, -, -⟩ := artifactCall_of_stores hs' (history_self hl) rfl
    obtain rfl := (perform_create_ok (perform_of_step hl)).2 id rfl
    have hunused : ∀ {ev : IoEvent}, ev ∈ s'.history (.request n) →
        usedUpload ev.1 ≠ some s.world.s3.nextUpload := by
      intro ev hev
      rw [history_self hl] at hev
      rcases List.mem_append.mp hev with hev | hev
      · exact not_used_of_next hs hev
      · rw [List.mem_singleton.mp hev]
        simp [usedUpload]
    exact ⟨n, ⟨bucket, key, hmem⟩, fun _ _ _ hcompleted => hunused hcompleted rfl,
      fun _ _ haborted => hunused haborted rfl⟩
  · push Not at hr
    right
    subst hbucket hkey
    refine ⟨hempty, fun j ev hev hcreated => ?_, i, r, hmem, hr⟩
    rcases hl.mem_history hev with hev | ⟨applied', heq⟩
    · exact absurd ((issues_uploads D).lt hs hev hcreated) (Nat.lt_irrefl _)
    · cases heq
      unfold createdUpload at hcreated
      split at hcreated
      · next heq => exact hr _ (by cases heq; rfl)
      · cases hcreated

/-- **Who has created an open upload is not through with it, or was not told of it.** -/
theorem unfinished_of_open (hs : D.Reachable s)
    (hopen : s.world.s3.uploads uploadId = some upload) :
    (∃ n, Unfinished s n uploadId) ∨ Forgotten s uploadId upload := by
  suffices h : uploadId < s.world.s3.nextUpload ∧
      ((∃ n, Unfinished s n uploadId) ∨ Forgotten s uploadId upload) from h.2
  revert uploadId upload
  refine Machine.invariant (I := fun s => ∀ {uploadId upload},
    s.world.s3.uploads uploadId = some upload → uploadId < s.world.s3.nextUpload ∧
      ((∃ n, Unfinished s n uploadId) ∨ Forgotten s uploadId upload)) ?_ ?_ hs
  · intro uploadId upload hopen
    cases hopen
  · intro s l s' hs ih _ hl uploadId upload hopen
    -- an upload that has been open before keeps its part of the invariant
    have hkept : ∀ {before}, s.world.s3.uploads uploadId = some before →
        uploadId < s'.world.s3.nextUpload ∧
          ((∃ n, Unfinished s' n uploadId) ∨ Forgotten s' uploadId upload) := by
      intro before hbefore
      obtain ⟨hold, h⟩ := ih hbefore
      refine ⟨Nat.lt_of_lt_of_le hold ((issues_uploads D).mono s l s' hl), ?_⟩
      rcases h with ⟨n, hunfinished⟩ | hforgotten
      · exact .inl ⟨n, hunfinished.later hl hopen⟩
      · obtain ⟨hforgotten', hsame⟩ := hforgotten.later hs hold hl
        rw [hsame, hbefore] at hopen
        cases hopen
        exact .inr hforgotten'
    rcases step_cases hl with ⟨i, ⟨c, r⟩, applied, rfl, hw⟩ | hq
    · rcases (perform_storage hw).opened hopen with ⟨before, hbefore⟩ | ⟨rfl, hlt, rfl, hempty⟩
      · exact hkept hbefore
      · exact ⟨hlt, opened_of_create hs hl rfl rfl hempty⟩
    · rw [hq.s3] at hopen
      exact hkept hopen

/-- A request creates its upload before it has a link signed. -/
theorem fetching_of_create {v : ℤ} {h : List IoEvent} {bucket key : Text}
    (hcall : Deployment.ArtifactCall D n v h (.createMultipartUpload bucket key)) {ev : IoEvent}
    (hev : ev ∈ h) : ev.1 = .selectArtifact v ∨ Fetching ev.1 := by
  generalize hc : Call.createMultipartUpload bucket key = c at hcall
  cases hcall with
  | read => cases hc
  | fetch detail tr c hnone hc' =>
    subst hc
    simp [Fetching, Upstream] at hc'
  | stash detail tr id body tr' c hnone hfetched hstash =>
    cases hstash <;> cases hc
    rw [List.append_nil] at hev
    rcases List.mem_cons.mp hev with rfl | hev
    · exact .inl rfl
    · exact .inr (hfetched.calls ev hev)
  | redirectKnown detail id hsome => cases hc
  | redirectNew detail tr id body tr' hnone hfetched hstash => cases hc

/-- What it has created it has completed when it has a link signed. -/
theorem completed_of_presign {v : ℤ} {h : List IoEvent} {bucket key bucket' key' : Text}
    {expiresIn : ℕ} (hcall : Deployment.ArtifactCall D n v h (.presign bucket key expiresIn))
    (hev : (⟨.createMultipartUpload bucket' key', .ok (some uploadId)⟩ : IoEvent) ∈ h) :
    ∃ bucket key entries,
      (⟨.completeMultipartUpload bucket key uploadId entries, .ok ()⟩ : IoEvent) ∈ h := by
  generalize hc : Call.presign bucket key expiresIn = c at hcall
  cases hcall with
  | read => cases hc
  | fetch detail tr c hnone hc' =>
    subst hc
    simp [Fetching, Upstream] at hc'
  | stash detail tr id body tr' c hnone hfetched hstash => cases hstash <;> cases hc
  | redirectKnown detail id hsome => simp at hev
  | redirectNew detail tr id body tr' hnone hfetched hstash =>
    rcases List.mem_cons.mp hev with hev | hev
    · cases hev
    rcases List.mem_append.mp hev with hev | hev
    · have hfetching := hfetched.calls _ hev
      simp [Fetching, Upstream] at hfetching
    cases hstash with
    | completed uploadId' parts hending hbodies r result hresult =>
      rcases List.mem_cons.mp hev with hev | hev
      · cases hev
        refine ⟨D.bucketName, s3Key D.bucketPrefix id, listed 1 parts, ?_⟩
        simp
      · rcases List.mem_append.mp hev with hev | hev
        · obtain ⟨m, body', hcall⟩ := call_of_mem_uploadEvents hev
          cases hcall
        · simp at hev

/-- **A request that has redirected leaves no upload open.** -/
theorem Unfinished.not_redirected (hs : D.Reachable s) (h : Unfinished s n uploadId)
    (response : ArtifactResponse) :
    s.pool (.request n) ≠ .finished (.artifact (.ok response)) := by
  intro hfin
  obtain ⟨bucket, key, hcreated⟩ := h.created
  obtain ⟨g₁, g₂, hg⟩ := List.append_of_mem hcreated
  obtain ⟨n', v, heq, hroute, hcreate⟩ := artifactCall_of_stores hs hg rfl
  cases heq
  obtain ⟨result, heq, hresult⟩ := artifactResult_of_finished hs hroute hfin
  cases heq
  obtain ⟨key', hpresigned⟩ := hresult.presigned response rfl
  rw [hg, List.mem_append, List.mem_cons] at hpresigned
  rcases hpresigned with hbefore | heq | hafter
  · have hfetching := fetching_of_create hcreate hbefore
    simp [Fetching, Upstream] at hfetching
  · cases heq
  · obtain ⟨h₁, h₂, rfl⟩ := List.append_of_mem hafter
    rw [← List.cons_append, ← List.append_assoc] at hg
    have hpresign := artifactCall_of_route hs hroute hg
    obtain ⟨bucket', key'', entries, hcompleted⟩ :=
      completed_of_presign hpresign (List.mem_append_right _ List.mem_cons_self)
    apply h.notCompleted bucket' key'' entries
    rw [hg]
    exact List.mem_append_left _ hcompleted

end Uploads

/-! ## The bucket -/

/-- What the storage holds in a state. -/
structure BucketAccounted (D : Deployment) (s : DeploymentState) : Prop where
  objects : ∀ bucket key content, s.world.s3.objects bucket key = some content →
    bucket = D.bucketName ∧ ∃! n, IsArchive D s n key content
  uploads : ∀ uploadId upload, s.world.s3.uploads uploadId = some upload →
    (∃ n, Unfinished s n uploadId ∧
      ∀ response, s.pool (.request n) ≠ .finished (.artifact (.ok response))) ∨
    Forgotten s uploadId upload

/-- **Everything in the bucket is accounted for**, in every state that any interleaving of any
number of instances reaches: an object is the whole archive that one request has downloaded, and an
open upload is that of a request which has not redirected, or one that nobody knows of. -/
theorem bucket_accounted (D : Deployment) (s : DeploymentState) (hs : D.Reachable s) :
    BucketAccounted D s := by
  constructor
  · intro bucket key content hobject
    obtain ⟨hbucket, n, harchive⟩ := isArchive_of_object hs hobject
    exact ⟨hbucket, n, harchive, fun m h => harchive.owner hs h⟩
  · intro uploadId upload hopen
    rcases unfinished_of_open hs hopen with ⟨n, hunfinished⟩ | hforgotten
    · exact .inl ⟨n, hunfinished, hunfinished.not_redirected hs⟩
    · exact .inr hforgotten

/-- Request `n` stores the archive under the id, but the row is not updated. -/
def storesUnnamed (n id uploadId : ℕ) : List ScriptMove :=
  [answered (.request n) (.createMultipartUpload "terrashine".toList (s3Key [] id))
      (.ok (some uploadId)),
    usual (.request n), usual (.request n),
    answered (.request n) (.updateArtifact id 1) (.error .unavailable), .finish (.request n)]

/-- The archive stays in the bucket, and no row names it. -/
theorem bucket_accounted_unnamed : ∃ s, archiveDeployment.Reachable s ∧
    s.world.db.versions.map (·.artifactId) = [none] ∧
    s.world.s3.objects "terrashine".toList (s3Key [] 1) = some [1] ∧
    BucketAccounted archiveDeployment s := by
  obtain ⟨s, hs, hview⟩ : ∃ s, archiveDeployment.Reachable s ∧
      (s.world.db.versions.map (·.artifactId),
        s.world.s3.objects "terrashine".toList (s3Key [] 1)) = ([none], some [1]) :=
    Machine.exists_run_of_play
      (fun s : DeploymentState => (s.world.db.versions.map (·.artifactId),
        s.world.s3.objects "terrashine".toList (s3Key [] 1)))
      (versionStored ++ readsNone 1 ++ downloads 1 1 ++ storesUnnamed 1 1 1) rfl
  obtain ⟨hrows, hobject⟩ := Prod.mk.inj hview
  exact ⟨s, hs, hrows, hobject, bucket_accounted archiveDeployment s hs⟩

end Terrashine.Analysis
