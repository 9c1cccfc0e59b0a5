import Terrashine.Analysis.ChannelProtocol
import Terrashine.Analysis.Upload

/-!
# What an artifact request does

An artifact request reads the row, and redirects when the row has an artifact.  Otherwise it
draws an id and downloads the archive, in any order, then uploads the body under the key of the
id, completes the upload, updates the row and redirects.  `ArtifactCall` lists these calls with
the history each of them comes after; `artifactProtocol_obeyed` says that every artifact request
of a deployment keeps to it, and that no other request stores an artifact.
-/

set_option autoImplicit false

namespace Terrashine.Analysis

open Terrashine.Library Terrashine.Model Terrashine.Interface

/-- The calls that write to the object storage, and the update of a row. -/
def storesArtifact : Call → Bool
  | .updateArtifact _ _ => true
  | c => onStorage c

/-! ## The calls of the upload -/

/-- The first call for an uploaded stream, or the first after some of its parts. -/
theorem split_uploadEvents {target : UploadTarget} {n : ℕ} {parts : List (Bytes × Text)}
    {rest t tr₂ : List IoEvent} {ev : IoEvent}
    (h : uploadEvents target n parts ++ rest = t ++ ev :: tr₂) :
    (∃ done body, t = uploadEvents target n done ∧
        ev.1 = .uploadPart target.bucketName target.key target.uploadId (n + done.length) body) ∨
      ∃ rest', t = uploadEvents target n parts ++ rest' ∧ rest = rest' ++ ev :: tr₂ := by
  induction parts generalizing n t with
  | nil => exact .inr ⟨t, rfl, h⟩
  | cons part parts ih =>
    have hcons : uploadEvents target n (part :: parts) =
        ⟨.uploadPart target.bucketName target.key target.uploadId n part.1, .ok (some part.2)⟩ ::
          uploadEvents target (n + 1) parts := rfl
    rw [hcons, List.cons_append] at h
    cases t with
    | nil =>
      obtain ⟨rfl, -⟩ := List.cons_eq_cons.mp h
      exact .inl ⟨[], part.1, rfl, rfl⟩
    | cons ev' t =>
      obtain ⟨rfl, h'⟩ := List.cons_eq_cons.mp h
      rcases ih h' with ⟨done, body, rfl, hev⟩ | ⟨rest', rfl, hrest⟩
      · refine .inl ⟨part :: done, body, rfl, ?_⟩
        rw [hev, List.length_cons]
        congr 1
        omega
      · right
        exact ⟨rest', by rw [hcons, List.cons_append], hrest⟩

/-- The calls of the upload of a stream, each after the calls of the upload before it. -/
inductive StashCall (bucketName key : Text) (artifact : Artifact) (stream : Body) :
    List IoEvent → Call → Prop
  | create : StashCall bucketName key artifact stream [] (.createMultipartUpload bucketName key)
  | part (uploadId : ℕ) (parts : List (Bytes × Text)) (body : Bytes) :
      StashCall bucketName key artifact stream
        (⟨.createMultipartUpload bucketName key, .ok (some uploadId)⟩ ::
          uploadEvents ⟨bucketName, key, uploadId⟩ 1 parts)
        (.uploadPart bucketName key uploadId (1 + parts.length) body)
  | abort (uploadId : ℕ) (parts : List (Bytes × Text)) :
      StashCall bucketName key artifact stream
        (⟨.createMultipartUpload bucketName key, .ok (some uploadId)⟩ ::
          uploadEvents ⟨bucketName, key, uploadId⟩ 1 parts)
        (.abortMultipartUpload bucketName key uploadId)
  | complete (uploadId : ℕ) (parts : List (Bytes × Text)) :
      StashCall bucketName key artifact stream
        (⟨.createMultipartUpload bucketName key, .ok (some uploadId)⟩ ::
          uploadEvents ⟨bucketName, key, uploadId⟩ 1 parts)
        (.completeMultipartUpload bucketName key uploadId (listed 1 parts))
  | update (uploadId : ℕ) (parts : List (Bytes × Text)) (hending : stream.ending = .complete)
      (hbodies : (parts.map Prod.fst).flatten = stream.chunks.flatten) :
      StashCall bucketName key artifact stream
        (⟨.createMultipartUpload bucketName key, .ok (some uploadId)⟩ ::
          (uploadEvents ⟨bucketName, key, uploadId⟩ 1 parts ++
            [⟨.completeMultipartUpload bucketName key uploadId (listed 1 parts), .ok ()⟩]))
        (.updateArtifact artifact.artifactId artifact.versionId)

section Stash

variable {bucketName key : Text} {artifact : Artifact} {stream : Body}

/-- What stands in a list of one is that one. -/
theorem eq_of_singleton {x ev : IoEvent} {rest tr₂ : List IoEvent} (h : [x] = rest ++ ev :: tr₂) :
    rest = [] ∧ ev = x := by
  cases rest with
  | nil => exact ⟨rfl, (List.cons_eq_cons.mp h).1.symm⟩
  | cons y rest => simp at h

/-- A call after the creation: one of these, or one of what follows the parts. -/
theorem stashCall_or_later {uploadId : ℕ} {parts : List (Bytes × Text)}
    {rest tr₁ tr₂ : List IoEvent} {ev : IoEvent}
    (htr : ⟨.createMultipartUpload bucketName key, .ok (some uploadId)⟩ ::
      (uploadEvents ⟨bucketName, key, uploadId⟩ 1 parts ++ rest) = tr₁ ++ ev :: tr₂) :
    StashCall bucketName key artifact stream tr₁ ev.1 ∨
      ∃ rest', rest = rest' ++ ev :: tr₂ ∧
        tr₁ = ⟨.createMultipartUpload bucketName key, .ok (some uploadId)⟩ ::
          (uploadEvents ⟨bucketName, key, uploadId⟩ 1 parts ++ rest') := by
  cases tr₁ with
  | nil =>
    obtain ⟨rfl, -⟩ := List.cons_eq_cons.mp htr
    exact .inl .create
  | cons first t =>
    obtain ⟨rfl, htr'⟩ := List.cons_eq_cons.mp htr
    rcases split_uploadEvents htr' with ⟨done, body, rfl, hev⟩ | ⟨rest', rfl, hrest⟩
    · rw [hev]
      exact .inl (.part uploadId done body)
    · exact .inr ⟨rest', hrest, rfl⟩

/-- Every call of the upload is one of these. -/
theorem stashCall_of_ends {tr tr₁ tr₂ : List IoEvent} {ev : IoEvent}
    {out : Outcome (Except AnyhowError Unit)}
    (h : StashEnds bucketName key artifact stream tr out) (htr : tr = tr₁ ++ ev :: tr₂) :
    StashCall bucketName key artifact stream tr₁ ev.1 := by
  cases h with
  | notCreated r hr err =>
    obtain ⟨rfl, rfl⟩ := eq_of_singleton htr
    exact .create
  | cutShort uploadId tr hcut err =>
    cases hcut with
    | aborted parts r =>
      rcases stashCall_or_later htr with hcall | ⟨rest', hrest, rfl⟩
      · exact hcall
      · obtain ⟨rfl, rfl⟩ := eq_of_singleton hrest
        rw [List.append_nil]
        exact .abort uploadId parts
    | refused parts body r hr =>
      rcases stashCall_or_later htr with hcall | ⟨rest', hrest, rfl⟩
      · exact hcall
      · obtain ⟨rfl, rfl⟩ := eq_of_singleton hrest
        rw [List.append_nil]
        exact .part uploadId parts body
  | notCompleted uploadId parts source err =>
    rcases stashCall_or_later htr with hcall | ⟨rest', hrest, rfl⟩
    · exact hcall
    · obtain ⟨rfl, rfl⟩ := eq_of_singleton hrest
      rw [List.append_nil]
      exact .complete uploadId parts
  | completed uploadId parts hending hbodies r result hresult =>
    rcases stashCall_or_later htr with hcall | ⟨rest', hrest, rfl⟩
    · exact hcall
    · cases rest' with
      | nil =>
        obtain ⟨rfl, -⟩ := List.cons_eq_cons.mp hrest
        rw [List.append_nil]
        exact .complete uploadId parts
      | cons first rest' =>
        obtain ⟨rfl, hrest'⟩ := List.cons_eq_cons.mp hrest
        obtain ⟨rfl, rfl⟩ := eq_of_singleton hrest'
        apply StashCall.update uploadId parts hending
        rw [hbodies, Chunking.flatten_parts]

end Stash

/-! ## The calls of a request -/

/-- One id from the sequence, and the download. -/
def Fetching (c : Call) : Prop := c = .nextvalArtifactIds ∨ Upstream c

/-- The request has drawn an id and begun to receive a body. -/
structure Fetched (deps : Externals) (port : ℕ) (detail : ArtifactDetails) (tr : List IoEvent)
    (id : ℕ) (body : Body) : Prop where
  calls : ∀ ev ∈ tr, Fetching ev.1
  drawn : (⟨.nextvalArtifactIds, .ok id⟩ : IoEvent) ∈ tr
  download : ∃ tr', Prog.Runs (getUpstream deps (databaseRegistry port) detail).run tr'
    (.returned (.ok body)) ∧ tr'.Sublist tr

/-- The calls of the request for the artifact of `versionId`. -/
inductive ArtifactCall (deps : Externals) (port : ℕ) (bucketName bucketPrefix : Text)
    (versionId : ℤ) : List IoEvent → Call → Prop
  | read : ArtifactCall deps port bucketName bucketPrefix versionId [] (.selectArtifact versionId)
  | fetch (detail tr c) (hnone : detail.artifactId = none) (hc : Fetching c) :
      ArtifactCall deps port bucketName bucketPrefix versionId
        (⟨.selectArtifact versionId, .ok (some detail)⟩ :: tr) c
  | stash (detail tr id body tr' c) (hnone : detail.artifactId = none)
      (hfetched : Fetched deps port detail tr id body)
      (hc : StashCall bucketName (s3Key bucketPrefix id) (detail.artifact id) body tr' c) :
      ArtifactCall deps port bucketName bucketPrefix versionId
        (⟨.selectArtifact versionId, .ok (some detail)⟩ :: (tr ++ tr')) c
  | redirectKnown (detail id) (hsome : detail.artifactId = some id) :
      ArtifactCall deps port bucketName bucketPrefix versionId
        [⟨.selectArtifact versionId, .ok (some detail)⟩]
        (.presign bucketName (s3Key bucketPrefix id) 120)
  | redirectNew (detail tr id body tr') (hnone : detail.artifactId = none)
      (hfetched : Fetched deps port detail tr id body)
      (hstash : StashEnds bucketName (s3Key bucketPrefix id) (detail.artifact id) body tr'
        (.returned (.ok ()))) :
      ArtifactCall deps port bucketName bucketPrefix versionId
        (⟨.selectArtifact versionId, .ok (some detail)⟩ :: (tr ++ tr'))
        (.presign bucketName (s3Key bucketPrefix id) 120)

/-- How a request ends: a redirect is one that was presigned, and a request that does not redirect
has read of no artifact, or one of its own calls has failed. -/
structure ArtifactResult (bucketName : Text) (versionId : ℤ) (h : List IoEvent)
    (result : Except StatusCode ArtifactResponse) : Prop where
  presigned : ∀ response, result = .ok response →
    ∃ key, (⟨.presign bucketName key 120, .ok response.uri⟩ : IoEvent) ∈ h
  redirects : (∃ response, result = .ok response) ∨
    (∃ err, (⟨.selectArtifact versionId, .error err⟩ : IoEvent) ∈ h) ∨
    (∃ key err, (⟨.presign bucketName key 120, .error err⟩ : IoEvent) ∈ h) ∨
    ∃ found, (⟨.selectArtifact versionId, .ok found⟩ : IoEvent) ∈ h ∧
      ∀ detail, found = some detail → detail.artifactId = none

section Handler

variable {deps : Externals} {port : ℕ} {bucketName bucketPrefix : Text} {versionId : ℤ}

/-- A redirect answers with the URI it has presigned. -/
theorem wp_redirect {φ : List IoEvent → Call → Prop} {artifact : Artifact} {h : List IoEvent}
    (hφ : φ h (.presign bucketName (artifact.toS3Key bucketPrefix) 120)) :
    (redirect bucketName bucketPrefix artifact).run.wp φ
      (fun result h' => ArtifactResult bucketName versionId h' result) h := by
  unfold redirect presignRequest
  rw [Prog.wp_run_bind, wp_tryCall, wp_tryCall, perform_def, Prog.wp_call]
  refine ⟨hφ, fun r => (Prog.wp_done r).mpr ?_⟩
  cases r with
  | error err =>
    refine ⟨?_, .inr (.inr (.inl ⟨artifact.toS3Key bucketPrefix, err, ?_⟩))⟩
    · intro response heq
      cases heq
    · exact List.mem_append_right _ (List.mem_singleton_self _)
  | ok uri =>
    refine (Prog.wp_pure _).mpr ⟨?_, .inl ⟨_, rfl⟩⟩
    intro response heq
    cases heq
    exact ⟨_, List.mem_append_right _ (List.mem_singleton_self _)⟩

/-- What the request has done when it has stored the artifact. -/
theorem wp_fetchArtifact {detail : ArtifactDetails} (hnone : detail.artifactId = none) :
    (fetchArtifact deps (databaseRegistry port) bucketName bucketPrefix detail).run.wp
      (ArtifactCall deps port bucketName bucketPrefix versionId)
      (fun result h => ∀ artifact, result = .ok artifact → ∃ tr id body tr',
        h = ⟨.selectArtifact versionId, .ok (some detail)⟩ :: (tr ++ tr') ∧
        artifact = detail.artifact id ∧ Fetched deps port detail tr id body ∧
        StashEnds bucketName (s3Key bucketPrefix id) artifact body tr' (.returned (.ok ())))
      [⟨.selectArtifact versionId, .ok (some detail)⟩] := by
  have hjoin : (Prog.tryJoin
      (tryCall (fun _ => StatusCode.internalServerError) allocateArtifactId.run).run
      (tryCall (fun _ => StatusCode.badGateway)
        (getUpstream deps (databaseRegistry port) detail).run).run).Calls Fetching := by
    apply Prog.calls_tryJoin
    · exact calls_tryCall (calls_tryCall ((Prog.calls_perform _ _).mpr (.inl rfl)))
    · refine calls_tryCall (Prog.calls_mono ?_ (calls_getUpstream deps port detail))
      exact fun c hc => .inr hc
  unfold fetchArtifact
  rw [Prog.wp_run_bind, ExceptT.run_mk]
  refine Prog.wp_mono _ (Prog.wp_of_calls hjoin _ fun tr c _ hc => .fetch detail tr c hnone hc) ?_
  rintro r h - ⟨tr, rfl, hr, hcalls⟩
  cases r with
  | error err =>
    intro artifact heq
    cases heq
  | ok found =>
    obtain ⟨id, body⟩ := found
    have hfetched : Fetched deps port detail tr id body := by
      obtain ⟨tr₁, tr₂, hid, hbody, hsub₁, hsub₂⟩ := Prog.runs_tryJoin _ _ _ _ _ hr
      refine ⟨hcalls, ?_, tr₂, runs_tryCall_ok hbody, hsub₂⟩
      obtain ⟨r, tr', rfl, hdone⟩ := Prog.runs_call_iff.mp (runs_tryCall_ok (runs_tryCall_ok hid))
      obtain ⟨rfl, hout⟩ := Prog.runs_done_iff.mp hdone
      cases hout
      exact hsub₁.subset (List.mem_singleton_self _)
    dsimp only
    rw [Prog.wp_run_bind, wp_tryCall]
    refine Prog.wp_of_runs Call.usual ?_ ?_
    · intro tr' out tr₁ ev tr₂ hr' htr
      rw [List.cons_append, List.nil_append]
      exact .stash detail tr id body tr₁ ev.1 hnone hfetched
        (stashCall_of_ends (stashArtifact_ends hr') htr)
    · intro tr' result hr'
      cases result with
      | error err =>
        intro artifact heq
        cases heq
      | ok u =>
        refine (Prog.wp_pure _).mpr ?_
        intro artifact heq
        cases heq
        exact ⟨tr, id, body, tr', rfl, rfl, hfetched, stashArtifact_ends hr'⟩

/-- **The handler makes no other calls.** -/
theorem wp_artifactsHandler :
    (artifactsHandler deps (databaseRegistry port) bucketName bucketPrefix versionId).run.wp
      (ArtifactCall deps port bucketName bucketPrefix versionId)
      (fun result h => ArtifactResult bucketName versionId h result) [] := by
  unfold artifactsHandler getArtifactFromDatabase
  rw [Prog.wp_run_bind, wp_tryCall, wp_tryCall, perform_def, Prog.wp_call]
  refine ⟨.read, fun r => (Prog.wp_done r).mpr ?_⟩
  rw [List.nil_append]
  cases r with
  | error err =>
    refine ⟨?_, .inr (.inl ⟨err, List.mem_singleton_self _⟩)⟩
    intro response heq
    cases heq
  | ok found =>
    have hunknown : ∀ h result, [⟨.selectArtifact versionId, .ok found⟩] <+: h →
        (∀ detail, found = some detail → detail.artifactId = none) →
        (∀ response, result ≠ .ok response) → ArtifactResult bucketName versionId h result := by
      intro h result hprefix hnone herror
      refine ⟨fun response heq => absurd heq (herror response), .inr (.inr (.inr ⟨found, ?_, hnone⟩))⟩
      exact hprefix.subset (List.mem_singleton_self _)
    cases found with
    | none =>
      refine (Prog.wp_done _).mpr (hunknown _ _ (List.prefix_refl _) ?_ ?_)
      · intro detail heq
        cases heq
      · intro response heq
        cases heq
    | some detail =>
      dsimp only
      cases hid : detail.artifactId with
      | some id => exact wp_redirect (.redirectKnown detail id hid)
      | none =>
        dsimp only
        rw [Prog.wp_run_bind]
        refine Prog.wp_mono _ (wp_fetchArtifact hid) ?_
        intro result h hprefix hresult
        cases result with
        | error err =>
          refine hunknown _ _ hprefix ?_ ?_
          · intro detail' heq
            cases heq
            exact hid
          · intro response heq
            cases heq
        | ok artifact =>
          obtain ⟨tr, id, body, tr', rfl, rfl, hfetched, hstash⟩ := hresult artifact rfl
          exact wp_redirect (.redirectNew detail tr id body tr' hid hfetched hstash)

end Handler

/-! ## The requests of a deployment -/

/-- A request for neither an index nor an artifact stores no artifact. -/
theorem calls_other {D : Deployment} {n : ℕ} (hindex : ∀ p, (D.requests n).route ≠ .index p)
    (hartifact : ∀ v, (D.requests n).route ≠ .artifact v) :
    (D.handler n).Calls fun c => storesArtifact c = false := by
  unfold Deployment.handler
  cases hroute : (D.requests n).route with
  | index p => exact absurd hroute (hindex p)
  | artifact v => exact absurd hroute (hartifact v)
  | version p segment =>
    dsimp only
    split
    · exact calls_map _ (calls_versionHandler _ _ _ rfl)
    · exact (Prog.calls_pure _ _).mpr trivial
  | updateCredential hostname token => exact calls_map _ (calls_updateCredential _ _ rfl)
  | deleteCredential hostname => exact calls_map _ (calls_deleteCredential _ rfl)
  | existsCredential hostname => exact calls_map _ (calls_existsCredential _ rfl)

/-- The calls of the artifact request `n`. -/
def Deployment.ArtifactCall (D : Deployment) (n : ℕ) (v : ℤ) (h : List IoEvent) (c : Call) : Prop :=
  Analysis.ArtifactCall D.deps (D.args (D.requests n).instanceId).upstreamRegistryPort D.bucketName
    D.bucketPrefix v h c

/-- What each request does with artifacts. -/
def artifactProtocol (D : Deployment) : Machine.Protocol Task Call Call.Ret Answer where
  allows i h c := match i with
    | .request n => (∀ v, (D.requests n).route = .artifact v → Deployment.ArtifactCall D n v h c) ∧
        ((∀ p, (D.requests n).route ≠ .index p) → (∀ v, (D.requests n).route ≠ .artifact v) →
          storesArtifact c = false)
    | _ => True
  ensures i a h := match i with
    | .request n => ∀ v, (D.requests n).route = .artifact v →
        ∃ result, a = .artifact result ∧ ArtifactResult D.bucketName v h result
    | _ => True

/-- Every request for an artifact keeps to the protocol. -/
theorem artifactProtocol_obeyed (D : Deployment) : D.machine.Obeys (artifactProtocol D) := by
  constructor
  · intro i
    cases i with
    | request n =>
      show (D.handler n).wp _ _ []
      by_cases hartifact : ∃ v, (D.requests n).route = .artifact v
      · obtain ⟨v, hv⟩ := hartifact
        have hcalls : (artifactProtocol D).allows (.request n) = Deployment.ArtifactCall D n v := by
          funext h c
          apply propext
          constructor
          · intro hc
            exact hc.1 v hv
          · intro hc
            refine ⟨fun v' hv' => ?_, fun _ hno => absurd hv (hno v)⟩
            rw [hv] at hv'
            cases hv'
            exact hc
        unfold Deployment.handler
        rw [hv, hcalls]
        dsimp only
        rw [D.sameBucket, D.samePrefix, Prog.wp_map]
        refine Prog.wp_mono _ wp_artifactsHandler ?_
        intro result h _ hresult v' hv'
        rw [hv] at hv'
        cases hv'
        exact ⟨result, rfl, hresult⟩
      · push Not at hartifact
        by_cases hindex : ∃ p, (D.requests n).route = .index p
        · obtain ⟨p, hp⟩ := hindex
          refine Prog.wp_trivial (fun h c => ?_) (fun a h => ?_) _
          · exact ⟨fun v hv => absurd hv (hartifact v), fun hno => absurd hp (hno p)⟩
          · exact fun v hv => absurd hv (hartifact v)
        · push Not at hindex
          refine (calls_other hindex hartifact).wp (fun h c hc => ?_) (fun a h => ?_) []
          · exact ⟨fun v hv => absurd hv (hartifact v), fun _ _ => hc⟩
          · exact fun v hv => absurd hv (hartifact v)
    | refresher k => exact Prog.wp_trivial (fun _ _ => trivial) (fun _ _ => trivial) _
    | server k => exact Prog.wp_trivial (fun _ _ => trivial) (fun _ _ => trivial) _
  · intro i a p h _ hagain
    cases i with
    | request n => cases hagain
    | refresher k => exact Prog.wp_trivial (fun _ _ => trivial) (fun _ _ => trivial) _
    | server k => exact Prog.wp_trivial (fun _ _ => trivial) (fun _ _ => trivial) _

section Requests

variable {D : Deployment} {s : DeploymentState} {h₁ h₂ : List IoEvent} {ev : IoEvent}

/-- The calls in the history of an artifact request. -/
theorem artifactCall_of_route (hs : D.Reachable s) {n : ℕ} {v : ℤ}
    (hroute : (D.requests n).route = .artifact v)
    (hh : s.history (.request n) = h₁ ++ ev :: h₂) : Deployment.ArtifactCall D n v h₁ ev.1 :=
  (((artifactProtocol_obeyed D).sound hs (.request n)).lawful h₁ ev h₂ hh).1 v hroute

/-- **Only artifact requests store artifacts.** -/
theorem artifactCall_of_stores (hs : D.Reachable s) {i : Task} (hh : s.history i = h₁ ++ ev :: h₂)
    (hc : storesArtifact ev.1 = true) :
    ∃ n v, i = .request n ∧ (D.requests n).route = .artifact v ∧
      Deployment.ArtifactCall D n v h₁ ev.1 := by
  have hchannel := ((channelProtocol_obeyed D).sound hs i).lawful h₁ ev h₂ hh
  obtain ⟨c, r⟩ := ev
  dsimp only at hc hchannel
  cases i with
  | request n =>
    have hartifact := ((artifactProtocol_obeyed D).sound hs (.request n)).lawful h₁ _ h₂ hh
    by_cases hroute : ∃ v, (D.requests n).route = .artifact v
    · obtain ⟨v, hv⟩ := hroute
      exact ⟨n, v, rfl, hv, hartifact.1 v hv⟩
    · exfalso
      push Not at hroute
      by_cases hindex : ∃ p, (D.requests n).route = .index p
      · obtain ⟨p, hp⟩ := hindex
        have hcall := hchannel.1 p hp
        cases hcall <;> cases hc
      · push Not at hindex
        rw [hartifact.2 hindex hroute] at hc
        cases hc
  | refresher k =>
    exfalso
    obtain ⟨-, hcall⟩ := hchannel
    cases c <;> first | exact hcall.elim | cases hc
  | server k =>
    exfalso
    rcases hchannel.2 with rfl | rfl <;> cases hc

/-- The end of an artifact request. -/
theorem artifactResult_of_finished (hs : D.Reachable s) {n : ℕ} {v : ℤ} {answer : Answer}
    (hroute : (D.requests n).route = .artifact v) (hfin : s.pool (.request n) = .finished answer) :
    ∃ result, answer = .artifact result ∧
      ArtifactResult D.bucketName v (s.history (.request n)) result :=
  ((artifactProtocol_obeyed D).sound hs (.request n)).finished answer hfin v hroute

end Requests

end Terrashine.Analysis
