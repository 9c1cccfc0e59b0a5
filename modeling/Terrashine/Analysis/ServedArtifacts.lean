import Terrashine.Analysis.ArtifactIds
import Terrashine.Analysis.FirstAnswer

/-!
# Served artifacts are complete

A row with an artifact id names an object with the whole body of one download, and the names of
that download are those of the row: `Holds`.  `artifacts_served` says so of every reachable
state, and that every redirect leads to such an object of its row.
-/

set_option autoImplicit false

namespace Terrashine.Analysis

open Terrashine.Library Terrashine.Model Terrashine.Interface

/-! ## The names of a row -/

/-- What a query has answered about the row. -/
structure Names (db : Database) (detail : ArtifactDetails) (r : TerraformProviderVersionRow) :
    Prop where
  versionId : detail.versionId = r.id
  tuple : r.tuple = { version := detail.version, os := detail.os, arch := detail.arch }
  provider : RowOf db { hostname := detail.hostname, namespace_ := detail.namespace_
                        providerType := detail.providerType } r

/-- What the query answers names a row with that id and its artifact. -/
theorem selectArtifact_eq_some {db : Database} {versionId : ℤ} {detail : ArtifactDetails}
    (h : db.selectArtifact versionId = some detail) :
    ∃ r, Names db detail r ∧ (r.id : ℤ) = versionId ∧ detail.artifactId = r.artifactId := by
  obtain ⟨⟨r, q⟩, hfound, rfl⟩ := Option.map_eq_some_iff.mp h
  obtain ⟨hr, hq, hid⟩ := mem_joined.mp (List.mem_of_find?_eq_some hfound)
  have hversion : (r.id : ℤ) = versionId := by simpa using List.find?_some hfound
  exact ⟨r, ⟨rfl, rfl, hr, q, hq, hid, rfl⟩, hversion, rfl⟩

/-- The query finds every row. -/
theorem selectArtifact_of_mem {db : Database} {r : TerraformProviderVersionRow}
    (hr : r ∈ db.versions) :
    ∃ detail, db.selectArtifact r.id = some detail ∧ detail.artifactId = r.artifactId := by
  cases hselect : db.selectArtifact r.id with
  | none =>
    obtain ⟨q, hq, hid⟩ := db.schema.versionProvider r hr
    have hnone := List.find?_eq_none.mp (Option.map_eq_none_iff.mp hselect)
    exact absurd (decide_eq_true rfl) (hnone (r, q) (mem_joined.mpr ⟨hr, hq, hid.symm⟩))
  | some detail =>
    obtain ⟨r', hnames, hversion, ha⟩ := selectArtifact_eq_some hselect
    have hsame := Table.eq_of_key db.schema.versionPkey hnames.provider.1 hr
      (Int.natCast_inj.mp hversion)
    exact ⟨detail, rfl, by rw [ha, hsame]⟩

/-- The names of a row stay. -/
theorem Names.later {db db' : Database} {detail : ArtifactDetails}
    {r r' : TerraformProviderVersionRow} (h : Names db detail r) (hext : Extends db db')
    (hr' : r' ∈ db'.versions) (hid : r'.id = r.id) : Names db' detail r' := by
  obtain ⟨r'', hrow, hid'', htuple, -⟩ := hext.rowOf h.provider
  have hsame := Table.eq_of_key db'.schema.versionPkey hr' hrow.1 (hid.trans hid''.symm)
  rw [hsame]
  exact ⟨h.versionId.trans hid''.symm, htuple.trans h.tuple, hrow⟩

/-! ## Stored archives -/

/-- The storage holds, under the key of the id, the whole body of one download that a request
has made with the names of the row. -/
def Holds (D : Deployment) (s : DeploymentState) (r : TerraformProviderVersionRow) (id : ℕ) :
    Prop :=
  ∃ n detail tr body, Names s.world.db detail r ∧
    Prog.Runs (getUpstream D.deps (D.registry (D.requests n).instanceId) detail).run tr
      (.returned (.ok body)) ∧
    tr.Sublist (s.history (.request n)) ∧ body.ending = .complete ∧
    s.world.s3.objects D.bucketName (s3Key D.bucketPrefix id) = some body.chunks.flatten

section Served

variable {D : Deployment} {s s' : DeploymentState} {r : TerraformProviderVersionRow} {n a : ℕ}

/-- **An id that a row was updated with names a stored archive of that row.** -/
theorem holds_of_update (hs : D.Reachable s) {i : Task} {answer : Except SqlError Unit}
    (hev : (⟨.updateArtifact a r.id, answer⟩ : IoEvent) ∈ s.history i)
    (hr : r ∈ s.world.db.versions) : Holds D s r a := by
  obtain ⟨n, detail, body, parts, rfl, hversion, hdone, hending, hbodies⟩ :=
    completed_of_update hs hev
  have hobject := object_of_reachable hs hdone
  rw [hbodies] at hobject
  obtain ⟨v, tr, uploadId, rest, hroute, hfetched, hh⟩ := hdone
  have hread : (⟨.selectArtifact v, .ok (some detail)⟩ : IoEvent) ∈ s.history (.request n) := by
    rw [hh]
    exact List.mem_cons_self
  obtain ⟨s₀, -, hlater, hselect⟩ := read_of_history hs hread
  obtain ⟨r₀, hnames, -, -⟩ := selectArtifact_eq_some hselect
  obtain ⟨tr', hdownload, hsub⟩ := hfetched.download
  refine ⟨n, detail, tr', body, ?_, hdownload, ?_, hending, hobject⟩
  · apply hnames.later (leads_extends hlater) hr
    rw [← hversion, hnames.versionId]
  · rw [hh]
    exact (hsub.trans (List.sublist_append_left _ _)).cons _

/-- **A row with an artifact id names a stored archive of its own.** -/
theorem holds_of_row (hs : D.Reachable s) (hr : r ∈ s.world.db.versions)
    (ha : r.artifactId = some a) : Holds D s r a := by
  have hrow : artifactOf s.world.db r.id = some a := by rw [artifactOf_eq hr, ha]
  obtain ⟨i, answer, hev⟩ := updated_of_reachable hs hrow
  exact holds_of_update hs hev hr

/-! ## Redirects -/

/-- A successful upload has asked for the update of its row. -/
theorem updated_of_stashed {bucketName key : Text} {artifact : Artifact} {stream : Body}
    {tr : List IoEvent}
    (h : StashEnds bucketName key artifact stream tr (.returned (.ok ()))) :
    ∃ answer, (⟨.updateArtifact artifact.artifactId artifact.versionId, answer⟩ : IoEvent) ∈ tr := by
  cases h with
  | completed uploadId parts hending hbodies answer result hresult => exact ⟨answer, by simp⟩

/-- A row that a request has read, or one that it has updated since, names its redirect. -/
theorem redirected_of_presign (hs : D.Reachable s) {v : ℤ} {key : Text}
    {uri : Except S3Error PresignedUri} (hroute : (D.requests n).route = .artifact v)
    (hev : (⟨.presign D.bucketName key 120, uri⟩ : IoEvent) ∈ s.history (.request n)) :
    ∃ r ∈ s.world.db.versions, (r.id : ℤ) = v ∧ ∃ id, key = s3Key D.bucketPrefix id ∧
      Holds D s r id := by
  obtain ⟨h₁, h₂, hh⟩ := List.append_of_mem hev
  have hcall : Deployment.ArtifactCall D n v h₁ (.presign D.bucketName key 120) :=
    artifactCall_of_route hs hroute hh
  -- the row that was read is still there, and whatever it was updated with is stored
  have hread : ∀ detail, (⟨.selectArtifact v, .ok (some detail)⟩ : IoEvent) ∈ h₁ →
      ∃ s₀ r₀, D.Reachable s₀ ∧ D.Leads s₀ s ∧ r₀ ∈ s₀.world.db.versions ∧
        detail.versionId = r₀.id ∧ detail.artifactId = r₀.artifactId ∧
        ∃ r ∈ s.world.db.versions, (r.id : ℤ) = v ∧ r.id = r₀.id := by
    intro detail hdetail
    have hmem : (⟨.selectArtifact v, .ok (some detail)⟩ : IoEvent) ∈ s.history (.request n) := by
      rw [hh]
      exact List.mem_append_left _ hdetail
    obtain ⟨s₀, hs₀, hlater, hselect⟩ := read_of_history hs hmem
    obtain ⟨r₀, hnames, hversion, hid⟩ := selectArtifact_eq_some hselect
    obtain ⟨r, hr, hsame, -⟩ := (leads_extends hlater).versions r₀ hnames.provider.1
    exact ⟨s₀, r₀, hs₀, hlater, hnames.provider.1, hnames.versionId, hid, r, hr,
      by rw [hsame, hversion], hsame⟩
  generalize hc : Call.presign D.bucketName key 120 = c at hcall
  cases hcall with
  | read => cases hc
  | fetch detail tr c hnone hc' =>
    subst hc
    simp [Fetching, Upstream] at hc'
  | stash detail tr id body tr' c hnone hfetched hstash => cases hstash <;> cases hc
  | redirectKnown detail id hsome =>
    cases hc
    obtain ⟨s₀, r₀, hs₀, hlater, hr₀, -, hid, r, hr, hversion, hsame⟩ :=
      hread detail List.mem_cons_self
    have hrow : artifactOf s₀.world.db r.id = some id := by
      rw [hsame, artifactOf_eq hr₀, ← hid, hsome]
    obtain ⟨i, answer, hupdate⟩ := updated_of_reachable hs₀ hrow
    have hupdate' := (Machine.Run.history_prefix hlater i).subset hupdate
    exact ⟨r, hr, hversion, id, rfl, holds_of_update hs hupdate' hr⟩
  | redirectNew detail tr id body tr' hnone hfetched hstash =>
    cases hc
    obtain ⟨s₀, r₀, -, -, -, hdetail, -, r, hr, hversion, hsame⟩ := hread detail List.mem_cons_self
    obtain ⟨answer, hupdate⟩ := updated_of_stashed hstash
    have hupdate' : (⟨.updateArtifact id r.id, answer⟩ : IoEvent) ∈ s.history (.request n) := by
      rw [hh, hsame, ← hdetail]
      exact List.mem_append_left _ (List.mem_cons_of_mem _ (List.mem_append_right _ hupdate))
    exact ⟨r, hr, hversion, id, rfl, holds_of_update hs hupdate' hr⟩

/-- A presigned URI is that of the object it was asked for. -/
theorem uri_of_presigned (hs : D.Reachable s) {i : Task} {bucket key : Text} {expiresIn : ℕ}
    {uri : PresignedUri}
    (hev : (⟨.presign bucket key expiresIn, .ok uri⟩ : IoEvent) ∈ s.history i) :
    uri = { bucket := bucket, key := key, expiresIn := expiresIn } := by
  obtain ⟨s₁, s₂, applied, -, -, hl, -⟩ := Machine.exists_step hs hev
  have hw := perform_of_step hl
  unfold World.perform at hw
  dsimp only at hw
  split at hw
  · next huri => exact huri
  · cases hw

end Served

/-! ## Rows with an artifact -/

/-- The request reads its row and has a link signed; it redirects unless one of the two
fails. -/
structure ServedFromStorage (D : Deployment) (s : DeploymentState) (n : ℕ) (v : ℤ) : Prop where
  calls : ∀ ev ∈ s.history (.request n),
    ev.1 = .selectArtifact v ∨ ∃ key, ev.1 = .presign D.bucketName key 120
  redirects : ∀ answer, s.pool (.request n) = .finished answer →
    (∃ response, answer = .artifact (.ok response)) ∨
    (∃ err, (⟨.selectArtifact v, .error err⟩ : IoEvent) ∈ s.history (.request n)) ∨
    ∃ key err, (⟨.presign D.bucketName key 120, .error err⟩ : IoEvent) ∈ s.history (.request n)

section Served

variable {D : Deployment} {s s' : DeploymentState} {r : TerraformProviderVersionRow} {n : ℕ}

/-- What a request reads that arrives in the course of a run, it reads in a state of that run. -/
theorem read_in_run {C : DeploymentState → DeploymentLabel → Prop} (hlater : D.machine.Run C s s')
    (hnew : s.history (.request n) = []) {v : ℤ} {found : Option ArtifactDetails}
    (hev : (⟨.selectArtifact v, .ok found⟩ : IoEvent) ∈ s'.history (.request n)) :
    ∃ s₁, D.machine.Run C s s₁ ∧ s₁.world.db.selectArtifact v = found := by
  have hall : s'.history (.request n) = s.history (.request n) ++ s'.history (.request n) := by
    rw [hnew, List.nil_append]
  obtain ⟨s₁, s₂, applied, hbefore, -, hl, -⟩ := Machine.Run.exists_step hlater hall hev
  have hw := perform_of_step hl
  exact ⟨s₁, hbefore, perform_selectArtifact hw⟩

/-- A request that arrives when its row has an artifact reads of one. -/
theorem read_after (hr : r ∈ s.world.db.versions) (ha : r.artifactId ≠ none)
    (hlater : D.Leads s s') (hnew : s.history (.request n) = []) {found : Option ArtifactDetails}
    (hev : (⟨.selectArtifact r.id, .ok found⟩ : IoEvent) ∈ s'.history (.request n)) :
    ∃ detail, found = some detail ∧ detail.artifactId ≠ none := by
  obtain ⟨s₁, hbefore, hselect⟩ := read_in_run hlater hnew hev
  obtain ⟨r₁, hr₁, hid, -, ha₁⟩ := (leads_extends hbefore).versions r hr
  obtain ⟨detail, hdetail, hsame⟩ := selectArtifact_of_mem hr₁
  rw [hid, hselect] at hdetail
  exact ⟨detail, hdetail, hsame ▸ ha₁ ha⟩

/-- A request that starts after its row has an artifact is served from the storage. -/
theorem servedFromStorage (hs : D.Reachable s) (hr : r ∈ s.world.db.versions)
    (ha : r.artifactId ≠ none) (hlater : D.Leads s s') (hnew : s.history (.request n) = [])
    (hroute : (D.requests n).route = .artifact r.id) : ServedFromStorage D s' n r.id := by
  have hs' : D.Reachable s' := hs.trans hlater
  constructor
  · intro ev hev
    obtain ⟨h₁, h₂, hh⟩ := List.append_of_mem hev
    have hcall := artifactCall_of_route hs' hroute hh
    have hknown : ∀ detail, (⟨.selectArtifact r.id, .ok (some detail)⟩ : IoEvent) ∈ h₁ →
        detail.artifactId ≠ none := by
      intro detail hdetail
      have hread : (⟨.selectArtifact r.id, .ok (some detail)⟩ : IoEvent) ∈
          s'.history (.request n) := by
        rw [hh]
        exact List.mem_append_left _ hdetail
      obtain ⟨detail', heq, hsome⟩ := read_after hr ha hlater hnew hread
      cases heq
      exact hsome
    generalize ev.1 = c at hcall
    cases hcall with
    | read => exact .inl rfl
    | fetch detail tr c hnone hc => exact absurd hnone (hknown detail List.mem_cons_self)
    | stash detail tr id body tr' c hnone hfetched hstash =>
      exact absurd hnone (hknown detail List.mem_cons_self)
    | redirectKnown detail id hsome => exact .inr ⟨_, rfl⟩
    | redirectNew detail tr id body tr' hnone hfetched hstash =>
      exact absurd hnone (hknown detail List.mem_cons_self)
  · intro answer hfin
    obtain ⟨result, rfl, hresult⟩ := artifactResult_of_finished hs' hroute hfin
    rcases hresult.redirects with ⟨response, rfl⟩ | hread | hpresign | ⟨found, hread, hnone⟩
    · exact .inl ⟨response, rfl⟩
    · exact .inr (.inl hread)
    · exact .inr (.inr hpresign)
    · obtain ⟨detail, rfl, hsome⟩ := read_after hr ha hlater hnew hread
      exact absurd (hnone detail rfl) hsome

end Served

/-! ## All rows and all redirects -/

/-- What clients can rely on in a state, and from it on. -/
structure ArtifactsServed (D : Deployment) (s : DeploymentState) : Prop where
  complete : ∀ r ∈ s.world.db.versions, ∀ id, r.artifactId = some id → Holds D s r id
  distinct : ∀ r ∈ s.world.db.versions, ∀ r' ∈ s.world.db.versions, ∀ id,
    r.artifactId = some id → r'.artifactId = some id → r = r'
  kept : ∀ r ∈ s.world.db.versions, r.artifactId ≠ none → ∀ s', D.Leads s s' →
    (∃ r' ∈ s'.world.db.versions, r'.id = r.id ∧ r'.artifactId ≠ none) ∧
    ∀ n, (D.requests n).route = .artifact r.id → s.history (.request n) = [] →
      ServedFromStorage D s' n r.id
  redirected : ∀ n v response, (D.requests n).route = .artifact v →
    s.pool (.request n) = .finished (.artifact (.ok response)) →
    ∃ r ∈ s.world.db.versions, (r.id : ℤ) = v ∧ ∃ id, Holds D s r id ∧
      response.uri =
        { bucket := D.bucketName, key := s3Key D.bucketPrefix id, expiresIn := 120 }

/-- **Served artifacts are complete and belong to the requested version**, in every state that any
interleaving of any number of instances reaches. -/
theorem artifacts_served (D : Deployment) (s : DeploymentState) (hs : D.Reachable s) :
    ArtifactsServed D s := by
  refine ⟨fun r hr id ha => holds_of_row hs hr ha, ?_, ?_, ?_⟩
  · intro r hr r' hr' id ha ha'
    exact Table.eq_of_nullableKey s.world.db.schema.uniqueArtifactId hr hr' ha ha'
  · intro r hr ha s' hlater
    refine ⟨?_, fun n hroute hnew => servedFromStorage hs hr ha hlater hnew hroute⟩
    obtain ⟨r', hr', hid, -, ha'⟩ := (leads_extends hlater).versions r hr
    exact ⟨r', hr', hid, ha' ha⟩
  · intro n v response hroute hfin
    obtain ⟨result, heq, hresult⟩ := artifactResult_of_finished hs hroute hfin
    cases heq
    obtain ⟨key, hpresigned⟩ := hresult.presigned response rfl
    obtain ⟨r, hr, hversion, id, rfl, hholds⟩ := redirected_of_presign hs hroute hpresigned
    exact ⟨r, hr, hversion, id, hholds, uri_of_presigned hs hpresigned⟩

/-! ## A script -/

/-- Where the registry has its archives. -/
def archiveUrl : Url := { Url.ofScheme "https".toList with host := some "releases.test".toList }

/-- One instance, an upstream registry with one version, a client that asks for its index and
clients that ask for its archive. -/
def archiveDeployment : Deployment :=
  .uniform (pathRegistry (some builtVersions) (some { downloadUrl := archiveUrl })) mirrorArgs
    fun n =>
      { instanceId := 0, route := if n = 0 then .index randomProvider else .artifact 1 }

/-- The index request has the version stored. -/
def versionStored : List ScriptMove :=
  opened 0 ++ enqueued 0 randomProvider ++ [.start (.refresher 0), taken 0 0 randomProvider] ++
    refreshed 0 randomProvider builtVersions 1

/-- The row of the version, before its archive is stored. -/
def builtDetails : ArtifactDetails where
  versionId := 1
  hostname := randomProvider.hostname
  namespace_ := randomProvider.namespace_
  providerType := randomProvider.providerType
  version := "1.0.0".toList
  os := "linux".toList
  arch := "amd64".toList
  artifactId := none

/-- Request `n` reads that the version has no archive. -/
def readsNone (n : ℕ) : List ScriptMove :=
  [.start (.request n), answered (.request n) (.selectArtifact 1) (.ok (some builtDetails))]

/-- Request `n` draws the id and downloads an archive of one byte. -/
def downloads (n id : ℕ) : List ScriptMove :=
  [.pick (.request n) true, answered (.request n) .nextvalArtifactIds (.ok id), usual (.request n),
    usual (.request n), usual (.request n),
    answered (.request n) (.httpGet { url := archiveUrl, bearers := [] })
      (.ok { status := 200, body := { chunks := [[1]], ending := .complete } })]

/-- Request `n` stores the archive under the id, updates the row and redirects. -/
def stores (n id uploadId : ℕ) : List ScriptMove :=
  [answered (.request n) (.createMultipartUpload "terrashine".toList (s3Key [] id))
      (.ok (some uploadId)),
    usual (.request n), usual (.request n), usual (.request n), usual (.request n),
    .finish (.request n)]

/-- The first request for the archive stores it and redirects to it. -/
theorem artifacts_served_stored : ∃ s response, archiveDeployment.Reachable s ∧
    s.world.db.versions.map (·.artifactId) = [some 1] ∧
    s.pool (.request 1) = .finished (.artifact (.ok response)) ∧
    ArtifactsServed archiveDeployment s := by
  obtain ⟨s, hs, hview⟩ : ∃ s, archiveDeployment.Reachable s ∧
      (s.world.db.versions.map (·.artifactId), s.pool (.request 1)) =
        ([some 1], .finished (.artifact (.ok { uri :=
          { bucket := "terrashine".toList, key := s3Key [] 1, expiresIn := 120 } }))) :=
    Machine.exists_run_of_play
      (fun s : DeploymentState => (s.world.db.versions.map (·.artifactId), s.pool (.request 1)))
      (versionStored ++ readsNone 1 ++ downloads 1 1 ++ stores 1 1 1) rfl
  obtain ⟨hrows, hfin⟩ := Prod.mk.inj hview
  exact ⟨s, _, hs, hrows, hfin, artifacts_served archiveDeployment s hs⟩

end Terrashine.Analysis
