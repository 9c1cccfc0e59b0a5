import Terrashine.Analysis.MirrorAnswers
import Terrashine.Analysis.Routes
import Terrashine.Analysis.VersionAnswers

/-!
# What a client downloads

A client asks for a version, picks the link under a platform, asks for what the link leads to, and
follows the redirect into the bucket.  The two requests may reach different instances at any two
times, and each of them only says what it says: `download_of_link` puts the answers together.
What the client gets is the whole body of one download that some request has made from the
registry, for the provider, the version and the platform that the client has asked for.
-/

set_option autoImplicit false

namespace Terrashine.Analysis

open Terrashine.Library Terrashine.Model Terrashine.Interface

/-- The content is the whole body of a download of the build from its registry. -/
def Downloaded (D : Deployment) (s : DeploymentState) (p : TerraformProvider) (t : VersionTuple)
    (content : Bytes) : Prop :=
  ∃ n detail tr body, detail.hostname = p.hostname ∧ detail.namespace_ = p.namespace_ ∧
    detail.providerType = p.providerType ∧ detail.version = t.version ∧ detail.os = t.os ∧
    detail.arch = t.arch ∧
    Prog.Runs (getUpstream D.deps (D.registry (D.requests n).instanceId) detail).run tr
      (.returned (.ok body)) ∧
    tr.Sublist (s.history (.request n)) ∧ body.ending = .complete ∧ content = body.chunks.flatten

section Downloads

variable {D : Deployment} {s s' : DeploymentState} {n m : ℕ} {p : TerraformProvider}
  {segment key : Text}

/-- A build keeps its number. -/
theorem buildOf_later {db db' : Database} (hext : Extends db db') {id : ℕ}
    {b : TerraformProvider × VersionTuple} (h : buildOf db id = some b) :
    buildOf db' id = some b := by
  obtain ⟨p, t⟩ := b
  obtain ⟨r, hrow, rfl, rfl⟩ := buildOf_eq_some.mp h
  obtain ⟨r', hrow', hid, htuple, -⟩ := hext.rowOf hrow
  exact buildOf_eq_some.mpr ⟨r', hrow', hid, htuple⟩

/-- Each link of a version is one of its builds, under the name of the platform. -/
theorem build_of_link (hs : D.Reachable s) {answer : MirrorVersion}
    {target : TargetPlatformIdentifier} (hroute : (D.requests n).route = .version p segment)
    (hfin : s.pool (.request n) = .finished (.version (.ok answer)))
    (hlink : answer.archives.lookup key = some target) :
    ∃ version os arch, ∃ id : ℕ, Version.tryFrom segment = .ok version ∧
      key = archiveName os arch ∧
      target.url = buildUrl (D.args (D.requests n).instanceId).httpRedirectUrl.serialize id ∧
      buildOf s.world.db id = some (p, ⟨version.versionPrefix, os, arch⟩) := by
  have hresult := shortResult_of_finished hs (by rw [hroute]; trivial) hfin
  rw [hroute] at hresult
  generalize hh : s.history (.request n) = h at hresult
  cases hresult with
  | listed _ _ version downloads hversion =>
    rw [build_eq] at hlink
    obtain ⟨row, hrow, rfl, rfl⟩ := insertEach.of_lookup hlink (by simp)
    have hread : (⟨.selectDownloads p version.versionPrefix, .ok downloads⟩ : IoEvent) ∈
        s.history (.request n) := by
      rw [hh]
      exact List.mem_singleton_self _
    obtain ⟨s₁, s₂, applied, -, -, hl, hlater⟩ := Machine.exists_step hs hread
    have hbuild : (row.os, row.arch, row.id) ∈
        {b | buildOf s₁.world.db b.2.2 = some (p, ⟨version.versionPrefix, b.1, b.2.1⟩)} := by
      rw [← downloads_eq_builds (downloads_of_step hl)]
      exact hrow
    exact ⟨version, row.os, row.arch, row.id, hversion, rfl, rfl,
      buildOf_later (leads_extends (.head ⟨_, trivial, hl⟩ hlater)) hbuild⟩

/-- Behind a redirect for a build is a download of this build. -/
theorem downloaded_of_redirect (hs : D.Reachable s) {id : ℕ} {t : VersionTuple}
    {response : ArtifactResponse} (hroute : (D.requests m).route = .artifact id)
    (hfin : s.pool (.request m) = .finished (.artifact (.ok response)))
    (hbuild : buildOf s.world.db id = some (p, t)) :
    ∃ content, s.world.s3.objects response.uri.bucket response.uri.key = some content ∧
      Downloaded D s p t content := by
  obtain ⟨result, heq, hresult⟩ := artifactResult_of_finished hs hroute hfin
  cases heq
  obtain ⟨key, hpresigned⟩ := hresult.presigned response rfl
  obtain ⟨r, hr, hversion, a, rfl, k, detail, tr, body, hnames, hruns, hsub, hending, hobject⟩ :=
    redirected_of_presign hs hroute hpresigned
  obtain ⟨r', hrow, hid, rfl⟩ := buildOf_eq_some.mp hbuild
  have hsame : r' = r :=
    Table.eq_of_key s.world.db.schema.versionPkey hrow.1 hr
      (hid.trans (Int.natCast_inj.mp hversion).symm)
  subst hsame
  have hprovider := hrow.provider_eq hnames.provider
  have htuple := hnames.tuple
  rw [uri_of_presigned hs hpresigned]
  refine ⟨_, hobject, k, detail, tr, body, ?_, ?_, ?_, ?_, ?_, ?_, hruns, hsub, hending, rfl⟩
  all_goals simp [hprovider, htuple]

/-- **A client that follows the links gets what it asked for.** -/
theorem download_of_link (hs : D.Reachable s) (hhp : Url.CanonicalHosts D.deps.host)
    (hredirect : WorkingRedirects D.deps.host (D.args (D.requests n).instanceId).httpRedirectUrl)
    {answer : MirrorVersion} {target : TargetPlatformIdentifier} {address : Url} {method : Method}
    {token : Option Text} {response : ArtifactResponse}
    (hroute : (D.requests n).route = .version p segment)
    (hfin : s.pool (.request n) = .finished (.version (.ok answer)))
    (hlink : answer.archives.lookup key = some target)
    (haddress : Url.parse D.deps.host target.url = .ok address)
    (hfollow : dispatch method (Url.serializePath address.path) token =
      .handled (D.requests m).route)
    (harchive : s.pool (.request m) = .finished (.artifact (.ok response))) :
    ∃ version os arch content, Version.tryFrom segment = .ok version ∧ key = archiveName os arch ∧
      s.world.s3.objects response.uri.bucket response.uri.key = some content ∧
      Downloaded D s p ⟨version.versionPrefix, os, arch⟩ content := by
  obtain ⟨version, os, arch, id, hversion, hkey, hurl, hbuild⟩ := build_of_link hs hroute hfin hlink
  rw [hurl] at haddress
  obtain ⟨-, -, hm, -⟩ := (dispatch_link_iff hhp hredirect).mp ⟨address, haddress, hfollow⟩
  obtain ⟨content, hobject, hdownloaded⟩ := downloaded_of_redirect hs hm harchive hbuild
  exact ⟨version, os, arch, content, hversion, hkey, hobject, hdownloaded⟩

end Downloads

/-! ## A script -/

/-- A client that asks for an index, for an archive and for the downloads of the version. -/
def linkedDeployment : Deployment :=
  .uniform (pathRegistry (some builtVersions) (some { downloadUrl := archiveUrl }))
    (.withDefaults mountedUrl "terrashine".toList)
    fun n =>
      { instanceId := 0
        route :=
          if n = 0 then .index randomProvider
          else if n = 1 then .artifact 1
          else .version randomProvider "1.0.0.json".toList }

/-- The one archive of the version. -/
def linkedAnswer : MirrorVersion :=
  .build [{ os := "linux".toList, arch := "amd64".toList, id := 1 }] mountedUrl.serialize

/-- The archive is stored, and then the version's link leads to it. -/
theorem download_of_link_linux : ∃ s version os arch content, linkedDeployment.Reachable s ∧
    Version.tryFrom "1.0.0.json".toList = .ok version ∧
    "linux_amd64".toList = archiveName os arch ∧
    s.world.s3.objects "terrashine".toList (s3Key [] 1) = some content ∧
    Downloaded linkedDeployment s randomProvider ⟨version.versionPrefix, os, arch⟩ content := by
  obtain ⟨s, hs, hview⟩ : ∃ s, linkedDeployment.Reachable s ∧
      (s.pool (.request 1), s.pool (.request 2)) =
        (.finished (.artifact (.ok { uri :=
            { bucket := "terrashine".toList, key := s3Key [] 1, expiresIn := 120 } })),
          .finished (.version (.ok linkedAnswer))) :=
    Machine.exists_run_of_play
      (fun s : DeploymentState => (s.pool (.request 1), s.pool (.request 2)))
      (versionStored ++ readsNone 1 ++ downloads 1 1 ++ stores 1 1 1 ++
        [.start (.request 2), answered (.request 2)
          (.selectDownloads randomProvider "1.0.0".toList)
          (.ok [{ os := "linux".toList, arch := "amd64".toList, id := 1 }]),
          .finish (.request 2)]) rfl
  obtain ⟨harchive, hversion⟩ := Prod.mk.inj hview
  have hlink : linkedAnswer.archives.lookup "linux_amd64".toList =
      some { url := buildUrl mountedUrl.serialize 1 } := by decide
  have haddress : Url.parse plainHosts (buildUrl mountedUrl.serialize 1) =
      .ok (exampleUrl ["mirror".toList, "v1".toList, "artifacts".toList, "1".toList] none) := by
    decide
  have hfollow : dispatch .get "/mirror/v1/artifacts/1".toList none = .handled (.artifact 1) := by
    decide
  obtain ⟨version, os, arch, content, h⟩ :=
    download_of_link hs canonicalHosts_plainHosts workingRedirects_mounted rfl hversion hlink
      haddress hfollow harchive
  exact ⟨s, version, os, arch, content, hs, h⟩

end Terrashine.Analysis
