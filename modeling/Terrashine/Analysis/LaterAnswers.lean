import Terrashine.Analysis.Growth
import Terrashine.Analysis.ChannelProtocol

/-!
# Providers never disappear

What a handler reads is the catalogue of some state between two others, `readBetween`, so
whatever is read later contains what was read earlier, under the same ids.
`catalogue_grows` puts this together for all runs of all instances: what an index lists can
be downloaded at every later time, and every later index lists it again.
-/

set_option autoImplicit false

namespace Terrashine.Analysis

open Terrashine.Library Terrashine.Model Terrashine.Interface

section

variable {D : Deployment} {s s' : DeploymentState}

/-! ## Reading in the course of a run -/

/-- The rows were read from a database between the two. -/
def ReadBetween (db db' : Database) (p : TerraformProvider) (rows : List (Option Text)) : Prop :=
  ∃ db₀, Extends db db₀ ∧ Extends db₀ db' ∧ rows.Perm (db₀.selectVersions p)

/-- What a task reads in a run, it reads from a database of that run. -/
theorem readBetween (h : D.Leads s s') {i : Task} {tr : List IoEvent}
    (hhistory : s'.history i = s.history i ++ tr) {p : TerraformProvider}
    {rows : List (Option Text)} (hread : (⟨.selectVersions p, .ok rows⟩ : IoEvent) ∈ tr) :
    ReadBetween s.world.db s'.world.db p rows := by
  obtain ⟨s₁, s₂, applied, hbefore, -, hl, hafter⟩ := Machine.Run.exists_step h hhistory hread
  have hw := perform_of_step hl
  exact ⟨s₁.world.db, leads_extends hbefore, (step_extends hl).trans (leads_extends hafter),
    perform_selectVersions hw⟩

/-- What a task has read by some state. -/
theorem readBefore (hs : D.Reachable s) {i : Task} {p : TerraformProvider}
    {rows : List (Option Text)}
    (hread : (⟨.selectVersions p, .ok rows⟩ : IoEvent) ∈ s.history i) :
    ∃ db₀, Extends db₀ s.world.db ∧ rows.Perm (db₀.selectVersions p) := by
  have hall : s.history i = (Machine.initial World.initial : DeploymentState).history i ++
      s.history i := rfl
  obtain ⟨db₀, -, hafter, hrows⟩ := readBetween hs hall hread
  exact ⟨db₀, hafter, hrows⟩

/-! ## Programs that only read -/

/-- Every call of the program is answered in the world `w`, which stays as it is, and it
returns `a`. -/
def ReadsIn (w : World) {α : Type} (p : Io α) (a : α) : Prop :=
  ∃ tr, Prog.Runs p tr (.returned a) ∧
    ∀ ev ∈ tr, ∃ k channel applied, w.perform k channel ev.1 ev.2 applied = some w

/-- **What `list_downloads` returns.** -/
theorem readsIn_listDownloads_iff {w : World} {p : TerraformProvider} {version : Text}
    {downloads : List DatabaseDownloadResult} :
    ReadsIn w (listDownloads p version).run (.ok downloads) ↔
      ValidQuery p version ∧ downloads.Perm (w.db.selectDownloads p version) := by
  have hrun : ∀ (tr : List IoEvent),
      Prog.Runs (listDownloads p version).run tr (.returned (.ok downloads)) ↔
        tr = [(⟨.selectDownloads p version, .ok downloads⟩ : IoEvent)] := by
    intro tr
    constructor
    · intro h
      have hcall := runs_tryCall_ok h
      rw [perform_def, Prog.runs_call_iff] at hcall
      obtain ⟨r, tr', rfl, hdone⟩ := hcall
      obtain ⟨rfl, hout⟩ := Prog.runs_done_iff.mp hdone
      cases hout
      rfl
    · rintro rfl
      unfold listDownloads
      rw [run_tryCall, perform_def, Prog.call_bind, Prog.runs_call_iff]
      exact ⟨.ok downloads, [], rfl, .done _⟩
  constructor
  · rintro ⟨tr, hr, hreads⟩
    rw [hrun] at hr
    subst hr
    obtain ⟨k, channel, applied, hw⟩ := hreads _ (List.mem_singleton_self _)
    exact perform_selectDownloads_iff.mp hw
  · intro h
    refine ⟨_, (hrun _).mpr rfl, ?_⟩
    intro ev hev
    rw [List.mem_singleton] at hev
    subst hev
    exact ⟨0, none, false, perform_selectDownloads_iff.mpr h⟩

/-! ## Versions and downloads of the catalogue -/

/-- A committed response was an admissible one. -/
theorem committed_accepted (hs : D.Reachable s) {p : TerraformProvider}
    {response : ProviderVersions} {l : DeploymentLabel} (hl : l ∈ s.trace)
    (hc : Commits p response l) : Accepted p response := by
  obtain ⟨s₁, s₂, -, -, hstep, -⟩ := Machine.exists_step_of_mem hs hl
  have hcommits := hc
  obtain ⟨i, r, applied, rfl, -⟩ := hc
  rcases perform_store (i := i) (perform_of_step hstep) with ⟨-, ha, -⟩ | ⟨hnot, -⟩
  · exact ha
  · exact absurd hcommits hnot

/-- A version in the catalogue can be asked for. -/
theorem validQuery_of_offers (hs : D.Reachable s) {p : TerraformProvider} {v : VersionTuple}
    (hv : v ∈ offers s.world.db p) : ValidQuery p v.version := by
  rw [offers_eq_committed hs] at hv
  obtain ⟨l, hl, response, hc, hmem⟩ := hv
  have ha := committed_accepted hs hl hc
  have hcolumn : v.version ∈ response.versionColumn := by
    rw [versionColumn_eq]
    exact List.mem_map_of_mem hmem
  have htext := ha.text
  have hcolumns := ha.columns
  simp only [Bool.and_eq_true, List.all_eq_true] at htext hcolumns
  have hversion := hcolumns.1.1 _ hcolumn
  unfold ValidQuery
  simp [htext, hversion]

/-- A version in the catalogue has a download. -/
theorem exists_download {db : Database} {p : TerraformProvider} {v : VersionTuple}
    (hv : v ∈ offers db p) : ∃ d, d ∈ db.selectDownloads p v.version := by
  obtain ⟨r, hr, rfl⟩ := hv
  exact ⟨_, mem_selectDownloads.mpr ⟨r, hr, rfl, rfl⟩⟩

/-- The text of a version with its suffix is a path segment that names the version. -/
theorem tryFrom_append (v : Text) : ∃ version, Version.tryFrom (v ++ ".json".toList) = .ok version ∧
    version.versionPrefix = v := by
  have hstrip := Text.stripSuffix_append v ".json".toList
  have hsome : (Text.stripSuffix ".json".toList (v ++ ".json".toList)).isSome := by
    rw [hstrip]
    rfl
  refine ⟨⟨v ++ ".json".toList, hsome⟩, ?_, ?_⟩
  · unfold Version.tryFrom
    rw [dif_pos hsome]
  · unfold Version.versionPrefix
    simp only [hstrip, Option.get_some]

/-! ## The main result -/

/-- **A mirrored provider never disappears and its links never change meaning.**  In every
run of any number of instances:

* the tuples of a provider are the union of those of the responses committed for it;
* a row keeps its id, and its id never stands for another tuple or provider;
* for every version of an index that was read from the database, the list of downloads can be
  read at every later time, it is not empty, and it holds every download, under its id, that
  it held before; and an index request that starts later and can read the database answers
  with an index that lists the versions listed before. -/
theorem catalogue_grows (hs : D.Reachable s) (hl : D.Leads s s') :
    (∀ p, offers s.world.db p = committed s.trace p) ∧
    (∀ p r, RowOf s.world.db p r →
      (∃ r', RowOf s'.world.db p r' ∧ r'.id = r.id ∧ r'.tuple = r.tuple) ∧
      ∀ p' r', RowOf s'.world.db p' r' → r'.id = r.id → p' = p ∧ r'.tuple = r.tuple) ∧
    ∀ n p rows index, (⟨.selectVersions p, .ok rows⟩ : IoEvent) ∈ s.history (.request n) →
      MirrorIndex.ofRows rows = some index →
      (∀ v ∈ versionSet index, ∃ version, Version.tryFrom (v ++ ".json".toList) = .ok version ∧
        version.versionPrefix = v ∧
        (∃ downloads',
          ReadsIn s'.world (listDownloads p version.versionPrefix).run (.ok downloads')) ∧
        ∀ downloads',
          ReadsIn s'.world (listDownloads p version.versionPrefix).run (.ok downloads') →
          downloads' ≠ [] ∧ ∀ downloads,
            ReadsIn s.world (listDownloads p version.versionPrefix).run (.ok downloads) →
            ∀ d ∈ downloads, d ∈ downloads') ∧
      ∀ m rows' result, (D.requests m).route = .index p → s.history (.request m) = [] →
        (⟨.selectVersions p, .ok rows'⟩ : IoEvent) ∈ s'.history (.request m) →
        s'.pool (.request m) = .finished (.index result) →
        ∃ index', result = .ok index' ∧ versionSet index ⊆ versionSet index' := by
  have hs' : D.Reachable s' := hs.trans hl
  have hext := leads_extends hl
  refine ⟨offers_eq_committed hs, fun p r hr => ⟨?_, fun p' r' hr' hid => ?_⟩, ?_⟩
  · obtain ⟨r', hr', hid, htuple, -⟩ := hext.rowOf hr
    exact ⟨r', hr', hid, htuple⟩
  · -- the later row has the key of the earlier, and a provider row its id
    have hkey := hext.same_key hr.1 hr'.1 hid
    refine ⟨?_, congrArg Prod.snd hkey⟩
    obtain ⟨-, q, hq, hqid, hqp⟩ := hr
    obtain ⟨-, q', hq', hqid', hqp'⟩ := hr'
    obtain ⟨q'', hq'', hid'', hp''⟩ := hext.providers q hq
    have hpid : r'.providerId = r.providerId := congrArg Prod.fst hkey
    have hsame : q' = q'' := by
      apply Table.eq_of_key s'.world.db.schema.providerPkey hq' hq''
      show q'.id = q''.id
      rw [← hqid', hpid, hqid, hid'']
    rw [← hqp', hsame, hp'', hqp]
  · intro n p rows index hread hindex
    obtain ⟨db₀, hdb₀, hrows⟩ := readBefore hs hread
    obtain ⟨⟨t₀, ht₀⟩, hversions⟩ : (∃ t₀, t₀ ∈ offers db₀ p) ∧
        ∀ v, v ∈ versionSet index ↔ ∃ t ∈ offers db₀ p, t.version = v := by
      rcases ofRows_eq hrows with ⟨hnone, -⟩ | ⟨index', hsome, hne, hset⟩
      · rw [hindex] at hnone
        cases hnone
      · rw [hindex] at hsome
        cases hsome
        exact ⟨hne, hset⟩
    constructor
    · intro v hv
      obtain ⟨t, ht, rfl⟩ := (hversions v).mp hv
      obtain ⟨version, hversion, hfull⟩ := tryFrom_append t.version
      have ht' : t ∈ offers s'.world.db p := hext.offers p (hdb₀.offers p ht)
      refine ⟨version, hversion, hfull, ⟨s'.world.db.selectDownloads p t.version, ?_⟩, ?_⟩
      · rw [hfull, readsIn_listDownloads_iff]
        exact ⟨validQuery_of_offers hs' ht', List.Perm.refl _⟩
      · intro downloads' hread'
        rw [hfull, readsIn_listDownloads_iff] at hread'
        obtain ⟨-, hperm'⟩ := hread'
        refine ⟨?_, fun downloads hread d hd => ?_⟩
        · obtain ⟨d, hd⟩ := exists_download ht'
          exact List.ne_nil_of_mem (hperm'.mem_iff.mpr hd)
        · rw [hfull, readsIn_listDownloads_iff] at hread
          exact hperm'.mem_iff.mpr (hext.selectDownloads (hread.2.mem_iff.mp hd))
    · intro m rows' result hroute hnew hread' hfinished
      have hall : s'.history (.request m) = s.history (.request m) ++ s'.history (.request m) := by
        rw [hnew, List.nil_append]
      obtain ⟨db₁, hbefore, -, hrows'⟩ := readBetween hl hall hread'
      have hgrown : ∀ t ∈ offers db₀ p, t ∈ offers db₁ p :=
        fun t ht => hbefore.offers p (hdb₀.offers p ht)
      rcases ofRows_eq hrows' with ⟨-, hempty⟩ | ⟨index', hindex', -, hset'⟩
      · have hmem := hgrown t₀ ht₀
        rw [hempty] at hmem
        exact absurd hmem (Set.notMem_empty t₀)
      · obtain ⟨result', heq, hresult⟩ :=
          ((channelProtocol_obeyed D).sound hs' (.request m)).finished _ hfinished p hroute
        cases heq
        refine ⟨index', hresult.of_read hread' hindex', fun v hv => ?_⟩
        obtain ⟨t, ht, rfl⟩ := (hversions v).mp hv
        exact (hset' _).mpr ⟨t, hgrown t ht, rfl⟩

end

/-- One instance, a registry with these versions, and clients that ask for a provider. -/
def versionsDeployment (versions : ProviderVersions) : Deployment :=
  .uniform (pathRegistry (some versions) none) mirrorArgs
    fun _ => { instanceId := 0, route := .index randomProvider }

/-- A registry that lists one version, and another one once its document is no longer empty. -/
def growingRegistry : Externals :=
  { pathRegistry none none with
    decodeVersions := fun body => some
      { versions := linuxBuild "1.0.0".toList ::
          if body = [] then [] else [linuxBuild "2.0.0".toList] } }

def laterVersions : ProviderVersions :=
  { versions := [linuxBuild "1.0.0".toList, linuxBuild "2.0.0".toList] }

def growingDeployment : Deployment :=
  .uniform growingRegistry mirrorArgs fun _ => { instanceId := 0, route := .index randomProvider }

/-- The first request has the provider fetched, the second is answered from the database. -/
def fetchedOnce : List ScriptMove :=
  opened 0 ++ enqueued 0 randomProvider ++ [.start (.refresher 0), taken 0 0 randomProvider] ++
    refreshed 0 randomProvider builtVersions 1 ++ cached 1 randomProvider [some "1.0.0".toList]

/-- After an hour the message of the second request has it fetched again, and the third request is
answered from the database. -/
def fetchedAgain : List ScriptMove :=
  [.env (.tick 3600000000001), .again (.refresher 0),
    answered (.refresher 0) .recvOrCancelled (some (wakeMessage randomProvider)),
    answered (.refresher 0) .instantNow 3600000000001, usual (.refresher 0), usual (.refresher 0),
    .call (.refresher 0) fun
      | .httpGet _ => some (.ok { status := 200, body := { chunks := [[1]], ending := .complete } },
          false)
      | _ => none,
    answered (.refresher 0) (.storeProviderVersions randomProvider laterVersions) (.ok 1)] ++
    cached 2 randomProvider [some "1.0.0".toList, some "2.0.0".toList]

/-- Between the two answers the registry has announced another version. -/
theorem catalogue_grows_built : ∃ s s' : DeploymentState, growingDeployment.Reachable s ∧
    growingDeployment.Leads s s' ∧
    offers s.world.db randomProvider = committed s.trace randomProvider ∧
    offers s'.world.db randomProvider = committed s'.trace randomProvider ∧
    ∃ index, s'.pool (.request 2) = .finished (.index (.ok index)) ∧
      versionSet (.ofVersions ["1.0.0".toList]) ⊆ versionSet index := by
  obtain ⟨s, s', hs, hl, hview⟩ : ∃ s s', growingDeployment.Reachable s ∧
      growingDeployment.Leads s s' ∧
      (s.history (.request 1), s.history (.request 2), s'.history (.request 2),
        s'.pool (.request 2)) =
      ([⟨.selectVersions randomProvider, .ok [some "1.0.0".toList]⟩,
          ⟨.trySend (wakeMessage randomProvider), .ok ()⟩], [],
        [⟨.selectVersions randomProvider, .ok [some "1.0.0".toList, some "2.0.0".toList]⟩,
          ⟨.trySend (wakeMessage randomProvider), .ok ()⟩],
        .finished (.index (.ok (.ofVersions ["1.0.0".toList, "2.0.0".toList])))) :=
    Machine.exists_runs_of_play
      (fun s s' : DeploymentState => (s.history (.request 1), s.history (.request 2),
        s'.history (.request 2), s'.pool (.request 2))) fetchedOnce fetchedAgain rfl
  obtain ⟨hfirst, hnew, hthird, hpool⟩ : _ ∧ _ ∧ _ ∧ _ := by simpa only [Prod.mk.injEq] using hview
  obtain ⟨hoffers, -, hanswers⟩ := catalogue_grows hs hl
  have hread := hanswers 1 randomProvider _ _ (hfirst ▸ List.mem_cons_self) rfl
  obtain ⟨index, hindex, hsub⟩ :=
    hread.2 2 _ _ rfl hnew (hthird ▸ List.mem_cons_self) hpool
  exact ⟨s, s', hs, hl, hoffers randomProvider, (catalogue_grows (hs.trans hl) .refl).1 _, index,
    hindex ▸ hpool, hsub⟩

end Terrashine.Analysis
