import Terrashine.Analysis.ServedArtifacts

/-!
# Requests that race for one row

A request looks at its row once, before the download, and updates it at the end.  As long as no
update of the row falls between the two, the row still has no artifact when it is updated:
`null_until_updated`.  So an artifact id stays for ever in runs without such races,
`artifact_never_replaced`, and a race replaces it: `replaced_of_race`.
-/

set_option autoImplicit false

namespace Terrashine.Analysis

open Terrashine.Library Terrashine.Model Terrashine.Interface

/-- No update of row `v` has taken effect since request `n` read it. -/
def NotUpdatedSince (v n : ℕ) (trace : List DeploymentLabel) : Prop :=
  ∀ t₁ found applied t₂,
    trace = t₁ ++ .call (.request n) ⟨.selectArtifact v, .ok found⟩ applied :: t₂ →
    ∀ l ∈ t₂, ∀ i a, ¬ Updates v l i a

/-- **The condition on a step**: an update of row `v` comes from a request since whose read the row
has not been updated. -/
def RaceFree (v : ℕ) (s : DeploymentState) (l : DeploymentLabel) : Prop :=
  ∀ n a, Updates v l (.request n) a → NotUpdatedSince v n s.trace

section Races

variable {D : Deployment} {s s' : DeploymentState} {l : DeploymentLabel} {v n a : ℕ} {i : Task}

/-- **A row that was read without an artifact has none until it is updated.** -/
theorem null_until_updated (hs : D.Reachable s) {t₁ t₂ : List DeploymentLabel}
    {detail : ArtifactDetails} {applied : Bool}
    (htrace : s.trace =
      t₁ ++ .call (.request n) ⟨.selectArtifact v, .ok (some detail)⟩ applied :: t₂)
    (hnone : detail.artifactId = none) (hquiet : ∀ l ∈ t₂, ∀ i a, ¬ Updates v l i a) :
    artifactOf s.world.db v = none := by
  revert t₂
  refine Machine.invariant (I := fun s => ∀ {t₂}, s.trace =
    t₁ ++ .call (.request n) ⟨.selectArtifact v, .ok (some detail)⟩ applied :: t₂ →
    (∀ l ∈ t₂, ∀ i a, ¬ Updates v l i a) → artifactOf s.world.db v = none) ?_ ?_ hs
  · intro t₂ htrace
    simp at htrace
  · intro s l s' _ ih _ hl t₂ htrace hquiet
    rw [hl.trace] at htrace
    rcases List.eq_nil_or_concat' t₂ with rfl | ⟨t₂, last, rfl⟩
    · -- the read itself
      obtain ⟨-, hlast⟩ := List.append_inj' htrace rfl
      obtain rfl := (List.cons_eq_cons.mp hlast).1
      have hw := perform_of_step hl
      obtain ⟨r, hnames, hversion, ha⟩ := selectArtifact_eq_some (perform_selectArtifact hw)
      have hid : r.id = v := Int.natCast_inj.mp hversion
      rcases step_artifactOf hl v with heq | ⟨i, a, hupdates, -⟩
      · rw [heq, ← hid, artifactOf_eq hnames.provider.1, ← ha, hnone]
      · cases hupdates
    · -- a step after it
      rw [← List.cons_append, ← List.append_assoc] at htrace
      obtain ⟨hbefore, hlast⟩ := List.append_inj' htrace rfl
      obtain rfl := (List.cons_eq_cons.mp hlast).1
      have hnull := ih hbefore fun l hl' => hquiet l (List.mem_append_left _ hl')
      rcases step_artifactOf hl v with heq | ⟨i, a, hupdates, -⟩
      · rw [heq, hnull]
      · exact absurd hupdates (hquiet l (List.mem_append_right _ (List.mem_singleton_self _)) i a)

/-- An update is made by a request that has read its row, without an artifact. -/
theorem read_of_updates (hs : D.Reachable s) (hl : D.machine.Step s l s')
    (hupdates : Updates v l i a) :
    ∃ n detail, i = .request n ∧ detail.artifactId = none ∧
      (⟨.selectArtifact v, .ok (some detail)⟩ : IoEvent) ∈ s.history (.request n) ∧
      (⟨.nextvalArtifactIds, .ok a⟩ : IoEvent) ∈ s.history (.request n) ∧
      ∀ b w r, (⟨.updateArtifact b w, r⟩ : IoEvent) ∉ s.history (.request n) := by
  have hs' : D.Reachable s' := hs.tail ⟨l, trivial, hl⟩
  obtain ⟨r, hown⟩ := hupdates.own
  obtain ⟨applied, rfl⟩ := Label.own_eq_some.mp hown
  obtain ⟨n, versionId, rfl, -, hcall⟩ := artifactCall_of_stores hs' (history_self hl) rfl
  obtain ⟨detail, tr, body, uploadId, parts, hversion, hnone, -, -, hfetched, hh⟩ :=
    uploaded_of_updateCall hcall
  have hread : (⟨.selectArtifact versionId, .ok (some detail)⟩ : IoEvent) ∈
      s.history (.request n) := by
    rw [hh]
    exact List.mem_cons_self
  have hrow : versionId = v := by
    obtain ⟨s₀, -, -, hselect⟩ := read_of_history hs hread
    obtain ⟨r₀, hnames, hid, -⟩ := selectArtifact_eq_some hselect
    rw [← hid, ← hnames.versionId, hversion]
  rw [hrow] at hread
  refine ⟨n, detail, rfl, hnone, hread, ?_, ?_⟩
  · rw [hh]
    exact List.mem_cons_of_mem _ (List.mem_append_left _ hfetched.drawn)
  · intro b w r' hmem
    rw [hh] at hmem
    rcases List.mem_cons.mp hmem with hmem | hmem
    · cases hmem
    rcases List.mem_append.mp hmem with hmem | hmem
    · have hfetching := hfetched.calls _ hmem
      simp [Fetching, Upstream] at hfetching
    rcases List.mem_cons.mp hmem with hmem | hmem
    · cases hmem
    rcases List.mem_append.mp hmem with hmem | hmem
    · obtain ⟨m, part, hpart⟩ := call_of_mem_uploadEvents hmem
      cases hpart
    · cases List.mem_singleton.mp hmem

/-- **Without a race, an update finds a row without an artifact.** -/
theorem null_of_raceFree (hs : D.Reachable s) (hl : D.machine.Step s l s') (hfree : RaceFree v s l)
    (hupdates : Updates v l i a) : artifactOf s.world.db v = none := by
  obtain ⟨n, detail, rfl, hnone, hread, -, -⟩ := read_of_updates hs hl hupdates
  obtain ⟨applied, hmem⟩ := State.mem_history_iff.mp hread
  obtain ⟨t₁, t₂, htrace⟩ := List.append_of_mem hmem
  exact null_until_updated hs htrace hnone (hfree n a hupdates t₁ (some detail) applied t₂ htrace)

/-- A step without a race keeps the artifact of the row. -/
theorem keeps_of_raceFree (hs : D.Reachable s) (hl : D.machine.Step s l s')
    (hfree : RaceFree v s l) (ha : artifactOf s.world.db v = some a) :
    artifactOf s'.world.db v = some a := by
  rcases step_artifactOf hl v with heq | ⟨i, b, hupdates, -⟩
  · rw [heq, ha]
  · have hnull := null_of_raceFree hs hl hfree hupdates
    rw [hnull] at ha
    cases ha

/-! ## Races -/

/-- The id that a request is about to write stands in no row yet. -/
theorem fresh_of_updates (hs : D.Reachable s) (hl : D.machine.Step s l s')
    (hupdates : Updates v l i a) (w : ℕ) : artifactOf s.world.db w ≠ some a := by
  intro ha
  obtain ⟨n, detail, rfl, -, -, hdrawn, hnever⟩ := read_of_updates hs hl hupdates
  obtain ⟨j, answer, hev⟩ := updated_of_reachable hs ha
  obtain ⟨m, detail', body, parts, rfl, -, hdone, -, -⟩ := completed_of_update hs hev
  have hsame := (issues_artifactIds D).owner hs hdone.drawn rfl hdrawn rfl
  rw [hsame] at hev
  exact hnever a w answer hev

/-- **An update that takes effect sets the id of its row**, whatever stood there. -/
theorem artifactOf_of_updates (hs : D.Reachable s) (hl : D.machine.Step s l s')
    (hupdates : Updates v l i a) : artifactOf s'.world.db v = some a := by
  have hconflict : ¬ s.world.db.tables.artifactConflict a v := by
    rintro ⟨r, hr, -, ha⟩
    apply fresh_of_updates hs hl hupdates r.id
    rw [artifactOf_eq hr, ha]
  have hresult : ∃ db', s.world.db.updateArtifact s.world.clock a v = (.ok (), db') := by
    unfold Database.updateArtifact
    rw [dif_neg hconflict]
    exact ⟨_, rfl⟩
  obtain ⟨db', hdb'⟩ := hresult
  have hstatement : ∀ (answer : Except SqlError Unit) (applied : Bool),
      D.machine.Step s (.call i ⟨.updateArtifact a v, answer⟩ applied) s' →
      answer = .ok () ∨ applied = true → s'.world.db = db' := by
    intro answer applied hl htook
    have hupdate : s.world.statement SqlError.unavailable
      (s.world.db.updateArtifact s.world.clock a v) answer applied = some s'.world :=
        perform_of_step hl
    rw [hdb'] at hupdate
    rcases statement_eq_some hupdate with ⟨hworld, -⟩ | ⟨-, hne, -, hfalse⟩
    · rw [hworld]
    · rcases htook with hok | htrue
      · exact absurd hok hne
      · rw [htrue] at hfalse
        cases hfalse
  have hdb : s'.world.db = db' := by
    cases hupdates with
    | answered => exact hstatement _ _ hl (.inl rfl)
    | lost => exact hstatement _ _ hl (.inr rfl)
  -- the row that the request has read is still there
  obtain ⟨n, detail, rfl, -, hread, -, -⟩ := read_of_updates hs hl hupdates
  obtain ⟨s₀, -, hlater, hselect⟩ := read_of_history hs hread
  obtain ⟨r₀, hnames, hversion, -⟩ := selectArtifact_eq_some hselect
  obtain ⟨r, hr, hid, -⟩ := (leads_extends hlater).versions r₀ hnames.provider.1
  have hrow : r.id = v := Int.natCast_inj.mp (by rw [hid, hversion])
  rw [hdb, artifactOf_updateArtifact hdb', if_pos rfl, ← hrow,
    Table.find?_eq_of_mem s.world.db.schema.versionPkey hr, Option.map_some]

/-- A row that was updated has an artifact. -/
theorem artifactOf_ne_none_of_updated (hs : D.Reachable s) (hmem : l ∈ s.trace)
    (hupdates : Updates v l i a) : artifactOf s.world.db v ≠ none := by
  obtain ⟨s₁, s₂, hs₁, -, hl, hlater⟩ := Machine.exists_step_of_mem hs hmem
  obtain ⟨r, hr, rfl, ha⟩ := artifactOf_eq_some.mp (artifactOf_of_updates hs₁ hl hupdates)
  obtain ⟨r', hr', hid, -, hkept⟩ := (leads_extends hlater).versions r hr
  rw [← hid, artifactOf_eq hr']
  apply hkept
  rw [ha]
  exact Option.some_ne_none a

/-- **A race replaces the artifact.** -/
theorem replaced_of_race (hs : D.Reachable s) (hl : D.machine.Step s l s')
    (hrace : ¬ RaceFree v s l) :
    ∃ a b, artifactOf s.world.db v = some a ∧ artifactOf s'.world.db v = some b ∧ a ≠ b := by
  unfold RaceFree NotUpdatedSince at hrace
  push Not at hrace
  obtain ⟨n, b, hupdates, t₁, found, applied, t₂, htrace, l', hl', i, c, hearlier⟩ := hrace
  have hmem : l' ∈ s.trace := by
    rw [htrace]
    exact List.mem_append_right _ (List.mem_cons_of_mem _ hl')
  obtain ⟨a, ha⟩ := Option.ne_none_iff_exists'.mp (artifactOf_ne_none_of_updated hs hmem hearlier)
  refine ⟨a, b, ha, artifactOf_of_updates hs hl hupdates, ?_⟩
  rintro rfl
  exact fresh_of_updates hs hl hupdates v ha

/-- **A step keeps the artifact of a row exactly when it is no race.** -/
theorem keeps_iff_raceFree (hs : D.Reachable s) (hl : D.machine.Step s l s') :
    (∀ a, artifactOf s.world.db v = some a → artifactOf s'.world.db v = some a) ↔
      RaceFree v s l := by
  constructor
  · intro hkeeps
    by_contra hrace
    obtain ⟨a, b, ha, hb, hne⟩ := replaced_of_race hs hl hrace
    rw [hkeeps a ha] at hb
    exact hne (Option.some.inj hb)
  · intro hfree a ha
    exact keeps_of_raceFree hs hl hfree ha

/-! ## Runs without races -/

/-- A run without races keeps the artifact of a row. -/
theorem artifactOf_of_run (hs : D.Reachable s) (hlater : D.machine.Run (RaceFree v) s s')
    (ha : artifactOf s.world.db v = some a) : artifactOf s'.world.db v = some a := by
  induction hlater with
  | refl => exact ha
  | @tail s₁ s₂ hr hstep ih =>
    obtain ⟨l, hfree, hl⟩ := hstep
    have hs₁ : D.Reachable s₁ := hs.trans (Machine.Run.mono (fun _ _ _ => trivial) hr)
    exact keeps_of_raceFree hs₁ hl hfree ih

end Races

/-- What clients can rely on once a row has an artifact: the row keeps it, and a request that
arrives later is redirected to it. -/
structure KeepsArtifact (D : Deployment) (s s' : DeploymentState) (r : TerraformProviderVersionRow)
    (a : ℕ) : Prop where
  row : ∃ r' ∈ s'.world.db.versions, r'.id = r.id ∧ r'.artifactId = some a
  redirected : ∀ n response, (D.requests n).route = .artifact r.id →
    s.history (.request n) = [] → s'.pool (.request n) = .finished (.artifact (.ok response)) →
    response.uri = { bucket := D.bucketName, key := s3Key D.bucketPrefix a, expiresIn := 120 }

/-- **An artifact is never replaced in a run without races** for its row. -/
theorem artifact_never_replaced (D : Deployment) (s s' : DeploymentState)
    (r : TerraformProviderVersionRow) (a : ℕ) (hs : D.Reachable s)
    (hr : r ∈ s.world.db.versions) (ha : r.artifactId = some a)
    (hlater : D.machine.Run (RaceFree r.id) s s') : KeepsArtifact D s s' r a := by
  have hrow : artifactOf s.world.db r.id = some a := by rw [artifactOf_eq hr, ha]
  have hleads : D.Leads s s' := Machine.Run.mono (fun _ _ _ => trivial) hlater
  have hs' : D.Reachable s' := hs.trans hleads
  constructor
  · exact artifactOf_eq_some.mp (artifactOf_of_run hs hlater hrow)
  · intro n response hroute hnew hfin
    obtain ⟨result, heq, hresult⟩ := artifactResult_of_finished hs' hroute hfin
    cases heq
    obtain ⟨key, hpresigned⟩ := hresult.presigned response rfl
    rw [uri_of_presigned hs' hpresigned]
    obtain ⟨h₁, h₂, hh⟩ := List.append_of_mem hpresigned
    have hcall : Deployment.ArtifactCall D n r.id h₁ (.presign D.bucketName key 120) :=
      artifactCall_of_route hs' hroute hh
    -- the request has read the row in a state of the run
    have hread : ∀ detail, (⟨.selectArtifact r.id, .ok (some detail)⟩ : IoEvent) ∈ h₁ →
        detail.artifactId = some a := by
      intro detail hdetail
      have hmem : (⟨.selectArtifact r.id, .ok (some detail)⟩ : IoEvent) ∈
          s'.history (.request n) := by
        rw [hh]
        exact List.mem_append_left _ hdetail
      obtain ⟨s₁, hbefore, hselect⟩ := read_in_run hlater hnew hmem
      obtain ⟨r₁, hnames, hversion, hid⟩ := selectArtifact_eq_some hselect
      have hsame : r₁.id = r.id := Int.natCast_inj.mp hversion
      rw [hid, ← artifactOf_eq hnames.provider.1, hsame]
      exact artifactOf_of_run hs hbefore hrow
    generalize hc : Call.presign D.bucketName key 120 = c at hcall
    cases hcall with
    | read => cases hc
    | fetch detail tr c hnone hc' =>
      have hsome := hread detail List.mem_cons_self
      rw [hnone] at hsome
      cases hsome
    | stash detail tr id body tr' c hnone hfetched hstash => cases hstash <;> cases hc
    | redirectKnown detail id hid =>
      cases hc
      have hsome := hread detail List.mem_cons_self
      rw [hid] at hsome
      cases hsome
      rfl
    | redirectNew detail tr id body tr' hnone hfetched hstash =>
      have hsome := hread detail List.mem_cons_self
      rw [hnone] at hsome
      cases hsome

/-! ## Scripts -/

/-- The row of the version, with its archive. -/
def storedRow (a : ℕ) : TerraformProviderVersionRow where
  id := 1
  providerId := 1
  version := "1.0.0".toList
  os := "linux".toList
  arch := "amd64".toList
  artifactId := some a
  artifactTimestamp := some 0

/-- The step is no update. -/
def noUpdate : DeploymentLabel → Bool
  | .call _ ⟨.updateArtifact _ _, _⟩ _ => false
  | _ => true

/-- A step that is no update races with nobody. -/
theorem raceFree_of_noUpdate (v : ℕ) (s : DeploymentState) (l : DeploymentLabel)
    (h : noUpdate l = true) : RaceFree v s l := by
  intro n a hupdates
  cases hupdates <;> cases h

/-- A second client is redirected to what the first one has stored. -/
theorem artifact_never_replaced_later : ∃ s s', archiveDeployment.Reachable s ∧
    s'.pool (.request 2) = .finished (.artifact (.ok { uri :=
      { bucket := "terrashine".toList, key := s3Key [] 1, expiresIn := 120 } })) ∧
    KeepsArtifact archiveDeployment s s' (storedRow 1) 1 := by
  obtain ⟨s, s', hs, hlater, hview⟩ : ∃ s s', archiveDeployment.Reachable s ∧
      archiveDeployment.machine.Run (RaceFree 1) s s' ∧
      (s.world.db.versions, s'.pool (.request 2)) =
        ([storedRow 1], .finished (.artifact (.ok { uri :=
          { bucket := "terrashine".toList, key := s3Key [] 1, expiresIn := 120 } }))) :=
    Machine.exists_runs_of_play_if (fun s l => raceFree_of_noUpdate 1 s l)
      (fun s s' : DeploymentState => (s.world.db.versions, s'.pool (.request 2)))
      (versionStored ++ readsNone 1 ++ downloads 1 1 ++ stores 1 1 1)
      [.start (.request 2), answered (.request 2) (.selectArtifact 1)
          (.ok (some { builtDetails with artifactId := some 1 })),
        usual (.request 2), .finish (.request 2)] rfl
  obtain ⟨hrows, hfin⟩ := Prod.mk.inj hview
  have hmem : storedRow 1 ∈ s.world.db.versions := by
    rw [hrows]
    exact List.mem_singleton_self _
  exact ⟨s, s', hs, hfin, artifact_never_replaced archiveDeployment s s' (storedRow 1) 1 hs hmem rfl
    hlater⟩

/-- **Two requests that read the row before either has stored its archive**: the second one
replaces the artifact of the first. -/
theorem artifact_replaced : ¬ ∀ (D : Deployment) (s s' : DeploymentState)
    (r : TerraformProviderVersionRow) (a : ℕ), D.Reachable s → D.Leads s s' →
    r ∈ s.world.db.versions → r.artifactId = some a →
    ∃ r' ∈ s'.world.db.versions, r'.id = r.id ∧ r'.artifactId = some a := by
  intro h
  obtain ⟨s, s', hs, hlater, hview⟩ : ∃ s s', archiveDeployment.Reachable s ∧
      archiveDeployment.Leads s s' ∧
      (s.world.db.versions, s'.world.db.versions) = ([storedRow 1], [storedRow 2]) :=
    Machine.exists_runs_of_play
      (fun s s' : DeploymentState => (s.world.db.versions, s'.world.db.versions))
      (versionStored ++ readsNone 1 ++ readsNone 2 ++ downloads 1 1 ++ stores 1 1 1)
      (downloads 2 2 ++ stores 2 2 2) rfl
  obtain ⟨hrows, hrows'⟩ := Prod.mk.inj hview
  have hmem : storedRow 1 ∈ s.world.db.versions := by
    rw [hrows]
    exact List.mem_singleton_self _
  obtain ⟨r', hr', -, ha⟩ := h archiveDeployment s s' (storedRow 1) 1 hs hlater hmem rfl
  rw [hrows', List.mem_singleton] at hr'
  subst hr'
  cases ha

end Terrashine.Analysis
