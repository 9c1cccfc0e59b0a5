import Terrashine.Analysis.StoredArtifacts

/-!
# The artifact ids of the rows

Seen from the artifact requests, the table of versions is a map from row ids to artifact ids.
Only an update of a row changes it, so an id that stands in a row was put there by a request:
`updated_of_reachable`.  The request had then completed the upload of a whole archive under the
key of that id: `completed_of_update`.
-/

set_option autoImplicit false

namespace Terrashine.Analysis

open Terrashine.Library Terrashine.Model Terrashine.Interface

/-- The artifact id in the version row `v`. -/
def artifactOf (db : Database) (v : ℕ) : Option ℕ :=
  (db.versions.find? fun r => r.id = v).bind (·.artifactId)

/-! ## Statements -/

section Statements

variable {db db' : Database} {r : TerraformProviderVersionRow} {v a : ℕ}

/-- The artifact of a row that is there. -/
theorem artifactOf_eq (hr : r ∈ db.versions) : artifactOf db r.id = r.artifactId := by
  unfold artifactOf
  rw [Table.find?_eq_of_mem db.schema.versionPkey hr, Option.bind_some]

/-- An artifact is that of a row. -/
theorem artifactOf_eq_some :
    artifactOf db v = some a ↔ ∃ r ∈ db.versions, r.id = v ∧ r.artifactId = some a := by
  constructor
  · intro h
    obtain ⟨r, hfound, ha⟩ := Option.bind_eq_some_iff.mp h
    have hid : r.id = v := by simpa using List.find?_some hfound
    exact ⟨r, List.mem_of_find?_eq_some hfound, hid, ha⟩
  · rintro ⟨r, hr, rfl, ha⟩
    rw [artifactOf_eq hr, ha]

/-- The artifact ids are read off the version rows. -/
theorem artifactOf_of_versions (h : db'.versions = db.versions) : artifactOf db' = artifactOf db := by
  funext v
  unfold artifactOf
  rw [h]

/-- New rows have no artifact. -/
theorem Stored.artifactOf {p : TerraformProvider} {response : ProviderVersions} {pid : ℕ}
    {new : List TerraformProviderVersionRow} (h : Stored db db' p response pid new) :
    artifactOf db' = artifactOf db := by
  funext v
  unfold Analysis.artifactOf
  rw [h.versions, List.find?_append]
  cases db.versions.find? fun r => r.id = v with
  | some r => rfl
  | none =>
    rw [Option.none_or, Option.bind_none, Option.bind_eq_none_iff]
    intro r hr
    exact (h.fresh r (List.mem_of_find?_eq_some hr)).2.1

/-- A store gives no row an artifact. -/
theorem artifactOf_store (fault : Option StoreStep) (now : ℕ) (db : Database)
    (p : TerraformProvider) (response : ProviderVersions) :
    artifactOf (storeProviderVersions fault now db p response).2 = artifactOf db := by
  cases hrun : storeProviderVersions fault now db p response with
  | mk result db' =>
    cases result with
    | error err =>
      apply artifactOf_of_versions
      exact congrArg Tables.terraformProviderVersion (store_error hrun).1
    | ok n =>
      obtain ⟨pid, new, hs, -⟩ := store_ok hrun
      exact hs.artifactOf

/-- An update that reports success has written its id into its row, and into no other. -/
theorem artifactOf_updateArtifact {now versionId : ℕ}
    (h : db.updateArtifact now a versionId = (.ok (), db')) :
    artifactOf db' v = if v = versionId then (db.versions.find? fun r => r.id = v).map fun _ => a
      else artifactOf db v := by
  unfold Database.updateArtifact at h
  split at h
  · cases h
  · cases h
    have hrow : (db.versions.map (·.withArtifact now a versionId)).find? (fun r => r.id = v) =
        (db.versions.find? fun r => r.id = v).map (·.withArtifact now a versionId) :=
      Table.find?_update _ withArtifact_id v
    unfold artifactOf
    show ((db.versions.map (·.withArtifact now a versionId)).find? fun r => r.id = v).bind _ = _
    rw [hrow]
    cases hfound : db.versions.find? fun r => r.id = v with
    | none => simp
    | some r =>
      have hid : r.id = v := by simpa using List.find?_some hfound
      simp [withArtifact_artifactId, hid]

/-- What an update can do to the map. -/
theorem artifactOf_update_cases (now : ℕ) (db : Database) (a versionId v : ℕ) :
    artifactOf (db.updateArtifact now a versionId).2 v = artifactOf db v ∨
      v = versionId ∧ (db.updateArtifact now a versionId).1 = .ok () ∧
        artifactOf (db.updateArtifact now a versionId).2 v = some a := by
  cases hrun : db.updateArtifact now a versionId with
  | mk result db' =>
    cases result with
    | error err =>
      left
      unfold Database.updateArtifact at hrun
      split at hrun
      · cases hrun
        rfl
      · cases hrun
    | ok u =>
      rw [artifactOf_updateArtifact hrun]
      by_cases hv : v = versionId
      · rw [if_pos hv]
        cases hfound : db.versions.find? fun r => r.id = v with
        | none =>
          left
          unfold artifactOf
          rw [hfound]
          rfl
        | some r => exact .inr ⟨hv, rfl, rfl⟩
      · rw [if_neg hv]
        exact .inl rfl

end Statements

/-! ## Steps -/

/-- The step is the update of row `v` to the id `a` by task `i`, and it took effect. -/
inductive Updates (v : ℕ) : DeploymentLabel → Task → ℕ → Prop
  | answered (i : Task) (a : ℕ) (applied : Bool) :
      Updates v (.call i ⟨.updateArtifact a v, .ok ()⟩ applied) i a
  | lost (i : Task) (a : ℕ) (err : SqlError) :
      Updates v (.call i ⟨.updateArtifact a v, .error err⟩ true) i a

section Steps

variable {D : Deployment} {s s' : DeploymentState} {l : DeploymentLabel} {v a n : ℕ} {i : Task}

/-- An update is a call of its task. -/
theorem Updates.own (h : Updates v l i a) :
    ∃ r, Label.own i l = some (⟨.updateArtifact a v, r⟩ : IoEvent) := by
  cases h with
  | answered applied => exact ⟨_, if_pos rfl⟩
  | lost err => exact ⟨_, if_pos rfl⟩

/-- A call that changes the artifact of a row is an update of this row. -/
theorem perform_artifactOf {w w' : World} {k : ℕ} {channel : Option ℕ} {applied : Bool} {c : Call}
    {r : c.Ret} (h : w.perform k channel c r applied = some w') (v : ℕ) :
    artifactOf w'.db v = artifactOf w.db v ∨
      ∃ a, Updates v (.call i ⟨c, r⟩ applied) i a ∧ artifactOf w'.db v = some a := by
  have hsame : artifactOf w'.db = artifactOf w.db → artifactOf w'.db v = artifactOf w.db v ∨
      ∃ a, Updates v (.call i ⟨c, r⟩ applied) i a ∧ artifactOf w'.db v = some a := by
    intro heq
    rw [heq]
    exact .inl rfl
  have hother : onDatabase c = false → artifactOf w'.db = artifactOf w.db := by
    intro hc
    rw [(perform_frame h).db hc]
  have hstatement : ∀ {ε α : Type} [DecidableEq ε] [DecidableEq α] {lost : ε}
      {result : Except ε α × Database} {answer : Except ε α},
      w.statement lost result answer applied = some w' →
      artifactOf result.2 = artifactOf w.db → artifactOf w'.db = artifactOf w.db := by
    intro ε α _ _ lost result answer hw hresult
    rcases statement_eq_some hw with ⟨rfl, -⟩ | ⟨rfl, -⟩
    · exact hresult
    · rfl
  cases c with
  | storeProviderVersions p response =>
    exact hsame (hstatement h (artifactOf_store ..))
  | nextvalArtifactIds => exact hsame (hstatement h (artifactOf_of_versions rfl))
  | upsertAuthToken hostname token =>
    exact hsame (hstatement h (artifactOf_of_versions (tables_upsertAuthToken ..).2))
  | deleteAuthToken hostname =>
    exact hsame (hstatement h (artifactOf_of_versions (tables_deleteAuthToken ..).2))
  | updateArtifact artifactId versionId =>
    have hupdate : w.statement SqlError.unavailable (w.db.updateArtifact w.clock artifactId versionId)
      r applied = some w' := h
    rcases statement_eq_some hupdate with ⟨rfl, hanswer⟩ | ⟨rfl, -⟩
    · rcases artifactOf_update_cases w.clock w.db artifactId versionId v with heq | ⟨rfl, hok, heq⟩
      · exact .inl heq
      · right
        refine ⟨artifactId, ?_, heq⟩
        rcases hanswer with rfl | ⟨rfl, rfl⟩
        · rw [hok]
          exact .answered i artifactId applied
        · exact .lost i artifactId _
    · exact .inl rfl
  | _ => exact hsame (hother rfl)

/-- **Only an update of its row changes an artifact id.** -/
theorem step_artifactOf (hl : D.machine.Step s l s') (v : ℕ) :
    artifactOf s'.world.db v = artifactOf s.world.db v ∨
      ∃ i a, Updates v l i a ∧ artifactOf s'.world.db v = some a := by
  rcases step_cases hl with ⟨i, ev, applied, rfl, hw⟩ | hq
  · rcases perform_artifactOf (i := i) hw v with heq | ⟨a, hupdates, ha⟩
    · exact .inl heq
    · exact .inr ⟨i, a, hupdates, ha⟩
  · left
    rw [artifactOf_of_versions (congrArg Tables.terraformProviderVersion hq.tables)]

/-- **The id in a row was put there by some task.** -/
theorem updated_of_reachable (hs : D.Reachable s) (ha : artifactOf s.world.db v = some a) :
    ∃ i r, (⟨.updateArtifact a v, r⟩ : IoEvent) ∈ s.history i := by
  revert ha
  refine Machine.invariant (I := fun s => artifactOf s.world.db v = some a →
    ∃ i r, (⟨.updateArtifact a v, r⟩ : IoEvent) ∈ s.history i) ?_ ?_ hs
  · intro ha
    cases ha
  · intro s l s' _ ih _ hl ha
    rcases step_artifactOf hl v with heq | ⟨i, b, hupdates, hb⟩
    · rw [heq] at ha
      obtain ⟨i, r, hev⟩ := ih ha
      exact ⟨i, r, (history_extends hl i).subset hev⟩
    · rw [ha] at hb
      cases hb
      obtain ⟨r, hown⟩ := hupdates.own
      refine ⟨i, r, ?_⟩
      rw [hl.history, hown]
      exact List.mem_append_right _ (List.mem_singleton_self _)

/-- The query answers with the row. -/
theorem perform_selectArtifact {w w' : World} {k : ℕ} {channel : Option ℕ} {applied : Bool}
    {versionId : ℤ} {found : Option ArtifactDetails}
    (h : w.perform k channel (.selectArtifact versionId) (.ok found) applied = some w') :
    w.db.selectArtifact versionId = found := by
  have hquery : w.query true (fun row => row = w.db.selectArtifact versionId) (.ok found) =
    some w' := h
  obtain ⟨-, hok⟩ := query_eq_some hquery
  exact (of_decide_eq_true (hok found rfl).2).symm

/-- What a request has read of a row, it has read in an earlier state. -/
theorem read_of_history (hs : D.Reachable s) {versionId : ℤ} {found : Option ArtifactDetails}
    (hev : (⟨.selectArtifact versionId, .ok found⟩ : IoEvent) ∈ s.history i) :
    ∃ s₀, D.Reachable s₀ ∧ D.Leads s₀ s ∧ s₀.world.db.selectArtifact versionId = found := by
  obtain ⟨s₀, s₁, applied, hs₀, -, hl, hlater⟩ := Machine.exists_step hs hev
  have hw := perform_of_step hl
  exact ⟨s₀, hs₀, .head ⟨_, trivial, hl⟩ hlater, perform_selectArtifact hw⟩

/-- What comes before an update: the upload of a whole archive, and its completion. -/
theorem uploaded_of_updateCall {versionId : ℤ} {h : List IoEvent}
    (hcall : Deployment.ArtifactCall D n versionId h (.updateArtifact a v)) :
    ∃ detail tr body uploadId parts, detail.versionId = v ∧ detail.artifactId = none ∧
      body.ending = .complete ∧ (parts.map Prod.fst).flatten = body.chunks.flatten ∧
      Fetched D.deps (D.args (D.requests n).instanceId).upstreamRegistryPort detail tr a body ∧
      h = ⟨.selectArtifact versionId, .ok (some detail)⟩ ::
        (tr ++ ⟨.createMultipartUpload D.bucketName (s3Key D.bucketPrefix a),
            .ok (some uploadId)⟩ ::
          (uploadEvents ⟨D.bucketName, s3Key D.bucketPrefix a, uploadId⟩ 1 parts ++
            [⟨.completeMultipartUpload D.bucketName (s3Key D.bucketPrefix a) uploadId
              (listed 1 parts), .ok ()⟩])) := by
  generalize hc : Call.updateArtifact a v = c at hcall
  cases hcall with
  | read => cases hc
  | fetch detail tr c hnone hc' =>
    subst hc
    simp [Fetching, Upstream] at hc'
  | redirectKnown detail id hsome => cases hc
  | redirectNew detail tr id body tr' hnone hfetched hstash => cases hc
  | stash detail tr id body tr' c hnone hfetched hstash =>
    cases hstash with
    | update uploadId parts hending hbodies =>
      cases hc
      exact ⟨detail, tr, body, uploadId, parts, rfl, hnone, hending, hbodies, hfetched, rfl⟩
    | _ => cases hc

/-- **A request updates a row with the id of an archive that it has stored.** -/
theorem completed_of_update (hs : D.Reachable s) {r : Except SqlError Unit}
    (hev : (⟨.updateArtifact a v, r⟩ : IoEvent) ∈ s.history i) :
    ∃ n detail body parts, i = .request n ∧ detail.versionId = v ∧
      Completed D n (s.history (.request n)) detail a body parts ∧ body.ending = .complete ∧
      (parts.map Prod.fst).flatten = body.chunks.flatten := by
  obtain ⟨h₁, h₂, hh⟩ := List.append_of_mem hev
  obtain ⟨n, versionId, rfl, hroute, hcall⟩ := artifactCall_of_stores hs hh rfl
  obtain ⟨detail, tr, body, uploadId, parts, hversion, -, hending, hbodies, hfetched, heq⟩ :=
    uploaded_of_updateCall hcall
  refine ⟨n, detail, body, parts, rfl, hversion, ?_, hending, hbodies⟩
  refine ⟨versionId, tr, uploadId, ⟨.updateArtifact a v, r⟩ :: h₂, hroute, hfetched, ?_⟩
  rw [hh, heq]
  simp

end Steps

end Terrashine.Analysis
