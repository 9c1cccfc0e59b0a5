import Terrashine.Analysis.Effects
import Terrashine.Analysis.FirstAnswer

/-!
# The catalogue of a reachable state

The catalogue of a reachable state is the union of the responses committed so far, read off
the trace: `offers_eq_committed`.  Only a store adds to it, and one that reports an error
adds nothing unless its acknowledgement was lost.
-/

set_option autoImplicit false

namespace Terrashine.Analysis

open Terrashine.Library Terrashine.Model Terrashine.Interface

/-! ## Committed responses -/

/-- The step commits a response for the provider: the transaction reports success, or its
acknowledgement is lost after an admissible response was written. -/
def Commits (p : TerraformProvider) (response : ProviderVersions) (l : DeploymentLabel) : Prop :=
  ∃ i r applied, l = .call i ⟨.storeProviderVersions p response, r⟩ applied ∧
    ((∃ n, r = .ok n) ∨ applied = true ∧ Accepted p response)

/-- The tuples of all responses committed for the provider in a trace. -/
def committed (trace : List DeploymentLabel) (p : TerraformProvider) : Set VersionTuple :=
  {v | ∃ l ∈ trace, ∃ response, Commits p response l ∧ v ∈ tuples response}

/-- One more step commits what it commits. -/
theorem committed_concat (trace : List DeploymentLabel) (l : DeploymentLabel)
    (p : TerraformProvider) :
    committed (trace ++ [l]) p =
      committed trace p ∪ {v | ∃ response, Commits p response l ∧ v ∈ tuples response} := by
  ext v
  constructor
  · rintro ⟨l', hl', response, hc, hv⟩
    rcases List.mem_append.mp hl' with hl' | hl'
    · exact .inl ⟨l', hl', response, hc, hv⟩
    · rw [List.mem_singleton] at hl'
      subst hl'
      exact .inr ⟨response, hc, hv⟩
  · rintro (⟨l', hl', response, hc, hv⟩ | ⟨response, hc, hv⟩)
    · exact ⟨l', List.mem_append_left _ hl', response, hc, hv⟩
    · exact ⟨l, List.mem_append_right _ (List.mem_singleton_self l), response, hc, hv⟩

/-- A step that is not a store commits nothing. -/
theorem not_commits_of_call {p : TerraformProvider} {response : ProviderVersions} {i : Task}
    {c : Call} {r : c.Ret} {applied : Bool} (hc : ∀ p response, c ≠ .storeProviderVersions p response) :
    ¬ Commits p response (.call i ⟨c, r⟩ applied) := by
  rintro ⟨j, r', applied', heq, -⟩
  cases heq
  exact hc p response rfl

/-! ## The catalogue of a reachable state -/

/-- The tuples of a provider are read off the keys of its rows. -/
theorem mem_offers {db : Database} {p : TerraformProvider} {v : VersionTuple} :
    v ∈ offers db p ↔
      ∃ q ∈ db.providers, q.provider = p ∧ (q.id, v) ∈ db.versions.map (·.key) := by
  constructor
  · rintro ⟨r, ⟨hr, q, hq, hid, hp⟩, rfl⟩
    refine ⟨q, hq, hp, List.mem_map.mpr ⟨r, hr, ?_⟩⟩
    rw [TerraformProviderVersionRow.key, hid]
  · rintro ⟨q, hq, hp, hmem⟩
    obtain ⟨r, hr, hkey⟩ := List.mem_map.mp hmem
    exact ⟨r, ⟨hr, q, hq, congrArg Prod.fst hkey, hp⟩, congrArg Prod.snd hkey⟩

/-- The catalogue only depends on the providers and on the keys of the version rows. -/
theorem offers_congr {db db' : Database} (hp : db'.providers = db.providers)
    (hv : db'.versions.map (·.key) = db.versions.map (·.key)) (p : TerraformProvider) :
    offers db' p = offers db p := by
  ext v
  rw [mem_offers, mem_offers, hp, hv]

/-- The update of an artifact leaves the tuples as they are. -/
theorem offers_updateArtifact (now : ℕ) (db : Database) (artifactId versionId : ℕ)
    (p : TerraformProvider) :
    offers (db.updateArtifact now artifactId versionId).2 p = offers db p := by
  unfold Database.updateArtifact
  split
  · rfl
  · have hkeys : (db.versions.map (·.withArtifact now artifactId versionId)).map (·.key) =
        db.versions.map (·.key) := Table.map_update _ withArtifact_key
    apply offers_congr _ hkeys
    rfl

/-- An upserted token leaves the tuples as they are. -/
theorem offers_upsertAuthToken (db : Database) (hostname token : Text) (p : TerraformProvider) :
    offers (db.upsertAuthToken hostname token).2 p = offers db p := by
  obtain ⟨hproviders, hversions⟩ := tables_upsertAuthToken db hostname token
  exact offers_congr hproviders (congrArg _ hversions) p

/-- A deleted token leaves the tuples as they are. -/
theorem offers_deleteAuthToken (db : Database) (hostname : Text) (p : TerraformProvider) :
    offers (db.deleteAuthToken hostname).2 p = offers db p := by
  obtain ⟨hproviders, hversions⟩ := tables_deleteAuthToken db hostname
  exact offers_congr hproviders (congrArg _ hversions) p

/-- A statement leaves the tuples of a provider alone when its result does. -/
theorem statement_offers {w w' : World} {ε α : Type} [DecidableEq ε] [DecidableEq α] {lost : ε}
    {result : Except ε α × Database} {answer : Except ε α} {applied : Bool}
    {p : TerraformProvider} (hresult : offers result.2 p = offers w.db p)
    (h : w.statement lost result answer applied = some w') : offers w'.db p = offers w.db p := by
  rcases statement_eq_some h with ⟨rfl, -⟩ | ⟨rfl, -⟩
  · exact hresult
  · rfl

/-- A call that is not a store leaves the catalogue alone. -/
theorem perform_offers {w w' : World} {k : ℕ} {channel : Option ℕ} {applied : Bool} {c : Call}
    {r : c.Ret} (hc : ∀ p response, c ≠ .storeProviderVersions p response)
    (h : w.perform k channel c r applied = some w') (p : TerraformProvider) :
    offers w'.db p = offers w.db p := by
  have hother : onDatabase c = false → offers w'.db p = offers w.db p := by
    intro hq
    rw [(perform_frame h).db hq]
  cases c with
  | storeProviderVersions p' response => exact absurd rfl (hc p' response)
  | nextvalArtifactIds =>
    have hsame : offers w.db.nextvalArtifactIds.2 p = offers w.db p := rfl
    exact statement_offers hsame h
  | updateArtifact artifactId versionId => exact statement_offers (offers_updateArtifact ..) h
  | upsertAuthToken hostname token => exact statement_offers (offers_upsertAuthToken ..) h
  | deleteAuthToken hostname => exact statement_offers (offers_deleteAuthToken ..) h
  | _ => exact hother rfl

/-- **A store adds the tuples of its response when it commits**, and then the response was
admissible. -/
theorem perform_store {w w' : World} {k : ℕ} {channel : Option ℕ} {applied : Bool} {i : Task}
    {p : TerraformProvider} {response : ProviderVersions}
    {r : (Call.storeProviderVersions p response).Ret}
    (h : w.perform k channel (.storeProviderVersions p response) r applied = some w') :
    (Commits p response (.call i ⟨.storeProviderVersions p response, r⟩ applied) ∧
        Accepted p response ∧
        ∃ pid new, Stored w.db w'.db p response pid new) ∨
      (¬ Commits p response (.call i ⟨.storeProviderVersions p response, r⟩ applied) ∧
        w'.db.tables = w.db.tables) := by
  have hcommits : Commits p response (.call i ⟨.storeProviderVersions p response, r⟩ applied) ↔
      (∃ n, r = .ok n) ∨ applied = true ∧ Accepted p response := by
    constructor
    · rintro ⟨j, r', applied', heq, hc⟩
      cases heq
      exact hc
    · intro hc
      exact ⟨i, r, applied, rfl, hc⟩
  rw [hcommits]
  cases hrun : storeProviderVersions none w.clock w.db p response with
  | mk result db' =>
    have hst : w.statement (.databaseError .unavailable)
        (storeProviderVersions none w.clock w.db p response) r applied = some w' := h
    rw [hrun] at hst
    rcases statement_eq_some hst with ⟨rfl, hr⟩ | ⟨rfl, hne, hr, happ⟩
    · cases result with
      | ok n =>
        obtain ⟨-, ha⟩ := store_ok_accepted hrun
        obtain ⟨pid, new, hs, -⟩ := store_ok hrun
        refine .inl ⟨?_, ha, pid, new, hs⟩
        rcases hr with hr | ⟨-, happ⟩
        · exact .inl ⟨n, hr⟩
        · exact .inr ⟨happ, ha⟩
      | error err =>
        refine .inr ⟨?_, (store_error hrun).1⟩
        rintro (⟨n, hn⟩ | ⟨-, ha⟩)
        · rcases hr with hr | ⟨hr, -⟩
          · rw [hn] at hr
            cases hr
          · rw [hn] at hr
            cases hr
        · obtain ⟨db₁, pid, new, hok, -⟩ := store_accepted ha w.clock w.db
          rw [hrun] at hok
          cases hok
    · refine .inr ⟨?_, rfl⟩
      rintro (⟨n, hn⟩ | ⟨happ', -⟩)
      · rw [hn] at hr
        cases hr
      · rw [happ] at happ'
        cases happ'

section Runs

variable {D : Deployment} {s s' : DeploymentState} {l : DeploymentLabel}

/-- One step adds to the catalogue what it commits. -/
theorem step_offers (h : D.machine.Step s l s') (p : TerraformProvider) :
    offers s'.world.db p =
      offers s.world.db p ∪ {v | ∃ response, Commits p response l ∧ v ∈ tuples response} := by
  have hnone : (∀ response, ¬ Commits p response l) →
      {v | ∃ response, Commits p response l ∧ v ∈ tuples response} = (∅ : Set VersionTuple) := by
    intro hl
    rw [Set.eq_empty_iff_forall_notMem]
    rintro v ⟨response, hc, -⟩
    exact hl response hc
  rcases step_cases h with ⟨i, ⟨c, r⟩, applied, rfl, hw⟩ | hq
  · by_cases hc : ∀ p response, c ≠ .storeProviderVersions p response
    · rw [hnone fun response => not_commits_of_call hc, Set.union_empty]
      exact perform_offers hc hw p
    · push Not at hc
      obtain ⟨p', response, rfl⟩ := hc
      rcases perform_store (i := i) hw with ⟨hcommits, -, pid, new, hs⟩ | ⟨hnot, htables⟩
      · rw [hs.offers]
        by_cases hp : p = p'
        · subst hp
          rw [if_pos rfl]
          congr 1
          ext v
          constructor
          · intro hv
            exact ⟨response, hcommits, hv⟩
          · rintro ⟨response', ⟨j, r', applied', heq, -⟩, hv⟩
            cases heq
            exact hv
        · rw [if_neg hp, hnone, Set.union_empty]
          rintro response' ⟨j, r', applied', heq, -⟩
          cases heq
          exact hp rfl
      · rw [hnone, Set.union_empty]
        · apply offers_congr
          · rw [Database.providers, htables]
          · rw [Database.versions, htables]
        · intro response' hcommits
          have hcopy := hcommits
          obtain ⟨j, r', applied', heq, -⟩ := hcopy
          cases heq
          exact hnot hcommits
  · rw [hnone, Set.union_empty]
    · apply offers_congr
      · rw [Database.providers, hq.tables]
      · rw [Database.versions, hq.tables]
    · rintro response ⟨j, r, applied, heq, -⟩
      exact hq.noCall j _ applied heq

/-- **The catalogue is what was committed.** -/
theorem offers_eq_committed (hs : D.Reachable s) (p : TerraformProvider) :
    offers s.world.db p = committed s.trace p := by
  refine Machine.invariant (I := fun s => offers s.world.db p = committed s.trace p) ?_ ?_ hs
  · ext v
    constructor
    · rintro ⟨r, ⟨hr, -⟩, -⟩
      exact absurd hr List.not_mem_nil
    · rintro ⟨l, hl, -⟩
      exact absurd hl List.not_mem_nil
  · intro s l s' _ ih _ hl
    rw [step_offers hl, hl.trace, committed_concat, ih]

end Runs

end Terrashine.Analysis
