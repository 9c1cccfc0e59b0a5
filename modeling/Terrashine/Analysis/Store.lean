import Terrashine.Program.Index

/-!
# What the store transaction does

`storeProviderVersions` flattens a nested response into three arrays, zips them back
together inside the database, crosses the rows with the provider it has just upserted and
skips the conflicting ones.  Here all of that is one set union: `Stored` says what a
committed transaction leaves behind, `store_ok` that every committed one does so, and
`store_error` that one that fails leaves the tables alone.
-/

set_option autoImplicit false

namespace Terrashine.Analysis

open Terrashine.Library Terrashine.Model

/-- The tuples a response offers: each version with each of its own platforms. -/
def tuples (response : ProviderVersions) : List VersionTuple :=
  response.versions.flatMap fun item => item.platforms.map fun platform =>
    { version := item.version, os := platform.os, arch := platform.arch }

/-- A tuple pairs a version with one of its own platforms. -/
theorem mem_tuples {response : ProviderVersions} {v : VersionTuple} :
    v ∈ tuples response ↔ ∃ item ∈ response.versions, ∃ platform ∈ item.platforms,
      v = { version := item.version, os := platform.os, arch := platform.arch } := by
  unfold tuples
  rw [List.mem_flatMap]
  constructor
  · rintro ⟨item, hitem, hv⟩
    obtain ⟨platform, hplatform, rfl⟩ := List.mem_map.mp hv
    exact ⟨item, hitem, platform, hplatform, rfl⟩
  · rintro ⟨item, hitem, platform, hplatform, rfl⟩
    exact ⟨item, hitem, List.mem_map_of_mem hplatform⟩

/-! ## The three arrays -/

/-- The versions array is the first column of the tuples. -/
theorem versionColumn_eq (response : ProviderVersions) :
    response.versionColumn = (tuples response).map (·.version) := by
  simp [ProviderVersions.versionColumn, tuples, List.map_flatMap, Function.comp_def]

/-- The array of the operating systems is the second column. -/
theorem osColumn_eq (response : ProviderVersions) :
    response.osColumn = (tuples response).map (·.os) := by
  simp [ProviderVersions.osColumn, tuples, List.map_flatMap, Function.comp_def]

/-- The array of the architectures is the third column. -/
theorem archColumn_eq (response : ProviderVersions) :
    response.archColumn = (tuples response).map (·.arch) := by
  simp [ProviderVersions.archColumn, tuples, List.map_flatMap, Function.comp_def]

/-- The candidate row of a tuple: no column is null. -/
def candidate (v : VersionTuple) : Option Text × Option Text × Option Text :=
  (some v.version, some v.os, some v.arch)

/-- Zipping the columns of one list gives its elements back. -/
theorem unnest_columns (vs : List VersionTuple) :
    unnest (vs.map (·.version)) (vs.map (·.os)) (vs.map (·.arch)) = vs.map candidate := by
  unfold unnest
  rw [List.length_map, List.length_map, List.length_map, Nat.max_self, Nat.max_self]
  apply List.ext_getElem
  · simp
  · intro i h₁ h₂
    have hi : i < vs.length := by simpa using h₂
    rw [List.getElem_map, List.getElem_range, List.getElem_map]
    simp [candidate, hi]

/-! ## The upsert -/

/-- The upsert adds the provider when it is missing; ids and providers of all other rows
stay. -/
theorem providers_withProvider (now : ℕ) (t : Tables) (q : Sequences) (p : TerraformProvider) :
    (t.withProvider now q p).terraformProvider.map (fun r => (r.id, r.provider)) =
      t.terraformProvider.map (fun r => (r.id, r.provider)) ++
        (if Table.HasKey (·.provider) t.terraformProvider p then []
         else [(q.terraformProviderId, p)]) := by
  unfold Tables.withProvider
  split
  · rw [List.append_nil]
    apply Table.map_update
    intro r
    split <;> rfl
  · rw [List.map_append]
    rfl

/-- An upserted provider leaves the versions alone. -/
theorem versions_withProvider (now : ℕ) (t : Tables) (q : Sequences) (p : TerraformProvider) :
    (t.withProvider now q p).terraformProviderVersion = t.terraformProviderVersion := by
  unfold Tables.withProvider
  split <;> rfl

/-- An upserted provider leaves the hosts alone. -/
theorem hosts_withProvider (now : ℕ) (t : Tables) (q : Sequences) (p : TerraformProvider) :
    (t.withProvider now q p).terraformRegistryHost = t.terraformRegistryHost := by
  unfold Tables.withProvider
  split <;> rfl

/-- After the upsert the provider has a row. -/
theorem hasKey_withProvider (now : ℕ) (t : Tables) (q : Sequences) (p : TerraformProvider) :
    Table.HasKey (·.provider) (t.withProvider now q p).terraformProvider p := by
  have hmap := providers_withProvider now t q p
  have hkeys : (t.withProvider now q p).terraformProvider.map (·.provider) =
      t.terraformProvider.map (·.provider) ++
        (if Table.HasKey (·.provider) t.terraformProvider p then [] else [p]) := by
    have h := congrArg (List.map Prod.snd) hmap
    rw [List.map_map, List.map_append, List.map_map] at h
    rw [show List.map (fun r : TerraformProviderRow => r.provider) _ = _ from h]
    split <;> rfl
  rw [Table.hasKey_iff, hkeys, List.mem_append]
  by_cases h : Table.HasKey (·.provider) t.terraformProvider p
  · exact .inl (Table.hasKey_iff.mp h)
  · rw [if_neg h]
    exact .inr (List.mem_singleton_self p)

/-- The query for the provider's id finds its one row. -/
theorem selectProviderId_eq {db : Database} {r : TerraformProviderRow} (hr : r ∈ db.providers) :
    db.selectProviderId r.provider = [r.id] := by
  have hone := Table.filter_eq_singleton db.schema.uniqueProvider hr
  unfold Database.selectProviderId
  rw [hone]
  rfl

/-! ## The insertion -/

/-- The rows the insertion of `vs` for the provider row `pid` adds to the table. -/
def newRows (db : Database) (pid : ℕ) (vs : List VersionTuple) :
    List TerraformProviderVersionRow :=
  Table.insertNew (·.key) (fun id (k : ℕ × VersionTuple) => newVersionRow id k.1 k.2) db.versions
    db.sequences.terraformProviderVersionId (vs.map fun v => (pid, v))

/-- The next id of the version table is free, so only the tuple can conflict. -/
theorem versionConflict_iff (db : Database) (pid : ℕ) (v : VersionTuple) :
    db.tables.versionConflict db.sequences pid v ↔
      Table.HasKey (·.key) db.versions (pid, v) := by
  unfold Tables.versionConflict
  constructor
  · rintro (⟨r, hr, heq⟩ | h)
    · exact absurd heq (db.schema.versionGenerated r hr).ne
    · exact h
  · exact .inr

/-- Drawing an id keeps the schema. -/
theorem schema_drawVersion (db : Database) : Schema db.tables db.sequences.drawVersion :=
  db.schema.advance Sequences.le_drawVersion

/-- The database after a candidate that was skipped. -/
def skipped (db : Database) : Database :=
  { db with sequences := db.sequences.drawVersion, schema := schema_drawVersion db }

/-- A candidate whose key is there is skipped. -/
theorem insertVersion_skipped {db : Database} {pid : ℕ} {v : VersionTuple} (hv : v.Fits)
    (hc : Table.HasKey (·.key) db.versions (pid, v)) :
    db.insertVersion pid (candidate v) = (.ok [], skipped db) := by
  have hconf := (versionConflict_iff db pid v).mpr hc
  unfold Database.insertVersion candidate
  dsimp only
  rw [dif_pos hv, dif_pos hconf]
  rfl

/-- A candidate that fits and is new is inserted. -/
theorem insertVersion_new {db : Database} {pid : ℕ} {v : VersionTuple} (hv : v.Fits)
    (hc : ¬ Table.HasKey (·.key) db.versions (pid, v))
    (hpid : Table.HasKey (·.id) db.providers pid) :
    ∃ db₁, db.insertVersion pid (candidate v) = (.ok [v], db₁) ∧
      db₁.tables = db.tables.withVersion db.sequences pid v ∧
      db₁.sequences = db.sequences.drawVersion := by
  have hconf : ¬ db.tables.versionConflict db.sequences pid v :=
    fun h => hc ((versionConflict_iff db pid v).mp h)
  unfold Database.insertVersion candidate
  dsimp only
  rw [dif_pos hv, dif_neg hconf, dif_pos hpid]
  exact ⟨_, rfl, rfl, rfl⟩

/-- A candidate that does not fit fails. -/
theorem insertVersion_unfit {db : Database} {pid : ℕ} {v : VersionTuple} (hv : ¬ v.Fits) :
    db.insertVersion pid (candidate v) = (.error .checkViolation, skipped db) := by
  unfold Database.insertVersion candidate
  dsimp only
  rw [dif_neg hv]
  rfl

/-- A skipped candidate adds no row. -/
theorem newRows_skipped {db : Database} {pid : ℕ} {v : VersionTuple} {vs : List VersionTuple}
    (hc : Table.HasKey (·.key) db.versions (pid, v)) :
    newRows db pid (v :: vs) = newRows (skipped db) pid vs := by
  unfold newRows
  rw [List.map_cons, Table.insertNew, if_pos hc]
  rfl

/-- A new candidate adds its row. -/
theorem newRows_new {db db₁ : Database} {pid : ℕ} {v : VersionTuple} {vs : List VersionTuple}
    (hc : ¬ Table.HasKey (·.key) db.versions (pid, v))
    (htab : db₁.tables = db.tables.withVersion db.sequences pid v)
    (hseq : db₁.sequences = db.sequences.drawVersion) :
    newRows db pid (v :: vs) =
      newVersionRow db.sequences.terraformProviderVersionId pid v :: newRows db₁ pid vs := by
  unfold newRows Database.versions
  rw [List.map_cons, Table.insertNew, if_neg hc, htab, hseq]
  rfl

/-- **The insertion, row by row.**  When every tuple fits and the provider row exists, the
statement succeeds, adds the rows of `insertNew` and returns their tuples. -/
theorem insertVersions_ok (vs : List VersionTuple) (db : Database) (pid : ℕ)
    (hfit : ∀ v ∈ vs, v.Fits) (hpid : Table.HasKey (·.id) db.providers pid) :
    ∃ db', db.insertVersions (vs.map fun v => (candidate v, pid)) =
        (.ok ((newRows db pid vs).map (·.tuple)), db') ∧
      db'.providers = db.providers ∧ db'.versions = db.versions ++ newRows db pid vs ∧
      db'.hosts = db.hosts ∧ db.sequences.Le db'.sequences := by
  induction vs generalizing db with
  | nil =>
    refine ⟨db, rfl, rfl, ?_, rfl, Sequences.Le.refl _⟩
    simp [newRows, Table.insertNew]
  | cons v vs ih =>
    have hv : v.Fits := hfit v List.mem_cons_self
    have hvs : ∀ v ∈ vs, v.Fits := fun v hv => hfit v (List.mem_cons_of_mem _ hv)
    rw [List.map_cons, Database.insertVersions]
    by_cases hc : Table.HasKey (·.key) db.versions (pid, v)
    · rw [insertVersion_skipped hv hc, newRows_skipped hc]
      obtain ⟨db', hrun, hprov, hver, hhost, hseq⟩ := ih (skipped db) hvs hpid
      refine ⟨db', ?_, hprov, hver, hhost, Sequences.le_drawVersion.trans hseq⟩
      dsimp only
      rw [hrun]
      rfl
    · obtain ⟨db₁, hstep, htab, hseq₁⟩ := insertVersion_new hv hc hpid
      have hpid₁ : Table.HasKey (·.id) db₁.providers pid := by
        unfold Database.providers
        rw [htab]
        exact hpid
      obtain ⟨db', hrun, hprov, hver, hhost, hseq⟩ := ih db₁ hvs hpid₁
      rw [hstep, newRows_new hc htab hseq₁]
      refine ⟨db', ?_, ?_, ?_, ?_, ?_⟩
      · dsimp only
        rw [hrun]
        rfl
      · rw [hprov, Database.providers, htab]
        rfl
      · rw [hver, Database.versions, htab]
        simp [Tables.withVersion]
      · rw [hhost, Database.hosts, htab]
        rfl
      · rw [hseq₁] at hseq
        exact Sequences.le_drawVersion.trans hseq

/-- One tuple over a length limit makes the whole statement fail. -/
theorem insertVersions_error (vs : List VersionTuple) (db : Database) (pid : ℕ)
    (hpid : Table.HasKey (·.id) db.providers pid) (hfit : ¬ ∀ v ∈ vs, v.Fits) :
    ∃ err db', db.insertVersions (vs.map fun v => (candidate v, pid)) = (.error err, db') := by
  induction vs generalizing db with
  | nil => exact absurd (by simp) hfit
  | cons v vs ih =>
    rw [List.map_cons, Database.insertVersions]
    by_cases hv : v.Fits
    · have hvs : ¬ ∀ v ∈ vs, v.Fits := by
        intro h
        apply hfit
        intro v' hv'
        rcases List.mem_cons.mp hv' with rfl | hv'
        · exact hv
        · exact h v' hv'
      by_cases hc : Table.HasKey (·.key) db.versions (pid, v)
      · rw [insertVersion_skipped hv hc]
        obtain ⟨err, db', hrun⟩ := ih (skipped db) hpid hvs
        dsimp only
        rw [hrun]
        exact ⟨_, _, rfl⟩
      · obtain ⟨db₁, hstep, htab, hseq₁⟩ := insertVersion_new hv hc hpid
        have hpid₁ : Table.HasKey (·.id) db₁.providers pid := by
          unfold Database.providers
          rw [htab]
          exact hpid
        obtain ⟨err, db', hrun⟩ := ih db₁ hpid₁ hvs
        rw [hstep]
        dsimp only
        rw [hrun]
        exact ⟨_, _, rfl⟩
    · rw [insertVersion_unfit hv]
      exact ⟨_, _, rfl⟩

/-! ## The transaction -/

/-- The responses the schema admits for a provider: every text is one PostgreSQL has and no
longer than its column. -/
structure Accepted (p : TerraformProvider) (response : ProviderVersions) : Prop where
  text : (validText p.hostname && validText p.namespace_ && validText p.providerType) = true
  fits : p.Fits
  columns : (response.versionColumn.all validText && response.osColumn.all validText &&
    response.archColumn.all validText) = true
  tuples : ∀ v ∈ tuples response, v.Fits

/-- What a committed transaction leaves behind: one row `pid` for the provider, and the rows
`new`, one for each tuple of the response that was missing. -/
structure Stored (db db' : Database) (p : TerraformProvider) (response : ProviderVersions)
    (pid : ℕ) (new : List TerraformProviderVersionRow) : Prop where
  providers : ∃ added, db'.providers.map (fun r => (r.id, r.provider)) =
    db.providers.map (fun r => (r.id, r.provider)) ++ added ∧ ∀ r ∈ added, r.2 = p
  provider : ∃ r ∈ db'.providers, r.id = pid ∧ r.provider = p
  versions : db'.versions = db.versions ++ new
  fresh : ∀ r ∈ new, r.providerId = pid ∧ r.artifactId = none ∧ r.artifactTimestamp = none
  once : (new.map (·.tuple)).Nodup
  missing : ∀ v, v ∈ new.map (·.tuple) ↔
    v ∈ tuples response ∧ ¬ ∃ r ∈ db.versions, r.providerId = pid ∧ r.tuple = v
  hosts : db'.hosts = db.hosts
  sequences : db.sequences.Le db'.sequences

/-- The upsert of a valid provider that fits succeeds. -/
theorem upsertProvider_ok (now : ℕ) (db : Database) {p : TerraformProvider}
    (ht : (validText p.hostname && validText p.namespace_ && validText p.providerType) = true)
    (hp : p.Fits) :
    ∃ cur, db.upsertProvider now p = (.ok (), cur) ∧
      cur.tables = db.tables.withProvider now db.sequences p ∧
      cur.sequences = db.sequences.drawProvider := by
  unfold Database.upsertProvider
  rw [if_pos ht, dif_pos hp]
  exact ⟨_, rfl, rfl, rfl⟩

/-- The upsert of any other provider fails. -/
theorem upsertProvider_error (now : ℕ) (db : Database) {p : TerraformProvider}
    (h : ¬ ((validText p.hostname && validText p.namespace_ && validText p.providerType) = true ∧
      p.Fits)) : ∃ err cur, db.upsertProvider now p = (.error err, cur) := by
  unfold Database.upsertProvider
  by_cases ht : (validText p.hostname && validText p.namespace_ && validText p.providerType) = true
  · have hp : ¬ p.Fits := fun hp => h ⟨ht, hp⟩
    rw [if_pos ht, dif_neg hp]
    exact ⟨_, _, rfl⟩
  · rw [if_neg ht]
    exact ⟨_, _, rfl⟩

/-- The zip of the arrays and the join with the provider's row give back the tuples, each
with that row's id. -/
theorem insertProviderVersions_eq {cur : Database} {r : TerraformProviderRow}
    (hr : r ∈ cur.providers) (response : ProviderVersions) :
    cur.insertProviderVersions response.versionColumn response.osColumn response.archColumn
        r.provider =
      if (response.versionColumn.all validText && response.osColumn.all validText &&
          response.archColumn.all validText && validText r.provider.hostname &&
          validText r.provider.namespace_ && validText r.provider.providerType) = true then
        cur.insertVersions ((tuples response).map fun v => (candidate v, r.id))
      else (.error .invalidText, cur) := by
  unfold Database.insertProviderVersions
  rw [selectProviderId_eq hr, versionColumn_eq, osColumn_eq, archColumn_eq, unnest_columns]
  simp only [List.map_cons, List.map_nil, List.flatMap_map]
  rw [show List.flatMap (fun v => [(candidate v, r.id)]) (tuples response) =
    (tuples response).map fun v => (candidate v, r.id) from List.flatMap_pure_eq_map _ _]

/-- A new row belongs to the provider and has no artifact. -/
theorem mem_newRows {db : Database} {pid : ℕ} {vs : List VersionTuple}
    {r : TerraformProviderVersionRow} (hr : r ∈ newRows db pid vs) :
    r.providerId = pid ∧ r.artifactId = none ∧ r.artifactTimestamp = none := by
  obtain ⟨m, k, rfl, hk, -, -, -⟩ := Table.mem_insertNew hr
  obtain ⟨v, -, rfl⟩ := List.mem_map.mp hk
  exact ⟨rfl, rfl, rfl⟩

/-- The tuples of the added rows are those of the response that the provider lacked. -/
theorem mem_tuples_newRows {db : Database} {pid : ℕ} {vs : List VersionTuple} {v : VersionTuple} :
    v ∈ (newRows db pid vs).map (·.tuple) ↔
      v ∈ vs ∧ ¬ ∃ r ∈ db.versions, r.providerId = pid ∧ r.tuple = v := by
  have hkey : v ∈ (newRows db pid vs).map (·.tuple) ↔ (pid, v) ∈ (newRows db pid vs).map (·.key) := by
    rw [List.mem_map, List.mem_map]
    constructor
    · rintro ⟨r, hr, rfl⟩
      refine ⟨r, hr, ?_⟩
      rw [TerraformProviderVersionRow.key, (mem_newRows hr).1]
    · rintro ⟨r, hr, heq⟩
      exact ⟨r, hr, congrArg Prod.snd heq⟩
  have hold : Table.HasKey (·.key) db.versions (pid, v) ↔
      ∃ r ∈ db.versions, r.providerId = pid ∧ r.tuple = v := by
    unfold Table.HasKey TerraformProviderVersionRow.key
    simp only [Prod.mk.injEq]
  rw [hkey, newRows, Table.mem_map_insertNew (fun _ _ => rfl), hold]
  simp

/-- No tuple is inserted twice. -/
theorem nodup_tuples_newRows (db : Database) (pid : ℕ) (vs : List VersionTuple) :
    ((newRows db pid vs).map (·.tuple)).Nodup := by
  have hkeys : ((newRows db pid vs).map (·.key)).Nodup := Table.nodup_insertNew fun _ _ => rfl
  have hpairs : (newRows db pid vs).map (·.key) =
      ((newRows db pid vs).map (·.tuple)).map (fun v => (pid, v)) := by
    rw [List.map_map]
    apply List.map_congr_left
    intro r hr
    rw [TerraformProviderVersionRow.key, (mem_newRows hr).1]
    rfl
  rw [hpairs] at hkeys
  exact hkeys.of_map _

/-- **An admissible response is stored** when the connection holds. -/
theorem store_accepted {p : TerraformProvider} {response : ProviderVersions}
    (ha : Accepted p response) (now : ℕ) (db : Database) :
    ∃ db' pid new, storeProviderVersions none now db p response = (.ok new.length, db') ∧
      Stored db db' p response pid new := by
  obtain ⟨cur, hup, htab, hseq⟩ := upsertProvider_ok now db ha.text ha.fits
  obtain ⟨r, hr, hrp⟩ := hasKey_withProvider now db.tables db.sequences p
  have hrcur : r ∈ cur.providers := by
    rw [Database.providers, htab]
    exact hr
  have hver : cur.versions = db.versions := by
    rw [Database.versions, htab, versions_withProvider]
  have hpid : Table.HasKey (·.id) cur.providers r.id := ⟨r, hrcur, rfl⟩
  obtain ⟨db', hrun, hprov', hver', hhost', hseq'⟩ :=
    insertVersions_ok (tuples response) cur r.id ha.tuples hpid
  have hins : cur.insertProviderVersions response.versionColumn response.osColumn
      response.archColumn p = (.ok ((newRows cur r.id (tuples response)).map (·.tuple)), db') := by
    have htext := ha.text
    have hcolumns := ha.columns
    simp only [Bool.and_eq_true] at htext hcolumns
    subst hrp
    rw [insertProviderVersions_eq hrcur, if_pos, hrun]
    simp only [Bool.and_eq_true]
    exact ⟨⟨⟨⟨⟨hcolumns.1.1, hcolumns.1.2⟩, hcolumns.2⟩, htext.1.1⟩, htext.1.2⟩, htext.2⟩
  have hproviders : ∃ added, db'.providers.map (fun r => (r.id, r.provider)) =
      db.providers.map (fun r => (r.id, r.provider)) ++ added ∧ ∀ r ∈ added, r.2 = p := by
    refine ⟨if Table.HasKey (·.provider) db.tables.terraformProvider p then []
      else [(db.sequences.terraformProviderId, p)], ?_, ?_⟩
    · rw [hprov', Database.providers, htab]
      exact providers_withProvider now db.tables db.sequences p
    · intro x hx
      split at hx
      · cases hx
      · rw [List.mem_singleton.mp hx]
  refine ⟨db', r.id, newRows cur r.id (tuples response), ?_, ?_⟩
  · unfold storeProviderVersions
    simp [hup, hins]
  · refine ⟨hproviders, ⟨r, ?_, rfl, hrp⟩, ?_, fun r hr => mem_newRows hr,
      nodup_tuples_newRows _ _ _, fun v => ?_, ?_, ?_⟩
    · rw [hprov']
      exact hrcur
    · rw [hver', hver]
    · rw [mem_tuples_newRows, hver]
    · rw [hhost', Database.hosts, htab, hosts_withProvider]
    · rw [hseq] at hseq'
      exact Sequences.le_drawProvider.trans hseq'

/-- **Only an admissible response over a working connection is stored.** -/
theorem store_ok_accepted {fault : Option StoreStep} {now : ℕ} {db : Database}
    {p : TerraformProvider} {response : ProviderVersions} {n : ℕ} {db' : Database}
    (h : storeProviderVersions fault now db p response = (.ok n, db')) :
    fault = none ∧ Accepted p response := by
  unfold storeProviderVersions at h
  simp only at h
  by_cases hbegin : fault = some .begin
  · simp [hbegin] at h
  by_cases hupsert : fault = some .upsert
  · simp [hupsert] at h
  rw [if_neg hbegin, if_neg hupsert] at h
  by_cases hp : (validText p.hostname && validText p.namespace_ && validText p.providerType) = true ∧
      p.Fits
  · obtain ⟨cur, hup, htab, hseq⟩ := upsertProvider_ok now db hp.1 hp.2
    rw [hup] at h
    by_cases hinsert : fault = some .insert
    · simp [hinsert] at h
    dsimp only at h
    rw [if_neg hinsert] at h
    obtain ⟨r, hr, rfl⟩ := hasKey_withProvider now db.tables db.sequences p
    have hrcur : r ∈ cur.providers := by
      rw [Database.providers, htab]
      exact hr
    have hpid : Table.HasKey (·.id) cur.providers r.id := ⟨r, hrcur, rfl⟩
    rw [insertProviderVersions_eq hrcur] at h
    by_cases hcol : (response.versionColumn.all validText && response.osColumn.all validText &&
          response.archColumn.all validText && validText r.provider.hostname &&
          validText r.provider.namespace_ && validText r.provider.providerType) = true
    · rw [if_pos hcol] at h
      by_cases hfit : ∀ v ∈ tuples response, v.Fits
      · by_cases hcommit : fault = some .commit
        · obtain ⟨db₁, hrun, -⟩ := insertVersions_ok (tuples response) cur r.id hfit hpid
          rw [hrun] at h
          simp [hcommit] at h
        · refine ⟨?_, hp.1, hp.2, ?_, hfit⟩
          · cases fault with
            | none => rfl
            | some step => cases step <;> contradiction
          · simp only [Bool.and_eq_true] at hcol ⊢
            exact hcol.1.1.1
      · obtain ⟨err, db₁, hrun⟩ := insertVersions_error (tuples response) cur r.id hpid hfit
        rw [hrun] at h
        simp at h
    · rw [if_neg hcol] at h
      simp at h
  · obtain ⟨err, cur, hup⟩ := upsertProvider_error now db hp
    rw [hup] at h
    simp at h

/-- A store that succeeds has inserted its new rows, as many as it says. -/
theorem store_ok {fault : Option StoreStep} {now : ℕ} {db : Database} {p : TerraformProvider}
    {response : ProviderVersions} {n : ℕ} {db' : Database}
    (h : storeProviderVersions fault now db p response = (.ok n, db')) :
    ∃ pid new, Stored db db' p response pid new ∧ n = new.length := by
  obtain ⟨rfl, ha⟩ := store_ok_accepted h
  obtain ⟨db₁, pid, new, hrun, hs⟩ := store_accepted ha now db
  rw [hrun] at h
  cases h
  exact ⟨pid, new, hs, rfl⟩

/-- **A transaction that fails leaves the tables alone.** -/
theorem store_error {fault : Option StoreStep} {now : ℕ} {db : Database} {p : TerraformProvider}
    {response : ProviderVersions} {err : TerrashineError} {db' : Database}
    (h : storeProviderVersions fault now db p response = (.error err, db')) :
    db'.tables = db.tables ∧ db.sequences.Le db'.sequences := by
  have hroll : ∀ cur : Database, db'  = db.rollback cur →
      db'.tables = db.tables ∧ db.sequences.Le db'.sequences := by
    rintro cur rfl
    exact ⟨rfl, Sequences.le_latest _ _⟩
  unfold storeProviderVersions at h
  simp only at h
  split at h
  · exact hroll db (congrArg Prod.snd h).symm
  split at h
  · exact hroll db (congrArg Prod.snd h).symm
  split at h
  · next cur _ => exact hroll cur (congrArg Prod.snd h).symm
  · next cur _ =>
    split at h
    · exact hroll cur (congrArg Prod.snd h).symm
    split at h
    · next cur' _ => exact hroll cur' (congrArg Prod.snd h).symm
    · next cur' _ =>
      split at h
      · exact hroll cur' (congrArg Prod.snd h).symm
      · cases h

/-- Two rows with the same provider are one row, so a second transaction for the provider
finds the id of the first. -/
theorem Stored.same_pid {db db' : Database} {p : TerraformProvider} {response : ProviderVersions}
    {pid : ℕ} {new : List TerraformProviderVersionRow} (h : Stored db db' p response pid new)
    {i : ℕ} (hi : (i, p) ∈ db.providers.map fun r => (r.id, r.provider)) : i = pid := by
  obtain ⟨added, hmap, -⟩ := h.providers
  obtain ⟨r, hr, rfl, hrp⟩ := h.provider
  have hi' : (i, p) ∈ db'.providers.map fun r => (r.id, r.provider) := by
    rw [hmap]
    exact List.mem_append_left _ hi
  obtain ⟨r', hr', heq⟩ := List.mem_map.mp hi'
  have hprovider : r'.provider = r.provider := (congrArg Prod.snd heq).trans hrp.symm
  have hrow := Table.eq_of_key db'.schema.uniqueProvider hr' hr hprovider
  have hid : r'.id = i := congrArg Prod.fst heq
  rw [← hid, hrow]

/-- **A second transaction with the same response adds nothing.** -/
theorem Stored.again {db db' db'' : Database} {p : TerraformProvider} {response : ProviderVersions}
    {pid pid' : ℕ} {new new' : List TerraformProviderVersionRow}
    (h : Stored db db' p response pid new) (h' : Stored db' db'' p response pid' new') :
    new' = [] := by
  obtain ⟨r, hr, hid, hrp⟩ := h.provider
  have hpid : pid = pid' := by
    apply h'.same_pid
    rw [List.mem_map]
    exact ⟨r, hr, by rw [hid, hrp]⟩
  subst hpid
  have hnone : ∀ v, v ∉ new'.map (·.tuple) := by
    intro v hv
    obtain ⟨hoffered, hlacking⟩ := (h'.missing v).mp hv
    apply hlacking
    by_cases hold : ∃ r ∈ db.versions, r.providerId = pid ∧ r.tuple = v
    · obtain ⟨r₀, hr₀, hp₀, ht₀⟩ := hold
      refine ⟨r₀, ?_, hp₀, ht₀⟩
      rw [h.versions]
      exact List.mem_append_left _ hr₀
    · obtain ⟨r₀, hr₀, ht₀⟩ := List.mem_map.mp ((h.missing v).mpr ⟨hoffered, hold⟩)
      refine ⟨r₀, ?_, (h.fresh r₀ hr₀).1, ht₀⟩
      rw [h.versions]
      exact List.mem_append_right _ hr₀
  cases new' with
  | nil => rfl
  | cons r₀ rest => exact absurd (List.mem_cons_self) (hnone r₀.tuple)

/-- **The store is an atomic set union.**  A transaction that fails leaves the tables as they
were, whatever failed.  One that succeeds leaves one row for the provider, keeps every
version row, and adds one row without an artifact for each tuple that pairs a version with
one of its own platforms and was not yet there; their number is the result, and running the
transaction again adds nothing.

Two things here are assumptions on the database and not constraints of its tables.  That the ids in
the tables lie below the next ones of their identity columns (`Schema.providerGenerated`,
`Schema.versionGenerated`, `Schema.hostGenerated`) holds as long as no statement writes an id of
its own, and none of the program's does.  And a commit that fails has been rolled back; that the
acknowledgement of one that took effect may be lost is for `World.perform` to say. -/
theorem storeProviderVersions_union (fault : Option StoreStep) (now : ℕ) (db : Database)
    (p : TerraformProvider) (response : ProviderVersions) :
    match storeProviderVersions fault now db p response with
    | (.error _, db') => db'.tables = db.tables
    | (.ok n, db') =>
      (∃ row ∈ db'.providers, row.provider = p ∧
        (∀ row' ∈ db'.providers, row'.provider = p → row' = row) ∧
        ∃ new, db'.versions = db.versions ++ new ∧ n = new.length ∧
          (∀ r ∈ new, r.providerId = row.id ∧ r.artifactId = none ∧ r.artifactTimestamp = none) ∧
          (new.map (·.tuple)).Nodup ∧
          ∀ v, v ∈ new.map (·.tuple) ↔
            (∃ item ∈ response.versions, ∃ platform ∈ item.platforms,
              v = { version := item.version, os := platform.os, arch := platform.arch }) ∧
            ¬ ∃ r ∈ db.versions, r.providerId = row.id ∧ r.tuple = v) ∧
      (∃ added, db'.providers.map (fun r => (r.id, r.provider)) =
        db.providers.map (fun r => (r.id, r.provider)) ++ added ∧ ∀ r ∈ added, r.2 = p) ∧
      db'.hosts = db.hosts ∧
      ∀ now', ∃ db'', storeProviderVersions none now' db' p response = (.ok 0, db'') ∧
        db''.versions = db'.versions := by
  cases hrun : storeProviderVersions fault now db p response with
  | mk result db' =>
    cases result with
    | error err => exact (store_error hrun).1
    | ok n =>
      obtain ⟨-, ha⟩ := store_ok_accepted hrun
      obtain ⟨pid, new, hs, hn⟩ := store_ok hrun
      refine ⟨?_, hs.providers, hs.hosts, ?_⟩
      · obtain ⟨row, hrow, hid, hp⟩ := hs.provider
        subst hid
        refine ⟨row, hrow, hp, ?_, new, hs.versions, hn, hs.fresh, hs.once, ?_⟩
        · intro row' hrow' hp'
          exact Table.eq_of_key db'.schema.uniqueProvider hrow' hrow (hp'.trans hp.symm)
        · intro v
          rw [hs.missing, mem_tuples]
      · intro now'
        obtain ⟨db'', pid', new', hrun', hs'⟩ := store_accepted ha now' db'
        have hnil : new' = [] := hs.again hs'
        refine ⟨db'', ?_, ?_⟩
        · rw [hrun', hnil]
          rfl
        · rw [hs'.versions, hnil, List.append_nil]

end Terrashine.Analysis
