import Terrashine.Model.Types
import Terrashine.Library.Table

/-!
# The database

The tables of the initial migration, the constraints PostgreSQL keeps on them, and the
statements the program sends.  A `Database` carries its constraints, so a state that
violates one cannot be built.

A statement answers with its result or an error and leaves a database; one that reports
an error has changed no table.  Values drawn from a sequence are not given back, neither by
a failed statement nor by a rolled-back transaction, and a skipped or updated row of an
`insert ... on conflict` has drawn one as well.
-/

set_option autoImplicit false

namespace Terrashine.Model

open Terrashine.Library

/-! ## Rows -/

/-- SOURCE: migrations/20230320234859_initial-schema.sql:1-8 -/
structure TerraformProviderRow where
  id : ℕ
  hostname : Text
  namespace_ : Text
  type : Text
  lastRefreshed : ℕ
  deriving DecidableEq

/-- SOURCE: migrations/20230320234859_initial-schema.sql:12-29 -/
structure TerraformProviderVersionRow where
  id : ℕ
  providerId : ℕ
  version : Text
  os : Text
  arch : Text
  artifactId : Option ℕ
  artifactTimestamp : Option ℕ
  deriving DecidableEq

/-- SOURCE: migrations/20230320234859_initial-schema.sql:31-36 -/
structure TerraformRegistryHostRow where
  id : ℕ
  hostname : Text
  authToken : Option Text
  deriving DecidableEq

/-- The columns of the constraint `unique_provider`. -/
def TerraformProviderRow.provider (r : TerraformProviderRow) : TerraformProvider :=
  { hostname := r.hostname, namespace_ := r.namespace_, providerType := r.type }

/-- What a provider offers a build for. -/
structure VersionTuple where
  version : Text
  os : Text
  arch : Text
  deriving DecidableEq

def TerraformProviderVersionRow.tuple (r : TerraformProviderVersionRow) : VersionTuple :=
  { version := r.version, os := r.os, arch := r.arch }

/-- The columns of the constraint `version_tuple`. -/
def TerraformProviderVersionRow.key (r : TerraformProviderVersionRow) : ℕ × VersionTuple :=
  (r.providerId, r.tuple)

structure Tables where
  terraformProvider : List TerraformProviderRow
  terraformProviderVersion : List TerraformProviderVersionRow
  terraformRegistryHost : List TerraformRegistryHostRow
  deriving DecidableEq

/-- The next values of the identity columns and of the sequence `artifact_ids`. -/
structure Sequences where
  terraformProviderId : ℕ
  terraformProviderVersionId : ℕ
  terraformRegistryHostId : ℕ
  artifactIds : ℕ
  deriving DecidableEq

/-! ## Constraints -/

/-- The `check` constraints of `terraform_provider`; `char_length` counts characters. -/
def TerraformProvider.Fits (p : TerraformProvider) : Prop :=
  p.hostname.length ≤ 253 ∧ p.namespace_.length ≤ 255 ∧ p.providerType.length ≤ 255

instance (p : TerraformProvider) : Decidable p.Fits := by
  unfold TerraformProvider.Fits
  infer_instance

/-- The `check` constraints of `terraform_provider_version` on its texts. -/
def VersionTuple.Fits (t : VersionTuple) : Prop :=
  t.version.length ≤ 255 ∧ t.os.length ≤ 255 ∧ t.arch.length ≤ 255

instance (t : VersionTuple) : Decidable t.Fits := by
  unfold VersionTuple.Fits
  infer_instance

/-- The constraints of the schema.  The three `Generated` fields are none: that an identity column
holds values its sequence has given out is assumed of the database, since no statement of the
program writes one. -/
structure Schema (t : Tables) (q : Sequences) : Prop where
  providerPkey : (t.terraformProvider.map (·.id)).Nodup
  providerGenerated : ∀ r ∈ t.terraformProvider, r.id < q.terraformProviderId
  uniqueProvider : (t.terraformProvider.map (·.provider)).Nodup
  providerCheck : ∀ r ∈ t.terraformProvider, r.provider.Fits
  versionPkey : (t.terraformProviderVersion.map (·.id)).Nodup
  versionGenerated : ∀ r ∈ t.terraformProviderVersion, r.id < q.terraformProviderVersionId
  versionProvider : ∀ r ∈ t.terraformProviderVersion,
    Table.HasKey (·.id) t.terraformProvider r.providerId
  versionTuple : (t.terraformProviderVersion.map (·.key)).Nodup
  versionCheck : ∀ r ∈ t.terraformProviderVersion, r.tuple.Fits
  uniqueArtifactId : (t.terraformProviderVersion.filterMap (·.artifactId)).Nodup
  consistentUploadDetails : ∀ r ∈ t.terraformProviderVersion,
    r.artifactId.isSome = r.artifactTimestamp.isSome
  hostPkey : (t.terraformRegistryHost.map (·.id)).Nodup
  hostGenerated : ∀ r ∈ t.terraformRegistryHost, r.id < q.terraformRegistryHostId
  uniqueHostname : (t.terraformRegistryHost.map (·.hostname)).Nodup
  hostCheck : ∀ r ∈ t.terraformRegistryHost, r.hostname.length ≤ 253

structure Database where
  tables : Tables
  sequences : Sequences
  schema : Schema tables sequences

namespace Database

/-- The database after the migration. -/
def empty : Database where
  tables := { terraformProvider := [], terraformProviderVersion := [], terraformRegistryHost := [] }
  sequences :=
    { terraformProviderId := 1, terraformProviderVersionId := 1, terraformRegistryHostId := 1
      artifactIds := 1 }
  schema := by constructor <;> simp

abbrev providers (db : Database) : List TerraformProviderRow := db.tables.terraformProvider

abbrev versions (db : Database) : List TerraformProviderVersionRow :=
  db.tables.terraformProviderVersion

abbrev hosts (db : Database) : List TerraformRegistryHostRow := db.tables.terraformRegistryHost

end Database

/-! ## Sequences -/

/-- No sequence went back. -/
structure Sequences.Le (q q' : Sequences) : Prop where
  provider : q.terraformProviderId ≤ q'.terraformProviderId
  version : q.terraformProviderVersionId ≤ q'.terraformProviderVersionId
  host : q.terraformRegistryHostId ≤ q'.terraformRegistryHostId
  artifact : q.artifactIds ≤ q'.artifactIds

/-- A sequence is where it is. -/
theorem Sequences.Le.refl (q : Sequences) : q.Le q :=
  ⟨Nat.le_refl _, Nat.le_refl _, Nat.le_refl _, Nat.le_refl _⟩

/-- Sequences only go on. -/
theorem Sequences.Le.trans {q₁ q₂ q₃ : Sequences} (h : q₁.Le q₂) (h' : q₂.Le q₃) : q₁.Le q₃ :=
  ⟨h.provider.trans h'.provider, h.version.trans h'.version, h.host.trans h'.host,
    h.artifact.trans h'.artifact⟩

/-- The later value of each sequence. -/
def Sequences.latest (q q' : Sequences) : Sequences where
  terraformProviderId := max q.terraformProviderId q'.terraformProviderId
  terraformProviderVersionId := max q.terraformProviderVersionId q'.terraformProviderVersionId
  terraformRegistryHostId := max q.terraformRegistryHostId q'.terraformRegistryHostId
  artifactIds := max q.artifactIds q'.artifactIds

/-- The later of two positions lies behind neither. -/
theorem Sequences.le_latest (q q' : Sequences) : q.Le (q.latest q') :=
  ⟨Nat.le_max_left _ _, Nat.le_max_left _ _, Nat.le_max_left _ _, Nat.le_max_left _ _⟩

/-- The constraints hold on with later sequences. -/
theorem Schema.advance {t : Tables} {q q' : Sequences} (h : Schema t q) (hq : q.Le q') :
    Schema t q' :=
  { h with
    providerGenerated := fun r hr => (h.providerGenerated r hr).trans_le hq.provider
    versionGenerated := fun r hr => (h.versionGenerated r hr).trans_le hq.version
    hostGenerated := fun r hr => (h.hostGenerated r hr).trans_le hq.host }

namespace Database

/-- The tables of `db` after a transaction that did not commit: only the sequences it drew
from have moved on. -/
def rollback (db cur : Database) : Database where
  tables := db.tables
  sequences := db.sequences.latest cur.sequences
  schema := db.schema.advance (Sequences.le_latest _ _)

/-- A rollback restores the tables; the sequences keep what was drawn. -/
@[simp] theorem rollback_tables (db cur : Database) : (db.rollback cur).tables = db.tables := rfl

end Database

/-- PostgreSQL has no text with a NUL character. -/
def validText (t : Text) : Bool := !t.contains (Char.ofNat 0)

/-! ## The upsert of a provider -/

section UpsertProvider

variable (now : ℕ) (t : Tables) (q : Sequences) (p : TerraformProvider)

/-- `terraform_provider` with the provider in it: refreshed when known, else a new row. -/
def Tables.withProvider : Tables :=
  if Table.HasKey (·.provider) t.terraformProvider p then
    { t with terraformProvider := t.terraformProvider.map fun r =>
        if r.provider = p then { r with lastRefreshed := now } else r }
  else
    { t with terraformProvider := t.terraformProvider ++
        [{ id := q.terraformProviderId, hostname := p.hostname, namespace_ := p.namespace_
           type := p.providerType, lastRefreshed := now }] }

def Sequences.drawProvider : Sequences := { q with terraformProviderId := q.terraformProviderId + 1 }

variable {now t q p}

/-- Drawing the id of a provider moves on. -/
theorem Sequences.le_drawProvider : q.Le q.drawProvider :=
  ⟨Nat.le_succ _, Nat.le_refl _, Nat.le_refl _, Nat.le_refl _⟩

/-- An upserted provider keeps the schema, when it fits the columns. -/
theorem Schema.withProvider (h : Schema t q) (hp : p.Fits) :
    Schema (t.withProvider now q p) q.drawProvider := by
  unfold Tables.withProvider
  split
  · -- the keys of all rows are as before
    have hid := Table.map_update (f := TerraformProviderRow.id)
      (g := fun r => if r.provider = p then { r with lastRefreshed := now } else r)
      t.terraformProvider (by intro r; split <;> rfl)
    have hprov := Table.map_update (f := TerraformProviderRow.provider)
      (g := fun r => if r.provider = p then { r with lastRefreshed := now } else r)
      t.terraformProvider (by intro r; split <;> rfl)
    refine { h.advance Sequences.le_drawProvider with
      providerPkey := hid ▸ h.providerPkey, uniqueProvider := hprov ▸ h.uniqueProvider
      providerGenerated := ?_, providerCheck := ?_, versionProvider := ?_ }
    · intro r hr
      have hmem : r.id ∈ t.terraformProvider.map (·.id) := hid ▸ List.mem_map_of_mem hr
      obtain ⟨r', hr', heq⟩ := List.mem_map.mp hmem
      exact heq ▸ (h.providerGenerated r' hr').trans (Nat.lt_succ_self _)
    · intro r hr
      have hmem : r.provider ∈ t.terraformProvider.map (·.provider) := hprov ▸ List.mem_map_of_mem hr
      obtain ⟨r', hr', heq⟩ := List.mem_map.mp hmem
      exact heq ▸ h.providerCheck r' hr'
    · intro r hr
      have hk := h.versionProvider r hr
      rw [Table.hasKey_iff] at hk ⊢
      exact hid ▸ hk
  · next hnew =>
    refine { h.advance Sequences.le_drawProvider with
      providerPkey := Table.nodup_map_concat h.providerPkey ?_
      uniqueProvider := Table.nodup_map_concat h.uniqueProvider hnew
      providerGenerated := ?_, providerCheck := ?_, versionProvider := ?_ }
    · rintro ⟨r, hr, heq⟩
      exact absurd heq (h.providerGenerated r hr).ne
    · intro r hr
      rcases List.mem_append.mp hr with hr | hr
      · exact (h.providerGenerated r hr).trans (Nat.lt_succ_self _)
      · rw [List.mem_singleton] at hr
        subst hr
        exact Nat.lt_succ_self _
    · intro r hr
      rcases List.mem_append.mp hr with hr | hr
      · exact h.providerCheck r hr
      · rw [List.mem_singleton] at hr
        subst hr
        exact hp
    · intro r hr
      exact Table.hasKey_append.mpr (.inl (h.versionProvider r hr))

end UpsertProvider

/-- `insert into "terraform_provider" ... on conflict do update set "last_refreshed"`.
SOURCE: src/http/index.rs:190-203 -/
def Database.upsertProvider (now : ℕ) (db : Database) (p : TerraformProvider) :
    Except SqlError Unit × Database :=
  if validText p.hostname && validText p.namespace_ && validText p.providerType then
    if h : p.Fits then
      (.ok (), { tables := db.tables.withProvider now db.sequences p
                 sequences := db.sequences.drawProvider
                 schema := db.schema.withProvider h })
    else
      (.error .checkViolation,
        { db with sequences := db.sequences.drawProvider
                  schema := db.schema.advance Sequences.le_drawProvider })
  else (.error .invalidText, db)

/-! ## The insertion of versions -/

/-- `unnest` of three arrays: their elements side by side, a short array padded with null.
SOURCE: src/http/index.rs:223-224 -/
def unnest (versions oses arches : List Text) : List (Option Text × Option Text × Option Text) :=
  (List.range (max versions.length (max oses.length arches.length))).map fun i =>
    (versions[i]?, oses[i]?, arches[i]?)

section InsertVersion

variable (t : Tables) (q : Sequences) (pid : ℕ) (v : VersionTuple)

/-- The row a candidate becomes. -/
def newVersionRow (id pid : ℕ) (v : VersionTuple) : TerraformProviderVersionRow :=
  { id := id, providerId := pid, version := v.version, os := v.os, arch := v.arch
    artifactId := none, artifactTimestamp := none }

/-- Any unique constraint a candidate would violate; nulls are never equal. -/
def Tables.versionConflict : Prop :=
  Table.HasKey (·.id) t.terraformProviderVersion q.terraformProviderVersionId ∨
    Table.HasKey (·.key) t.terraformProviderVersion (pid, v)

instance : Decidable (t.versionConflict q pid v) := by
  unfold Tables.versionConflict
  infer_instance

def Tables.withVersion : Tables :=
  { t with terraformProviderVersion := t.terraformProviderVersion ++
      [newVersionRow q.terraformProviderVersionId pid v] }

def Sequences.drawVersion : Sequences :=
  { q with terraformProviderVersionId := q.terraformProviderVersionId + 1 }

variable {t q pid v}

/-- Drawing the id of a version moves on. -/
theorem Sequences.le_drawVersion : q.Le q.drawVersion :=
  ⟨Nat.le_refl _, Nat.le_succ _, Nat.le_refl _, Nat.le_refl _⟩

/-- An inserted version keeps the schema: it fits, its provider is there, and no row has its key. -/
theorem Schema.withVersion (h : Schema t q) (hv : v.Fits)
    (hpid : Table.HasKey (·.id) t.terraformProvider pid) (hc : ¬ t.versionConflict q pid v) :
    Schema (t.withVersion q pid v) q.drawVersion := by
  unfold Tables.versionConflict at hc
  push Not at hc
  have hmem : ∀ r ∈ (t.withVersion q pid v).terraformProviderVersion,
      r ∈ t.terraformProviderVersion ∨ r = newVersionRow q.terraformProviderVersionId pid v := by
    intro r hr
    rcases List.mem_append.mp hr with hr | hr
    · exact .inl hr
    · exact .inr (List.mem_singleton.mp hr)
  refine { h.advance Sequences.le_drawVersion with
    versionPkey := Table.nodup_map_concat h.versionPkey hc.1
    versionTuple := Table.nodup_map_concat h.versionTuple hc.2
    versionGenerated := ?_, versionProvider := ?_, versionCheck := ?_
    uniqueArtifactId := ?_, consistentUploadDetails := ?_ }
  · intro r hr
    rcases hmem r hr with hr | rfl
    · exact (h.versionGenerated r hr).trans (Nat.lt_succ_self _)
    · exact Nat.lt_succ_self _
  · intro r hr
    rcases hmem r hr with hr | rfl
    · exact h.versionProvider r hr
    · exact hpid
  · intro r hr
    rcases hmem r hr with hr | rfl
    · exact h.versionCheck r hr
    · exact hv
  · have hnull : List.filterMap TerraformProviderVersionRow.artifactId
        [newVersionRow q.terraformProviderVersionId pid v] = [] := rfl
    simp only [Tables.withVersion, List.filterMap_append, hnull, List.append_nil]
    exact h.uniqueArtifactId
  · intro r hr
    rcases hmem r hr with hr | rfl
    · exact h.consistentUploadDetails r hr
    · rfl

end InsertVersion

/-- One candidate of the insertion: its row when it is new, nothing on a conflict. -/
def Database.insertVersion (db : Database) (pid : ℕ)
    (row : Option Text × Option Text × Option Text) :
    Except SqlError (List VersionTuple) × Database :=
  let skipped : Database :=
    { db with sequences := db.sequences.drawVersion
              schema := db.schema.advance Sequences.le_drawVersion }
  match row with
  | (some version, some os, some arch) =>
    let v : VersionTuple := { version := version, os := os, arch := arch }
    if hv : v.Fits then
      if hc : db.tables.versionConflict db.sequences pid v then (.ok [], skipped)
      else if hp : Table.HasKey (·.id) db.tables.terraformProvider pid then
        (.ok [v], { tables := db.tables.withVersion db.sequences pid v
                    sequences := db.sequences.drawVersion
                    schema := db.schema.withVersion hv hp hc })
      else (.error .foreignKeyViolation, skipped)
    else (.error .checkViolation, skipped)
  | _ => (.error .notNullViolation, skipped)

/-- The candidates in order; the statement fails as a whole with the first that fails. -/
def Database.insertVersions (db : Database) :
    List ((Option Text × Option Text × Option Text) × ℕ) →
      Except SqlError (List VersionTuple) × Database
  | [] => (.ok [], db)
  | (row, pid) :: rest => match db.insertVersion pid row with
    | (.error err, db') => (.error err, db.rollback db')
    | (.ok records, db') => match db'.insertVersions rest with
      | (.error err, db'') => (.error err, db.rollback db'')
      | (.ok records', db'') => (.ok (records ++ records'), db'')

/-- `select "id" from "terraform_provider" where ... limit 1`.
SOURCE: src/http/index.rs:226-229 -/
def Database.selectProviderId (db : Database) (p : TerraformProvider) : List ℕ :=
  ((db.providers.filter fun r => r.provider = p).take 1).map (·.id)

/-- `insert into "terraform_provider_version" ... cross join ... on conflict do nothing
returning ...`; the first, second and third array are the versions, oses and arches, under
whatever aliases.
SOURCE: src/http/index.rs:218-242 -/
def Database.insertProviderVersions (db : Database) (versions oses arches : List Text)
    (p : TerraformProvider) : Except SqlError (List VersionTuple) × Database :=
  if versions.all validText && oses.all validText && arches.all validText &&
      validText p.hostname && validText p.namespace_ && validText p.providerType then
    db.insertVersions ((unnest versions oses arches).flatMap fun row =>
      (db.selectProviderId p).map fun pid => (row, pid))
  else (.error .invalidText, db)

/-! ## The update of an artifact -/

section UpdateArtifact

variable (now : ℕ) (t : Tables) (artifactId versionId : ℕ)

def TerraformProviderVersionRow.withArtifact (r : TerraformProviderVersionRow) :
    TerraformProviderVersionRow :=
  if r.id = versionId then
    { r with artifactId := some artifactId, artifactTimestamp := some now }
  else r

def Tables.withArtifact : Tables :=
  { t with terraformProviderVersion :=
      t.terraformProviderVersion.map (·.withArtifact now artifactId versionId) }

/-- Another row already has the artifact id. -/
def Tables.artifactConflict : Prop :=
  ∃ r ∈ t.terraformProviderVersion, r.id ≠ versionId ∧ r.artifactId = some artifactId

instance : Decidable (t.artifactConflict artifactId versionId) :=
  inferInstanceAs (Decidable
    (∃ r ∈ t.terraformProviderVersion, r.id ≠ versionId ∧ r.artifactId = some artifactId))

variable {now t artifactId versionId}

/-- The update of an artifact leaves the ids alone. -/
@[simp] theorem withArtifact_id (r : TerraformProviderVersionRow) :
    (r.withArtifact now artifactId versionId).id = r.id := by
  unfold TerraformProviderVersionRow.withArtifact
  split <;> rfl

/-- The update of an artifact leaves the keys alone. -/
@[simp] theorem withArtifact_key (r : TerraformProviderVersionRow) :
    (r.withArtifact now artifactId versionId).key = r.key := by
  unfold TerraformProviderVersionRow.withArtifact
  split <;> rfl

/-- The update of an artifact gives it to the row with that id. -/
theorem withArtifact_artifactId (r : TerraformProviderVersionRow) :
    (r.withArtifact now artifactId versionId).artifactId =
      if r.id = versionId then some artifactId else r.artifactId := by
  unfold TerraformProviderVersionRow.withArtifact
  split <;> rfl

/-- The artifact ids stay unique, when no other row has the new one. -/
theorem nodup_withArtifact {rows : List TerraformProviderVersionRow}
    (hid : (rows.map (·.id)).Nodup) (ha : (rows.filterMap (·.artifactId)).Nodup)
    (hc : ∀ r ∈ rows, r.id ≠ versionId → r.artifactId ≠ some artifactId) :
    ((rows.map (·.withArtifact now artifactId versionId)).filterMap (·.artifactId)).Nodup := by
  rw [List.filterMap_map, List.Nodup, List.pairwise_filterMap] at *
  have hid' := List.pairwise_map.mp hid
  refine List.Pairwise.imp_of_mem ?_ (hid'.and ha)
  rintro r r' hr hr' ⟨hne, hdist⟩ a ha a' ha'
  rw [Function.comp_apply, withArtifact_artifactId] at ha ha'
  split at ha
  · next hv =>
    cases ha
    split at ha'
    · next hv' => exact absurd (hv.trans hv'.symm) hne
    · next hv' =>
      rintro rfl
      exact hc r' hr' hv' ha'
  · next hv =>
    split at ha'
    · cases ha'
      rintro rfl
      exact hc r hr hv ha
    · exact hdist a ha a' ha'

/-- An update without a conflict keeps the schema. -/
theorem Schema.withArtifact {q : Sequences} (h : Schema t q)
    (hc : ¬ t.artifactConflict artifactId versionId) :
    Schema (t.withArtifact now artifactId versionId) q := by
  unfold Tables.artifactConflict at hc
  push Not at hc
  have hid : (t.terraformProviderVersion.map (·.withArtifact now artifactId versionId)).map (·.id) =
      t.terraformProviderVersion.map (·.id) := Table.map_update _ withArtifact_id
  have hkey : (t.terraformProviderVersion.map (·.withArtifact now artifactId versionId)).map (·.key) =
      t.terraformProviderVersion.map (·.key) := Table.map_update _ withArtifact_key
  refine { h with
    versionPkey := hid ▸ h.versionPkey, versionTuple := hkey ▸ h.versionTuple
    uniqueArtifactId := nodup_withArtifact h.versionPkey h.uniqueArtifactId hc
    versionGenerated := ?_, versionProvider := ?_, versionCheck := ?_
    consistentUploadDetails := ?_ }
  · intro r hr
    obtain ⟨r', hr', rfl⟩ := List.mem_map.mp hr
    rw [withArtifact_id]
    exact h.versionGenerated r' hr'
  · intro r hr
    obtain ⟨r', hr', rfl⟩ := List.mem_map.mp hr
    have hpid : (r'.withArtifact now artifactId versionId).providerId = r'.providerId :=
      congrArg Prod.fst (withArtifact_key r')
    rw [hpid]
    exact h.versionProvider r' hr'
  · intro r hr
    obtain ⟨r', hr', rfl⟩ := List.mem_map.mp hr
    have htuple : (r'.withArtifact now artifactId versionId).tuple = r'.tuple :=
      congrArg Prod.snd (withArtifact_key r')
    rw [htuple]
    exact h.versionCheck r' hr'
  · intro r hr
    obtain ⟨r', hr', rfl⟩ := List.mem_map.mp hr
    unfold TerraformProviderVersionRow.withArtifact
    split
    · rfl
    · exact h.consistentUploadDetails r' hr'

end UpdateArtifact

/-- `update "terraform_provider_version" set "artifact_id" = $1, "artifact_timestamp" = now()
where "id" = $2`.
SOURCE: src/http/artifacts.rs:350-365 -/
def Database.updateArtifact (now : ℕ) (db : Database) (artifactId versionId : ℕ) :
    Except SqlError Unit × Database :=
  if hc : db.tables.artifactConflict artifactId versionId then (.error .uniqueViolation, db)
  else
    (.ok (), { db with tables := db.tables.withArtifact now artifactId versionId
                       schema := db.schema.withArtifact hc })

/-- `select nextval('artifact_ids')`.
SOURCE: src/http/artifacts.rs:225-235 -/
def Database.nextvalArtifactIds (db : Database) : ℕ × Database :=
  (db.sequences.artifactIds,
    { db with
      sequences := { db.sequences with artifactIds := db.sequences.artifactIds + 1 }
      schema := db.schema.advance ⟨Nat.le_refl _, Nat.le_refl _, Nat.le_refl _, Nat.le_succ _⟩ })

/-! ## Queries -/

/-- The provider row a version row belongs to: the join of both tables on the provider id. -/
def Database.joined (db : Database) :
    List (TerraformProviderVersionRow × TerraformProviderRow) :=
  db.versions.flatMap fun v => (db.providers.filter fun p => v.providerId = p.id).map fun p => (v, p)

/-- The query of `list_provider_versions`, in the order of the table.
SOURCE: src/http/index.rs:143-157 -/
def Database.selectVersions (db : Database) (p : TerraformProvider) : List (Option Text) :=
  (db.joined.filter fun r => r.2.provider = p).map fun r => some r.1.version

/-- The query of `list_downloads`, in the order of the table.
SOURCE: src/http/version.rs:125-150 -/
def Database.selectDownloads (db : Database) (p : TerraformProvider) (version : Text) :
    List DatabaseDownloadResult :=
  (db.joined.filter fun r => r.1.version = version ∧ r.2.provider = p).map fun r =>
    { os := r.1.os, arch := r.1.arch, id := r.1.id }

/-- The query of `get_artifact_from_database`.
SOURCE: src/http/artifacts.rs:176-202 -/
def Database.selectArtifact (db : Database) (versionId : ℤ) : Option ArtifactDetails :=
  (db.joined.find? fun r => (r.1.id : ℤ) = versionId).map fun r =>
    { versionId := r.1.id, hostname := r.2.hostname, namespace_ := r.2.namespace_
      providerType := r.2.type, version := r.1.version, os := r.1.os, arch := r.1.arch
      artifactId := r.1.artifactId }

/-! ## The table of tokens -/

/-- `select auth_token from terraform_registry_host where hostname = $1`.
SOURCE: src/credhelper/database.rs:20-34 -/
def Database.selectAuthToken (db : Database) (hostname : Text) : Option (Option Text) :=
  (db.hosts.find? fun r => r.hostname = hostname).map (·.authToken)

section Tokens

variable (t : Tables) (q : Sequences) (hostname token : Text)

def Tables.withToken : Tables :=
  if Table.HasKey (·.hostname) t.terraformRegistryHost hostname then
    { t with terraformRegistryHost := t.terraformRegistryHost.map fun r =>
        if r.hostname = hostname then { r with authToken := some token } else r }
  else
    { t with terraformRegistryHost := t.terraformRegistryHost ++
        [{ id := q.terraformRegistryHostId, hostname := hostname, authToken := some token }] }

def Sequences.drawHost : Sequences := { q with terraformRegistryHostId := q.terraformRegistryHostId + 1 }

def Tables.withoutToken : Tables :=
  { t with terraformRegistryHost := t.terraformRegistryHost.filter fun r => r.hostname ≠ hostname }

variable {t q hostname token}

/-- Drawing the id of a host moves on. -/
theorem Sequences.le_drawHost : q.Le q.drawHost :=
  ⟨Nat.le_refl _, Nat.le_refl _, Nat.le_succ _, Nat.le_refl _⟩

/-- An upserted token keeps the schema, when the host name fits the column. -/
theorem Schema.withToken (h : Schema t q) (hh : hostname.length ≤ 253) :
    Schema (t.withToken q hostname token) q.drawHost := by
  unfold Tables.withToken
  split
  · have hid := Table.map_update (f := TerraformRegistryHostRow.id)
      (g := fun r => if r.hostname = hostname then { r with authToken := some token } else r)
      t.terraformRegistryHost (by intro r; split <;> rfl)
    have hname := Table.map_update (f := TerraformRegistryHostRow.hostname)
      (g := fun r => if r.hostname = hostname then { r with authToken := some token } else r)
      t.terraformRegistryHost (by intro r; split <;> rfl)
    refine { h.advance Sequences.le_drawHost with
      hostPkey := hid ▸ h.hostPkey, uniqueHostname := hname ▸ h.uniqueHostname
      hostGenerated := ?_, hostCheck := ?_ }
    · intro r hr
      have hmem : r.id ∈ t.terraformRegistryHost.map (·.id) := hid ▸ List.mem_map_of_mem hr
      obtain ⟨r', hr', heq⟩ := List.mem_map.mp hmem
      exact heq ▸ (h.hostGenerated r' hr').trans (Nat.lt_succ_self _)
    · intro r hr
      have hmem : r.hostname ∈ t.terraformRegistryHost.map (·.hostname) :=
        hname ▸ List.mem_map_of_mem hr
      obtain ⟨r', hr', heq⟩ := List.mem_map.mp hmem
      exact heq ▸ h.hostCheck r' hr'
  · next hnew =>
    refine { h.advance Sequences.le_drawHost with
      hostPkey := Table.nodup_map_concat h.hostPkey ?_
      uniqueHostname := Table.nodup_map_concat h.uniqueHostname hnew
      hostGenerated := ?_, hostCheck := ?_ }
    · rintro ⟨r, hr, heq⟩
      exact absurd heq (h.hostGenerated r hr).ne
    · intro r hr
      rcases List.mem_append.mp hr with hr | hr
      · exact (h.hostGenerated r hr).trans (Nat.lt_succ_self _)
      · rw [List.mem_singleton] at hr
        subst hr
        exact Nat.lt_succ_self _
    · intro r hr
      rcases List.mem_append.mp hr with hr | hr
      · exact h.hostCheck r hr
      · rw [List.mem_singleton] at hr
        subst hr
        exact hh

/-- The deletion of a token keeps the schema. -/
theorem Schema.withoutToken (h : Schema t q) : Schema (t.withoutToken hostname) q :=
  { h with
    hostPkey := h.hostPkey.sublist (List.Sublist.map _ List.filter_sublist)
    uniqueHostname := h.uniqueHostname.sublist (List.Sublist.map _ List.filter_sublist)
    hostGenerated := fun r hr => h.hostGenerated r (List.mem_of_mem_filter hr)
    hostCheck := fun r hr => h.hostCheck r (List.mem_of_mem_filter hr) }

end Tokens

/-- `insert into "terraform_registry_host" ... on conflict do update set "auth_token"`.
SOURCE: src/credhelper/database.rs:36-50 -/
def Database.upsertAuthToken (db : Database) (hostname token : Text) :
    Except SqlError Unit × Database :=
  if validText hostname && validText token then
    if h : hostname.length ≤ 253 then
      (.ok (), { tables := db.tables.withToken db.sequences hostname token
                 sequences := db.sequences.drawHost
                 schema := db.schema.withToken h })
    else
      (.error .checkViolation,
        { db with sequences := db.sequences.drawHost
                  schema := db.schema.advance Sequences.le_drawHost })
  else (.error .invalidText, db)

/-- `delete from "terraform_registry_host" where "hostname" = $1`.
SOURCE: src/credhelper/database.rs:52-61 -/
def Database.deleteAuthToken (db : Database) (hostname : Text) : Except SqlError Unit × Database :=
  if validText hostname then
    (.ok (), { db with tables := db.tables.withoutToken hostname, schema := db.schema.withoutToken })
  else (.error .invalidText, db)

end Terrashine.Model
