import Terrashine.Analysis.Catalogue
import Terrashine.Library.Maps

/-!
# The first answer and the cached answer

The first client that asks for a provider is answered from the response of the registry,
every later one from the database.  The two indexes list the same versions exactly when
every version of the response has a platform somewhere in it: a version without platforms
becomes no row, and a response without rows leaves no index at all.
-/

set_option autoImplicit false

namespace Terrashine.Analysis

open Terrashine.Library Terrashine.Model

/-- The versions an index lists. -/
def versionSet (index : MirrorIndex) : Finset Text := index.versions.keys

/-- The index of a list of versions is made by inserting them. -/
theorem insertAll_eq (versions : List Text) :
    MirrorIndex.insertAll versions = { versions := insertEach id (fun _ => ∅) versions ∅ } := rfl

/-- An index lists the versions that were inserted. -/
theorem mem_versionSet_insertAll {versions : List Text} {v : Text} :
    v ∈ versionSet (.insertAll versions) ↔ v ∈ versions := by
  rw [insertAll_eq]
  unfold versionSet
  rw [Finmap.mem_keys, insertEach.mem_iff, List.map_id]
  exact or_iff_left Finmap.notMem_empty

/-- A row that the query returned holds a version. -/
theorem exists_versions {db : Database} {p : TerraformProvider} {rows : List (Option Text)}
    (hrows : rows.Perm (db.selectVersions p)) :
    ∃ versions : List Text, rows = versions.map some ∧
      ∀ v, v ∈ versions ↔ ∃ t ∈ offers db p, t.version = v := by
  have hsome : ∀ x ∈ rows, ∃ v, x = some v := by
    intro x hx
    obtain ⟨t, -, rfl⟩ := mem_selectVersions.mp (hrows.mem_iff.mp hx)
    exact ⟨t.version, rfl⟩
  refine ⟨rows.filterMap id, ?_, fun v => ?_⟩
  · clear hrows
    induction rows with
    | nil => rfl
    | cons x rows ih =>
      obtain ⟨v, rfl⟩ := hsome x List.mem_cons_self
      have hrest := ih fun x hx => hsome x (List.mem_cons_of_mem _ hx)
      show some v :: rows = (v :: rows.filterMap id).map some
      rw [List.map_cons, ← hrest]
  · rw [List.mem_filterMap]
    constructor
    · rintro ⟨x, hx, heq⟩
      obtain ⟨t, ht, rfl⟩ := mem_selectVersions.mp (hrows.mem_iff.mp hx)
      exact ⟨t, ht, by simpa using heq⟩
    · rintro ⟨t, ht, rfl⟩
      exact ⟨some t.version, hrows.mem_iff.mpr (mem_selectVersions.mpr ⟨t, ht, rfl⟩), rfl⟩

/-- No row of these is null. -/
theorem mapM_id_some (versions : List Text) : (versions.map some).mapM id = some versions := by
  induction versions with
  | nil => rfl
  | cons v versions ih =>
    rw [List.map_cons, List.mapM_cons, ih]
    rfl

/-- **The index read from the database** lists the versions it has tuples for, and there is
none while it has no tuple. -/
theorem ofRows_eq {db : Database} {p : TerraformProvider} {rows : List (Option Text)}
    (hrows : rows.Perm (db.selectVersions p)) :
    (MirrorIndex.ofRows rows = none ∧ offers db p = ∅) ∨
      ∃ index, MirrorIndex.ofRows rows = some index ∧ (offers db p).Nonempty ∧
        ∀ v, v ∈ versionSet index ↔ ∃ t ∈ offers db p, t.version = v := by
  obtain ⟨versions, rfl, hmem⟩ := exists_versions hrows
  cases versions with
  | nil =>
    refine .inl ⟨rfl, ?_⟩
    rw [Set.eq_empty_iff_forall_notMem]
    intro t ht
    exact absurd ((hmem t.version).mpr ⟨t, ht, rfl⟩) List.not_mem_nil
  | cons v versions =>
    refine .inr ⟨.ofVersions (v :: versions), ?_, ?_, fun w => ?_⟩
    · unfold MirrorIndex.ofRows
      rw [mapM_id_some]
      rfl
    · obtain ⟨t, ht, -⟩ := (hmem v).mp List.mem_cons_self
      exact ⟨t, ht⟩
    · unfold MirrorIndex.ofVersions
      rw [mem_versionSet_insertAll, hmem]

/-- The versions of a response that become rows. -/
theorem exists_tuple_iff (response : ProviderVersions) (v : Text) :
    (∃ t ∈ tuples response, t.version = v) ↔
      ∃ item ∈ response.versions, item.version = v ∧ item.platforms ≠ [] := by
  constructor
  · rintro ⟨t, ht, rfl⟩
    obtain ⟨item, hitem, platform, hplatform, rfl⟩ := mem_tuples.mp ht
    exact ⟨item, hitem, rfl, List.ne_nil_of_mem hplatform⟩
  · rintro ⟨item, hitem, rfl, hne⟩
    obtain ⟨platform, hplatform⟩ := List.exists_mem_of_ne_nil _ hne
    exact ⟨_, mem_tuples.mpr ⟨item, hitem, platform, hplatform, rfl⟩, rfl⟩

/-- Every version of the response has a platform, in one of the items that name it, and
there is a version at all. -/
def EveryVersionHasPlatform (response : ProviderVersions) : Prop :=
  response.versions ≠ [] ∧ ∀ item ∈ response.versions,
    ∃ item' ∈ response.versions, item'.version = item.version ∧ item'.platforms ≠ []

/-- **When the first and the cached answer agree.**  After the store of a response for a
provider without rows, the index made from the response and the one read back from the
database list the same versions if and only if every version of the response has a platform
and there is a version at all. -/
theorem firstAnswer_eq_cachedAnswer_iff {fault : Option StoreStep} {now : ℕ} {db db' : Database}
    {p : TerraformProvider} {response : ProviderVersions} {n : ℕ} {rows : List (Option Text)}
    (hnone : db.selectVersions p = [])
    (hstore : storeProviderVersions fault now db p response = (.ok n, db'))
    (hrows : rows.Perm (db'.selectVersions p)) :
    (MirrorIndex.ofRows rows).map versionSet =
        some (versionSet (.ofProviderVersions response)) ↔ EveryVersionHasPlatform response := by
  obtain ⟨pid, new, hs, -⟩ := store_ok hstore
  have hoffers : ∀ t, t ∈ offers db' p ↔ t ∈ tuples response := by
    intro t
    rw [hs.offers, if_pos rfl, selectVersions_eq_nil.mp hnone, Set.empty_union]
    rfl
  have hfirst : ∀ v, v ∈ versionSet (.ofProviderVersions response) ↔
      ∃ item ∈ response.versions, item.version = v := by
    intro v
    unfold MirrorIndex.ofProviderVersions
    rw [mem_versionSet_insertAll, List.mem_map]
  have hcached : ∀ v, (∃ t ∈ offers db' p, t.version = v) ↔
      ∃ item ∈ response.versions, item.version = v ∧ item.platforms ≠ [] := by
    intro v
    rw [← exists_tuple_iff]
    simp only [hoffers]
  unfold EveryVersionHasPlatform
  rcases ofRows_eq hrows with ⟨hindex, hempty⟩ | ⟨index, hindex, ⟨t, ht⟩, hset⟩
  · -- no row, no index: some version would have had to give a row
    rw [hindex]
    constructor
    · intro h
      cases h
    · rintro ⟨hne, hall⟩
      obtain ⟨item, hitem⟩ := List.exists_mem_of_ne_nil _ hne
      obtain ⟨item', hitem', -, hplat⟩ := hall item hitem
      obtain ⟨t, ht, -⟩ := (hcached item'.version).mpr ⟨item', hitem', rfl, hplat⟩
      rw [hempty] at ht
      exact absurd ht (Set.notMem_empty t)
  · rw [hindex, Option.map_some, Option.some_inj, Finset.ext_iff]
    constructor
    · intro heq
      refine ⟨?_, fun item hitem => ?_⟩
      · obtain ⟨item, hitem, -⟩ := (hcached t.version).mp ⟨t, ht, rfl⟩
        exact List.ne_nil_of_mem hitem
      · exact (hcached item.version).mp
          ((hset _).mp ((heq _).mpr ((hfirst _).mpr ⟨item, hitem, rfl⟩)))
    · rintro ⟨-, hall⟩ v
      rw [hset, hcached, hfirst]
      constructor
      · rintro ⟨item, hitem, hv, -⟩
        exact ⟨item, hitem, hv⟩
      · rintro ⟨item, hitem, rfl⟩
        exact hall item hitem

/-- A provider, and two responses for it: one in which every version has a platform, and one
that announces a version for which there is no build yet. -/
def randomProvider : TerraformProvider :=
  { hostname := "registry.terraform.io".toList, namespace_ := "hashicorp".toList
    providerType := "random".toList }

def linuxBuild (version : Text) : ProviderVersionItem :=
  { version := version, platforms := [{ os := "linux".toList, arch := "amd64".toList }] }

def builtVersions : ProviderVersions := { versions := [linuxBuild "1.0.0".toList] }

def announcedVersion : ProviderVersions :=
  { versions := [linuxBuild "1.0.0".toList, { version := "2.0.0".toList, platforms := [] }] }

/-- Three versions, one of them named by two items of which only the second has platforms. -/
def namedTwice : ProviderVersions :=
  { versions := [linuxBuild "1.0.0".toList, { version := "1.1.0".toList, platforms := [] },
      { version := "1.1.0".toList, platforms := [{ os := "linux".toList, arch := "arm64".toList },
          { os := "windows".toList, arch := "amd64".toList }] },
      linuxBuild "2.0.0".toList] }

/-- Both answers list the three versions. -/
theorem firstAnswer_eq_cachedAnswer_built :
    (MirrorIndex.ofRows [some "2.0.0".toList, some "1.1.0".toList, some "1.0.0".toList,
      some "1.1.0".toList]).map versionSet =
        some (versionSet (.ofProviderVersions namedTwice)) := by
  have hstore : storeProviderVersions none 0 Database.empty randomProvider namedTwice =
      (.ok 4, (storeProviderVersions none 0 Database.empty randomProvider namedTwice).2) :=
    Prod.ext (by decide) rfl
  exact (firstAnswer_eq_cachedAnswer_iff rfl hstore (by decide)).mpr ⟨by decide, by decide⟩

/-- The announced version is in the first answer and missing from the cached one. -/
theorem firstAnswer_ne_cachedAnswer :
    ∃ (db db' : Database) (p : TerraformProvider) (response : ProviderVersions) (n : ℕ)
      (rows : List (Option Text)), db.selectVersions p = [] ∧
      storeProviderVersions none 0 db p response = (.ok n, db') ∧
      rows.Perm (db'.selectVersions p) ∧
      (MirrorIndex.ofRows rows).map versionSet ≠
        some (versionSet (.ofProviderVersions response)) := by
  refine ⟨Database.empty,
    (storeProviderVersions none 0 Database.empty randomProvider announcedVersion).2,
    randomProvider, announcedVersion, 1, [some "1.0.0".toList], rfl, Prod.ext (by decide) rfl,
    by decide, by decide⟩

end Terrashine.Analysis
