import Terrashine.Analysis.Store
import Mathlib.Data.Set.Basic

/-!
# The catalogue

Seen from outside, the database is a catalogue: for each provider a set of tuples, which
only grows.  `offers` is that set, `Stored.offers` says that a committed transaction makes
the union with the tuples of its response, and `Extends` is what a later database owes to
an earlier one: every provider row and every version row is still there, under its id.  The
queries of the handlers are monotone along `Extends`.
-/

set_option autoImplicit false

namespace Terrashine.Analysis

open Terrashine.Library Terrashine.Model

/-- A version row of the provider. -/
def RowOf (db : Database) (p : TerraformProvider) (r : TerraformProviderVersionRow) : Prop :=
  r ∈ db.versions ∧ ∃ q ∈ db.providers, r.providerId = q.id ∧ q.provider = p

/-- The tuples the database has for a provider. -/
def offers (db : Database) (p : TerraformProvider) : Set VersionTuple :=
  {v | ∃ r, RowOf db p r ∧ r.tuple = v}

/-! ## The queries -/

/-- The join pairs each version with its provider. -/
theorem mem_joined {db : Database} {r : TerraformProviderVersionRow} {q : TerraformProviderRow} :
    (r, q) ∈ db.joined ↔ r ∈ db.versions ∧ q ∈ db.providers ∧ r.providerId = q.id := by
  unfold Database.joined
  rw [List.mem_flatMap]
  constructor
  · rintro ⟨r', hr', h⟩
    obtain ⟨q', hq', heq⟩ := List.mem_map.mp h
    cases heq
    obtain ⟨hq, hid⟩ := List.mem_filter.mp hq'
    exact ⟨hr', hq, of_decide_eq_true hid⟩
  · rintro ⟨hr, hq, hid⟩
    exact ⟨r, hr, List.mem_map.mpr ⟨q, List.mem_filter.mpr ⟨hq, decide_eq_true hid⟩, rfl⟩⟩

/-- The query for the versions gives those of the tuples. -/
theorem mem_selectVersions {db : Database} {p : TerraformProvider} {x : Option Text} :
    x ∈ db.selectVersions p ↔ ∃ v ∈ offers db p, x = some v.version := by
  unfold Database.selectVersions
  rw [List.mem_map]
  constructor
  · rintro ⟨⟨r, q⟩, hrq, rfl⟩
    obtain ⟨hj, hp⟩ := List.mem_filter.mp hrq
    obtain ⟨hr, hq, hid⟩ := mem_joined.mp hj
    exact ⟨r.tuple, ⟨r, ⟨hr, q, hq, hid, of_decide_eq_true hp⟩, rfl⟩, rfl⟩
  · rintro ⟨v, ⟨r, ⟨hr, q, hq, hid, hp⟩, rfl⟩, rfl⟩
    refine ⟨(r, q), List.mem_filter.mpr ⟨mem_joined.mpr ⟨hr, hq, hid⟩, decide_eq_true hp⟩, rfl⟩

/-- The query for the downloads gives the rows of the version. -/
theorem mem_selectDownloads {db : Database} {p : TerraformProvider} {version : Text}
    {d : DatabaseDownloadResult} :
    d ∈ db.selectDownloads p version ↔
      ∃ r, RowOf db p r ∧ r.version = version ∧ d = { os := r.os, arch := r.arch, id := r.id } := by
  unfold Database.selectDownloads
  rw [List.mem_map]
  constructor
  · rintro ⟨⟨r, q⟩, hrq, rfl⟩
    obtain ⟨hj, hp⟩ := List.mem_filter.mp hrq
    obtain ⟨hr, hq, hid⟩ := mem_joined.mp hj
    obtain ⟨hv, hp⟩ := of_decide_eq_true hp
    exact ⟨r, ⟨hr, q, hq, hid, hp⟩, hv, rfl⟩
  · rintro ⟨r, ⟨hr, q, hq, hid, hp⟩, hv, rfl⟩
    refine ⟨(r, q), List.mem_filter.mpr ⟨mem_joined.mpr ⟨hr, hq, hid⟩, ?_⟩, rfl⟩
    exact decide_eq_true ⟨hv, hp⟩

/-- The query for the versions gives no row exactly when there are no tuples. -/
theorem selectVersions_eq_nil {db : Database} {p : TerraformProvider} :
    db.selectVersions p = [] ↔ offers db p = ∅ := by
  rw [List.eq_nil_iff_forall_not_mem, Set.eq_empty_iff_forall_notMem]
  constructor
  · intro h v hv
    exact h _ (mem_selectVersions.mpr ⟨v, hv, rfl⟩)
  · intro h x hx
    obtain ⟨v, hv, -⟩ := mem_selectVersions.mp hx
    exact h v hv

/-! ## Later databases -/

/-- What a later database owes to an earlier one. -/
structure Extends (db db' : Database) : Prop where
  providers : ∀ q ∈ db.providers, ∃ q' ∈ db'.providers, q'.id = q.id ∧ q'.provider = q.provider
  versions : ∀ r ∈ db.versions, ∃ r' ∈ db'.versions, r'.id = r.id ∧ r'.key = r.key ∧
    (r.artifactId ≠ none → r'.artifactId ≠ none)
  sequences : db.sequences.Le db'.sequences

/-- A database extends itself. -/
theorem Extends.refl (db : Database) : Extends db db :=
  ⟨fun q hq => ⟨q, hq, rfl, rfl⟩, fun r hr => ⟨r, hr, rfl, rfl, id⟩, Sequences.Le.refl _⟩

/-- Extensions of extensions are extensions. -/
theorem Extends.trans {db₁ db₂ db₃ : Database} (h : Extends db₁ db₂) (h' : Extends db₂ db₃) :
    Extends db₁ db₃ := by
  refine ⟨?_, ?_, h.sequences.trans h'.sequences⟩
  · intro q hq
    obtain ⟨q', hq', hid, hp⟩ := h.providers q hq
    obtain ⟨q'', hq'', hid', hp'⟩ := h'.providers q' hq'
    exact ⟨q'', hq'', hid'.trans hid, hp'.trans hp⟩
  · intro r hr
    obtain ⟨r', hr', hid, hkey, ha⟩ := h.versions r hr
    obtain ⟨r'', hr'', hid', hkey', ha'⟩ := h'.versions r' hr'
    exact ⟨r'', hr'', hid'.trans hid, hkey'.trans hkey, ha' ∘ ha⟩

/-- A database whose version and provider tables are as before. -/
theorem Extends.of_tables {db db' : Database} (hp : db'.providers = db.providers)
    (hv : db'.versions = db.versions) (hs : db.sequences.Le db'.sequences) : Extends db db' := by
  refine ⟨fun q hq => ⟨q, ?_, rfl, rfl⟩, fun r hr => ⟨r, ?_, rfl, rfl, id⟩, hs⟩
  · rw [hp]
    exact hq
  · rw [hv]
    exact hr

/-- A row of a provider is still one, under its id and with its tuple. -/
theorem Extends.rowOf {db db' : Database} (h : Extends db db') {p : TerraformProvider}
    {r : TerraformProviderVersionRow} (hr : RowOf db p r) :
    ∃ r', RowOf db' p r' ∧ r'.id = r.id ∧ r'.tuple = r.tuple ∧
      (r.artifactId ≠ none → r'.artifactId ≠ none) := by
  obtain ⟨hmem, q, hq, hid, hp⟩ := hr
  obtain ⟨r', hr', hid', hkey, ha⟩ := h.versions r hmem
  obtain ⟨q', hq', hqid, hqp⟩ := h.providers q hq
  have hpid : r'.providerId = r.providerId := congrArg Prod.fst hkey
  refine ⟨r', ⟨hr', q', hq', ?_, hqp.trans hp⟩, hid', congrArg Prod.snd hkey, ha⟩
  rw [hpid, hid, hqid]

/-- The catalogue only grows. -/
theorem Extends.offers {db db' : Database} (h : Extends db db') (p : TerraformProvider) :
    offers db p ⊆ offers db' p := by
  rintro v ⟨r, hr, rfl⟩
  obtain ⟨r', hr', -, htuple, -⟩ := h.rowOf hr
  exact ⟨r', hr', htuple⟩

/-- The downloads of a version only grow, and keep their ids. -/
theorem Extends.selectDownloads {db db' : Database} (h : Extends db db') {p : TerraformProvider}
    {version : Text} {d : DatabaseDownloadResult} (hd : d ∈ db.selectDownloads p version) :
    d ∈ db'.selectDownloads p version := by
  obtain ⟨r, hr, hv, rfl⟩ := mem_selectDownloads.mp hd
  obtain ⟨r', hr', hid, htuple, -⟩ := h.rowOf hr
  refine mem_selectDownloads.mpr ⟨r', hr', ?_, ?_⟩
  · exact (congrArg VersionTuple.version htuple).trans hv
  · have hos : r'.os = r.os := congrArg VersionTuple.os htuple
    have harch : r'.arch = r.arch := congrArg VersionTuple.arch htuple
    rw [hos, harch, hid]

/-- An id that denoted a tuple denotes no other one later. -/
theorem Extends.same_key {db db' : Database} (h : Extends db db')
    {r r' : TerraformProviderVersionRow} (hr : r ∈ db.versions) (hr' : r' ∈ db'.versions)
    (hid : r'.id = r.id) : r'.key = r.key := by
  obtain ⟨r'', hr'', hid'', hkey, -⟩ := h.versions r hr
  have hrow := Table.eq_of_key db'.schema.versionPkey hr' hr'' (hid.trans hid''.symm)
  rw [hrow, hkey]

/-! ## Stores -/

section Stored

variable {db db' : Database} {p : TerraformProvider} {response : ProviderVersions} {pid : ℕ}
  {new : List TerraformProviderVersionRow}

/-- A store extends the database. -/
theorem Stored.grows (h : Stored db db' p response pid new) : Extends db db' := by
  refine ⟨?_, ?_, h.sequences⟩
  · intro q hq
    obtain ⟨added, hmap, -⟩ := h.providers
    have hmem : (q.id, q.provider) ∈ db'.providers.map fun r => (r.id, r.provider) := by
      rw [hmap]
      exact List.mem_append_left _ (List.mem_map.mpr ⟨q, hq, rfl⟩)
    obtain ⟨q', hq', heq⟩ := List.mem_map.mp hmem
    exact ⟨q', hq', congrArg Prod.fst heq, congrArg Prod.snd heq⟩
  · intro r hr
    refine ⟨r, ?_, rfl, rfl, id⟩
    rw [h.versions]
    exact List.mem_append_left _ hr

/-- The provider an id belonged to before is the one it belongs to now. -/
theorem Stored.provider_of_id (h : Stored db db' p response pid new) {q q' : TerraformProviderRow}
    (hq : q ∈ db.providers) (hq' : q' ∈ db'.providers) (hid : q'.id = q.id) :
    q'.provider = q.provider := by
  obtain ⟨q'', hq'', hid'', hp⟩ := h.grows.providers q hq
  have hrow := Table.eq_of_key db'.schema.providerPkey hq' hq'' (hid.trans hid''.symm)
  rw [hrow, hp]

/-- A version row the database had before is a row of the same provider as before. -/
theorem Stored.rowOf_old (h : Stored db db' p response pid new)
    {r : TerraformProviderVersionRow} (hr : r ∈ db.versions) {q' : TerraformProviderRow}
    (hq' : q' ∈ db'.providers) (hid : r.providerId = q'.id) : RowOf db q'.provider r := by
  obtain ⟨q, hq, hqid⟩ := db.schema.versionProvider r hr
  have hprov := h.provider_of_id hq hq' (hid.symm.trans hqid.symm)
  exact ⟨hr, q, hq, hqid.symm, hprov.symm⟩

/-- The rows of a provider after a store: those it had, and the new ones if it is the
provider of the store. -/
theorem Stored.rowOf_iff (h : Stored db db' p response pid new) {p' : TerraformProvider}
    {r : TerraformProviderVersionRow} :
    RowOf db' p' r ↔ RowOf db p' r ∨ p' = p ∧ r ∈ new := by
  obtain ⟨row, hrow, hrowid, hrowp⟩ := h.provider
  constructor
  · rintro ⟨hr, q', hq', hid, rfl⟩
    rw [h.versions] at hr
    rcases List.mem_append.mp hr with hr | hr
    · exact .inl (h.rowOf_old hr hq' hid)
    · have hpid := (h.fresh r hr).1
      have hsame := Table.eq_of_key db'.schema.providerPkey hq' hrow
        (hid.symm.trans (hpid.trans hrowid.symm))
      rw [hsame]
      exact .inr ⟨hrowp, hr⟩
  · rintro (⟨hr, q, hq, hid, hp⟩ | ⟨rfl, hr⟩)
    · obtain ⟨q', hq', hqid, hqp⟩ := h.grows.providers q hq
      refine ⟨?_, q', hq', hid.trans hqid.symm, hqp.trans hp⟩
      rw [h.versions]
      exact List.mem_append_left _ hr
    · refine ⟨?_, row, hrow, (h.fresh r hr).1.trans hrowid.symm, hrowp⟩
      rw [h.versions]
      exact List.mem_append_right _ hr

/-- **A store is a union in the catalogue**, and touches no other provider. -/
theorem Stored.offers (h : Stored db db' p response pid new) (p' : TerraformProvider) :
    offers db' p' =
      if p' = p then offers db p' ∪ {v | v ∈ tuples response} else offers db p' := by
  ext v
  by_cases hp : p' = p
  · subst hp
    rw [if_pos rfl]
    constructor
    · rintro ⟨r, hr, rfl⟩
      rcases h.rowOf_iff.mp hr with hr | ⟨-, hr⟩
      · exact .inl ⟨r, hr, rfl⟩
      · exact .inr ((h.missing r.tuple).mp (List.mem_map_of_mem hr)).1
    · rintro (⟨r, hr, rfl⟩ | hv)
      · exact ⟨r, h.rowOf_iff.mpr (.inl hr), rfl⟩
      · by_cases hold : ∃ r ∈ db.versions, r.providerId = pid ∧ r.tuple = v
        · obtain ⟨r, hr, hpid, rfl⟩ := hold
          obtain ⟨row, hrow, hrowid, hrowp⟩ := h.provider
          have hrow' := h.rowOf_old hr hrow (hpid.trans hrowid.symm)
          rw [hrowp] at hrow'
          exact ⟨r, h.rowOf_iff.mpr (.inl hrow'), rfl⟩
        · obtain ⟨r, hr, rfl⟩ := List.mem_map.mp ((h.missing v).mpr ⟨hv, hold⟩)
          exact ⟨r, h.rowOf_iff.mpr (.inr ⟨rfl, hr⟩), rfl⟩
  · rw [if_neg hp]
    constructor
    · rintro ⟨r, hr, rfl⟩
      rcases h.rowOf_iff.mp hr with hr | ⟨heq, -⟩
      · exact ⟨r, hr, rfl⟩
      · exact absurd heq hp
    · rintro ⟨r, hr, rfl⟩
      exact ⟨r, h.rowOf_iff.mpr (.inl hr), rfl⟩

end Stored

end Terrashine.Analysis
