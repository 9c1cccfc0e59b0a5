import Terrashine.Library.Maps
import Terrashine.Program.Version
import Terrashine.Analysis.Catalogue

/-!
# The archives of a version answer

`MirrorVersion::build` enters each row under the text `os_arch`.  The rows of one version have
different pairs of operating system and architecture, but two pairs can have the same text: one
in which an underscore stands at another place.  An answer offers every platform exactly when no
two of its rows are such a pair: `offersEvery_iff`.
-/

set_option autoImplicit false

namespace Terrashine.Analysis

open Terrashine.Library Terrashine.Model

/-- The columns that tell the rows of one version apart. -/
def platform (r : DatabaseDownloadResult) : Text × Text := (r.os, r.arch)

/-- The text between two underscores of `os_x_arch` belongs to the operating system of the one
row and to the architecture of the other. -/
def Overlap (r r' : DatabaseDownloadResult) : Prop :=
  ∃ x, r'.os = r.os ++ '_' :: x ∧ r.arch = x ++ '_' :: r'.arch

/-- **When two rows share their key.** -/
theorem archiveName_eq_iff (r r' : DatabaseDownloadResult) :
    archiveName r.os r.arch = archiveName r'.os r'.arch ↔
      platform r = platform r' ∨ Overlap r r' ∨ Overlap r' r := by
  have hname : ∀ os arch, archiveName os arch = os ++ '_' :: arch := by
    intro os arch
    simp [archiveName]
  rw [hname, hname]
  constructor
  · intro h
    rcases List.append_eq_append_iff.mp h with ⟨x, hos, harch⟩ | ⟨x, hos, harch⟩
    · cases x with
      | nil =>
        simp only [List.append_nil, List.nil_append, List.cons.injEq, true_and] at hos harch
        left
        rw [platform, platform, hos, harch]
      | cons c x =>
        obtain ⟨rfl, hx⟩ := List.cons_eq_cons.mp harch
        exact .inr (.inl ⟨x, hos, hx⟩)
    · cases x with
      | nil =>
        simp only [List.append_nil, List.nil_append, List.cons.injEq, true_and] at hos harch
        left
        rw [platform, platform, hos, harch]
      | cons c x =>
        obtain ⟨rfl, hx⟩ := List.cons_eq_cons.mp harch
        exact .inr (.inr ⟨x, hos, hx⟩)
  · rintro (h | ⟨x, hos, harch⟩ | ⟨x, hos, harch⟩)
    · obtain ⟨hos, harch⟩ := Prod.mk.inj h
      rw [hos, harch]
    · rw [hos, harch]
      simp
    · rw [hos, harch]
      simp

/-- An answer offers every platform: it has one entry for each row, each row's own URL is
found under its own key, and the order of the rows does not matter. -/
structure OffersEvery (rows : List DatabaseDownloadResult) (baseUrl : Text) : Prop where
  entries : (MirrorVersion.build rows baseUrl).archives.keys.card = rows.length
  own : ∀ r ∈ rows, (MirrorVersion.build rows baseUrl).archives.lookup (archiveName r.os r.arch) =
    some { url := buildUrl baseUrl r.id }
  order : ∀ rows', rows'.Perm rows → MirrorVersion.build rows' baseUrl = MirrorVersion.build rows baseUrl

/-- An answer enters its rows one by one. -/
theorem build_eq (rows : List DatabaseDownloadResult) (baseUrl : Text) :
    MirrorVersion.build rows baseUrl =
      { archives := insertEach (fun r => archiveName r.os r.arch)
          (fun r => { url := buildUrl baseUrl r.id }) rows ∅ } := rfl

/-- The keys of rows with different platforms are different when no two of them overlap. -/
theorem nodup_archiveName_iff {rows : List DatabaseDownloadResult}
    (hrows : (rows.map platform).Nodup) :
    (rows.map fun r => archiveName r.os r.arch).Nodup ↔
      ∀ r ∈ rows, ∀ r' ∈ rows, ¬ Overlap r r' := by
  have hkey : ∀ r ∈ rows, ∀ r' ∈ rows, platform r = platform r' → r = r' :=
    fun r hr r' hr' h => List.inj_on_of_nodup_map hrows hr hr' h
  rw [List.nodup_map_iff_inj_on (List.Nodup.of_map _ hrows)]
  constructor
  · intro hinj r hr r' hr' hover
    have hsame := hinj r hr r' hr' ((archiveName_eq_iff r r').mpr (.inr (.inl hover)))
    obtain ⟨x, hos, -⟩ := hover
    have hlength := congrArg List.length hos
    rw [hsame] at hlength
    simp only [List.length_append, List.length_cons] at hlength
    omega
  · intro hnone r hr r' hr' hname
    rcases (archiveName_eq_iff r r').mp hname with h | h | h
    · exact hkey r hr r' hr' h
    · exact absurd h (hnone r hr r' hr')
    · exact absurd h (hnone r' hr' r hr)

/-- No pair of rows is joined twice. -/
theorem nodup_joined (db : Database) : db.joined.Nodup := by
  unfold Database.joined
  rw [List.nodup_flatMap]
  constructor
  · intro r _
    have hproviders : db.providers.Nodup := List.Nodup.of_map _ db.schema.providerPkey
    apply List.Nodup.map
    · intro q q' h
      exact congrArg Prod.snd h
    · exact hproviders.filter _
  · have hversions : db.versions.Nodup := List.Nodup.of_map _ db.schema.versionPkey
    refine hversions.imp ?_
    intro r r' hne x hx hx'
    obtain ⟨q, -, rfl⟩ := List.mem_map.mp hx
    obtain ⟨q', -, heq⟩ := List.mem_map.mp hx'
    exact hne (congrArg Prod.fst heq).symm

/-- **The rows that `list_downloads` can return differ in their platforms.** -/
theorem nodup_platform_of_selectDownloads {db : Database} {p : TerraformProvider} {version : Text}
    {rows : List DatabaseDownloadResult} (h : rows.Perm (db.selectDownloads p version)) :
    (rows.map platform).Nodup := by
  rw [(h.map platform).nodup_iff]
  unfold Database.selectDownloads
  rw [List.map_map]
  apply List.Nodup.map_on
  · rintro ⟨r, q⟩ hrq ⟨r', q'⟩ hrq' hsame
    obtain ⟨hj, hv⟩ := List.mem_filter.mp hrq
    obtain ⟨hj', hv'⟩ := List.mem_filter.mp hrq'
    obtain ⟨hr, hq, hid⟩ := mem_joined.mp hj
    obtain ⟨hr', hq', hid'⟩ := mem_joined.mp hj'
    obtain ⟨hversion, hp⟩ := of_decide_eq_true hv
    obtain ⟨hversion', hp'⟩ := of_decide_eq_true hv'
    dsimp only at hversion hversion' hp hp'
    have hqq : q = q' := Table.eq_of_key db.schema.uniqueProvider hq hq' (hp.trans hp'.symm)
    subst hqq
    obtain ⟨hos, harch⟩ := Prod.mk.inj hsame
    have htuple : r.tuple = r'.tuple := by
      simp only [TerraformProviderVersionRow.tuple, VersionTuple.mk.injEq]
      exact ⟨hversion.trans hversion'.symm, hos, harch⟩
    have hkey : r.key = r'.key := Prod.ext (hid.trans hid'.symm) htuple
    rw [Table.eq_of_key db.schema.versionTuple hr hr' hkey]
  · exact (nodup_joined db).filter _

/-- **A version answer offers every platform exactly when no two rows overlap.** -/
theorem offersEvery_iff (rows : List DatabaseDownloadResult) (baseUrl : Text)
    (hrows : (rows.map platform).Nodup) :
    OffersEvery rows baseUrl ↔ ∀ r ∈ rows, ∀ r' ∈ rows, ¬ Overlap r r' := by
  rw [← nodup_archiveName_iff hrows]
  constructor
  · intro h
    exact insertEach.card_keys_eq_length_iff.mp h.entries
  · intro hkeys
    refine ⟨insertEach.card_keys_eq_length_iff.mpr hkeys, fun r hr => ?_, fun rows' hperm => ?_⟩
    · exact insertEach.lookup_of_mem hkeys hr
    · rw [build_eq, build_eq, insertEach.perm hkeys hperm]

/-- Three builds; the names of some operating systems and architectures have an underscore. -/
def armRow : DatabaseDownloadResult :=
  { os := "linux".toList, arch := "musl_arm64".toList, id := 1 }

def muslRow : DatabaseDownloadResult :=
  { os := "linux_musl".toList, arch := "arm64".toList, id := 2 }

def linuxRow : DatabaseDownloadResult :=
  { os := "linux".toList, arch := "arm64".toList, id := 3 }

/-- The operating system of the one row is the beginning of that of the other, and yet both have
an entry. -/
theorem offersEvery_built : OffersEvery [linuxRow, muslRow] "https://mirror.test/".toList := by
  apply (offersEvery_iff [linuxRow, muslRow] "https://mirror.test/".toList (by decide)).mpr
  rw [← nodup_archiveName_iff (by decide)]
  decide

/-- Two rows of different platforms share one entry, which is the second row's. -/
theorem platform_dropped : ∃ rows baseUrl, (rows.map platform).Nodup ∧ armRow ∈ rows ∧
    (MirrorVersion.build rows baseUrl).archives.lookup (archiveName armRow.os armRow.arch) ≠
      some { url := buildUrl baseUrl armRow.id } ∧
    (MirrorVersion.build rows baseUrl).archives.keys.card ≠ rows.length :=
  ⟨[armRow, muslRow], "https://mirror.test/".toList, by decide, by decide, by decide, by decide⟩

end Terrashine.Analysis
