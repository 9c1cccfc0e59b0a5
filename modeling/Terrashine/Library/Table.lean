import Mathlib.Data.List.Nodup
import Mathlib.Data.List.Pairwise
import Mathlib.Data.List.Perm.Basic

/-!
# Tables with a unique key

A table is the list of its rows.  `HasKey` says that a key is present; updates that keep a
column and insertions of a new value keep that column free of duplicates.

`insertNew` is the bulk insertion that skips conflicting rows: the keys of a list are taken
in order, a sequence numbers all of them, and those that are not yet present become rows.
It adds to the table exactly the missing keys, each once (`mem_map_insertNew`,
`nodup_insertNew`), so as a set the result is a union.
-/

set_option autoImplicit false

namespace Terrashine.Library.Table

variable {ρ κ β : Type}

/-- Some row of the table has that key. -/
def HasKey (key : ρ → κ) (rows : List ρ) (k : κ) : Prop := ∃ r ∈ rows, key r = k

instance [DecidableEq κ] (key : ρ → κ) (rows : List ρ) (k : κ) : Decidable (HasKey key rows k) :=
  inferInstanceAs (Decidable (∃ r ∈ rows, key r = k))

/-- A table has a key when the key is in its column. -/
theorem hasKey_iff {key : ρ → κ} {rows : List ρ} {k : κ} :
    HasKey key rows k ↔ k ∈ rows.map key := by
  unfold HasKey
  rw [List.mem_map]

/-- The keys of two tables together are those of both. -/
theorem hasKey_append {key : ρ → κ} {rows rows' : List ρ} {k : κ} :
    HasKey key (rows ++ rows') k ↔ HasKey key rows k ∨ HasKey key rows' k := by
  rw [hasKey_iff, hasKey_iff, hasKey_iff, List.map_append, List.mem_append]

/-- A row with a new value keeps the column free of duplicates. -/
theorem nodup_map_concat {f : ρ → β} {rows : List ρ} {r : ρ} (h : (rows.map f).Nodup)
    (hr : ¬ HasKey f rows (f r)) : ((rows ++ [r]).map f).Nodup := by
  rw [List.map_append, List.map_singleton]
  rw [hasKey_iff] at hr
  exact List.nodup_append.mpr ⟨h, List.nodup_singleton _, fun a ha b hb => by
    rw [List.mem_singleton] at hb
    rintro rfl
    exact hr (hb ▸ ha)⟩

/-- An update that leaves a column alone leaves its list of values alone. -/
theorem map_update {f : ρ → β} {g : ρ → ρ} (rows : List ρ) (hg : ∀ r, f (g r) = f r) :
    (rows.map g).map f = rows.map f := by
  rw [List.map_map]
  exact List.map_congr_left fun r _ => hg r

/-- Two rows of a table with the same key are one row. -/
theorem eq_of_key {f : ρ → β} {rows : List ρ} (h : (rows.map f).Nodup) {r r' : ρ} (hr : r ∈ rows)
    (hr' : r' ∈ rows) (heq : f r = f r') : r = r' :=
  List.inj_on_of_nodup_map h hr hr' heq

/-- Two rows with the same value in a column that may be null are one row. -/
theorem eq_of_nullableKey {f : ρ → Option β} {rows : List ρ} (h : (rows.filterMap f).Nodup)
    {r r' : ρ} (hr : r ∈ rows) (hr' : r' ∈ rows) {b : β} (hb : f r = some b)
    (hb' : f r' = some b) : r = r' := by
  rw [List.Nodup, List.pairwise_filterMap] at h
  by_contra hne
  have hsymm : Std.Symm fun r r' : ρ => ∀ b, f r = some b → ∀ b', f r' = some b' → b ≠ b' :=
    ⟨fun r r' hrr' b hb b' hb' => (hrr' b' hb' b hb).symm⟩
  exact h.forall hr hr' hne b hb b hb' rfl

/-- The rows with the key of one row are that row. -/
theorem filter_eq_singleton [DecidableEq β] {f : ρ → β} {rows : List ρ}
    (h : (rows.map f).Nodup) {r : ρ} (hr : r ∈ rows) :
    rows.filter (fun r' => f r' = f r) = [r] := by
  induction rows with
  | nil => cases hr
  | cons a rows ih =>
    rw [List.map_cons, List.nodup_cons] at h
    rcases List.mem_cons.mp hr with rfl | hr
    · have hnone : rows.filter (fun r' => f r' = f r) = [] := by
        rw [List.filter_eq_nil_iff]
        intro r' hr' heq
        rw [decide_eq_true_eq] at heq
        exact h.1 (heq ▸ List.mem_map_of_mem hr')
      rw [List.filter_cons_of_pos (by simp), hnone]
    · have hne : f a ≠ f r := by
        intro heq
        exact h.1 (heq ▸ List.mem_map_of_mem hr)
      rw [List.filter_cons_of_neg (by simpa using hne)]
      exact ih h.2 hr

/-! ## Finding a row by its key -/

section Find

variable [DecidableEq κ] {f : ρ → κ}

/-- A row is found exactly for the keys of the table. -/
theorem find?_isSome_iff {rows : List ρ} {k : κ} :
    (rows.find? fun r => f r = k).isSome ↔ HasKey f rows k := by
  unfold HasKey
  rw [List.find?_isSome]
  simp

/-- A row is found under its own key. -/
theorem find?_eq_of_mem {rows : List ρ} (h : (rows.map f).Nodup) {r : ρ} (hr : r ∈ rows) :
    (rows.find? fun r' => f r' = f r) = some r := by
  cases hfound : rows.find? fun r' => f r' = f r with
  | none =>
    rw [List.find?_eq_none] at hfound
    simpa using hfound r hr
  | some r' =>
    have hkey : f r' = f r := by simpa using List.find?_some hfound
    rw [eq_of_key h (List.mem_of_find?_eq_some hfound) hr hkey]

/-- An update that leaves the key alone updates the row that is found. -/
theorem find?_update {g : ρ → ρ} (rows : List ρ) (hg : ∀ r, f (g r) = f r) (k : κ) :
    (rows.map g).find? (fun r => f r = k) = (rows.find? fun r => f r = k).map g := by
  rw [List.find?_map]
  congr 1
  congr 1
  funext r
  simp [hg]

/-- After the rows of a key are removed, only the others are found. -/
theorem find?_remove (rows : List ρ) (k k' : κ) :
    (rows.filter fun r => f r ≠ k').find? (fun r => f r = k) =
      if k = k' then none else rows.find? fun r => f r = k := by
  rw [List.find?_filter]
  split
  · next h =>
    subst h
    rw [List.find?_eq_none]
    intro r hr
    simp
  · next h =>
    congr 1
    funext r
    by_cases hr : f r = k
    · simp [hr, h]
    · simp [hr]

end Find

section Insert

variable [DecidableEq κ] (key : ρ → κ) (mk : ℕ → κ → ρ)

/-- The rows that the insertion of the keys `ks`, numbered from `n`, adds to the table. -/
def insertNew : List ρ → ℕ → List κ → List ρ
  | _, _, [] => []
  | rows, n, k :: ks =>
    if HasKey key rows k then insertNew rows (n + 1) ks
    else mk n k :: insertNew (rows ++ [mk n k]) (n + 1) ks

variable {key mk}

/-- Every added row was made from one of the keys, with a number of its own. -/
theorem mem_insertNew {rows : List ρ} {n : ℕ} {ks : List κ} {r : ρ}
    (hr : r ∈ insertNew key mk rows n ks) :
    ∃ m k, r = mk m k ∧ k ∈ ks ∧ n ≤ m ∧ m < n + ks.length ∧ ¬ HasKey key rows k := by
  induction ks generalizing rows n with
  | nil => cases hr
  | cons k ks ih =>
    unfold insertNew at hr
    split at hr
    · obtain ⟨m, k', rfl, hk', hn, hm, hnot⟩ := ih hr
      refine ⟨m, k', rfl, List.mem_cons_of_mem _ hk', by omega, ?_, hnot⟩
      rw [List.length_cons]
      omega
    · next hnew =>
      rcases List.mem_cons.mp hr with rfl | hr
      · refine ⟨n, k, rfl, List.mem_cons_self, Nat.le_refl n, ?_, hnew⟩
        rw [List.length_cons]
        omega
      · obtain ⟨m, k', rfl, hk', hn, hm, hnot⟩ := ih hr
        refine ⟨m, k', rfl, List.mem_cons_of_mem _ hk', by omega, ?_, ?_⟩
        · rw [List.length_cons]
          omega
        · rw [hasKey_append] at hnot
          exact fun h => hnot (.inl h)

/-- **The added keys are the missing ones.** -/
theorem mem_map_insertNew (hmk : ∀ m k, key (mk m k) = k) {rows : List ρ} {n : ℕ} {ks : List κ}
    {k : κ} : k ∈ (insertNew key mk rows n ks).map key ↔ k ∈ ks ∧ ¬ HasKey key rows k := by
  induction ks generalizing rows n with
  | nil => simp [insertNew]
  | cons k₀ ks ih =>
    unfold insertNew
    split
    · next hold =>
      rw [ih, List.mem_cons]
      constructor
      · rintro ⟨hk, hnot⟩
        exact ⟨.inr hk, hnot⟩
      · rintro ⟨rfl | hk, hnot⟩
        · exact absurd hold hnot
        · exact ⟨hk, hnot⟩
    · next hnew =>
      rw [List.map_cons, List.mem_cons, List.mem_cons, ih, hmk, hasKey_append]
      have hsingle : HasKey key [mk n k₀] k ↔ k = k₀ := by
        rw [hasKey_iff, List.map_singleton, List.mem_singleton, hmk]
      rw [hsingle]
      constructor
      · rintro (rfl | ⟨hk, hnot⟩)
        · exact ⟨.inl rfl, hnew⟩
        · exact ⟨.inr hk, fun h => hnot (.inl h)⟩
      · rintro ⟨rfl | hk, hnot⟩
        · exact .inl rfl
        · by_cases heq : k = k₀
          · exact .inl heq
          · exact .inr ⟨hk, fun h => h.elim hnot heq⟩

/-- Each missing key is added once. -/
theorem nodup_insertNew (hmk : ∀ m k, key (mk m k) = k) {rows : List ρ} {n : ℕ} {ks : List κ} :
    ((insertNew key mk rows n ks).map key).Nodup := by
  induction ks generalizing rows n with
  | nil => exact List.nodup_nil
  | cons k ks ih =>
    unfold insertNew
    split
    · exact ih
    · rw [List.map_cons, List.nodup_cons]
      refine ⟨fun hmem => ?_, ih⟩
      have hnot := ((mem_map_insertNew hmk).mp hmem).2
      apply hnot
      rw [hasKey_append]
      exact .inr ⟨mk n k, List.mem_singleton_self _, rfl⟩

end Insert

end Terrashine.Library.Table
