import Mathlib.Data.Finmap
import Mathlib.Data.Finset.Card

/-!
# Finite maps made by inserting

A list of entries folded into a finite map: the keys are those of the list, and where no two
entries share a key each one is found under its own, in whatever order they were inserted.
-/

set_option autoImplicit false

namespace Terrashine.Library

/-- The map with an entry for each element of the list. -/
def insertEach {κ β ρ : Type} [DecidableEq κ] (key : ρ → κ) (value : ρ → β) (rows : List ρ)
    (m : Finmap fun _ : κ => β) : Finmap fun _ : κ => β :=
  rows.foldl (fun m r => m.insert (key r) (value r)) m

namespace insertEach

variable {κ β ρ : Type} [DecidableEq κ] {key : ρ → κ} {value : ρ → β} {rows rows' : List ρ}
  {m : Finmap fun _ : κ => β}

/-- The first row is inserted first. -/
theorem cons (r : ρ) : insertEach key value (r :: rows) m =
    insertEach key value rows (m.insert (key r) (value r)) := rfl

/-- The keys are those of the rows and those there were before. -/
theorem mem_iff {k : κ} : k ∈ insertEach key value rows m ↔ k ∈ rows.map key ∨ k ∈ m := by
  induction rows generalizing m with
  | nil => simp [insertEach]
  | cons r rows ih =>
    rw [cons, ih, Finmap.mem_insert, List.map_cons, List.mem_cons]
    tauto

/-- A key that no entry has keeps what it had. -/
theorem lookup_of_notMem {k : κ} (hk : k ∉ rows.map key) :
    (insertEach key value rows m).lookup k = m.lookup k := by
  induction rows generalizing m with
  | nil => rfl
  | cons r rows ih =>
    rw [List.map_cons, List.mem_cons, not_or] at hk
    rw [cons, ih hk.2, Finmap.lookup_insert_of_ne _ hk.1]

/-- **Where no two entries share a key, each is found under its own.** -/
theorem lookup_of_mem (hkeys : (rows.map key).Nodup) {r : ρ} (hr : r ∈ rows) :
    (insertEach key value rows m).lookup (key r) = some (value r) := by
  induction rows generalizing m with
  | nil => exact absurd hr List.not_mem_nil
  | cons r' rows ih =>
    rw [List.map_cons, List.nodup_cons] at hkeys
    rw [cons]
    rcases List.mem_cons.mp hr with rfl | hr
    · rw [lookup_of_notMem hkeys.1, Finmap.lookup_insert]
    · exact ih hkeys.2 hr

/-- What a map made from nothing holds is some entry's. -/
theorem of_lookup {k : κ} {v : β} (h : (insertEach key value rows m).lookup k = some v)
    (hm : m.lookup k ≠ some v) : ∃ r ∈ rows, key r = k ∧ value r = v := by
  induction rows generalizing m with
  | nil => exact absurd h hm
  | cons r rows ih =>
    rw [cons] at h
    by_cases hr : key r = k ∧ value r = v
    · exact ⟨r, List.mem_cons_self, hr⟩
    · have hinsert : (m.insert (key r) (value r)).lookup k ≠ some v := by
        by_cases hk : k = key r
        · subst hk
          rw [Finmap.lookup_insert]
          exact fun heq => hr ⟨rfl, Option.some.inj heq⟩
        · rw [Finmap.lookup_insert_of_ne _ hk]
          exact hm
      obtain ⟨r', hr', hfound⟩ := ih h hinsert
      exact ⟨r', List.mem_cons_of_mem _ hr', hfound⟩

/-- Where the keys differ, the order of the entries does not matter. -/
theorem perm (hkeys : (rows.map key).Nodup) (h : rows'.Perm rows) :
    insertEach key value rows' m = insertEach key value rows m := by
  have hkeys' : (rows'.map key).Nodup := (h.map key).nodup_iff.mpr hkeys
  apply Finmap.ext_lookup
  intro k
  by_cases hk : k ∈ rows.map key
  · obtain ⟨r, hr, rfl⟩ := List.mem_map.mp hk
    rw [lookup_of_mem hkeys hr, lookup_of_mem hkeys' (h.mem_iff.mpr hr)]
  · have hk' : k ∉ rows'.map key := fun hmem => hk ((h.map key).mem_iff.mp hmem)
    rw [lookup_of_notMem hk, lookup_of_notMem hk']

/-- A map made from nothing has as many entries as the list exactly when no two share a key. -/
theorem card_keys_eq_length_iff :
    (insertEach key value rows ∅).keys.card = rows.length ↔ (rows.map key).Nodup := by
  have hkeys : (insertEach key value rows ∅).keys = (rows.map key).toFinset := by
    ext k
    rw [Finmap.mem_keys, mem_iff, List.mem_toFinset]
    exact or_iff_left Finmap.notMem_empty
  have hcard := Multiset.toFinset_card_eq_card_iff_nodup (m := (rows.map key : Multiset κ))
  rw [Multiset.coe_nodup, Multiset.coe_card, List.length_map] at hcard
  rw [hkeys]
  exact hcard

end insertEach

end Terrashine.Library
