import Terrashine.Library.Text
import Mathlib.Data.List.Nodup

/-!
# Routers

A router is a list of patterns with what they lead to.  A pattern is matched segment by segment;
a parameter stands for any segment, which may be empty where more of the path follows it, but not
at its end.  Where both a literal and a parameter match a segment, the literal is tried first, and
the parameter when the literal leads nowhere.

`lookup` walks down the segments with the patterns that still match.  It finds a pattern when one
matches (`lookup_complete`), and the one it finds has a literal where any other matching one first
differs from it (`lookup_first`).  In a table without two equal patterns this says all about it:
`lookup_eq_some_iff`.
-/

set_option autoImplicit false

namespace Terrashine.Library

namespace Router

/-- One segment of a pattern. -/
inductive Segment where
  | literal (t : Text)
  | param
  deriving DecidableEq

abbrev Pattern : Type := List Segment

/-- The pattern matches the segments, and its parameters stand for these. -/
inductive Matches : Pattern → List Text → List Text → Prop
  | nil : Matches [] [] []
  | literal (t : Text) {pattern : Pattern} {segments captured : List Text}
      (h : Matches pattern segments captured) :
      Matches (.literal t :: pattern) (t :: segments) captured
  | param {s : Text} {pattern : Pattern} {segments captured : List Text}
      (hs : s = [] → segments ≠ []) (h : Matches pattern segments captured) :
      Matches (.param :: pattern) (s :: segments) (s :: captured)

/-! ## Paths -/

/-- The segments of a path that begins with a slash. -/
def segments : Text → Option (List Text)
  | '/' :: rest => some (rest.splitOn '/')
  | _ => none

/-- The path of these segments. -/
def path (segments : List Text) : Text := segments.flatMap fun s => '/' :: s

/-- Cutting at the slashes gives the segments back, when none of them has one. -/
theorem splitOn_path (s : Text) (rest : List Text) (hs : '/' ∉ s) (hrest : ∀ t ∈ rest, '/' ∉ t) :
    (s ++ path rest).splitOn '/' = s :: rest := by
  induction rest generalizing s with
  | nil =>
    show (s ++ []).splitOn '/' = [s]
    rw [List.append_nil, List.splitOn_eq_singleton hs]
  | cons t rest ih =>
    have hsplit : s ++ path (t :: rest) = s ++ '/' :: (t ++ path rest) := rfl
    rw [hsplit, List.splitOn_append_cons_self_of_not_mem hs,
      ih t (hrest t List.mem_cons_self) fun u hu => hrest u (List.mem_cons_of_mem _ hu)]

/-- **Segments without slashes are read back from their path.** -/
theorem segments_path {segs : List Text} (hne : segs ≠ []) (hsegs : ∀ s ∈ segs, '/' ∉ s) :
    segments (path segs) = some segs := by
  cases segs with
  | nil => exact absurd rfl hne
  | cons s rest =>
    show some ((s ++ path rest).splitOn '/') = some (s :: rest)
    rw [splitOn_path s rest (hsegs s List.mem_cons_self) fun t ht =>
      hsegs t (List.mem_cons_of_mem _ ht)]

/-! ## Patterns -/

/-- A segment of a pattern as it is written: a name in braces is a parameter. -/
def Segment.ofText (t : Text) : Segment :=
  if t.head? = some '\x7b' ∧ t.getLast? = some '\x7d' then .param else .literal t

/-- A pattern as it is written. -/
def Pattern.ofText (t : Text) : Pattern := ((segments t).getD []).map Segment.ofText

variable {α : Type}

/-- The rests of the patterns that begin with the segment `first`. -/
def under (first : Segment) (table : List (Pattern × α)) : List (Pattern × α) :=
  table.filterMap fun
    | (s :: pattern, a) => if s = first then some (pattern, a) else none
    | ([], _) => none

/-- What the segments lead to, with what the parameters stand for. -/
def lookup : List (Pattern × α) → List Text → Option (α × List Text)
  | table, [] => (table.find? fun entry => entry.1 = []).map fun entry => (entry.2, [])
  | table, s :: segments => match lookup (under (.literal s) table) segments with
    | some found => some found
    | none =>
      if s = [] ∧ segments = [] then none
      else (lookup (under .param table) segments).map fun found => (found.1, s :: found.2)

/-- Where the two patterns first differ, the first has a literal and the second a parameter. -/
inductive Precedes : Pattern → Pattern → Prop
  | here (t : Text) (p q : Pattern) : Precedes (.literal t :: p) (.param :: q)
  | there (s : Segment) (p q : Pattern) (h : Precedes p q) : Precedes (s :: p) (s :: q)

section Lookup

variable {table : List (Pattern × α)} {s : Text} {segments captured : List Text} {a : α}
  {p q : Pattern}

/-- What is under a segment are the patterns that begin with it. -/
theorem mem_under {first : Segment} : (p, a) ∈ under first table ↔ (first :: p, a) ∈ table := by
  unfold under
  rw [List.mem_filterMap]
  constructor
  · rintro ⟨⟨pattern, b⟩, hmem, heq⟩
    cases pattern with
    | nil => cases heq
    | cons s pattern =>
      dsimp only at heq
      split at heq
      · next hs =>
        cases heq
        rw [← hs]
        exact hmem
      · cases heq
  · intro hmem
    exact ⟨_, hmem, if_pos rfl⟩

/-- **Where a pattern matches, one is found.** -/
theorem lookup_complete (hmem : (q, a) ∈ table) (hmatch : Matches q segments captured) :
    lookup table segments ≠ none := by
  induction hmatch generalizing table with
  | nil =>
    unfold lookup
    intro hnone
    have hno := List.find?_eq_none.mp (Option.map_eq_none_iff.mp hnone) _ hmem
    simp at hno
  | literal t h ih =>
    have hfound := ih (mem_under.mpr hmem)
    unfold lookup
    split
    · exact Option.some_ne_none _
    · next hnone => exact absurd hnone hfound
  | param hs h ih =>
    have hfound := ih (mem_under.mpr hmem)
    unfold lookup
    split
    · exact Option.some_ne_none _
    · rw [if_neg fun hend => hs hend.1 hend.2]
      simpa using hfound

/-- **What is found is the matching pattern that precedes every other one.** -/
theorem lookup_first (h : lookup table segments = some (a, captured)) :
    ∃ p, (p, a) ∈ table ∧ Matches p segments captured ∧
      ∀ entry ∈ table, ∀ other, Matches entry.1 segments other →
        p = entry.1 ∨ Precedes p entry.1 := by
  induction segments generalizing table a captured with
  | nil =>
    obtain ⟨⟨p, b⟩, hfound, heq⟩ := Option.map_eq_some_iff.mp h
    cases heq
    have hp : p = [] := by simpa using List.find?_some hfound
    subst hp
    refine ⟨[], List.mem_of_find?_eq_some hfound, .nil, ?_⟩
    rintro ⟨q, b'⟩ _ other hmatch
    cases hmatch
    exact .inl rfl
  | cons s segments ih =>
    unfold lookup at h
    split at h
    · next found hfound =>
      cases h
      obtain ⟨p, hmem, hmatch, hfirst⟩ := ih hfound
      refine ⟨.literal s :: p, mem_under.mp hmem, .literal s hmatch, ?_⟩
      rintro ⟨q, b⟩ hq other hother
      cases hother with
      | literal t hrest =>
        rcases hfirst _ (mem_under.mpr hq) _ hrest with rfl | hfirst
        · exact .inl rfl
        · exact .inr (.there _ _ _ hfirst)
      | param hs hrest => exact .inr (.here s p _)
    · next hnone =>
      split at h
      · cases h
      · next hs =>
        obtain ⟨⟨b, rest⟩, hfound, heq⟩ := Option.map_eq_some_iff.mp h
        cases heq
        obtain ⟨p, hmem, hmatch, hfirst⟩ := ih hfound
        have hend : s = [] → segments ≠ [] := fun hs' hsegments => hs ⟨hs', hsegments⟩
        refine ⟨.param :: p, mem_under.mp hmem, .param hend hmatch, ?_⟩
        rintro ⟨q, b⟩ hq other hother
        cases hother with
        | literal t hrest => exact absurd hnone (lookup_complete (mem_under.mpr hq) hrest)
        | param hs hrest =>
          rcases hfirst _ (mem_under.mpr hq) _ hrest with rfl | hfirst
          · exact .inl rfl
          · exact .inr (.there _ _ _ hfirst)

/-- The empty pattern matches the empty path. -/
theorem matches_nil : Matches [] segments captured ↔ segments = [] ∧ captured = [] := by
  constructor
  · rintro ⟨⟩
    exact ⟨rfl, rfl⟩
  · rintro ⟨rfl, rfl⟩
    exact .nil

/-- A literal matches itself. -/
theorem matches_literal (t : Text) : Matches (.literal t :: p) segments captured ↔
    ∃ rest, segments = t :: rest ∧ Matches p rest captured := by
  constructor
  · intro h
    cases h with
    | literal _ h => exact ⟨_, rfl, h⟩
  · rintro ⟨rest, rfl, h⟩
    exact .literal t h

/-- A parameter matches and captures a segment, at the end of a path no empty one. -/
theorem matches_param : Matches (.param :: p) segments captured ↔
    ∃ s rest found,
      segments = s :: rest ∧ captured = s :: found ∧ (s = [] → rest ≠ []) ∧
        Matches p rest found := by
  constructor
  · intro h
    cases h with
    | param hs h => exact ⟨_, _, _, rfl, rfl, hs, h⟩
  · rintro ⟨s, rest, found, rfl, rfl, hs, h⟩
    exact .param hs h

/-- A pattern matches in one way. -/
theorem Matches.captured_eq {other : List Text} (h : Matches p segments captured)
    (h' : Matches p segments other) : captured = other := by
  induction h generalizing other with
  | nil =>
    cases h'
    rfl
  | literal t h ih =>
    cases h' with
    | literal _ h' => exact ih h'
  | param hs h ih =>
    cases h' with
    | param _ h' => rw [ih h']

/-- Two patterns are compared at their first segments, or after an equal one. -/
theorem precedes_cons {s t : Segment} : Precedes (s :: p) (t :: q) ↔
    (∃ text, s = .literal text ∧ t = .param) ∨ s = t ∧ Precedes p q := by
  constructor
  · intro h
    cases h with
    | here text => exact .inl ⟨text, rfl, rfl⟩
    | there _ _ _ h => exact .inr ⟨rfl, h⟩
  · rintro (⟨text, rfl, rfl⟩ | ⟨rfl, h⟩)
    · exact .here text p q
    · exact .there s p q h

/-- No two patterns precede each other. -/
theorem Precedes.asymm (h : Precedes p q) : ¬ Precedes q p := by
  induction h with
  | here t p q =>
    intro h'
    cases h'
  | there s p q h ih =>
    intro h'
    cases h' with
    | there _ _ _ h' => exact ih h'

/-- **What a table without two equal patterns leads to.** -/
theorem lookup_eq_some_iff (hdistinct : (table.map Prod.fst).Nodup) :
    lookup table segments = some (a, captured) ↔
      ∃ p, (p, a) ∈ table ∧ Matches p segments captured ∧
        ∀ entry ∈ table, ∀ other, Matches entry.1 segments other →
          p = entry.1 ∨ Precedes p entry.1 := by
  constructor
  · exact lookup_first
  · rintro ⟨p, hmem, hmatch, hfirst⟩
    obtain ⟨⟨b, found⟩, hlookup⟩ := Option.ne_none_iff_exists'.mp (lookup_complete hmem hmatch)
    obtain ⟨p', hmem', hmatch', hfirst'⟩ := lookup_first hlookup
    have hsame : p' = p := by
      rcases hfirst' _ hmem _ hmatch with heq | hbefore
      · exact heq
      · rcases hfirst _ hmem' _ hmatch' with heq | hafter
        · exact heq.symm
        · exact absurd hafter hbefore.asymm
    subst hsame
    have hentry : (p', b) = (p', a) := List.inj_on_of_nodup_map hdistinct hmem' hmem rfl
    cases hentry
    rw [hmatch.captured_eq hmatch']
    exact hlookup

end Lookup

end Router

end Terrashine.Library
