import Terrashine.Library.UrlAuthority

/-!
# The normal form of parsed URLs

`parse_reads` says once what the parser makes of a text: an opening that ends in the
authority, the path, and what follows the path.  `canonical_of_reads` derives from it that
every parsed URL is in the normal form `Canonical`: everything is encoded, the path has no
dots left and the authority is the one its own text names.
-/

set_option autoImplicit false

namespace Terrashine.Library

namespace Url

/-! ## Queries and fragments -/

/-- The text of a query and a fragment. -/
def tailText (query fragment : Option Text) : Text :=
  (match query with
    | some q => '?' :: q
    | none => []) ++
  match fragment with
  | some f => '#' :: f
  | none => []

/-- What is encoded in a query. -/
def encodedInQuery (scheme : Text) : Char → Bool :=
  if isSpecial scheme then specialQuerySet else querySet

structure CanonicalTail (scheme : Text) (query fragment : Option Text) : Prop where
  query : ∀ q, query = some q → Encoded (encodedInQuery scheme) q
  fragment : ∀ f, fragment = some f → Encoded fragmentSet f

/-- Escapes are not encoded once more in a query. -/
theorem keepsEscapes_encodedInQuery (scheme : Text) : KeepsEscapes (encodedInQuery scheme) := by
  unfold encodedInQuery
  split <;> decide

/-- What may stand in the query of this scheme may stand in any. -/
theorem querySet_of_encodedInQuery {scheme : Text} {c : Char}
    (h : encodedInQuery scheme c = false) : querySet c = false := by
  unfold encodedInQuery specialQuerySet at h
  split at h
  · rw [Bool.or_eq_false_iff] at h
    exact h.1
  · exact h

/-- A query and a fragment, as they are written, are a tail. -/
theorem isTail_tailText (query fragment : Option Text) : IsTail (tailText query fragment) := by
  intro c hc
  unfold tailText at hc
  cases query with
  | some q =>
    cases hc
    decide
  | none =>
    cases fragment with
    | some f =>
      cases hc
      decide
    | none => cases hc

section Tail

variable {u : Url} {t : Text}

/-- Setting the fragment of a URL without a query sets both. -/
theorem withFragment_of_query (fragment : Option Text) (hquery : u.query = none) :
    { u with fragment := fragment } = { u with query := none, fragment := fragment } := by
  cases u
  cases hquery
  rfl

/-- A URL without query and fragment has none of both. -/
theorem eq_withTail (hquery : u.query = none) (hfragment : u.fragment = none) :
    u = { u with query := none, fragment := none } := by
  cases u
  cases hquery
  cases hfragment
  rfl

/-- Reading query and fragment leaves the path alone. -/
theorem path_withQueryAndFragment (u : Url) (t : Text) :
    (withQueryAndFragment u t).path = u.path := by
  unfold withQueryAndFragment
  dsimp only
  split <;> rfl

/-- A tail is read as a canonical query and fragment, none exactly when it is empty. -/
theorem withQueryAndFragment_of_isTail (ht : IsTail t) (hquery : u.query = none)
    (hfragment : u.fragment = none) : ∃ query fragment,
      withQueryAndFragment u t = { u with query := query, fragment := fragment } ∧
        CanonicalTail u.scheme query fragment ∧ ((query = none ∧ fragment = none) ↔ t = []) := by
  have hencoded := encoded_percentEncode (keepsEscapes_encodedInQuery u.scheme)
  have hfragments : ∀ f, Encoded fragmentSet (percentEncode fragmentSet f) :=
    encoded_percentEncode (by decide)
  cases t with
  | nil =>
    exact ⟨none, none, eq_withTail hquery hfragment, ⟨by simp, by simp⟩, by simp⟩
  | cons c t =>
    have hc := ht c rfl
    simp only [isQueryOrFragment, Bool.or_eq_true, beq_iff_eq] at hc
    rcases hc with rfl | rfl
    · refine ⟨_, _, rfl, ⟨?_, ?_⟩, by simp⟩
      · intro q hq
        rw [← Option.some.inj hq]
        exact hencoded _
      · intro f hf
        cases hdrop : t.dropWhile (· != '#') with
        | nil =>
          rw [hdrop] at hf
          cases hf
        | cons d rest =>
          rw [hdrop] at hf
          rw [← Option.some.inj hf]
          exact hfragments _
    · refine ⟨none, _, withFragment_of_query _ hquery, ⟨by simp, ?_⟩, by simp⟩
      intro f hf
      rw [← Option.some.inj hf]
      exact hfragments _

/-- **A query and a fragment are read back.** -/
theorem withQueryAndFragment_tailText {query fragment : Option Text} (hquery : u.query = none)
    (hfragment : u.fragment = none) (h : CanonicalTail u.scheme query fragment) :
    withQueryAndFragment u (tailText query fragment) =
      { u with query := query, fragment := fragment } := by
  cases query with
  | none =>
    cases fragment with
    | none => exact eq_withTail hquery hfragment
    | some f =>
      show { u with fragment := some (percentEncode fragmentSet f) } = _
      rw [percentEncode_eq_self (h.fragment f rfl)]
      exact withFragment_of_query _ hquery
  | some q =>
    have hq := h.query q rfl
    have hkeep : ∀ c ∈ q, (c != '#') = true := by
      intro c hc
      have hset := querySet_of_encodedInQuery (hq c hc)
      simp only [bne_iff_ne, ne_eq]
      rintro rfl
      revert hset
      decide
    have hself : percentEncode (if isSpecial u.scheme then specialQuerySet else querySet) q = q :=
      percentEncode_eq_self hq
    cases fragment with
    | none =>
      simp only [tailText, List.append_nil, withQueryAndFragment]
      rw [List.takeWhile_eq_self_iff.mpr hkeep, List.dropWhile_eq_nil_iff.mpr hkeep, hself]
    | some f =>
      simp only [tailText, List.cons_append, withQueryAndFragment]
      rw [List.takeWhile_append_of_pos hkeep, List.dropWhile_append_of_pos hkeep,
        List.takeWhile_cons_of_neg (by simp), List.dropWhile_cons_of_neg (by simp), List.append_nil,
        hself]
      dsimp only
      rw [percentEncode_eq_self (h.fragment f rfl)]

end Tail

/-! ## Paths -/

/-- A path in normal form: encoded, without slashes and dots. -/
structure CanonicalPath (scheme : Text) (path : List Text) : Prop where
  encoded : ∀ s ∈ path, Encoded pathSet s
  undelimited : ∀ s ∈ path, Undelimited (isSpecial scheme) s
  noDots : ∀ s ∈ path, NoDots s

section Path

variable {scheme : Text} {path : List Text}

/-- The empty path is canonical. -/
theorem canonicalPath_nil (scheme : Text) : CanonicalPath scheme [] := by
  constructor <;> simp

/-- No slash and nothing to encode: no delimiter. -/
theorem isDelimiter_of_isSlash {special : Bool} {c : Char} (hslash : isSlash special c = false)
    (hpath : pathSet c = false) : isDelimiter special c = false := by
  have hquery : c ≠ '?' := by
    rintro rfl
    revert hpath
    decide
  have hfragment : c ≠ '#' := by
    rintro rfl
    revert hpath
    decide
  simp [isDelimiter, hslash, hquery, hfragment]

/-- A segment without slashes is undelimited once it is encoded. -/
theorem undelimited_percentEncode {special : Bool} {s : Text}
    (h : ∀ c ∈ s, isSlash special c = false) : Undelimited special (percentEncode pathSet s) := by
  have hescape : ∀ c ∈ "%0123456789ABCDEF".toList, isDelimiter special c = false := by
    cases special <;> exact Text.forall_mem (by decide)
  intro c hc
  rcases mem_percentEncode hc with ⟨hmem, hset⟩ | hmem
  · exact isDelimiter_of_isSlash (h c hmem) hset
  · exact hescape c hmem

/-- A canonical path with one more segment. -/
theorem CanonicalPath.append {s : Text} (h : CanonicalPath scheme path)
    (hencoded : Encoded pathSet s) (hundelimited : Undelimited (isSpecial scheme) s)
    (hdots : NoDots s) : CanonicalPath scheme (path ++ [s]) := by
  refine ⟨?_, ?_, ?_⟩
  · intro r hr
    rcases List.mem_append.mp hr with hr | hr
    · exact h.encoded r hr
    · rw [List.mem_singleton.mp hr]
      exact hencoded
  · intro r hr
    rcases List.mem_append.mp hr with hr | hr
    · exact h.undelimited r hr
    · rw [List.mem_singleton.mp hr]
      exact hundelimited
  · intro r hr
    rcases List.mem_append.mp hr with hr | hr
    · exact h.noDots r hr
    · rw [List.mem_singleton.mp hr]
      exact hdots

/-- A canonical path may end in an empty segment. -/
theorem CanonicalPath.append_nil (h : CanonicalPath scheme path) :
    CanonicalPath scheme (path ++ [[]]) :=
  h.append (by simp [Encoded]) (by simp [Undelimited]) (by decide)

/-- A canonical path may lose its last segment. -/
theorem CanonicalPath.dropLast (h : CanonicalPath scheme path) :
    CanonicalPath scheme path.dropLast := by
  have hmem : ∀ s ∈ path.dropLast, s ∈ path := fun s hs => List.dropLast_subset path hs
  exact ⟨fun s hs => h.encoded s (hmem s hs), fun s hs => h.undelimited s (hmem s hs),
    fun s hs => h.noDots s (hmem s hs)⟩

/-- A double dot keeps a path canonical. -/
theorem CanonicalPath.shorten (h : CanonicalPath scheme path) :
    CanonicalPath scheme (shorten scheme path) := by
  unfold Url.shorten
  split
  · split
    · exact h
    · exact canonicalPath_nil scheme
  · exact h.dropLast

/-- One segment of the path state keeps the path in normal form. -/
theorem canonicalPath_pushSegment (h : CanonicalPath scheme path) {segment : Text}
    (hsegment : ∀ c ∈ segment, isSlash (isSpecial scheme) c = false) (last : Bool) :
    CanonicalPath scheme (pushSegment scheme path segment last) := by
  have hencoded := encoded_percentEncode keepsEscapes_pathSet segment
  have hundelimited := undelimited_percentEncode hsegment
  by_cases hdots : NoDots (percentEncode pathSet segment)
  · rw [pushSegment_eq hdots]
    exact h.append hencoded hundelimited hdots
  · unfold pushSegment
    dsimp only
    split
    · split
      · exact h.shorten.append_nil
      · exact h.shorten
    · next hdouble =>
      split
      · split
        · exact h.append_nil
        · exact h
      · next hsingle => exact absurd ⟨by simpa using hsingle, by simpa using hdouble⟩ hdots

/-- After the last segment the path is not empty. -/
theorem pushSegment_last_ne_nil (path : List Text) (segment : Text) :
    pushSegment scheme path segment true ≠ [] := by
  unfold pushSegment
  simp only [if_true]
  split_ifs <;> simp

/-- Segments that are pushed one after the other leave a canonical path. -/
theorem canonicalPath_pushSegments (h : CanonicalPath scheme path) {segments : List Text}
    (hne : segments ≠ [])
    (hsegments : ∀ s ∈ segments, ∀ c ∈ s, isSlash (isSpecial scheme) c = false) :
    CanonicalPath scheme (pushSegments scheme path segments) ∧
      pushSegments scheme path segments ≠ [] := by
  induction segments generalizing path with
  | nil => exact absurd rfl hne
  | cons s rest ih =>
    have hs := hsegments s List.mem_cons_self
    cases rest with
    | nil => exact ⟨canonicalPath_pushSegment h hs true, pushSegment_last_ne_nil path s⟩
    | cons s' rest =>
      exact ih (canonicalPath_pushSegment h hs false) (List.cons_ne_nil _ _)
        fun r hr => hsegments r (List.mem_cons_of_mem _ hr)

/-- An empty last segment stays the last one. -/
theorem pushSegments_append_nil (segments : List Text) :
    ∃ before, pushSegments scheme path (segments ++ [[]]) = before ++ [[]] := by
  induction segments generalizing path with
  | nil =>
    have hdots : NoDots (percentEncode pathSet []) := by decide
    exact ⟨path, pushSegment_eq hdots⟩
  | cons s rest ih =>
    cases rest with
    | nil => exact ih
    | cons s' rest => exact ih

/-- Every text has a segment. -/
theorem splitSegments_ne_nil (special : Bool) (t : Text) : splitSegments special t ≠ [] := by
  cases t with
  | nil => exact List.cons_ne_nil _ _
  | cons c t =>
    unfold splitSegments
    split
    · exact List.cons_ne_nil _ _
    · split <;> exact List.cons_ne_nil _ _

/-- The segments have no slashes. -/
theorem not_isSlash_of_mem_splitSegments {special : Bool} {t : Text} :
    ∀ s ∈ splitSegments special t, ∀ c ∈ s, isSlash special c = false := by
  induction t with
  | nil => simp [splitSegments]
  | cons c t ih =>
    unfold splitSegments
    split
    · intro s hs
      rcases List.mem_cons.mp hs with rfl | hs
      · simp
      · exact ih s hs
    · next hc =>
      cases hsplit : splitSegments special t with
      | nil => exact absurd hsplit (splitSegments_ne_nil special t)
      | cons s ss =>
        rw [hsplit] at ih
        intro r hr d hd
        rcases List.mem_cons.mp hr with rfl | hr
        · rcases List.mem_cons.mp hd with rfl | hd
          · simpa using hc
          · exact ih s List.mem_cons_self d hd
        · exact ih r (List.mem_cons_of_mem _ hr) d hd

/-- A text that is empty or ends in a slash has an empty last segment. -/
theorem splitSegments_of_trailing {special : Bool} {t : Text}
    (h : ∀ c, t.getLast? = some c → c = '/') :
    ∃ segments, splitSegments special t = segments ++ [[]] := by
  induction t with
  | nil => exact ⟨[], rfl⟩
  | cons c t ih =>
    have hrest : ∀ d, t.getLast? = some d → d = '/' := by
      intro d hd
      apply h d
      rw [List.getLast?_cons, hd]
      rfl
    obtain ⟨segments, hsegments⟩ := ih hrest
    unfold splitSegments
    split
    · exact ⟨[] :: segments, by rw [hsegments, List.cons_append]⟩
    · next hc =>
      cases segments with
      | nil =>
        -- nothing but `c`, which then is the trailing slash
        exfalso
        have hnil : t = [] := by
          cases t with
          | nil => rfl
          | cons d t =>
            unfold splitSegments at hsegments
            split at hsegments
            · have htail := (List.cons.inj hsegments).2
              exact absurd htail (splitSegments_ne_nil special t)
            · split at hsegments <;> cases hsegments
        subst hnil
        rw [h c rfl] at hc
        simp [isSlash] at hc
      | cons s segments =>
        rw [hsegments]
        exact ⟨(c :: s) :: segments, rfl⟩

end Path

/-! ## The path state -/

section PathState

variable {u : Url} {t : Text}

/-- What begins with the first question mark or number sign is a tail. -/
theorem isTail_dropWhile (t : Text) : IsTail (t.dropWhile fun c => !isQueryOrFragment c) := by
  intro c hc
  have hhead := List.head?_dropWhile_not (fun c => !isQueryOrFragment c) t
  rw [hc] at hhead
  simpa using hhead

/-- What the path state makes of a text: a path in normal form, and what follows it. -/
theorem withPath_cases (hquery : u.query = none) (hfragment : u.fragment = none) (t : Text) :
    ∃ path query fragment,
      withPath u [] t =
        { u with path := .segments path, query := query, fragment := fragment } ∧
      CanonicalPath u.scheme path ∧ path ≠ [] ∧ CanonicalTail u.scheme query fragment ∧
      ((query = none ∧ fragment = none) ↔ ∀ c ∈ t, isQueryOrFragment c = false) ∧
      (query = none → fragment = none → (∀ c, t.getLast? = some c → c = '/') →
        ∃ before, path = before ++ [[]]) := by
  have hslash : ∀ s ∈ splitSegments (isSpecial u.scheme) (t.takeWhile fun c => !isQueryOrFragment c),
      ∀ c ∈ s, isSlash (isSpecial u.scheme) c = false := not_isSlash_of_mem_splitSegments
  obtain ⟨hpath, hne⟩ := canonicalPath_pushSegments (canonicalPath_nil u.scheme)
    (splitSegments_ne_nil _ _) hslash
  obtain ⟨query, fragment, hwith, htail, hnone⟩ := withQueryAndFragment_of_isTail
    (u := { u with path := .segments _ }) (isTail_dropWhile t) hquery hfragment
  have hiff : (t.dropWhile fun c => !isQueryOrFragment c) = [] ↔
      ∀ c ∈ t, isQueryOrFragment c = false := by
    rw [List.dropWhile_eq_nil_iff]
    simp
  refine ⟨_, query, fragment, hwith, hpath, hne, htail, hnone.trans hiff, ?_⟩
  intro hq hf hlast
  have hdrop := hnone.mp ⟨hq, hf⟩
  have htake : (t.takeWhile fun c => !isQueryOrFragment c) = t := by
    have happend := List.takeWhile_append_dropWhile (p := fun c => !isQueryOrFragment c) (l := t)
    rwa [hdrop, List.append_nil] at happend
  rw [htake]
  obtain ⟨segments, hsegments⟩ : ∃ segments, splitSegments (isSpecial u.scheme) t = segments ++ [[]] :=
    splitSegments_of_trailing hlast
  rw [hsegments]
  exact pushSegments_append_nil segments

end PathState

/-! ## What stands before the path -/

/-- A URL with nothing but its scheme and its authority. -/
def ofOrigin (scheme : Text) (authority : Option Authority) : Url :=
  match authority with
  | none => ofScheme scheme
  | some a =>
    { ofScheme scheme with
      username := a.username, password := a.password, host := some a.host, port := a.port }

/-- The host of a `file` URL. -/
structure FileHost (hp : HostParser) (host : Text) : Prop where
  stable : host ≠ [] → hp true host = some host
  notLocal : host ≠ "localhost".toList
  allowed : ∀ c ∈ host, forbiddenInHost c = false
  brackets : bracketsAfter false host = some false

inductive CanonicalOrigin (hp : HostParser) (scheme : Text) : Option Authority → Prop
  | file {host : Text} : isFile scheme = true → FileHost hp host →
      CanonicalOrigin hp scheme
        (some { username := [], password := [], host := host, port := none })
  | authority {a : Authority} : isFile scheme = false → CanonicalAuthority hp scheme a →
      CanonicalOrigin hp scheme (some a)
  | none : isSpecial scheme = false → CanonicalOrigin hp scheme none

/-- **What the parser makes of the text after the scheme.**  An opening without query and
fragment holds the authority; a path follows, or, after an authority that is not special,
the query and the fragment. -/
inductive Reads (hp : HostParser) (scheme : Text) : Text → Url → Prop
  | path {authority : Option Authority} (opening text : Text) :
      CanonicalOrigin hp scheme authority → (∀ c ∈ opening, isQueryOrFragment c = false) →
      Reads hp scheme (opening ++ text) (withPath (ofOrigin scheme authority) [] text)
  | noPath {a : Authority} {opening text : Text} : isSpecial scheme = false →
      CanonicalOrigin hp scheme (some a) → Undelimited false opening → IsTail text →
      Reads hp scheme ('/' :: '/' :: (opening ++ text))
        (withQueryAndFragment (ofOrigin scheme (some a)) text)

section Reads

variable {hp : HostParser} {scheme t : Text} {u : Url}

/-- Files are special. -/
theorem isFile_of_not_special (h : isSpecial scheme = false) : isFile scheme = false := by
  unfold isSpecial at h
  rw [Bool.or_eq_false_iff] at h
  exact h.2

/-- What delimits nothing begins no query and no fragment. -/
theorem not_isQueryOrFragment_of_isDelimiter {special : Bool} {c : Char}
    (h : isDelimiter special c = false) : isQueryOrFragment c = false := by
  unfold isDelimiter at h
  simp only [Bool.or_eq_false_iff] at h
  simp [isQueryOrFragment, h.1.2, h.2]

/-- A slash begins neither a query nor a fragment. -/
theorem not_isQueryOrFragment_of_isSlash {special : Bool} {c : Char}
    (h : isSlash special c = true) : isQueryOrFragment c = false := by
  simp only [isSlash, Bool.or_eq_true, Bool.and_eq_true, beq_iff_eq] at h
  rcases h with rfl | ⟨-, rfl⟩ <;> decide

/-- An authority has no delimiter. -/
theorem undelimited_authorityText (special : Bool) (t : Text) :
    Undelimited special (authorityText special t) := by
  intro c hc
  have hkeep := List.mem_takeWhile_imp hc
  simpa using hkeep

/-- The path start state after an authority. -/
theorem reads_pathStart {authority : Option Authority} {opening : Text}
    (horigin : CanonicalOrigin hp scheme authority) (hscheme : isSpecial scheme = true)
    (hopening : ∀ c ∈ opening, isQueryOrFragment c = false) (t : Text) :
    Reads hp scheme (opening ++ t) (pathStart (ofOrigin scheme authority) t) := by
  have hofOrigin : (ofOrigin scheme authority).scheme = scheme := by cases authority <;> rfl
  unfold pathStart
  rw [hofOrigin, hscheme]
  cases t with
  | nil =>
    rw [if_pos rfl]
    exact .path opening [] horigin hopening
  | cons c t =>
    dsimp only
    split
    · next hc =>
      have hshape : opening ++ c :: t = (opening ++ [c]) ++ t := by simp
      rw [hshape]
      refine .path (opening ++ [c]) t horigin ?_
      intro d hd
      rcases List.mem_append.mp hd with hd | hd
      · exact hopening d hd
      · rw [List.mem_singleton.mp hd]
        exact not_isQueryOrFragment_of_isSlash hc
    · rw [if_pos rfl]
      exact .path opening (c :: t) horigin hopening

/-- The text up to the end of the authority. -/
theorem not_isQueryOrFragment_of_opening (special : Bool) {opening : Text}
    (h : ∀ c ∈ opening, isQueryOrFragment c = false) (t : Text) :
    ∀ c ∈ opening ++ authorityText special t, isQueryOrFragment c = false := by
  intro c hc
  rcases List.mem_append.mp hc with hc | hc
  · exact h c hc
  · exact not_isQueryOrFragment_of_isDelimiter (undelimited_authorityText special t c hc)

/-- What is read after an authority's opening is canonical. -/
theorem reads_withAuthority (hhp : CanonicalHosts hp) (hfile : isFile scheme = false)
    {opening : Text} (hopening : ∀ c ∈ opening, isQueryOrFragment c = false)
    (hslashes : isSpecial scheme = false → opening = "//".toList)
    (h : withAuthority hp scheme t = .ok u) : Reads hp scheme (opening ++ t) u := by
  have hopening' := not_isQueryOrFragment_of_opening (isSpecial scheme) hopening t
  have hsplit : t = authorityText (isSpecial scheme) t ++ afterAuthority (isSpecial scheme) t :=
    List.takeWhile_append_dropWhile.symm
  unfold withAuthority at h
  cases hauthority : parseAuthority hp scheme (authorityText (isSpecial scheme) t) with
  | error err =>
    rw [hauthority] at h
    cases h
  | ok a =>
    rw [hauthority] at h
    have hu : pathStart (ofOrigin scheme (some a)) (afterAuthority (isSpecial scheme) t) = u :=
      Except.ok.inj h
    have horigin : CanonicalOrigin hp scheme (some a) :=
      .authority hfile (canonicalAuthority_of_parseAuthority hhp hauthority)
    rw [← hu]
    conv => arg 3; rw [hsplit]
    cases hspecial : isSpecial scheme with
    | true =>
      rw [hspecial] at hopening'
      rw [← List.append_assoc]
      exact reads_pathStart horigin hspecial hopening' _
    | false =>
      rw [hspecial] at hopening'
      rw [hslashes hspecial] at hopening' ⊢
      have hscheme : isSpecial (ofOrigin scheme (some a)).scheme = false := hspecial
      have hundelimited := undelimited_authorityText false t
      cases hafter : afterAuthority false t with
      | nil =>
        have hstart : pathStart (ofOrigin scheme (some a)) [] =
            withQueryAndFragment (ofOrigin scheme (some a)) [] := by
          unfold pathStart
          rw [hscheme]
          rfl
        rw [hstart]
        exact .noPath hspecial horigin hundelimited (by simp [IsTail])
      | cons c rest =>
        unfold pathStart
        dsimp only
        rw [hscheme]
        split
        · next hc =>
          have hshape : "//".toList ++ (authorityText false t ++ c :: rest) =
              ("//".toList ++ authorityText false t ++ [c]) ++ rest := by simp
          rw [hshape]
          refine .path ("//".toList ++ authorityText false t ++ [c]) rest horigin ?_
          intro d hd
          rcases List.mem_append.mp hd with hd | hd
          · exact hopening' d hd
          · rw [List.mem_singleton.mp hd]
            exact not_isQueryOrFragment_of_isSlash hc
        · next hc =>
          rw [if_neg Bool.false_ne_true]
          refine .noPath hspecial horigin hundelimited ?_
          intro d hd
          cases hd
          have hdelimiter : isDelimiter false c = true := by
            have hhead := List.head?_dropWhile_not (fun c => !isDelimiter false c) t
            have hdrop : t.dropWhile (fun c => !isDelimiter false c) = c :: rest := hafter
            rw [hdrop] at hhead
            simpa using hhead
          simpa [isDelimiter, hc, isQueryOrFragment] using hdelimiter

/-- A host of a file URL that was read is canonical. -/
theorem fileHost_of_parseFileHost (hhp : CanonicalHosts hp) {host h : Text}
    (hhost : parseFileHost hp host = .ok h) : FileHost hp h := by
  have hnil : FileHost hp [] := ⟨fun hne => absurd rfl hne, by decide, by simp, rfl⟩
  unfold parseFileHost at hhost
  split at hhost
  · cases hhost
    exact hnil
  · split at hhost
    · cases hhost
    · next h' hparsed =>
      cases hhost
      split
      · exact hnil
      · next hlocal =>
        exact ⟨fun _ => hhp.stable _ _ _ hparsed, hlocal, hhp.allowed _ _ _ hparsed,
          hhp.brackets _ _ _ hparsed⟩

/-- What is read of a file URL is canonical. -/
theorem reads_fileState (hhp : CanonicalHosts hp) (h : fileState hp none t = .ok u) :
    Reads hp "file".toList t u := by
  have horigin : ∀ host, FileHost hp host → CanonicalOrigin hp "file".toList
      (some { username := [], password := [], host := host, port := none }) :=
    fun host hhost => .file rfl hhost
  have hnil : FileHost hp [] := ⟨fun hne => absurd rfl hne, by decide, by simp, rfl⟩
  unfold fileState at h
  dsimp only at h
  cases hhost : fileHostText t with
  | some host =>
    rw [hhost] at h
    dsimp only at h
    unfold fileHostText at hhost
    split at hhost
    · next c d rest =>
      split at hhost
      · next hslashes =>
        cases hhost
        rw [Bool.and_eq_true] at hslashes
        have hopening : ∀ e ∈ [c, d], isQueryOrFragment e = false := by
          intro e he
          simp only [List.mem_cons, List.not_mem_nil, or_false] at he
          rcases he with rfl | rfl
          · exact not_isQueryOrFragment_of_isSlash hslashes.1
          · exact not_isQueryOrFragment_of_isSlash hslashes.2
        split at h
        · cases h
        · next host' hfile =>
          rw [← Except.ok.inj h]
          split
          · exact .path [c, d] rest (horigin [] hnil) hopening
          · have hsplit : rest = authorityText true rest ++ afterAuthority true rest :=
              List.takeWhile_append_dropWhile.symm
            have hshape : c :: d :: rest =
                ([c, d] ++ authorityText true rest) ++ afterAuthority true rest := by
              rw [List.append_assoc, ← hsplit]
              rfl
            have hreads := reads_pathStart (horigin host' (fileHost_of_parseFileHost hhp hfile)) rfl
              (not_isQueryOrFragment_of_opening true hopening rest) (afterAuthority true rest)
            rw [← hshape] at hreads
            exact hreads
      · cases hhost
    · cases hhost
  | none =>
    rw [hhost] at h
    rw [← Except.ok.inj h]
    cases t with
    | nil => exact .path [] [] (horigin [] hnil) (by simp)
    | cons c rest =>
      dsimp only
      split
      · next hc =>
        refine .path [c] rest (horigin [] hnil) ?_
        intro d hd
        rw [List.mem_singleton.mp hd]
        exact not_isQueryOrFragment_of_isSlash hc
      · exact .path [] (c :: rest) (horigin [] hnil) (by simp)

/-- **What the parser makes of a text**, scheme by scheme. -/
theorem parse_reads (hhp : CanonicalHosts hp) (h : parse hp t = .ok u)
    (hpath : ∀ path, u.path ≠ .cannotBeABase path) : ∃ scheme rest,
      splitScheme (clean t) = some (scheme, rest) ∧ Reads hp scheme rest u := by
  unfold parse parseReference at h
  cases hsplit : splitScheme (clean t) with
  | none =>
    rw [hsplit] at h
    cases h
  | some split =>
    obtain ⟨scheme, rest⟩ := split
    rw [hsplit] at h
    refine ⟨scheme, rest, rfl, ?_⟩
    dsimp only [schemeState] at h
    cases hfile : isFile scheme with
    | true =>
      rw [hfile, if_pos rfl] at h
      rw [isFile_iff.mp hfile]
      exact reads_fileState hhp h
    | false =>
      rw [hfile, if_neg Bool.false_ne_true] at h
      cases hspecial : isSpecial scheme with
      | true =>
        rw [hspecial, if_pos rfl] at h
        have hshape : rest = rest.takeWhile (isSlash true) ++ dropSlashes rest :=
          List.takeWhile_append_dropWhile.symm
        rw [hshape]
        refine reads_withAuthority hhp hfile ?_ (fun hnot => absurd hspecial (by simp [hnot])) h
        intro c hc
        exact not_isQueryOrFragment_of_isSlash (List.mem_takeWhile_imp hc)
      | false =>
        rw [hspecial, if_neg Bool.false_ne_true] at h
        cases hslashes : afterDoubleSlash rest with
        | some authority =>
          rw [hslashes] at h
          have hshape : rest = "//".toList ++ authority := by
            unfold afterDoubleSlash at hslashes
            split at hslashes
            · cases hslashes
              rfl
            · cases hslashes
          rw [hshape]
          exact reads_withAuthority hhp hfile (Text.forall_mem (by decide)) (fun _ => rfl) h
        | none =>
          rw [hslashes] at h
          dsimp only at h
          split at h
          · next path =>
            rw [← Except.ok.inj h]
            exact .path ['/'] path (.none hspecial) (Text.forall_mem (by decide))
          · next path hslash =>
            rw [← Except.ok.inj h] at hpath
            exact absurd (path_withQueryAndFragment _ _) (hpath _)

end Reads

/-! ## The normal form -/

/-- A URL from its parts. -/
def ofParts (scheme : Text) (authority : Option Authority) (path : List Text)
    (query fragment : Option Text) : Url :=
  { ofOrigin scheme authority with path := .segments path, query := query, fragment := fragment }

structure Canonical (hp : HostParser) (scheme : Text) (authority : Option Authority)
    (path : List Text) (query fragment : Option Text) : Prop where
  lower : CanonicalScheme scheme
  origin : CanonicalOrigin hp scheme authority
  segments : CanonicalPath scheme path
  nonempty : path = [] → isSpecial scheme = false ∧ authority.isSome = true
  tail : CanonicalTail scheme query fragment

section Canonical

variable {hp : HostParser} {scheme : Text} {authority : Option Authority} {path : List Text}
  {query fragment : Option Text}

/-- The URL of an origin has its scheme. -/
@[simp] theorem scheme_ofOrigin (scheme : Text) (authority : Option Authority) :
    (ofOrigin scheme authority).scheme = scheme := by
  cases authority <;> rfl

/-- The URL of an origin has no query. -/
@[simp] theorem query_ofOrigin (scheme : Text) (authority : Option Authority) :
    (ofOrigin scheme authority).query = none := by
  cases authority <;> rfl

/-- The URL of an origin has no fragment. -/
@[simp] theorem fragment_ofOrigin (scheme : Text) (authority : Option Authority) :
    (ofOrigin scheme authority).fragment = none := by
  cases authority <;> rfl

/-- The URL of an origin has an empty path. -/
@[simp] theorem path_ofOrigin (scheme : Text) (authority : Option Authority) :
    (ofOrigin scheme authority).path = .segments [] := by
  cases authority <;> rfl

/-- **What was read is in normal form.**  It has a query or a fragment exactly when the text
begins one, and a text that ends in a slash without them has an empty last segment, unless it
is nothing but two slashes. -/
theorem canonical_of_reads {rest : Text} {u : Url} (hscheme : CanonicalScheme scheme)
    (h : Reads hp scheme rest u) : ∃ authority path query fragment,
      u = ofParts scheme authority path query fragment ∧
      Canonical hp scheme authority path query fragment ∧
      ((query = none ∧ fragment = none) ↔ ∀ c ∈ rest, isQueryOrFragment c = false) ∧
      (query = none → fragment = none → rest.getLast? = some '/' →
        (∃ before, path = before ++ [[]]) ∨ rest = "//".toList ∧ isSpecial scheme = false) := by
  cases h with
  | @path authority opening text horigin hopening =>
    obtain ⟨path, query, fragment, hwith, hpath, hne, htail, hnone, hlast⟩ :=
      withPath_cases (query_ofOrigin scheme authority) (fragment_ofOrigin scheme authority) text
    rw [scheme_ofOrigin] at hpath htail
    refine ⟨authority, path, query, fragment, hwith,
      ⟨hscheme, horigin, hpath, fun hnil => absurd hnil hne, htail⟩, hnone.trans ?_, ?_⟩
    · constructor
      · intro htext c hc
        rcases List.mem_append.mp hc with hc | hc
        · exact hopening c hc
        · exact htext c hc
      · intro hall c hc
        exact hall c (List.mem_append_right opening hc)
    · intro hquery hfragment hrest
      refine .inl (hlast hquery hfragment ?_)
      intro c hc
      rw [List.getLast?_append, hc] at hrest
      exact Option.some.inj hrest
  | @noPath a opening text hspecial horigin hopening htext =>
    obtain ⟨query, fragment, hwith, htail, hnone⟩ := withQueryAndFragment_of_isTail htext
      (query_ofOrigin scheme (some a)) (fragment_ofOrigin scheme (some a))
    refine ⟨some a, [], query, fragment, hwith,
      ⟨hscheme, horigin, canonicalPath_nil scheme, fun _ => ⟨hspecial, rfl⟩, htail⟩,
      hnone.trans ?_, ?_⟩
    · constructor
      · rintro rfl c hc
        simp only [List.append_nil, List.mem_cons] at hc
        rcases hc with rfl | rfl | hc
        · decide
        · decide
        · exact not_isQueryOrFragment_of_isDelimiter (hopening c hc)
      · intro hall
        cases text with
        | nil => rfl
        | cons c text =>
          have hc := hall c (by simp)
          rw [htext c rfl] at hc
          cases hc
    · intro hquery hfragment hrest
      right
      have hnil := hnone.mp ⟨hquery, hfragment⟩
      subst hnil
      refine ⟨?_, hspecial⟩
      rcases List.eq_nil_or_concat opening with rfl | ⟨opening, c, rfl⟩
      · rfl
      · exfalso
        have hc := hopening c (by simp)
        have hslash : c = '/' := by
          simpa [List.getLast?_cons, List.getLast?_append] using hrest
        rw [hslash] at hc
        revert hc
        decide

end Canonical

end Url

end Terrashine.Library
