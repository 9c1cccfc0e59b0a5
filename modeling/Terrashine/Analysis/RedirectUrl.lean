import Terrashine.Library.UrlRoundTrip
import Terrashine.Analysis.Upstream
import Terrashine.Program.Config
import Terrashine.Program.Version

/-!
# The links under the redirect URL

The link of an artifact is the redirect URL's text with `artifacts/` and a number behind it.
The check of the redirect URL reads the last character of the argument; the text that is
continued is that of the parsed URL.  `redirect_links_work_iff` says when the two agree: the
links work exactly when the argument has neither a query nor a fragment and is more than a
scheme and two slashes.
-/

set_option autoImplicit false

namespace Terrashine.Analysis

open Terrashine.Library Terrashine.Model

/-- The last segment of a path. -/
def lastSegment : UrlPath → Option Text
  | .segments path => path.getLast?
  | .cannotBeABase _ => none

/-- The link of an artifact leads to its place under the URL. -/
def LinkWorks (hp : HostParser) (url : Url) (id : ℤ) : Prop :=
  ∃ link, Url.parse hp (buildUrl url.serialize id) = .ok link ∧ link.origin = url.origin ∧
    Url.serializePath link.path =
      Url.serializePath url.path ++ "artifacts/".toList ++ Text.ofInt id ∧
    (lastSegment link.path).bind Text.toInt64? = some id

/-- What is expected of a redirect URL. -/
structure LinksWork (hp : HostParser) (url : Url) : Prop where
  trailing : (Url.serializePath url.path).getLast? = some '/'
  works : ∀ id, Text.IsInt64 id → LinkWorks hp url id
  distinct : ∀ id id' link link', Text.IsInt64 id → Text.IsInt64 id' → id ≠ id' →
    Url.parse hp (buildUrl url.serialize id) = .ok link →
    Url.parse hp (buildUrl url.serialize id') = .ok link' →
    Url.serializePath link.path ≠ Url.serializePath link'.path

/-- The argument is nothing but a scheme and two slashes. -/
def NothingButSlashes (s : Text) : Prop :=
  ∃ scheme, Url.splitScheme (Url.clean s) = some (scheme, "//".toList) ∧
    Url.isSpecial scheme = false

/-! ## The path of a link -/

section Link

variable {hp : HostParser} {scheme : Text} {authority : Option Url.Authority} {before : List Text}
  {query fragment : Option Text}

/-- The characters of a number need no escape, and are no dots. -/
theorem plain_of_mem_ofInt {id : ℤ} {c : Char} (h : c ∈ Text.ofInt id) :
    (Url.pathSet c = false ∧ c ≠ '\'') ∧ c.toLower = c ∧ c ≠ '.' ∧ c ≠ '%' := by
  have hdigits : ∀ d, Url.isSchemeChar d = true → d.isDigit = true →
      (Url.pathSet d = false ∧ d ≠ '\'') ∧ d.toLower = d ∧ d ≠ '.' ∧ d ≠ '%' := by
    apply Url.isSchemeChar_forall
    decide +kernel
  rcases Text.mem_ofInt h with rfl | hdigit
  · decide
  · exact hdigits c (Url.isSchemeChar_of_isDigit hdigit) hdigit

/-- The characters of a number need no escape and end no segment. -/
theorem inAuthority_of_mem_ofInt {id : ℤ} {c : Char} (h : c ∈ Text.ofInt id) :
    Url.InAuthority c := by
  rcases Text.mem_ofInt h with rfl | hdigit
  · exact ⟨by decide, by decide⟩
  · exact Url.inAuthority_of_digit hdigit

/-- A number is no dot segment. -/
theorem noDots_ofInt (id : ℤ) : Url.NoDots (Text.ofInt id) := by
  have hlower : (Text.ofInt id).map Char.toLower = Text.ofInt id := by
    conv_rhs => rw [← List.map_id (Text.ofInt id)]
    exact List.map_congr_left fun c hc => (plain_of_mem_ofInt hc).2.1
  have hdot : '.' ∉ Text.ofInt id := fun hmem => (plain_of_mem_ofInt hmem).2.2.1 rfl
  have hpercent : '%' ∉ Text.ofInt id := fun hmem => (plain_of_mem_ofInt hmem).2.2.2 rfl
  constructor
  · by_contra hsingle
    simp only [Url.isSingleDot, hlower, Bool.not_eq_false, Bool.or_eq_true, beq_iff_eq] at hsingle
    rcases hsingle with h | h
    · exact hdot (by rw [h]; decide)
    · exact hpercent (by rw [h]; decide)
  · by_contra hdouble
    simp only [Url.isDoubleDot, hlower, Bool.not_eq_false, decide_eq_true_eq, List.mem_cons,
      List.not_mem_nil, or_false] at hdouble
    rcases hdouble with h | h | h | h
    · exact hdot (by rw [h]; decide)
    · exact hdot (by rw [h]; decide)
    · exact hdot (by rw [h]; decide)
    · exact hpercent (by rw [h]; decide)

/-- The path of a link is in normal form. -/
theorem canonicalPath_link (h : Url.CanonicalPath scheme (before ++ [[]])) (id : ℤ) :
    Url.CanonicalPath scheme (before ++ ["artifacts".toList, Text.ofInt id]) := by
  have hbefore : Url.CanonicalPath scheme before := by
    have hdrop := h.dropLast
    rwa [List.dropLast_concat] at hdrop
  have hartifacts : Url.CanonicalPath scheme (before ++ ["artifacts".toList]) := by
    refine hbefore.append (Text.forall_mem (by decide)) ?_ (by decide)
    cases Url.isSpecial scheme <;> decide
  have hlink := hartifacts.append (s := Text.ofInt id)
    (fun c hc => (plain_of_mem_ofInt hc).1.1)
    (Url.undelimited_of_inAuthority fun c => inAuthority_of_mem_ofInt) (noDots_ofInt id)
  rwa [List.append_assoc] at hlink

/-- Under a URL that ends in an empty segment, a link takes the place of this segment. -/
theorem buildUrl_serialize (before : List Text) (id : ℤ) :
    buildUrl (Url.ofParts scheme authority (before ++ [[]]) none none).serialize id =
      (Url.ofParts scheme authority (before ++ ["artifacts".toList, Text.ofInt id]) none
        none).serialize := by
  have horigin : Url.originText authority (before ++ [[]]) =
      Url.originText authority (before ++ ["artifacts".toList, Text.ofInt id]) := by
    cases authority with
    | some a => rfl
    | none =>
      match before with
      | [] => rfl
      | [[]] => rfl
      | [] :: _ :: _ => rfl
      | (_ :: _) :: _ => rfl
  unfold buildUrl
  rw [Url.serialize_ofParts, Url.serialize_ofParts, horigin]
  simp [Url.pathAndTail, Url.serializePath, Url.tailText]

/-- Without query and fragment the link is the path with two more segments. -/
theorem linkWorks_of_canonical (h : Url.Canonical hp scheme authority (before ++ [[]]) none none)
    {id : ℤ} (hid : Text.IsInt64 id) :
    LinkWorks hp (Url.ofParts scheme authority (before ++ [[]]) none none) id := by
  have hlink : Url.Canonical hp scheme authority (before ++ ["artifacts".toList, Text.ofInt id])
      none none :=
    ⟨h.lower, h.origin, canonicalPath_link h.segments id, fun hnil => absurd hnil (by simp), h.tail⟩
  unfold LinkWorks
  rw [buildUrl_serialize]
  refine ⟨_, Url.parse_serialize hlink, rfl, ?_, ?_⟩
  · simp [Url.ofParts, Url.serializePath]
  · show ((before ++ ["artifacts".toList, Text.ofInt id]).getLast?).bind Text.toInt64? = some id
    rw [List.getLast?_append]
    exact Text.toInt64?_ofInt hid

/-- What a link appends. -/
def linkSuffix (id : ℤ) : Text := "artifacts/".toList ++ Text.ofInt id

/-- A link is the redirect URL with the same suffix for every text. -/
theorem buildUrl_eq (t : Text) (id : ℤ) : buildUrl t id = t ++ linkSuffix id := by
  unfold buildUrl linkSuffix
  rw [List.append_assoc]

/-- What a link appends needs no escape, in a query and in a fragment neither. -/
theorem encoded_linkSuffix (scheme : Text) (id : ℤ) {c : Char} (h : c ∈ linkSuffix id) :
    Url.encodedInQuery scheme c = false ∧ Url.fragmentSet c = false := by
  have hplain : Url.pathSet c = false ∧ c ≠ '\'' := by
    have hartifacts : ∀ d ∈ "artifacts/".toList, Url.pathSet d = false ∧ d ≠ '\'' :=
      Text.forall_mem (by decide)
    rcases List.mem_append.mp h with h | h
    · exact hartifacts c h
    · exact (plain_of_mem_ofInt h).1
  obtain ⟨hset, hquote⟩ := hplain
  simp only [Url.pathSet, Bool.or_eq_false_iff] at hset
  obtain ⟨hquery, hpath⟩ := hset
  constructor
  · unfold Url.encodedInQuery Url.specialQuerySet
    split
    · simp [hquery, hquote]
    · exact hquery
  · simp only [Url.querySet, Bool.or_eq_false_iff] at hquery
    simp at hquery hpath
    simp [Url.fragmentSet, hquery, hpath]

/-- With a query or a fragment the link is that of the URL itself. -/
theorem path_of_tail {path : List Text} (h : Url.Canonical hp scheme authority path query fragment)
    (htail : ¬ (query = none ∧ fragment = none)) (id : ℤ) : ∃ link,
      Url.parse hp (buildUrl (Url.ofParts scheme authority path query fragment).serialize id) =
        .ok link ∧ link.path = .segments path := by
  have hencoded : ∀ (set : Char → Bool) (t : Text), Url.Encoded set t →
      (∀ c ∈ linkSuffix id, set c = false) → Url.Encoded set (t ++ linkSuffix id) := by
    intro set t ht hsuffix c hc
    rcases List.mem_append.mp hc with hc | hc
    · exact ht c hc
    · exact hsuffix c hc
  rw [buildUrl_eq]
  cases fragment with
  | some f =>
    have hlink : Url.Canonical hp scheme authority path query (some (f ++ linkSuffix id)) := by
      refine ⟨h.lower, h.origin, h.segments, h.nonempty, h.tail.query, ?_⟩
      rintro _ ⟨⟩
      exact hencoded _ f (h.tail.fragment f rfl) fun c hc => (encoded_linkSuffix scheme id hc).2
    have htext : (Url.ofParts scheme authority path query (some f)).serialize ++ linkSuffix id =
        (Url.ofParts scheme authority path query (some (f ++ linkSuffix id))).serialize := by
      rw [Url.serialize_ofParts, Url.serialize_ofParts]
      simp [Url.pathAndTail, Url.tailText]
    rw [htext]
    exact ⟨_, Url.parse_serialize hlink, rfl⟩
  | none =>
    cases query with
    | none => exact absurd ⟨rfl, rfl⟩ htail
    | some q =>
      have hlink : Url.Canonical hp scheme authority path (some (q ++ linkSuffix id)) none := by
        refine ⟨h.lower, h.origin, h.segments, h.nonempty, ?_, h.tail.fragment⟩
        rintro _ ⟨⟩
        exact hencoded _ q (h.tail.query q rfl) fun c hc => (encoded_linkSuffix scheme id hc).1
      have htext : (Url.ofParts scheme authority path (some q) none).serialize ++ linkSuffix id =
          (Url.ofParts scheme authority path (some (q ++ linkSuffix id)) none).serialize := by
        rw [Url.serialize_ofParts, Url.serialize_ofParts]
        simp [Url.pathAndTail, Url.tailText]
      rw [htext]
      exact ⟨_, Url.parse_serialize hlink, rfl⟩

end Link

/-! ## The argument and the URL -/

section Argument

variable {hp : HostParser} {s : Text} {url : Url}

/-- An accepted argument is read as a URL that can be a base, and ends in a slash. -/
theorem validateRedirectUrl_ok (h : validateRedirectUrl hp s = .ok url) :
    Url.parse hp s = .ok url ∧ (∀ path, url.path ≠ .cannotBeABase path) ∧
      s.getLast? = some '/' := by
  unfold validateRedirectUrl at h
  cases hparse : Url.parse hp s with
  | error err =>
    rw [hparse] at h
    cases h
  | ok parsed =>
    rw [hparse] at h
    dsimp only at h
    split at h
    · cases h
    · next hbase =>
      split at h
      · next hlast =>
        cases h
        refine ⟨rfl, ?_, hlast⟩
        intro path hpath
        apply hbase
        unfold cannotBeABase
        rw [hpath]
      · cases h

/-- A character that stops the search is still there after it. -/
theorem mem_dropWhile {p : Char → Bool} {c : Char} (hc : p c = false) {t : Text} (h : c ∈ t) :
    c ∈ t.dropWhile p := by
  rw [← List.takeWhile_append_dropWhile (p := p) (l := t), List.mem_append] at h
  rcases h with h | h
  · have htake := List.mem_takeWhile_imp h
    rw [hc] at htake
    cases htake
  · exact h

/-- Cleaning keeps everything that is visible. -/
theorem mem_clean_iff {c : Char} (hc : Url.isC0ControlOrSpace c = false) :
    c ∈ Url.clean s ↔ c ∈ s := by
  have htab : Url.isTabOrNewline c = false := by
    by_contra h
    simp only [Url.isTabOrNewline, Bool.not_eq_false, Bool.or_eq_true, beq_iff_eq] at h
    rcases h with (rfl | rfl) | rfl <;> exact absurd hc (by decide)
  unfold Url.clean
  rw [List.mem_filter, List.mem_reverse]
  constructor
  · intro h
    exact List.dropWhile_subset _ (List.mem_reverse.mp (List.dropWhile_subset _ h.1))
  · intro h
    refine ⟨mem_dropWhile hc (List.mem_reverse.mpr (mem_dropWhile hc h)), ?_⟩
    rw [htab]
    rfl

/-- Cleaning an argument keeps the slash at its end. -/
theorem getLast_clean (h : s.getLast? = some '/') : (Url.clean s).getLast? = some '/' := by
  obtain ⟨front, rfl⟩ := List.getLast?_eq_some_iff.mp h
  rw [Url.clean_append]
  simp [Url.trimEnd, Url.withoutTabs]

/-- A scheme that was read stands in front of the first colon. -/
theorem eq_of_splitScheme {t scheme rest : Text} (h : Url.splitScheme t = some (scheme, rest)) :
    ∃ opening, t = opening ++ ':' :: rest ∧ ∀ c ∈ opening, Url.isSchemeChar c = true := by
  unfold Url.splitScheme at h
  split at h
  · next c rest' hhead hdrop =>
    split at h
    · cases h
      refine ⟨t.takeWhile Url.isSchemeChar, ?_, fun c hc => List.mem_takeWhile_imp hc⟩
      rw [← hdrop, List.takeWhile_append_dropWhile]
    · cases h
  · cases h

/-- A query or a fragment of the text begins after the scheme. -/
theorem noTail_iff {scheme rest : Text} (h : Url.splitScheme (Url.clean s) = some (scheme, rest)) :
    (∀ c ∈ rest, Url.isQueryOrFragment c = false) ↔ '?' ∉ s ∧ '#' ∉ s := by
  obtain ⟨opening, htext, hscheme⟩ := eq_of_splitScheme h
  have hmem : ∀ c, Url.isSchemeChar c = false → c ≠ ':' → Url.isC0ControlOrSpace c = false →
      (c ∈ s ↔ c ∈ rest) := by
    intro c hc hcolon hvisible
    rw [← mem_clean_iff hvisible, htext, List.mem_append, List.mem_cons]
    constructor
    · rintro (hopening | hcolon' | hrest)
      · rw [hscheme c hopening] at hc
        cases hc
      · exact absurd hcolon' hcolon
      · exact hrest
    · exact fun hrest => .inr (.inr hrest)
  rw [hmem '?' (by decide) (by decide) (by decide), hmem '#' (by decide) (by decide) (by decide)]
  constructor
  · intro hall
    exact ⟨fun hmem => absurd (hall _ hmem) (by decide), fun hmem => absurd (hall _ hmem) (by decide)⟩
  · rintro ⟨hquery, hfragment⟩ c hc
    by_contra htail
    simp only [Url.isQueryOrFragment, Bool.not_eq_false, Bool.or_eq_true, beq_iff_eq] at htail
    rcases htail with rfl | rfl
    · exact hquery hc
    · exact hfragment hc

/-- A scheme and two slashes name a URL without a path. -/
theorem path_of_nothingButSlashes (h : Url.parse hp s = .ok url) (hs : NothingButSlashes s) :
    url.path = .segments [] := by
  obtain ⟨scheme, hsplit, hspecial⟩ := hs
  have hslashes : Url.afterDoubleSlash "//".toList = some [] := rfl
  unfold Url.parse Url.parseReference at h
  rw [hsplit] at h
  dsimp only [Url.schemeState] at h
  rw [Url.isFile_of_not_special hspecial, if_neg Bool.false_ne_true, hspecial,
    if_neg Bool.false_ne_true, hslashes] at h
  dsimp only [Url.withAuthority] at h
  split at h
  · cases h
  · next a ha =>
    rw [← Except.ok.inj h]
    show (Url.pathStart (Url.ofOrigin scheme (some a)) []).path = _
    unfold Url.pathStart
    dsimp only
    rw [Url.scheme_ofOrigin, hspecial, if_neg Bool.false_ne_true, Url.path_ofOrigin]

end Argument

section Accepted

variable {hp : HostParser} {s : Text} {url : Url}

/-- Links that lead to their places are told apart by their paths. -/
theorem linksWork_of_works (htrailing : (Url.serializePath url.path).getLast? = some '/')
    (hworks : ∀ id, Text.IsInt64 id → LinkWorks hp url id) : LinksWork hp url := by
  refine ⟨htrailing, hworks, ?_⟩
  intro id id' link link' hid hid' hne hlink hlink' heq
  obtain ⟨v, hv, -, hpath, -⟩ := hworks id hid
  obtain ⟨v', hv', -, hpath', -⟩ := hworks id' hid'
  cases hlink.symm.trans hv
  cases hlink'.symm.trans hv'
  rw [hpath, hpath'] at heq
  have htext := List.append_cancel_left heq
  have hread := Text.toInt64?_ofInt hid
  rw [htext, Text.toInt64?_ofInt hid'] at hread
  exact hne (Option.some.inj hread).symm

/-- **The links under an accepted redirect URL work exactly when the argument has neither a
query nor a fragment and is more than a scheme and two slashes.** -/
theorem redirect_links_work_iff (hhp : Url.CanonicalHosts hp)
    (h : validateRedirectUrl hp s = .ok url) :
    LinksWork hp url ↔ '?' ∉ s ∧ '#' ∉ s ∧ ¬ NothingButSlashes s := by
  obtain ⟨hparse, hbase, hlast⟩ := validateRedirectUrl_ok h
  obtain ⟨scheme, rest, hsplit, hreads⟩ := Url.parse_reads hhp hparse hbase
  obtain ⟨authority, path, query, fragment, rfl, hcanonical, hnone, htrailing⟩ :=
    Url.canonical_of_reads (Url.canonicalScheme_of_splitScheme hsplit) hreads
  have hiff := hnone.trans (noTail_iff hsplit)
  constructor
  · intro hworks
    have hnoTail : query = none ∧ fragment = none := by
      by_contra htail
      obtain ⟨link, hlink, hpath⟩ := path_of_tail hcanonical htail 0
      obtain ⟨v, hv, -, hplace, -⟩ := hworks.works 0 (by decide)
      cases hlink.symm.trans hv
      have hlength := congrArg List.length hplace
      rw [hpath] at hlength
      simp [Url.ofParts] at hlength
    refine ⟨(hiff.mp hnoTail).1, (hiff.mp hnoTail).2, ?_⟩
    intro hslashes
    have htext := hworks.trailing
    rw [path_of_nothingButSlashes hparse hslashes] at htext
    cases htext
  · rintro ⟨hquery, hfragment, hslashes⟩
    obtain ⟨rfl, rfl⟩ := hiff.mpr ⟨hquery, hfragment⟩
    have hrest : rest.getLast? = some '/' := by
      obtain ⟨opening, htext, -⟩ := eq_of_splitScheme hsplit
      have hclean := getLast_clean hlast
      rw [htext, List.getLast?_append, List.getLast?_cons] at hclean
      cases hrest : rest.getLast? with
      | none =>
        rw [hrest] at hclean
        exact absurd hclean (by simp)
      | some c =>
        rw [hrest] at hclean
        exact hclean
    rcases htrailing rfl rfl hrest with ⟨before, rfl⟩ | ⟨hrest, hspecial⟩
    · refine linksWork_of_works ?_ fun id hid => linkWorks_of_canonical hcanonical hid
      simp [Url.ofParts, Url.serializePath]
    · exact absurd ⟨scheme, hrest ▸ hsplit, hspecial⟩ hslashes

/-- Plain names are host texts as they are. -/
theorem canonicalHosts_plainHosts : Url.CanonicalHosts plainHosts := by
  have hplain : ∀ special t h, plainHosts special t = some h →
      h = t ∧ ∀ c ∈ t, (c.isAlphanum || c == '.' || c == '-') = true := by
    intro special t h heq
    unfold plainHosts at heq
    split at heq
    · next hall =>
      cases heq
      exact ⟨rfl, List.all_eq_true.mp hall⟩
    · cases heq
  have hscheme : ∀ c, Url.isSchemeChar c = true →
      (c.isAlphanum || c == '.' || c == '-') = true →
        Url.forbiddenInHost c = false ∧ c ≠ ':' ∧ c ≠ '[' ∧ c ≠ ']' := by
    apply Url.isSchemeChar_forall
    decide +kernel
  have hchar : ∀ c : Char, (c.isAlphanum || c == '.' || c == '-') = true →
      Url.forbiddenInHost c = false ∧ c ≠ ':' ∧ c ≠ '[' ∧ c ≠ ']' := by
    intro c hc
    refine hscheme c ?_ hc
    simp only [Url.isSchemeChar, Bool.or_eq_true] at hc ⊢
    rcases hc with (hc | hc) | hc <;> simp [hc]
  have hbrackets : ∀ t : Text, (∀ c ∈ t, (c.isAlphanum || c == '.' || c == '-') = true) →
      Url.bracketsAfter false t = some false := by
    intro t ht
    induction t with
    | nil => rfl
    | cons c t ih =>
      obtain ⟨-, hcolon, hopen, hclose⟩ := hchar c (ht c List.mem_cons_self)
      unfold Url.bracketsAfter
      rw [if_neg (by simp [hcolon]), if_neg hopen, if_neg hclose]
      exact ih fun d hd => ht d (List.mem_cons_of_mem _ hd)
  constructor
  · intro special t h heq
    have heq' := heq
    rwa [← (hplain special t h heq).1] at heq'
  · intro special t heq
    exact (hplain special t [] heq).1.symm
  · intro special t h heq c hc
    obtain ⟨rfl, ht⟩ := hplain special t h heq
    exact (hchar c (ht c hc)).1
  · intro special t h heq
    obtain ⟨rfl, ht⟩ := hplain special t h heq
    exact hbrackets h ht

/-- A URL at `example.com`. -/
def exampleUrl (path : List Text) (query : Option Text) : Url :=
  Url.ofParts "https".toList
    (some { username := [], password := [], host := "example.com".toList, port := none })
    path query none

/-- A redirect URL whose links work. -/
theorem redirect_links_work_mirror :
    LinksWork plainHosts (exampleUrl ["mirror".toList, []] none) := by
  have hvalid : validateRedirectUrl plainHosts "https://example.com/mirror/".toList =
      .ok (exampleUrl ["mirror".toList, []] none) := by decide
  apply (redirect_links_work_iff canonicalHosts_plainHosts hvalid).mpr
  refine ⟨by decide, by decide, ?_⟩
  rintro ⟨scheme, hsplit, -⟩
  have hrest : (Url.splitScheme (Url.clean "https://example.com/mirror/".toList)).map Prod.snd =
      some "//example.com/mirror/".toList := by decide
  rw [hsplit] at hrest
  exact absurd hrest (by simp)

/-- The slash that is checked for may be the query's. -/
theorem accepted_query : ¬ ∀ (hp : HostParser) (s : Text) (url : Url), Url.CanonicalHosts hp →
    validateRedirectUrl hp s = .ok url → LinksWork hp url := by
  intro h
  have hvalid : validateRedirectUrl plainHosts "https://example.com/?next=/".toList =
      .ok (exampleUrl [[]] (some "next=/".toList)) := by decide
  obtain ⟨link, hlink, -, hpath, -⟩ :=
    (h plainHosts _ _ canonicalHosts_plainHosts hvalid).works 5 (by decide)
  have hquery : Url.parse plainHosts (buildUrl (exampleUrl [[]] (some "next=/".toList)).serialize 5) =
      .ok (exampleUrl [[]] (some "next=/artifacts/5".toList)) := by decide
  cases hlink.symm.trans hquery
  revert hpath
  decide

end Accepted

end Terrashine.Analysis
