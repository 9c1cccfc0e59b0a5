import Terrashine.Library.UrlNormalForm

/-!
# Reading a URL's own text

The text of a URL in normal form is parsed into that URL again: `parse_serialize`.  Nothing is
trimmed from such a text, its authority ends where the path begins, and encoding it a second
time changes nothing.
-/

set_option autoImplicit false

namespace Terrashine.Library

namespace Url

section RoundTrip

variable {hp : HostParser} {scheme : Text} {authority : Option Authority} {path : List Text}
  {query fragment : Option Text}

/-! ## Texts that are left as they are -/

/-- A text without anything that would be trimmed or removed. -/
def Visible (t : Text) : Prop := ∀ c ∈ t, isC0ControlOrSpace c = false

/-- Two visible texts make a visible one. -/
theorem Visible.append {s t : Text} (hs : Visible s) (ht : Visible t) : Visible (s ++ t) := by
  intro c hc
  rcases List.mem_append.mp hc with hc | hc
  · exact hs c hc
  · exact ht c hc

/-- A visible character goes before a visible text. -/
theorem Visible.cons {c : Char} {t : Text} (hc : isC0ControlOrSpace c = false) (ht : Visible t) :
    Visible (c :: t) := by
  intro d hd
  rcases List.mem_cons.mp hd with rfl | hd
  · exact hc
  · exact ht d hd

/-- The empty text is visible. -/
theorem visible_nil : Visible [] := by
  intro c hc
  cases hc

/-- Nothing of a visible text is cleaned away. -/
theorem clean_of_visible {t : Text} (h : Visible t) : clean t = t := by
  have hkeep : ∀ s : Text, Visible s → s.dropWhile isC0ControlOrSpace = s := by
    intro s hs
    cases s with
    | nil => rfl
    | cons c s => exact List.dropWhile_cons_of_neg (by simp [hs c List.mem_cons_self])
  have htabs : ∀ c ∈ t, (!isTabOrNewline c) = true := by
    intro c hc
    have hcontrol := h c hc
    by_contra htab
    simp only [isTabOrNewline, Bool.not_eq_true', Bool.not_eq_false, Bool.or_eq_true,
      beq_iff_eq] at htab
    rcases htab with (rfl | rfl) | rfl <;> revert hcontrol <;> decide
  have hreverse : Visible t.reverse := fun c hc => h c (List.mem_reverse.mp hc)
  unfold clean
  rw [hkeep t h, hkeep t.reverse hreverse, List.reverse_reverse, List.filter_eq_self.mpr htabs]

/-- A text is visible when control characters and blanks have been encoded in it. -/
theorem visible_of_encoded {set : Char → Bool} {t : Text}
    (hset : ∀ c, isC0ControlOrSpace c = true → set c = true) (h : Encoded set t) : Visible t := by
  intro c hc
  by_contra hcontrol
  have hencoded := h c hc
  rw [hset c (by simpa using hcontrol)] at hencoded
  cases hencoded

/-- Control characters and blanks are encoded in a query. -/
theorem querySet_of_control {c : Char} (h : isC0ControlOrSpace c = true) : querySet c = true := by
  simp only [isC0ControlOrSpace, Bool.or_eq_true, beq_iff_eq] at h
  rcases h with h | rfl
  · simp [querySet, c0ControlSet, h]
  · decide

/-- Control characters and blanks are encoded in a path. -/
theorem pathSet_of_control {c : Char} (h : isC0ControlOrSpace c = true) : pathSet c = true := by
  simp [pathSet, querySet_of_control h]

/-- Control characters and blanks are encoded in a userinfo. -/
theorem userinfoSet_of_control {c : Char} (h : isC0ControlOrSpace c = true) :
    userinfoSet c = true := by
  simp [userinfoSet, pathSet_of_control h]

/-- Control characters and blanks are encoded in a fragment. -/
theorem fragmentSet_of_control {c : Char} (h : isC0ControlOrSpace c = true) :
    fragmentSet c = true := by
  simp only [isC0ControlOrSpace, Bool.or_eq_true, beq_iff_eq] at h
  rcases h with h | rfl
  · simp [fragmentSet, c0ControlSet, h]
  · decide

/-- A canonical scheme is visible. -/
theorem visible_scheme (h : CanonicalScheme scheme) : Visible scheme := by
  have hvisible : ∀ c, isSchemeChar c = true → isC0ControlOrSpace c = false := by
    apply isSchemeChar_forall
    decide +kernel
  exact fun c hc => hvisible c (h.chars c hc)

/-- A canonical query and fragment are visible. -/
theorem visible_tailText (h : CanonicalTail scheme query fragment) :
    Visible (tailText query fragment) := by
  have hquery : ∀ q, query = some q → Visible q := by
    intro q hq c hc
    by_contra hcontrol
    have hset := querySet_of_encodedInQuery (h.query q hq c hc)
    rw [querySet_of_control (by simpa using hcontrol)] at hset
    cases hset
  unfold tailText
  apply Visible.append
  · split
    · next q => exact (hquery q rfl).cons (by decide)
    · exact visible_nil
  · split
    · next f =>
      exact (visible_of_encoded (fun c => fragmentSet_of_control) (h.fragment f rfl)).cons
        (by decide)
    · exact visible_nil

/-- A canonical path is visible. -/
theorem visible_serializePath (h : CanonicalPath scheme path) :
    Visible (serializePath (.segments path)) := by
  intro c hc
  obtain ⟨s, hs, hc⟩ := List.mem_flatMap.mp hc
  rcases List.mem_cons.mp hc with rfl | hc
  · decide
  · exact visible_of_encoded (fun c => pathSet_of_control) (h.encoded s hs) c hc

/-- A character that may stand in an authority. -/
def InAuthority (c : Char) : Prop := isDelimiter true c = false ∧ isC0ControlOrSpace c = false

/-- What such a set leaves alone may stand in an authority. -/
theorem inAuthority_of_set {set : Char → Bool} (hdelimiters : ∀ c ∈ "/\\?#".toList, set c = true)
    (hcontrol : ∀ c, isC0ControlOrSpace c = true → set c = true) {c : Char} (h : set c = false) :
    InAuthority c := by
  constructor
  · by_contra hdelimiter
    have hmem : c ∈ "/\\?#".toList := by
      simp only [isDelimiter, isSlash, Bool.true_and, Bool.not_eq_false, Bool.or_eq_true,
        beq_iff_eq] at hdelimiter
      rcases hdelimiter with ((rfl | rfl) | rfl) | rfl <;> decide
    rw [hdelimiters c hmem] at h
    cases h
  · by_contra hspace
    rw [hcontrol c (by simpa using hspace)] at h
    cases h

/-- What is not encoded in a userinfo may stand in an authority. -/
theorem inAuthority_of_userinfo {c : Char} (h : userinfoSet c = false) : InAuthority c :=
  inAuthority_of_set (Text.forall_mem (by decide)) (fun _ => userinfoSet_of_control) h

/-- What is not forbidden in a host may stand in an authority. -/
theorem inAuthority_of_host {c : Char} (h : forbiddenInHost c = false) : InAuthority c := by
  refine inAuthority_of_set (Text.forall_mem (by decide)) ?_ h
  intro d hd
  simp [forbiddenInHost, hd]

/-- A digit may stand in an authority. -/
theorem inAuthority_of_digit {c : Char} (h : c.isDigit = true) : InAuthority c := by
  have hdigits : ∀ d, isSchemeChar d = true → d.isDigit = true → userinfoSet d = false := by
    apply isSchemeChar_forall
    decide +kernel
  exact inAuthority_of_userinfo (hdigits c (isSchemeChar_of_isDigit h) h)

/-- An encoded authority is written with characters that may stand in one. -/
theorem inAuthority_of_mem_text {a : Authority} (huser : Encoded userinfoSet a.username)
    (hpassword : Encoded userinfoSet a.password) (hhost : ∀ c ∈ a.host, forbiddenInHost c = false) :
    ∀ c ∈ a.text, InAuthority c := by
  have hcolon : InAuthority ':' := ⟨by decide, by decide⟩
  have hat : InAuthority '@' := ⟨by decide, by decide⟩
  intro c hc
  rcases List.mem_append.mp hc with hc | hc
  · rcases List.mem_append.mp hc with hc | hc
    · unfold userinfoText at hc
      split at hc
      · cases hc
      · simp only [List.mem_append, List.mem_singleton] at hc
        rcases hc with (hc | hc) | rfl
        · exact inAuthority_of_userinfo (huser c hc)
        · split at hc
          · cases hc
          · rcases List.mem_cons.mp hc with rfl | hc
            · exact hcolon
            · exact inAuthority_of_userinfo (hpassword c hc)
        · exact hat
    · exact inAuthority_of_host (hhost c hc)
  · rcases isDigit_of_mem_portText hc with rfl | hc
    · exact hcolon
    · exact inAuthority_of_digit hc

/-- The authority of a canonical origin is written with characters that may stand in one. -/
theorem inAuthority_of_origin {a : Authority} (h : CanonicalOrigin hp scheme (some a)) :
    ∀ c ∈ a.text, InAuthority c := by
  cases h with
  | file _ hhost => exact inAuthority_of_mem_text (by simp [Encoded]) (by simp [Encoded]) hhost.allowed
  | authority _ ha => exact inAuthority_of_mem_text ha.username ha.password ha.allowed

/-- The characters that may stand in an authority delimit nothing. -/
theorem undelimited_of_inAuthority {special : Bool} {t : Text} (h : ∀ c ∈ t, InAuthority c) :
    Undelimited special t := by
  intro c hc
  have hdelimiter := (h c hc).1
  cases special with
  | true => exact hdelimiter
  | false =>
    simp only [isDelimiter, isSlash, Bool.or_eq_false_iff] at hdelimiter ⊢
    exact ⟨⟨⟨hdelimiter.1.1.1, rfl⟩, hdelimiter.1.2⟩, hdelimiter.2⟩

/-! ## From the authority to the end -/

/-- The text behind the authority. -/
def pathAndTail (path : List Text) (query fragment : Option Text) : Text :=
  serializePath (.segments path) ++ tailText query fragment

/-- A path is written as a slash and its joined segments. -/
theorem serializePath_cons (s : Text) (rest : List Text) :
    serializePath (.segments (s :: rest)) = '/' :: joinSegments (s :: rest) := by
  induction rest generalizing s with
  | nil => simp [serializePath, joinSegments]
  | cons s' rest ih =>
    have hcons : serializePath (.segments (s :: s' :: rest)) =
        '/' :: (s ++ serializePath (.segments (s' :: rest))) := rfl
    rw [hcons, ih s']
    rfl

/-- Path, query and fragment begin with a delimiter, if they begin at all. -/
theorem isDelimiter_of_head {special : Bool} {c : Char}
    (h : (pathAndTail path query fragment).head? = some c) : isDelimiter special c = true := by
  unfold pathAndTail at h
  cases path with
  | nil =>
    have hc := isTail_tailText query fragment c h
    simp only [isQueryOrFragment, Bool.or_eq_true, beq_iff_eq] at hc
    rcases hc with rfl | rfl <;> simp [isDelimiter]
  | cons s rest =>
    rw [serializePath_cons] at h
    cases h
    simp [isDelimiter, isSlash]

/-- An authority ends where the path or the tail begins. -/
theorem authorityText_append {special : Bool} {a t : Text} (ha : Undelimited special a)
    (ht : ∀ c, t.head? = some c → isDelimiter special c = true) :
    authorityText special (a ++ t) = a ∧ afterAuthority special (a ++ t) = t := by
  have hkeep : ∀ c ∈ a, (!isDelimiter special c) = true := by
    intro c hc
    rw [ha c hc]
    rfl
  unfold authorityText afterAuthority
  rw [List.takeWhile_append_of_pos hkeep, List.dropWhile_append_of_pos hkeep]
  cases t with
  | nil => simp
  | cons c t =>
    have hc := ht c rfl
    rw [List.takeWhile_cons_of_neg (by simp [hc]), List.dropWhile_cons_of_neg (by simp [hc]),
      List.append_nil]
    exact ⟨rfl, rfl⟩

/-- The path state reads a canonical path back. -/
theorem withPath_canonical (h : Canonical hp scheme authority path query fragment)
    {s : Text} {rest : List Text} (hpath : path = s :: rest) :
    withPath (ofOrigin scheme authority) [] (joinSegments path ++ tailText query fragment) =
      ofParts scheme authority path query fragment := by
  have hself : ∀ r ∈ path, percentEncode pathSet r = r :=
    fun r hr => percentEncode_eq_self (h.segments.encoded r hr)
  have hmap : path.map (percentEncode pathSet) = path := by
    conv_rhs => rw [← List.map_id path]
    exact List.map_congr_left hself
  have hundelimited := h.segments.undelimited
  have hdots : ∀ r ∈ path, NoDots (percentEncode pathSet r) := by
    intro r hr
    rw [hself r hr]
    exact h.segments.noDots r hr
  have htail : CanonicalTail (ofOrigin scheme authority).scheme query fragment := by
    rw [scheme_ofOrigin]
    exact h.tail
  subst hpath
  rw [withPath_append [] (by rw [scheme_ofOrigin]; exact hundelimited) hdots
    (isTail_tailText query fragment), hmap]
  refine withQueryAndFragment_tailText ?_ ?_ htail
  · exact query_ofOrigin scheme authority
  · exact fragment_ofOrigin scheme authority

/-- The path start state reads a canonical path back. -/
theorem pathStart_canonical (h : Canonical hp scheme authority path query fragment) :
    pathStart (ofOrigin scheme authority) (pathAndTail path query fragment) =
      ofParts scheme authority path query fragment := by
  unfold pathAndTail
  cases hpath : path with
  | cons s rest =>
    rw [serializePath_cons, List.cons_append]
    unfold pathStart
    dsimp only
    rw [if_pos (by simp [isSlash]), ← hpath]
    exact withPath_canonical h hpath
  | nil =>
    have hspecial := (h.nonempty hpath).1
    have htail : withQueryAndFragment (ofOrigin scheme authority) (tailText query fragment) =
        { ofOrigin scheme authority with query := query, fragment := fragment } :=
      withQueryAndFragment_tailText (query_ofOrigin scheme authority)
        (fragment_ofOrigin scheme authority) (by rw [scheme_ofOrigin]; exact h.tail)
    have hparts : ofParts scheme authority [] query fragment =
        { ofOrigin scheme authority with query := query, fragment := fragment } := by
      unfold ofParts
      rw [← path_ofOrigin scheme authority]
    rw [hparts, ← htail]
    show pathStart _ (tailText query fragment) = _
    unfold pathStart
    rw [scheme_ofOrigin, hspecial]
    split
    · next hnil =>
      rw [hnil]
      rfl
    · next c rest hcons =>
      have hc := isTail_tailText query fragment c (by rw [hcons]; rfl)
      have hslash : isSlash false c = false := by
        by_contra hslash
        rw [not_isQueryOrFragment_of_isSlash (by simpa using hslash)] at hc
        cases hc
      rw [hslash, hcons]
      rfl

/-- The text between the scheme and the path. -/
def originText (authority : Option Authority) (path : List Text) : Text :=
  match authority with
  | some a => '/' :: '/' :: a.text
  | none => match path with
    | [] :: _ :: _ => "/.".toList
    | _ => []

/-- A URL is written part by part. -/
theorem serialize_ofParts : serialize (ofParts scheme authority path query fragment) =
    scheme ++ ':' :: (originText authority path ++ pathAndTail path query fragment) := by
  cases authority with
  | none =>
    unfold serialize serializeAuthority pathAndTail tailText
    simp only [List.append_assoc]
    cases path with
    | nil => rfl
    | cons s path => cases s <;> cases path <;> rfl
  | some a =>
    unfold serialize serializeAuthority originText pathAndTail tailText Authority.text userinfoText
      portText
    simp only [List.append_assoc]
    rfl

/-- A canonical URL is visible. -/
theorem visible_serialize (h : Canonical hp scheme authority path query fragment) :
    Visible (serialize (ofParts scheme authority path query fragment)) := by
  have horigin : Visible (originText authority path) := by
    cases hauthority : authority with
    | none =>
      unfold originText
      dsimp only
      split
      · exact Text.forall_mem (by decide)
      · exact visible_nil
    | some a =>
      have hvisible : Visible a.text :=
        fun c hc => (inAuthority_of_origin (hauthority ▸ h.origin) c hc).2
      exact (hvisible.cons (by decide)).cons (by decide)
  rw [serialize_ofParts]
  exact (visible_scheme h.lower).append ((horigin.append
    ((visible_serializePath h.segments).append (visible_tailText h.tail))).cons (by decide))

/-- The authority of a canonical URL is read back, and then its path. -/
theorem withAuthority_text {a : Authority} (ha : CanonicalAuthority hp scheme a)
    (hundelimited : Undelimited (isSpecial scheme) a.text) :
    withAuthority hp scheme (a.text ++ pathAndTail path query fragment) =
      .ok (pathStart (ofOrigin scheme (some a)) (pathAndTail path query fragment)) := by
  obtain ⟨htake, hdrop⟩ : authorityText (isSpecial scheme) (a.text ++ pathAndTail path query fragment) =
      a.text ∧ afterAuthority (isSpecial scheme) (a.text ++ pathAndTail path query fragment) =
        pathAndTail path query fragment :=
    authorityText_append hundelimited fun c => isDelimiter_of_head
  unfold withAuthority
  rw [htake, hdrop, parseAuthority_text ha]
  rfl

/-- The host of a `file` URL is no drive letter. -/
theorem FileHost.noDrive {host : Text} (h : FileHost hp host) :
    isWindowsDriveLetter host = false := by
  by_contra hdrive
  obtain ⟨a, b, rfl, ha, rfl | rfl⟩ := exists_of_isWindowsDriveLetter (by simpa using hdrive)
  · have hletter : a ≠ ':' ∧ a ≠ '[' ∧ a ≠ ']' := by
      refine ⟨?_, ?_, ?_⟩ <;> (rintro rfl; revert ha; decide)
    have hbrackets := h.brackets
    simp [bracketsAfter, hletter] at hbrackets
  · have hallowed := h.allowed '|' (by simp)
    revert hallowed
    decide

/-- A canonical host of a file URL is read back. -/
theorem parseFileHost_fileHost {host : Text} (h : FileHost hp host) :
    parseFileHost hp host = .ok host := by
  have hdrive := h.noDrive
  unfold parseFileHost
  by_cases hnil : host = []
  · rw [if_pos (.inr hnil), hnil]
  · rw [if_neg (by simp [hdrive, hnil]), h.stable hnil]
    dsimp only
    rw [if_neg h.notLocal]

/-- Of the slashes before an authority none is left. -/
theorem dropSlashes_text {a : Authority} (hundelimited : Undelimited true a.text)
    (hne : a.text ≠ []) (t : Text) : dropSlashes ('/' :: '/' :: (a.text ++ t)) = a.text ++ t := by
  unfold dropSlashes
  rw [List.dropWhile_cons_of_pos rfl, List.dropWhile_cons_of_pos rfl]
  cases htext : a.text with
  | nil => exact absurd htext hne
  | cons c text =>
    have hc := isSlash_of_isDelimiter (hundelimited c (by rw [htext]; exact List.mem_cons_self))
    rw [List.cons_append, List.dropWhile_cons_of_neg (by simp [hc])]

/-- A dot before the path is dropped. -/
theorem withPath_dot (u : Url) (t : Text) : withPath u [] ('.' :: '/' :: t) = withPath u [] t := by
  have hdot : isSlash (isSpecial u.scheme) '.' = false := by cases isSpecial u.scheme <;> decide
  have hslash : isSlash (isSpecial u.scheme) '/' = true := by cases isSpecial u.scheme <;> decide
  have hsplit : ∀ x : Text, splitSegments (isSpecial u.scheme) ('.' :: '/' :: x) =
      ['.'] :: splitSegments (isSpecial u.scheme) x := by
    intro x
    rw [splitSegments, if_neg (by simp [hdot]), splitSegments, if_pos hslash]
  have hpush : ∀ segments : List Text, segments ≠ [] →
      pushSegments u.scheme [] (['.'] :: segments) = pushSegments u.scheme [] segments := by
    intro segments hne
    cases segments with
    | nil => exact absurd rfl hne
    | cons s rest => rfl
  unfold withPath
  dsimp only
  rw [List.takeWhile_cons_of_pos (by decide), List.takeWhile_cons_of_pos (by decide),
    List.dropWhile_cons_of_pos (by decide), List.dropWhile_cons_of_pos (by decide), hsplit,
    hpush _ (splitSegments_ne_nil _ _)]

/-- A single slash opens no authority. -/
theorem afterDoubleSlash_cons {t : Text} (h : t.head? ≠ some '/') :
    afterDoubleSlash ('/' :: t) = none := by
  unfold afterDoubleSlash
  split
  · next rest heq =>
    cases heq
    exact absurd rfl h
  · rfl

/-- Without a double slash, the slash begins the path of a scheme that is not special. -/
theorem schemeState_slash (hspecial : isSpecial scheme = false) {t : Text}
    (ht : t.head? ≠ some '/') :
    schemeState hp false none scheme ('/' :: t) = .ok (withPath (ofScheme scheme) [] t) := by
  unfold schemeState
  rw [isFile_of_not_special hspecial, if_neg Bool.false_ne_true]
  dsimp only
  rw [hspecial, if_neg Bool.false_ne_true, afterDoubleSlash_cons ht]
  rfl

/-- The text of a URL without an authority. -/
theorem schemeState_noAuthority (hspecial : isSpecial scheme = false)
    (h : Canonical hp scheme none path query fragment) :
    schemeState hp false none scheme (originText none path ++ pathAndTail path query fragment) =
      .ok (ofParts scheme none path query fragment) := by
  unfold pathAndTail
  match path, h with
  | [], h => exact absurd (h.nonempty rfl).2 Bool.false_ne_true
  | [] :: s :: rest, h =>
    have htext : originText none ([] :: s :: rest) ++
        (serializePath (.segments ([] :: s :: rest)) ++ tailText query fragment) =
          '/' :: '.' :: '/' :: (joinSegments ([] :: s :: rest) ++ tailText query fragment) := by
      rw [serializePath_cons]
      rfl
    rw [htext, schemeState_slash hspecial (by simp), withPath_dot]
    exact congrArg Except.ok (withPath_canonical h rfl)
  | [[]], h =>
    have hhead : (joinSegments [[]] ++ tailText query fragment).head? ≠ some '/' := by
      intro hslash
      have htail := isTail_tailText query fragment '/' hslash
      revert htail
      decide
    have htext : originText none [[]] ++
        (serializePath (.segments [[]]) ++ tailText query fragment) =
          '/' :: (joinSegments [[]] ++ tailText query fragment) := by
      rw [serializePath_cons]
      rfl
    rw [htext, schemeState_slash hspecial hhead]
    exact congrArg Except.ok (withPath_canonical h rfl)
  | (c :: s) :: rest, h =>
    have hc := h.segments.undelimited (c :: s) List.mem_cons_self c List.mem_cons_self
    have hslash : c ≠ '/' := by
      rintro rfl
      simp [isDelimiter, isSlash] at hc
    obtain ⟨t, ht⟩ : ∃ t, joinSegments ((c :: s) :: rest) = c :: t := by
      cases rest <;> exact ⟨_, rfl⟩
    have htext : originText none ((c :: s) :: rest) ++
        (serializePath (.segments ((c :: s) :: rest)) ++ tailText query fragment) =
          '/' :: (joinSegments ((c :: s) :: rest) ++ tailText query fragment) := by
      rw [serializePath_cons]
      rfl
    rw [htext, schemeState_slash hspecial (by rw [ht]; simp [hslash])]
    exact congrArg Except.ok (withPath_canonical h rfl)

/-- The text of a `file` URL. -/
theorem fileState_text {host : Text} (hfile : isFile scheme = true) (hhost : FileHost hp host)
    (h : Canonical hp scheme (some { username := [], password := [], host := host, port := none })
      path query fragment) :
    fileState hp none ('/' :: '/' :: (host ++ pathAndTail path query fragment)) =
      .ok (ofParts scheme (some { username := [], password := [], host := host, port := none })
        path query fragment) := by
  have hundelimited : Undelimited true host :=
    undelimited_of_inAuthority fun c hc => inAuthority_of_host (hhost.allowed c hc)
  obtain ⟨htake, hdrop⟩ : authorityText true (host ++ pathAndTail path query fragment) = host ∧
      afterAuthority true (host ++ pathAndTail path query fragment) =
        pathAndTail path query fragment :=
    authorityText_append hundelimited fun c => isDelimiter_of_head
  have htext : fileHostText ('/' :: '/' :: (host ++ pathAndTail path query fragment)) =
      some host := congrArg some htake
  have hparse := parseFileHost_fileHost hhost
  have hdrive := hhost.noDrive
  unfold fileState
  rw [htext]
  dsimp only
  rw [hparse]
  dsimp only
  rw [hdrive, if_neg Bool.false_ne_true, List.drop_succ_cons, List.drop_succ_cons, List.drop_zero,
    hdrop, ← pathStart_canonical h, isFile_iff.mp hfile]
  rfl

/-- **The text of a canonical URL is parsed into that URL.** -/
theorem parse_serialize (h : Canonical hp scheme authority path query fragment) :
    parse hp (serialize (ofParts scheme authority path query fragment)) =
      .ok (ofParts scheme authority path query fragment) := by
  have hclean := clean_of_visible (visible_serialize h)
  unfold parse parseReference
  rw [hclean, serialize_ofParts, splitScheme_of_canonical h.lower]
  dsimp only
  have horigin := h.origin
  cases authority with
  | none =>
    cases horigin with
    | none hspecial => exact schemeState_noAuthority hspecial h
  | some a =>
    have hinside := inAuthority_of_origin horigin
    rw [← pathStart_canonical h]
    unfold schemeState originText
    dsimp only
    cases horigin with
    | @file host hfile hhost =>
      have htext : Authority.text { username := [], password := [], host := host, port := none } =
          host := by
        simp [Authority.text, userinfoText, portText]
      rw [if_pos hfile, htext, pathStart_canonical h]
      exact fileState_text hfile hhost h
    | authority hfile ha =>
      rw [hfile, if_neg Bool.false_ne_true]
      cases hspecial : isSpecial scheme with
      | true =>
        have hne : a.text ≠ [] := by
          intro hnil
          unfold Authority.text at hnil
          have hhost := (List.append_eq_nil_iff.mp (List.append_eq_nil_iff.mp hnil).1).2
          rw [(ha.empty hhost).1] at hspecial
          cases hspecial
        rw [if_pos rfl, List.cons_append, List.cons_append,
          dropSlashes_text (undelimited_of_inAuthority hinside) hne]
        exact withAuthority_text ha (undelimited_of_inAuthority hinside)
      | false =>
        rw [if_neg Bool.false_ne_true]
        exact withAuthority_text ha (undelimited_of_inAuthority hinside)

end RoundTrip

end Url

end Terrashine.Library
