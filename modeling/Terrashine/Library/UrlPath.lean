import Terrashine.Library.Url

/-!
# Paths of URLs, segment by segment

A path that is glued together from segments with slashes is read back as these segments,
percent-encoded, when each of them is one segment: it holds no delimiter and is no dot
segment.  `splitSegments_join` takes the text apart, and `pushSegments_eq` pushes the segments.
-/

set_option autoImplicit false

namespace Terrashine.Library

namespace Url

/-! ## Percent-encoding -/

/-- A set that leaves the characters of an escape alone. -/
def KeepsEscapes (set : Char → Bool) : Prop := ∀ c ∈ "%0123456789ABCDEF".toList, set c = false

instance (set : Char → Bool) : Decidable (KeepsEscapes set) :=
  List.decidableBAll (fun c => set c = false) _

section Encode

variable {set : Char → Bool}

/-- A text is encoded character by character. -/
theorem percentEncode_cons (c : Char) (t : Text) : percentEncode set (c :: t) =
    (if set c then (String.utf8EncodeChar c).flatMap percentEncodeByte else [c]) ++
      percentEncode set t := by
  unfold percentEncode
  rw [List.flatMap_cons]

/-- What is in no need of an escape stays. -/
theorem percentEncode_eq_self {t : Text} (h : ∀ c ∈ t, set c = false) :
    percentEncode set t = t := by
  induction t with
  | nil => rfl
  | cons c t ih =>
    have hc := h c List.mem_cons_self
    rw [percentEncode_cons, ih fun d hd => h d (List.mem_cons_of_mem _ hd), if_neg (by simp [hc])]
    rfl

/-- A hexadecimal digit is one of sixteen. -/
theorem hexDigit_mem (n : ℕ) : hexDigit n ∈ "0123456789ABCDEF".toList := by
  unfold hexDigit
  rw [List.getD_eq_getElem?_getD]
  cases h : "0123456789ABCDEF".toList[n]? with
  | none => decide
  | some c => exact List.mem_of_getElem? h

/-- An escape consists of a percent sign and hexadecimal digits. -/
theorem mem_percentEncodeByte {b : UInt8} {c : Char} (h : c ∈ percentEncodeByte b) :
    c ∈ "%0123456789ABCDEF".toList := by
  unfold percentEncodeByte at h
  simp only [List.mem_cons, List.not_mem_nil, or_false] at h
  rcases h with rfl | rfl | rfl
  · decide
  · exact List.mem_cons_of_mem _ (hexDigit_mem _)
  · exact List.mem_cons_of_mem _ (hexDigit_mem _)

/-- The characters of an encoded text: those that need no escape, and those of escapes. -/
theorem mem_percentEncode {t : Text} {c : Char} (h : c ∈ percentEncode set t) :
    (c ∈ t ∧ set c = false) ∨ c ∈ "%0123456789ABCDEF".toList := by
  unfold percentEncode at h
  obtain ⟨d, hd, hc⟩ := List.mem_flatMap.mp h
  by_cases hset : set d = true
  · rw [if_pos hset] at hc
    obtain ⟨b, -, hb⟩ := List.mem_flatMap.mp hc
    exact .inr (mem_percentEncodeByte hb)
  · rw [if_neg hset, List.mem_singleton] at hc
    subst hc
    exact .inl ⟨hd, by simpa using hset⟩

/-- What is to be encoded is gone afterwards. -/
theorem not_mem_percentEncode (hset : KeepsEscapes set) {t : Text} {c : Char} (hc : set c = true) :
    c ∉ percentEncode set t := by
  intro h
  rcases mem_percentEncode h with ⟨-, hfalse⟩ | hescape
  · rw [hc] at hfalse
    cases hfalse
  · rw [hset c hescape] at hc
    cases hc

end Encode

/-- A text without escapes was not encoded at all. -/
theorem eq_of_not_mem_percentEncode {set : Char → Bool} {t : Text}
    (h : '%' ∉ percentEncode set t) : percentEncode set t = t := by
  apply percentEncode_eq_self
  intro c hc
  by_contra hset
  apply h
  unfold percentEncode
  refine List.mem_flatMap.mpr ⟨c, hc, ?_⟩
  rw [if_pos (by simpa using hset)]
  obtain ⟨b, hb⟩ := List.exists_mem_of_ne_nil _ (String.utf8EncodeChar_ne_nil (c := c))
  exact List.mem_flatMap.mpr ⟨b, hb, List.mem_cons_self⟩

/-- Escapes are not encoded once more in a path. -/
theorem keepsEscapes_pathSet : KeepsEscapes pathSet := by decide

/-- Escapes are not encoded once more in a userinfo. -/
theorem keepsEscapes_userinfoSet : KeepsEscapes userinfoSet := by decide

/-! ## Segments -/

/-- The segments with slashes between them. -/
def joinSegments : List Text → Text
  | [] => []
  | [s] => s
  | s :: s' :: rest => s ++ '/' :: joinSegments (s' :: rest)

/-- The text holds nothing that ends a segment. -/
def Undelimited (special : Bool) (s : Text) : Prop := ∀ c ∈ s, isDelimiter special c = false

instance (special : Bool) (s : Text) : Decidable (Undelimited special s) :=
  List.decidableBAll (fun c => isDelimiter special c = false) _

section Segments

variable {special : Bool}

/-- What delimits nothing is no slash. -/
theorem isSlash_of_isDelimiter {c : Char} (h : isDelimiter special c = false) :
    isSlash special c = false := by
  unfold isDelimiter at h
  simp only [Bool.or_eq_false_iff] at h
  exact h.1.1

/-- An undelimited text is one segment. -/
theorem splitSegments_undelimited {s : Text} (h : Undelimited special s) :
    splitSegments special s = [s] := by
  induction s with
  | nil => rfl
  | cons c s ih =>
    have hc := isSlash_of_isDelimiter (h c List.mem_cons_self)
    rw [splitSegments, if_neg (by simp [hc]), ih fun d hd => h d (List.mem_cons_of_mem _ hd)]

/-- A slash ends an undelimited segment. -/
theorem splitSegments_append {s : Text} (h : Undelimited special s) (t : Text) :
    splitSegments special (s ++ '/' :: t) = s :: splitSegments special t := by
  induction s with
  | nil => rw [List.nil_append, splitSegments, if_pos (by simp [isSlash])]
  | cons c s ih =>
    have hc := isSlash_of_isDelimiter (h c List.mem_cons_self)
    rw [List.cons_append, splitSegments, if_neg (by simp [hc]),
      ih fun d hd => h d (List.mem_cons_of_mem _ hd)]

/-- **Segments that were joined are found again.** -/
theorem splitSegments_join {segments : List Text} (hne : segments ≠ [])
    (h : ∀ s ∈ segments, Undelimited special s) :
    splitSegments special (joinSegments segments) = segments := by
  induction segments with
  | nil => exact absurd rfl hne
  | cons s rest ih =>
    cases rest with
    | nil => exact splitSegments_undelimited (h s List.mem_cons_self)
    | cons s' rest =>
      rw [joinSegments, splitSegments_append (h s List.mem_cons_self),
        ih (List.cons_ne_nil _ _) fun r hr => h r (List.mem_cons_of_mem _ hr)]

/-! ## The text of a reference, cleaned segment by segment -/

def trimStart (t : Text) : Text := t.dropWhile isC0ControlOrSpace

def trimEnd (t : Text) : Text := (t.reverse.dropWhile isC0ControlOrSpace).reverse

def withoutTabs (t : Text) : Text := t.filter fun c => !isTabOrNewline c

/-- Trimming the start stops before the first slash. -/
theorem trimStart_append (s t : Text) : trimStart (s ++ '/' :: t) = trimStart s ++ '/' :: t := by
  unfold trimStart
  rw [List.dropWhile_append]
  split
  · next h =>
    rw [List.isEmpty_iff.mp h]
    rfl
  · rfl

/-- Trimming the end stops after the last slash. -/
theorem trimEnd_append (s t : Text) : trimEnd (s ++ '/' :: t) = s ++ '/' :: trimEnd t := by
  have hstart := trimStart_append t.reverse s.reverse
  unfold trimStart at hstart
  unfold trimEnd
  rw [List.reverse_append, List.reverse_cons, List.append_assoc, List.singleton_append, hstart]
  simp

/-- Tabs and line breaks are taken out of each segment. -/
theorem withoutTabs_append (s t : Text) :
    withoutTabs (s ++ '/' :: t) = withoutTabs s ++ '/' :: withoutTabs t := by
  unfold withoutTabs
  rw [List.filter_append]
  rfl

/-- Cleaning trims the first and the last segment, and leaves the slashes. -/
theorem clean_append (s t : Text) :
    clean (s ++ '/' :: t) = withoutTabs (trimStart s) ++ '/' :: withoutTabs (trimEnd t) := by
  have hclean : clean (s ++ '/' :: t) = withoutTabs (trimEnd (trimStart (s ++ '/' :: t))) := rfl
  rw [hclean, trimStart_append, trimEnd_append, withoutTabs_append]

/-- A segment that is neither `.` nor `..`, in any spelling. -/
def NoDots (s : Text) : Prop := isSingleDot s = false ∧ isDoubleDot s = false

instance (s : Text) : Decidable (NoDots s) :=
  inferInstanceAs (Decidable (isSingleDot s = false ∧ isDoubleDot s = false))

/-- A segment that is no dot segment is appended as it is encoded. -/
theorem pushSegment_eq {scheme : Text} {path : List Text} {s : Text} {last : Bool}
    (h : NoDots (percentEncode pathSet s)) : pushSegment scheme path s last =
      path ++ [percentEncode pathSet s] := by
  unfold pushSegment
  dsimp only
  rw [if_neg (by simp [h.2]), if_neg (by simp [h.1])]

/-- **Segments without dots are appended to the path**, percent-encoded. -/
theorem pushSegments_eq {scheme : Text} {path : List Text} {s : Text} {rest : List Text}
    (h : ∀ r ∈ s :: rest, NoDots (percentEncode pathSet r)) :
    pushSegments scheme path (s :: rest) = path ++ (s :: rest).map (percentEncode pathSet) := by
  induction rest generalizing path s with
  | nil => exact pushSegment_eq (h s List.mem_cons_self)
  | cons s' rest ih =>
    rw [pushSegments, pushSegment_eq (h s List.mem_cons_self),
      ih fun r hr => h r (List.mem_cons_of_mem _ hr), List.append_assoc]
    rfl

end Segments

/-! ## Windows drive letters -/

/-- A drive letter is a letter and a colon or a bar. -/
theorem exists_of_isWindowsDriveLetter {s : Text} (h : isWindowsDriveLetter s = true) :
    ∃ a b, s = [a, b] ∧ a.isAlpha = true ∧ (b = ':' ∨ b = '|') := by
  match s, h with
  | [a, b], h =>
    simp only [isWindowsDriveLetter, Bool.and_eq_true, Bool.or_eq_true, beq_iff_eq] at h
    exact ⟨a, b, rfl, h.1, h.2⟩

/-- Letters are ASCII and lie between these two. -/
theorem toNat_of_isAlpha {c : Char} (h : c.isAlpha = true) : 65 ≤ c.toNat ∧ c.toNat ≤ 122 := by
  have hval : c.toNat = c.val.toNat := rfl
  have hletter : (decide ('A'.val ≤ c.val ∧ c.val ≤ 'Z'.val) ||
    (decide ('a'.val ≤ c.val) && decide (c.val ≤ 'z'.val))) = true := h
  simp only [Bool.or_eq_true, Bool.and_eq_true, decide_eq_true_eq, UInt32.le_iff_toNat_le]
    at hletter
  simp at hletter
  omega

/-- No letter is encoded in a path. -/
theorem pathSet_of_isAlpha {c : Char} (h : c.isAlpha = true) : pathSet c = false := by
  have hn := toNat_of_isAlpha h
  have hquery : ∀ d ∈ " \"#<>".toList, d.isAlpha = false := Text.forall_mem (by decide)
  have hpath : ∀ d ∈ "?`\x7b\x7d".toList, d.isAlpha = false := Text.forall_mem (by decide)
  by_contra hset
  simp only [pathSet, querySet, c0ControlSet, isC0Control, Bool.not_eq_false, Bool.or_eq_true,
    decide_eq_true_eq] at hset
  rcases hset with ((hset | hset) | hset) | hset
  · omega
  · omega
  · rw [hquery c hset] at h
    cases h
  · rw [hpath c hset] at h
    cases h

/-- A drive letter is encoded as itself. -/
theorem percentEncode_eq_of_isWindowsDriveLetter {s : Text} (h : isWindowsDriveLetter s = true) :
    percentEncode pathSet s = s := by
  obtain ⟨a, b, rfl, ha, hb⟩ := exists_of_isWindowsDriveLetter h
  apply percentEncode_eq_self
  intro c hc
  simp only [List.mem_cons, List.not_mem_nil, or_false] at hc
  rcases hc with rfl | rfl
  · exact pathSet_of_isAlpha ha
  · rcases hb with rfl | rfl <;> decide

/-- The encoding neither makes nor breaks a drive letter. -/
theorem isWindowsDriveLetter_percentEncode (s : Text) :
    isWindowsDriveLetter (percentEncode pathSet s) = isWindowsDriveLetter s := by
  by_cases h : '%' ∈ percentEncode pathSet s
  · have henc : isWindowsDriveLetter (percentEncode pathSet s) = false := by
      by_contra hdrive
      obtain ⟨a, b, hs, ha, hb⟩ := exists_of_isWindowsDriveLetter (by simpa using hdrive)
      rw [hs] at h
      simp only [List.mem_cons, List.not_mem_nil, or_false] at h
      rcases h with rfl | rfl
      · revert ha
        decide
      · rcases hb with hb | hb <;> revert hb <;> decide
    have hself : isWindowsDriveLetter s = false := by
      by_contra hdrive
      rw [percentEncode_eq_of_isWindowsDriveLetter (by simpa using hdrive)] at henc
      exact hdrive henc
    rw [henc, hself]
  · rw [eq_of_not_mem_percentEncode h]

/-! ## References that are nothing but a path -/

/-- A reference whose text is these segments: it names no scheme, and every one of them is one
segment of the path. -/
structure PathReference (backslashes special : Bool) (first : Text) (rest : List Text) : Prop where
  nonempty : first ≠ []
  noBackslash : backslashes = true → first.head? ≠ some '\\'
  noScheme : splitScheme first = none
  undelimited : ∀ s ∈ first :: rest, Undelimited special s
  noDots : ∀ s ∈ first :: rest, NoDots (percentEncode pathSet s)

/-- What a path reference keeps of the base. -/
def relativeBase (base : Url) : Url :=
  if isFile base.scheme then { ofScheme "file".toList with host := base.host }
  else { base with query := none, fragment := none }

/-- The segments before those of a path reference; a drive letter starts over. -/
def segmentsBefore (base : Url) (first : Text) : List Text :=
  if isFile base.scheme && isWindowsDriveLetter first then []
  else shorten base.scheme (basePath base)

/-- A text without a scheme gets none from what follows a slash. -/
theorem splitScheme_append {s : Text} (hs : splitScheme s = none) (hne : s ≠ []) (t : Text) :
    splitScheme (s ++ '/' :: t) = none := by
  cases s with
  | nil => exact absurd rfl hne
  | cons c s =>
    unfold splitScheme at hs ⊢
    rw [List.head?_cons] at hs
    rw [List.cons_append, List.head?_cons, ← List.cons_append, List.dropWhile_append]
    cases hrest : (c :: s).dropWhile isSchemeChar with
    | nil => rfl
    | cons d rest =>
      rw [hrest] at hs
      by_cases hd : d = ':'
      · subst hd
        have halpha : c.isAlpha = false := by
          by_contra hc
          have hsome : (if c.isAlpha then some (((c :: s).takeWhile isSchemeChar).map Char.toLower,
            rest) else none) = none := hs
          rw [if_pos (by simpa using hc)] at hsome
          cases hsome
        show (if c.isAlpha then _ else none) = none
        exact if_neg (by simp [halpha])
      · split
        · next heq =>
          cases heq
          exact absurd rfl hd
        · rfl

/-- Joined segments begin like the first of them. -/
theorem head_joinSegments {first : Text} (hne : first ≠ []) (rest : List Text) :
    ∃ c t, joinSegments (first :: rest) = c :: t ∧ first.head? = some c := by
  cases first with
  | nil => exact absurd rfl hne
  | cons c first =>
    cases rest with
    | nil => exact ⟨c, first, rfl, rfl⟩
    | cons s rest => exact ⟨c, _, rfl, rfl⟩

/-- No segment starts the query or the fragment. -/
theorem not_isQueryOrFragment_of_mem {special : Bool} {segments : List Text}
    (h : ∀ s ∈ segments, Undelimited special s) :
    ∀ c ∈ joinSegments segments, isQueryOrFragment c = false := by
  have hchar : ∀ c, isDelimiter special c = false → isQueryOrFragment c = false := by
    intro c hc
    unfold isDelimiter at hc
    simp only [Bool.or_eq_false_iff] at hc
    simp [isQueryOrFragment, hc.1.2, hc.2]
  induction segments with
  | nil =>
    intro c hc
    cases hc
  | cons s rest ih =>
    intro c hc
    have hs := h s List.mem_cons_self
    cases rest with
    | nil => exact hchar c (hs c hc)
    | cons s' rest =>
      rcases List.mem_append.mp hc with hc | hc
      · exact hchar c (hs c hc)
      · rcases List.mem_cons.mp hc with rfl | hc
        · decide
        · exact ih (fun r hr => h r (List.mem_cons_of_mem _ hr)) c hc

/-- What a path is followed by: nothing, or a query or a fragment. -/
def IsTail (t : Text) : Prop := ∀ c, t.head? = some c → isQueryOrFragment c = true

/-- A path ends where the query or the fragment begins. -/
theorem takeWhile_path {path tail : Text} (hpath : ∀ c ∈ path, isQueryOrFragment c = false)
    (htail : IsTail tail) :
    (path ++ tail).takeWhile (fun c => !isQueryOrFragment c) = path ∧
      (path ++ tail).dropWhile (fun c => !isQueryOrFragment c) = tail := by
  have hkeep : ∀ c ∈ path, (!isQueryOrFragment c) = true := by
    intro c hc
    rw [hpath c hc]
    rfl
  rw [List.takeWhile_append_of_pos hkeep, List.dropWhile_append_of_pos hkeep]
  cases tail with
  | nil => simp
  | cons c tail =>
    have hc := htail c rfl
    rw [List.takeWhile_cons_of_neg (by simp [hc]), List.dropWhile_cons_of_neg (by simp [hc]),
      List.append_nil]
    exact ⟨rfl, rfl⟩

/-- The path state on segments that are each one segment, and what follows them. -/
theorem withPath_append {u : Url} (path : List Text) {s tail : Text} {rest : List Text}
    (hu : ∀ r ∈ s :: rest, Undelimited (isSpecial u.scheme) r)
    (hd : ∀ r ∈ s :: rest, NoDots (percentEncode pathSet r)) (htail : IsTail tail) :
    withPath u path (joinSegments (s :: rest) ++ tail) = withQueryAndFragment
      { u with path := .segments (path ++ (s :: rest).map (percentEncode pathSet)) } tail := by
  obtain ⟨htake, hdrop⟩ := takeWhile_path (not_isQueryOrFragment_of_mem hu) htail
  unfold withPath
  dsimp only
  rw [htake, hdrop, splitSegments_join (List.cons_ne_nil _ _) hu, pushSegments_eq hd]

/-- Joined segments are appended one by one, each encoded. -/
theorem withPath_joinSegments {u : Url} {path : List Text} {s : Text} {rest : List Text}
    (hu : ∀ r ∈ s :: rest, Undelimited (isSpecial u.scheme) r)
    (hd : ∀ r ∈ s :: rest, NoDots (percentEncode pathSet r)) :
    withPath u path (joinSegments (s :: rest)) =
      { u with path := .segments (path ++ (s :: rest).map (percentEncode pathSet)) } := by
  have htail : IsTail [] := by
    intro c hc
    cases hc
  have happend := withPath_append path hu hd htail
  rw [List.append_nil] at happend
  exact happend

section Reference

variable {hp : HostParser} {backslashes : Bool} {base u : Url} {t first : Text} {rest : List Text}

/-- One scheme is that of files. -/
theorem isFile_iff {scheme : Text} : isFile scheme = true ↔ scheme = "file".toList := by
  unfold isFile
  rw [beq_iff_eq]

/-- Joined segments begin with a drive letter when the first is one. -/
theorem startsWithWindowsDriveLetter_joinSegments (hne : first ≠ [])
    (hfirst : Undelimited true first) :
    startsWithWindowsDriveLetter (joinSegments (first :: rest)) = isWindowsDriveLetter first := by
  unfold startsWithWindowsDriveLetter
  match first, hne, hfirst with
  | [x], _, _ => cases rest <;> simp [joinSegments, isWindowsDriveLetter]
  | [x, y], _, _ => cases rest <;> simp [joinSegments]
  | x :: y :: z :: s, _, hfirst =>
    have hz := hfirst z (by simp)
    unfold isDelimiter isSlash at hz
    simp only [Bool.or_eq_false_iff, Bool.true_and] at hz
    obtain ⟨⟨⟨hslash, hback⟩, hquery⟩, hfragment⟩ := hz
    cases rest <;> simp [joinSegments, isWindowsDriveLetter, hslash, hback, hquery, hfragment]

/-- The front of a path reference is no slash, whatever the parser makes of backslashes. -/
theorem isSlash_leadingBackslash {c : Char} (hspecial : isSlash (isSpecial base.scheme) c = false)
    (hback : backslashes = true → c ≠ '\\') :
    isSlash (leadingBackslash backslashes base) c = false := by
  unfold isSlash leadingBackslash at *
  simp only [Bool.or_eq_false_iff, Bool.and_eq_false_iff, beq_eq_false_iff_ne, ne_eq] at *
  refine ⟨hspecial.1, ?_⟩
  by_cases hc : c = '\\'
  · left
    refine ⟨hspecial.2.resolve_right (absurd hc), ?_⟩
    by_contra htrue
    exact hback (by simpa using htrue) hc
  · exact .inr hc

/-- Without a slash at the beginning there are no two of them. -/
theorem afterTwoSlashes_of_head {leading : Bool} {c : Char} (hc : isSlash leading c = false)
    (t : Text) : afterTwoSlashes leading (c :: t) = none := by
  have hne : c ≠ '/' := by
    rintro rfl
    cases hc
  unfold afterTwoSlashes
  split
  · next heq => exact absurd (List.cons.inj heq).1 hne
  · next heq =>
    rw [← (List.cons.inj heq).1, hc]
    rfl
  · rfl

/-- The relative state on a path reference. -/
theorem relativeState_pathReference (hfile : isFile base.scheme = false)
    (h : PathReference backslashes (isSpecial base.scheme) first rest)
    (hu : relativeState hp backslashes base (joinSegments (first :: rest)) = .ok u) :
    u = withPath { base with query := none, fragment := none } (segmentsBefore base first)
      (joinSegments (first :: rest)) := by
  obtain ⟨c, t', htext, hc⟩ := head_joinSegments h.nonempty rest
  have hdelim := h.undelimited first List.mem_cons_self c (List.mem_of_head? hc)
  unfold isDelimiter at hdelim
  simp only [Bool.or_eq_false_iff, beq_eq_false_iff_ne, ne_eq] at hdelim
  obtain ⟨⟨hspecial, hquery⟩, hfragment⟩ := hdelim
  have hslash := isSlash_leadingBackslash hspecial fun hback heq => h.noBackslash hback (heq ▸ hc)
  have hslashes := afterTwoSlashes_of_head hslash t'
  unfold relativeState at hu
  unfold segmentsBefore
  rw [htext] at hu ⊢
  dsimp only at hu
  rw [hslashes] at hu
  dsimp only at hu
  rw [if_neg (by simp [hslash]), if_neg hquery, if_neg hfragment] at hu
  rw [hfile]
  exact (Except.ok.inj hu).symm

/-- The file state on a path reference. -/
theorem fileState_pathReference (hfile : isFile base.scheme = true)
    (h : PathReference backslashes (isSpecial base.scheme) first rest)
    (hu : fileState hp (some base) (joinSegments (first :: rest)) = .ok u) :
    u = withPath { ofScheme "file".toList with host := base.host } (segmentsBefore base first)
      (joinSegments (first :: rest)) := by
  have hspecial : isSpecial base.scheme = true := by
    unfold isSpecial
    rw [hfile, Bool.or_true]
  obtain ⟨c, t', htext, hc⟩ := head_joinSegments h.nonempty rest
  have hdelim := h.undelimited first List.mem_cons_self c (List.mem_of_head? hc)
  rw [hspecial] at hdelim
  unfold isDelimiter at hdelim
  simp only [Bool.or_eq_false_iff, beq_eq_false_iff_ne, ne_eq] at hdelim
  obtain ⟨⟨hslash, hquery⟩, hfragment⟩ := hdelim
  have hhost : fileHostText (c :: t') = none := by
    cases t' with
    | nil => rfl
    | cons d t' => simp [fileHostText, hslash]
  have hdrive : startsWithWindowsDriveLetter (c :: t') = isWindowsDriveLetter first := by
    rw [← htext]
    exact startsWithWindowsDriveLetter_joinSegments h.nonempty
      (hspecial ▸ h.undelimited first List.mem_cons_self)
  unfold fileState at hu
  unfold segmentsBefore
  rw [htext] at hu ⊢
  dsimp only at hu
  rw [hhost, hfile, if_pos rfl] at hu
  dsimp only at hu
  rw [if_neg (by simp [hslash]), if_neg hquery, if_neg hfragment, hdrive] at hu
  rw [hfile, Bool.true_and, isFile_iff.mp hfile]
  split at hu
  · next hd =>
    rw [if_pos hd]
    exact (Except.ok.inj hu).symm
  · next hd =>
    rw [if_neg hd]
    exact (Except.ok.inj hu).symm

/-- **What a path reference names**: the base with these segments after its own. -/
theorem join_pathReference (h : PathReference backslashes (isSpecial base.scheme) first rest)
    (ht : clean t = joinSegments (first :: rest)) (hu : join hp backslashes base t = .ok u) :
    u = { relativeBase base with
      path := .segments (segmentsBefore base first ++
        (first :: rest).map (percentEncode pathSet)) } := by
  have hnone : splitScheme (clean t) = none := by
    rw [ht]
    cases rest with
    | nil => exact h.noScheme
    | cons s rest => exact splitScheme_append h.noScheme h.nonempty _
  unfold join parseReference at hu
  rw [hnone] at hu
  dsimp only at hu
  unfold noSchemeState at hu
  dsimp only at hu
  rw [ht] at hu
  cases hpath : base.path with
  | cannotBeABase path =>
    obtain ⟨c, t', htext, hc⟩ := head_joinSegments h.nonempty rest
    have hdelim := h.undelimited first List.mem_cons_self c (List.mem_of_head? hc)
    unfold isDelimiter at hdelim
    simp only [Bool.or_eq_false_iff, beq_eq_false_iff_ne, ne_eq] at hdelim
    have hhead : (c :: t').head? ≠ some '#' := fun heq => hdelim.2 (Option.some.inj heq)
    rw [hpath, htext] at hu
    dsimp only at hu
    rw [if_neg hhead] at hu
    cases hu
  | segments path =>
    rw [hpath] at hu
    dsimp only at hu
    unfold relativeBase
    cases hfile : isFile base.scheme with
    | true =>
      rw [hfile, if_pos rfl] at hu
      have hscheme := isFile_iff.mp hfile
      rw [fileState_pathReference hfile h hu, withPath_joinSegments _ h.noDots, if_pos rfl]
      · have hundelimited := h.undelimited
        rw [hscheme] at hundelimited
        exact hundelimited
    | false =>
      rw [hfile] at hu
      rw [if_neg Bool.false_ne_true] at hu
      rw [relativeState_pathReference hfile h hu, if_neg Bool.false_ne_true]
      exact withPath_joinSegments h.undelimited h.noDots

/-- **Path references name the same URL exactly when they are encoded alike.** -/
theorem join_pathReference_eq_iff {u' : Url} {t' first' : Text} {rest' : List Text}
    (h : PathReference backslashes (isSpecial base.scheme) first rest)
    (h' : PathReference backslashes (isSpecial base.scheme) first' rest')
    (hlen : rest.length = rest'.length) (ht : clean t = joinSegments (first :: rest))
    (ht' : clean t' = joinSegments (first' :: rest')) (hu : join hp backslashes base t = .ok u)
    (hu' : join hp backslashes base t' = .ok u') :
    u = u' ↔ (first :: rest).map (percentEncode pathSet) =
      (first' :: rest').map (percentEncode pathSet) := by
  rw [join_pathReference h ht hu, join_pathReference h' ht' hu']
  constructor
  · intro heq
    have hpath := UrlPath.segments.inj (congrArg Url.path heq)
    exact (List.append_inj' hpath (by simp [hlen])).2
  · intro heq
    have hfirst := (List.cons.inj heq).1
    have hdrive : isWindowsDriveLetter first = isWindowsDriveLetter first' := by
      rw [← isWindowsDriveLetter_percentEncode first, hfirst, isWindowsDriveLetter_percentEncode]
    have hbefore : segmentsBefore base first = segmentsBefore base first' := by
      unfold segmentsBefore
      rw [hdrive]
    rw [hbefore, heq]

end Reference

end Url

end Terrashine.Library
