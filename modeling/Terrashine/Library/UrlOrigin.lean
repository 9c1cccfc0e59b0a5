import Terrashine.Library.Url

/-!
# Where a reference leads

The origin of a URL is its scheme, host and port.  A reference either names an origin of
its own, by carrying a scheme or by beginning with two slashes, or it stays inside the
base.  `namedOrigin` reads the origin off the text of the reference alone; `join_origin`
says that resolution goes there, and `staysAtBase_iff` that a reference stays at the base's
origin exactly when it names none or names that one.

`parse_special_iff` is the other fact used above: a text with a special scheme is a URL
exactly when its authority is well formed, since paths, queries and fragments never fail.
-/

set_option autoImplicit false

namespace Terrashine.Library

/-- Scheme, host and port; the default port of a scheme is no port. -/
structure UrlOrigin where
  scheme : Text
  host : Option Text
  port : Option ℕ
  deriving DecidableEq

namespace Url

def origin (u : Url) : UrlOrigin := { scheme := u.scheme, host := u.host, port := u.port }

/-- Query and fragment are no part of the origin. -/
@[simp] theorem origin_withQueryAndFragment (u : Url) (t : Text) :
    (withQueryAndFragment u t).origin = u.origin := by
  unfold withQueryAndFragment
  generalize (if isSpecial u.scheme = true then specialQuerySet else querySet) = encode
  dsimp only
  split <;> rfl

/-- The path is no part of the origin. -/
@[simp] theorem origin_withPath (u : Url) (path : List Text) (t : Text) :
    (withPath u path t).origin = u.origin := by
  unfold withPath
  rw [origin_withQueryAndFragment]
  rfl

/-- The path start state leaves the origin alone. -/
@[simp] theorem origin_pathStart (u : Url) (t : Text) : (pathStart u t).origin = u.origin := by
  unfold pathStart
  split
  · split
    · rw [origin_withPath]
    · rfl
  · split
    · rw [origin_withPath]
    · split
      · rw [origin_withPath]
      · rw [origin_withQueryAndFragment]

/-- The opaque path of a URL that cannot be a base is no part of the origin. -/
@[simp] theorem origin_cannotBeABasePath (u : Url) (t : Text) :
    (cannotBeABasePath u t).origin = u.origin := by
  unfold cannotBeABasePath
  rw [origin_withQueryAndFragment]
  rfl

/-! ## The origin a text names -/

/-- The origin of the authority a text begins with. -/
def authorityOrigin (hp : HostParser) (scheme t : Text) : Except UrlParseError UrlOrigin :=
  match parseAuthority hp scheme (authorityText (isSpecial scheme) t) with
  | .error err => .error err
  | .ok a => .ok { scheme := scheme, host := some a.host, port := a.port }

/-- The origin a reference without a scheme names. -/
def relativeOrigin (hp : HostParser) (backslashes : Bool) (base : Url) (t : Text) :
    Option (Except UrlParseError UrlOrigin) :=
  (afterTwoSlashes (leadingBackslash backslashes base) t).map (authorityOrigin hp base.scheme)

/-- The origin of a `file` reference. -/
def fileOrigin (hp : HostParser) (base : Url) (t : Text) : Except UrlParseError UrlOrigin :=
  let file (host : Option Text) : UrlOrigin := { scheme := "file".toList, host := host, port := none }
  match fileHostText t with
  | some host => match parseFileHost hp host with
    | .error err => .error err
    | .ok h => .ok (file (some (if isWindowsDriveLetter host then [] else h)))
  | none => .ok (file (if isFile base.scheme then base.host else some []))

/-- The origin that the reference `t` names itself, if it names one. -/
def namedOrigin (hp : HostParser) (backslashes : Bool) (base : Url) (t : Text) :
    Option (Except UrlParseError UrlOrigin) :=
  match splitScheme (clean t) with
  | some (scheme, rest) =>
    if isFile scheme then some (fileOrigin hp base rest)
    else if repeatsScheme (some base) scheme rest then relativeOrigin hp backslashes base rest
    else if isSpecial scheme then some (authorityOrigin hp scheme (dropSlashes rest))
    else match afterDoubleSlash rest with
      | some authority => some (authorityOrigin hp scheme authority)
      | none => some (.ok { scheme := scheme, host := none, port := none })
  | none => match base.path with
    | .cannotBeABase _ => none
    | .segments _ =>
      if isFile base.scheme then some (fileOrigin hp base (clean t))
      else relativeOrigin hp backslashes base (clean t)

/-- What a resolution result has to do with the origin the reference names. -/
def LeadsTo (base : Url) (named : Option (Except UrlParseError UrlOrigin))
    (result : Except UrlParseError Url) : Prop :=
  match named with
  | none => ∀ u, result = .ok u → u.origin = base.origin
  | some (.error _) => ∀ u, result ≠ .ok u
  | some (.ok o) => ∃ u, result = .ok u ∧ u.origin = o

/-- A URL with the origin that was named leads to it. -/
theorem leadsTo_ok {base u : Url} {o : UrlOrigin} (h : u.origin = o) :
    LeadsTo base (some (.ok o)) (.ok u) := ⟨u, rfl, h⟩

/-- One with the origin of the base leads there when none was named. -/
theorem leadsTo_none_ok {base u : Url} (h : u.origin = base.origin) :
    LeadsTo base none (.ok u) := by
  rintro v ⟨⟩
  exact h

/-- An authority leads to the origin it names. -/
theorem withAuthority_leadsTo (hp : HostParser) (base : Url) (scheme t : Text) :
    LeadsTo base (some (authorityOrigin hp scheme t)) (withAuthority hp scheme t) := by
  unfold authorityOrigin withAuthority
  cases parseAuthority hp scheme (authorityText (isSpecial scheme) t) with
  | error err => intro u; simp
  | ok a => exact leadsTo_ok (origin_pathStart ..)

/-- A relative reference leads to the origin that `relativeOrigin` reads out of it. -/
theorem relativeState_leadsTo (hp : HostParser) (backslashes : Bool) (base : Url) (t : Text) :
    LeadsTo base (relativeOrigin hp backslashes base t) (relativeState hp backslashes base t) := by
  unfold relativeOrigin relativeState
  dsimp only
  cases afterTwoSlashes (leadingBackslash backslashes base) t with
  | some rest => exact withAuthority_leadsTo hp base base.scheme rest
  | none =>
    simp only [Option.map_none]
    cases t with
    | nil => exact leadsTo_none_ok rfl
    | cons c rest =>
      simp only
      split_ifs
      · exact leadsTo_none_ok (origin_withPath ..)
      · exact leadsTo_none_ok (origin_withQueryAndFragment ..)
      · exact leadsTo_none_ok (origin_withQueryAndFragment ..)
      · exact leadsTo_none_ok (origin_withPath ..)

/-- A file reference leads to the origin that `fileOrigin` reads out of it. -/
theorem fileState_leadsTo (hp : HostParser) (base : Url) (t : Text) :
    LeadsTo base (some (fileOrigin hp base t)) (fileState hp (some base) t) := by
  unfold fileOrigin fileState
  dsimp only
  cases fileHostText t with
  | some host =>
    simp only
    cases parseFileHost hp host with
    | error err => intro u; simp
    | ok h =>
      simp only
      split_ifs
      · exact leadsTo_ok (origin_withPath ..)
      · exact leadsTo_ok (origin_pathStart ..)
  | none =>
    simp only
    by_cases hb : isFile base.scheme = true
    · simp only [hb, if_true]
      cases t with
      | nil => exact leadsTo_ok rfl
      | cons c rest =>
        simp only
        split_ifs
        · exact leadsTo_ok (origin_withPath ..)
        · exact leadsTo_ok (origin_withQueryAndFragment ..)
        · exact leadsTo_ok (origin_withQueryAndFragment ..)
        · exact leadsTo_ok (origin_withPath ..)
        · exact leadsTo_ok (origin_withPath ..)
    · simp only [hb]
      exact leadsTo_ok (origin_withPath ..)

/-- **Resolution goes to the origin the reference names**, and stays at the base's when it
names none. -/
theorem join_leadsTo (hp : HostParser) (backslashes : Bool) (base : Url) (t : Text) :
    LeadsTo base (namedOrigin hp backslashes base t) (join hp backslashes base t) := by
  unfold namedOrigin join parseReference
  cases hs : splitScheme (clean t) with
  | some split =>
    obtain ⟨scheme, rest⟩ := split
    simp only [schemeState]
    by_cases hf : isFile scheme = true
    · simp only [hf, if_true]
      exact fileState_leadsTo hp base rest
    · simp only [hf]
      cases hr : repeatsScheme (some base) scheme rest with
      | true => exact relativeState_leadsTo hp backslashes base rest
      | false =>
        simp only [Bool.false_eq_true, if_false]
        by_cases hsp : isSpecial scheme = true
        · simp only [hsp, if_true]
          have h := withAuthority_leadsTo hp base scheme (dropSlashes rest)
          simpa only [authorityOrigin, hsp] using h
        · rw [if_neg hsp, if_neg hsp]
          cases afterDoubleSlash rest with
          | some authority => exact withAuthority_leadsTo hp base scheme authority
          | none =>
            dsimp only
            split
            · exact leadsTo_ok (origin_withPath ..)
            · exact leadsTo_ok (origin_cannotBeABasePath ..)
  | none =>
    simp only [noSchemeState]
    cases hpath : base.path with
    | cannotBeABase path =>
      simp only
      split_ifs
      · exact leadsTo_none_ok (origin_withQueryAndFragment ..)
      · intro u hu; cases hu
    | segments path =>
      simp only
      split_ifs
      · exact fileState_leadsTo hp base (clean t)
      · exact relativeState_leadsTo hp backslashes base (clean t)

/-- A reference stays at the origin of the base exactly when it names no origin or names
that one. -/
theorem staysAtBase_iff (hp : HostParser) (backslashes : Bool) (base : Url) (t : Text) :
    (∀ u, join hp backslashes base t = .ok u → u.origin = base.origin) ↔
      ∀ o, namedOrigin hp backslashes base t = some (.ok o) → o = base.origin := by
  have h := join_leadsTo hp backslashes base t
  cases hn : namedOrigin hp backslashes base t with
  | none =>
    rw [hn] at h
    constructor
    · intro _ o ho
      cases ho
    · intro _
      exact h
  | some r =>
    rw [hn] at h
    cases r with
    | error err =>
      constructor
      · intro _ o ho
        cases ho
      · intro _ u hu
        exact absurd hu (h u)
    | ok o =>
      obtain ⟨u, hu, ho⟩ := h
      constructor
      · intro hs o' ho'
        cases ho'
        rw [← ho]
        exact hs u hu
      · intro hs v hv
        rw [hu] at hv
        cases hv
        rw [ho]
        exact hs o rfl

/-! ## Texts that are URLs -/

/-- A text that begins and ends with characters that are not trimmed only loses its tabs and
newlines. -/
theorem clean_of_ends {a b : Char} (ha : isC0ControlOrSpace a = false)
    (hb : isC0ControlOrSpace b = false) (t : Text) :
    clean (a :: (t ++ [b])) = (a :: (t ++ [b])).filter fun c => !isTabOrNewline c := by
  have hfront : (a :: (t ++ [b])).dropWhile isC0ControlOrSpace = a :: (t ++ [b]) := by
    rw [List.dropWhile_cons_of_neg (by simp [ha])]
  have hrev : (a :: (t ++ [b])).reverse = b :: (t.reverse ++ [a]) := by simp
  have hback : (b :: (t.reverse ++ [a])).dropWhile isC0ControlOrSpace = b :: (t.reverse ++ [a]) := by
    rw [List.dropWhile_cons_of_neg (by simp [hb])]
  unfold clean
  rw [hfront, hrev, hback, ← hrev, List.reverse_reverse]

/-- A text that begins with `https:`. -/
theorem splitScheme_https (rest : Text) :
    splitScheme ("https:".toList ++ rest) = some ("https".toList, rest) := rfl

/-- **A text with a special scheme is a URL exactly when its authority is well formed.** -/
theorem parse_special_iff (hp : HostParser) {t scheme rest : Text}
    (hs : splitScheme (clean t) = some (scheme, rest)) (hsp : isSpecial scheme = true)
    (hf : isFile scheme = false) :
    (∃ u, parse hp t = .ok u) ↔
      ∃ a, parseAuthority hp scheme (authorityText true (dropSlashes rest)) = .ok a := by
  unfold parse parseReference
  simp only [hs, schemeState, hf, hsp, withAuthority]
  simp only [Bool.false_eq_true, if_false, if_true]
  cases parseAuthority hp scheme (authorityText true (dropSlashes rest)) with
  | error err => simp
  | ok a => simp

end Url

end Terrashine.Library
