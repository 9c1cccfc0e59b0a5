import Terrashine.Library.UrlPath

/-!
# Schemes and authorities, read back

Scheme and authority of a parsed URL are in a normal form that the parser leaves alone:
`splitScheme_of_canonical` and `parseAuthority_text` read their text back.

Hosts are read by the host parser; `CanonicalHosts` are host parsers whose results are host
texts of the same host, as the standard's are.
-/

set_option autoImplicit false

namespace Terrashine.Library

namespace Url

/-! ## Schemes -/

/-- A scheme in lower case. -/
structure CanonicalScheme (scheme : Text) : Prop where
  head : ∃ c rest, scheme = c :: rest ∧ c.isAlpha = true
  chars : ∀ c ∈ scheme, isSchemeChar c = true
  lower : ∀ c ∈ scheme, c.toLower = c

/-- The characters of a scheme are ASCII. -/
theorem toNat_of_isSchemeChar {c : Char} (h : isSchemeChar c = true) : c.toNat < 128 := by
  unfold isSchemeChar Char.isAlphanum at h
  simp only [Bool.or_eq_true, beq_iff_eq] at h
  rcases h with (((h | h) | rfl) | rfl) | rfl
  · have hn := toNat_of_isAlpha h
    omega
  · have hn : c.toNat = c.val.toNat := rfl
    simp only [Char.isDigit, Bool.and_eq_true, decide_eq_true_eq, UInt32.le_iff_toNat_le] at h
    simp at h
    omega
  all_goals decide

/-- What holds of the first 128 characters holds of those of schemes. -/
theorem isSchemeChar_forall {P : Char → Prop}
    (h : ∀ n < 128, isSchemeChar (Char.ofNat n) = true → P (Char.ofNat n)) :
    ∀ c, isSchemeChar c = true → P c := by
  intro c hc
  have hn := h c.toNat (toNat_of_isSchemeChar hc)
  rw [Char.ofNat_toNat] at hn
  exact hn hc

/-- A character of a scheme is one in lower case again, and stays as it is from then on. -/
theorem toLower_schemeChar : ∀ c, isSchemeChar c = true →
    isSchemeChar c.toLower = true ∧ c.toLower.toLower = c.toLower ∧
      c.toLower.isAlpha = c.isAlpha := by
  apply isSchemeChar_forall
  decide +kernel

/-- Digits may stand in a scheme. -/
theorem isSchemeChar_of_isDigit {c : Char} (h : c.isDigit = true) : isSchemeChar c = true := by
  simp [isSchemeChar, Char.isAlphanum, h]

/-- Letters may stand in a scheme. -/
theorem isSchemeChar_of_isAlpha {c : Char} (h : c.isAlpha = true) : isSchemeChar c = true := by
  simp [isSchemeChar, Char.isAlphanum, h]

/-- A scheme that was read is canonical. -/
theorem canonicalScheme_of_splitScheme {t scheme rest : Text}
    (h : splitScheme t = some (scheme, rest)) : CanonicalScheme scheme := by
  have hmem : ∀ d ∈ (t.takeWhile isSchemeChar).map Char.toLower,
      isSchemeChar d = true ∧ d.toLower = d := by
    intro d hd
    obtain ⟨c, hc, rfl⟩ := List.mem_map.mp hd
    have hlower := toLower_schemeChar c (List.mem_takeWhile_imp hc)
    exact ⟨hlower.1, hlower.2.1⟩
  unfold splitScheme at h
  split at h
  · next c rest' hhead hdrop =>
    split at h
    · next halpha =>
      cases h
      refine ⟨?_, fun d hd => (hmem d hd).1, fun d hd => (hmem d hd).2⟩
      cases t with
      | nil => cases hhead
      | cons c' t =>
        cases hhead
        have hscheme := isSchemeChar_of_isAlpha halpha
        rw [List.takeWhile_cons_of_pos hscheme, List.map_cons]
        exact ⟨_, _, rfl, (toLower_schemeChar _ hscheme).2.2.trans halpha⟩
    · cases h
  · cases h

/-- A canonical scheme is found again. -/
theorem splitScheme_of_canonical {scheme : Text} (h : CanonicalScheme scheme) (rest : Text) :
    splitScheme (scheme ++ ':' :: rest) = some (scheme, rest) := by
  have hcolon : isSchemeChar ':' = false := by decide
  have htake : (scheme ++ ':' :: rest).takeWhile isSchemeChar = scheme := by
    rw [List.takeWhile_append_of_pos h.chars, List.takeWhile_cons_of_neg (by simp [hcolon]),
      List.append_nil]
  have hdrop : (scheme ++ ':' :: rest).dropWhile isSchemeChar = ':' :: rest := by
    rw [List.dropWhile_append_of_pos h.chars, List.dropWhile_cons_of_neg (by simp [hcolon])]
  have hlower : scheme.map Char.toLower = scheme := by
    conv_rhs => rw [← List.map_id scheme]
    exact List.map_congr_left h.lower
  obtain ⟨c, scheme', hscheme, halpha⟩ := h.head
  have hhead : (scheme ++ ':' :: rest).head? = some c := by
    rw [hscheme]
    rfl
  unfold splitScheme
  rw [htake, hdrop, hhead, hlower]
  exact if_pos halpha

/-! ## Hosts and ports -/

/-- Whether a host text ends inside brackets; a colon outside of them makes it none. -/
def bracketsAfter : Bool → Text → Option Bool
  | inside, [] => some inside
  | inside, c :: rest =>
    if c = ':' ∧ inside = false then none
    else bracketsAfter (if c = '[' then true else if c = ']' then false else inside) rest

/-- The characters that no host text holds. -/
def forbiddenInHost (c : Char) : Bool := isC0ControlOrSpace c || c ∈ "#/<>?@\\^|".toList

/-- A host parser whose results are host texts, of the host they are. -/
structure CanonicalHosts (hp : HostParser) : Prop where
  stable : ∀ special t h, hp special t = some h → hp special h = some h
  nonempty : ∀ special t, hp special t = some [] → t = []
  allowed : ∀ special t h, hp special t = some h → ∀ c ∈ h, forbiddenInHost c = false
  brackets : ∀ special t h, hp special t = some h → bracketsAfter false h = some false

/-- The text before the port is looked through up to where the brackets stand. -/
theorem splitPort_append {inside inside' : Bool} {h : Text}
    (hh : bracketsAfter inside h = some inside') (t : Text) :
    splitPort inside (h ++ t) = (h ++ (splitPort inside' t).1, (splitPort inside' t).2) := by
  induction h generalizing inside with
  | nil =>
    cases hh
    rfl
  | cons c h ih =>
    unfold bracketsAfter at hh
    split at hh
    · cases hh
    · next hc =>
      rw [List.cons_append, splitPort, if_neg hc]
      dsimp only
      rw [ih hh]
      rfl

/-- The port that a URL keeps: a number in range other than the default of its scheme. -/
def CanonicalPort (scheme : Text) (port : Option ℕ) : Prop :=
  ∀ p, port = some p → p ≤ 65535 ∧ defaultPort scheme ≠ some p

/-- A port that was read is canonical. -/
theorem canonicalPort_of_parsePort {scheme digits : Text} {port : Option ℕ}
    (h : parsePort scheme digits = .ok port) : CanonicalPort scheme port := by
  unfold parsePort at h
  split at h
  · cases h
    intro p hp
    cases hp
  · split at h
    · dsimp only at h
      split at h
      · cases h
      · next hrange =>
        split at h
        · cases h
          intro p hp
          cases hp
        · next hdefault =>
          cases h
          intro p hp
          cases hp
          exact ⟨by omega, hdefault⟩
    · cases h

/-- The text of a port, with its colon. -/
def portText (port : Option ℕ) : Text :=
  match port with
  | some p => ':' :: Text.ofNat p
  | none => []

/-- A canonical port is read back. -/
theorem parsePort_ofNat {scheme : Text} {p : ℕ} (h : CanonicalPort scheme (some p)) :
    parsePort scheme (Text.ofNat p) = .ok (some p) := by
  obtain ⟨hrange, hdefault⟩ := h p rfl
  have hdigits : (Text.ofNat p).all Char.isDigit = true :=
    List.all_eq_true.mpr fun c hc => Text.isDigit_of_mem_ofNat hc
  have hvalue : Nat.ofDigitChars 10 (Text.ofNat p) 0 = p := Nat.ofDigitChars_ten_toDigits
  unfold parsePort
  rw [if_neg (Text.ofNat_ne_nil p), if_pos hdigits]
  dsimp only
  rw [hvalue, if_neg (by omega), if_neg hdefault]

/-! ## Authorities -/

/-- A text in which nothing is left to encode. -/
def Encoded (set : Char → Bool) (t : Text) : Prop := ∀ c ∈ t, set c = false

/-- An encoded text has nothing left to encode. -/
theorem encoded_percentEncode {set : Char → Bool} (hset : KeepsEscapes set) (t : Text) :
    Encoded set (percentEncode set t) := by
  intro c hc
  by_contra h
  exact not_mem_percentEncode hset (by simpa using h) hc

structure CanonicalAuthority (hp : HostParser) (scheme : Text) (a : Authority) : Prop where
  username : Encoded userinfoSet a.username
  password : Encoded userinfoSet a.password
  stable : hp (isSpecial scheme) a.host = some a.host
  allowed : ∀ c ∈ a.host, forbiddenInHost c = false
  brackets : bracketsAfter false a.host = some false
  empty : a.host = [] → isSpecial scheme = false ∧ a.username = [] ∧ a.password = [] ∧ a.port = none
  port : CanonicalPort scheme a.port

/-- An authority that was read is canonical. -/
theorem canonicalAuthority_of_parseAuthority {hp : HostParser} (hhp : CanonicalHosts hp)
    {scheme t : Text} {a : Authority} (h : parseAuthority hp scheme t = .ok a) :
    CanonicalAuthority hp scheme a := by
  unfold parseAuthority at h
  dsimp only at h
  split at h
  · cases h
  · next hempty =>
    split at h
    · cases h
    · next host hhost =>
      split at h
      · cases h
      · next port hport =>
        cases h
        refine ⟨encoded_percentEncode keepsEscapes_userinfoSet _,
          encoded_percentEncode keepsEscapes_userinfoSet _, hhp.stable _ _ _ hhost,
          hhp.allowed _ _ _ hhost, hhp.brackets _ _ _ hhost, ?_, canonicalPort_of_parsePort hport⟩
        rintro rfl
        have htext := hhp.nonempty _ _ hhost
        rw [htext] at hempty
        simp only [true_and, not_or, Bool.not_eq_true, Option.isSome_eq_false_iff,
          Option.isNone_iff_eq_none] at hempty
        obtain ⟨hspecial, huser, hnoport⟩ := hempty
        rw [hnoport] at hport
        rw [huser]
        have hnone : port = none := (Except.ok.inj hport).symm
        exact ⟨hspecial, rfl, rfl, hnone⟩

/-- The user information of a URL, with its `@`. -/
def userinfoText (username password : Text) : Text :=
  if username = [] ∧ password = [] then []
  else username ++ (if password = [] then [] else ':' :: password) ++ ['@']

/-- The text of an authority. -/
def Authority.text (a : Authority) : Text :=
  userinfoText a.username a.password ++ a.host ++ portText a.port

/-- What is forbidden in hosts stands in none of them. -/
theorem not_mem_of_forbidden {host : Text} (h : ∀ c ∈ host, forbiddenInHost c = false) {d : Char}
    (hd : forbiddenInHost d = true) : d ∉ host := by
  intro hmem
  rw [h d hmem] at hd
  cases hd

/-- A port is written with a colon and digits. -/
theorem isDigit_of_mem_portText {port : Option ℕ} {c : Char} (h : c ∈ portText port) :
    c = ':' ∨ c.isDigit = true := by
  cases port with
  | none => cases h
  | some p =>
    rcases List.mem_cons.mp h with rfl | h
    · exact .inl rfl
    · exact .inr (Text.isDigit_of_mem_ofNat h)

/-- Without an at sign there is no userinfo. -/
theorem splitUserinfo_none {t : Text} (h : '@' ∉ t) : splitUserinfo t = (none, t) := by
  unfold splitUserinfo
  rw [if_neg h]

/-- The last at sign ends the userinfo. -/
theorem splitUserinfo_some {t : Text} (h : '@' ∉ t) (userinfo : Text) :
    splitUserinfo (userinfo ++ '@' :: t) = (some userinfo, t) := by
  have hmem : '@' ∈ userinfo ++ '@' :: t := List.mem_append_right _ List.mem_cons_self
  have hall : ∀ c ∈ t.reverse, (c != '@') = true := by
    intro c hc
    rw [List.mem_reverse] at hc
    simp only [bne_iff_ne, ne_eq]
    rintro rfl
    exact h hc
  have hrev : (userinfo ++ '@' :: t).reverse = t.reverse ++ '@' :: userinfo.reverse := by simp
  unfold splitUserinfo
  rw [if_pos hmem, hrev, List.dropWhile_append_of_pos hall, List.takeWhile_append_of_pos hall]
  simp

/-- What is read from an authority whose parts are known. -/
theorem parseAuthority_of_split {hp : HostParser} {scheme t rest host host' : Text}
    {userinfo port : Option Text} {port' : Option ℕ} (huser : splitUserinfo t = (userinfo, rest))
    (hport : splitPort false rest = (host, port))
    (hempty : ¬ (host = [] ∧ (isSpecial scheme = true ∨ userinfo.isSome = true ∨
      port.isSome = true)))
    (hhost : hp (isSpecial scheme) host = some host')
    (hport' : parsePort scheme (port.getD []) = .ok port') :
    parseAuthority hp scheme t = .ok
      { username := percentEncode userinfoSet ((userinfo.getD []).takeWhile (· != ':'))
        password := percentEncode userinfoSet ((userinfo.getD []).dropWhile (· != ':')).tail
        host := host', port := port' } := by
  unfold parseAuthority
  dsimp only
  rw [huser, hport]
  dsimp only
  rw [if_neg hempty, hhost]
  dsimp only
  rw [hport']

/-- A host and its port are told apart again. -/
theorem splitPort_hostAndPort {host : Text} (h : bracketsAfter false host = some false)
    (port : Option ℕ) :
    splitPort false (host ++ portText port) = (host, port.map Text.ofNat) := by
  rw [splitPort_append h]
  cases port with
  | none => simp [portText, splitPort]
  | some p => simp [portText, splitPort]

/-- What the user information is split into again. -/
theorem credentials_userinfo {username : Text} (password : Text) (h : ':' ∉ username) :
    (username ++ (if password = [] then [] else ':' :: password)).takeWhile (· != ':') = username ∧
      ((username ++ (if password = [] then [] else ':' :: password)).dropWhile (· != ':')).tail =
        password := by
  have hall : ∀ c ∈ username, (c != ':') = true := by
    intro c hc
    simp only [bne_iff_ne, ne_eq]
    rintro rfl
    exact h hc
  rw [List.takeWhile_append_of_pos hall, List.dropWhile_append_of_pos hall]
  split
  · next hempty =>
    rw [hempty]
    simp
  · simp

/-- **The text of a canonical authority is parsed into it.** -/
theorem parseAuthority_text {hp : HostParser} {scheme : Text} {a : Authority}
    (h : CanonicalAuthority hp scheme a) : parseAuthority hp scheme a.text = .ok a := by
  have hat : '@' ∉ a.host ++ portText a.port := by
    intro hmem
    rcases List.mem_append.mp hmem with hmem | hmem
    · exact not_mem_of_forbidden h.allowed (by decide) hmem
    · rcases isDigit_of_mem_portText hmem with hc | hc <;> revert hc <;> decide
  have hport : parsePort scheme ((a.port.map Text.ofNat).getD []) = .ok a.port := by
    have hcanonical := h.port
    cases hp : a.port with
    | none => rfl
    | some p => exact parsePort_ofNat (hp ▸ hcanonical)
  have hsplit := splitPort_hostAndPort h.brackets a.port
  unfold Authority.text userinfoText
  by_cases hnone : a.username = [] ∧ a.password = []
  · rw [if_pos hnone, List.nil_append]
    rw [parseAuthority_of_split (splitUserinfo_none hat) hsplit ?_ h.stable hport]
    · obtain ⟨hu, hp⟩ := hnone
      cases a
      dsimp only at hu hp ⊢
      rw [hu, hp]
      rfl
    · rintro ⟨hempty, hspecial | huser | hport⟩
      · rw [(h.empty hempty).1] at hspecial
        cases hspecial
      · cases huser
      · rw [(h.empty hempty).2.2.2] at hport
        cases hport
  · have hcolon : ':' ∉ a.username := by
      intro hmem
      have hset := h.username ':' hmem
      revert hset
      decide
    obtain ⟨htake, hdrop⟩ := credentials_userinfo a.password hcolon
    rw [if_neg hnone, List.append_assoc, List.append_assoc, List.singleton_append]
    rw [parseAuthority_of_split (splitUserinfo_some hat _) hsplit ?_ h.stable hport]
    · dsimp only [Option.getD_some]
      rw [htake, hdrop, percentEncode_eq_self h.username, percentEncode_eq_self h.password]
    · rintro ⟨hempty, -⟩
      exact hnone ⟨(h.empty hempty).2.1, (h.empty hempty).2.2.1⟩

end Url

end Terrashine.Library
