import Terrashine.Library.Text
import Mathlib.Data.Nat.Notation

/-!
# URLs and the resolution of references

The URL record and the basic parser of the WHATWG URL standard as the `url` crate has it, which
is also the reference resolution of RFC 3986 with the corrections browsers make: leading and
trailing controls are trimmed, tabs and newlines removed, a backslash of a special
scheme is a slash.  The states of the standard's parser are functions here, each on the
text that is left.  Where the crate differs from the standard, the crate counts: a relative
reference that begins with `//` loses just these two slashes, and a path keeps its `^` and the bar
of a drive letter.

Host names go through tables (IDNA, IPv4, IPv6) that are not part of this file: the
host parser is the parameter `hp`, told whether the scheme is special and given the text
of the host.  A second parameter, `backslashes`, is for references at a base whose scheme is not
special: the standard takes a backslash at their front for a character of the path, other parsers
take it for a slash.

* `Url.parse hp t`: the URL that the absolute text `t` names;
* `Url.join hp backslashes base t`: the URL that the reference `t` names relative to `base`;
* `Url.serialize u`: the text of a URL.
-/

set_option autoImplicit false

namespace Terrashine.Library

/-- The parser of host texts: is the scheme special, the text, and the host or failure. -/
abbrev HostParser : Type := Bool → Text → Option Text

/-- The path of a URL: segments, or one text for a URL that cannot be a base. -/
inductive UrlPath where
  | segments (path : List Text)
  | cannotBeABase (path : Text)
  deriving DecidableEq

structure Url where
  scheme : Text
  username : Text
  password : Text
  host : Option Text
  port : Option ℕ
  path : UrlPath
  query : Option Text
  fragment : Option Text
  deriving DecidableEq

inductive UrlParseError where
  | emptyHost
  | invalidHost
  | invalidPort
  | relativeUrlWithoutBase
  | relativeUrlWithCannotBeABaseBase
  deriving DecidableEq

namespace Url

/-! ## Characters -/

def isC0Control (c : Char) : Bool := c.toNat ≤ 0x1F

def isC0ControlOrSpace (c : Char) : Bool := isC0Control c || c == ' '

def isTabOrNewline (c : Char) : Bool := c == '\t' || c == '\n' || c == '\r'

/-- The text the parser reads: trimmed, and without tabs and newlines. -/
def clean (t : Text) : Text :=
  (((t.dropWhile isC0ControlOrSpace).reverse.dropWhile isC0ControlOrSpace).reverse).filter
    fun c => !isTabOrNewline c

/-- The sets of characters that are percent-encoded, each in the part it is named for. -/
def c0ControlSet (c : Char) : Bool := isC0Control c || 0x7E < c.toNat

def fragmentSet (c : Char) : Bool := c0ControlSet c || c ∈ " \"<>`".toList

def querySet (c : Char) : Bool := c0ControlSet c || c ∈ " \"#<>".toList

def specialQuerySet (c : Char) : Bool := querySet c || c == '\''

def pathSet (c : Char) : Bool := querySet c || c ∈ "?`\x7b\x7d".toList

def userinfoSet (c : Char) : Bool := pathSet c || c ∈ "/:;=@[\\]^|".toList

def hexDigit (n : ℕ) : Char := ("0123456789ABCDEF".toList).getD n '0'

def percentEncodeByte (b : UInt8) : Text :=
  ['%', hexDigit (b.toNat / 16), hexDigit (b.toNat % 16)]

/-- UTF-8 percent-encoding of the characters in `set`. -/
def percentEncode (set : Char → Bool) (t : Text) : Text :=
  t.flatMap fun c => if set c then (String.utf8EncodeChar c).flatMap percentEncodeByte else [c]

/-! ## Schemes -/

/-- The special schemes with their default ports. -/
def defaultPort (scheme : Text) : Option ℕ :=
  if scheme = "http".toList ∨ scheme = "ws".toList then some 80
  else if scheme = "https".toList ∨ scheme = "wss".toList then some 443
  else if scheme = "ftp".toList then some 21
  else none

def isFile (scheme : Text) : Bool := scheme == "file".toList

def isSpecial (scheme : Text) : Bool := (defaultPort scheme).isSome || isFile scheme

def isSchemeChar (c : Char) : Bool := c.isAlphanum || c == '+' || c == '-' || c == '.'

/-- The scheme a text begins with, in lower case, and what follows its colon. -/
def splitScheme (t : Text) : Option (Text × Text) :=
  match t.head?, t.dropWhile isSchemeChar with
  | some c, ':' :: rest =>
    if c.isAlpha then some ((t.takeWhile isSchemeChar).map Char.toLower, rest) else none
  | _, _ => none

/-- A backslash counts as a slash in a URL with a special scheme. -/
def isSlash (special : Bool) (c : Char) : Bool := c == '/' || (special && c == '\\')

/-- Where an authority ends. -/
def isDelimiter (special : Bool) (c : Char) : Bool := isSlash special c || c == '?' || c == '#'

/-! ## Authorities -/

structure Authority where
  username : Text
  password : Text
  host : Text
  port : Option ℕ
  deriving DecidableEq

/-- The user information before the last `@`, and what follows it. -/
def splitUserinfo (t : Text) : Option Text × Text :=
  if '@' ∈ t then
    (some ((t.reverse.dropWhile (· != '@')).tail.reverse), (t.reverse.takeWhile (· != '@')).reverse)
  else (none, t)

/-- The text before the first colon that is not inside brackets, and the text after it. -/
def splitPort : Bool → Text → Text × Option Text
  | _, [] => ([], none)
  | insideBrackets, c :: rest =>
    if c = ':' ∧ insideBrackets = false then ([], some rest)
    else
      let inside := if c = '[' then true else if c = ']' then false else insideBrackets
      ((c :: (splitPort inside rest).1), (splitPort inside rest).2)

/-- A port is empty or digits up to 65535; the default port of the scheme is dropped. -/
def parsePort (scheme digits : Text) : Except UrlParseError (Option ℕ) :=
  if digits = [] then .ok none
  else if digits.all Char.isDigit then
    let port := Nat.ofDigitChars 10 digits 0
    if 65535 < port then .error .invalidPort
    else .ok (if defaultPort scheme = some port then none else some port)
  else .error .invalidPort

/-- The authority state, the host state and the port state on the text of an authority. -/
def parseAuthority (hp : HostParser) (scheme t : Text) : Except UrlParseError Authority :=
  let special := isSpecial scheme
  let userinfo := (splitUserinfo t).1
  let hostAndPort := (splitUserinfo t).2
  let host := (splitPort false hostAndPort).1
  let port := (splitPort false hostAndPort).2
  if host = [] ∧ (special = true ∨ userinfo.isSome = true ∨ port.isSome = true) then
    .error .emptyHost
  else match hp special host with
    | none => .error .invalidHost
    | some h => match parsePort scheme (port.getD []) with
      | .error err => .error err
      | .ok p =>
        let credentials := userinfo.getD []
        .ok { username := percentEncode userinfoSet (credentials.takeWhile (· != ':'))
              password := percentEncode userinfoSet (credentials.dropWhile (· != ':')).tail
              host := h
              port := p }

/-! ## Paths, queries and fragments -/

def isSingleDot (segment : Text) : Bool :=
  segment == ".".toList || segment.map Char.toLower == "%2e".toList

def isDoubleDot (segment : Text) : Bool :=
  segment.map Char.toLower ∈
    ["..".toList, ".%2e".toList, "%2e.".toList, "%2e%2e".toList]

def isWindowsDriveLetter (t : Text) : Bool :=
  match t with
  | [a, b] => a.isAlpha && (b == ':' || b == '|')
  | _ => false

def startsWithWindowsDriveLetter (t : Text) : Bool :=
  isWindowsDriveLetter (t.take 2) &&
    match t.drop 2 with
    | [] => true
    | c :: _ => c == '/' || c == '\\' || c == '?' || c == '#'

/-- The removal of the last segment; a `file` URL keeps its drive letter. -/
def shorten (scheme : Text) (path : List Text) : List Text :=
  match path with
  | [[a, ':']] => if isFile scheme && a.isAlpha then path else []
  | _ => path.dropLast

def splitSegments (special : Bool) : Text → List Text
  | [] => [[]]
  | c :: rest =>
    if isSlash special c then [] :: splitSegments special rest
    else match splitSegments special rest with
      | [] => [[c]]
      | s :: ss => (c :: s) :: ss

/-- One segment of the path state; `last` says that no slash follows it.  A drive letter stays as
it is spelt. -/
def pushSegment (scheme : Text) (path : List Text) (segment : Text) (last : Bool) : List Text :=
  let s := percentEncode pathSet segment
  if isDoubleDot s then
    if last then shorten scheme path ++ [[]] else shorten scheme path
  else if isSingleDot s then
    if last then path ++ [[]] else path
  else path ++ [s]

def pushSegments (scheme : Text) : List Text → List Text → List Text
  | path, [] => path
  | path, [s] => pushSegment scheme path s true
  | path, s :: s' :: rest => pushSegments scheme (pushSegment scheme path s false) (s' :: rest)

def isQueryOrFragment (c : Char) : Bool := c == '?' || c == '#'

/-- The query state and the fragment state on what follows the path. -/
def withQueryAndFragment (u : Url) (t : Text) : Url :=
  let encode := if isSpecial u.scheme then specialQuerySet else querySet
  match t with
  | '?' :: rest =>
    let fragment := (rest.dropWhile (· != '#'))
    { u with
      query := some (percentEncode encode (rest.takeWhile (· != '#')))
      fragment := match fragment with
        | [] => none
        | _ :: f => some (percentEncode fragmentSet f) }
  | '#' :: rest => { u with fragment := some (percentEncode fragmentSet rest) }
  | _ => u

/-- The path state, entered with the segments `path`. -/
def withPath (u : Url) (path : List Text) (t : Text) : Url :=
  let segments := splitSegments (isSpecial u.scheme) (t.takeWhile fun c => !isQueryOrFragment c)
  withQueryAndFragment { u with path := .segments (pushSegments u.scheme path segments) }
    (t.dropWhile fun c => !isQueryOrFragment c)

/-- The path start state. -/
def pathStart (u : Url) (t : Text) : Url :=
  match t with
  | [] => if isSpecial u.scheme then withPath u [] [] else u
  | c :: rest =>
    if isSlash (isSpecial u.scheme) c then withPath u [] rest
    else if isSpecial u.scheme then withPath u [] t
    else withQueryAndFragment u t

/-- The path of a URL that cannot be a base. -/
def cannotBeABasePath (u : Url) (t : Text) : Url :=
  withQueryAndFragment
    { u with path := .cannotBeABase (percentEncode c0ControlSet (t.takeWhile fun c => !isQueryOrFragment c)) }
    (t.dropWhile fun c => !isQueryOrFragment c)

/-! ## The parser -/

/-- A URL with nothing but its scheme. -/
def ofScheme (scheme : Text) : Url :=
  { scheme := scheme, username := [], password := [], host := none, port := none
    path := .segments [], query := none, fragment := none }

/-- The authority of a text that begins with one, and what follows it. -/
def authorityText (special : Bool) (t : Text) : Text := t.takeWhile fun c => !isDelimiter special c

def afterAuthority (special : Bool) (t : Text) : Text := t.dropWhile fun c => !isDelimiter special c

/-- From the authority state to the end. -/
def withAuthority (hp : HostParser) (scheme t : Text) : Except UrlParseError Url :=
  match parseAuthority hp scheme (authorityText (isSpecial scheme) t) with
  | .error err => .error err
  | .ok a =>
    .ok (pathStart
      { ofScheme scheme with
        username := a.username, password := a.password, host := some a.host, port := a.port }
      (afterAuthority (isSpecial scheme) t))

/-- The special authority ignore slashes state. -/
def dropSlashes (t : Text) : Text := t.dropWhile (isSlash true)

/-- The segments a relative path is appended to. -/
def basePath (base : Url) : List Text :=
  match base.path with
  | .segments path => path
  | .cannotBeABase _ => []

/-- What follows the slashes that announce an authority.  Of `//` just these two are dropped, so that
a third one ends an empty authority; otherwise all slashes and backslashes are. -/
def afterTwoSlashes (leading : Bool) (t : Text) : Option Text :=
  match t with
  | '/' :: '/' :: rest => some rest
  | c :: d :: rest => if isSlash leading c && isSlash leading d then some (dropSlashes rest) else none
  | _ => none

/-- Does a backslash that a reference begins with count as a slash?  It does for a special base; for
any other base that is up to the parser. -/
def leadingBackslash (backslashes : Bool) (base : Url) : Bool := isSpecial base.scheme || backslashes

/-- The relative state and the relative slash state. -/
def relativeState (hp : HostParser) (backslashes : Bool) (base : Url) (t : Text) :
    Except UrlParseError Url :=
  let leading := leadingBackslash backslashes base
  match afterTwoSlashes leading t with
  | some rest => withAuthority hp base.scheme rest
  | none => match t with
    | [] => .ok { base with fragment := none }
    | c :: rest =>
      if isSlash leading c then
        .ok (withPath { base with query := none, fragment := none } [] rest)
      else if c = '?' then
        .ok (withQueryAndFragment { base with query := none, fragment := none } t)
      else if c = '#' then .ok (withQueryAndFragment { base with fragment := none } t)
      else
        .ok (withPath { base with query := none, fragment := none }
          (shorten base.scheme (basePath base)) t)

/-- The host of a `file` URL, when two slashes announce one. -/
def fileHostText (t : Text) : Option Text :=
  match t with
  | c :: d :: rest =>
    if isSlash true c && isSlash true d then some (authorityText true rest) else none
  | _ => none

/-- The host the file host state ends with; a drive letter there is no host. -/
def parseFileHost (hp : HostParser) (t : Text) : Except UrlParseError Text :=
  if isWindowsDriveLetter t ∨ t = [] then .ok []
  else match hp true t with
    | none => .error .invalidHost
    | some h => .ok (if h = "localhost".toList then [] else h)

/-- The file state, the file slash state and the file host state. -/
def fileState (hp : HostParser) (base : Option Url) (t : Text) : Except UrlParseError Url :=
  let inherited := match base with
    | some b => if isFile b.scheme then some b else none
    | none => none
  let file := ofScheme "file".toList
  match fileHostText t with
  | some host => match parseFileHost hp host with
    | .error err => .error err
    | .ok h =>
      let rest := t.drop 2
      .ok (if isWindowsDriveLetter host then withPath { file with host := some [] } [] rest
        else pathStart { file with host := some h } (afterAuthority true rest))
  | none => match inherited with
    | none => .ok (withPath { file with host := some [] } []
        (match t with
          | c :: rest => if isSlash true c then rest else t
          | [] => t))
    | some b =>
      let url := { file with host := b.host }
      match t with
      | [] => .ok { url with path := b.path, query := b.query }
      | c :: rest =>
        if isSlash true c then
          -- an absolute path of a `file` base stays on the drive of the base
          let drive := match basePath b with
            | [a, ':'] :: _ => if a.isAlpha && !startsWithWindowsDriveLetter rest then [[a, ':']] else []
            | _ => []
          .ok (withPath url drive rest)
        else if c = '?' then .ok (withQueryAndFragment { url with path := b.path } t)
        else if c = '#' then
          .ok (withQueryAndFragment { url with path := b.path, query := b.query } t)
        else if startsWithWindowsDriveLetter t then .ok (withPath url [] t)
        else .ok (withPath url (shorten "file".toList (basePath b)) t)

/-- What follows the two slashes a text begins with. -/
def afterDoubleSlash : Text → Option Text
  | '/' :: '/' :: rest => some rest
  | _ => none

/-- The scheme of the reference repeats the special scheme of the base and no two slashes
follow: such a reference is relative. -/
def repeatsScheme (base : Option Url) (scheme rest : Text) : Bool :=
  match base with
  | some b => b.scheme == scheme && isSpecial scheme && (afterDoubleSlash rest).isNone
  | none => false

/-- A reference that carries a scheme. -/
def schemeState (hp : HostParser) (backslashes : Bool) (base : Option Url) (scheme rest : Text) :
    Except UrlParseError Url :=
  if isFile scheme then fileState hp base rest
  else match base, repeatsScheme base scheme rest with
    | some b, true => relativeState hp backslashes b rest
    | _, _ =>
      if isSpecial scheme then withAuthority hp scheme (dropSlashes rest)
      else match afterDoubleSlash rest with
        | some authority => withAuthority hp scheme authority
        | none => match rest with
          | '/' :: path => .ok (withPath (ofScheme scheme) [] path)
          | path => .ok (cannotBeABasePath (ofScheme scheme) path)

/-- A reference that carries no scheme. -/
def noSchemeState (hp : HostParser) (backslashes : Bool) (base : Option Url) (t : Text) :
    Except UrlParseError Url :=
  match base with
  | none => .error .relativeUrlWithoutBase
  | some b => match b.path with
    | .cannotBeABase _ =>
      if t.head? = some '#' then .ok (withQueryAndFragment { b with fragment := none } t)
      else .error .relativeUrlWithCannotBeABaseBase
    | .segments _ =>
      if isFile b.scheme then fileState hp (some b) t else relativeState hp backslashes b t

/-- The basic URL parser. -/
def parseReference (hp : HostParser) (backslashes : Bool) (base : Option Url) (t : Text) :
    Except UrlParseError Url :=
  match splitScheme (clean t) with
  | some (scheme, rest) => schemeState hp backslashes base scheme rest
  | none => noSchemeState hp backslashes base (clean t)

/-- The URL that an absolute text names; there are no leading backslashes to ask about. -/
def parse (hp : HostParser) (t : Text) : Except UrlParseError Url := parseReference hp false none t

/-- The URL that a reference names relative to `base`. -/
def join (hp : HostParser) (backslashes : Bool) (base : Url) (t : Text) : Except UrlParseError Url :=
  parseReference hp backslashes (some base) t

/-! ## The serialiser -/

def serializePath : UrlPath → Text
  | .segments path => path.flatMap fun s => '/' :: s
  | .cannotBeABase path => path

/-- What stands between the scheme and the path. -/
def serializeAuthority (u : Url) : Text :=
  match u.host with
  | some host =>
    let password := if u.password = [] then [] else ':' :: u.password
    let userinfo := if u.username = [] ∧ u.password = [] then [] else u.username ++ password ++ ['@']
    let port := match u.port with
      | some p => ':' :: Text.ofNat p
      | none => []
    "//".toList ++ userinfo ++ host ++ port
  | none => match u.path with
    | .segments ([] :: _ :: _) => "/.".toList
    | _ => []

/-- The text of a URL. -/
def serialize (u : Url) : Text :=
  let query := match u.query with
    | some q => '?' :: q
    | none => []
  let fragment := match u.fragment with
    | some f => '#' :: f
    | none => []
  u.scheme ++ [':'] ++ serializeAuthority u ++ serializePath u.path ++ query ++ fragment

end Url

end Terrashine.Library
