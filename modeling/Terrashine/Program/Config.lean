import Terrashine.Model.Types

/-!
# The arguments of the server

The check of the address that clients are redirected to.
-/

set_option autoImplicit false

namespace Terrashine.Model

open Terrashine.Library

/-- A URL that is no base for others, such as a `mailto` one. -/
def cannotBeABase (url : Url) : Bool :=
  match url.path with
  | .cannotBeABase _ => true
  | .segments _ => false

/-- What is wrong with a redirect URL. -/
inductive RedirectUrlError where
  | parse (source : UrlParseError)
  | ensure (message : Text)
  deriving DecidableEq

/-- SOURCE: src/config.rs:16-21 -/
def validateRedirectUrl (hp : HostParser) (s : Text) : Except RedirectUrlError Url :=
  match Url.parse hp s with
  | .error err => .error (.parse err)
  | .ok url =>
    if cannotBeABase url then .error (.ensure "Must be fully qualified URL".toList)
    else if s.getLast? = some '/' then .ok url
    else .error (.ensure "URL must contain trailing slash".toList)

end Terrashine.Model
