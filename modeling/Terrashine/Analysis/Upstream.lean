import Terrashine.Library.UrlOrigin
import Terrashine.Program.Artifacts
import Terrashine.Program.Index

/-!
# Requests to upstream registries

What the client of the registries calls out to, and when it panics.  Discovery parses the
address of the registry with `expect`; everything after it returns a value.
-/

set_option autoImplicit false

namespace Terrashine.Analysis

open Terrashine.Library Terrashine.Model

/-- The client of the registries that the servers are started with. -/
def databaseRegistry (port : ℕ) : RegistryClient :=
  { port := port, credentials := databaseCredentials }

/-- A host parser for plain names, which it takes as they are. -/
def plainHosts : HostParser := fun _ host =>
  if host.all fun c => c.isAlphanum || c == '.' || c == '-' then some host else none

/-- A registry that announces its provider service by a path, and what its documents say. -/
def pathRegistry (versions : Option ProviderVersions) (download : Option ProviderResponse) :
    Externals where
  host := plainHosts
  backslashes := true
  decodeServices _ :=
    some { providersV1 := some "/v1/providers/".toList, modulesV1 := none, loginV1 := none }
  decodeVersions _ := versions
  decodeResponse _ := download

/-! ## The calls of an upstream request -/

/-- A request to a registry, or the look-up of the token for one. -/
def Upstream : Call → Prop
  | .httpGet _ => True
  | .selectAuthToken _ => True
  | _ => False

/-- Sending a request is one call. -/
theorem calls_sendRequest {C : Call → Prop} {builder : RequestBuilder}
    (h : ∀ request, C (.httpGet request)) : (sendRequest builder).run.Calls C := by
  unfold sendRequest
  refine Prog.calls_run_bind (calls_liftResult _) fun request => ?_
  refine Prog.calls_run_bind (calls_tryCall ?_) fun response => calls_liftResult _
  exact (Prog.calls_perform _ _).mpr (h request)

/-- An expectation makes no call. -/
theorem calls_expect {C : Call → Prop} {ε α : Type} (message : Text) (r : Except ε α) :
    (expect message r).Calls C := by
  cases r <;> simp [expect]

/-- `transform` looks the token up. -/
theorem calls_transform {C : Call → Prop} {request : RequestBuilder} {hostname : Text}
    (h : C (.selectAuthToken hostname)) :
    (databaseCredentials.transform request hostname).run.Calls C := by
  unfold CredentialHelper.transform databaseCredentials
  refine Prog.calls_run_bind (Prog.calls_run_bind (calls_tryCall ?_) ?_) ?_
  · exact (Prog.calls_perform _ _).mpr h
  · rintro (token | _) <;> exact Prog.calls_run_pure _
  · rintro (_ | (_ | token)) <;> exact Prog.calls_run_pure _

/-- A discovery makes one request. -/
theorem calls_discoverServices (deps : Externals) (registry : RegistryClient) (hostname : Text) :
    (discoverServices deps registry hostname).run.Calls Upstream := by
  unfold discoverServices
  refine Prog.calls_run_bind ?_ fun url => ?_
  · rw [ExceptT.run_lift]
    exact Prog.calls_bind (calls_expect _ _) fun url => Prog.calls_run_pure _
  · exact Prog.calls_run_bind (calls_tryCall (calls_sendRequest fun _ => trivial))
      fun response => calls_liftResult _

/-- **An upstream request only asks registries and looks up tokens.** -/
theorem calls_providerGet {A : Type} (deps : Externals) (decode : Bytes → Option A) (port : ℕ)
    (hostname path : Text) :
    (providerGet deps decode (databaseRegistry port) hostname
      path).run.Calls Upstream := by
  unfold providerGet
  refine Prog.calls_run_bind (calls_discoverServices _ _ _) fun services => ?_
  cases services.providersV1 with
  | none => exact calls_liftResult _
  | some baseUrl =>
    refine Prog.calls_run_bind (calls_liftResult _) fun url => ?_
    refine Prog.calls_run_bind (calls_tryCall (calls_transform trivial)) fun request => ?_
    exact Prog.calls_run_bind (calls_tryCall (calls_sendRequest fun _ => trivial))
      fun response => calls_liftResult _

/-- A download makes requests and look-ups only. -/
theorem calls_getUpstream (deps : Externals) (port : ℕ) (artifact : ArtifactDetails) :
    (getUpstream deps (databaseRegistry port) artifact).run.Calls
      Upstream := by
  unfold getUpstream
  refine Prog.calls_run_bind (calls_tryCall (calls_providerGet _ _ _ _ _)) fun provider => ?_
  exact Prog.calls_run_bind (calls_tryCall (calls_sendRequest fun _ => trivial))
    fun response => Prog.calls_run_pure _

/-! ## Panics -/

/-- `hostname:port` is the authority of a URL: without its tabs and newlines, after leading
slashes and up to the next slash, `?` or `#`, it is a host the host parser takes, with one
valid port at most. -/
def WellFormedAuthority (deps : Externals) (port : ℕ) (hostname : Text) : Prop :=
  ∃ a, Url.parseAuthority deps.host "https".toList
    (Url.authorityText true (Url.dropSlashes
      (hostname.filter (fun c => !Url.isTabOrNewline c) ++ ":".toList ++ Text.ofNat port ++
        "/.well-known/terraform.json".toList))) = .ok a

/-- The digits of a port hold no tab and no newline. -/
theorem filter_ofNat (n : ℕ) : (Text.ofNat n).filter (fun c => !Url.isTabOrNewline c) =
    Text.ofNat n := by
  rw [List.filter_eq_self]
  intro c hc
  have hdigit := Text.isDigit_of_mem_ofNat hc
  have hne : ∀ d : Char, d.isDigit = false → c ≠ d := by
    rintro d hd rfl
    rw [hdigit] at hd
    cases hd
  have htab := hne '\t' (by decide)
  have hnew := hne '\n' (by decide)
  have hret := hne '\r' (by decide)
  simp [Url.isTabOrNewline, htab, hnew, hret]

/-- The address of a discovery is cleaned of the tabs in its host name. -/
theorem clean_discoveryText (port : ℕ) (hostname : Text) :
    Url.clean (discoveryText port hostname) = "https:".toList ++ ("//".toList ++
      (hostname.filter (fun c => !Url.isTabOrNewline c) ++ ":".toList ++ Text.ofNat port ++
        "/.well-known/terraform.json".toList)) := by
  have hshape : discoveryText port hostname = 'h' :: (("ttps://".toList ++ hostname ++
      ":".toList ++ Text.ofNat port ++ "/.well-known/terraform.jso".toList) ++ ['n']) := by
    unfold discoveryText
    rw [List.append_assoc _ "/.well-known/terraform.jso".toList]
    rfl
  rw [hshape, Url.clean_of_ends (by decide) (by decide), ← hshape]
  unfold discoveryText
  rw [List.filter_append, List.filter_append, List.filter_append, List.filter_append, filter_ofNat]
  simp only [List.append_assoc]
  rfl

/-- **The address of a registry parses exactly when it is well formed.** -/
theorem parse_discoveryText_iff (deps : Externals) (port : ℕ) (hostname : Text) :
    (∃ u, Url.parse deps.host (discoveryText port hostname) = .ok u) ↔
      WellFormedAuthority deps port hostname := by
  have hsplit := Url.splitScheme_https ("//".toList ++
    (hostname.filter (fun c => !Url.isTabOrNewline c) ++ ":".toList ++ Text.ofNat port ++
      "/.well-known/terraform.json".toList))
  rw [← clean_discoveryText] at hsplit
  have hparse := Url.parse_special_iff deps.host hsplit (by decide) (by decide)
  exact hparse

section Panics

variable (deps : Externals) (port : ℕ) (hostname : Text)

/-- Sending a request does not panic. -/
theorem neverPanics_sendRequest (builder : RequestBuilder) :
    (sendRequest builder).run.NeverPanics := by
  unfold sendRequest
  refine Prog.neverPanics_run_bind (neverPanics_liftResult _) fun request => ?_
  exact Prog.neverPanics_run_bind (neverPanics_tryCall (neverPanics_perform _))
    fun response => neverPanics_liftResult _

/-- `transform` does not panic. -/
theorem neverPanics_transform (request : RequestBuilder) :
    (databaseCredentials.transform request hostname).run.NeverPanics := by
  unfold CredentialHelper.transform databaseCredentials
  refine Prog.neverPanics_run_bind (Prog.neverPanics_run_bind ?_ ?_) ?_
  · exact neverPanics_tryCall (neverPanics_perform _)
  · rintro (token | _) <;> exact Prog.neverPanics_run_pure _
  · rintro (_ | (_ | token)) <;> exact Prog.neverPanics_run_pure _

variable {deps port hostname}

/-- The discovery of a well-formed host name does not panic. -/
theorem neverPanics_discoverServices (h : WellFormedAuthority deps port hostname)
    (credentials : CredentialHelper Io) :
    (discoverServices deps { port := port, credentials := credentials }
      hostname).run.NeverPanics := by
  obtain ⟨u, hu⟩ := (parse_discoveryText_iff deps port hostname).mpr h
  unfold discoverServices
  refine Prog.neverPanics_run_bind ?_ fun url => ?_
  · rw [ExceptT.run_lift]
    refine Prog.neverPanics_bind ?_ fun url => Prog.neverPanics_run_pure _
    rw [hu]
    exact (Prog.neverPanics_done u).mpr trivial
  · exact Prog.neverPanics_run_bind (neverPanics_tryCall (neverPanics_sendRequest _))
      fun response => neverPanics_liftResult _

/-- An address that does not parse panics before the first request. -/
theorem alwaysPanics_discoverServices (h : ¬ WellFormedAuthority deps port hostname)
    (credentials : CredentialHelper Io) :
    (discoverServices deps { port := port, credentials := credentials }
      hostname).run.AlwaysPanics := by
  unfold discoverServices
  rw [ExceptT.run_bind, ExceptT.run_lift]
  refine Prog.AlwaysPanics.bind (Prog.AlwaysPanics.bind ?_ _) _
  intro tr u hr
  cases hp : Url.parse deps.host (discoveryText port hostname) with
  | ok u' => exact h ((parse_discoveryText_iff deps port hostname).mp ⟨u', hp⟩)
  | error err =>
    rw [hp] at hr
    cases (Prog.runs_panicked_iff.mp hr).2

/-- A request to a well-formed host name does not panic. -/
theorem neverPanics_providerGet {A : Type} (h : WellFormedAuthority deps port hostname)
    (decode : Bytes → Option A) (path : Text) :
    (providerGet deps decode (databaseRegistry port) hostname
      path).run.NeverPanics := by
  unfold providerGet
  refine Prog.neverPanics_run_bind (neverPanics_discoverServices h _) fun services => ?_
  cases services.providersV1 with
  | none => exact neverPanics_liftResult _
  | some baseUrl =>
    refine Prog.neverPanics_run_bind (neverPanics_liftResult _) fun url => ?_
    refine Prog.neverPanics_run_bind (neverPanics_tryCall (neverPanics_transform _ _))
      fun request => ?_
    exact Prog.neverPanics_run_bind (neverPanics_tryCall (neverPanics_sendRequest _))
      fun response => neverPanics_liftResult _

/-- A request to an ill-formed one panics, whatever is answered. -/
theorem alwaysPanics_providerGet {A : Type} (h : ¬ WellFormedAuthority deps port hostname)
    (decode : Bytes → Option A) (path : Text) :
    (providerGet deps decode (databaseRegistry port) hostname
      path).run.AlwaysPanics := by
  unfold providerGet
  rw [ExceptT.run_bind]
  exact (alwaysPanics_discoverServices h _).bind _

end Panics

end Terrashine.Analysis
