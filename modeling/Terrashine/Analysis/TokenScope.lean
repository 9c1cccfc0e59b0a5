import Terrashine.Analysis.Upstream

/-!
# Where a token is sent

The path of an upstream request is glued together from texts that clients and registries
choose, and resolved as a reference.  The request stays at the registry exactly when that
reference names no origin of its own, or the registry's: `providerGet_origin_iff` says so of
the URL, and that a request with a token is one for such a URL, with the token stored for the
host name.
-/

set_option autoImplicit false

namespace Terrashine.Analysis

open Terrashine.Library Terrashine.Model

/-- The reference names no origin, or the origin it is resolved at. -/
def NamesNoOtherOrigin (deps : Externals) (base : Url) (path : Text) : Prop :=
  ∀ o, Url.namedOrigin deps.host deps.backslashes base path = some (.ok o) → o = base.origin

/-- The provider service that the registry announced when it was asked. -/
def Announced (deps : Externals) (port : ℕ) (hostname baseUrl : Text) (h : List IoEvent) : Prop :=
  ∃ url response services,
    (⟨.httpGet { url := url, bearers := [] }, .ok response⟩ : IoEvent) ∈ h ∧
    Url.parse deps.host (discoveryText port hostname) = .ok url ∧
    readJson deps.decodeServices discoveryResponseSizeMaxBytes response = .ok services ∧
    services.providersV1 = some baseUrl

/-- A request with a token: its URL is built from the announced service and the path, and the
token is the one stored for the host name. -/
def InScope (deps : Externals) (port : ℕ) (hostname path : Text) (h : List IoEvent) :
    Call → Prop
  | .httpGet request => ∀ token ∈ request.bearers,
      (∃ baseUrl, Announced deps port hostname baseUrl h ∧
        providerUrl deps port hostname baseUrl path = .ok request.url) ∧
      (⟨.selectAuthToken hostname, .ok (some (some token))⟩ : IoEvent) ∈ h
  | _ => True

/-- A URL built from the base goes where the reference leads. -/
theorem providerUrl_ok_iff {deps : Externals} {port : ℕ} {hostname baseUrl path : Text} {base : Url}
    (hbase : registryBase deps port hostname baseUrl = .ok base) (u : Url) :
    providerUrl deps port hostname baseUrl path = .ok u ↔
      base.join deps.host deps.backslashes path = .ok u := by
  have hbind : (registryBase deps port hostname baseUrl >>= fun u =>
      u.join deps.host deps.backslashes path) = base.join deps.host deps.backslashes path := by
    rw [hbase]
    rfl
  unfold providerUrl
  rw [hbind]
  cases base.join deps.host deps.backslashes path with
  | ok v => simp
  | error err => simp

section Scope

variable {deps : Externals} {port : ℕ} {hostname path : Text}

/-- A request and its status check, for a call that is allowed. -/
theorem wp_sendRequest {φ : List IoEvent → Call → Prop} {builder : RequestBuilder}
    {h : List IoEvent} (hφ : ∀ request, builder.request = .ok request → φ h (.httpGet request)) :
    (sendRequest builder).run.wp φ (fun r h' => ∀ response, r = .ok response →
      ∃ request, builder.request = .ok request ∧
        (⟨.httpGet request, .ok response⟩ : IoEvent) ∈ h') h := by
  unfold sendRequest
  rw [Prog.wp_run_bind, run_liftResult, Prog.wp_done]
  cases hbuilder : builder.request with
  | error err => exact fun response hr => by cases hr
  | ok request =>
    dsimp only
    rw [Prog.wp_run_bind, wp_tryCall, perform_def, Prog.wp_call]
    refine ⟨hφ request hbuilder, fun r => (Prog.wp_done r).mpr ?_⟩
    cases r with
    | error err => exact fun response hr => by cases hr
    | ok response =>
      dsimp only
      rw [run_liftResult, Prog.wp_done]
      intro response' hr
      unfold HttpResponse.errorForStatus at hr
      split at hr
      · cases hr
      · cases hr
        exact ⟨request, rfl, List.mem_append_right _ (List.mem_singleton_self _)⟩

/-- A discovery sends no token, and its answer is what was announced. -/
theorem wp_discoverServices (credentials : CredentialHelper Io) (h : List IoEvent) :
    (discoverServices deps { port := port, credentials := credentials } hostname).run.wp
      (InScope deps port hostname path)
      (fun r h' => ∀ services baseUrl, r = .ok services → services.providersV1 = some baseUrl →
        Announced deps port hostname baseUrl h') h := by
  unfold discoverServices
  rw [Prog.wp_run_bind, ExceptT.run_lift, Prog.wp_map]
  cases hu : Url.parse deps.host (discoveryText port hostname) with
  | error err => exact (Prog.wp_panicked _).mpr trivial
  | ok url =>
    refine (Prog.wp_done url).mpr ?_
    dsimp only
    rw [Prog.wp_run_bind, wp_tryCall]
    have hscope : ∀ request, (RequestBuilder.get url).request = .ok request →
        InScope deps port hostname path h (.httpGet request) := by
      rintro request ⟨⟩ token htoken
      cases htoken
    refine Prog.wp_mono _ (wp_sendRequest hscope) ?_
    rintro (err | response) h' - hresponse
    · exact fun services baseUrl hr => by cases hr
    · dsimp only
      rw [run_liftResult, Prog.wp_done]
      intro services baseUrl hr hbase
      obtain ⟨request, hbuilder, hmem⟩ := hresponse response rfl
      cases hbuilder
      exact ⟨url, response, services, hmem, hu, hr, hbase⟩

/-- Whatever request comes out of `transform` is for the URL that went in, and its tokens have been
looked up. -/
theorem wp_transform (url : Url) (h : List IoEvent) :
    (databaseCredentials.transform (.get url) hostname).run.wp (InScope deps port hostname path)
      (fun r h' => h <+: h' ∧ ∀ builder request, r = .ok builder → builder.request = .ok request →
        request.url = url ∧ ∀ token ∈ request.bearers,
          (⟨.selectAuthToken hostname, .ok (some (some token))⟩ : IoEvent) ∈ h') h := by
  unfold CredentialHelper.transform databaseCredentials
  rw [Prog.wp_run_bind, Prog.wp_run_bind, wp_tryCall, perform_def, Prog.wp_call]
  refine ⟨trivial, fun r => (Prog.wp_done r).mpr ?_⟩
  have hextends : h <+: h ++ [(⟨.selectAuthToken hostname, r⟩ : IoEvent)] := List.prefix_append _ _
  have hkeep : ∀ builder request, (.ok (.get url) : Except AnyhowError RequestBuilder) =
      .ok builder → builder.request = .ok request → request.url = url ∧ ∀ token ∈ request.bearers,
        (⟨.selectAuthToken hostname, .ok (some (some token))⟩ : IoEvent) ∈
          h ++ [(⟨.selectAuthToken hostname, r⟩ : IoEvent)] := by
    rintro builder request ⟨⟩ ⟨⟩
    exact ⟨rfl, fun token htoken => absurd htoken List.not_mem_nil⟩
  cases r with
  | error err => exact ⟨hextends, fun builder request hr => by cases hr⟩
  | ok row =>
    cases row with
    | none =>
      refine (Prog.wp_pure _).mpr ((Prog.wp_pure _).mpr ⟨hextends, hkeep⟩)
    | some token =>
      refine (Prog.wp_pure _).mpr ?_
      cases token with
      | none => exact (Prog.wp_pure _).mpr ⟨hextends, hkeep⟩
      | some token =>
        refine (Prog.wp_pure _).mpr ⟨hextends, ?_⟩
        rintro builder request ⟨⟩ hbuilder
        unfold RequestBuilder.bearerAuth RequestBuilder.get at hbuilder
        dsimp only at hbuilder
        split at hbuilder
        · cases hbuilder
          refine ⟨rfl, fun token' htoken => ?_⟩
          rw [List.nil_append, List.mem_singleton] at htoken
          rw [htoken]
          exact List.mem_append_right _ (List.mem_singleton_self _)
        · cases hbuilder

/-- **Every request of the client that carries a token is in scope.** -/
theorem wp_providerGet {A : Type} (decode : Bytes → Option A) (h : List IoEvent) :
    (providerGet deps decode (databaseRegistry port) hostname path).run.wp
      (InScope deps port hostname path) (fun _ _ => True) h := by
  unfold providerGet
  rw [Prog.wp_run_bind]
  refine Prog.wp_mono _ (wp_discoverServices databaseCredentials h) ?_
  rintro (err | services) h₁ - hservices
  · trivial
  dsimp only
  cases hbase : services.providersV1 with
  | none => exact (Prog.wp_done _).mpr trivial
  | some baseUrl =>
    have hannounced := hservices services baseUrl rfl hbase
    dsimp only
    rw [Prog.wp_run_bind, run_liftResult, Prog.wp_done]
    dsimp only [databaseRegistry]
    cases hurl : providerUrl deps port hostname baseUrl path with
    | error err => trivial
    | ok url =>
      dsimp only
      rw [Prog.wp_run_bind, wp_tryCall]
      refine Prog.wp_mono _ (wp_transform url h₁) ?_
      rintro (err | builder) h₂ - ⟨hextends, hbuilder⟩
      · trivial
      dsimp only
      rw [Prog.wp_run_bind, wp_tryCall]
      have hscope : ∀ request, builder.request = .ok request →
          InScope deps port hostname path h₂ (.httpGet request) := by
        intro request hrequest token htoken
        obtain ⟨hrurl, hbearer⟩ := hbuilder builder request rfl hrequest
        refine ⟨⟨baseUrl, ?_, hurl.trans (congrArg Except.ok hrurl.symm)⟩, hbearer token htoken⟩
        obtain ⟨u, response, services', hmem, hrest⟩ := hannounced
        exact ⟨u, response, services', hextends.mem hmem, hrest⟩
      refine Prog.wp_mono _ (wp_sendRequest hscope) ?_
      rintro (err | response) h₃ - -
      · trivial
      · exact (Prog.wp_done _).mpr trivial

end Scope

/-- **When an upstream request stays at its registry.**  The URL built from the announced
service and the path has that service's scheme, host and port if and only if the path, read as
a reference, names no other origin.  In every run of the client, a request with a token is one
for a URL built so, from the service the registry announced, with the token the database has
for the host name. -/
theorem providerGet_origin_iff (deps : Externals) (port : ℕ) (hostname path : Text) :
    (∀ baseUrl base, registryBase deps port hostname baseUrl = .ok base →
      ((∀ u, providerUrl deps port hostname baseUrl path = .ok u → u.origin = base.origin) ↔
        NamesNoOtherOrigin deps base path)) ∧
    ∀ {A : Type} (decode : Bytes → Option A) (tr : List IoEvent)
      (out : Outcome (Except TerrashineError A)),
      Prog.Runs (providerGet deps decode (databaseRegistry port) hostname path).run tr out →
      ∀ before request answer after token,
        tr = before ++ (⟨.httpGet request, answer⟩ : IoEvent) :: after →
        token ∈ request.bearers →
        (∃ baseUrl, Announced deps port hostname baseUrl before ∧
          providerUrl deps port hostname baseUrl path = .ok request.url) ∧
        (⟨.selectAuthToken hostname, .ok (some (some token))⟩ : IoEvent) ∈ before := by
  constructor
  · intro baseUrl base hbase
    have hstays := Url.staysAtBase_iff deps.host deps.backslashes base path
    simp only [providerUrl_ok_iff hbase]
    exact hstays
  · intro A decode tr out hr before request answer after token htr htoken
    have hscope := Prog.wp_allows (wp_providerGet decode []) hr htr
    exact hscope token htoken

/-! ## A path that leaves the registry -/

/-- The namespace is the percent-decoded path segment `%2F`. -/
def slashProvider : TerraformProvider :=
  { hostname := "registry.terraform.io".toList, namespace_ := "/".toList
    providerType := "evil.test".toList }

/-- The registry answers, and the database has a token for it. -/
def tokenStored : (c : Call) → c.Ret
  | .selectAuthToken _ => .ok (some (some "token".toList))
  | c => c.usual

/-- The token of `registry.terraform.io` is sent to `evil.test`. -/
theorem token_leaves_registry :
    ∃ base, registryBase (pathRegistry none none) 443 slashProvider.hostname "/v1/providers/".toList = .ok base ∧
      base.origin.host = some slashProvider.hostname ∧
      ∃ tr out, Prog.Runs (refreshVersions (pathRegistry none none) (databaseRegistry 443) slashProvider).run
          tr out ∧
        (⟨.selectAuthToken slashProvider.hostname, .ok (some (some "token".toList))⟩ : IoEvent) ∈
          tr ∧
        ∃ request answer, (⟨.httpGet request, answer⟩ : IoEvent) ∈ tr ∧
          "token".toList ∈ request.bearers ∧
          request.url.origin =
            { scheme := "https".toList, host := some "evil.test".toList, port := none } ∧
          request.url.origin ≠ base.origin :=
  ⟨_, rfl, rfl, _, _, Prog.runs_execute tokenStored _, .tail _ (.head _), _, _,
    .tail _ (.tail _ (.head _)), .head _, rfl, by decide⟩

end Terrashine.Analysis
