import Terrashine.Library.MonotoneProtocols
import Terrashine.Analysis.TokenScope
import Terrashine.Analysis.Progress
import Terrashine.Analysis.MirrorView

/-!
# Where a token comes from, and where it goes

A task that fetches something works for one registry: the one named by the message it took out of
the channel, or by the row of the artifact it reads (`Begins`).  `tokens_accounted` follows a token
through a whole run.  A request that carries one is for a URL that the registry announced to this
piece of work, and when the token was not the one of the host name at some moment before the work
began, a client has brought it after that moment: so a token that was deleted, or replaced, is not
sent by work that begins later, unless a client brings it again.
-/

set_option autoImplicit false

namespace Terrashine.Analysis

open Terrashine.Library Terrashine.Model Terrashine.Interface

/-- The event with which a task begins to work for a registry, with the host name and the path it
asks for. -/
inductive Begins (D : Deployment) : Task → IoEvent → Text → Text → Prop
  | refresh (k : ℕ) (message : RefreshRequest) :
      Begins D (.refresher k) ⟨.recvOrCancelled, some message⟩ message.provider.hostname
        (versionsPath message.provider.namespace_ message.provider.providerType)
  | download (n : ℕ) (v : ℤ) (detail : ArtifactDetails)
      (hroute : (D.requests n).route = .artifact v) :
      Begins D (.request n) ⟨.selectArtifact v, .ok (some detail)⟩ detail.hostname
        (downloadPath detail)

def Deployment.port (D : Deployment) (i : Task) : ℕ := (D.args (D.instanceOf i)).upstreamRegistryPort

/-- The tasks that fetch something. -/
def Fetches (D : Deployment) : Task → Prop
  | .request n => ∃ v, (D.requests n).route = .artifact v
  | .refresher _ => True
  | .server _ => False

/-- A request with a token is made for what the task works for. -/
def SentFor (D : Deployment) (i : Task) (h : List IoEvent) (c : Call) : Prop :=
  ∀ request token, c = .httpGet request → token ∈ request.bearers →
    ∃ before ev tr hostname path, h = before ++ ev :: tr ∧ Begins D i ev hostname path ∧
      (∀ ev' ∈ tr, WithinRound ev'.1) ∧ InScope D.deps (Deployment.port D i) hostname path tr c

/-- A task that fetches something sends tokens for what it works for. -/
def tokenProtocol (D : Deployment) : Machine.Protocol Task Call Call.Ret Answer where
  allows i h c := Fetches D i → SentFor D i h c
  ensures _ _ _ := True

/-! ## What the programs do -/

section Programs

variable {deps : Externals} {port : ℕ} {hostname path : Text}

/-- What is in scope stays so after more calls. -/
theorem monotone_inScope : Prog.Monotone (InScope deps port hostname path) := by
  intro h h' c hsub hscope
  cases c with
  | httpGet request =>
    intro token htoken
    obtain ⟨⟨baseUrl, hannounced, hurl⟩, hread⟩ := hscope token htoken
    obtain ⟨url, response, services, hmem, hrest⟩ := hannounced
    exact ⟨⟨baseUrl, ⟨url, response, services, hsub hmem, hrest⟩, hurl⟩, hsub hread⟩
  | _ => trivial

/-- A look at the clock is in every scope. -/
theorem wp_clock_inScope {α : Type} {next : ℕ → Io α} {h : List IoEvent}
    (hnext : ∀ now h', (next now).wp (InScope deps port hostname path) (fun _ _ => True) h') :
    (perform .instantNow >>= next).wp (InScope deps port hostname path) (fun _ _ => True) h := by
  rw [perform_def, Prog.call_bind, Prog.wp_call]
  exact ⟨trivial, fun now => hnext now _⟩

/-- A response is in every scope. -/
theorem wp_answer_inScope {registry : RegistryClient} (channel : Option ℕ)
    (response : RefreshResponse) (lastRefresh : LastRefresh) (h : List IoEvent) :
    ((refresherOps deps registry).answer channel response >>= fun _ => pure lastRefresh).wp
      (InScope deps port hostname path) (fun _ _ => True) h := by
  cases channel with
  | none =>
    rw [answer_none]
    exact (Prog.wp_pure _).mpr trivial
  | some n =>
    rw [answer_some, Prog.wp_call]
    exact ⟨trivial, fun delivered => (Prog.wp_pure _).mpr trivial⟩

/-- A refresh sends tokens in the scope of its provider only. -/
theorem wp_refreshVersions_inScope (p : TerraformProvider) (h : List IoEvent) :
    (refreshVersions deps (databaseRegistry port) p).run.wp
      (InScope deps port p.hostname (versionsPath p.namespace_ p.providerType))
      (fun _ _ => True) h := by
  unfold refreshVersions
  rw [Prog.wp_run_bind]
  refine Prog.wp_mono _ (wp_providerGet _ h) ?_
  rintro (err | versions) h' - -
  · trivial
  · dsimp only
    rw [Prog.wp_run_bind, wp_tryCall, perform_def, Prog.wp_call]
    refine ⟨trivial, fun r => (Prog.wp_done r).mpr ?_⟩
    cases r with
    | error err => trivial
    | ok rows => exact (Prog.wp_done _).mpr trivial

/-- The treatment of one message. -/
theorem wp_handleMessage_inScope {refreshInterval : ℕ} (lastRefresh : LastRefresh)
    (message : RefreshRequest) (h : List IoEvent) :
    (handleMessage (refresherOps deps (databaseRegistry port)) refreshInterval lastRefresh
      message).wp (InScope deps port message.provider.hostname
        (versionsPath message.provider.namespace_ message.provider.providerType))
      (fun _ _ => True) h := by
  unfold handleMessage
  cases lastRefresh.lookup message.provider with
  | none =>
    unfold refreshVacant
    rw [Prog.wp_bind]
    refine Prog.wp_mono _ (wp_refreshVersions_inScope message.provider h) ?_
    rintro result h' - -
    unfold enterVacant
    cases result with
    | ok versions =>
      dsimp only
      rw [bind_assoc]
      exact wp_clock_inScope fun now h' => wp_answer_inScope _ _ _ h'
    | error err => exact wp_answer_inScope _ _ _ h'
  | some last =>
    dsimp only
    apply wp_clock_inScope
    intro now h'
    split
    · unfold refreshStale
      rw [Prog.wp_bind]
      refine Prog.wp_mono _ (wp_refreshVersions_inScope message.provider h') ?_
      rintro result h' - -
      exact wp_clock_inScope fun completed h' => wp_answer_inScope _ _ _ h'
    · unfold answerFresh
      exact wp_answer_inScope _ _ _ h'

/-- A download sends tokens in the scope of its row only. -/
theorem wp_getUpstream_inScope (detail : ArtifactDetails) (h : List IoEvent) :
    (getUpstream deps (databaseRegistry port) detail).run.wp
      (InScope deps port detail.hostname (downloadPath detail)) (fun _ _ => True) h := by
  unfold getUpstream
  rw [Prog.wp_run_bind, wp_tryCall]
  refine Prog.wp_mono _ (wp_providerGet _ h) ?_
  rintro (err | provider) h' - -
  · trivial
  · dsimp only
    rw [Prog.wp_run_bind, wp_tryCall]
    -- The archive itself is asked for without a token.
    have hscope : ∀ request, (RequestBuilder.get provider.downloadUrl).request = .ok request →
        InScope deps port detail.hostname (downloadPath detail) h' (.httpGet request) := by
      rintro request ⟨⟩ token htoken
      cases htoken
    refine Prog.wp_mono _ (wp_sendRequest hscope) ?_
    rintro (err | response) h'' - -
    · trivial
    · exact (Prog.wp_done _).mpr trivial

/-- A redirect sends no token. -/
theorem wp_redirect_inScope (bucketName bucketPrefix : Text) (artifact : Artifact)
    (h : List IoEvent) :
    (redirect bucketName bucketPrefix artifact).run.wp (InScope deps port hostname path)
      (fun _ _ => True) h := by
  unfold redirect presignRequest
  rw [Prog.wp_run_bind, wp_tryCall, wp_tryCall, perform_def, Prog.wp_call]
  refine ⟨trivial, fun r => (Prog.wp_done r).mpr ?_⟩
  cases r with
  | error err => trivial
  | ok uri => exact (Prog.wp_pure _).mpr trivial

/-- The download and the upload of an archive. -/
theorem wp_fetchArtifact_inScope (bucketName bucketPrefix : Text) (detail : ArtifactDetails)
    (h : List IoEvent) :
    (fetchArtifact deps (databaseRegistry port) bucketName bucketPrefix detail).run.wp
      (InScope deps port detail.hostname (downloadPath detail)) (fun _ _ => True) h := by
  unfold fetchArtifact
  rw [Prog.wp_run_bind, ExceptT.run_mk]
  have hid : (tryCall (fun _ => StatusCode.internalServerError) allocateArtifactId.run).run.wp
      (InScope deps port detail.hostname (downloadPath detail)) (fun _ _ => True) h := by
    unfold allocateArtifactId
    rw [wp_tryCall, wp_tryCall, perform_def, Prog.wp_call]
    refine ⟨trivial, fun r => (Prog.wp_done r).mpr ?_⟩
    cases r <;> trivial
  have hbody : (tryCall (fun _ => StatusCode.badGateway)
      (getUpstream deps (databaseRegistry port) detail).run).run.wp
      (InScope deps port detail.hostname (downloadPath detail)) (fun _ _ => True) h := by
    rw [wp_tryCall]
    refine Prog.wp_mono _ (wp_getUpstream_inScope detail h) ?_
    rintro (err | body) h' - - <;> trivial
  refine Prog.wp_mono _ (Prog.wp_tryJoin monotone_inScope hid hbody) ?_
  rintro (err | ⟨id, body⟩) h' - -
  · trivial
  · dsimp only
    rw [Prog.wp_run_bind, wp_tryCall]
    refine Prog.wp_of_runs Call.usual ?_ ?_
    · intro tr out tr₁ ev tr₂ hr htr
      have hcall := stashCall_of_ends (stashArtifact_ends hr) htr
      generalize ev.1 = c at hcall
      cases hcall <;> trivial
    · intro tr result hr
      cases result with
      | error err => trivial
      | ok u => exact (Prog.wp_pure _).mpr trivial

end Programs

/-! ## The protocol -/

section Protocol

variable {D : Deployment} {n k : ℕ} {h : List IoEvent}

/-- A call that is no request needs no reason. -/
theorem sentFor_of_ne {i : Task} {c : Call} (hc : ∀ request, c ≠ .httpGet request) :
    SentFor D i h c := by
  rintro request token rfl
  exact absurd rfl (hc request)

/-- What a program asks for once its work has begun. -/
theorem wp_begun {α : Type} {i : Task} {ev : IoEvent} {hostname path : Text} {p : Io α}
    {Q : α → List IoEvent → Prop} (hbegins : Begins D i ev hostname path)
    (hcalls : p.Calls WithinRound)
    (hscope : p.wp (InScope D.deps (Deployment.port D i) hostname path) (fun _ _ => True) [])
    (hQ : ∀ a h', Q a h') : p.wp ((tokenProtocol D).allows i) Q (h ++ [ev]) := by
  have hafter : p.wp ((tokenProtocol D).allows i) Q ((h ++ [ev]) ++ []) := by
    refine hcalls.wp_after (by simp) hscope ?_ hQ
    intro tr c htr hin hfetches request token hc htoken
    refine ⟨h, ev, tr, hostname, path, ?_, hbegins, htr, hin⟩
    rw [List.append_assoc, List.singleton_append]
  rwa [List.append_nil] at hafter

/-- A call that keeps away from the channels takes no message. -/
theorem calls_within {α : Type} {p : Io α} (hp : p.Calls KeepsAway) : p.Calls WithinRound := by
  refine Prog.calls_mono ?_ hp
  rintro c hc rfl
  cases hc

/-- Every token of an artifact request is sent for its row. -/
theorem wp_artifactsHandler_tokens {v : ℤ} (hroute : (D.requests n).route = .artifact v)
    (bucketName bucketPrefix : Text) :
    (artifactsHandler D.deps (D.registry (D.requests n).instanceId) bucketName bucketPrefix v).run.wp
      ((tokenProtocol D).allows (.request n)) (fun _ _ => True) [] := by
  unfold artifactsHandler getArtifactFromDatabase
  rw [Prog.wp_run_bind, wp_tryCall, wp_tryCall, perform_def, Prog.wp_call]
  refine ⟨fun _ => sentFor_of_ne (by simp), fun r => (Prog.wp_done r).mpr ?_⟩
  cases r with
  | error err => trivial
  | ok found =>
    cases found with
    | none => exact (Prog.wp_done _).mpr trivial
    | some detail =>
      have hbegins := Begins.download n v detail hroute
      dsimp only
      cases detail.artifactId with
      | some id =>
        exact wp_begun hbegins (calls_within (calls_redirect _ _ _))
          (wp_redirect_inScope _ _ _ _) fun _ _ => trivial
      | none =>
        refine wp_begun hbegins (calls_within ?_) ?_ fun _ _ => trivial
        · exact Prog.calls_run_bind (calls_fetchArtifact _ _ _ _ _) fun a => calls_redirect _ _ _
        · rw [Prog.wp_run_bind]
          refine Prog.wp_mono _ (wp_fetchArtifact_inScope _ _ detail []) ?_
          rintro (err | artifact) h' - -
          · trivial
          · exact wp_redirect_inScope _ _ _ _

/-- Every token of a round is sent for the provider of its message. -/
theorem wp_round_tokens (lastRefresh : LastRefresh) :
    (D.refresherRound k lastRefresh).wp ((tokenProtocol D).allows (.refresher k))
      (fun _ _ => True) h := by
  unfold Deployment.refresherRound refresherRound
  rw [Prog.wp_map, perform_def, Prog.call_bind, Prog.wp_call]
  refine ⟨fun _ => sentFor_of_ne (by simp), fun r => ?_⟩
  cases r with
  | none =>
    show Prog.wp _ _ (perform .dropReceiver >>= fun _ => pure none) _
    rw [perform_def, Prog.call_bind, Prog.wp_call]
    exact ⟨fun _ => sentFor_of_ne (by simp), fun u => (Prog.wp_pure _).mpr trivial⟩
  | some message =>
    show Prog.wp _ _ (handleMessage _ _ _ _ >>= fun lastRefresh' => pure (some lastRefresh')) _
    rw [Prog.wp_bind]
    exact wp_begun (.refresh k message) (calls_handleMessage _ _)
      (wp_handleMessage_inScope _ _ _) fun _ _ => (Prog.wp_pure _).mpr trivial

/-- Every task keeps to the protocol. -/
theorem tokenProtocol_obeyed (D : Deployment) : D.machine.Obeys (tokenProtocol D) := by
  have hother : ∀ {i : Task} {p : Io Answer} {h : List IoEvent}, ¬ Fetches D i →
      p.wp ((tokenProtocol D).allows i) (fun _ _ => True) h := fun hi =>
    Prog.wp_trivial (fun _ _ hfetches => absurd hfetches hi) (fun _ _ => trivial) _
  constructor
  · intro i
    cases i with
    | request n =>
      by_cases hfetches : Fetches D (.request n)
      · obtain ⟨v, hroute⟩ := hfetches
        show (D.handler n).wp _ _ []
        unfold Deployment.handler
        rw [hroute]
        dsimp only
        rw [Prog.wp_map]
        exact wp_artifactsHandler_tokens hroute _ _
      · exact hother hfetches
    | refresher k => exact wp_round_tokens ∅
    | server k => exact hother fun h => h
  · intro i a p h _ hagain
    cases i with
    | request n => cases hagain
    | refresher k =>
      cases a with
      | refresher lastRefresh =>
        cases lastRefresh with
        | some lastRefresh =>
          cases hagain
          exact wp_round_tokens lastRefresh
        | none => cases hagain
      | _ => cases hagain
    | server k => exact hother fun h => h

end Protocol

/-! ## Runs -/

/-- Between the two moments a client has brought the token for the host name. -/
def Brought (D : Deployment) (s s' : DeploymentState) (hostname token : Text) : Prop :=
  ∃ n s₁ s₂ answer applied, D.Leads s s₁ ∧
    D.machine.Step s₁ (.call (.request n) ⟨.upsertAuthToken hostname token, answer⟩ applied) s₂ ∧
    D.Leads s₂ s' ∧ (D.requests n).route = .updateCredential hostname token

/-- A request with a token, of a task that has worked for this registry since `ev`. -/
structure Accounted (D : Deployment) (s : DeploymentState) (i : Task) (request : HttpRequest)
    (token : Text) (before : List IoEvent) (ev : IoEvent) (tr : List IoEvent)
    (hostname path : Text) : Prop where
  split : s.history i = before ++ ev :: tr
  begins : Begins D i ev hostname path
  current : ∀ ev' ∈ tr, WithinRound ev'.1
  url : ∃ baseUrl, Announced D.deps (Deployment.port D i) hostname baseUrl tr ∧
    providerUrl D.deps (Deployment.port D i) hostname baseUrl path = .ok request.url
  brought : ∀ s₀, D.Reachable s₀ → D.Leads s₀ s → s₀.history i <+: before →
    tokenOf s₀.world.db hostname ≠ some token → Brought D s₀ s hostname token

section Runs

variable {D : Deployment} {s s' : DeploymentState} {i : Task} {l : DeploymentLabel}
  {hostname token : Text}

/-- A token that was brought stays brought. -/
theorem Brought.later {s₀ : DeploymentState} (hbrought : Brought D s₀ s hostname token)
    (hlater : D.Leads s s') : Brought D s₀ s' hostname token := by
  obtain ⟨n, s₁, s₂, answer, applied, hbefore, hl, hafter, hroute⟩ := hbrought
  exact ⟨n, s₁, s₂, answer, applied, hbefore, hl, hafter.trans hlater, hroute⟩

/-- A step that gives a host name a token is a client's. -/
theorem token_of_step (hs : D.Reachable s) (hl : D.machine.Step s l s')
    (htoken : tokenOf s'.world.db hostname = some token) :
    tokenOf s.world.db hostname = some token ∨ ∃ n answer applied,
      l = .call (.request n) ⟨.upsertAuthToken hostname token, answer⟩ applied ∧
      (D.requests n).route = .updateCredential hostname token := by
  rcases step_cases hl with ⟨i, ⟨c, r⟩, applied, rfl, hw⟩ | hq
  · have howned := changes_owned hs hl
    cases perform_tokens hw with
    | same c h =>
      left
      unfold tokenOf at htoken ⊢
      rw [h] at htoken
      exact htoken
    | upsert key t h =>
      rw [tokenOf_update h] at htoken
      by_cases hkey : hostname = key
      · subst hkey
        rw [Function.update_self] at htoken
        cases htoken
        obtain ⟨n, rfl, hroute⟩ := howned
        exact .inr ⟨n, r, applied, rfl, hroute⟩
      · rw [Function.update_of_ne hkey] at htoken
        exact .inl htoken
    | delete key h =>
      rw [tokenOf_update h] at htoken
      by_cases hkey : hostname = key
      · subst hkey
        rw [Function.update_self] at htoken
        cases htoken
      · rw [Function.update_of_ne hkey] at htoken
        exact .inl htoken
  · left
    have hsame := selectAuthToken_of_hosts (congrArg Tables.terraformRegistryHost hq.tables)
    unfold tokenOf at htoken ⊢
    rw [hsame] at htoken
    exact htoken

/-- **A token that was not there before was brought in between.** -/
theorem brought_of_run (hs : D.Reachable s) (hrun : D.Leads s s')
    (hbefore : tokenOf s.world.db hostname ≠ some token)
    (hafter : tokenOf s'.world.db hostname = some token) : Brought D s s' hostname token := by
  induction hrun with
  | refl => exact absurd hafter hbefore
  | @tail s₁ s₂ hrun hstep ih =>
    obtain ⟨l, -, hl⟩ := hstep
    rcases token_of_step (hs.trans hrun) hl hafter with hold | ⟨n, answer, applied, rfl, hroute⟩
    · exact (ih hold).later (.single ⟨l, trivial, hl⟩)
    · exact ⟨n, s₁, s₂, answer, applied, hrun, hl, .refl, hroute⟩

/-- A token that a task has read is the one of the host name. -/
theorem token_of_read {row : Option (Option Text)} {applied : Bool}
    (hl : D.machine.Step s (.call i ⟨.selectAuthToken hostname, .ok row⟩ applied) s') :
    tokenOf s.world.db hostname = row.join := by
  have hquery : s.world.query (validText hostname)
      (fun row => row = s.world.db.selectAuthToken hostname) (.ok row) = some s'.world :=
    perform_of_step hl
  obtain ⟨-, hok⟩ := query_eq_some hquery
  unfold tokenOf
  rw [← of_decide_eq_true (hok row rfl).2]

/-- Only refreshers and requests for an artifact send requests. -/
theorem fetches_of_httpGet (hs : D.Reachable s) {request : HttpRequest}
    {answer : Except HttpError HttpResponse} {applied : Bool}
    (hl : D.machine.Step s (.call i ⟨.httpGet request, answer⟩ applied) s') : Fetches D i := by
  have hchannel := (channelProtocol_obeyed D).allowed_step hs hl
  cases i with
  | request n =>
    have hshort := (shortProtocol_obeyed D).allowed_step hs hl
    dsimp only [shortProtocol] at hshort
    generalize s.history (.request n) = h at hchannel hshort
    cases hroute : (D.requests n).route with
    | index p => cases hchannel.1 p hroute
    | artifact v => exact ⟨v, hroute⟩
    | _ =>
      rw [hroute] at hshort
      cases hshort trivial
  | refresher k => trivial
  | server k => rcases hchannel.2 with hc | hc <;> cases hc

/-- **Every token that is sent is accounted for**, in every run of the deployment. -/
theorem tokens_accounted (hs : D.Reachable s) {request : HttpRequest}
    {answer : Except HttpError HttpResponse} {applied : Bool}
    (hl : D.machine.Step s (.call i ⟨.httpGet request, answer⟩ applied) s')
    (htoken : token ∈ request.bearers) :
    ∃ before ev tr hostname path, Accounted D s i request token before ev tr hostname path := by
  obtain ⟨before, ev, tr, hostname, path, hsplit, hbegins, hcurrent, hscope⟩ :=
    (tokenProtocol_obeyed D).allowed_step hs hl (fetches_of_httpGet hs hl) request token rfl htoken
  obtain ⟨hurl, hread⟩ := hscope token htoken
  refine ⟨before, ev, tr, hostname, path, hsplit, hbegins, hcurrent, hurl, ?_⟩
  rintro s₀ hs₀ hlater ⟨between, rfl⟩ hother
  -- The work begins after `s₀`, so the token was read after `s₀`.
  rw [List.append_assoc] at hsplit
  have hmem := List.mem_append_right between (List.mem_cons_of_mem ev hread)
  obtain ⟨s₁, s₂, applied', hfirst, -, hl', hrest⟩ := Machine.Run.exists_step hlater hsplit hmem
  have hheld := token_of_read hl'
  exact (brought_of_run hs₀ hfirst hother hheld).later ((Relation.ReflTransGen.single
    ⟨_, trivial, hl'⟩).trans hrest)

end Runs

/-! ## A token that is sent -/

/-- The tokens that go out with a call. -/
def bearersOf : Call → List Text
  | .httpGet request => request.bearers
  | _ => []

/-- Who sends a token makes a request with it. -/
theorem exists_of_bearersOf {c : Call} {token : Text} (h : token ∈ bearersOf c) :
    ∃ request, c = .httpGet request ∧ token ∈ request.bearers := by
  cases c with
  | httpGet request => exact ⟨request, rfl, h⟩
  | _ => cases h

/-- A client brings a token, and another one asks for the index of a provider of that registry. -/
def tokenDeployment : Deployment :=
  .uniform (pathRegistry (some builtVersions) none) mirrorArgs fun n =>
    ⟨0, if n = 0 then .updateCredential randomProvider.hostname "token".toList
      else .index randomProvider⟩

def tokenBrought : List ScriptMove :=
  opened 0 ++ [.start (.request 0), usual (.request 0), .finish (.request 0)] ++
    enqueued 1 randomProvider ++ [.start (.refresher 0), taken 0 1 randomProvider,
      usual (.refresher 0),
      answered (.refresher 0) (.selectAuthToken randomProvider.hostname)
        (.ok (some (some "token".toList))),
      usual (.refresher 0)]

/-- The refresher sends a token that a client has stored before. -/
theorem tokens_accounted_index : ∃ s request before ev tr hostname path,
    tokenDeployment.Reachable s ∧
    Accounted tokenDeployment s (.refresher 0) request "token".toList before ev tr hostname
      path := by
  obtain ⟨s, hs, hview⟩ : ∃ s, tokenDeployment.Reachable s ∧
      (s.history (.refresher 0))[3]?.map (fun ev => bearersOf ev.1) = some ["token".toList] :=
    Machine.exists_run_of_play (fun s : DeploymentState =>
      (s.history (.refresher 0))[3]?.map fun ev => bearersOf ev.1) tokenBrought rfl
  obtain ⟨⟨c, answer⟩, hev, hbearers⟩ := Option.map_eq_some_iff.mp hview
  obtain ⟨request, rfl, htoken⟩ := exists_of_bearersOf (hbearers ▸ List.mem_singleton_self _)
  obtain ⟨s₁, s₂, applied, hs₁, -, hl, -⟩ :=
    Machine.exists_step hs (List.mem_of_getElem? hev)
  obtain ⟨before, ev, tr, hostname, path, haccounted⟩ := tokens_accounted hs₁ hl htoken
  exact ⟨s₁, request, before, ev, tr, hostname, path, hs₁, haccounted⟩

end Terrashine.Analysis
