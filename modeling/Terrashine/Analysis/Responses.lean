import Terrashine.Analysis.MessageLife

/-!
# Every response is the outcome of its own message

What a request receives on its channel was sent by the refresher of its instance, which had
taken the message of that very request out of the queue and responds with what it did for it:
`received_responded`.  No error of a refresh looks like one of the index handler's own, so
the handler's answers tell which of the two it was.
-/

set_option autoImplicit false

namespace Terrashine.Analysis

open Terrashine.Library Terrashine.Model Terrashine.Interface

/-! ## The errors of a refresh -/

/-- An error that a refresh may end with. -/
def OfRefresh : TerrashineError → Prop
  | .concurrentProviderFetch _ => False
  | .tooManyRequestsInChannel _ => False
  | .brokenRefresherChannel => False
  | _ => True

/-- The stores in the history that failed, failed with an error of a refresh. -/
def StoresFailProperly (h : List IoEvent) : Prop :=
  ∀ p response err, (⟨.storeProviderVersions p response, .error err⟩ : IoEvent) ∈ h → OfRefresh err

/-- A store fails with an error of the database. -/
theorem store_error_ofRefresh {fault : Option StoreStep} {now : ℕ} {db : Database}
    {p : TerraformProvider} {response : ProviderVersions} {err : TerrashineError} {db' : Database}
    (h : storeProviderVersions fault now db p response = (.error err, db')) : OfRefresh err := by
  have hfailed : ∀ (e : SqlError) (cur : Database),
      ((.error (.databaseError e), db.rollback cur) : Except TerrashineError ℕ × Database) =
        (.error err, db') → OfRefresh err := by
    intro e cur heq
    cases heq
    trivial
  unfold storeProviderVersions at h
  simp only at h
  split at h
  · exact hfailed _ _ h
  split at h
  · exact hfailed _ _ h
  split at h
  · exact hfailed _ _ h
  · split at h
    · exact hfailed _ _ h
    split at h
    · exact hfailed _ _ h
    · split at h
      · exact hfailed _ _ h
      · cases h

section Errors

variable {deps : Externals} {hostname : Text}

/-- Every error of the program is one of a refresh. -/
def FailsProperly {α : Type} (p : Io (Except TerrashineError α)) : Prop :=
  ∀ h, p.wp (fun _ _ => True) (fun r _ => ∀ err, r = .error err → OfRefresh err) h

/-- A sequence fails properly when both of its parts do. -/
theorem FailsProperly.bind {α β : Type} {x : ExceptT TerrashineError Io α}
    {f : α → ExceptT TerrashineError Io β} (hx : FailsProperly x.run)
    (hf : ∀ a, FailsProperly (f a).run) : FailsProperly (x >>= f).run := by
  intro h
  rw [Prog.wp_run_bind]
  refine Prog.wp_mono _ (hx h) ?_
  intro r h' _ hr
  cases r with
  | ok a => exact hf a h'
  | error err =>
    intro err' herr
    cases herr
    exact hr err rfl

/-- A result that is known fails properly when its error is one of a refresh. -/
theorem failsProperly_liftResult {α : Type} {r : Except TerrashineError α}
    (hr : ∀ err, r = .error err → OfRefresh err) : FailsProperly (liftResult r).run := by
  intro h
  rw [run_liftResult, Prog.wp_done]
  exact hr

/-- A call whose error is wrapped. -/
theorem failsProperly_tryCall {ε α : Type} {into : ε → TerrashineError}
    (hinto : ∀ e, OfRefresh (into e)) (p : Io (Except ε α)) :
    FailsProperly (tryCall into p).run := by
  intro h
  rw [wp_tryCall]
  refine Prog.wp_trivial (fun _ _ => trivial) ?_ p
  intro r h'
  cases r with
  | ok a =>
    intro err herr
    cases herr
  | error e =>
    intro err herr
    cases herr
    exact hinto e

/-- Reading a document fails with an error of a refresh. -/
theorem readJson_ofRefresh {A : Type} {decode : Bytes → Option A} {limit : ℕ}
    {response : HttpResponse} {err : TerrashineError}
    (h : readJson decode limit response = .error err) : OfRefresh err := by
  have hchunks : ∀ (chunks : List Bytes) (buffer : Bytes) (e : TerrashineError),
      (readChunks limit response.body.ending buffer chunks).1 = .error e → OfRefresh e := by
    intro chunks
    induction chunks with
    | nil =>
      intro buffer e he
      unfold readChunks at he
      split at he
      · cases he
      · cases he
        trivial
    | cons chunk rest ih =>
      intro buffer e he
      unfold readChunks at he
      split at he
      · cases he
        trivial
      · exact ih _ e he
  unfold readJson at h
  split at h
  · next e buffer heq =>
    cases h
    exact hchunks _ _ err (congrArg Prod.fst heq)
  · split at h
    · cases h
    · cases h
      trivial

/-- An address that cannot be built is an error of a refresh. -/
theorem providerUrl_ofRefresh {port : ℕ} {baseUrl path : Text} {err : TerrashineError}
    (h : providerUrl deps port hostname baseUrl path = .error err) : OfRefresh err := by
  unfold providerUrl at h
  split at h
  · cases h
  · cases h
    trivial

/-- A discovery fails properly. -/
theorem failsProperly_discoverServices (registry : RegistryClient) :
    FailsProperly (discoverServices deps registry hostname).run := by
  have hresponse : ∀ e, OfRefresh (.providerResponseFailure e) := fun _ => trivial
  unfold discoverServices
  refine FailsProperly.bind ?_ fun url => ?_
  · intro h
    rw [ExceptT.run_lift, Prog.wp_map]
    refine Prog.wp_trivial (fun _ _ => trivial) ?_ _
    intro url h' err herr
    cases herr
  · refine (failsProperly_tryCall hresponse _).bind fun response => ?_
    exact failsProperly_liftResult fun err => readJson_ofRefresh

/-- A request to a registry fails properly. -/
theorem failsProperly_providerGet {A : Type} (decode : Bytes → Option A)
    (registry : RegistryClient) (path : Text) :
    FailsProperly (providerGet deps decode registry hostname path).run := by
  have hanyhow : ∀ e, OfRefresh (.anyhow e) := fun _ => trivial
  have hresponse : ∀ e, OfRefresh (.providerResponseFailure e) := fun _ => trivial
  unfold providerGet
  refine (failsProperly_discoverServices registry).bind fun services => ?_
  cases services.providersV1 with
  | none =>
    refine failsProperly_liftResult fun err herr => ?_
    cases herr
    trivial
  | some baseUrl =>
    refine (failsProperly_liftResult fun err => providerUrl_ofRefresh).bind fun url => ?_
    refine (failsProperly_tryCall hanyhow _).bind fun request => ?_
    refine (failsProperly_tryCall hresponse _).bind fun response => ?_
    exact failsProperly_liftResult fun err => readJson_ofRefresh

/-- **No error of a refresh is one of the index handler's own.** -/
theorem refreshVersions_ofRefresh {registry : RegistryClient} {p : TerraformProvider}
    {tr : List IoEvent} {err : TerrashineError} (htr : StoresFailProperly tr)
    (hr : Prog.Runs (refreshVersions deps registry p).run tr (.returned (.error err))) :
    OfRefresh err := by
  have hwp : (refreshVersions deps registry p).run.wp (fun _ _ => True)
      (fun r h => ∀ err, r = .error err → StoresFailProperly h → OfRefresh err) [] := by
    unfold refreshVersions
    rw [Prog.wp_run_bind]
    refine Prog.wp_mono _ (failsProperly_providerGet _ registry _ []) ?_
    intro r h _ hr
    cases r with
    | error err =>
      intro err' herr _
      cases herr
      exact hr err rfl
    | ok versions =>
      dsimp only
      rw [Prog.wp_run_bind, wp_tryCall, perform_def, Prog.wp_call]
      refine ⟨trivial, fun stored => (Prog.wp_done stored).mpr ?_⟩
      cases stored with
      | ok n =>
        refine (Prog.wp_pure _).mpr ?_
        intro err' herr
        cases herr
      | error e =>
        intro err' herr hproper
        cases herr
        exact hproper p versions e (List.mem_append_right _ (List.mem_singleton_self _))
  exact Prog.wp_run hwp hr err rfl (by simpa using htr)

end Errors

/-! ## Responses in a run -/

section Runs

variable {D : Deployment} {s s' : DeploymentState} {n : ℕ} {response : RefreshResponse}
  {delivered : Bool}

/-- In a reachable state every failed store failed with an error of a refresh. -/
theorem storesFailProperly (hs : D.Reachable s) (i : Task) : StoresFailProperly (s.history i) := by
  intro p response err hmem
  obtain ⟨s₁, s₂, applied, -, -, hl, -⟩ := Machine.exists_step hs hmem
  have hst : s₁.world.statement (.databaseError .unavailable)
      (storeProviderVersions none s₁.world.clock s₁.world.db p response) (.error err) applied =
        some s₂.world := perform_of_step hl
  cases hrun : storeProviderVersions none s₁.world.clock s₁.world.db p response with
  | mk result db' =>
    rw [hrun] at hst
    have hanswer : (.error err : Except TerrashineError ℕ) = result ∨
        (.error err : Except TerrashineError ℕ) = .error (.databaseError .unavailable) := by
      rcases statement_eq_some hst with ⟨-, hr | ⟨hr, -⟩⟩ | ⟨-, -, hr, -⟩
      · exact .inl hr
      · exact .inr hr
      · exact .inr hr
    rcases hanswer with hanswer | hanswer
    · rw [← hanswer] at hrun
      exact store_error_ofRefresh hrun
    · cases hanswer
      trivial

/-- The refresher of its instance took the message of request `n` and responded with the
outcome. -/
def Responded (D : Deployment) (s : DeploymentState) (n : ℕ) (response : RefreshResponse)
    (delivered : Bool) : Prop :=
  ∃ p before tr after, (D.requests n).route = .index p ∧
    s.history (.refresher (D.requests n).instanceId) =
      before ++ (⟨.recvOrCancelled, some (ownMessage n p)⟩ : IoEvent) :: tr ++
        (⟨.respond n response, delivered⟩ : IoEvent) :: after ∧
    OwnOutcome D.deps (D.args (D.requests n).instanceId).upstreamRegistryPort p tr response ∧
    (response = .providerVersionNotStale → StoredBy p before)

/-- A response that was made stays made. -/
theorem Responded.later (h : Responded D s n response delivered) (hl : D.Leads s s') :
    Responded D s' n response delivered := by
  obtain ⟨p, before, tr, after, hroute, hhistory, hown, hstored⟩ := h
  obtain ⟨new, hnew⟩ := Machine.Run.history_prefix hl (.refresher (D.requests n).instanceId)
  refine ⟨p, before, tr, after ++ new, hroute, ?_, hown, hstored⟩
  rw [← hnew, hhistory]
  simp

/-- **An answered message was answered with its own outcome.** -/
theorem responded_of_answered (hs : D.Reachable s)
    (hlife : life D n s.trace = .answered response delivered) :
    Responded D s n response delivered := by
  revert hlife
  refine Machine.invariant (I := fun s => life D n s.trace = .answered response delivered →
    Responded D s n response delivered) ?_ ?_ hs
  · intro hlife
    cases hlife
  · intro s l s' hs ih _ hl hlife
    have hmoves := lifeStep (n := n) hs hl
    rw [hlife] at hmoves
    generalize hbefore : life D n s.trace = before at hmoves
    cases hmoves with
    | stays => exact (ih hbefore).later (.single ⟨l, trivial, hl⟩)
    | answers message response delivered applied hcall =>
      subst hcall
      have hallowed := (channelProtocol_obeyed D).allowed_step hs hl
      obtain ⟨-, p, before, tr, hhistory, hworking, hown, hstored⟩ := hallowed
      have hhand : inHand (s.history (.refresher (D.requests n).instanceId)) =
          some (ownMessage n p) := by
        rw [hhistory]
        exact inHand_during hworking
      have htracks := tracks_of_reachable hs n
      obtain ⟨-, hinHand⟩ := (htracks.hand _ _).mp ⟨hhand, rfl⟩
      obtain ⟨p', hroute, hmessage⟩ := htracks.own _ (.inr hinHand)
      have hp : p = p' := congrArg RefreshRequest.provider hmessage
      subst hp
      refine ⟨p, before, tr, [], hroute, ?_, hown, hstored⟩
      rw [history_self hl, hhistory]

/-- **What a request receives is the outcome of its own message.** -/
theorem received_responded (hs : D.Reachable s)
    (hreceived : (⟨.receiveResponse, some response⟩ : IoEvent) ∈ s.history (.request n)) :
    Responded D s n response true := by
  obtain ⟨s₁, s₂, applied, hs₁, -, hl, hlater⟩ := Machine.exists_step hs hreceived
  obtain ⟨-, m, hm, hvalue⟩ := perform_receiveResponse (perform_of_step hl)
  cases hm
  have hsent : (s₁.world.channels n).value = .sent response := by
    rcases hvalue with ⟨response', heq, hv⟩ | ⟨heq, -⟩
    · cases heq
      exact hv
    · cases heq
  rw [(tracks_of_reachable hs₁ n).value] at hsent
  have hlife : life D n s₁.trace = .answered response true := by
    cases hlife : life D n s₁.trace with
    | answered response' delivered' =>
      rw [hlife] at hsent
      cases delivered' with
      | true =>
        cases hsent
        rfl
      | false => cases hsent
    | _ =>
      rw [hlife] at hsent
      cases hsent
  exact (responded_of_answered hs₁ hlife).later (.head ⟨_, trivial, hl⟩ hlater)

end Runs

end Terrashine.Analysis
