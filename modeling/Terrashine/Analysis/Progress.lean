import Terrashine.Analysis.MessageLife

/-!
# The refresher makes progress

A refresh makes at most four calls, the treatment of a message at most seven, and with the
call that takes it out of the channel each message costs the refresher eight.  So a message
with `j` others before it is done with after at most `8 * (j + 1)` calls and those of the
message in hand, whatever the other tasks do meanwhile: `Owes` counts them, and `Owes.run` is
the bound.  As long as it has not panicked, the refresher is never kept from taking its next
step while a message waits: `refresher_moves`.
-/

set_option autoImplicit false

namespace Terrashine.Analysis

open Terrashine.Library Terrashine.Model Terrashine.Interface

/-! ## How many calls the refresher makes -/

section Bounds

variable {deps : Externals} {port refreshInterval : ℕ}

/-- The `?` operator makes no call of its own. -/
theorem callsAtMost_tryCall {ε ε' α : Type} {into : ε → ε'} {p : Io (Except ε α)} {n : ℕ}
    (hp : p.CallsAtMost n) : (tryCall into p).run.CallsAtMost n := by
  rw [run_tryCall]
  apply hp.bind (n := 0)
  intro r
  cases r <;> exact (Prog.callsAtMost_pure _ _).mpr trivial

/-- A single call is one. -/
theorem callsAtMost_one (c : Call) : (perform c).CallsAtMost 1 := Prog.callsAtMost_perform c

/-- A result that is known makes no call. -/
theorem callsAtMost_liftResult {ε α : Type} (r : Except ε α) (n : ℕ) :
    (liftResult r).run.CallsAtMost n := (Prog.callsAtMost_done r n).mpr trivial

/-- `pure` makes no call. -/
theorem callsAtMost_run_pure {ε α : Type} (a : α) (n : ℕ) :
    (pure a : ExceptT ε Io α).run.CallsAtMost n :=
  (Prog.callsAtMost_pure (Except.ok a) n).mpr trivial

/-- A request is sent once. -/
theorem callsAtMost_sendRequest (builder : RequestBuilder) :
    (sendRequest builder).run.CallsAtMost 1 := by
  unfold sendRequest
  apply Prog.CallsAtMost.run_bind (m := 0) (n := 1)
  · exact callsAtMost_liftResult _ 0
  intro request
  apply Prog.CallsAtMost.run_bind (m := 1) (n := 0)
  · exact callsAtMost_tryCall (callsAtMost_one (.httpGet request))
  · exact fun response => callsAtMost_liftResult _ 0

/-- A token is looked up once. -/
theorem callsAtMost_transform (request : RequestBuilder) (hostname : Text) :
    (databaseCredentials.transform request hostname).run.CallsAtMost 1 := by
  unfold CredentialHelper.transform databaseCredentials
  apply Prog.CallsAtMost.run_bind (m := 1) (n := 0)
  · apply Prog.CallsAtMost.run_bind (m := 1) (n := 0)
    · exact callsAtMost_tryCall (callsAtMost_one (.selectAuthToken hostname))
    · intro row
      cases row <;> exact callsAtMost_run_pure _ 0
  · intro credential
    rcases credential with _ | (_ | token) <;> exact callsAtMost_run_pure _ 0

/-- A discovery makes at most one call. -/
theorem callsAtMost_discoverServices (registry : RegistryClient) (hostname : Text) :
    (discoverServices deps registry hostname).run.CallsAtMost 1 := by
  unfold discoverServices
  refine Prog.CallsAtMost.run_bind (m := 0) (n := 1) ?_ fun url => ?_
  · rw [ExceptT.run_lift]
    apply Prog.CallsAtMost.map
    unfold expect
    split
    · exact (Prog.callsAtMost_done _ 0).mpr trivial
    · exact (Prog.callsAtMost_panicked _ 0).mpr trivial
  · exact (callsAtMost_tryCall (callsAtMost_sendRequest _)).run_bind (n := 0)
      fun response => callsAtMost_liftResult _ 0

/-- A request to a registry makes at most three calls. -/
theorem callsAtMost_providerGet {A : Type} (decode : Bytes → Option A) (hostname path : Text) :
    (providerGet deps decode (databaseRegistry port) hostname path).run.CallsAtMost 3 := by
  unfold providerGet
  refine (callsAtMost_discoverServices _ _).run_bind (n := 2) fun services => ?_
  cases services.providersV1 with
  | none => exact callsAtMost_liftResult _ 2
  | some baseUrl =>
    refine (callsAtMost_liftResult _ 0).run_bind (n := 2) fun url => ?_
    refine (callsAtMost_tryCall (callsAtMost_transform _ _)).run_bind (n := 1) fun request => ?_
    exact (callsAtMost_tryCall (callsAtMost_sendRequest _)).run_bind (n := 0)
      fun response => callsAtMost_liftResult _ 0

/-- A refresh makes at most four calls. -/
theorem callsAtMost_refreshVersions (p : TerraformProvider) :
    (refreshVersions deps (databaseRegistry port) p).run.CallsAtMost 4 := by
  unfold refreshVersions
  refine (callsAtMost_providerGet _ _ _).run_bind (n := 1) fun versions => ?_
  exact (callsAtMost_tryCall (callsAtMost_one _)).run_bind (n := 0)
    fun stored => callsAtMost_run_pure _ 0

/-- An answer is one response at most. -/
theorem callsAtMost_answer (channel : Option ℕ) (response : RefreshResponse) :
    ((refresherOps deps (databaseRegistry port)).answer channel response).CallsAtMost 1 := by
  unfold RefresherOps.answer
  cases channel with
  | none => exact (Prog.callsAtMost_pure _ 1).mpr trivial
  | some sender =>
    exact (callsAtMost_one (.respond sender response)).bind (n := 0)
      fun delivered => (Prog.callsAtMost_pure _ 0).mpr trivial

/-- **The treatment of a message makes at most seven calls.** -/
theorem callsAtMost_handleMessage (lastRefresh : LastRefresh) (message : RefreshRequest) :
    (handleMessage (refresherOps deps (databaseRegistry port)) refreshInterval lastRefresh
      message).CallsAtMost 7 := by
  have hclock : (refresherOps deps (databaseRegistry port)).instantNow.CallsAtMost 1 :=
    callsAtMost_one .instantNow
  have hrefresh : ((refresherOps deps (databaseRegistry port)).refreshVersions
      message.provider).CallsAtMost 4 := callsAtMost_refreshVersions message.provider
  have hanswer : ∀ response, ((refresherOps deps (databaseRegistry port)).answer
      message.responseChannel response).CallsAtMost 1 := fun response => callsAtMost_answer _ _
  have hpure : ∀ lastRefresh' : LastRefresh, (pure lastRefresh' : Io LastRefresh).CallsAtMost 0 :=
    fun lastRefresh' => (Prog.callsAtMost_pure lastRefresh' 0).mpr trivial
  unfold handleMessage
  split
  · unfold refreshVacant
    have henter : ∀ result, (enterVacant (refresherOps deps (databaseRegistry port)) lastRefresh
        message.provider result).CallsAtMost 1 := by
      intro result
      unfold enterVacant
      cases result with
      | ok versions => exact hclock.bind (n := 0) fun now => hpure _
      | error err => exact (hpure _).mono (by omega)
    have hbound := hrefresh.bind (n := 2) fun result => (henter result).bind (n := 1)
      fun lastRefresh' => (hanswer (.refreshPerformed result)).bind (n := 0)
        fun _ => hpure lastRefresh'
    exact hbound.mono (by omega)
  · refine hclock.bind (n := 6) fun now => ?_
    split
    · unfold refreshStale
      refine hrefresh.bind (n := 2) fun result => ?_
      refine hclock.bind (n := 1) fun completed => ?_
      exact (hanswer _).bind (n := 0) fun _ => hpure _
    · unfold answerFresh
      have hbound := (hanswer .providerVersionNotStale).bind (n := 0) fun _ => hpure lastRefresh
      exact hbound.mono (by omega)

/-- The calls in the course of one message take no other one out of the channel. -/
def WithinRound (c : Call) : Prop := c ≠ .recvOrCancelled

/-- Answering a message takes none out of the channel. -/
theorem calls_answer (channel : Option ℕ) (response : RefreshResponse) :
    ((refresherOps deps (databaseRegistry port)).answer channel response).Calls WithinRound := by
  unfold RefresherOps.answer
  cases channel with
  | none => exact (Prog.calls_pure _ _).mpr trivial
  | some sender =>
    refine Prog.calls_bind ((Prog.calls_perform _ _).mpr ?_) fun _ => (Prog.calls_pure _ _).mpr trivial
    intro h
    cases h

/-- The treatment of a message takes no other one out of the channel. -/
theorem calls_handleMessage (lastRefresh : LastRefresh) (message : RefreshRequest) :
    (handleMessage (refresherOps deps (databaseRegistry port)) refreshInterval lastRefresh
      message).Calls WithinRound := by
  have hclock : (refresherOps deps (databaseRegistry port)).instantNow.Calls WithinRound := by
    refine (Prog.calls_perform _ _).mpr ?_
    intro h
    cases h
  have hrefresh : ((refresherOps deps (databaseRegistry port)).refreshVersions
      message.provider).Calls WithinRound := by
    refine Prog.calls_mono ?_ (calls_refreshVersions deps port message.provider)
    rintro c hc rfl
    exact hc
  have hpure : ∀ lastRefresh' : LastRefresh, (pure lastRefresh' : Io LastRefresh).Calls WithinRound :=
    fun lastRefresh' => (Prog.calls_pure _ _).mpr trivial
  unfold handleMessage
  split
  · unfold refreshVacant
    refine Prog.calls_bind hrefresh fun result => ?_
    refine Prog.calls_bind ?_ fun lastRefresh' => ?_
    · unfold enterVacant
      cases result with
      | ok versions => exact Prog.calls_bind hclock fun now => hpure _
      | error err => exact hpure _
    · exact Prog.calls_bind (calls_answer _ _) fun _ => hpure _
  · refine Prog.calls_bind hclock fun now => ?_
    split
    · unfold refreshStale
      refine Prog.calls_bind hrefresh fun result => ?_
      refine Prog.calls_bind hclock fun completed => ?_
      exact Prog.calls_bind (calls_answer _ _) fun _ => hpure _
    · unfold answerFresh
      exact Prog.calls_bind (calls_answer _ _) fun _ => hpure _

end Bounds

/-! ## Where the refresher stands -/

/-- The refresher makes at most `r` more calls before it turns to the channel again. -/
inductive Standing (D : Deployment) (k : ℕ) : Thread Call Call.Ret Answer → ℕ → Prop
  | waiting : Standing D k .waiting 0
  | fresh (lastRefresh : LastRefresh) : Standing D k (.running (D.refresherRound k lastRefresh)) 0
  | within {p : Io Answer} {r : ℕ} : p.CallsAtMost r → p.Calls WithinRound →
      Standing D k (.running p) r
  | finished (a : Answer) : Standing D k (.finished a) 0
  | dropped : Standing D k .dropped 0

section Standing

variable {D : Deployment} {k r : ℕ} {s s' : DeploymentState}

/-- A call of the refresher takes a message out of the channel, or uses up one of its calls. -/
theorem Standing.call {c : Call} {next : c.Ret → Io Answer}
    (h : Standing D k (.running (.call c next)) r) (answer : c.Ret) :
    (c = .recvOrCancelled ∧ Standing D k (.running (next answer)) 7) ∨
      c ≠ .recvOrCancelled ∧ ∃ r', r = r' + 1 ∧ Standing D k (.running (next answer)) r' := by
  generalize ht : (Thread.running (Prog.call c next) : Thread Call Call.Ret Answer) = t at h
  cases h with
  | fresh lastRefresh =>
    left
    obtain ⟨next', hround, hmessage, hcancelled⟩ : ∃ next',
        D.refresherRound k lastRefresh = Prog.call .recvOrCancelled next' ∧
        (∀ message, next' (some message) = Answer.refresher <$>
          (handleMessage (refresherOps D.deps (D.registry k)) (D.args k).refreshInterval
            lastRefresh message >>= fun lastRefresh' => pure (some lastRefresh'))) ∧
        next' none = Answer.refresher <$> (perform .dropReceiver >>= fun _ => pure none) :=
      ⟨_, rfl, fun _ => rfl, rfl⟩
    rw [hround] at ht
    cases ht
    refine ⟨rfl, ?_⟩
    cases answer with
    | some message =>
      rw [hmessage]
      refine .within ?_ ?_
      · exact ((callsAtMost_handleMessage _ _).bind (n := 0)
          fun _ => (Prog.callsAtMost_pure _ 0).mpr trivial).map _
      · exact calls_map _ (Prog.calls_bind (calls_handleMessage _ _)
          fun _ => (Prog.calls_pure _ _).mpr trivial)
    | none =>
      rw [hcancelled]
      refine .within ?_ ?_
      · have hone : (perform .dropReceiver >>= fun _ => (pure none : Io (Option LastRefresh))).CallsAtMost
            1 := (callsAtMost_one .dropReceiver).bind (n := 0)
              fun _ => (Prog.callsAtMost_pure _ 0).mpr trivial
        exact (hone.mono (by omega)).map _
      · refine calls_map _ (Prog.calls_bind ((Prog.calls_perform _ _).mpr ?_)
          fun _ => (Prog.calls_pure _ _).mpr trivial)
        intro h
        cases h
  | within hbound hcalls =>
    cases ht
    right
    obtain ⟨r', rfl, hnext⟩ := (Prog.callsAtMost_call _ _ _).mp hbound
    obtain ⟨hc, hcalls'⟩ := (Prog.calls_call _ _ _).mp hcalls
    exact ⟨hc, r', rfl, .within (hnext answer) (hcalls' answer)⟩
  | _ => cases ht

/-- A step of the refresher that is no call. -/
theorem Standing.silent {l : DeploymentLabel} (hl : D.machine.Step s l s')
    (hown : Label.own (.refresher k) l = none) (h : Standing D k (s.pool (.refresher k)) r) :
    ∃ r', r' ≤ r ∧ Standing D k (s'.pool (.refresher k)) r' := by
  have hother : ∀ (i : Task) (l : DeploymentLabel) (w : World) (t : Thread Call Call.Ret Answer),
      i ≠ .refresher k → ∃ r', r' ≤ r ∧ Standing D k ((s.advance l w i t).pool (.refresher k)) r' := by
    intro i l w t hi
    rw [State.advance_pool_of_ne s l w t hi.symm]
    exact ⟨r, Nat.le_refl r, h⟩
  cases hl with
  | start i w hp hw =>
    by_cases hi : i = .refresher k
    · subst hi
      rw [State.advance_pool_self]
      exact ⟨0, Nat.zero_le r, .fresh ∅⟩
    · exact hother i _ _ _ hi
  | call i c next a applied w hp hw =>
    by_cases hi : i = .refresher k
    · subst hi
      simp [Label.own] at hown
    · exact hother i _ _ _ hi
  | pick i next b hp =>
    by_cases hi : i = .refresher k
    · subst hi
      rw [State.advance_pool_self]
      rw [hp] at h
      generalize ht : (Thread.running (Prog.pick next) : Thread Call Call.Ret Answer) = t at h
      cases h with
      | within hbound hcalls =>
        cases ht
        have hbound' := (Prog.callsAtMost_pick _ _).mp hbound b
        exact ⟨r, Nat.le_refl r, .within hbound' ((Prog.calls_pick _ _).mp hcalls b)⟩
      | fresh lastRefresh => cases ht
      | _ => cases ht
    · exact hother i _ _ _ hi
  | again i a p hp ha =>
    by_cases hi : i = .refresher k
    · subst hi
      rw [State.advance_pool_self]
      have hagain : ∃ lastRefresh, p = D.refresherRound k lastRefresh := by
        cases a with
        | refresher lastRefresh =>
          cases lastRefresh with
          | some lastRefresh =>
            cases ha
            exact ⟨lastRefresh, rfl⟩
          | none => cases ha
        | _ => cases ha
      obtain ⟨lastRefresh, rfl⟩ := hagain
      exact ⟨0, Nat.zero_le r, .fresh lastRefresh⟩
    · exact hother i _ _ _ hi
  | finish i a hp ha =>
    by_cases hi : i = .refresher k
    · subst hi
      rw [State.advance_pool_self]
      exact ⟨0, Nat.zero_le r, .finished a⟩
    · exact hother i _ _ _ hi
  | drop i p w hp hw =>
    by_cases hi : i = .refresher k
    · subst hi
      rw [State.advance_pool_self]
      exact ⟨0, Nat.zero_le r, .dropped⟩
    · exact hother i _ _ _ hi
  | env m w hw => exact ⟨r, Nat.le_refl r, h⟩

/-- A call of the refresher, as it stands in the trace. -/
theorem Standing.step {c : Call} {a : c.Ret} {applied : Bool}
    (hl : D.machine.Step s (.call (.refresher k) ⟨c, a⟩ applied) s')
    (h : Standing D k (s.pool (.refresher k)) r) :
    (c = .recvOrCancelled ∧ Standing D k (s'.pool (.refresher k)) 7) ∨
      c ≠ .recvOrCancelled ∧ ∃ r', r = r' + 1 ∧ Standing D k (s'.pool (.refresher k)) r' := by
  cases hl with
  | call i c next a applied w hp hw =>
    rw [hp] at h
    rw [State.advance_pool_self]
    exact h.call a

/-- **In every reachable state the refresher stands somewhere in a round.** -/
theorem standing_of_reachable (hs : D.Reachable s) :
    ∃ r, r ≤ 7 ∧ Standing D k (s.pool (.refresher k)) r := by
  refine Machine.invariant (I := fun s => ∃ r, r ≤ 7 ∧ Standing D k (s.pool (.refresher k)) r)
    ⟨0, by omega, .waiting⟩ ?_ hs
  rintro s l s' - ⟨r, hr, hstanding⟩ - hl
  cases hown : Label.own (.refresher k) l with
  | none =>
    obtain ⟨r', hr', hstanding'⟩ := hstanding.silent hl hown
    exact ⟨r', by omega, hstanding'⟩
  | some ev =>
    obtain ⟨applied, rfl⟩ := Label.own_eq_some.mp hown
    obtain ⟨c, a⟩ := ev
    rcases hstanding.step hl with ⟨-, hstanding'⟩ | ⟨-, r', rfl, hstanding'⟩
    · exact ⟨7, by omega, hstanding'⟩
    · exact ⟨r', by omega, hstanding'⟩

end Standing

/-! ## How long a message waits -/

section Waiting

variable {D : Deployment} {s s' : DeploymentState} {l : DeploymentLabel} {n : ℕ}

/-- Only a refresher takes messages and drops the receiver. -/
theorem refresher_of_call (hs : D.Reachable s) {i : Task} {c : Call} {r : c.Ret} {applied : Bool}
    (hl : D.machine.Step s (.call i ⟨c, r⟩ applied) s')
    (hc : c = .recvOrCancelled ∨ c = .dropReceiver) : ∃ k, i = .refresher k := by
  have hallowed := (channelProtocol_obeyed D).allowed_step hs hl
  cases i with
  | refresher k => exact ⟨k, rfl⟩
  | server k =>
    exfalso
    rcases hallowed.2 with hserver | hserver <;> rcases hc with rfl | rfl <;> cases hserver
  | request j =>
    exfalso
    obtain ⟨hindex, hother⟩ := hallowed
    by_cases hroute : ∃ p, (D.requests j).route = .index p
    · obtain ⟨p, hp⟩ := hroute
      have hcall := hindex p hp
      generalize s.history (.request j) = h at hcall
      rcases hc with rfl | rfl <;> cases hcall
    · push Not at hroute
      have haway := hother hroute
      rcases hc with rfl | rfl <;> cases haway

/-- A message is taken from the front. -/
theorem queue_taken {k : ℕ} {message : RefreshRequest} {applied : Bool}
    (hl : D.machine.Step s (.call (.refresher k) ⟨.recvOrCancelled, some message⟩ applied) s') :
    (s.world.instances k).queue = message :: (s'.world.instances k).queue := by
  have hw := perform_of_step hl
  rcases perform_recvOrCancelled hw with ⟨message', rest, heq, hqueue, hworld⟩ | ⟨heq, -, -⟩
  · cases heq
    have hrest : (s'.world.instances k).queue = rest := by
      rw [hworld]
      simp [World.setInstance, Deployment.instanceOf]
    rw [hrest]
    exact hqueue
  · cases heq

/-- Only the refresher takes messages out of its channel; everybody else appends. -/
theorem queue_grows (hs : D.Reachable s) (hl : D.machine.Step s l s') {k : ℕ}
    (hrecv : ∀ message applied,
      l ≠ .call (.refresher k) ⟨.recvOrCancelled, some message⟩ applied)
    (hdrop : ∀ applied, l ≠ .call (.refresher k) ⟨.dropReceiver, ()⟩ applied) :
    ∃ added, (s'.world.instances k).queue = (s.world.instances k).queue ++ added := by
  have hsame : (s'.world.instances k).queue = (s.world.instances k).queue →
      ∃ added, (s'.world.instances k).queue = (s.world.instances k).queue ++ added := by
    intro heq
    exact ⟨[], by rw [heq, List.append_nil]⟩
  rcases step_cases hl with ⟨i, ⟨c, r⟩, applied, rfl, hw⟩ | hq
  · have hframe := perform_frame hw
    have hother : ∀ k', k' ≠ k → ∀ i : Instance,
        ((s.world.setInstance k' i).instances k).queue = (s.world.instances k).queue := by
      intro k' hk i
      simp [World.setInstance, hk.symm]
    have henqueue : ∀ k' message, s.world.enqueue k' message = some s'.world →
        ∃ added, (s'.world.instances k).queue = (s.world.instances k).queue ++ added := by
      intro k' message he
      obtain ⟨-, heq⟩ := enqueue_eq_some he
      rw [heq]
      by_cases hk : k' = k
      · subst hk
        exact ⟨[message], by simp [World.setInstance]⟩
      · exact ⟨[], by rw [hother k' hk, List.append_nil]⟩
    have haway : onInstances c = false →
        ∃ added, (s'.world.instances k).queue = (s.world.instances k).queue ++ added := by
      intro hc
      apply hsame
      rw [hframe.instances hc]
    cases c with
    | trySend message =>
      rcases perform_trySend hw with ⟨-, he⟩ | ⟨-, heq⟩
      · exact henqueue _ _ he
      · exact hsame (by rw [heq])
    | sendTimeout message seconds =>
      rcases perform_sendTimeout hw with ⟨-, he⟩ | ⟨-, heq⟩
      · exact henqueue _ _ he
      · exact hsame (by rw [heq])
    | recvOrCancelled =>
      obtain ⟨k', rfl⟩ := refresher_of_call hs hl (.inl rfl)
      apply hsame
      rcases perform_recvOrCancelled hw with ⟨message, rest, rfl, -, heq⟩ | ⟨rfl, -, heq⟩
      · rw [heq]
        apply hother k'
        rintro rfl
        exact hrecv message applied rfl
      · rw [heq]
    | dropReceiver =>
      obtain ⟨k', rfl⟩ := refresher_of_call hs hl (.inr rfl)
      apply hsame
      have heq : s'.world = s.world.dropReceiver k' := (Option.some.inj hw).symm
      rw [heq]
      refine hother k' ?_ _
      rintro rfl
      exact hdrop applied rfl
    | respond channel response =>
      obtain ⟨-, heq⟩ := respond_eq_some hw
      exact hsame (by rw [heq]; rfl)
    | acceptOrCancelled =>
      apply hsame
      rcases perform_acceptOrCancelled hw with ⟨-, heq⟩ | ⟨-, -, heq⟩
      · rw [heq]
        by_cases hk : D.instanceOf i = k
        · subst hk
          simp [World.setInstance]
        · exact hother _ hk _
      · rw [heq]
    | _ => exact haway rfl
  · exact hsame (hq.queue k)

/-- The message of request `n` has been answered, or discarded with the queue. -/
def Settled (D : Deployment) (s : DeploymentState) (n : ℕ) : Prop :=
  (∃ response delivered, life D n s.trace = .answered response delivered) ∨
    life D n s.trace = .discarded

/-- The message of request `n` is settled by the time its refresher has made more than `m`
further calls. -/
inductive Owes (D : Deployment) (s : DeploymentState) (n : ℕ) : ℕ → Prop
  | settled (m : ℕ) : Settled D s n → Owes D s n m
  | inHand {message : RefreshRequest} {r m : ℕ} : life D n s.trace = .inHand message →
      Standing D (D.requests n).instanceId
        (s.pool (.refresher (D.requests n).instanceId)) r → r ≤ m → Owes D s n m
  | queued {message : RefreshRequest} {front back : List RefreshRequest} {r m : ℕ} :
      life D n s.trace = .queued message →
      (s.world.instances (D.requests n).instanceId).queue = front ++ message :: back →
      Standing D (D.requests n).instanceId
        (s.pool (.refresher (D.requests n).instanceId)) r →
      r + 8 * (front.length + 1) ≤ m → Owes D s n m

/-- The refresher does not take the cancellation while the message of request `n` waits. -/
def Spares (D : Deployment) (n : ℕ) (s : DeploymentState) (l : DeploymentLabel) : Prop :=
  ∀ applied, l = .call (.refresher (D.requests n).instanceId) ⟨.recvOrCancelled, none⟩ applied →
    ∀ message, life D n s.trace ≠ .queued message

/-- A message that is settled stays settled. -/
theorem Settled.step (hs : D.Reachable s) (hl : D.machine.Step s l s') (h : Settled D s n) :
    Settled D s' n := by
  have hmoves := lifeStep (n := n) hs hl
  unfold Settled
  rcases h with ⟨response, delivered, hlife⟩ | hlife
  · rw [hlife] at hmoves
    generalize life D n s'.trace = after at hmoves
    cases hmoves with
    | stays => exact .inl ⟨response, delivered, rfl⟩
  · rw [hlife] at hmoves
    generalize life D n s'.trace = after at hmoves
    cases hmoves with
    | stays => exact .inr rfl

/-- A step that is no call of the refresher. -/
theorem Owes.silent {m : ℕ} (hs : D.Reachable s) (hl : D.machine.Step s l s')
    (hown : Label.own (.refresher (D.requests n).instanceId) l = none) (h : Owes D s n m) :
    Owes D s' n m := by
  have hnocall : ∀ ev applied, l ≠ .call (.refresher (D.requests n).instanceId) ev applied := by
    rintro ev applied rfl
    simp [Label.own] at hown
  have hmoves := lifeStep (n := n) hs hl
  cases h with
  | settled m hsettled => exact .settled m (hsettled.step hs hl)
  | inHand hlife hstanding hr =>
    obtain ⟨r', hr', hstanding'⟩ := hstanding.silent hl hown
    rw [hlife] at hmoves
    generalize hafter : life D n s'.trace = after at hmoves
    cases hmoves with
    | stays => exact .inHand hafter hstanding' (by omega)
    | answers message response delivered applied hcall => exact absurd hcall (hnocall _ _)
  | queued hlife hqueue hstanding hr =>
    obtain ⟨r', hr', hstanding'⟩ := hstanding.silent hl hown
    rw [hlife] at hmoves
    generalize hafter : life D n s'.trace = after at hmoves
    cases hmoves with
    | stays =>
      obtain ⟨added, hadded⟩ := queue_grows hs hl (fun message applied => hnocall _ _)
        fun applied => hnocall _ _
      rw [hqueue, List.append_assoc, List.cons_append] at hadded
      exact .queued hafter hadded hstanding' (by omega)
    | takes message applied hcall => exact absurd hcall (hnocall _ _)
    | discards message applied hcall => exact absurd hcall (hnocall _ _)

/-- A call of the refresher brings the message one call closer to its answer. -/
theorem Owes.call {m : ℕ} {c : Call} {a : c.Ret} {applied : Bool} (hs : D.Reachable s)
    (hl : D.machine.Step s (.call (.refresher (D.requests n).instanceId) ⟨c, a⟩ applied) s')
    (hspares : Spares D n s (.call (.refresher (D.requests n).instanceId) ⟨c, a⟩ applied))
    (h : Owes D s n m) : Settled D s' n ∨ ∃ m', m = m' + 1 ∧ Owes D s' n m' := by
  have hmoves := lifeStep (n := n) hs hl
  have htracks := tracks_of_reachable hs n
  cases h with
  | settled m hsettled => exact .inl (hsettled.step hs hl)
  | inHand hlife hstanding hr =>
    rw [hlife] at hmoves
    generalize hafter : life D n s'.trace = after at hmoves
    cases hmoves with
    | answers message response delivered applied hcall =>
      exact .inl (.inl ⟨response, delivered, hafter⟩)
    | stays =>
      right
      rcases hstanding.step hl with ⟨rfl, -⟩ | ⟨-, r', rfl, hstanding'⟩
      · -- it would take another message while this one is in hand
        exfalso
        obtain ⟨-, hfree⟩ := (channelProtocol_obeyed D).allowed_step hs hl
        obtain ⟨hhand, hchannel⟩ := (htracks.hand _ _).mpr ⟨rfl, hlife⟩
        have hnone := hfree _ hhand
        rw [hchannel] at hnone
        cases hnone
      · exact ⟨m - 1, by omega, .inHand hafter hstanding' (by omega)⟩
  | @queued message front back r m hlife hqueue hstanding hr =>
    rw [hlife] at hmoves
    generalize hafter : life D n s'.trace = after at hmoves
    cases hmoves with
    | discards _ _ hcall => exact .inl (.inr hafter)
    | takes _ applied' hcall =>
      right
      cases hcall
      rcases hstanding.step hl with ⟨-, hstanding'⟩ | ⟨hc, -⟩
      · exact ⟨m - 1, by omega, .inHand hafter hstanding' (by omega)⟩
      · exact absurd rfl hc
    | stays =>
      right
      rcases hstanding.step hl with ⟨rfl, hstanding'⟩ | ⟨hc, r', rfl, hstanding'⟩
      · cases a with
        | none => exact absurd hlife (hspares applied rfl message)
        | some message' =>
          have htaken := queue_taken hl
          rw [hqueue] at htaken
          cases front with
          | nil =>
            -- it would be in hand
            exfalso
            have hchannel : message.responseChannel = some n := by
              obtain ⟨p, -, rfl⟩ := htracks.own message (.inl hlife)
              rfl
            rw [life_call hl, ← (List.cons.inj htaken).1] at hafter
            have hinHand : (life D n s.trace).afterCall n (D.requests n).instanceId
                (D.instanceOf (.refresher (D.requests n).instanceId))
                ⟨.recvOrCancelled, some message⟩ = .inHand message := if_pos hchannel
            rw [hinHand] at hafter
            cases hafter
          | cons x front =>
            rw [List.length_cons] at hr
            exact ⟨m - 1, by omega,
              .queued hafter (List.cons.inj htaken).2.symm hstanding' (by omega)⟩
      · have hdrop : ∀ applied', (.call (.refresher (D.requests n).instanceId) ⟨c, a⟩ applied :
            DeploymentLabel) ≠
              .call (.refresher (D.requests n).instanceId) ⟨.dropReceiver, ()⟩ applied' := by
          intro applied' heq
          cases heq
          rw [life_call hl, hlife] at hafter
          have hdiscarded : (Life.queued message).afterCall n (D.requests n).instanceId
              (D.instanceOf (.refresher (D.requests n).instanceId)) ⟨.dropReceiver, ()⟩ =
                .discarded := if_pos rfl
          rw [hdiscarded] at hafter
          cases hafter
        obtain ⟨added, hadded⟩ := queue_grows hs hl (by
          intro message' applied' heq
          cases heq
          exact hc rfl) hdrop
        rw [hqueue, List.append_assoc, List.cons_append] at hadded
        exact ⟨m - 1, by omega, .queued hafter hadded hstanding' (by omega)⟩

/-- **A message is settled after a bounded number of calls of its refresher**, whatever the
other tasks do meanwhile. -/
theorem Owes.run {m : ℕ} (hs : D.Reachable s) (h : Owes D s n m)
    (hrun : D.machine.Run (Spares D n) s s')
    (hcalls : (s.history (.refresher (D.requests n).instanceId)).length + m <
      (s'.history (.refresher (D.requests n).instanceId)).length) : Settled D s' n := by
  have hinvariant : Settled D s' n ∨ ∃ m', Owes D s' n m' ∧
      (s'.history (.refresher (D.requests n).instanceId)).length + m' =
        (s.history (.refresher (D.requests n).instanceId)).length + m := by
    clear hcalls
    induction hrun with
    | refl => exact .inr ⟨m, h, rfl⟩
    | @tail s₁ s₂ hr hstep ih =>
      obtain ⟨l, hspares, hl⟩ := hstep
      have hs₁ : D.Reachable s₁ := hs.trans (Machine.Run.mono (fun _ _ _ => trivial) hr)
      rcases ih with hsettled | ⟨m', howes, hlength⟩
      · exact .inl (hsettled.step hs₁ hl)
      · have hhistory := hl.history (.refresher (D.requests n).instanceId)
        cases hown : Label.own (.refresher (D.requests n).instanceId) l with
        | none =>
          rw [hown] at hhistory
          refine .inr ⟨m', howes.silent hs₁ hl hown, ?_⟩
          rw [hhistory]
          simpa using hlength
        | some ev =>
          rw [hown] at hhistory
          obtain ⟨applied, rfl⟩ := Label.own_eq_some.mp hown
          rcases howes.call hs₁ hl hspares with hsettled | ⟨m'', rfl, howes'⟩
          · exact .inl hsettled
          · refine .inr ⟨m'', howes', ?_⟩
            rw [hhistory]
            simp
            omega
  rcases hinvariant with hsettled | ⟨m', -, hlength⟩
  · exact hsettled
  · omega

/-- What a message in the queue owes. -/
theorem owes_of_queued (hs : D.Reachable s) {message : RefreshRequest}
    (hlife : life D n s.trace = .queued message) :
    Owes D s n (8 * ((s.world.instances (D.requests n).instanceId).queue.length + 1)) := by
  have hmail := (tracks_of_reachable hs n).mail (D.requests n).instanceId
  rw [if_pos rfl, hlife] at hmail
  have hmem : message ∈ mailFor s.world (D.requests n).instanceId n := by
    rw [hmail]
    exact List.mem_singleton_self message
  unfold mailFor at hmem
  obtain ⟨front, back, hqueue⟩ := List.append_of_mem (List.mem_filter.mp hmem).1
  obtain ⟨r, hr, hstanding⟩ := standing_of_reachable (k := (D.requests n).instanceId) hs
  refine .queued hlife hqueue hstanding ?_
  rw [hqueue, List.length_append, List.length_cons]
  omega

/-- What the message in hand owes. -/
theorem owes_of_inHand (hs : D.Reachable s) {message : RefreshRequest}
    (hlife : life D n s.trace = .inHand message) : Owes D s n 7 := by
  obtain ⟨r, hr, hstanding⟩ := standing_of_reachable (k := (D.requests n).instanceId) hs
  exact .inHand hlife hstanding hr

end Waiting

/-! ## The refresher is never kept from its next step -/

section Moves

variable {D : Deployment} {s : DeploymentState} {n k : ℕ}

/-- A refresher that has ended has seen the cancellation. -/
def stopProtocol : Machine.Protocol Task Call Call.Ret Answer where
  allows _ _ _ := True
  ensures i a h := match i with
    | .refresher _ => ∃ lastRefresh, a = .refresher lastRefresh ∧
        (lastRefresh = none → (⟨.recvOrCancelled, none⟩ : IoEvent) ∈ h)
    | _ => True

/-- Every refresher that ends has seen the cancellation. -/
theorem stopProtocol_obeyed (D : Deployment) : D.machine.Obeys stopProtocol := by
  have hround : ∀ k lastRefresh h, (D.refresherRound k lastRefresh).wp
      (stopProtocol.allows (.refresher k)) (stopProtocol.ensures (.refresher k)) h := by
    intro k lastRefresh h
    unfold Deployment.refresherRound refresherRound
    rw [Prog.wp_map, perform_def, Prog.call_bind, Prog.wp_call]
    refine ⟨trivial, fun r => ?_⟩
    cases r with
    | none =>
      show Prog.wp _ _ (perform .dropReceiver >>= fun _ => pure none) _
      rw [perform_def, Prog.call_bind, Prog.wp_call]
      refine ⟨trivial, fun u => (Prog.wp_pure _).mpr ⟨none, rfl, fun _ => ?_⟩⟩
      simp
    | some message =>
      show Prog.wp _ _ (handleMessage _ _ _ _ >>= fun lastRefresh' => pure (some lastRefresh')) _
      rw [Prog.wp_bind]
      refine Prog.wp_trivial (fun _ _ => trivial) (fun lastRefresh' h' => ?_) _
      refine (Prog.wp_pure _).mpr ⟨some lastRefresh', rfl, ?_⟩
      intro hnone
      cases hnone
  constructor
  · intro i
    cases i with
    | request n => exact Prog.wp_trivial (fun _ _ => trivial) (fun _ _ => trivial) _
    | refresher k => exact hround k ∅ []
    | server k => exact Prog.wp_trivial (fun _ _ => trivial) (fun _ _ => trivial) _
  · intro i a p h _ hagain
    cases i with
    | request n => cases hagain
    | refresher k =>
      cases a with
      | refresher lastRefresh =>
        cases lastRefresh with
        | some lastRefresh =>
          cases hagain
          exact hround k lastRefresh h
        | none => cases hagain
      | _ => cases hagain
    | server k => exact Prog.wp_trivial (fun _ _ => trivial) (fun _ _ => trivial) _

/-- A refresher is never dropped. -/
theorem not_dropped (hs : D.Reachable s) : s.pool (.refresher k) ≠ .dropped := by
  refine Machine.invariant (I := fun s => s.pool (.refresher k) ≠ .dropped) (by simp) ?_ hs
  intro s l s' _ ih _ hl
  have hmoved : ∀ (i : Task) (l : DeploymentLabel) (w : World) (t : Thread Call Call.Ret Answer),
      (i = .refresher k → t ≠ .dropped) → (s.advance l w i t).pool (.refresher k) ≠ .dropped := by
    intro i l w t ht
    by_cases hi : i = .refresher k
    · subst hi
      rw [State.advance_pool_self]
      exact ht rfl
    · rw [State.advance_pool_of_ne s l w t (Ne.symm hi)]
      exact ih
  cases hl with
  | drop i p w hp hw =>
    apply hmoved
    rintro rfl
    cases hw
  | env m w hw => exact ih
  | _ => exact hmoved _ _ _ _ fun _ => by simp

/-- A step of task `i`. -/
def IsStepOf (i : Task) : DeploymentLabel → Prop
  | .start j => j = i
  | .call j _ _ => j = i
  | .pick j _ => j = i
  | .again j => j = i
  | .finish j => j = i
  | .drop j => j = i
  | .env _ => False

/-- Every call of the refresher can be answered, the one for a message when there is one. -/
theorem call_answered {deps : Externals} {port : ℕ} {h : List IoEvent} {c : Call} (w : World)
    (hcall : RefresherCall deps port h c)
    (hqueue : c = .recvOrCancelled → (w.instances k).queue ≠ []) :
    ∃ (a : c.Ret) (w' : World), w.perform k none c a false = some w' ∧
      (⟨c, a⟩ : IoEvent) ≠ ⟨.recvOrCancelled, none⟩ := by
  obtain ⟨-, hcall⟩ := hcall
  cases c with
  | recvOrCancelled =>
    cases hmessages : (w.instances k).queue with
    | nil => exact absurd hmessages (hqueue rfl)
    | cons message rest =>
      refine ⟨some message, w.setInstance k { w.instances k with queue := rest }, ?_, by simp⟩
      unfold World.perform
      dsimp only
      rw [hmessages]
      exact if_pos rfl
  | respond channel response =>
    exact ⟨(w.channels channel).listening, w.setChannel channel { w.channels channel with
      value := if (w.channels channel).listening then .sent response else .closed },
      if_pos rfl, by simp⟩
  | dropReceiver => exact ⟨(), w.dropReceiver k, rfl, by simp⟩
  | httpGet request => exact ⟨.error .transport, w, rfl, by simp⟩
  | selectAuthToken hostname => exact ⟨.error .unavailable, w, rfl, by simp⟩
  | storeProviderVersions p response =>
    -- the connection may always fail
    have hfails : ∃ w', w.statement (.databaseError .unavailable)
        (Terrashine.Model.storeProviderVersions none w.clock w.db p response)
        (.error (.databaseError .unavailable)) false = some w' := by
      unfold World.statement
      split
      · exact ⟨_, rfl⟩
      · exact ⟨w, if_pos rfl⟩
    obtain ⟨w', hw'⟩ := hfails
    exact ⟨.error (.databaseError .unavailable), w', hw', by simp⟩
  | instantNow => exact ⟨w.clock, w, if_pos rfl, by simp⟩
  | _ => exact hcall.elim

/-- **As long as it has neither panicked nor seen the cancellation, the refresher can take its
next step while a message waits**, and need not take the cancellation. -/
theorem refresher_moves (hs : D.Reachable s) {message : RefreshRequest}
    (hwaits : life D n s.trace = .queued message ∨ life D n s.trace = .inHand message)
    (hgoing : (⟨.recvOrCancelled, none⟩ : IoEvent) ∉
      s.history (.refresher (D.requests n).instanceId))
    (hsound : ∀ m, s.pool (.refresher (D.requests n).instanceId) ≠ .running (.panicked m)) :
    ∃ l s', D.machine.Step s l s' ∧ IsStepOf (.refresher (D.requests n).instanceId) l ∧
      ∀ applied, l ≠
        .call (.refresher (D.requests n).instanceId) ⟨.recvOrCancelled, none⟩ applied := by
  have htracks := tracks_of_reachable hs n
  generalize hi : Task.refresher (D.requests n).instanceId = i at *
  cases hpool : s.pool i with
  | waiting =>
    subst hi
    exact ⟨_, _, .start s _ s.world hpool rfl, rfl, by simp⟩
  | dropped =>
    subst hi
    exact absurd hpool (not_dropped hs)
  | finished a =>
    exfalso
    have hend := Machine.again_of_finished hs hpool
    have hstop := ((stopProtocol_obeyed D).sound hs i).finished a hpool
    subst hi
    obtain ⟨lastRefresh, rfl, hnone⟩ := hstop
    cases lastRefresh with
    | none => exact hgoing (hnone rfl)
    | some lastRefresh => cases hend
  | running p =>
    cases p with
    | panicked m => exact absurd hpool (hsound m)
    | pick next =>
      subst hi
      exact ⟨_, _, .pick s _ next true hpool, rfl, by simp⟩
    | done a =>
      subst hi
      cases hagain : D.machine.again (.refresher (D.requests n).instanceId) a with
      | none => exact ⟨_, _, .finish s _ a hpool hagain, rfl, by simp⟩
      | some p => exact ⟨_, _, .again s _ a p hpool hagain, rfl, by simp⟩
    | call c next =>
      have hallowed := (channelProtocol_obeyed D).allowed hs hpool
      subst hi
      have hqueue : c = .recvOrCancelled →
          (s.world.instances (D.requests n).instanceId).queue ≠ [] := by
        rintro rfl hnil
        rcases hwaits with hlife | hlife
        · have hmail := htracks.mail (D.requests n).instanceId
          rw [if_pos rfl, hlife] at hmail
          unfold mailFor at hmail
          rw [hnil] at hmail
          cases hmail
        · obtain ⟨hhand, hchannel⟩ := (htracks.hand _ _).mpr ⟨rfl, hlife⟩
          have hnone := hallowed.2 _ hhand
          rw [hchannel] at hnone
          cases hnone
      obtain ⟨a, w, hw, hne⟩ := call_answered s.world hallowed hqueue
      refine ⟨_, _, .call s _ c next a false w hpool hw, rfl, ?_⟩
      intro applied heq
      cases heq
      exact hne rfl

end Moves

end Terrashine.Analysis
