import Terrashine.Analysis.Connections
import Terrashine.Analysis.Progress
import Terrashine.Analysis.Refusals
import Terrashine.Analysis.Responses

/-!
# Shutting down

The accept loop and the refresher of an instance see the cancellation each for itself.  A
refresher that takes it while the message of a request is still in its channel drops the
message, and the request is answered with a broken channel although it had been accepted:
`shutdown_breaks_channel`.  `shutdown_answers` says that this is all that can go wrong.  In
every run in which the refresher only takes the cancellation once the messages that were sent
before it are out of the channel, each of these is answered with its own outcome, after a
bounded number of calls of the refresher.
-/

set_option autoImplicit false

namespace Terrashine.Analysis

open Terrashine.Library Terrashine.Model Terrashine.Interface

/-! ## Messages sent in time -/

/-- The step that puts the message of request `n` into the channel. -/
def Puts (n : ℕ) (l : DeploymentLabel) : Prop :=
  ∃ i message seconds applied, l = .call i ⟨.sendTimeout message seconds, .ok ()⟩ applied ∧
    message.responseChannel = some n

/-- The cancellation of the instance that handles request `n`. -/
def cancellation (D : Deployment) (n : ℕ) : DeploymentLabel :=
  .env (.cancel (D.requests n).instanceId)

/-- The message of request `n` was put into the channel before its instance was cancelled. -/
def SentInTime (D : Deployment) (n : ℕ) (trace : List DeploymentLabel) : Prop :=
  ∃ before l after, trace = before ++ l :: after ∧ Puts n l ∧ cancellation D n ∉ before

/-- The refresher does not take the cancellation before the messages that were sent in time. -/
def DrainsFirst (D : Deployment) (s : DeploymentState) (l : DeploymentLabel) : Prop :=
  ∀ k applied, l = .call (.refresher k) ⟨.recvOrCancelled, none⟩ applied →
    ∀ n, SentInTime D n s.trace →
      ∀ message ∈ (s.world.instances k).queue, message.responseChannel ≠ some n

section InTime

variable {D : Deployment} {n : ℕ} {trace : List DeploymentLabel} {l : DeploymentLabel}

/-- A message that was sent in time stays one. -/
theorem SentInTime.concat (h : SentInTime D n trace) (l : DeploymentLabel) :
    SentInTime D n (trace ++ [l]) := by
  obtain ⟨before, put, after, rfl, hputs, hbefore⟩ := h
  exact ⟨before, put, after ++ [l], by simp, hputs, hbefore⟩

/-- A message is in time from the step that sends it, or has been before. -/
theorem sentInTime_concat (h : SentInTime D n (trace ++ [l])) :
    SentInTime D n trace ∨ Puts n l ∧ cancellation D n ∉ trace := by
  obtain ⟨before, put, after, heq, hputs, hbefore⟩ := h
  rcases List.eq_nil_or_concat' after with rfl | ⟨after, last, rfl⟩
  · obtain ⟨rfl, hlast⟩ := List.append_inj' heq rfl
    cases hlast
    exact .inr ⟨hputs, hbefore⟩
  · left
    have heq' : trace ++ [l] = (before ++ put :: after) ++ [last] := by simpa using heq
    obtain ⟨rfl, -⟩ := List.append_inj' heq' rfl
    exact ⟨before, put, after, rfl, hputs, hbefore⟩

end InTime

/-! ## The cancellation -/

section Cancelled

variable {D : Deployment} {s s' : DeploymentState} {l : DeploymentLabel} {w w' : World} {k : ℕ}

/-- A change of an instance that is no cancellation cancels none. -/
theorem cancelled_setInstance {i : Instance} (hi : i.cancelled = (w.instances k).cancelled)
    (k' : ℕ) : ((w.setInstance k i).instances k').cancelled = (w.instances k').cancelled := by
  by_cases hk : k' = k
  · subst hk
    simpa [World.setInstance] using hi
  · simp [World.setInstance, hk]

/-- No call of a task cancels an instance. -/
theorem cancelled_perform {channel : Option ℕ} {applied : Bool} {c : Call} {r : c.Ret}
    (h : w.perform k channel c r applied = some w') (k' : ℕ) :
    (w'.instances k').cancelled = (w.instances k').cancelled := by
  have hframe := perform_frame h
  have haway : onInstances c = false →
      (w'.instances k').cancelled = (w.instances k').cancelled := by
    intro hc
    rw [hframe.instances hc]
  have henqueue : ∀ message, w.enqueue k message = some w' →
      (w'.instances k').cancelled = (w.instances k').cancelled := by
    intro message he
    obtain ⟨-, rfl⟩ := enqueue_eq_some he
    exact cancelled_setInstance (by rfl) k'
  cases c with
  | trySend message =>
    rcases perform_trySend h with ⟨-, he⟩ | ⟨-, heq⟩
    · exact henqueue _ he
    · rw [heq]
  | sendTimeout message seconds =>
    rcases perform_sendTimeout h with ⟨-, he⟩ | ⟨-, heq⟩
    · exact henqueue _ he
    · rw [heq]
  | recvOrCancelled =>
    rcases perform_recvOrCancelled h with ⟨message, rest, -, -, heq⟩ | ⟨-, -, heq⟩
    · rw [heq]
      exact cancelled_setInstance (by rfl) k'
    · rw [heq]
  | dropReceiver =>
    have heq : w' = w.dropReceiver k := (Option.some.inj h).symm
    rw [heq]
    exact cancelled_setInstance (by rfl) k'
  | acceptOrCancelled =>
    rcases perform_acceptOrCancelled h with ⟨-, heq⟩ | ⟨-, -, heq⟩
    · rw [heq]
      exact cancelled_setInstance (by rfl) k'
    · rw [heq]
  | respond channel response =>
    obtain ⟨-, heq⟩ := respond_eq_some h
    rw [heq]
    rfl
  | _ => exact haway rfl

/-- An instance is cancelled by the environment alone. -/
theorem cancelled_step (hl : D.machine.Step s l s') (k : ℕ)
    (h : (s'.world.instances k).cancelled = true) :
    (s.world.instances k).cancelled = true ∨ l = .env (.cancel k) := by
  have hover : ∀ n w, ((D.requestOver n w).instances k).cancelled = (w.instances k).cancelled :=
    fun n w => cancelled_setInstance (by rfl) k
  cases hl with
  | start i w hp hw =>
    left
    cases i with
    | request n =>
      have hw' : Deployment.start D (.request n) s.world = some w := hw
      unfold Deployment.start at hw'
      dsimp only at hw'
      split at hw'
      · cases hw'
        rw [← h]
        exact (cancelled_setInstance (by rfl) k).symm
      · cases hw'
    | refresher k' =>
      cases hw
      exact h
    | server k' =>
      cases hw
      exact h
  | call i c next r applied w hp hw =>
    left
    have hsame := cancelled_perform hw k
    rw [← hsame]
    exact h
  | pick i next b hp => exact .inl h
  | again i a p hp ha => exact .inl h
  | finish i a hp ha =>
    left
    cases i with
    | request n =>
      rw [← hover n]
      exact h
    | refresher k' => exact h
    | server k' => exact h
  | drop i p w hp hw =>
    left
    cases i with
    | request n =>
      cases hw
      rw [← hover n]
      exact h
    | refresher k' => cases hw
    | server k' => cases hw
  | env m w hw =>
    have hw' : Deployment.envMove m s.world = some w := hw
    cases m with
    | cancel k' =>
      by_cases hk : k = k'
      · subst hk
        exact .inr rfl
      · cases hw'
        simp [World.setInstance, hk] at h
        exact .inl h
    | closeConnection k' =>
      left
      unfold Deployment.envMove at hw'
      dsimp only at hw'
      split at hw'
      · cases hw'
        rw [← h]
        exact (cancelled_setInstance (by rfl) k).symm
      · cases hw'
    | tick elapsed =>
      cases hw'
      exact .inl h
    | skipSequences q =>
      cases hw'
      exact .inl h

/-- A cancelled instance was cancelled by a step of the trace. -/
theorem cancelled_of_reachable (hs : D.Reachable s) (h : (s.world.instances k).cancelled = true) :
    (.env (.cancel k) : DeploymentLabel) ∈ s.trace := by
  revert h
  refine Machine.invariant (I := fun s => (s.world.instances k).cancelled = true →
    (.env (.cancel k) : DeploymentLabel) ∈ s.trace) ?_ ?_ hs
  · intro h
    cases h
  · intro s l s' _ ih _ hl h
    rw [hl.trace]
    rcases cancelled_step hl k h with hold | rfl
    · exact List.mem_append_left _ (ih hold)
    · exact List.mem_append_right _ (List.mem_singleton_self _)

end Cancelled

/-! ## What draining first keeps -/

/-- A message that was sent in time is never dropped, and is answered by the time the refresher
takes the cancellation. -/
structure Drained (D : Deployment) (s : DeploymentState) (n : ℕ) : Prop where
  stopped : (⟨.recvOrCancelled, none⟩ : IoEvent) ∈
    s.history (.refresher (D.requests n).instanceId) → cancellation D n ∈ s.trace
  sent : SentInTime D n s.trace → life D n s.trace ≠ .unsent
  kept : SentInTime D n s.trace → life D n s.trace ≠ .discarded
  answered : SentInTime D n s.trace → (⟨.recvOrCancelled, none⟩ : IoEvent) ∈
    s.history (.refresher (D.requests n).instanceId) →
      ∃ response delivered, life D n s.trace = .answered response delivered

section Drained

variable {D : Deployment} {s s' : DeploymentState} {l : DeploymentLabel} {n : ℕ}

/-- A message that is put into the channel is in the queue. -/
theorem queued_of_puts (hl : D.machine.Step s l s') (h : Puts n l) :
    ∃ message, life D n s'.trace = .queued message := by
  obtain ⟨i, message, seconds, applied, rfl, hchannel⟩ := h
  refine ⟨message, ?_⟩
  rw [life_call hl]
  exact if_pos hchannel

/-- A message is put into the channel by its own request, which has only read the database so
far. -/
theorem history_of_puts (hs : D.Reachable s) (hl : D.machine.Step s l s') (h : Puts n l) :
    ∃ p r, s.history (.request n) = [(⟨.selectVersions p, r⟩ : IoEvent)] := by
  obtain ⟨i, message, seconds, applied, rfl, hchannel⟩ := h
  have hallowed := (channelProtocol_obeyed D).allowed_step hs hl
  cases i with
  | request j =>
    obtain ⟨hindex, hother⟩ := hallowed
    by_cases hroute : ∃ p, (D.requests j).route = .index p
    · obtain ⟨p, hp⟩ := hroute
      have hcall := hindex p hp
      generalize hh : s.history (.request j) = history at hcall
      cases hcall with
      | send r hknown =>
        cases hchannel
        exact ⟨p, r, hh⟩
    · push Not at hroute
      cases hother hroute
  | refresher k => exact hallowed.2.elim
  | server k => rcases hallowed.2 with hserver | hserver <;> cases hserver

/-- The refresher that drops its receiver has seen the cancellation. -/
theorem stopped_of_discards (hs : D.Reachable s) {k : ℕ} {applied : Bool}
    (hl : D.machine.Step s (.call (.refresher k) ⟨.dropReceiver, ()⟩ applied) s') :
    (⟨.recvOrCancelled, none⟩ : IoEvent) ∈ s.history (.refresher k) := by
  obtain ⟨-, h', hstopping⟩ := (channelProtocol_obeyed D).allowed_step hs hl
  rw [hstopping]
  exact List.mem_append_right _ (List.mem_singleton_self _)

/-- The step at which the refresher of request `n` takes the cancellation. -/
theorem mem_history_of_step (hl : D.machine.Step s l s')
    (h : (⟨.recvOrCancelled, none⟩ : IoEvent) ∈
      s'.history (.refresher (D.requests n).instanceId)) :
    (⟨.recvOrCancelled, none⟩ : IoEvent) ∈ s.history (.refresher (D.requests n).instanceId) ∨
      ∃ applied, l =
        .call (.refresher (D.requests n).instanceId) ⟨.recvOrCancelled, none⟩ applied := by
  rw [hl.history] at h
  rcases List.mem_append.mp h with hmem | hmem
  · exact .inl hmem
  · have hown : Label.own (.refresher (D.requests n).instanceId) l =
        some ⟨.recvOrCancelled, none⟩ := by simpa [eq_comm] using hmem
    exact .inr (Label.own_eq_some.mp hown)

/-- A refresher that takes the cancellation has drained its channel of what was in time. -/
theorem answered_of_drained (hs : D.Reachable s) (hsent : life D n s.trace ≠ .unsent)
    (hkept : life D n s.trace ≠ .discarded) (htime : SentInTime D n s.trace) {applied : Bool}
    (hl : D.machine.Step s
      (.call (.refresher (D.requests n).instanceId) ⟨.recvOrCancelled, none⟩ applied) s')
    (hdrains : DrainsFirst D s
      (.call (.refresher (D.requests n).instanceId) ⟨.recvOrCancelled, none⟩ applied)) :
    ∃ response delivered, life D n s.trace = .answered response delivered := by
  have htracks := tracks_of_reachable hs n
  obtain ⟨-, hfree⟩ := (channelProtocol_obeyed D).allowed_step hs hl
  cases hlife : life D n s.trace with
  | unsent => exact absurd hlife hsent
  | discarded => exact absurd hlife hkept
  | answered response delivered => exact ⟨response, delivered, rfl⟩
  | queued message =>
    exfalso
    have hmail := htracks.mail (D.requests n).instanceId
    rw [if_pos rfl, hlife] at hmail
    have hmem : message ∈ mailFor s.world (D.requests n).instanceId n := by
      rw [hmail]
      exact List.mem_singleton_self message
    unfold mailFor at hmem
    obtain ⟨hqueue, hchannel⟩ := List.mem_filter.mp hmem
    exact hdrains _ applied rfl n htime message hqueue (by simpa using hchannel)
  | inHand message =>
    exfalso
    obtain ⟨hhand, hchannel⟩ := (htracks.hand _ _).mpr ⟨rfl, hlife⟩
    have hnone := hfree _ hhand
    rw [hchannel] at hnone
    cases hnone

/-- A step that drains first keeps a message drained. -/
theorem Drained.step (hs : D.Reachable s) (h : Drained D s n) (hdrains : DrainsFirst D s l)
    (hl : D.machine.Step s l s') : Drained D s' n := by
  have hmoves := lifeStep (n := n) hs hl
  have hcancelled : (⟨.recvOrCancelled, none⟩ : IoEvent) ∈
      s'.history (.refresher (D.requests n).instanceId) → cancellation D n ∈ s.trace := by
    intro hmem
    rcases mem_history_of_step hl hmem with hold | ⟨applied, rfl⟩
    · exact h.stopped hold
    · have hw := perform_of_step hl
      rcases perform_recvOrCancelled hw with ⟨message, rest, heq, -, -⟩ | ⟨-, hinstance, -⟩
      · cases heq
      · exact cancelled_of_reachable hs hinstance
  refine ⟨?_, ?_, ?_, ?_⟩
  · intro hmem
    rw [hl.trace]
    exact List.mem_append_left _ (hcancelled hmem)
  · intro htime
    rw [hl.trace] at htime
    rcases sentInTime_concat htime with hold | ⟨hputs, -⟩
    · have hne := h.sent hold
      intro hunsent
      rw [hunsent] at hmoves
      generalize life D n s.trace = before at hmoves hne
      cases hmoves with
      | stays => exact hne rfl
    · obtain ⟨message, hqueued⟩ := queued_of_puts hl hputs
      rw [hqueued]
      simp
  · intro htime
    rw [hl.trace] at htime
    rcases sentInTime_concat htime with hold | ⟨hputs, -⟩
    · have hne := h.kept hold
      have hanswered := h.answered hold
      intro hdiscarded
      rw [hdiscarded] at hmoves
      generalize life D n s.trace = before at hmoves hne hanswered
      cases hmoves with
      | stays => exact hne rfl
      | discards message applied hcall =>
        subst hcall
        obtain ⟨response, delivered, heq⟩ := hanswered (stopped_of_discards hs hl)
        cases heq
    · obtain ⟨message, hqueued⟩ := queued_of_puts hl hputs
      rw [hqueued]
      simp
  · intro htime hmem
    rw [hl.trace] at htime
    rcases sentInTime_concat htime with hold | ⟨-, hnot⟩
    · have hanswered : ∃ response delivered, life D n s.trace = .answered response delivered := by
        rcases mem_history_of_step hl hmem with hbefore | ⟨applied, rfl⟩
        · exact h.answered hold hbefore
        · exact answered_of_drained hs (h.sent hold) (h.kept hold) hold hl hdrains
      obtain ⟨response, delivered, hlife⟩ := hanswered
      rw [hlife] at hmoves
      generalize life D n s'.trace = after at hmoves
      cases hmoves with
      | stays => exact ⟨response, delivered, rfl⟩
    · exact absurd (hcancelled hmem) hnot

/-- A run that drains first is a run. -/
theorem reachable_of_drains (hs : D.machine.Reachable (DrainsFirst D) World.initial s) :
    D.Reachable s := Machine.Run.mono (fun _ _ _ => trivial) hs

/-- Every message of such a run is drained. -/
theorem drained_of_reachable (hs : D.machine.Reachable (DrainsFirst D) World.initial s) :
    Drained D s n := by
  refine Machine.invariant (I := fun s => Drained D s n) ?_ ?_ hs
  · refine ⟨fun hmem => absurd hmem List.not_mem_nil, ?_, ?_, ?_⟩
    all_goals
      rintro ⟨before, put, after, heq, -, -⟩
      simp at heq
  · intro s l s' hs ih hdrains hl
    exact ih.step (reachable_of_drains hs) hdrains hl

end Drained

/-! ## Responses that are waited for -/

section Delivered

variable {D : Deployment} {s s' : DeploymentState} {l : DeploymentLabel} {n : ℕ}

/-- A request that is over stays so. -/
theorem Over.step (h : Over s n) (hl : D.machine.Step s l s') : Over s' n := by
  have hkept : s'.pool (.request n) = s.pool (.request n) → Over s' n := by
    intro hsame
    unfold Over
    rw [hsame]
    exact h
  have hmoved : ∀ (i : Task) (l : DeploymentLabel) (w : World) (t : Thread Call Call.Ret Answer),
      s' = s.advance l w i t → i ≠ .request n → Over s' n := by
    intro i l w t heq hi
    apply hkept
    rw [heq, State.advance_pool_of_ne s l w t hi.symm]
  have hrunning : ∀ i p, s.pool i = .running p → i ≠ .request n := by
    rintro i p hp rfl
    exact h.not_busy ⟨p, hp⟩
  cases hl with
  | start i w hp hw =>
    apply hmoved i _ _ _ rfl
    rintro rfl
    rcases h with ⟨a, ha⟩ | hd
    · rw [hp] at ha
      cases ha
    · rw [hp] at hd
      cases hd
  | call i c next r applied w hp hw => exact hmoved i _ _ _ rfl (hrunning i _ hp)
  | pick i next b hp => exact hmoved i _ _ _ rfl (hrunning i _ hp)
  | again i a p hp ha => exact hmoved i _ _ _ rfl (hrunning i _ hp)
  | finish i a hp ha => exact hmoved i _ _ _ rfl (hrunning i _ hp)
  | drop i p w hp hw => exact hmoved i _ _ _ rfl (hrunning i _ hp)
  | env m w hw => exact hkept rfl

/-- A response that nobody took was sent after its request was over. -/
theorem over_of_undelivered (hs : D.Reachable s) {response : RefreshResponse}
    (h : life D n s.trace = .answered response false) : Over s n := by
  revert h
  refine Machine.invariant (I := fun s => life D n s.trace = .answered response false →
    Over s n) ?_ ?_ hs
  · intro h
    cases h
  · intro s l s' hs ih _ hl h
    have hmoves := lifeStep (n := n) hs hl
    rw [h] at hmoves
    generalize hbefore : life D n s.trace = before at hmoves
    cases hmoves with
    | stays => exact (ih hbefore).step hl
    | answers message response delivered applied hcall =>
      subst hcall
      have hw := perform_of_step hl
      obtain ⟨hlistening, -⟩ := respond_eq_some hw
      have hover := (serves_of_reachable hs).gone n hlistening.symm
      exact hover.step hl

/-- A request that receives nothing was never answered. -/
theorem not_received_none (hs : D.machine.Reachable (DrainsFirst D) World.initial s)
    (htime : SentInTime D n s.trace) :
    (⟨.receiveResponse, none⟩ : IoEvent) ∉ s.history (.request n) := by
  revert htime
  refine Machine.invariant (I := fun s => SentInTime D n s.trace →
    (⟨.receiveResponse, none⟩ : IoEvent) ∉ s.history (.request n)) ?_ ?_ hs
  · intro _
    exact List.not_mem_nil
  · intro s l s' hs ih _ hl htime hmem
    have hreachable := reachable_of_drains hs
    rw [hl.trace] at htime
    rw [hl.history] at hmem
    rcases List.mem_append.mp hmem with hmem | hmem
    · rcases sentInTime_concat htime with hold | ⟨hputs, -⟩
      · exact ih hold hmem
      · obtain ⟨p, r, hhistory⟩ := history_of_puts hreachable hl hputs
        rw [hhistory] at hmem
        simp at hmem
    · have hown : Label.own (.request n) l = some ⟨.receiveResponse, none⟩ := by
        simpa [eq_comm] using hmem
      obtain ⟨applied, rfl⟩ := Label.own_eq_some.mp hown
      rcases sentInTime_concat htime with hold | ⟨hputs, -⟩
      · obtain ⟨applied', hw⟩ := step_own hl hown
        obtain ⟨-, m, hm, hvalue⟩ := perform_receiveResponse hw
        cases hm
        have hclosed : (s.world.channels n).value = .closed := by
          rcases hvalue with ⟨response, heq, -⟩ | ⟨-, hv⟩
          · cases heq
          · exact hv
        rw [(tracks_of_reachable hreachable n).value] at hclosed
        cases hlife : life D n s.trace with
        | discarded => exact (drained_of_reachable hs).kept hold hlife
        | answered response delivered =>
          rw [hlife] at hclosed
          cases delivered with
          | true => cases hclosed
          | false =>
            apply (over_of_undelivered hreachable hlife).not_busy
            cases hl with
            | call i c next r applied w hp hw => exact ⟨_, hp⟩
        | _ =>
          rw [hlife] at hclosed
          cases hclosed
      · obtain ⟨i, message, seconds, applied', heq, -⟩ := hputs
        cases heq

/-! ## The request can take its answer -/

/-- Waiting for the refresher does not panic. -/
theorem neverPanics_requestRefresh (channel : ℕ) (p : TerraformProvider) :
    (requestRefresh channel p).NeverPanics := by
  unfold requestRefresh
  refine Prog.neverPanics_bind (neverPanics_perform _) fun sent => ?_
  cases sent with
  | error err => exact (Prog.neverPanics_pure _).mpr trivial
  | ok u =>
    refine Prog.neverPanics_bind (neverPanics_perform .receiveResponse) fun response => ?_
    exact (Prog.neverPanics_pure _).mpr trivial

/-- The index handler does not panic. -/
theorem neverPanics_indexHandler (channel : ℕ) (p : TerraformProvider) :
    (indexHandler channel p).NeverPanics := by
  unfold indexHandler listProviderVersions
  refine Prog.neverPanics_bind ?_ fun read => ?_
  · exact Prog.neverPanics_run_bind (neverPanics_tryCall (neverPanics_perform _))
      fun rows => Prog.neverPanics_run_pure _
  · rcases read with err | (_ | index)
    · exact neverPanics_requestRefresh channel p
    · exact neverPanics_requestRefresh channel p
    · exact Prog.neverPanics_bind (neverPanics_perform _)
        fun sent => (Prog.neverPanics_pure _).mpr trivial

/-- **A request whose message is answered can go on until it is over.** -/
theorem request_moves (hs : D.Reachable s) {response : RefreshResponse} {delivered : Bool}
    (hlife : life D n s.trace = .answered response delivered) (hopen : ¬ Over s n) :
    ∃ l s', D.machine.Step s l s' ∧ IsStepOf (.request n) l := by
  have htracks := tracks_of_reachable hs n
  obtain ⟨p₀, hsent⟩ := htracks.sent (by rw [hlife]; simp)
  have hkept := (channelProtocol_obeyed D).sound hs (.request n)
  obtain ⟨p, -, -, -, hroute, -⟩ := responded_of_answered hs hlife
  cases hpool : s.pool (.request n) with
  | waiting =>
    rw [hkept.waiting hpool] at hsent
    exact absurd hsent List.not_mem_nil
  | dropped => exact absurd (.inr hpool) hopen
  | finished a => exact absurd (.inl ⟨a, hpool⟩) hopen
  | running q =>
    have hsound : q.NeverPanics := by
      refine Machine.neverPanics_of_reachable ?_ ?_ hs hpool
      · show (D.handler n).NeverPanics
        unfold Deployment.handler
        rw [hroute]
        exact Prog.neverPanics_bind (neverPanics_indexHandler n p)
          fun result => (Prog.neverPanics_pure _).mpr trivial
      · intro a p h
        cases h
    cases q with
    | panicked m => exact absurd hsound (by simp)
    | pick next => exact ⟨_, _, .pick s _ next true hpool, rfl⟩
    | done a => exact ⟨_, _, .finish s _ a hpool rfl, rfl⟩
    | call c next =>
      -- the only call that comes after the message is the wait
      have hcall := ((channelProtocol_obeyed D).allowed hs hpool).1 p hroute
      generalize hh : s.history (.request n) = history at hcall hsent
      cases hcall with
      | read => exact absurd hsent List.not_mem_nil
      | wake r index hknown => simp at hsent
      | send r hknown => simp at hsent
      | wait r hknown =>
        have hdelivered : delivered = true := by
          cases delivered with
          | true => rfl
          | false => exact absurd (over_of_undelivered hs hlife) hopen
        subst hdelivered
        have hvalue : (s.world.channels n).value = .sent response := by
          rw [htracks.value, hlife]
          rfl
        have hw : s.world.perform (D.instanceOf (.request n)) (some n) .receiveResponse
            (some response) false = some s.world := by
          simp [World.perform, hvalue]
        exact ⟨_, _, .call s _ _ next (some response) false _ hpool hw, rfl⟩

end Delivered

/-! ## Shutting down gracefully -/

/-- What a request has whose message was sent before the cancellation. -/
structure AnsweredInTime (D : Deployment) (s : DeploymentState) (n : ℕ) : Prop where
  /-- Its answer is the outcome of its own message. -/
  answer : ∀ a, s.pool (.request n) = .finished a →
    ∃ p response, (D.requests n).route = .index p ∧
      a = .index (refreshAnswer p (some response)) ∧ Responded D s n response true ∧
      a ≠ .index (.error .brokenRefresherChannel)
  /-- It is over when the accept loop of its instance has ended. -/
  served : ∀ a, s.pool (.server (D.requests n).instanceId) = .finished a → Over s n
  /-- Its message is answered after a bounded number of calls of its refresher. -/
  settled : ∀ s', D.machine.Run (DrainsFirst D) s s' →
    (s.history (.refresher (D.requests n).instanceId)).length +
        8 * ((s.world.instances (D.requests n).instanceId).queue.length + 1) <
      (s'.history (.refresher (D.requests n).instanceId)).length →
    ∃ response delivered, life D n s'.trace = .answered response delivered
  /-- Until it is over, the refresher can go on or it has its response and can go on itself. -/
  moves : ¬ Over s n →
    (∀ m, s.pool (.refresher (D.requests n).instanceId) ≠ .running (.panicked m)) →
    ∃ l s', D.machine.Step s l s' ∧ DrainsFirst D s l ∧
      (IsStepOf (.refresher (D.requests n).instanceId) l ∨
        IsStepOf (.request n) l ∧ ∃ response, (s.world.channels n).value = .sent response)

section Graceful

variable {D : Deployment} {s s' : DeploymentState} {n : ℕ}

/-- A step of a task takes no cancellation of the refresher of another instance. -/
theorem drainsFirst_of_isStepOf {i : Task} {l : DeploymentLabel} (hl : IsStepOf i l)
    (hnot : ∀ k applied, i = .refresher k →
      l ≠ .call (.refresher k) ⟨.recvOrCancelled, none⟩ applied) : DrainsFirst D s l := by
  rintro k applied rfl
  have hi : Task.refresher k = i := hl
  exact absurd rfl (hnot k applied hi.symm)

/-- A refresher that drains its channel first spares every message that was sent in time. -/
theorem spares_of_drains (hs : D.machine.Reachable (DrainsFirst D) World.initial s)
    (htime : SentInTime D n s.trace) (hrun : D.machine.Run (DrainsFirst D) s s') :
    D.machine.Run (Spares D n) s s' ∧ SentInTime D n s'.trace := by
  induction hrun with
  | refl => exact ⟨.refl, htime⟩
  | @tail s₁ s₂ hr hstep ih =>
    obtain ⟨l, hdrains, hl⟩ := hstep
    obtain ⟨hspares, htime₁⟩ := ih
    have hs₁ := reachable_of_drains (hs.trans hr)
    refine ⟨hspares.tail ⟨l, ?_, hl⟩, ?_⟩
    · rintro applied rfl message hlife
      have hmail := (tracks_of_reachable hs₁ n).mail (D.requests n).instanceId
      rw [if_pos rfl, hlife] at hmail
      have hmem : message ∈ mailFor s₁.world (D.requests n).instanceId n := by
        rw [hmail]
        exact List.mem_singleton_self message
      unfold mailFor at hmem
      obtain ⟨hqueue, hchannel⟩ := List.mem_filter.mp hmem
      exact hdrains _ applied rfl n htime₁ message hqueue (by simpa using hchannel)
    · rw [hl.trace]
      exact htime₁.concat l

/-- The answer of a request whose message was sent in time. -/
theorem answer_in_time (hs : D.machine.Reachable (DrainsFirst D) World.initial s)
    (htime : SentInTime D n s.trace) {a : Answer} (ha : s.pool (.request n) = .finished a) :
    ∃ p response, (D.requests n).route = .index p ∧
      a = .index (refreshAnswer p (some response)) ∧ Responded D s n response true ∧
      a ≠ .index (.error .brokenRefresherChannel) := by
  have hreachable := reachable_of_drains hs
  have htracks := tracks_of_reachable hreachable n
  obtain ⟨p₀, hsent⟩ := htracks.sent ((drained_of_reachable hs).sent htime)
  have hnone := not_received_none hs htime
  have hkept := (channelProtocol_obeyed D).sound hreachable (.request n)
  have hroute : ∃ p, (D.requests n).route = .index p := by
    by_contra hno
    push Not at hno
    obtain ⟨h₁, h₂, heq⟩ := List.append_of_mem hsent
    have haway := (hkept.lawful h₁ _ h₂ heq).2 hno
    cases haway
  obtain ⟨p, hp⟩ := hroute
  obtain ⟨result, rfl, hresult⟩ := hkept.finished a ha p hp
  refine ⟨p, ?_⟩
  have hreceived : ∀ response, (⟨.receiveResponse, some response⟩ : IoEvent) ∈
      s.history (.request n) → Responded D s n response true :=
    fun response hmem => received_responded hreachable hmem
  generalize s.history (.request n) = history at hresult hsent hnone hreceived
  cases hresult with
  | cached r index sent hknown => simp at hsent
  | refused r err hknown => simp at hsent
  | answered r response hknown =>
    cases response with
    | none => simp at hnone
    | some response =>
      have hresponded := hreceived response (by simp)
      refine ⟨response, hp, rfl, hresponded, ?_⟩
      obtain ⟨p', before, tr, after, hp', hhistory, hown, -⟩ := hresponded
      intro hbroken
      cases hown with
      | notStale now => cases hbroken
      | performed before' tr after' result hbefore hafter hr =>
        cases result with
        | ok versions => cases hbroken
        | error err =>
          cases hbroken
          have hproper : StoresFailProperly tr := by
            intro q versions err hmem
            apply storesFailProperly hreachable (.refresher (D.requests n).instanceId) q versions
            rw [hhistory]
            simp [hmem]
          exact refreshVersions_ofRefresh hproper hr

/-- **Draining first, a shutdown answers accepted work.**  In every run in which no refresher
takes the cancellation while a message that was sent before it is in its channel, each request
whose message was sent in time is answered with its own outcome. -/
theorem shutdown_answers (hs : D.machine.Reachable (DrainsFirst D) World.initial s)
    (htime : SentInTime D n s.trace) : AnsweredInTime D s n := by
  have hreachable := reachable_of_drains hs
  have htracks := tracks_of_reachable hreachable n
  have hdrained := drained_of_reachable (n := n) hs
  refine ⟨fun a ha => answer_in_time hs htime ha, ?_, ?_, ?_⟩
  · intro a hserved
    have hidle := not_busy_of_served hreachable hserved
    have hkept := (channelProtocol_obeyed D).sound hreachable (.request n)
    cases hpool : s.pool (.request n) with
    | waiting =>
      obtain ⟨p, hsent⟩ := htracks.sent (hdrained.sent htime)
      rw [hkept.waiting hpool] at hsent
      exact absurd hsent List.not_mem_nil
    | running p => exact absurd ⟨p, hpool⟩ hidle
    | finished a => exact .inl ⟨a, hpool⟩
    | dropped => exact .inr hpool
  · intro s' hrun hcalls
    obtain ⟨hspares, htime'⟩ := spares_of_drains hs htime hrun
    have hsettled : Settled D s' n := by
      cases hlife : life D n s.trace with
      | unsent => exact absurd hlife (hdrained.sent htime)
      | discarded => exact absurd hlife (hdrained.kept htime)
      | queued message => exact (owes_of_queued hreachable hlife).run hreachable hspares hcalls
      | inHand message =>
        exact (owes_of_inHand hreachable hlife).run hreachable hspares (by omega)
      | answered response delivered =>
        exact (Owes.settled 0 (.inl ⟨response, delivered, hlife⟩)).run hreachable hspares (by omega)
    rcases hsettled with hanswered | hdiscarded
    · exact hanswered
    · exact absurd hdiscarded ((drained_of_reachable (hs.trans hrun)).kept htime')
  · intro hopen hsound
    have hwaits : ∀ message, life D n s.trace = .queued message ∨
        life D n s.trace = .inHand message → ∃ l s', D.machine.Step s l s' ∧ DrainsFirst D s l ∧
          IsStepOf (.refresher (D.requests n).instanceId) l := by
      intro message hlife
      have hgoing : (⟨.recvOrCancelled, none⟩ : IoEvent) ∉
          s.history (.refresher (D.requests n).instanceId) := by
        intro hmem
        obtain ⟨response, delivered, hanswered⟩ := hdrained.answered htime hmem
        rw [hanswered] at hlife
        rcases hlife with heq | heq <;> cases heq
      obtain ⟨l, s', hl, hown, hnot⟩ := refresher_moves hreachable hlife hgoing hsound
      refine ⟨l, s', hl, drainsFirst_of_isStepOf hown ?_, hown⟩
      intro k applied hk
      cases hk
      exact hnot applied
    cases hlife : life D n s.trace with
    | unsent => exact absurd hlife (hdrained.sent htime)
    | discarded => exact absurd hlife (hdrained.kept htime)
    | queued message =>
      obtain ⟨l, s', hl, hdrains, hown⟩ := hwaits message (.inl hlife)
      exact ⟨l, s', hl, hdrains, .inl hown⟩
    | inHand message =>
      obtain ⟨l, s', hl, hdrains, hown⟩ := hwaits message (.inr hlife)
      exact ⟨l, s', hl, hdrains, .inl hown⟩
    | answered response delivered =>
      obtain ⟨l, s', hl, hown⟩ := request_moves hreachable hlife hopen
      refine ⟨l, s', hl, drainsFirst_of_isStepOf hown (by simp), .inr ⟨hown, response, ?_⟩⟩
      rw [htracks.value, hlife]
      cases delivered with
      | true => rfl
      | false => exact absurd (over_of_undelivered hreachable hlife) hopen

end Graceful

/-! ## Two shutdowns -/

/-- A request for a provider that the database does not know puts its message into the channel,
and then its instance is cancelled. -/
def cancelledAfterSend : List ScriptMove :=
  opened 0 ++ enqueued 0 randomProvider ++ [.env (.cancel 0), .start (.refresher 0)]

/-- The accept loop sees the cancellation, and ends when the connection is closed. -/
def serverStops : List ScriptMove :=
  [.again (.server 0), answered (.server 0) .acceptOrCancelled false, .env (.closeConnection 0),
    usual (.server 0), .finish (.server 0)]

/-- The steps of the script up to the message. -/
def sendingTrace : List DeploymentLabel :=
  [.start (.server 0), .call (.server 0) ⟨.acceptOrCancelled, true⟩ false, .start (.request 0),
    .call (.request 0) ⟨.selectVersions randomProvider, .ok []⟩ false,
    .call (.request 0) ⟨.sendTimeout (ownMessage 0 randomProvider) 1, .ok ()⟩ false]

/-- The message of the script is sent in time. -/
theorem sentInTime_of_sendingTrace {s : DeploymentState} (h : s.trace.take 5 = sendingTrace) :
    SentInTime (versionsDeployment builtVersions) 0 s.trace := by
  refine ⟨sendingTrace.take 4, _, s.trace.drop 5, ?_, ⟨.request 0,
    ownMessage 0 randomProvider, 1, false, rfl, rfl⟩, ?_⟩
  · rw [← List.take_append_drop 5 s.trace, h]
    simp [sendingTrace]
  · simp [sendingTrace, cancellation]

/-- The refresher only takes the cancellation when its channel is empty. -/
def emptyAtCancellation (s : DeploymentState) : DeploymentLabel → Bool
  | .call (.refresher k) ⟨.recvOrCancelled, none⟩ _ => (s.world.instances k).queue.isEmpty
  | _ => true

/-- A cancellation that finds the channel empty comes after all messages. -/
theorem drainsFirst_of_empty (s : DeploymentState) (l : DeploymentLabel)
    (h : emptyAtCancellation s l = true) : DrainsFirst (versionsDeployment builtVersions) s l := by
  rintro k applied rfl n - message hmessage
  have hempty : (s.world.instances k).queue = [] := by simpa [emptyAtCancellation] using h
  rw [hempty] at hmessage
  exact absurd hmessage List.not_mem_nil

/-- The refresher treats the message first, and then takes the cancellation. -/
theorem shutdown_answers_drained : ∃ s : DeploymentState,
    cancellation (versionsDeployment builtVersions) 0 ∈ s.trace ∧
    AnsweredInTime (versionsDeployment builtVersions) s 0 := by
  obtain ⟨s, hs, hview⟩ : ∃ s, (versionsDeployment builtVersions).machine.Reachable
      (DrainsFirst (versionsDeployment builtVersions)) World.initial s ∧
      (s.trace.take 5, (s.world.instances 0).cancelled) = (sendingTrace, true) :=
    Machine.exists_run_of_play_if drainsFirst_of_empty _
      (cancelledAfterSend ++ [taken 0 0 randomProvider] ++ refreshed 0 randomProvider builtVersions 1
        ++ [answered (.request 0) .receiveResponse (some (.refreshPerformed (.ok builtVersions))),
          .finish (.request 0), .again (.refresher 0),
          answered (.refresher 0) .recvOrCancelled none, usual (.refresher 0),
          .finish (.refresher 0)] ++ serverStops) rfl
  simp only [Prod.mk.injEq] at hview
  obtain ⟨htrace, hcancelled⟩ := hview
  exact ⟨s, cancelled_of_reachable (reachable_of_drains hs) hcancelled,
    shutdown_answers hs (sentInTime_of_sendingTrace htrace)⟩

/-- The refresher takes the cancellation first, and the request is answered with a broken
channel; the accept loop has waited for it, and the refresher has not panicked. -/
theorem shutdown_breaks_channel : ∃ s : DeploymentState,
    (versionsDeployment builtVersions).Reachable s ∧
    SentInTime (versionsDeployment builtVersions) 0 s.trace ∧
    s.pool (.request 0) = .finished (.index (.error .brokenRefresherChannel)) ∧
    s.pool (.server 0) = .finished (.server false) ∧
    s.pool (.refresher 0) = .finished (.refresher none) := by
  obtain ⟨s, hs, hview⟩ : ∃ s, (versionsDeployment builtVersions).Reachable s ∧
      (s.trace.take 5, s.pool (.request 0), s.pool (.server 0), s.pool (.refresher 0)) =
        (sendingTrace, .finished (.index (.error .brokenRefresherChannel)),
          .finished (.server false), .finished (.refresher none)) :=
    Machine.exists_run_of_play _ (cancelledAfterSend ++
      [answered (.refresher 0) .recvOrCancelled none, usual (.refresher 0),
        .finish (.refresher 0), answered (.request 0) .receiveResponse none,
        .finish (.request 0)] ++ serverStops) rfl
  simp only [Prod.mk.injEq] at hview
  obtain ⟨htrace, hrequest, hserver, hrefresher⟩ := hview
  exact ⟨s, hs, sentInTime_of_sendingTrace htrace, hrequest, hserver, hrefresher⟩

end Terrashine.Analysis
