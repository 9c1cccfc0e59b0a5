import Terrashine.Analysis.InstanceSteps
import Terrashine.Analysis.LaterAnswers

/-!
# The order of the answers

The channel of an instance neither loses nor repeats nor reorders a message while its receiver is
there (`channel_order`), and the refresher responds to each message that it has taken before it
takes the next one (`hand_order`).  So the requests are responded to in the order in which their
messages were put into the channel, each of them once: `answers_in_order`.
-/

set_option autoImplicit false

namespace Terrashine.Analysis

open Terrashine.Library Terrashine.Model Terrashine.Interface

/-! ## What a step puts into a channel -/

section Puts

variable {D : Deployment} {s s' : DeploymentState} {l : DeploymentLabel} {k : ℕ}
  {message : RefreshRequest}

/-- A message is put by a call that sends it. -/
theorem put_eq_some (h : put D k l = some message) :
    ∃ i applied, D.instanceOf i = k ∧ (l = .call i ⟨.trySend message, .ok ()⟩ applied ∨
      ∃ seconds, l = .call i ⟨.sendTimeout message seconds, .ok ()⟩ applied) := by
  unfold put at h
  split at h
  · next i message' applied =>
    split at h
    · next hk =>
      cases h
      exact ⟨i, applied, hk, .inl rfl⟩
    · cases h
  · next i message' seconds applied =>
    split at h
    · next hk =>
      cases h
      exact ⟨i, applied, hk, .inr ⟨seconds, rfl⟩⟩
    · cases h
  · cases h

/-- A message that was put into a channel is then at its end. -/
theorem enqueue_of_put (hl : D.machine.Step s l s') (h : put D k l = some message) :
    s.world.enqueue k message = some s'.world := by
  obtain ⟨i, applied, rfl, rfl | ⟨seconds, rfl⟩⟩ := put_eq_some h
  · exact perform_of_step hl
  · exact perform_of_step hl

/-- The receiver was there, and the message is the last one in the queue. -/
theorem queue_of_put (hl : D.machine.Step s l s') (h : put D k l = some message) :
    (s.world.instances k).receiverDropped = false ∧
      s'.world.instances k = { s.world.instances k with
        queue := (s.world.instances k).queue ++ [message] } := by
  obtain ⟨hopen, heq⟩ := enqueue_eq_some (enqueue_of_put hl h)
  refine ⟨hopen, ?_⟩
  rw [heq]
  simp [World.setInstance]

/-- Taking a message keeps the receiver. -/
theorem receiver_of_take {applied : Bool}
    (hl : D.machine.Step s (.call (.refresher k) ⟨.recvOrCancelled, some message⟩ applied) s') :
    (s'.world.instances k).receiverDropped = (s.world.instances k).receiverDropped := by
  rcases perform_recvOrCancelled (perform_of_step hl) with ⟨_, rest, -, -, heq⟩ | ⟨hnone, -, -⟩
  · rw [heq]
    simp [World.setInstance, Deployment.instanceOf]
  · cases hnone

/-- A step that takes nothing out of the channel adds to its end what it puts there. -/
theorem queue_step (hs : D.Reachable s) (hl : D.machine.Step s l s')
    (hrecv : ∀ message applied,
      l ≠ .call (.refresher k) ⟨.recvOrCancelled, some message⟩ applied)
    (hdrop : ∀ applied, l ≠ .call (.refresher k) ⟨.dropReceiver, ()⟩ applied) :
    (s'.world.instances k).queue = (s.world.instances k).queue ++ (put D k l).toList ∧
      (s'.world.instances k).receiverDropped = (s.world.instances k).receiverDropped := by
  cases hput : put D k l with
  | some message =>
    obtain ⟨-, hi⟩ := queue_of_put hl hput
    rw [hi]
    exact ⟨rfl, rfl⟩
  | none =>
    have hmoves := instance_step hs hl k
    generalize s'.world.instances k = i' at hmoves
    rw [Option.toList_none, List.append_nil]
    cases hmoves with
    | enqueue message hput' hopen =>
      rw [hput] at hput'
      cases hput'
    | take message rest applied hl' hqueue => exact absurd hl' (hrecv message applied)
    | discard applied hl' => exact absurd hl' (hdrop applied)
    | _ => exact ⟨rfl, rfl⟩

end Puts

/-! ## The order of the channel -/

/-- The messages that were put into the channel of instance `k`. -/
def putInto (D : Deployment) (k : ℕ) (trace : List DeploymentLabel) : List RefreshRequest :=
  trace.filterMap (put D k)

def receivedBy : IoEvent → Option RefreshRequest
  | ⟨.recvOrCancelled, message⟩ => message
  | _ => none

/-- The messages that the refresher has taken out of its channel. -/
def received (h : List IoEvent) : List RefreshRequest := h.filterMap receivedBy

/-- One more call takes one more message, if it takes one. -/
@[simp] theorem received_concat (h : List IoEvent) (ev : IoEvent) :
    received (h ++ [ev]) = received h ++ (receivedBy ev).toList := by
  unfold received
  cases hev : receivedBy ev <;> simp [hev]

/-- A message is taken by the call that receives it. -/
theorem receivedBy_eq_some {ev : IoEvent} {message : RefreshRequest}
    (h : receivedBy ev = some message) : ev = ⟨.recvOrCancelled, some message⟩ := by
  unfold receivedBy at h
  split at h
  · rw [h]
  · cases h

/-- What was put into a channel has been taken out of it in that order, or still stands in it, or
was discarded with it. -/
structure ChannelOrder (D : Deployment) (s : DeploymentState) (k : ℕ) (lost : List RefreshRequest) :
    Prop where
  order : putInto D k s.trace =
    received (s.history (.refresher k)) ++ (s.world.instances k).queue ++ lost
  kept : (s.world.instances k).receiverDropped = false → lost = []

section Order

variable {D : Deployment} {s s' : DeploymentState} {l : DeploymentLabel} {k : ℕ}
  {lost : List RefreshRequest}

/-- One more step puts one more message, if it puts one. -/
theorem putInto_step (hl : D.machine.Step s l s') :
    putInto D k s'.trace = putInto D k s.trace ++ (put D k l).toList := by
  unfold putInto
  rw [hl.trace, List.filterMap_append]
  cases hput : put D k l <;> simp [hput]

/-- A step keeps the order of the channel. -/
theorem ChannelOrder.step (hs : D.Reachable s) (h : ChannelOrder D s k lost)
    (hl : D.machine.Step s l s') : ∃ lost', ChannelOrder D s' k lost' := by
  have hputs := putInto_step (k := k) hl
  by_cases htake : ∃ message applied,
      l = .call (.refresher k) ⟨.recvOrCancelled, some message⟩ applied
  · -- the first message of the queue goes over into the hand
    obtain ⟨message, applied, rfl⟩ := htake
    refine ⟨lost, ?_, fun hopen => h.kept (receiver_of_take hl ▸ hopen)⟩
    rw [hputs, h.order, history_self hl, queue_taken hl]
    simp [put, receivedBy]
  push Not at htake
  by_cases hdrop : ∃ applied, l = .call (.refresher k) ⟨.dropReceiver, ()⟩ applied
  · -- what is left in the queue is lost
    obtain ⟨applied, rfl⟩ := hdrop
    obtain ⟨hdropped, hempty⟩ := closed_of_discard hl
    refine ⟨(s.world.instances k).queue ++ lost, ?_, fun hopen => ?_⟩
    · rw [hputs, h.order, history_self hl, hempty]
      simp [put, receivedBy]
    · rw [hdropped] at hopen
      cases hopen
  push Not at hdrop
  obtain ⟨hqueue, hreceiver⟩ := queue_step hs hl htake hdrop
  have hreceived : received (s'.history (.refresher k)) = received (s.history (.refresher k)) := by
    rw [hl.history]
    cases hown : Label.own (.refresher k) l with
    | none => simp
    | some ev =>
      obtain ⟨applied, rfl⟩ := Label.own_eq_some.mp hown
      have hnone : receivedBy ev = none := by
        cases hev : receivedBy ev with
        | none => rfl
        | some message => exact absurd (by rw [receivedBy_eq_some hev]) (htake message applied)
      simp [hnone]
  refine ⟨lost, ?_, fun hopen => h.kept (hreceiver ▸ hopen)⟩
  rw [hputs, h.order, hreceived, hqueue]
  cases hput : put D k l with
  | none => simp
  | some message =>
    -- nothing has been lost while messages are put in
    rw [h.kept (queue_of_put hl hput).1]
    simp

/-- **What was put into a channel leaves it in that order.** -/
theorem channel_order (hs : D.Reachable s) (k : ℕ) : ∃ lost, ChannelOrder D s k lost := by
  refine Machine.invariant (I := fun s => ∃ lost, ChannelOrder D s k lost) ?_ ?_ hs
  · exact ⟨[], rfl, fun _ => rfl⟩
  · rintro s l s' hs ⟨lost, h⟩ - hl
    exact h.step hs hl

end Order

/-! ## The order of the responses -/

def respondedTo : IoEvent → Option ℕ
  | ⟨.respond n _, _⟩ => some n
  | _ => none

/-- The requests that the refresher has responded to. -/
def responded (h : List IoEvent) : List ℕ := h.filterMap respondedTo

/-- The request that the refresher owes a response before it takes the next message. -/
def owed (h : List IoEvent) : Option ℕ := (inHand h).bind (·.responseChannel)

/-- One more call responds once more, if it responds. -/
@[simp] theorem responded_concat (h : List IoEvent) (ev : IoEvent) :
    responded (h ++ [ev]) = responded h ++ (respondedTo ev).toList := by
  unfold responded
  cases hev : respondedTo ev <;> simp [hev]

/-- A lawful history was lawful before its last call. -/
theorem lawful_concat {allows : List IoEvent → Call → Prop} {h : List IoEvent} {ev : IoEvent}
    (hlawful : Machine.Lawful allows (h ++ [ev])) : Machine.Lawful allows h ∧ allows h ev.1 := by
  refine ⟨?_, hlawful h ev [] rfl⟩
  rintro h₁ ev' h₂ rfl
  exact hlawful h₁ ev' (h₂ ++ [ev]) (by simp)

section Hand

variable {deps : Externals} {port : ℕ} {h : List IoEvent} {c : Call} {r : c.Ret}

/-- A call of the refresher responds to the message in its hand, or takes one. -/
theorem hand_step (hcall : RefresherCall deps port h c)
    (ih : (received h).filterMap (·.responseChannel) = responded h ++ (owed h).toList) :
    (received (h ++ [⟨c, r⟩])).filterMap (·.responseChannel) =
      responded (h ++ [⟨c, r⟩]) ++ (owed (h ++ [⟨c, r⟩])).toList := by
  obtain ⟨-, hcall⟩ := hcall
  rw [received_concat, responded_concat, List.filterMap_append, ih]
  unfold owed
  rw [inHand_concat]
  cases c with
  | recvOrCancelled =>
    have hfree : (inHand h).bind (·.responseChannel) = none := by
      cases hhand : inHand h with
      | none => rfl
      | some message => exact hcall message hhand
    rw [hfree]
    cases r with
    | none => simp [receivedBy, respondedTo, handAfter]
    | some message => cases hchannel : message.responseChannel <;>
        simp [receivedBy, respondedTo, handAfter, hchannel]
  | respond n response =>
    obtain ⟨p, hhand⟩ := OwnResponse.inHand hcall
    simp [receivedBy, respondedTo, handAfter, hhand, ownMessage]
  | _ => simp [receivedBy, respondedTo, handAfter]

/-- **Each message is responded to before the next one is taken**, if it asks for a response. -/
theorem hand_order (hlawful : Machine.Lawful (RefresherCall deps port) h) :
    (received h).filterMap (·.responseChannel) = responded h ++ (owed h).toList := by
  induction h using List.reverseRecOn with
  | nil => rfl
  | append_singleton h ev ih =>
    obtain ⟨hinit, hcall⟩ := lawful_concat hlawful
    exact hand_step hcall (ih hinit)

end Hand

/-! ## Requests and their answers -/

/-- The requests whose messages were put into the channel of instance `k`. -/
def askers (D : Deployment) (k : ℕ) (trace : List DeploymentLabel) : List ℕ :=
  (putInto D k trace).filterMap (·.responseChannel)

section Asked

variable {D : Deployment} {s s' : DeploymentState} {l : DeploymentLabel} {k n : ℕ}

/-- Only its own request puts a message into the channel that asks for a response. -/
theorem sends_of_put (hs : D.Reachable s) (hl : D.machine.Step s l s') {message : RefreshRequest}
    (hput : put D k l = some message) (hchannel : message.responseChannel = some n) :
    ∃ p r applied, s.history (.request n) = [(⟨.selectVersions p, r⟩ : IoEvent)] ∧
      l = .call (.request n) ⟨.sendTimeout (ownMessage n p) 1, .ok ()⟩ applied := by
  obtain ⟨i, applied, -, hcall⟩ := put_eq_some hput
  cases i with
  | request j =>
    by_cases hroute : ∃ p, (D.requests j).route = .index p
    · obtain ⟨p, hp⟩ := hroute
      rcases hcall with rfl | ⟨seconds, rfl⟩
      · have hindex := ((channelProtocol_obeyed D).allowed_step hs hl).1 p hp
        generalize s.history (.request j) = h at hindex
        cases hindex
        cases hchannel
      · have hindex := ((channelProtocol_obeyed D).allowed_step hs hl).1 p hp
        generalize hh : s.history (.request j) = h at hindex
        cases hindex with
        | send r hknown =>
          cases hchannel
          exact ⟨p, r, applied, hh, rfl⟩
    · push Not at hroute
      rcases hcall with rfl | ⟨seconds, rfl⟩
      · cases ((channelProtocol_obeyed D).allowed_step hs hl).2 hroute
      · cases ((channelProtocol_obeyed D).allowed_step hs hl).2 hroute
  | refresher k' =>
    rcases hcall with rfl | ⟨seconds, rfl⟩
    · exact ((channelProtocol_obeyed D).allowed_step hs hl).2.elim
    · exact ((channelProtocol_obeyed D).allowed_step hs hl).2.elim
  | server k' =>
    rcases hcall with rfl | ⟨seconds, rfl⟩
    · rcases ((channelProtocol_obeyed D).allowed_step hs hl).2 with h | h <;> cases h
    · rcases ((channelProtocol_obeyed D).allowed_step hs hl).2 with h | h <;> cases h

/-- A request asks once, and has read the database before it. -/
structure AskedOnce (D : Deployment) (s : DeploymentState) (k : ℕ) : Prop where
  nodup : (askers D k s.trace).Nodup
  sent : ∀ n ∈ askers D k s.trace, 2 ≤ (s.history (.request n)).length

/-- A step keeps every request asking once. -/
theorem AskedOnce.step (hs : D.Reachable s) (h : AskedOnce D s k) (hl : D.machine.Step s l s') :
    AskedOnce D s' k := by
  have haskers : askers D k s'.trace =
      askers D k s.trace ++ ((put D k l).bind (·.responseChannel)).toList := by
    unfold askers
    rw [putInto_step hl, List.filterMap_append]
    cases hput : put D k l with
    | none => rfl
    | some message => cases hchannel : message.responseChannel <;> simp [hchannel]
  have hlength : ∀ n, (s.history (.request n)).length ≤ (s'.history (.request n)).length :=
    fun n => (history_extends hl (.request n)).length_le
  have hsent : ∀ n ∈ askers D k s.trace, 2 ≤ (s'.history (.request n)).length :=
    fun n hn => (h.sent n hn).trans (hlength n)
  cases hchannel : (put D k l).bind (·.responseChannel) with
  | none =>
    rw [hchannel, Option.toList_none, List.append_nil] at haskers
    rw [← haskers] at hsent
    exact ⟨haskers ▸ h.nodup, hsent⟩
  | some n =>
    rw [hchannel] at haskers
    obtain ⟨message, hput, hn⟩ := Option.bind_eq_some_iff.mp hchannel
    obtain ⟨p, r, applied, hhistory, rfl⟩ := sends_of_put hs hl hput hn
    have hnew : n ∉ askers D k s.trace := by
      intro hmem
      have htwo := h.sent n hmem
      rw [hhistory] at htwo
      simp at htwo
    constructor
    · rw [haskers]
      exact List.nodup_append.mpr ⟨h.nodup, List.nodup_singleton n, by
        rintro m hm m' hm' rfl
        exact hnew (List.mem_singleton.mp hm' ▸ hm)⟩
    · intro m hm
      rw [haskers] at hm
      rcases List.mem_append.mp hm with hm | hm
      · exact hsent m hm
      · rw [List.mem_singleton.mp hm, history_self hl, hhistory]
        simp

/-- Every request asks once. -/
theorem askedOnce_of_reachable (hs : D.Reachable s) (k : ℕ) : AskedOnce D s k := by
  refine Machine.invariant (I := fun s => AskedOnce D s k) ?_ ?_ hs
  · exact ⟨List.nodup_nil, fun n hn => absurd hn List.not_mem_nil⟩
  · intro s l s' hs ih _ hl
    exact ih.step hs hl

end Asked

/-- The requests of an instance are responded to in the order in which they asked. -/
structure AnswersInOrder (D : Deployment) (s : DeploymentState) (k : ℕ) : Prop where
  once : (askers D k s.trace).Nodup
  inOrder : responded (s.history (.refresher k)) <+: askers D k s.trace
  /-- As long as the receiver is there, the others are those whose message is in hand or in the
  queue. -/
  waiting : (s.world.instances k).receiverDropped = false →
    askers D k s.trace = responded (s.history (.refresher k)) ++
      (owed (s.history (.refresher k))).toList ++
        (s.world.instances k).queue.filterMap (·.responseChannel)

/-- **First come, first served.**  In every state of every run, the requests that the refresher of
an instance has responded to are the first ones of those that have put a message into its channel,
in the same order and each of them once.  Until the receiver is dropped, all others that have asked
still wait: the one whose message is in hand, and then those in the queue. -/
theorem answers_in_order (D : Deployment) (s : DeploymentState) (hs : D.Reachable s) (k : ℕ) :
    AnswersInOrder D s k := by
  obtain ⟨lost, hchannel⟩ := channel_order hs k
  have hhand := hand_order ((channelProtocol_obeyed D).sound hs (.refresher k)).lawful
  have haskers : askers D k s.trace = responded (s.history (.refresher k)) ++
      (owed (s.history (.refresher k))).toList ++
        (s.world.instances k).queue.filterMap (·.responseChannel) ++
          lost.filterMap (·.responseChannel) := by
    unfold askers
    rw [hchannel.order, List.filterMap_append, List.filterMap_append, hhand]
  refine ⟨(askedOnce_of_reachable hs k).nodup, ?_, fun hopen => ?_⟩
  · rw [haskers, List.append_assoc, List.append_assoc]
    exact List.prefix_append _ _
  · rw [haskers, hchannel.kept hopen, List.filterMap_nil, List.append_nil]

/-- Two requests that have asked at the same time, and the response to the first. -/
theorem answers_in_order_two : ∃ s, (versionsDeployment builtVersions).Reachable s ∧
    responded (s.history (.refresher 0)) = [1] ∧
    (s.world.instances 0).queue = [ownMessage 0 randomProvider] ∧
    AnswersInOrder (versionsDeployment builtVersions) s 0 := by
  obtain ⟨s, hs, hview⟩ : ∃ s, (versionsDeployment builtVersions).Reachable s ∧
      (responded (s.history (.refresher 0)), (s.world.instances 0).queue) =
        ([1], [ownMessage 0 randomProvider]) :=
    Machine.exists_run_of_play (fun s : DeploymentState =>
        (responded (s.history (.refresher 0)), (s.world.instances 0).queue))
      (opened 0 ++ enqueued 1 randomProvider ++ enqueued 0 randomProvider ++
        [.start (.refresher 0), taken 0 1 randomProvider] ++
        refreshed 0 randomProvider builtVersions 1) rfl
  obtain ⟨hresponded, hqueue⟩ : _ ∧ _ := by simpa only [Prod.mk.injEq] using hview
  exact ⟨s, hs, hresponded, hqueue, answers_in_order _ s hs 0⟩

end Terrashine.Analysis
