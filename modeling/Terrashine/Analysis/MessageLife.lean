import Terrashine.Analysis.ChannelProtocol

/-!
# The life of a message

The message of an index request is sent once, queued, taken out by the refresher of its
instance, and answered; or it is discarded with the queue.  `life` computes this from the
trace alone.  `Tracks` says that queue, channel and refresher show just that, and
`tracks_of_reachable` that they do so in every reachable state: no message is lost, doubled
or delivered to another instance.
-/

set_option autoImplicit false

namespace Terrashine.Analysis

open Terrashine.Library Terrashine.Model Terrashine.Interface

inductive Life where
  | unsent
  | queued (message : RefreshRequest)
  | inHand (message : RefreshRequest)
  | answered (response : RefreshResponse) (delivered : Bool)
  | discarded
  deriving DecidableEq

/-- What the queue holds of it. -/
def Life.queue : Life → List RefreshRequest
  | .queued message => [message]
  | _ => []

/-- What its channel holds. -/
def Life.value : Life → Oneshot
  | .answered response true => .sent response
  | .answered _ false => .closed
  | .discarded => .closed
  | _ => .pending

/-- The life of the message of request `n` after a call of a task of instance `k`. -/
def Life.afterCall (n instanceId k : ℕ) (life : Life) : IoEvent → Life
  | ⟨.trySend message, .ok ()⟩ =>
    if message.responseChannel = some n then .queued message else life
  | ⟨.sendTimeout message _, .ok ()⟩ =>
    if message.responseChannel = some n then .queued message else life
  | ⟨.recvOrCancelled, some message⟩ =>
    if message.responseChannel = some n then .inHand message else life
  | ⟨.respond channel response, delivered⟩ =>
    if channel = n then .answered response delivered else life
  | ⟨.dropReceiver, _⟩ => match life with
    | .queued message => if k = instanceId then .discarded else .queued message
    | _ => life
  | _ => life

def Life.after (D : Deployment) (n : ℕ) (life : Life) : DeploymentLabel → Life
  | .call i ev _ => life.afterCall n (D.requests n).instanceId (D.instanceOf i) ev
  | _ => life

/-- The life of the message of request `n` in a trace. -/
def life (D : Deployment) (n : ℕ) (trace : List DeploymentLabel) : Life :=
  trace.foldl (Life.after D n) .unsent

/-- Before the first step nothing has been sent. -/
@[simp] theorem life_nil (D : Deployment) (n : ℕ) : life D n [] = .unsent := rfl

/-- One more step goes on with the life. -/
@[simp] theorem life_concat (D : Deployment) (n : ℕ) (trace : List DeploymentLabel)
    (l : DeploymentLabel) : life D n (trace ++ [l]) = (life D n trace).after D n l := by
  simp [life]

/-- A call that keeps away from the channels changes no life. -/
theorem afterCall_of_keepsAway {n instanceId k : ℕ} {life : Life} {c : Call} {r : c.Ret}
    (hc : KeepsAway c) : life.afterCall n instanceId k ⟨c, r⟩ = life := by
  unfold KeepsAway at hc
  cases c <;> first | rfl | cases hc

/-- A call that keeps away from the channels leaves the message in hand. -/
theorem handAfter_of_keepsAway {hand : Option RefreshRequest} {c : Call} {r : c.Ret}
    (hc : KeepsAway c) : handAfter hand ⟨c, r⟩ = hand := by
  unfold KeepsAway at hc
  cases c <;> first | rfl | cases hc

/-- The messages for request `n` in the channel of instance `k`. -/
def mailFor (w : World) (k n : ℕ) : List RefreshRequest :=
  (w.instances k).queue.filter fun message => message.responseChannel = some n

/-- Queue, channel and refresher show the life of the message of request `n`. -/
structure Tracks (D : Deployment) (s : DeploymentState) (n : ℕ) : Prop where
  mail : ∀ k, mailFor s.world k n =
    if k = (D.requests n).instanceId then (life D n s.trace).queue else []
  value : (s.world.channels n).value = (life D n s.trace).value
  hand : ∀ k message, (inHand (s.history (.refresher k)) = some message ∧
      message.responseChannel = some n) ↔
    (k = (D.requests n).instanceId ∧ life D n s.trace = .inHand message)
  own : ∀ message, life D n s.trace = .queued message ∨ life D n s.trace = .inHand message →
    ∃ p, (D.requests n).route = .index p ∧ message = ownMessage n p
  sent : life D n s.trace ≠ .unsent →
    ∃ p, (⟨.sendTimeout (ownMessage n p) 1, .ok ()⟩ : IoEvent) ∈ s.history (.request n)

section Steps

variable {D : Deployment} {s s' : DeploymentState} {n : ℕ}

/-- At the start no message is anywhere. -/
theorem tracks_initial : Tracks D (Machine.initial World.initial) n := by
  refine ⟨fun k => ?_, rfl, fun k message => ?_, ?_, ?_⟩
  · split <;> rfl
  · constructor
    · rintro ⟨hhand, -⟩
      cases hhand
    · rintro ⟨-, hlife⟩
      cases hlife
  · rintro message (hlife | hlife) <;> cases hlife
  · intro hlife
    exact absurd rfl hlife

/-- A step that changes neither the life of the message nor what shows it. -/
theorem Tracks.frame (h : Tracks D s n) (hmail : ∀ k, mailFor s'.world k n = mailFor s.world k n)
    (hvalue : (s'.world.channels n).value = (s.world.channels n).value)
    (hlife : life D n s'.trace = life D n s.trace)
    (hhand : ∀ k message, message.responseChannel = some n →
      (inHand (s'.history (.refresher k)) = some message ↔
        inHand (s.history (.refresher k)) = some message))
    (hhistory : s.history (.request n) <+: s'.history (.request n)) : Tracks D s' n := by
  refine ⟨fun k => ?_, ?_, fun k message => ?_, ?_, ?_⟩
  · rw [hmail, hlife]
    exact h.mail k
  · rw [hvalue, hlife]
    exact h.value
  · rw [hlife, ← h.hand]
    constructor
    · rintro ⟨hm, hchannel⟩
      exact ⟨(hhand k message hchannel).mp hm, hchannel⟩
    · rintro ⟨hm, hchannel⟩
      exact ⟨(hhand k message hchannel).mpr hm, hchannel⟩
  · rw [hlife]
    exact h.own
  · rw [hlife]
    intro hne
    obtain ⟨p, hmem⟩ := h.sent hne
    exact ⟨p, hhistory.mem hmem⟩

/-- A step that is no call. -/
theorem Tracks.quiet {l : DeploymentLabel} (h : Tracks D s n) (hl : D.machine.Step s l s')
    (hq : Quiet l s.world s'.world) : Tracks D s' n := by
  have hown : ∀ i, Label.own i l = none := by
    intro i
    cases l with
    | call j ev applied => exact absurd rfl (hq.noCall j ev applied)
    | _ => rfl
  have hhistory : ∀ i, s'.history i = s.history i := by
    intro i
    rw [hl.history, hown]
    simp
  apply h.frame
  · intro k
    unfold mailFor
    rw [hq.queue]
  · exact hq.value n
  · rw [hl.trace, life_concat]
    cases l with
    | call j ev applied => exact absurd rfl (hq.noCall j ev applied)
    | _ => rfl
  · intro k message _
    rw [hhistory]
  · rw [hhistory]

/-! ## Calls -/

/-- A call goes on with it as `afterCall` says. -/
theorem life_call {i : Task} {ev : IoEvent} {applied : Bool}
    (hl : D.machine.Step s (.call i ev applied) s') :
    life D n s'.trace =
      (life D n s.trace).afterCall n (D.requests n).instanceId (D.instanceOf i) ev := by
  rw [hl.trace, life_concat]
  rfl

/-- What a request does puts nothing into the hand of a refresher. -/
theorem inHand_request {j : ℕ} {ev : IoEvent} {applied : Bool}
    (hl : D.machine.Step s (.call (.request j) ev applied) s') (k : ℕ) :
    inHand (s'.history (.refresher k)) = inHand (s.history (.refresher k)) := by
  rw [history_other (by simp) hl]

/-- What a refresher does changes its own hand. -/
theorem inHand_refresher {k₀ : ℕ} {ev : IoEvent} {applied : Bool}
    (hl : D.machine.Step s (.call (.refresher k₀) ev applied) s') (k : ℕ) :
    inHand (s'.history (.refresher k)) =
      if k = k₀ then handAfter (inHand (s.history (.refresher k))) ev
      else inHand (s.history (.refresher k)) := by
  by_cases hk : k = k₀
  · subst hk
    rw [if_pos rfl, history_self hl, inHand_concat]
  · rw [if_neg hk, history_other (by simpa using hk) hl]

/-- Messages put into the channel of instance `k`. -/
theorem mailFor_setQueue (w : World) (k k' : ℕ) (queue : List RefreshRequest) :
    mailFor (w.setInstance k { w.instances k with queue := queue }) k' n =
      if k' = k then queue.filter fun message => message.responseChannel = some n
      else mailFor w k' n := by
  unfold mailFor
  by_cases hk : k' = k
  · subst hk
    simp [World.setInstance]
  · simp [World.setInstance, hk]

/-- A message that is put into a channel stands in this one. -/
theorem mailFor_enqueue {w w' : World} {k k' : ℕ} {message : RefreshRequest}
    (hw : w.enqueue k message = some w') :
    mailFor w' k' n = mailFor w k' n ++
      if k' = k ∧ message.responseChannel = some n then [message] else [] := by
  obtain ⟨-, rfl⟩ := enqueue_eq_some hw
  rw [mailFor_setQueue]
  by_cases hk : k' = k
  · subst hk
    by_cases hm : message.responseChannel = some n
    · simp [mailFor, hm]
    · simp [mailFor, hm]
  · simp [hk]

/-- The message for request `n` at the head of the queue is its own. -/
theorem Tracks.head (h : Tracks D s n) {k : ℕ} {message : RefreshRequest}
    {rest : List RefreshRequest} (hqueue : (s.world.instances k).queue = message :: rest)
    (hchannel : message.responseChannel = some n) :
    k = (D.requests n).instanceId ∧ life D n s.trace = .queued message ∧
      rest.filter (fun message => message.responseChannel = some n) = [] := by
  have hmail := h.mail k
  unfold mailFor at hmail
  rw [hqueue, List.filter_cons_of_pos (by simpa using hchannel)] at hmail
  by_cases hk : k = (D.requests n).instanceId
  · rw [if_pos hk] at hmail
    cases hlife : life D n s.trace with
    | queued message' =>
      rw [hlife] at hmail
      obtain ⟨rfl, hrest⟩ := List.cons_eq_cons.mp hmail
      exact ⟨hk, rfl, hrest⟩
    | _ =>
      rw [hlife] at hmail
      cases hmail
  · rw [if_neg hk] at hmail
    cases hmail

/-- A call that keeps away from the channels. -/
theorem Tracks.keepsAway (h : Tracks D s n) {i : Task} {c : Call} {r : c.Ret} {applied : Bool}
    (hl : D.machine.Step s (.call i ⟨c, r⟩ applied) s') (hc : KeepsAway c)
    (hw : s.world.perform (D.instanceOf i) (Deployment.channelOf i) c r applied =
      some s'.world) : Tracks D s' n := by
  have hframe := perform_frame hw
  apply h.frame
  · intro k
    unfold mailFor
    rw [hframe.instances hc]
  · rw [hframe.channels hc]
  · rw [life_call hl, afterCall_of_keepsAway hc]
  · intro k message _
    by_cases hi : Task.refresher k = i
    · rw [← hi] at hl
      rw [inHand_refresher hl, if_pos rfl, handAfter_of_keepsAway hc]
    · rw [history_other hi hl]
  · exact history_extends hl _

/-- A request that is answered from the database wakes the refresher with a message that asks
for no response. -/
theorem Tracks.wake (h : Tracks D s n) {j : ℕ} {p : TerraformProvider}
    {r : (Call.trySend (wakeMessage p)).Ret} {applied : Bool}
    (hl : D.machine.Step s (.call (.request j) ⟨.trySend (wakeMessage p), r⟩ applied) s')
    (hw : s.world.perform (D.instanceOf (.request j)) (some j) (.trySend (wakeMessage p)) r
      applied = some s'.world) : Tracks D s' n := by
  have hchannel : (wakeMessage p).responseChannel ≠ some n := by simp [wakeMessage]
  apply h.frame
  · intro k
    rcases perform_trySend hw with ⟨-, henqueue⟩ | ⟨-, hsame⟩
    · rw [mailFor_enqueue henqueue]
      simp [hchannel]
    · rw [hsame]
  · rcases perform_trySend hw with ⟨-, henqueue⟩ | ⟨-, hsame⟩
    · obtain ⟨-, heq⟩ := enqueue_eq_some henqueue
      rw [heq]
      rfl
    · rw [hsame]
  · rw [life_call hl]
    cases r <;> rfl
  · intro k message _
    rw [inHand_request hl]
  · exact history_extends hl _

/-- Request `j` sends its message, for the first time. -/
theorem Tracks.send (h : Tracks D s n) {j : ℕ} {p : TerraformProvider}
    {r : (Call.sendTimeout (ownMessage j p) 1).Ret} {applied : Bool}
    (hl : D.machine.Step s (.call (.request j) ⟨.sendTimeout (ownMessage j p) 1, r⟩ applied) s')
    (hw : s.world.perform (D.instanceOf (.request j)) (some j) (.sendTimeout (ownMessage j p) 1) r
      applied = some s'.world) (hroute : (D.requests j).route = .index p)
    (hfirst : ∀ p' sent, (⟨.sendTimeout (ownMessage j p') 1, sent⟩ : IoEvent) ∉
      s.history (.request j)) : Tracks D s' n := by
  rcases perform_sendTimeout hw with ⟨rfl, henqueue⟩ | ⟨hr, hsame⟩
  · have hvalue : (s'.world.channels n).value = (s.world.channels n).value := by
      obtain ⟨-, heq⟩ := enqueue_eq_some henqueue
      rw [heq]
      rfl
    by_cases hj : j = n
    · -- it has no life yet
      subst hj
      have hunsent : life D j s.trace = .unsent := by
        by_contra hne
        obtain ⟨p', hmem⟩ := h.sent hne
        exact hfirst p' _ hmem
      have hlife : life D j s'.trace = .queued (ownMessage j p) := by
        rw [life_call hl]
        exact if_pos rfl
      have hmail := h.mail
      have hhand := h.hand
      rw [hunsent] at hmail hhand
      refine ⟨fun k => ?_, ?_, fun k message => ?_, ?_, ?_⟩
      · rw [mailFor_enqueue henqueue, hmail, hlife]
        by_cases hk : k = (D.requests j).instanceId
        · subst hk
          simp [Life.queue, Deployment.instanceOf, ownMessage]
        · simp [hk, Deployment.instanceOf]
      · rw [hvalue, hlife, h.value, hunsent]
        rfl
      · rw [inHand_request hl, hhand, hlife]
        simp
      · rw [hlife]
        rintro message (hm | hm)
        · cases hm
          exact ⟨p, hroute, rfl⟩
        · cases hm
      · intro _
        refine ⟨p, ?_⟩
        rw [history_self hl]
        simp
    · have hchannel : (ownMessage j p).responseChannel ≠ some n := by simpa [ownMessage] using hj
      apply h.frame
      · intro k
        rw [mailFor_enqueue henqueue]
        simp [hchannel]
      · exact hvalue
      · rw [life_call hl]
        exact if_neg hchannel
      · intro k message _
        rw [inHand_request hl]
      · exact history_extends hl _
  · apply h.frame
    · intro k
      rw [hsame]
    · rw [hsame]
    · rw [life_call hl]
      rcases r with err | u
      · rfl
      · exact absurd rfl (hr u)
    · intro k message _
      rw [inHand_request hl]
    · exact history_extends hl _

/-- The refresher of instance `k₀` takes a message out of its channel. -/
theorem Tracks.receive (h : Tracks D s n) {k₀ : ℕ} {r : Call.recvOrCancelled.Ret} {applied : Bool}
    (hl : D.machine.Step s (.call (.refresher k₀) ⟨.recvOrCancelled, r⟩ applied) s')
    (hw : s.world.perform k₀ none .recvOrCancelled r applied = some s'.world)
    (hfree : ∀ message, inHand (s.history (.refresher k₀)) = some message →
      message.responseChannel = none) : Tracks D s' n := by
  -- whatever it takes, no message of request `n` was in its hand
  have hempty : ∀ message, message.responseChannel = some n →
      inHand (s.history (.refresher k₀)) ≠ some message := by
    intro message hchannel hhand
    rw [hfree message hhand] at hchannel
    cases hchannel
  rcases perform_recvOrCancelled hw with ⟨message, rest, rfl, hqueue, heq⟩ | ⟨rfl, -, hsame⟩
  · have hvalue : (s'.world.channels n).value = (s.world.channels n).value := by
      rw [heq]
      rfl
    have hbefore : mailFor s.world k₀ n = (message :: rest).filter
        fun message => message.responseChannel = some n := by
      unfold mailFor
      rw [hqueue]
    have hafter : ∀ k, mailFor s'.world k n = if k = k₀ then rest.filter
        (fun message => message.responseChannel = some n) else mailFor s.world k n := by
      intro k
      rw [heq, mailFor_setQueue]
    by_cases hm : message.responseChannel = some n
    · obtain ⟨hk, hlife, hrest⟩ := h.head hqueue hm
      have hlife' : life D n s'.trace = .inHand message := by
        rw [life_call hl]
        exact if_pos hm
      subst hk
      refine ⟨fun k => ?_, ?_, fun k message' => ?_, ?_, ?_⟩
      · rw [hafter, h.mail, hlife']
        by_cases hk : k = (D.requests n).instanceId
        · rw [if_pos hk, if_pos hk, hrest]
          rfl
        · rw [if_neg hk, if_neg hk, if_neg hk]
      · rw [hvalue, h.value, hlife, hlife']
        rfl
      · rw [inHand_refresher hl, hlife']
        by_cases hk : k = (D.requests n).instanceId
        · rw [if_pos hk]
          constructor
          · rintro ⟨hhand, -⟩
            cases hhand
            exact ⟨hk, rfl⟩
          · rintro ⟨-, heq⟩
            cases heq
            exact ⟨rfl, hm⟩
        · rw [if_neg hk, h.hand, hlife]
          simp [hk]
      · rw [hlife']
        rintro message' (hmessage | hmessage)
        · cases hmessage
        · cases hmessage
          exact h.own message (.inl hlife)
      · intro _
        obtain ⟨p, hmem⟩ := h.sent (by rw [hlife]; simp)
        exact ⟨p, (history_extends hl _).mem hmem⟩
    · apply h.frame
      · intro k
        rw [hafter]
        by_cases hk : k = k₀
        · subst hk
          rw [if_pos rfl, hbefore, List.filter_cons_of_neg (by simpa using hm)]
        · rw [if_neg hk]
      · exact hvalue
      · rw [life_call hl]
        exact if_neg hm
      · intro k message' hchannel
        rw [inHand_refresher hl]
        by_cases hk : k = k₀
        · subst hk
          rw [if_pos rfl]
          constructor
          · intro hhand
            cases hhand
            exact absurd hchannel hm
          · intro hhand
            exact absurd hhand (hempty message' hchannel)
        · rw [if_neg hk]
      · exact history_extends hl _
  · apply h.frame
    · intro k
      rw [hsame]
    · rw [hsame]
    · rw [life_call hl]
      rfl
    · intro k message' hchannel
      rw [inHand_refresher hl]
      by_cases hk : k = k₀
      · subst hk
        rw [if_pos rfl]
        constructor
        · intro hhand
          cases hhand
        · intro hhand
          exact absurd hhand (hempty message' hchannel)
      · rw [if_neg hk]
    · exact history_extends hl _

/-- The refresher of instance `k₀` responds to the message in its hand. -/
theorem Tracks.respond (h : Tracks D s n) {k₀ channel : ℕ} {response : RefreshResponse}
    {delivered applied : Bool}
    (hl : D.machine.Step s (.call (.refresher k₀) ⟨.respond channel response, delivered⟩ applied)
      s')
    (hw : s.world.perform k₀ none (.respond channel response) delivered applied = some s'.world)
    (hhand : ∃ p, inHand (s.history (.refresher k₀)) = some (ownMessage channel p)) :
    Tracks D s' n := by
  obtain ⟨p, hhand⟩ := hhand
  obtain ⟨-, heq⟩ := respond_eq_some hw
  have hmail : ∀ k, mailFor s'.world k n = mailFor s.world k n := by
    intro k
    rw [heq]
    rfl
  by_cases hchannel : channel = n
  · subst hchannel
    obtain ⟨hk, hlife⟩ := (h.hand k₀ _).mp ⟨hhand, rfl⟩
    subst hk
    have hlife' : life D channel s'.trace = .answered response delivered := by
      rw [life_call hl]
      exact if_pos rfl
    refine ⟨fun k => ?_, ?_, fun k message => ?_, ?_, ?_⟩
    · rw [hmail, h.mail, hlife, hlife']
      rfl
    · rw [heq, hlife']
      cases delivered <;> simp [World.setChannel, Life.value]
    · rw [inHand_refresher hl, hlife']
      by_cases hk : k = (D.requests channel).instanceId
      · simp [hk, handAfter]
      · rw [if_neg hk, h.hand]
        simp [hk]
    · rw [hlife']
      rintro message (hm | hm) <;> cases hm
    · intro _
      obtain ⟨p', hmem⟩ := h.sent (by rw [hlife]; simp)
      exact ⟨p', (history_extends hl _).mem hmem⟩
  · apply h.frame hmail
    · rw [heq]
      simp [World.setChannel, Ne.symm hchannel]
    · rw [life_call hl]
      exact if_neg hchannel
    · intro k message hm
      rw [inHand_refresher hl]
      by_cases hk : k = k₀
      · subst hk
        rw [if_pos rfl, hhand]
        constructor
        · intro hnone
          cases hnone
        · intro hsome
          cases hsome
          exact absurd (Option.some.inj hm) hchannel
      · rw [if_neg hk]
    · exact history_extends hl _

/-- The receiver of instance `k₀` is dropped with the messages still in the channel. -/
theorem Tracks.discard (h : Tracks D s n) {k₀ : ℕ} {r : Call.dropReceiver.Ret} {applied : Bool}
    (hl : D.machine.Step s (.call (.refresher k₀) ⟨.dropReceiver, r⟩ applied) s')
    (hw : s.world.perform k₀ none .dropReceiver r applied = some s'.world) : Tracks D s' n := by
  have heq : s'.world = s.world.dropReceiver k₀ := (Option.some.inj hw).symm
  have hmail : ∀ k, mailFor s'.world k n = if k = k₀ then [] else mailFor s.world k n := by
    intro k
    rw [heq]
    by_cases hk : k = k₀
    · subst hk
      simp [mailFor, World.dropReceiver, World.setInstance]
    · simp [mailFor, World.dropReceiver, World.setInstance, hk]
  have hvalue : (s'.world.channels n).value =
      if mailFor s.world k₀ n = [] then (s.world.channels n).value else .closed := by
    have hmem : some n ∈ (s.world.instances k₀).queue.map (·.responseChannel) ↔
        mailFor s.world k₀ n ≠ [] := by
      unfold mailFor
      simp [List.filter_eq_nil_iff]
    rw [heq]
    unfold World.dropReceiver
    by_cases hnil : mailFor s.world k₀ n = []
    · simp only [hmem, hnil, ne_eq, not_true_eq_false, if_false, if_true]
    · simp only [hmem, hnil, ne_eq, not_false_eq_true, if_true, if_false]
  have hhand : ∀ k, inHand (s'.history (.refresher k)) = inHand (s.history (.refresher k)) := by
    intro k
    rw [inHand_refresher hl]
    split <;> rfl
  by_cases hqueued : k₀ = (D.requests n).instanceId ∧ ∃ message, life D n s.trace = .queued message
  · obtain ⟨rfl, message, hlife⟩ := hqueued
    have hlife' : life D n s'.trace = .discarded := by
      rw [life_call hl, hlife]
      exact if_pos rfl
    have hnonempty : mailFor s.world (D.requests n).instanceId n ≠ [] := by
      rw [h.mail, if_pos rfl, hlife]
      simp [Life.queue]
    refine ⟨fun k => ?_, ?_, fun k message' => ?_, ?_, ?_⟩
    · rw [hmail, h.mail, hlife']
      split <;> rfl
    · rw [hvalue, if_neg hnonempty, hlife']
      rfl
    · rw [hhand, h.hand, hlife, hlife']
      simp
    · rw [hlife']
      rintro message' (hm | hm) <;> cases hm
    · intro _
      obtain ⟨p, hmem⟩ := h.sent (by rw [hlife]; simp)
      exact ⟨p, (history_extends hl _).mem hmem⟩
  · have hnil : mailFor s.world k₀ n = [] := by
      rw [h.mail]
      split
      · next hk =>
        cases hlife : life D n s.trace with
        | queued message => exact absurd ⟨hk, message, hlife⟩ hqueued
        | _ => rfl
      · rfl
    apply h.frame
    · intro k
      rw [hmail]
      split
      · next hk => rw [hk, hnil]
      · rfl
    · rw [hvalue, if_pos hnil]
    · rw [life_call hl]
      cases hlife : life D n s.trace with
      | queued message =>
        apply if_neg
        intro hk
        exact hqueued ⟨hk, message, hlife⟩
      | _ => rfl
    · intro k message' _
      rw [hhand]
    · exact history_extends hl _

/-- The message whose own response is sent is the one in hand. -/
theorem OwnResponse.inHand {deps : Externals} {port channel : ℕ} {response : RefreshResponse}
    {h : List IoEvent} (hown : OwnResponse deps port channel response h) :
    ∃ p, Terrashine.Analysis.inHand h = some (ownMessage channel p) := by
  obtain ⟨p, before, tr, rfl, hworking, -⟩ := hown
  exact ⟨p, inHand_during hworking⟩

/-- **Every step of the deployment is one in the life of each message.** -/
theorem Tracks.step {l : DeploymentLabel} (hs : D.Reachable s) (h : Tracks D s n)
    (hl : D.machine.Step s l s') : Tracks D s' n := by
  rcases step_cases hl with ⟨i, ⟨c, r⟩, applied, rfl, hw⟩ | hq
  · have hallowed := (channelProtocol_obeyed D).allowed_step hs hl
    cases i with
    | request j =>
      obtain ⟨hindex, hother⟩ := hallowed
      by_cases hroute : ∃ p, (D.requests j).route = .index p
      · obtain ⟨p, hp⟩ := hroute
        have hcall := hindex p hp
        dsimp only at hcall
        generalize hh : s.history (.request j) = history at hcall
        cases hcall with
        | read => exact h.keepsAway hl rfl hw
        | wake r' index hknown => exact h.wake hl hw
        | send r' hknown =>
          apply h.send hl hw hp
          intro p' sent
          rw [hh]
          simp
        | wait r' hknown => exact h.keepsAway hl rfl hw
      · push Not at hroute
        exact h.keepsAway hl (hother hroute) hw
    | refresher k =>
      obtain ⟨-, hcall⟩ := hallowed
      cases c with
      | recvOrCancelled => exact h.receive hl hw hcall
      | respond channel response => exact h.respond hl hw (OwnResponse.inHand hcall)
      | dropReceiver => exact h.discard hl hw
      | httpGet request => exact h.keepsAway hl rfl hw
      | selectAuthToken hostname => exact h.keepsAway hl rfl hw
      | storeProviderVersions p response => exact h.keepsAway hl rfl hw
      | instantNow => exact h.keepsAway hl rfl hw
      | _ => exact hcall.elim
    | server k =>
      rcases hallowed.2 with hc | hc
      · dsimp only at hc
        subst hc
        have hcalm : (∀ k', (s'.world.instances k').queue = (s.world.instances k').queue) ∧
            s'.world.channels = s.world.channels := by
          rcases perform_acceptOrCancelled hw with ⟨-, heq⟩ | ⟨-, -, hsame⟩
          · rw [heq]
            refine ⟨fun k' => ?_, rfl⟩
            by_cases hk : k' = k
            · subst hk
              simp [World.setInstance, Deployment.instanceOf]
            · simp [World.setInstance, Deployment.instanceOf, hk]
          · rw [hsame]
            exact ⟨fun _ => rfl, rfl⟩
        apply h.frame
        · intro k'
          unfold mailFor
          rw [hcalm.1]
        · rw [hcalm.2]
        · rw [life_call hl]
          rfl
        · intro k' message _
          rw [history_other (by simp) hl]
        · exact history_extends hl _
      · dsimp only at hc
        subst hc
        exact h.keepsAway hl rfl hw
  · exact h.quiet hl hq

/-- **In every reachable state queue, channel and refresher show the life of each message.** -/
theorem tracks_of_reachable (hs : D.Reachable s) (n : ℕ) : Tracks D s n := by
  refine Machine.invariant (I := fun s => Tracks D s n) tracks_initial ?_ hs
  intro s l s' hs ih _ hl
  exact ih.step hs hl

end Steps

/-! ## One step in a life -/

/-- What one step does to the message of request `n`: it stays, or it goes on by the one call
that moves it from where it is. -/
inductive LifeStep (D : Deployment) (n : ℕ) (l : DeploymentLabel) : Life → Life → Prop
  | stays (life : Life) : LifeStep D n l life life
  | sends (p : TerraformProvider) (applied : Bool) :
      l = .call (.request n) ⟨.sendTimeout (ownMessage n p) 1, .ok ()⟩ applied →
      LifeStep D n l .unsent (.queued (ownMessage n p))
  | takes (message : RefreshRequest) (applied : Bool) :
      l = .call (.refresher (D.requests n).instanceId) ⟨.recvOrCancelled, some message⟩ applied →
      LifeStep D n l (.queued message) (.inHand message)
  | answers (message : RefreshRequest) (response : RefreshResponse) (delivered applied : Bool) :
      l = .call (.refresher (D.requests n).instanceId) ⟨.respond n response, delivered⟩ applied →
      LifeStep D n l (.inHand message) (.answered response delivered)
  | discards (message : RefreshRequest) (applied : Bool) :
      l = .call (.refresher (D.requests n).instanceId) ⟨.dropReceiver, ()⟩ applied →
      LifeStep D n l (.queued message) .discarded

section LifeSteps

variable {D : Deployment} {s s' : DeploymentState} {n : ℕ}

/-- **A message only moves by its own calls.** -/
theorem lifeStep {l : DeploymentLabel} (hs : D.Reachable s) (hl : D.machine.Step s l s') :
    LifeStep D n l (life D n s.trace) (life D n s'.trace) := by
  have htracks := tracks_of_reachable hs n
  have hstays : life D n s'.trace = life D n s.trace →
      LifeStep D n l (life D n s.trace) (life D n s'.trace) := by
    intro hsame
    rw [hsame]
    exact .stays _
  rcases step_cases hl with ⟨i, ⟨c, r⟩, applied, rfl, hw⟩ | hq
  · have hallowed := (channelProtocol_obeyed D).allowed_step hs hl
    have hlife := life_call (n := n) hl
    have haway : KeepsAway c → LifeStep D n (.call i ⟨c, r⟩ applied) (life D n s.trace)
        (life D n s'.trace) := by
      intro hc
      rw [hlife, afterCall_of_keepsAway hc]
      exact .stays _
    cases i with
    | request j =>
      obtain ⟨hindex, hother⟩ := hallowed
      by_cases hroute : ∃ p, (D.requests j).route = .index p
      · obtain ⟨p, hp⟩ := hroute
        have hcall := hindex p hp
        dsimp only at hcall
        generalize hh : s.history (.request j) = history at hcall
        cases hcall with
        | read => exact haway rfl
        | wake r' index hknown =>
          apply hstays
          rw [hlife]
          cases r <;> rfl
        | wait r' hknown => exact haway rfl
        | send r' hknown =>
          cases r with
          | error err =>
            apply hstays
            rw [hlife]
            rfl
          | ok u =>
            by_cases hj : j = n
            · subst hj
              have hunsent : life D j s.trace = .unsent := by
                by_contra hne
                obtain ⟨p', hmem⟩ := htracks.sent hne
                rw [hh] at hmem
                simp at hmem
              have hqueued : life D j s'.trace = .queued (ownMessage j p) := by
                rw [hlife]
                exact if_pos rfl
              rw [hunsent, hqueued]
              exact .sends p applied rfl
            · apply hstays
              rw [hlife]
              exact if_neg (by simpa [ownMessage] using hj)
      · push Not at hroute
        exact haway (hother hroute)
    | server k =>
      rcases hallowed.2 with hc | hc
      · dsimp only at hc
        subst hc
        apply hstays
        rw [hlife]
        rfl
      · dsimp only at hc
        subst hc
        exact haway rfl
    | refresher k =>
      obtain ⟨-, hcall⟩ := hallowed
      cases c with
      | recvOrCancelled =>
        rcases perform_recvOrCancelled hw with ⟨message, rest, rfl, hqueue, -⟩ | ⟨rfl, -, -⟩
        · by_cases hm : message.responseChannel = some n
          · obtain ⟨hk, hqueued, -⟩ := htracks.head hqueue hm
            dsimp only [Deployment.instanceOf] at hk
            subst hk
            have hinHand : life D n s'.trace = .inHand message := by
              rw [hlife]
              exact if_pos hm
            rw [hqueued, hinHand]
            exact .takes message applied rfl
          · apply hstays
            rw [hlife]
            exact if_neg hm
        · apply hstays
          rw [hlife]
          rfl
      | respond channel response =>
        by_cases hchannel : channel = n
        · subst hchannel
          obtain ⟨p, hhand⟩ := OwnResponse.inHand hcall
          obtain ⟨rfl, hinHand⟩ := (htracks.hand k _).mp ⟨hhand, rfl⟩
          have hanswered : life D channel s'.trace = .answered response r := by
            rw [hlife]
            exact if_pos rfl
          rw [hinHand, hanswered]
          exact .answers _ response r applied rfl
        · apply hstays
          rw [hlife]
          exact if_neg hchannel
      | dropReceiver =>
        by_cases hqueued : k = (D.requests n).instanceId ∧
            ∃ message, life D n s.trace = .queued message
        · obtain ⟨rfl, message, hlife'⟩ := hqueued
          have hdiscarded : life D n s'.trace = .discarded := by
            rw [hlife, hlife']
            exact if_pos rfl
          rw [hlife', hdiscarded]
          exact .discards message applied rfl
        · apply hstays
          rw [hlife]
          cases hlife' : life D n s.trace with
          | queued message =>
            apply if_neg
            intro hk
            exact hqueued ⟨hk, message, hlife'⟩
          | _ => rfl
      | httpGet request => exact haway rfl
      | selectAuthToken hostname => exact haway rfl
      | storeProviderVersions p response => exact haway rfl
      | instantNow => exact haway rfl
      | _ => exact hcall.elim
  · apply hstays
    rw [hl.trace, life_concat]
    cases l with
    | call j ev applied => exact absurd rfl (hq.noCall j ev applied)
    | _ => rfl

end LifeSteps

end Terrashine.Analysis
