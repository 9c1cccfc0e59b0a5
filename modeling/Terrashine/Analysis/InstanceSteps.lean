import Terrashine.Analysis.Connections
import Terrashine.Analysis.Progress

/-!
# What a step does to an instance

The channel, the cancellation token, the connections and the requests of an instance are changed
by few steps, each in its own way: `instance_step` lists them once.  Two invariants are read off
it.  A channel whose receiver is gone stays empty (`Closed`), and the requests in flight are those
that are being handled, each of them once (`Handles`).
-/

set_option autoImplicit false

namespace Terrashine.Analysis

open Terrashine.Library Terrashine.Model Terrashine.Interface

/-- The message that a step puts into the channel of instance `k`. -/
def put (D : Deployment) (k : ℕ) : DeploymentLabel → Option RefreshRequest
  | .call i ⟨.trySend message, .ok ()⟩ _ => if D.instanceOf i = k then some message else none
  | .call i ⟨.sendTimeout message _, .ok ()⟩ _ => if D.instanceOf i = k then some message else none
  | _ => none

/-- What the step `l` does to instance `k`. -/
inductive InstanceStep (D : Deployment) (k : ℕ) (l : DeploymentLabel) (i : Instance) :
    Instance → Prop
  | same : (∀ n, l = .start (.request n) → (D.requests n).instanceId ≠ k) →
      (∀ n, l = .finish (.request n) ∨ l = .drop (.request n) → (D.requests n).instanceId ≠ k) →
      InstanceStep D k l i i
  | enqueue (message : RefreshRequest) (hput : put D k l = some message)
      (hopen : i.receiverDropped = false) :
      InstanceStep D k l i { i with queue := i.queue ++ [message] }
  | take (message : RefreshRequest) (rest : List RefreshRequest) (applied : Bool)
      (hl : l = .call (.refresher k) ⟨.recvOrCancelled, some message⟩ applied)
      (hqueue : i.queue = message :: rest) :
      InstanceStep D k l i { i with queue := rest }
  | discard (applied : Bool) (hl : l = .call (.refresher k) ⟨.dropReceiver, ()⟩ applied) :
      InstanceStep D k l i { i with receiverDropped := true, queue := [] }
  | accept (hcall : ∃ j ev applied, l = .call j ev applied) :
      InstanceStep D k l i { i with connections := i.connections + 1 }
  | cancel (hl : l = .env (.cancel k)) : InstanceStep D k l i { i with cancelled := true }
  | close (hl : l = .env (.closeConnection k)) :
      InstanceStep D k l i { i with connections := i.connections - 1 }
  | begins (n : ℕ) (hl : l = .start (.request n)) (hk : (D.requests n).instanceId = k) :
      InstanceStep D k l i { i with inFlight := i.inFlight ++ [n] }
  | ends (n : ℕ) (hl : l = .finish (.request n) ∨ l = .drop (.request n))
      (hk : (D.requests n).instanceId = k) :
      InstanceStep D k l i { i with inFlight := i.inFlight.erase n }

section Steps

variable {D : Deployment} {s s' : DeploymentState} {l : DeploymentLabel} {k : ℕ}

/-- A step that is no start and no end of a request, and leaves the instance alone. -/
theorem InstanceStep.of_eq {i i' : Instance} (hstart : ∀ n, l ≠ .start (.request n))
    (hover : ∀ n, l ≠ .finish (.request n) ∧ l ≠ .drop (.request n)) (h : i' = i) :
    InstanceStep D k l i i' := by
  rw [h]
  refine .same (fun n heq => absurd heq (hstart n)) fun n heq => ?_
  rcases heq with heq | heq
  · exact absurd heq (hover n).1
  · exact absurd heq (hover n).2

/-- A call of a task on its own instance changes that one, and no other. -/
theorem instance_call (hs : D.Reachable s) {j : Task} {c : Call} {r : c.Ret} {applied : Bool}
    (hl : D.machine.Step s (.call j ⟨c, r⟩ applied) s')
    (hw : s.world.perform (D.instanceOf j) (Deployment.channelOf j) c r applied = some s'.world) :
    InstanceStep D k (.call j ⟨c, r⟩ applied) (s.world.instances k) (s'.world.instances k) := by
  have hsame : s'.world.instances k = s.world.instances k →
      InstanceStep D k (.call j ⟨c, r⟩ applied) (s.world.instances k) (s'.world.instances k) :=
    InstanceStep.of_eq (by simp) (by simp)
  have hcall : ∃ j' ev applied', (.call j ⟨c, r⟩ applied : DeploymentLabel) =
      .call j' ev applied' := ⟨_, _, _, rfl⟩
  have hset : ∀ i : Instance, s'.world = s.world.setInstance (D.instanceOf j) i →
      (D.instanceOf j = k → InstanceStep D k (.call j ⟨c, r⟩ applied) (s.world.instances k) i) →
      InstanceStep D k (.call j ⟨c, r⟩ applied) (s.world.instances k) (s'.world.instances k) := by
    intro i heq hown
    by_cases hk : D.instanceOf j = k
    · have hi : s'.world.instances k = i := by
        rw [heq, ← hk]
        simp [World.setInstance]
      rw [hi]
      exact hown hk
    · apply hsame
      rw [heq]
      simp [World.setInstance, Ne.symm hk]
  have henqueue : ∀ message, s.world.enqueue (D.instanceOf j) message = some s'.world →
      (D.instanceOf j = k → put D k (.call j ⟨c, r⟩ applied) = some message) →
      InstanceStep D k (.call j ⟨c, r⟩ applied) (s.world.instances k) (s'.world.instances k) := by
    intro message he hput
    obtain ⟨hopen, heq⟩ := enqueue_eq_some he
    refine hset _ heq fun hk => ?_
    rw [hk] at hopen ⊢
    exact .enqueue message (hput hk) hopen
  cases c with
  | trySend message =>
    rcases perform_trySend hw with ⟨rfl, he⟩ | ⟨-, heq⟩
    · exact henqueue _ he fun hk => if_pos hk
    · exact hsame (by rw [heq])
  | sendTimeout message seconds =>
    rcases perform_sendTimeout hw with ⟨rfl, he⟩ | ⟨-, heq⟩
    · exact henqueue _ he fun hk => if_pos hk
    · exact hsame (by rw [heq])
  | recvOrCancelled =>
    obtain ⟨k', rfl⟩ := refresher_of_call hs hl (.inl rfl)
    rcases perform_recvOrCancelled hw with ⟨message, rest, rfl, hqueue, heq⟩ | ⟨-, -, heq⟩
    · refine hset _ heq ?_
      rintro rfl
      exact .take message rest applied rfl hqueue
    · exact hsame (by rw [heq])
  | dropReceiver =>
    obtain ⟨k', rfl⟩ := refresher_of_call hs hl (.inr rfl)
    have heq : s'.world = s.world.dropReceiver k' := (Option.some.inj hw).symm
    by_cases hk : k' = k
    · subst hk
      have hi : s'.world.instances k' =
          { s.world.instances k' with receiverDropped := true, queue := [] } := by
        rw [heq]
        simp [World.dropReceiver, World.setInstance]
      rw [hi]
      exact .discard applied rfl
    · apply hsame
      rw [heq]
      simp [World.dropReceiver, World.setInstance, Ne.symm hk]
  | acceptOrCancelled =>
    rcases perform_acceptOrCancelled hw with ⟨-, heq⟩ | ⟨-, -, heq⟩
    · refine hset _ heq fun hk => ?_
      rw [hk]
      exact .accept hcall
    · exact hsame (by rw [heq])
  | respond channel response =>
    obtain ⟨-, heq⟩ := respond_eq_some hw
    exact hsame (by rw [heq]; rfl)
  | _ => exact hsame (by rw [(perform_frame hw).instances rfl])

/-- The end of a request, answered or dropped. -/
theorem instance_over {n : ℕ} (hl : l = .finish (.request n) ∨ l = .drop (.request n))
    (hw : s'.world = D.requestOver n s.world) :
    InstanceStep D k l (s.world.instances k) (s'.world.instances k) := by
  by_cases hk : (D.requests n).instanceId = k
  · have hi : s'.world.instances k = { s.world.instances k with
        inFlight := (s.world.instances k).inFlight.erase n } := by
      rw [hw, ← hk]
      simp [Deployment.requestOver, World.setInstance, World.setChannel]
    rw [hi]
    exact .ends n hl hk
  · have hi : s'.world.instances k = s.world.instances k := by
      rw [hw]
      simp [Deployment.requestOver, World.setInstance, World.setChannel, Ne.symm hk]
    rw [hi]
    refine .same (fun m heq => ?_) fun m heq => ?_
    · rcases hl with rfl | rfl <;> cases heq
    · rcases hl with rfl | rfl <;> rcases heq with heq | heq <;> cases heq <;> exact hk

/-- **What a step does to an instance.** -/
theorem instance_step (hs : D.Reachable s) (hl : D.machine.Step s l s') (k : ℕ) :
    InstanceStep D k l (s.world.instances k) (s'.world.instances k) := by
  have hkeep := hl
  cases hl with
  | start i w hp hw =>
    cases i with
    | request n =>
      have hw' : Deployment.start D (.request n) s.world = some w := hw
      unfold Deployment.start at hw'
      dsimp only at hw'
      split at hw'
      · cases hw'
        by_cases hk : (D.requests n).instanceId = k
        · subst hk
          simp only [State.advance_world, World.setInstance, Function.update_self]
          exact .begins n rfl rfl
        · simp only [State.advance_world, World.setInstance, Function.update_of_ne (Ne.symm hk)]
          refine .same (fun m heq => ?_) (by simp)
          cases heq
          exact hk
      · cases hw'
    | refresher k' =>
      cases hw
      exact .of_eq (by simp) (by simp) rfl
    | server k' =>
      cases hw
      exact .of_eq (by simp) (by simp) rfl
  | call i c next r applied w hp hw => exact instance_call hs hkeep hw
  | pick i next b hp => exact .of_eq (by simp) (by simp) rfl
  | again i a p hp ha => exact .of_eq (by simp) (by simp) rfl
  | finish i a hp ha =>
    cases i with
    | request n => exact instance_over (.inl rfl) rfl
    | refresher k' => exact .of_eq (by simp) (by simp) rfl
    | server k' => exact .of_eq (by simp) (by simp) rfl
  | drop i p w hp hw =>
    cases i with
    | request n =>
      cases hw
      exact instance_over (.inr rfl) rfl
    | refresher k' => cases hw
    | server k' => cases hw
  | env m w hw =>
    have hw' : Deployment.envMove m s.world = some w := hw
    cases m with
    | cancel k' =>
      cases hw'
      by_cases hk : k' = k
      · subst hk
        simp only [World.setInstance, Function.update_self]
        exact .cancel rfl
      · exact .of_eq (by simp) (by simp) (by simp [World.setInstance, Ne.symm hk])
    | closeConnection k' =>
      unfold Deployment.envMove at hw'
      dsimp only at hw'
      split at hw'
      · cases hw'
        by_cases hk : k' = k
        · subst hk
          simp only [World.setInstance, Function.update_self]
          exact .close rfl
        · exact .of_eq (by simp) (by simp) (by simp [World.setInstance, Ne.symm hk])
      · cases hw'
    | tick elapsed =>
      cases hw'
      exact .of_eq (by simp) (by simp) rfl
    | skipSequences q =>
      cases hw'
      exact .of_eq (by simp) (by simp) rfl

/-! ## A channel without a receiver -/

/-- The receiver is gone, and nothing is in the channel. -/
def Closed (i : Instance) : Prop := i.receiverDropped = true ∧ i.queue = []

/-- A closed channel stays closed after a step. -/
theorem InstanceStep.closed {i i' : Instance} (h : InstanceStep D k l i i') (hi : Closed i) :
    Closed i' := by
  obtain ⟨hdropped, hqueue⟩ := hi
  cases h with
  | enqueue message hput hopen =>
    rw [hdropped] at hopen
    cases hopen
  | take message rest applied hl hmessage =>
    rw [hqueue] at hmessage
    cases hmessage
  | discard applied hl => exact ⟨rfl, rfl⟩
  | _ => exact ⟨hdropped, hqueue⟩

/-- A closed channel stays closed after a run. -/
theorem closed_of_run (hs : D.Reachable s) (hlater : D.Leads s s')
    (hi : Closed (s.world.instances k)) : Closed (s'.world.instances k) := by
  induction hlater with
  | refl => exact hi
  | tail hr hstep ih =>
    obtain ⟨l, -, hl⟩ := hstep
    exact (instance_step (hs.trans hr) hl k).closed ih

/-- Dropping the receiver closes the channel. -/
theorem closed_of_discard {applied : Bool}
    (hl : D.machine.Step s (.call (.refresher k) ⟨.dropReceiver, ()⟩ applied) s') :
    Closed (s'.world.instances k) := by
  have heq : s'.world = s.world.dropReceiver k := (Option.some.inj (perform_of_step hl)).symm
  rw [heq]
  simp [Closed, World.dropReceiver, World.setInstance]

/-- The channel of a refresher that has dropped its receiver is closed from then on. -/
theorem closed_of_dropped (hs : D.Reachable s)
    (hmem : (⟨.dropReceiver, ()⟩ : IoEvent) ∈ s.history (.refresher k)) :
    Closed (s.world.instances k) := by
  obtain ⟨s₁, s₂, applied, hs₁, -, hl, hlater⟩ := Machine.exists_step hs hmem
  exact closed_of_run (hs₁.tail ⟨_, trivial, hl⟩) hlater (closed_of_discard hl)

/-! ## The requests in flight -/

/-- A request that is being handled goes on being handled, or is over with this step. -/
theorem busy_step {n : ℕ} (hl : D.machine.Step s l s') (hbusy : Busy s n) :
    Busy s' n ∨ l = .finish (.request n) ∨ l = .drop (.request n) := by
  have hmoved : ∀ (i : Task) (w : World) (t : Thread Call Call.Ret Answer),
      (i = .request n → ∃ p, t = .running p) → Busy (s.advance l w i t) n := by
    intro i w t ht
    by_cases hi : i = .request n
    · subst hi
      obtain ⟨p, rfl⟩ := ht rfl
      exact ⟨p, State.advance_pool_self s l w _ _⟩
    · exact (busy_advance hi).mpr hbusy
  cases hl with
  | start i w hp hw => exact .inl (hmoved i w _ fun _ => ⟨_, rfl⟩)
  | call i c next r applied w hp hw => exact .inl (hmoved i w _ fun _ => ⟨_, rfl⟩)
  | pick i next b hp => exact .inl (hmoved i _ _ fun _ => ⟨_, rfl⟩)
  | again i a p hp ha => exact .inl (hmoved i _ _ fun _ => ⟨_, rfl⟩)
  | finish i a hp ha =>
    by_cases hi : i = .request n
    · exact .inr (.inl (by rw [hi]))
    · exact .inl ((busy_advance hi).mpr hbusy)
  | drop i p w hp hw =>
    by_cases hi : i = .request n
    · exact .inr (.inr (by rw [hi]))
    · exact .inl ((busy_advance hi).mpr hbusy)
  | env m w hw => exact .inl hbusy

/-- The requests in flight are those that are being handled. -/
structure Handles (D : Deployment) (s : DeploymentState) (k : ℕ) : Prop where
  nodup : (s.world.instances k).inFlight.Nodup
  busy : ∀ n ∈ (s.world.instances k).inFlight, (D.requests n).instanceId = k ∧ Busy s n

/-- A step keeps the requests in flight those that are being handled. -/
theorem Handles.step (hs : D.Reachable s) (h : Handles D s k) (hl : D.machine.Step s l s') :
    Handles D s' k := by
  have hstays : ∀ n ∈ (s.world.instances k).inFlight,
      (l ≠ .finish (.request n) ∧ l ≠ .drop (.request n)) →
        (D.requests n).instanceId = k ∧ Busy s' n := by
    rintro n hn ⟨hfinish, hdrop⟩
    obtain ⟨hk, hbusy⟩ := h.busy n hn
    rcases busy_step hl hbusy with hbusy' | hover | hover
    · exact ⟨hk, hbusy'⟩
    · exact absurd hover hfinish
    · exact absurd hover hdrop
  have hsame : (s'.world.instances k).inFlight = (s.world.instances k).inFlight →
      (∀ n, (D.requests n).instanceId = k →
        l ≠ .finish (.request n) ∧ l ≠ .drop (.request n)) → Handles D s' k := by
    intro heq hnot
    rw [← heq] at hstays
    exact ⟨heq ▸ h.nodup, fun n hn => hstays n hn (hnot n (h.busy n (heq ▸ hn)).1)⟩
  have hmoves := instance_step hs hl k
  generalize hi : s'.world.instances k = i' at hmoves
  have hflight : (s'.world.instances k).inFlight = i'.inFlight := by rw [hi]
  cases hmoves with
  | same hstart hover =>
    refine hsame hflight fun n hn => ⟨?_, ?_⟩
    · exact fun heq => hover n (.inl heq) hn
    · exact fun heq => hover n (.inr heq) hn
  | enqueue message hput hopen =>
    refine hsame hflight fun n _ => ⟨?_, ?_⟩
    · rintro rfl
      cases hput
    · rintro rfl
      cases hput
  | take message rest applied hl' hqueue => exact hsame hflight fun n _ => by simp [hl']
  | accept hcall =>
    obtain ⟨j, ev, applied, rfl⟩ := hcall
    exact hsame hflight fun n _ => by simp
  | discard applied hl' => exact hsame hflight fun n _ => by simp [hl']
  | cancel hl' => exact hsame hflight fun n _ => by simp [hl']
  | close hl' => exact hsame hflight fun n _ => by simp [hl']
  | begins n hl' hk =>
    subst hl'
    have hwaiting : s.pool (.request n) = .waiting ∧ Busy s' n := by
      cases hl with
      | start i w hp hw => exact ⟨hp, _, State.advance_pool_self s _ w _ _⟩
    have hnew : n ∉ (s.world.instances k).inFlight := by
      intro hn
      obtain ⟨-, p, hp⟩ := h.busy n hn
      rw [hwaiting.1] at hp
      cases hp
    constructor
    · rw [hi]
      exact List.nodup_append.mpr ⟨h.nodup, List.nodup_singleton n, by
        rintro m hm m' hm' rfl
        exact hnew (List.mem_singleton.mp hm' ▸ hm)⟩
    · intro m hm
      rw [hi] at hm
      rcases List.mem_append.mp hm with hm | hm
      · exact hstays m hm (by simp)
      · rw [List.mem_singleton.mp hm]
        exact ⟨hk, hwaiting.2⟩
  | ends n hl' hk =>
    constructor
    · rw [hi]
      exact h.nodup.erase n
    · intro m hm
      rw [hi] at hm
      obtain ⟨hne, hm⟩ := h.nodup.mem_erase_iff.mp hm
      apply hstays m hm
      rcases hl' with rfl | rfl <;> simp [Ne.symm hne]

/-- In every reachable state the requests in flight are those that are being handled. -/
theorem handles_of_reachable (hs : D.Reachable s) (k : ℕ) : Handles D s k := by
  refine Machine.invariant (I := fun s => Handles D s k) ?_ ?_ hs
  · exact ⟨List.nodup_nil, fun n hn => absurd hn List.not_mem_nil⟩
  · intro s l s' hs ih _ hl
    exact ih.step hs hl

end Steps

end Terrashine.Analysis
