import Terrashine.Analysis.ChannelProtocol

/-!
# Open connections

A request is handled on an open connection, and the connection stays open for as long as it
is handled.  The accept loop ends when it has waited for all connections, so once it has
ended no request of its instance is being handled.  Nobody but the request itself listens to
its response channel, and it does so until it is over.
-/

set_option autoImplicit false

namespace Terrashine.Analysis

open Terrashine.Library Terrashine.Model Terrashine.Interface

/-- Request `n` is being handled. -/
def Busy (s : DeploymentState) (n : ℕ) : Prop := ∃ p, s.pool (.request n) = .running p

/-- Request `n` has been answered, or its client has gone away. -/
def Over (s : DeploymentState) (n : ℕ) : Prop :=
  (∃ a, s.pool (.request n) = .finished a) ∨ s.pool (.request n) = .dropped

/-- A request that is over is not being handled. -/
theorem Over.not_busy {s : DeploymentState} {n : ℕ} (h : Over s n) : ¬ Busy s n := by
  rintro ⟨p, hp⟩
  rcases h with ⟨a, ha⟩ | hd
  · rw [hp] at ha
    cases ha
  · rw [hp] at hd
    cases hd

/-- No connection was opened or closed, and no request began or ended. -/
structure Calm (w w' : World) : Prop where
  connections : ∀ k, (w'.instances k).connections = (w.instances k).connections
  inFlight : ∀ k, (w'.instances k).inFlight = (w.instances k).inFlight
  listening : ∀ n, (w'.channels n).listening = (w.channels n).listening

section Calls

variable {w w' : World} {k : ℕ}

/-- A world that stays the same is calm. -/
theorem Calm.refl (w : World) : Calm w w := ⟨fun _ => rfl, fun _ => rfl, fun _ => rfl⟩

/-- A change of an instance that keeps its connections and requests is calm. -/
theorem Calm.setInstance {i : Instance} (hconnections : i.connections = (w.instances k).connections)
    (hinFlight : i.inFlight = (w.instances k).inFlight) : Calm w (w.setInstance k i) := by
  refine ⟨fun k' => ?_, fun k' => ?_, fun _ => rfl⟩
  · by_cases hk : k' = k
    · subst hk
      simpa [World.setInstance] using hconnections
    · simp [World.setInstance, hk]
  · by_cases hk : k' = k
    · subst hk
      simpa [World.setInstance] using hinFlight
    · simp [World.setInstance, hk]

/-- Putting a message into a channel is calm. -/
theorem Calm.enqueue {message : RefreshRequest} (h : w.enqueue k message = some w') :
    Calm w w' := by
  obtain ⟨-, rfl⟩ := enqueue_eq_some h
  exact Calm.setInstance rfl rfl

/-- Only the accept loop opens connections. -/
theorem Calm.perform {channel : Option ℕ} {applied : Bool} {c : Call} {r : c.Ret}
    (hc : c ≠ .acceptOrCancelled) (h : w.perform k channel c r applied = some w') : Calm w w' := by
  have hframe := perform_frame h
  have haway : onInstances c = false → Calm w w' := by
    intro hq
    have hinstances := hframe.instances hq
    have hchannels := hframe.channels hq
    exact ⟨fun k' => by rw [hinstances], fun k' => by rw [hinstances], fun n => by rw [hchannels]⟩
  cases c with
  | trySend message =>
    rcases perform_trySend h with ⟨-, henqueue⟩ | ⟨-, hsame⟩
    · exact .enqueue henqueue
    · rw [hsame]
      exact .refl w
  | sendTimeout message seconds =>
    rcases perform_sendTimeout h with ⟨-, henqueue⟩ | ⟨-, hsame⟩
    · exact .enqueue henqueue
    · rw [hsame]
      exact .refl w
  | respond n response =>
    obtain ⟨-, rfl⟩ := respond_eq_some h
    refine ⟨fun _ => rfl, fun _ => rfl, fun m => ?_⟩
    by_cases hm : m = n
    · simp [World.setChannel, hm]
    · simp [World.setChannel, hm]
  | recvOrCancelled =>
    rcases perform_recvOrCancelled h with ⟨message, rest, -, -, heq⟩ | ⟨-, -, hsame⟩
    · rw [heq]
      exact .setInstance rfl rfl
    · rw [hsame]
      exact .refl w
  | dropReceiver =>
    cases h
    have hcalm : Calm w
        (w.setInstance k { w.instances k with receiverDropped := true, queue := [] }) :=
      .setInstance rfl rfl
    refine ⟨hcalm.connections, hcalm.inFlight, fun n => ?_⟩
    simp only [World.dropReceiver]
    split <;> rfl
  | acceptOrCancelled => exact absurd rfl hc
  | _ => exact haway rfl

end Calls

/-! ## The invariant -/

/-- How the requests, the connections and the channels of a state fit together. -/
structure Serves (D : Deployment) (s : DeploymentState) : Prop where
  inFlight : ∀ n, Busy s n → n ∈ (s.world.instances (D.requests n).instanceId).inFlight
  idle : ∀ k, (s.world.instances k).connections = 0 → (s.world.instances k).inFlight = []
  joined : ∀ k, Joined (s.history (.server k)) → (s.world.instances k).connections = 0
  gone : ∀ n, (s.world.channels n).listening = false → Over s n

section Steps

variable {D : Deployment} {s s' : DeploymentState} {l : DeploymentLabel} {w : World} {i : Task}
  {t : Thread Call Call.Ret Answer}

/-- At the start no connection is open and no request has begun. -/
theorem serves_initial (D : Deployment) : Serves D (Machine.initial World.initial) := by
  refine ⟨fun n hbusy => ?_, fun _ _ => rfl, fun k hjoined => ?_, fun n hgone => ?_⟩
  · obtain ⟨p, hp⟩ := hbusy
    cases hp
  · exact absurd hjoined List.not_mem_nil
  · cases hgone

/-- A step in which no request begins or ends. -/
theorem Serves.frame (h : Serves D s) (hw : Calm s.world s'.world)
    (hbusy : ∀ n, Busy s' n → Busy s n) (hover : ∀ n, Over s n → Over s' n)
    (hjoined : ∀ k, Joined (s'.history (.server k)) → (s.world.instances k).connections = 0) :
    Serves D s' := by
  refine ⟨fun n hn => ?_, fun k hk => ?_, fun k hk => ?_, fun n hn => ?_⟩
  · rw [hw.inFlight]
    exact h.inFlight n (hbusy n hn)
  · rw [hw.connections] at hk
    rw [hw.inFlight]
    exact h.idle k hk
  · rw [hw.connections]
    exact hjoined k hk
  · rw [hw.listening] at hn
    exact hover n (h.gone n hn)

/-- A request is handled after a step of another task exactly when it was before. -/
theorem busy_advance {n : ℕ} (hn : i ≠ .request n) :
    Busy (s.advance l w i t) n ↔ Busy s n := by
  unfold Busy
  rw [State.advance_pool_of_ne s l w t hn.symm]

/-- A request is over after a step of another task exactly when it was before. -/
theorem over_advance {n : ℕ} (hn : i ≠ .request n) :
    Over (s.advance l w i t) n ↔ Over s n := by
  unfold Over
  rw [State.advance_pool_of_ne s l w t hn.symm]

/-- A task that runs before and after a step. -/
theorem Serves.runs (h : Serves D s) {p q : Io Answer} (hp : s.pool i = .running p)
    (hw : Calm s.world w)
    (hjoined : ∀ k, Joined ((s.advance l w i (.running q)).history (.server k)) →
      (s.world.instances k).connections = 0) : Serves D (s.advance l w i (.running q)) := by
  apply h.frame hw
  · intro n hbusy
    by_cases hn : i = .request n
    · subst hn
      exact ⟨p, hp⟩
    · exact (busy_advance hn).mp hbusy
  · intro n hover
    by_cases hn : i = .request n
    · subst hn
      exact absurd ⟨p, hp⟩ hover.not_busy
    · exact (over_advance hn).mpr hover
  · exact hjoined

/-- A step that is no call tells the accept loops nothing. -/
theorem joined_advance (h : Serves D s) (hl : ∀ j, Label.own j l = none) {k : ℕ}
    (hk : Joined ((s.advance l w i t).history (.server k))) :
    (s.world.instances k).connections = 0 := by
  rw [State.advance_history, hl] at hk
  exact h.joined k (by simpa using hk)

/-- A loop begins or ends. -/
theorem Serves.loop (h : Serves D s) (hi : ∀ n, i ≠ .request n)
    (hl : ∀ j, Label.own j l = none) : Serves D (s.advance l s.world i t) := by
  have hcalm : Calm s.world (s.advance l s.world i t).world := Calm.refl _
  apply h.frame hcalm
  · exact fun n => (busy_advance (hi n)).mp
  · exact fun n => (over_advance (hi n)).mpr
  · exact fun k => joined_advance h hl

/-- Request `n` begins on an open connection. -/
theorem Serves.starts {n : ℕ} (h : Serves D s) (hp : s.pool (.request n) = .waiting)
    (hw : Deployment.start D (.request n) s.world = some w) (q : Io Answer) :
    Serves D (s.advance (.start (.request n)) w (.request n) (.running q)) := by
  unfold Deployment.start at hw
  dsimp only at hw
  split at hw
  · next hopen =>
    cases hw
    refine ⟨fun m hm => ?_, fun k hk => ?_, fun k hk => ?_, fun m hm => ?_⟩
    · by_cases hnm : Task.request n = .request m
      · cases hnm
        simp [World.setInstance]
      · have hold := h.inFlight m ((busy_advance hnm).mp hm)
        by_cases hk : (D.requests m).instanceId = (D.requests n).instanceId
        · rw [hk] at hold ⊢
          simp [World.setInstance, hold]
        · simpa [World.setInstance, hk] using hold
    · by_cases hkn : k = (D.requests n).instanceId
      · subst hkn
        simp [World.setInstance] at hk
        omega
      · simp only [State.advance_world, World.setInstance, Function.update_of_ne hkn] at hk ⊢
        exact h.idle k hk
    · have hold := joined_advance h (fun _ => rfl) hk
      by_cases hkn : k = (D.requests n).instanceId
      · subst hkn
        omega
      · simpa [World.setInstance, hkn] using hold
    · by_cases hnm : Task.request n = .request m
      · cases hnm
        rcases h.gone n hm with ⟨a, ha⟩ | hd
        · rw [hp] at ha
          cases ha
        · rw [hp] at hd
          cases hd
      · exact (over_advance hnm).mpr (h.gone m hm)
  · cases hw

/-- Request `n` is over. -/
theorem Serves.ends {n : ℕ} (h : Serves D s) (hl : ∀ j, Label.own j l = none)
    (ht : (∃ a, t = .finished a) ∨ t = .dropped) :
    Serves D (s.advance l (D.requestOver n s.world) (.request n) t) := by
  have hself : Over (s.advance l (D.requestOver n s.world) (.request n) t) n := by
    simpa [Over] using ht
  have hconnections : ∀ k, ((D.requestOver n s.world).instances k).connections =
      (s.world.instances k).connections := by
    intro k
    by_cases hk : k = (D.requests n).instanceId
    · subst hk
      simp [Deployment.requestOver, World.setInstance, World.setChannel]
    · simp [Deployment.requestOver, World.setInstance, World.setChannel, hk]
  refine ⟨fun m hm => ?_, fun k hk => ?_, fun k hk => ?_, fun m hm => ?_⟩
  · have hnm : n ≠ m := by
      intro hnm
      subst hnm
      exact hself.not_busy hm
    have hold := h.inFlight m ((busy_advance (by simpa using hnm)).mp hm)
    by_cases hk : (D.requests m).instanceId = (D.requests n).instanceId
    · rw [hk] at hold ⊢
      have hmem := (List.mem_erase_of_ne hnm.symm).mpr hold
      simpa [Deployment.requestOver, World.setInstance, World.setChannel] using hmem
    · simpa [Deployment.requestOver, World.setInstance, World.setChannel, hk] using hold
  · rw [State.advance_world, hconnections] at hk
    have hold := h.idle k hk
    by_cases hkn : k = (D.requests n).instanceId
    · subst hkn
      simp [Deployment.requestOver, World.setInstance, World.setChannel, hold]
    · simpa [Deployment.requestOver, World.setInstance, World.setChannel, hkn] using hold
  · rw [State.advance_world, hconnections]
    exact joined_advance h hl hk
  · by_cases hnm : m = n
    · rw [hnm]
      exact hself
    · rw [over_advance (by simpa using Ne.symm hnm)]
      apply h.gone m
      simpa [Deployment.requestOver, World.setInstance, World.setChannel, hnm] using hm

/-- The accept loop of instance `k` is called back. -/
theorem Serves.accepts {k : ℕ} {p q : Io Answer} {r : Call.acceptOrCancelled.Ret} {applied : Bool}
    (h : Serves D s) (hp : s.pool (.server k) = .running p)
    (hopen : ¬ Joined (s.history (.server k)))
    (hw : s.world.perform k none .acceptOrCancelled r applied = some w) :
    Serves D (s.advance (.call (.server k) ⟨.acceptOrCancelled, r⟩ applied) w (.server k)
      (.running q)) := by
  have hjoined : ∀ k', Joined ((s.advance (.call (.server k) ⟨.acceptOrCancelled, r⟩ applied) w
      (.server k) (.running q)).history (.server k')) → k' ≠ k ∧ Joined (s.history (.server k')) := by
    intro k' hk'
    have hold : Joined (s.history (.server k')) := by
      rw [State.advance_history] at hk'
      rcases List.mem_append.mp hk' with hmem | hmem
      · exact hmem
      · by_cases hk : k = k'
        · simp [Label.own, hk] at hmem
        · simp [Label.own, hk] at hmem
    refine ⟨?_, hold⟩
    intro hk
    rw [hk] at hold
    exact hopen hold
  rcases perform_acceptOrCancelled hw with ⟨-, rfl⟩ | ⟨-, -, rfl⟩
  · have hother : ∀ m, Task.server k ≠ .request m := by simp
    refine ⟨fun m hm => ?_, fun k' hk' => ?_, fun k' hk' => ?_, fun m hm => ?_⟩
    · have hold := h.inFlight m ((busy_advance (hother m)).mp hm)
      by_cases hk : (D.requests m).instanceId = k
      · subst hk
        simpa [World.setInstance] using hold
      · simpa [World.setInstance, hk] using hold
    · by_cases hk : k' = k
      · subst hk
        simp [World.setInstance] at hk'
      · simp only [State.advance_world, World.setInstance, Function.update_of_ne hk] at hk' ⊢
        exact h.idle k' hk'
    · obtain ⟨hk, hold⟩ := hjoined k' hk'
      simpa [World.setInstance, hk] using h.joined k' hold
    · exact (over_advance (hother m)).mpr (h.gone m hm)
  · exact h.runs hp (Calm.refl _) fun k' hk' => h.joined k' (hjoined k' hk').2

/-- Only the accept loop accepts. -/
theorem accept_of_server (hs : D.Reachable s) {r : Call.acceptOrCancelled.Ret} {applied : Bool}
    (hl : D.machine.Step s (.call i ⟨.acceptOrCancelled, r⟩ applied) s') :
    ∃ k, i = .server k ∧ ¬ Joined (s.history (.server k)) := by
  have hallowed := (channelProtocol_obeyed D).allowed_step hs hl
  cases i with
  | request n =>
    obtain ⟨hindex, hother⟩ := hallowed
    by_cases hroute : ∃ p, (D.requests n).route = .index p
    · obtain ⟨p, hp⟩ := hroute
      have hcall := hindex p hp
      generalize s.history (.request n) = history at hcall
      cases hcall
    · push Not at hroute
      cases hother hroute
  | refresher k => exact hallowed.2.elim
  | server k => exact ⟨k, rfl, hallowed.1⟩

/-- A call that is no accept. -/
theorem Serves.calls (h : Serves D s) {c : Call} {r : c.Ret} {applied : Bool} {p q : Io Answer}
    (hc : c ≠ .acceptOrCancelled) (hp : s.pool i = .running p)
    (hw : s.world.perform (D.instanceOf i) (Deployment.channelOf i) c r applied = some w) :
    Serves D (s.advance (.call i ⟨c, r⟩ applied) w i (.running q)) := by
  apply h.runs hp (Calm.perform hc hw)
  intro k hk
  rw [State.advance_history] at hk
  rcases List.mem_append.mp hk with hmem | hmem
  · exact h.joined k hmem
  · have hown : Label.own (.server k) (.call i ⟨c, r⟩ applied : DeploymentLabel) =
        some ⟨.joinAll, ()⟩ := by simpa [eq_comm] using hmem
    obtain ⟨applied', heq⟩ := Label.own_eq_some.mp hown
    cases heq
    exact (perform_joinAll hw).1

/-- The moves of the environment leave the requests alone. -/
theorem Serves.moves {m : EnvMove} (h : Serves D s) (hw : Deployment.envMove m s.world = some w) :
    Serves D { s with world := w, trace := s.trace ++ [.env m] } := by
  have hhistory : ∀ j : Task, State.history
      ({ s with world := w, trace := s.trace ++ [.env m] } : DeploymentState) j = s.history j := by
    intro j
    simp [State.history, Label.own]
  have hcalm : Calm s.world w → Serves D { s with world := w, trace := s.trace ++ [.env m] } := by
    intro hcalm
    apply h.frame hcalm
    · exact fun _ hbusy => hbusy
    · exact fun _ hover => hover
    · intro k hk
      rw [hhistory] at hk
      exact h.joined k hk
  cases m with
  | cancel k =>
    cases hw
    exact hcalm (.setInstance rfl rfl)
  | tick elapsed =>
    cases hw
    exact hcalm ⟨fun _ => rfl, fun _ => rfl, fun _ => rfl⟩
  | skipSequences q =>
    cases hw
    exact hcalm ⟨fun _ => rfl, fun _ => rfl, fun _ => rfl⟩
  | closeConnection k =>
    unfold Deployment.envMove at hw
    dsimp only at hw
    split at hw
    · next hguard =>
      cases hw
      refine ⟨fun n hn => ?_, fun k' hk' => ?_, fun k' hk' => ?_, fun n hn => h.gone n hn⟩
      · have hold := h.inFlight n hn
        by_cases hk : (D.requests n).instanceId = k
        · subst hk
          simpa [World.setInstance] using hold
        · simpa [World.setInstance, hk] using hold
      · by_cases hk : k' = k
        · subst hk
          simp only [World.setInstance, Function.update_self] at hk' ⊢
          rcases hguard with hmany | ⟨-, hidle⟩
          · omega
          · exact hidle
        · simp only [World.setInstance, Function.update_of_ne hk] at hk' ⊢
          exact h.idle k' hk'
      · rw [hhistory] at hk'
        have hold := h.joined k' hk'
        by_cases hk : k' = k
        · subst hk
          simp [World.setInstance, hold]
        · simpa [World.setInstance, hk] using hold
    · cases hw

/-- **Every step keeps requests, connections and channels together.** -/
theorem Serves.step (hs : D.Reachable s) (h : Serves D s) (hl : D.machine.Step s l s') :
    Serves D s' := by
  have hkeep := hl
  cases hl with
  | start i w hp hw =>
    cases i with
    | request n => exact h.starts hp hw _
    | refresher k =>
      cases hw
      exact h.loop (by simp) fun _ => rfl
    | server k =>
      cases hw
      exact h.loop (by simp) fun _ => rfl
  | call i e next r applied w hp hw =>
    by_cases hc : e = .acceptOrCancelled
    · subst hc
      obtain ⟨k, rfl, hopen⟩ := accept_of_server hs hkeep
      exact h.accepts hp hopen hw
    · exact h.calls hc hp hw
  | pick i next b hp => exact h.runs hp (Calm.refl _) fun k => joined_advance h fun _ => rfl
  | again i a p hp ha => exact h.runs hp (Calm.refl _) fun k => joined_advance h fun _ => rfl
  | finish i a hp ha =>
    cases i with
    | request n => exact h.ends (fun _ => rfl) (.inl ⟨a, rfl⟩)
    | refresher k =>
      exact h.loop (by simp) fun _ => rfl
    | server k =>
      exact h.loop (by simp) fun _ => rfl
  | drop i p w hp hw =>
    cases i with
    | request n =>
      cases hw
      exact h.ends (fun _ => rfl) (.inr rfl)
    | refresher k => cases hw
    | server k => cases hw
  | env m w hw => exact h.moves hw

/-- **Requests, connections and channels fit together in every reachable state.** -/
theorem serves_of_reachable (hs : D.Reachable s) : Serves D s := by
  refine Machine.invariant (I := fun s => Serves D s) (serves_initial D) ?_ hs
  intro s l s' hs ih _ hl
  exact ih.step hs hl

/-- **Once the accept loop has ended, no request of its instance is being handled.** -/
theorem not_busy_of_served (hs : D.Reachable s) {n : ℕ} {a : Answer}
    (hserved : s.pool (.server (D.requests n).instanceId) = .finished a) : ¬ Busy s n := by
  intro hbusy
  have hkept := (channelProtocol_obeyed D).sound hs (.server (D.requests n).instanceId)
  have hjoined : Joined (s.history (.server (D.requests n).instanceId)) := by
    have hend := Machine.again_of_finished hs hserved
    obtain ⟨goOn, rfl, hiff⟩ := hkept.finished a hserved
    cases goOn with
    | true => cases hend
    | false => exact hiff.mpr rfl
  have hserves := serves_of_reachable hs
  have hidle := hserves.idle _ (hserves.joined _ hjoined)
  have hmem := hserves.inFlight n hbusy
  rw [hidle] at hmem
  exact absurd hmem List.not_mem_nil

end Steps

end Terrashine.Analysis
