import Terrashine.Library.Solo
import Terrashine.Analysis.InstanceSteps
import Terrashine.Analysis.RefresherPanics
import Terrashine.Analysis.RefresherTurns
import Terrashine.Analysis.ShortRequests
import Terrashine.Analysis.Shutdown

/-!
# An instance can be stopped

From every state of every run an instance can come to its end: its refresher takes the
cancellation, every request that is being handled is answered, the connections are closed and the
accept loop is joined (`instance_can_stop`).  Nobody waits for a party that waits for him, whatever
the state: a request waits for the refresher alone, and once that has dropped its receiver every
message in the channel is settled.
-/

set_option autoImplicit false

namespace Terrashine.Analysis

open Terrashine.Library Terrashine.Model Terrashine.Interface

/-- No request begins, and nobody gives up: a handler is dropped only after it has panicked. -/
def Patient (s : DeploymentState) (l : DeploymentLabel) : Prop :=
  (∀ n, l ≠ .start (.request n)) ∧ ∀ i, l = .drop i → ∃ m, s.pool i = .running (.panicked m)

/-- Nothing of the instance is left. -/
structure Stopped (s : DeploymentState) (k : ℕ) : Prop where
  server : ∃ a, s.pool (.server k) = .finished a
  refresher : ∃ a, s.pool (.refresher k) = .finished a
  channel : Closed (s.world.instances k)
  connections : (s.world.instances k).connections = 0
  inFlight : (s.world.instances k).inFlight = []

/-- A call is patient. -/
theorem patient_call (s : DeploymentState) {i : Task} (ev : IoEvent) (applied : Bool) :
    Patient s (.call i ev applied) := ⟨by simp, by simp⟩

/-- A choice is patient. -/
theorem patient_pick (s : DeploymentState) {i : Task} (b : Bool) : Patient s (.pick i b) :=
  ⟨by simp, by simp⟩

/-- The start of a task that is no request is patient. -/
theorem patient_start (s : DeploymentState) {i : Task} (hi : ∀ n, i ≠ .request n) :
    Patient s (.start i) := ⟨by simpa using hi, by simp⟩

/-- Another round is patient. -/
theorem patient_again (s : DeploymentState) (i : Task) : Patient s (.again i) :=
  ⟨by simp, by simp⟩

/-- An end is patient. -/
theorem patient_finish (s : DeploymentState) (i : Task) : Patient s (.finish i) :=
  ⟨by simp, by simp⟩

/-- What happens without the program's doing is patient. -/
theorem patient_env (s : DeploymentState) (m : EnvMove) : Patient s (.env m) :=
  ⟨by simp, by simp⟩

/-! ## Calls that may fail -/

/-- A call to the database, the object storage or a registry. -/
def MayFail : Call → Prop
  | .selectVersions _ => True
  | .storeProviderVersions _ _ => True
  | .selectDownloads _ _ => True
  | .selectArtifact _ => True
  | .nextvalArtifactIds => True
  | .updateArtifact _ _ => True
  | .selectAuthToken _ => True
  | .upsertAuthToken _ _ => True
  | .deleteAuthToken _ => True
  | .httpGet _ => True
  | .createMultipartUpload _ _ => True
  | .uploadPart _ _ _ _ _ => True
  | .abortMultipartUpload _ _ _ => True
  | .completeMultipartUpload _ _ _ _ => True
  | .presign _ _ _ => True
  | _ => False

section Failures

variable {k : ℕ} {channel : Option ℕ}

/-- A statement may always fail without an effect. -/
theorem exists_lost {ε α : Type} [DecidableEq ε] [DecidableEq α] (w : World) (lost : ε)
    (result : Except ε α × Database) :
    ∃ w', w.statement lost result (.error lost) false = some w' := by
  unfold World.statement
  split
  · exact ⟨_, rfl⟩
  · exact ⟨w, if_pos rfl⟩

/-- A call that may fail does so in every world, and leaves the instances and the channels as
they are. -/
theorem exists_failure {c : Call} (hc : MayFail c) (w : World) :
    ∃ r w', w.perform k channel c r false = some w' ∧ w'.instances = w.instances ∧
      w'.channels = w.channels := by
  have haway : onInstances c = false := by
    cases c <;> first | rfl | exact hc.elim
  have hfails : ∃ r w', w.perform k channel c r false = some w' := by
    cases c with
    | selectVersions p => exact ⟨.error .unavailable, w, rfl⟩
    | storeProviderVersions p response =>
      obtain ⟨w', hw'⟩ := exists_lost w (.databaseError .unavailable)
        (Terrashine.Model.storeProviderVersions none w.clock w.db p response)
      exact ⟨.error (.databaseError .unavailable), w', hw'⟩
    | selectDownloads p version => exact ⟨.error .unavailable, w, rfl⟩
    | selectArtifact versionId => exact ⟨.error .unavailable, w, rfl⟩
    | nextvalArtifactIds =>
      obtain ⟨w', hw'⟩ := exists_lost w .unavailable
        ((.ok w.db.nextvalArtifactIds.1 : Except SqlError ℕ), w.db.nextvalArtifactIds.2)
      exact ⟨.error .unavailable, w', hw'⟩
    | updateArtifact artifactId versionId =>
      obtain ⟨w', hw'⟩ := exists_lost w .unavailable
        (w.db.updateArtifact w.clock artifactId versionId)
      exact ⟨.error .unavailable, w', hw'⟩
    | selectAuthToken hostname => exact ⟨.error .unavailable, w, rfl⟩
    | upsertAuthToken hostname token =>
      obtain ⟨w', hw'⟩ := exists_lost w .unavailable (w.db.upsertAuthToken hostname token)
      exact ⟨.error .unavailable, w', hw'⟩
    | deleteAuthToken hostname =>
      obtain ⟨w', hw'⟩ := exists_lost w .unavailable (w.db.deleteAuthToken hostname)
      exact ⟨.error .unavailable, w', hw'⟩
    | httpGet request => exact ⟨.error .transport, w, rfl⟩
    | createMultipartUpload bucket key => exact ⟨.error .failed, w, rfl⟩
    | uploadPart bucket key uploadId partNumber body => exact ⟨.error .failed, w, rfl⟩
    | abortMultipartUpload bucket key uploadId => exact ⟨.error .failed, w, rfl⟩
    | completeMultipartUpload bucket key uploadId entries => exact ⟨.error .failed, w, rfl⟩
    | presign bucket key expiresIn => exact ⟨.error .failed, w, rfl⟩
    | _ => exact hc.elim
  obtain ⟨r, w', hw⟩ := hfails
  have hframe := perform_frame hw
  exact ⟨r, w', hw, hframe.instances haway, hframe.channels haway⟩

end Failures

/-! ## Requests -/

/-- What request `n` asks for: a call that may fail, a place in the channel, or the response to the
message it has sent. -/
inductive Asking (n : ℕ) (h : List IoEvent) : Call → Prop
  | mayFail (c : Call) (hc : MayFail c) : Asking n h c
  | wake (message : RefreshRequest) : Asking n h (.trySend message)
  | send (message : RefreshRequest) (seconds : ℕ) : Asking n h (.sendTimeout message seconds)
  | wait (p : TerraformProvider)
      (hsent : (⟨.sendTimeout (ownMessage n p) 1, .ok ()⟩ : IoEvent) ∈ h) :
      Asking n h .receiveResponse

section Requests

variable {D : Deployment} {s s' : DeploymentState} {n k : ℕ}

/-- A request to a registry may fail. -/
theorem mayFail_of_upstream {c : Call} (hc : Upstream c) : MayFail c := by
  cases c <;> first | exact hc.elim | trivial

/-- The calls of an index request are of these kinds. -/
theorem asking_of_index {p : TerraformProvider} {h : List IoEvent} {c : Call}
    (hcall : IndexCall n p h c) : Asking n h c := by
  cases hcall with
  | read => exact .mayFail _ trivial
  | wake r index hknown => exact .wake _
  | send r hknown => exact .send _ _
  | wait r hknown => exact .wait p (List.mem_cons_of_mem _ (List.mem_singleton_self _))

/-- The calls of a request for an artifact are of these kinds. -/
theorem asking_of_artifact {deps : Externals} {port : ℕ} {bucketName bucketPrefix : Text} {v : ℤ}
    {h : List IoEvent} {c : Call} (hcall : ArtifactCall deps port bucketName bucketPrefix v h c) :
    Asking n h c := by
  apply Asking.mayFail
  cases hcall with
  | read => trivial
  | fetch detail tr c hnone hc =>
    rcases hc with rfl | hc
    · trivial
    · exact mayFail_of_upstream hc
  | stash detail tr id body tr' c hnone hfetched hc => cases hc <;> trivial
  | redirectKnown detail id hsome => trivial
  | redirectNew detail tr id body tr' hnone hfetched hstash => trivial

/-- The program of a request asks for nothing else. -/
theorem asking_of_running (hs : D.Reachable s) {p : Io Answer}
    (hpool : s.pool (.request n) = .running p) :
    p.wp (Asking n) (fun _ _ => True) (s.history (.request n)) := by
  have hchannel := ((channelProtocol_obeyed D).sound hs (.request n)).running p hpool
  have hartifact := ((artifactProtocol_obeyed D).sound hs (.request n)).running p hpool
  have hshort := ((shortProtocol_obeyed D).sound hs (.request n)).running p hpool
  have hboth := Prog.wp_and p (Prog.wp_and p hchannel hartifact) hshort
  refine Prog.wp_mono p (Prog.wp_weaken p hboth ?_) fun _ _ _ _ => trivial
  rintro h c ⟨⟨hindex, hstores⟩, hcall⟩
  cases hroute : (D.requests n).route with
  | index p => exact asking_of_index (hindex.1 p hroute)
  | artifact v => exact asking_of_artifact (hstores.1 v hroute)
  | _ =>
    dsimp only [shortProtocol] at hcall
    rw [hroute] at hcall
    cases hcall trivial
    exact .mayFail _ trivial

/-- What the request goes on with, once the receiver of its channel is gone. -/
structure Released (n k : ℕ) (w₀ : World) (h : List IoEvent) (w : World) : Prop where
  instances : w.instances = w₀.instances
  channels : w.channels = w₀.channels
  closed : (w₀.instances k).receiverDropped = true
  settled : ∀ p, (⟨.sendTimeout (ownMessage n p) 1, .ok ()⟩ : IoEvent) ∈ h →
    (w₀.channels n).value ≠ .pending

/-- A call that touches no instance keeps a request released. -/
theorem Released.call {w₀ w w' : World} {h : List IoEvent} {ev : IoEvent}
    (hreleased : Released n k w₀ h w) (hinstances : w'.instances = w.instances)
    (hchannels : w'.channels = w.channels)
    (hev : ∀ message seconds, ev ≠ ⟨.sendTimeout message seconds, .ok ()⟩) :
    Released n k w₀ (h ++ [ev]) w' := by
  refine ⟨hinstances.trans hreleased.instances, hchannels.trans hreleased.channels,
    hreleased.closed, fun p hmem => ?_⟩
  rcases List.mem_append.mp hmem with hmem | hmem
  · exact hreleased.settled p hmem
  · exact absurd (List.mem_singleton.mp hmem).symm (hev _ _)

/-- Every call of the request can be answered then. -/
theorem Released.answered {w₀ w : World} {h : List IoEvent} {c : Call} (hasking : Asking n h c)
    (hreleased : Released n k w₀ h w) :
    ∃ r applied w', w.perform k (some n) c r applied = some w' ∧
      Released n k w₀ (h ++ [⟨c, r⟩]) w' := by
  have hclosed : (w.instances k).receiverDropped = true := by
    rw [hreleased.instances]
    exact hreleased.closed
  cases hasking with
  | mayFail c hc =>
    obtain ⟨r, w', hw, hinstances, hchannels⟩ := exists_failure hc w
    refine ⟨r, false, w', hw, hreleased.call hinstances hchannels ?_⟩
    rintro message seconds heq
    cases heq
    exact hc
  | wake message =>
    refine ⟨.error .closed, false, w, ?_, hreleased.call rfl rfl (by simp)⟩
    exact if_pos hclosed
  | send message seconds =>
    refine ⟨.error .closed, false, w, ?_, hreleased.call rfl rfl (by simp)⟩
    exact if_pos hclosed
  | wait p hsent =>
    have hvalue := hreleased.settled p hsent
    rw [← hreleased.channels] at hvalue
    cases hchannel : (w.channels n).value with
    | pending => exact absurd hchannel hvalue
    | sent response =>
      refine ⟨some response, false, w, ?_, hreleased.call rfl rfl (by simp)⟩
      simp [World.perform, hchannel]
    | closed =>
      refine ⟨none, false, w, ?_, hreleased.call rfl rfl (by simp)⟩
      simp [World.perform, hchannel]

/-! ## A refresher that has ended -/

/-- The last two calls of a refresher see the cancellation and drop the receiver. -/
theorem closing_of_finished (hs : D.Reachable s) {a : Answer}
    (hfin : s.pool (.refresher k) = .finished a) :
    ∃ h, s.history (.refresher k) =
      h ++ [⟨.recvOrCancelled, none⟩] ++ [⟨.dropReceiver, ()⟩] := by
  have hend := Machine.again_of_finished hs hfin
  obtain ⟨rounds, p, tr, hrounds, hruns, hhistory⟩ :=
    ((Machine.roundsProtocol_obeyed D.machine).sound hs (.refresher k)).finished a hfin
  obtain ⟨ts, rfl, -⟩ := turns_of_rounds hrounds
  obtain ⟨tr₁, tr₂, ended, rfl, hround, hdone⟩ := Prog.runs_bind_returned_iff.mp hruns
  obtain ⟨rfl, heq⟩ := Prog.runs_done_iff.mp hdone
  cases heq
  obtain ⟨tr₃, tr₄, r, rfl, hreceive, hrest⟩ := Prog.runs_bind_returned_iff.mp hround
  obtain rfl : tr₃ = [⟨.recvOrCancelled, r⟩] := Prog.runs_perform_iff.mp hreceive
  cases r with
  | none =>
    obtain ⟨tr₅, tr₆, u, rfl, hdrop, hdone⟩ := Prog.runs_bind_returned_iff.mp hrest
    obtain rfl : tr₅ = [⟨.dropReceiver, u⟩] := Prog.runs_perform_iff.mp hdrop
    obtain ⟨rfl, -⟩ := Prog.runs_done_iff.mp hdone
    exact ⟨rounds.flatten, by simp [hhistory]⟩
  | some message =>
    obtain ⟨tr₅, tr₆, lastRefresh, rfl, -, hdone⟩ := Prog.runs_bind_returned_iff.mp hrest
    obtain ⟨-, heq⟩ := Prog.runs_done_iff.mp hdone
    cases heq
    cases hend

/-- The channel of a refresher that has ended is closed. -/
theorem closed_of_finished (hs : D.Reachable s) {a : Answer}
    (hfin : s.pool (.refresher k) = .finished a) : Closed (s.world.instances k) := by
  obtain ⟨h, hh⟩ := closing_of_finished hs hfin
  apply closed_of_dropped hs
  rw [hh]
  exact List.mem_append_right _ (List.mem_singleton_self _)

/-- A message that was sent stays sent. -/
theorem sent_of_run (hs : D.Reachable s) (hlater : D.Leads s s')
    (h : life D n s.trace ≠ .unsent) : life D n s'.trace ≠ .unsent := by
  induction hlater with
  | refl => exact h
  | tail hr hstep ih =>
    obtain ⟨l, -, hl⟩ := hstep
    have hmoves := lifeStep (n := n) (hs.trans hr) hl
    generalize life D n _ = before at hmoves ih
    generalize life D n _ = after at hmoves
    cases hmoves with
    | stays => exact ih
    | _ => simp

/-- **No message is left unsettled by a refresher that has ended.** -/
theorem settled_of_finished (hs : D.Reachable s) {a : Answer}
    (hfin : s.pool (.refresher (D.requests n).instanceId) = .finished a) {p : TerraformProvider}
    (hsent : (⟨.sendTimeout (ownMessage n p) 1, .ok ()⟩ : IoEvent) ∈ s.history (.request n)) :
    (s.world.channels n).value ≠ .pending := by
  have htracks := tracks_of_reachable hs n
  obtain ⟨s₁, s₂, applied, hs₁, -, hl, hlater⟩ := Machine.exists_step hs hsent
  have hputs : Puts n (.call (.request n) ⟨.sendTimeout (ownMessage n p) 1, .ok ()⟩ applied) :=
    ⟨_, _, _, _, rfl, rfl⟩
  obtain ⟨message, hqueued⟩ := queued_of_puts hl hputs
  have hs₂ : D.Reachable s₂ := hs₁.tail ⟨_, trivial, hl⟩
  have hlife := sent_of_run (n := n) hs₂ hlater (by rw [hqueued]; simp)
  obtain ⟨h, hh⟩ := closing_of_finished hs hfin
  rw [htracks.value]
  cases hstate : life D n s.trace with
  | unsent => exact absurd hstate hlife
  | queued message =>
    -- nothing is left in the channel
    have hmail := htracks.mail (D.requests n).instanceId
    rw [if_pos rfl, hstate, mailFor, (closed_of_finished hs hfin).2] at hmail
    cases hmail
  | inHand message =>
    -- and nothing in the hand
    obtain ⟨hhand, -⟩ := (htracks.hand _ message).mpr ⟨rfl, hstate⟩
    rw [hh, inHand_concat, inHand_concat] at hhand
    cases hhand
  | answered response delivered => cases delivered <;> simp [Life.value]
  | discarded => simp [Life.value]

/-- The end of request `n`, whose handler has returned or panicked. -/
theorem exists_over {s : DeploymentState}
    (hend : (∃ a, s.pool (.request n) = .running (.done a)) ∨
      ∃ m, s.pool (.request n) = .running (.panicked m)) :
    ∃ s', Machine.Alone D.machine Patient (.request n) s s' ∧
      s'.world = D.requestOver n s.world := by
  rcases hend with ⟨a, ha⟩ | ⟨m, hm⟩
  · exact ⟨_, .step ⟨by simp, by simp⟩ (.finish s _ a ha rfl), rfl⟩
  · refine ⟨_, .step ⟨by simp, fun i heq => ?_⟩ (.drop s _ _ _ hm rfl), rfl⟩
    cases heq
    exact ⟨m, hm⟩

/-- **A request is brought to its end** when the refresher of its instance has ended. -/
theorem request_ends (hs : D.Reachable s) {a : Answer}
    (hfin : s.pool (.refresher (D.requests n).instanceId) = .finished a) (hbusy : Busy s n) :
    ∃ s', Machine.Alone D.machine Patient (.request n) s s' ∧
      s'.world.instances (D.requests n).instanceId =
        { s.world.instances (D.requests n).instanceId with
          inFlight := (s.world.instances (D.requests n).instanceId).inFlight.erase n } := by
  obtain ⟨p, hpool⟩ := hbusy
  have hreleased : Released n (D.requests n).instanceId s.world (s.history (.request n)) s.world :=
    ⟨rfl, rfl, (closed_of_finished hs hfin).1, fun p => settled_of_finished hs hfin⟩
  have hanswer : ∀ h c w, Asking n h c → Released n (D.requests n).instanceId s.world h w →
      ∃ r applied w', D.machine.perform (.request n) w c r applied = some w' ∧
        Released n (D.requests n).instanceId s.world (h ++ [⟨c, r⟩]) w' :=
    fun h c w hasking hreleased => hreleased.answered hasking
  obtain ⟨s₁, halone, hreleased₁, hend⟩ := Machine.exists_end
    (fun s ev applied => patient_call s ev applied) (fun s b => patient_pick s b) hanswer hpool
    (asking_of_running hs hpool) hreleased
  have hend' : (∃ a, s₁.pool (.request n) = .running (.done a)) ∨
      ∃ m, s₁.pool (.request n) = .running (.panicked m) := by
    rcases hend with ⟨a, ha, -⟩ | ⟨-, hpanicked⟩
    · exact .inl ⟨a, ha⟩
    · exact .inr hpanicked
  obtain ⟨s₂, halone₂, hworld⟩ := exists_over (D := D) hend'
  refine ⟨s₂, halone.trans halone₂, ?_⟩
  rw [hworld, ← hreleased₁.instances]
  simp [Deployment.requestOver, World.setInstance, World.setChannel]

/-- A patient run is a run. -/
theorem leads_of_patient (hrun : D.machine.Run Patient s s') : D.Leads s s' :=
  Machine.Run.mono (fun _ _ _ => trivial) hrun

/-- The loops of an instance stand where they stood, and it is still cancelled. -/
structure Kept (k : ℕ) (s s' : DeploymentState) : Prop where
  server : s'.pool (.server k) = s.pool (.server k)
  refresher : s'.pool (.refresher k) = s.pool (.refresher k)
  cancelled : (s'.world.instances k).cancelled = (s.world.instances k).cancelled

/-- What was kept twice was kept. -/
theorem Kept.trans {s₁ s₂ s₃ : DeploymentState} (h : Kept k s₁ s₂) (h' : Kept k s₂ s₃) :
    Kept k s₁ s₃ :=
  ⟨h'.server.trans h.server, h'.refresher.trans h.refresher, h'.cancelled.trans h.cancelled⟩

/-- **All requests are brought to their end**, one after the other. -/
theorem flight_ends (hs : D.Reachable s) {a : Answer}
    (hfin : s.pool (.refresher k) = .finished a) :
    ∃ s', D.machine.Run Patient s s' ∧ Kept k s s' ∧ (s'.world.instances k).inFlight = [] := by
  generalize hflight : (s.world.instances k).inFlight = flight
  induction flight generalizing s with
  | nil => exact ⟨s, .refl, ⟨rfl, rfl, rfl⟩, hflight⟩
  | cons n flight ih =>
    obtain ⟨rfl, hbusy⟩ := (handles_of_reachable hs k).busy n (by simp [hflight])
    obtain ⟨s₁, halone, hinstance⟩ := request_ends hs hfin hbusy
    have hkept : Kept (D.requests n).instanceId s s₁ :=
      ⟨halone.pool _ (by simp), halone.pool _ (by simp), by rw [hinstance]⟩
    have hrest : (s₁.world.instances (D.requests n).instanceId).inFlight = flight := by
      rw [hinstance, hflight, List.erase_cons_head]
    have hs₁ : D.Reachable s₁ := hs.trans (leads_of_patient halone.run)
    obtain ⟨s₂, hrun, hkept₂, hempty⟩ := ih hs₁ (hkept.refresher.trans hfin) hrest
    exact ⟨s₂, halone.run.trans hrun, hkept.trans hkept₂, hempty⟩

/-- The peers close their connections. -/
theorem connections_close (hempty : (s.world.instances k).inFlight = []) :
    ∃ s', D.machine.Run Patient s s' ∧ Kept k s s' ∧ (s'.world.instances k).inFlight = [] ∧
      (s'.world.instances k).connections = 0 := by
  generalize hcount : (s.world.instances k).connections = count
  induction count generalizing s with
  | zero => exact ⟨s, .refl, ⟨rfl, rfl, rfl⟩, hempty, hcount⟩
  | succ count ih =>
    have hguard : 1 < (s.world.instances k).connections ∨
        (s.world.instances k).connections = 1 ∧ (s.world.instances k).inFlight = [] := by
      by_cases hc : count = 0
      · exact .inr ⟨by omega, hempty⟩
      · exact .inl (by omega)
    obtain ⟨s₁, hrun₁, hworld, hpool, -⟩ := Machine.exists_env (M := D.machine)
      (patient_env s (.closeConnection k)) (if_pos hguard)
    have hinstance : s₁.world.instances k = { s.world.instances k with
        connections := (s.world.instances k).connections - 1 } := by
      rw [hworld]
      simp [World.setInstance]
    have hkept : Kept k s s₁ := ⟨by rw [hpool], by rw [hpool], by rw [hinstance]⟩
    obtain ⟨s₂, hrun₂, hkept₂, hrest⟩ := ih (s := s₁) (by rw [hinstance]; exact hempty)
      (by rw [hinstance, hcount]; rfl)
    exact ⟨s₂, hrun₁.trans hrun₂, hkept.trans hkept₂, hrest⟩

end Requests

/-! ## The refresher -/

/-- The host names that the refresher has taken out of its channel are well formed. -/
def TookWellFormed (D : Deployment) (s : DeploymentState) (k : ℕ) : Prop :=
  ∀ message, (⟨.recvOrCancelled, some message⟩ : IoEvent) ∈ s.history (.refresher k) →
    WellFormedAuthority D.deps (D.args k).upstreamRegistryPort message.provider.hostname

section Refresher

variable {D : Deployment} {s s' : DeploymentState} {l : DeploymentLabel} {k : ℕ}

/-- The head of the loop. -/
theorem refresherRound_eq (D : Deployment) (k : ℕ) (lastRefresh : LastRefresh) :
    ∃ next, D.refresherRound k lastRefresh = .call .recvOrCancelled next ∧
      next none = .call .dropReceiver (fun _ => .done (.refresher none)) ∧
      ∀ message, next (some message) = (handleMessage (refresherOps D.deps (D.registry k))
        (D.args k).refreshInterval lastRefresh message >>= fun lastRefresh' =>
          pure (some lastRefresh')) >>= fun r => .done (.refresher r) :=
  ⟨_, rfl, rfl, fun _ => rfl⟩

/-- A round whose message is well formed does not panic. -/
theorem neverPanics_round {lastRefresh : LastRefresh} {next : Call.recvOrCancelled.Ret → Io Answer}
    (hround : D.refresherRound k lastRefresh = .call .recvOrCancelled next)
    {r : Call.recvOrCancelled.Ret}
    (hwell : ∀ message, r = some message →
      WellFormedAuthority D.deps (D.args k).upstreamRegistryPort message.provider.hostname) :
    (next r).NeverPanics := by
  obtain ⟨next', hround', hnone, hsome⟩ := refresherRound_eq D k lastRefresh
  rw [hround] at hround'
  cases hround'
  cases r with
  | none =>
    rw [hnone]
    exact (Prog.neverPanics_call _ _).mpr fun _ => (Prog.neverPanics_done _).mpr trivial
  | some message =>
    rw [hsome]
    refine Prog.neverPanics_bind ?_ fun r => (Prog.neverPanics_done _).mpr trivial
    exact Prog.neverPanics_bind (neverPanics_handleMessage (hwell message rfl)) fun lastRefresh' =>
      (Prog.neverPanics_pure _).mpr trivial

/-- The refresher goes on with a round. -/
theorem round_of_again {a : Answer} {p : Io Answer}
    (ha : D.machine.again (.refresher k) a = some p) :
    ∃ lastRefresh, p = D.refresherRound k lastRefresh := by
  cases a with
  | refresher lastRefresh =>
    cases lastRefresh with
    | some lastRefresh =>
      cases ha
      exact ⟨lastRefresh, rfl⟩
    | none => cases ha
  | _ => cases ha

/-- It stands at the head of its loop, or in a round that no answer makes panic. -/
def Sound (D : Deployment) (k : ℕ) (t : Thread Call Call.Ret Answer) : Prop :=
  ∀ p, t = .running p → (∃ lastRefresh, p = D.refresherRound k lastRefresh) ∨ p.NeverPanics

/-- A step keeps the refresher sound while its messages are well formed. -/
theorem Sound.step (h : Sound D k (s.pool (.refresher k))) (hl : D.machine.Step s l s')
    (hwell : TookWellFormed D s' k) : Sound D k (s'.pool (.refresher k)) := by
  have hmoved : ∀ (i : Task) (l : DeploymentLabel) (w : World) (t : Thread Call Call.Ret Answer),
      (i = .refresher k → Sound D k t) → Sound D k ((s.advance l w i t).pool (.refresher k)) := by
    intro i l w t ht
    by_cases hi : i = .refresher k
    · subst hi
      rw [State.advance_pool_self]
      exact ht rfl
    · rw [State.advance_pool_of_ne s l w t (Ne.symm hi)]
      exact h
  cases hl with
  | start i w hp hw =>
    apply hmoved
    rintro rfl p ⟨⟩
    exact .inl ⟨∅, rfl⟩
  | call i c next r applied w hp hw =>
    apply hmoved
    rintro rfl p ⟨⟩
    right
    rcases h _ hp with ⟨lastRefresh, heq⟩ | hnever
    · obtain ⟨next', hround, -⟩ := refresherRound_eq D k lastRefresh
      rw [hround] at heq
      cases heq
      refine neverPanics_round hround fun message hr => hwell message ?_
      rw [Machine.history_call, hr]
      exact List.mem_append_right _ (List.mem_singleton_self _)
    · exact (Prog.neverPanics_call _ _).mp hnever r
  | pick i next b hp =>
    apply hmoved
    rintro rfl p ⟨⟩
    right
    rcases h _ hp with ⟨lastRefresh, heq⟩ | hnever
    · obtain ⟨next', hround, -⟩ := refresherRound_eq D k lastRefresh
      rw [hround] at heq
      cases heq
    · exact (Prog.neverPanics_pick _).mp hnever b
  | again i a p hp ha =>
    apply hmoved
    rintro rfl p' ⟨⟩
    exact .inl (round_of_again ha)
  | finish i a hp ha => exact hmoved _ _ _ _ fun _ p hp' => by cases hp'
  | drop i p w hp hw => exact hmoved _ _ _ _ fun _ p hp' => by cases hp'
  | env m w hw => exact h

/-- **A refresher that has only taken well-formed host names does not panic any more.** -/
theorem sound_of_reachable (hs : D.Reachable s) (hwell : TookWellFormed D s k) :
    Sound D k (s.pool (.refresher k)) := by
  revert hwell
  refine Machine.invariant (I := fun s => TookWellFormed D s k →
    Sound D k (s.pool (.refresher k))) ?_ ?_ hs
  · rintro - p ⟨⟩
  · intro s l s' _ ih _ hl hwell
    refine (ih fun message hmem => hwell message ?_).step hl hwell
    rw [hl.history]
    exact List.mem_append_left _ hmem

/-- A cancelled refresher can see that it is cancelled. -/
theorem perform_cancelled {w : World} (h : (w.instances k).cancelled = true) :
    w.perform k none .recvOrCancelled none false = some w := by
  unfold World.perform
  dsimp only
  rw [if_pos h]

/-- At the head of its loop a cancelled refresher ends. -/
theorem round_ends {lastRefresh : LastRefresh}
    (hpool : s.pool (.refresher k) = .running (D.refresherRound k lastRefresh))
    (hcancelled : (s.world.instances k).cancelled = true) :
    ∃ s', Machine.Alone D.machine Patient (.refresher k) s s' ∧
      ∃ a, s'.pool (.refresher k) = .finished a := by
  obtain ⟨next, hround, hnone, -⟩ := refresherRound_eq D k lastRefresh
  rw [hround] at hpool
  obtain ⟨s₁, halone₁, -, hpool₁⟩ := Machine.exists_call (M := D.machine)
    (patient_call s ⟨.recvOrCancelled, none⟩ false) hpool (perform_cancelled hcancelled)
  rw [hnone] at hpool₁
  obtain ⟨s₂, halone₂, -, hpool₂⟩ := Machine.exists_call (M := D.machine)
    (patient_call s₁ ⟨.dropReceiver, ()⟩ false) hpool₁ rfl
  obtain ⟨s₃, halone₃, -, hpool₃⟩ := Machine.exists_finish (M := D.machine) (patient_finish s₂ _)
    hpool₂ rfl
  exact ⟨s₃, (halone₁.trans halone₂).trans halone₃, _, hpool₃⟩

/-- Every call of a cancelled refresher can be answered. -/
theorem cancelled_answered {h : List IoEvent} {c : Call} {w : World}
    (hcall : RefresherCall D.deps (D.args k).upstreamRegistryPort h c)
    (hcancelled : (w.instances k).cancelled = true) :
    ∃ r applied w', D.machine.perform (.refresher k) w c r applied = some w' ∧
      (w'.instances k).cancelled = true := by
  by_cases hc : c = .recvOrCancelled
  · subst hc
    exact ⟨none, false, w, perform_cancelled hcancelled, hcancelled⟩
  · obtain ⟨r, w', hw', -⟩ := call_answered (k := k) w hcall fun heq => absurd heq hc
    exact ⟨r, false, w', hw', (cancelled_perform hw' k).trans hcancelled⟩

/-- In the course of a message it goes on to the head of its loop, and ends there. -/
theorem message_ends (hs : D.Reachable s) {p : Io Answer}
    (hpool : s.pool (.refresher k) = .running p) (hnever : p.NeverPanics)
    (hcancelled : (s.world.instances k).cancelled = true) :
    ∃ s', Machine.Alone D.machine Patient (.refresher k) s s' ∧
      ∃ a, s'.pool (.refresher k) = .finished a := by
  have hkept := ((channelProtocol_obeyed D).sound hs (.refresher k)).running p hpool
  obtain ⟨s₁, halone₁, hcancelled₁, hdone⟩ := Machine.exists_end
    (K := fun _ w => (w.instances k).cancelled = true)
    (fun s ev applied => patient_call s ev applied) (fun s b => patient_pick s b)
    (fun h c w => cancelled_answered) hpool hkept hcancelled
  rcases hdone with ⟨a, ha, -⟩ | ⟨hpanics, -⟩
  · cases hagain : D.machine.again (.refresher k) a with
    | none =>
      obtain ⟨s₂, halone₂, -, hpool₂⟩ := Machine.exists_finish (patient_finish s₁ _) ha hagain
      exact ⟨s₂, halone₁.trans halone₂, a, hpool₂⟩
    | some q =>
      obtain ⟨lastRefresh, rfl⟩ := round_of_again hagain
      obtain ⟨s₂, halone₂, hworld₂, hpool₂⟩ := Machine.exists_again (patient_again s₁ _) ha hagain
      rw [← hworld₂] at hcancelled₁
      obtain ⟨s₃, halone₃, hfinished⟩ := round_ends hpool₂ hcancelled₁
      exact ⟨s₃, (halone₁.trans halone₂).trans halone₃, hfinished⟩
  · exact absurd hnever hpanics

/-- **A cancelled refresher ends**, wherever it stands. -/
theorem refresher_ends (hs : D.Reachable s) (hwell : TookWellFormed D s k)
    (hcancelled : (s.world.instances k).cancelled = true) :
    ∃ s', Machine.Alone D.machine Patient (.refresher k) s s' ∧
      ∃ a, s'.pool (.refresher k) = .finished a := by
  cases hpool : s.pool (.refresher k) with
  | waiting =>
    obtain ⟨s₁, halone₁, hworld₁, hpool₁⟩ := Machine.exists_start (M := D.machine)
      (patient_start s (by simp)) hpool rfl
    rw [← hworld₁] at hcancelled
    obtain ⟨s₂, halone₂, hfinished⟩ := round_ends hpool₁ hcancelled
    exact ⟨s₂, halone₁.trans halone₂, hfinished⟩
  | running p =>
    rcases sound_of_reachable hs hwell p hpool with ⟨lastRefresh, rfl⟩ | hnever
    · exact round_ends hpool hcancelled
    · exact message_ends hs hpool hnever hcancelled
  | finished a => exact ⟨s, .refl _ s, a, hpool⟩
  | dropped => exact absurd hpool (Machine.not_dropped hs fun _ => rfl)

end Refresher

/-! ## The accept loop -/

section Server

variable {D : Deployment} {s s' : DeploymentState} {k : ℕ}

/-- What the accept loop does in a cancelled instance without connections. -/
theorem server_answered {h : List IoEvent} {c : Call} {w w₀ : World}
    (hcall : (channelProtocol D).allows (.server k) h c)
    (hcancelled : (w₀.instances k).cancelled = true) (hclosed : (w₀.instances k).connections = 0)
    (hw : w = w₀) :
    ∃ r applied w', D.machine.perform (.server k) w c r applied = some w' ∧ w' = w₀ := by
  subst hw
  rcases hcall.2 with rfl | rfl
  · exact ⟨false, false, w, if_pos hcancelled, rfl⟩
  · exact ⟨(), false, w, if_pos hclosed, rfl⟩

/-- The head of the loop. -/
theorem serveRound_eq : ∃ next : Call.acceptOrCancelled.Ret → Io Answer,
    Answer.server <$> serveRound = .call .acceptOrCancelled next ∧
      next true = .done (.server true) ∧
      next false = .call .joinAll (fun _ => .done (.server false)) :=
  ⟨_, rfl, rfl, rfl⟩

/-- The accept loop does not panic. -/
theorem neverPanics_serve : (Answer.server <$> serveRound).NeverPanics := by
  obtain ⟨next, hround, htrue, hfalse⟩ := serveRound_eq
  rw [hround, Prog.neverPanics_call]
  intro r
  cases r with
  | true => simp [htrue]
  | false => simp [hfalse]

/-- The accept loop goes on with a round. -/
theorem serve_of_again {a : Answer} {p : Io Answer}
    (ha : D.machine.again (.server k) a = some p) : p = Answer.server <$> serveRound := by
  cases a with
  | server goOn =>
    cases goOn with
    | true =>
      cases ha
      rfl
    | false => cases ha
  | _ => cases ha

/-- At the head of its loop it ends, once its instance is cancelled and has no connections. -/
theorem serve_ends (hpool : s.pool (.server k) = .running (Answer.server <$> serveRound))
    (hcancelled : (s.world.instances k).cancelled = true)
    (hclosed : (s.world.instances k).connections = 0) :
    ∃ s', Machine.Alone D.machine Patient (.server k) s s' ∧ s'.world = s.world ∧
      ∃ a, s'.pool (.server k) = .finished a := by
  obtain ⟨next, hround, -, hfalse⟩ := serveRound_eq
  rw [hround] at hpool
  obtain ⟨s₁, halone₁, hworld₁, hpool₁⟩ := Machine.exists_call (M := D.machine)
    (patient_call s ⟨.acceptOrCancelled, false⟩ false) hpool (if_pos hcancelled)
  rw [hfalse] at hpool₁
  rw [← hworld₁] at hclosed
  obtain ⟨s₂, halone₂, hworld₂, hpool₂⟩ := Machine.exists_call (M := D.machine)
    (patient_call s₁ ⟨.joinAll, ()⟩ false) hpool₁ (if_pos hclosed)
  obtain ⟨s₃, halone₃, hworld₃, hpool₃⟩ := Machine.exists_finish (M := D.machine)
    (patient_finish s₂ _) hpool₂ rfl
  exact ⟨s₃, (halone₁.trans halone₂).trans halone₃, hworld₃.trans (hworld₂.trans hworld₁), _,
    hpool₃⟩

/-- **The accept loop ends**, wherever it stands. -/
theorem server_ends (hs : D.Reachable s) (hcancelled : (s.world.instances k).cancelled = true)
    (hclosed : (s.world.instances k).connections = 0) :
    ∃ s', Machine.Alone D.machine Patient (.server k) s s' ∧ s'.world = s.world ∧
      ∃ a, s'.pool (.server k) = .finished a := by
  cases hpool : s.pool (.server k) with
  | waiting =>
    obtain ⟨s₁, halone₁, hworld₁, hpool₁⟩ := Machine.exists_start (M := D.machine)
      (patient_start s (by simp)) hpool rfl
    rw [← hworld₁] at hcancelled hclosed
    obtain ⟨s₂, halone₂, hworld₂, hfinished⟩ := serve_ends hpool₁ hcancelled hclosed
    exact ⟨s₂, halone₁.trans halone₂, hworld₂.trans hworld₁, hfinished⟩
  | running p =>
    have hnever : p.NeverPanics := Machine.neverPanics_of_reachable neverPanics_serve
      (fun a q hagain => by rw [serve_of_again hagain]; exact neverPanics_serve) hs hpool
    have hkept := ((channelProtocol_obeyed D).sound hs (.server k)).running p hpool
    obtain ⟨s₁, halone₁, hworld₁, hdone⟩ := Machine.exists_end (K := fun _ w => w = s.world)
      (fun s ev applied => patient_call s ev applied) (fun s b => patient_pick s b)
      (fun h c w hcall => server_answered hcall hcancelled hclosed) hpool hkept rfl
    rcases hdone with ⟨a, ha, -⟩ | ⟨hpanics, -⟩
    · cases hagain : D.machine.again (.server k) a with
      | none =>
        obtain ⟨s₂, halone₂, hworld₂, hpool₂⟩ := Machine.exists_finish (patient_finish s₁ _) ha
          hagain
        exact ⟨s₂, halone₁.trans halone₂, hworld₂.trans hworld₁, a, hpool₂⟩
      | some q =>
        obtain ⟨s₂, halone₂, hworld₂, hpool₂⟩ := Machine.exists_again (patient_again s₁ _) ha hagain
        rw [serve_of_again hagain] at hpool₂
        have hworld : s₂.world = s.world := hworld₂.trans hworld₁
        rw [← hworld] at hcancelled hclosed
        obtain ⟨s₃, halone₃, hworld₃, hfinished⟩ := serve_ends hpool₂ hcancelled hclosed
        exact ⟨s₃, (halone₁.trans halone₂).trans halone₃, hworld₃.trans hworld, hfinished⟩
    · exact absurd hnever hpanics
  | finished a => exact ⟨s, .refl _ s, rfl, a, hpool⟩
  | dropped => exact absurd hpool (Machine.not_dropped hs fun _ => rfl)

end Server

/-! ## The whole instance -/

section Instance

variable {D : Deployment} {s s' : DeploymentState} {k n : ℕ}

/-- A step leaves a cancelled instance cancelled. -/
theorem InstanceStep.cancelled {l : DeploymentLabel} {i i' : Instance} (h : InstanceStep D k l i i')
    (hi : i.cancelled = true) : i'.cancelled = true := by
  cases h with
  | cancel hl => rfl
  | _ => exact hi

/-- A run leaves a cancelled instance cancelled. -/
theorem cancelled_of_run (hs : D.Reachable s) (hlater : D.Leads s s')
    (hcancelled : (s.world.instances k).cancelled = true) :
    (s'.world.instances k).cancelled = true := by
  induction hlater with
  | refl => exact hcancelled
  | tail hr hstep ih =>
    obtain ⟨l, -, hl⟩ := hstep
    exact (instance_step (hs.trans hr) hl k).cancelled ih

/-- It is being handled, and no answer makes its handler panic, or it has been answered. -/
def Answerable (s : DeploymentState) (n : ℕ) : Prop :=
  (∃ p, s.pool (.request n) = .running p ∧ p.NeverPanics) ∨ ∃ a, s.pool (.request n) = .finished a

/-- A patient step keeps a request answerable. -/
theorem Answerable.step {l : DeploymentLabel} (h : Answerable s n) (hpatient : Patient s l)
    (hl : D.machine.Step s l s') : Answerable s' n := by
  have hmoved : ∀ (i : Task) (l : DeploymentLabel) (w : World) (t : Thread Call Call.Ret Answer),
      (i = .request n → Answerable (s.advance l w i t) n) → Answerable (s.advance l w i t) n := by
    intro i l w t ht
    by_cases hi : i = .request n
    · exact ht hi
    · unfold Answerable
      rw [State.advance_pool_of_ne s l w t (Ne.symm hi)]
      exact h
  have hruns : ∀ {p}, s.pool (.request n) = .running p → p.NeverPanics := by
    intro p hp
    rcases h with ⟨q, hq, hnever⟩ | ⟨a, ha⟩
    · rw [hp] at hq
      cases hq
      exact hnever
    · rw [hp] at ha
      cases ha
  cases hl with
  | start i w hp hw => exact hmoved _ _ _ _ fun hi => absurd (by rw [hi]) (hpatient.1 n)
  | call i c next r applied w hp hw =>
    apply hmoved
    rintro rfl
    exact .inl ⟨_, State.advance_pool_self _ _ _ _ _, (Prog.neverPanics_call _ _).mp (hruns hp) r⟩
  | pick i next b hp =>
    apply hmoved
    rintro rfl
    exact .inl ⟨_, State.advance_pool_self _ _ _ _ _, (Prog.neverPanics_pick _).mp (hruns hp) b⟩
  | again i a p hp ha =>
    apply hmoved
    rintro rfl
    cases ha
  | finish i a hp ha =>
    apply hmoved
    rintro rfl
    exact .inr ⟨a, State.advance_pool_self _ _ _ _ _⟩
  | drop i p w hp hw =>
    apply hmoved
    rintro rfl
    obtain ⟨m, hm⟩ := hpatient.2 _ rfl
    exact ((Prog.neverPanics_panicked m).mp (hruns hm)).elim
  | env m w hw => exact h

/-- A patient run keeps a request answerable. -/
theorem answerable_of_run (hrun : D.machine.Run Patient s s') (h : Answerable s n) :
    Answerable s' n := by
  induction hrun with
  | refl => exact h
  | tail hr hstep ih =>
    obtain ⟨l, hpatient, hl⟩ := hstep
    exact ih.step hpatient hl

end Instance

/-- **An instance can always be brought to its end**, without a new request and without giving up
one that is being handled.  However the requests, the refresher and the accept loop stand, some run
goes on from there to a state in which both loops have ended, all connections are closed and every
request is over, and each request whose handler does not panic has its answer.  The refresher must
not have taken a host name that makes it panic. -/
theorem instance_can_stop (D : Deployment) (s : DeploymentState) (hs : D.Reachable s) (k : ℕ)
    (hwell : TookWellFormed D s k) :
    ∃ s', D.machine.Run Patient s s' ∧ Stopped s' k ∧
      ∀ n p, (D.requests n).instanceId = k → s.pool (.request n) = .running p → p.NeverPanics →
        ∃ a, s'.pool (.request n) = .finished a := by
  -- the cancellation
  obtain ⟨s₁, hrun₁, hworld₁, -, hhistory₁⟩ := Machine.exists_env (M := D.machine)
    (patient_env s (.cancel k)) rfl
  have hcancelled : (s₁.world.instances k).cancelled = true := by
    rw [hworld₁]
    simp [World.setInstance]
  have hwell₁ : TookWellFormed D s₁ k := by
    unfold TookWellFormed
    rw [hhistory₁]
    exact hwell
  have hreach : ∀ {s'}, D.machine.Run Patient s s' → D.Reachable s' := fun hrun =>
    hs.trans (leads_of_patient hrun)
  -- the refresher, then the requests, which wait for nobody else
  obtain ⟨s₂, halone₂, a, hfin⟩ := refresher_ends (hreach hrun₁) hwell₁ hcancelled
  have hrun₂ := hrun₁.trans halone₂.run
  obtain ⟨s₃, hrun₃, hkept₃, hflight⟩ := flight_ends (hreach hrun₂) hfin
  -- the connections, and last the accept loop
  obtain ⟨s₄, hrun₄, hkept₄, hflight₄, hclosed⟩ := connections_close (D := D) hflight
  have hrun := (hrun₂.trans hrun₃).trans hrun₄
  have hcancelled₄ := cancelled_of_run (hreach hrun₁)
    (leads_of_patient ((halone₂.run.trans hrun₃).trans hrun₄)) hcancelled
  obtain ⟨s₅, halone₅, hworld, hserved⟩ := server_ends (hreach hrun) hcancelled₄ hclosed
  have hfin₅ : s₅.pool (.refresher k) = .finished a := by
    rw [halone₅.pool _ (by simp), hkept₄.refresher, hkept₃.refresher, hfin]
  have hreach₅ := hreach (hrun.trans halone₅.run)
  refine ⟨s₅, hrun.trans halone₅.run, ⟨hserved, ⟨a, hfin₅⟩, closed_of_finished hreach₅ hfin₅,
    by rw [hworld]; exact hclosed, by rw [hworld]; exact hflight₄⟩, ?_⟩
  rintro n p rfl hp hnever
  rcases answerable_of_run (n := n) (hrun.trans halone₅.run) (.inl ⟨p, hp, hnever⟩) with
    ⟨q, hq, -⟩ | hanswered
  · -- nobody is in flight any more
    have hmem := (serves_of_reachable hreach₅).inFlight n ⟨q, hq⟩
    rw [hworld, hflight₄] at hmem
    exact absurd hmem List.not_mem_nil
  · exact hanswered

/-- The refresher has the message of one request in hand, and that of another one waits. -/
theorem instance_can_stop_waiting : ∃ s s' : DeploymentState,
    (versionsDeployment builtVersions).Reachable s ∧ Busy s 1 ∧
    (s.world.instances 0).queue = [ownMessage 1 randomProvider] ∧
    (versionsDeployment builtVersions).machine.Run Patient s s' ∧ Stopped s' 0 := by
  obtain ⟨s, hs, hview⟩ : ∃ s, (versionsDeployment builtVersions).Reachable s ∧
      (s.history (.refresher 0), (s.world.instances 0).queue, (s.world.instances 0).inFlight) =
        ([⟨.recvOrCancelled, some (ownMessage 0 randomProvider)⟩],
          [ownMessage 1 randomProvider], [0, 1]) :=
    Machine.exists_run_of_play (fun s : DeploymentState => (s.history (.refresher 0),
        (s.world.instances 0).queue, (s.world.instances 0).inFlight))
      (opened 0 ++ enqueued 0 randomProvider ++ enqueued 1 randomProvider ++
        [.start (.refresher 0), taken 0 0 randomProvider]) rfl
  simp only [Prod.mk.injEq] at hview
  obtain ⟨hhistory, hqueue, hflight⟩ := hview
  have hwell : TookWellFormed (versionsDeployment builtVersions) s 0 := by
    intro message hmem
    rw [hhistory] at hmem
    cases List.mem_singleton.mp hmem
    exact ⟨_, rfl⟩
  obtain ⟨s', hrun, hstopped, -⟩ := instance_can_stop _ s hs 0 hwell
  obtain ⟨-, hbusy⟩ := (handles_of_reachable hs 0).busy 1 (by simp [hflight])
  exact ⟨s, s', hs, hbusy, hqueue, hrun, hstopped⟩

end Terrashine.Analysis
