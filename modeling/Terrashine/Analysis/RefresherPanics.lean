import Terrashine.Analysis.Upstream
import Terrashine.Interface.Deployment

/-!
# When the refresher panics

The refresher calls `discover_services` with the host name of the message, which clients
choose.  A host name that does not form the authority of a URL never gets into the map, so
every message with one is refreshed, and every refresh of one panics: a sequence of messages
is survived exactly when all its host names are well formed.
-/

set_option autoImplicit false

namespace Terrashine.Analysis

open Terrashine.Library Terrashine.Model Terrashine.Interface

section

variable {deps : Externals} {port refreshInterval : ℕ}

/-- A refresh for a well-formed host name does not panic. -/
theorem neverPanics_refreshVersions {p : TerraformProvider}
    (h : WellFormedAuthority deps port p.hostname) :
    (refreshVersions deps (databaseRegistry port) p).run.NeverPanics := by
  unfold refreshVersions
  refine Prog.neverPanics_run_bind (neverPanics_providerGet h _ _) fun versions => ?_
  exact Prog.neverPanics_run_bind (neverPanics_tryCall (neverPanics_perform _))
    fun n => Prog.neverPanics_run_pure _

/-- A refresh for an ill-formed one panics, whatever is answered. -/
theorem alwaysPanics_refreshVersions {p : TerraformProvider}
    (h : ¬ WellFormedAuthority deps port p.hostname) :
    (refreshVersions deps (databaseRegistry port) p).run.AlwaysPanics := by
  unfold refreshVersions
  rw [ExceptT.run_bind]
  exact (alwaysPanics_providerGet h _ _).bind _

/-- Responding does not panic. -/
theorem neverPanics_answer (channel : Option ℕ) (response : RefreshResponse) {α : Type} (a : α) :
    ((refresherOps deps (databaseRegistry port)).answer channel response >>=
      fun _ => pure a).NeverPanics := by
  cases channel <;> simp [RefresherOps.answer, refresherOps]

/-- A message with a well-formed host name is handled without a panic. -/
theorem neverPanics_handleMessage {message : RefreshRequest} {lastRefresh : LastRefresh}
    (h : WellFormedAuthority deps port message.provider.hostname) :
    (handleMessage (refresherOps deps (databaseRegistry port)) refreshInterval lastRefresh
      message).NeverPanics := by
  have hrefresh : ((refresherOps deps (databaseRegistry port)).refreshVersions
      message.provider).NeverPanics := neverPanics_refreshVersions h
  have hclock : ((refresherOps deps (databaseRegistry port)).instantNow).NeverPanics :=
    neverPanics_perform .instantNow
  unfold handleMessage
  split
  · unfold refreshVacant
    refine Prog.neverPanics_bind hrefresh fun result => ?_
    refine Prog.neverPanics_bind ?_ fun lastRefresh' => neverPanics_answer _ _ _
    unfold enterVacant
    cases result with
    | ok versions =>
      exact Prog.neverPanics_bind hclock fun now => (Prog.neverPanics_pure _).mpr trivial
    | error err => exact (Prog.neverPanics_pure _).mpr trivial
  · refine Prog.neverPanics_bind hclock fun now => ?_
    split
    · unfold refreshStale
      refine Prog.neverPanics_bind hrefresh fun result => ?_
      exact Prog.neverPanics_bind hclock fun completed => neverPanics_answer _ _ _
    · exact neverPanics_answer _ _ _

/-- A message for a provider that is not in the map is refreshed, and with an ill-formed host
name that panics. -/
theorem alwaysPanics_handleMessage {message : RefreshRequest} {lastRefresh : LastRefresh}
    (hnew : lastRefresh.lookup message.provider = none)
    (h : ¬ WellFormedAuthority deps port message.provider.hostname) :
    (handleMessage (refresherOps deps (databaseRegistry port)) refreshInterval lastRefresh
      message).AlwaysPanics := by
  unfold handleMessage
  rw [hnew]
  exact (alwaysPanics_refreshVersions h).bind _

/-- A message adds no provider but its own to the map. -/
theorem wp_handleMessage_keys (message : RefreshRequest) (lastRefresh : LastRefresh)
    (h : List IoEvent) :
    (handleMessage (refresherOps deps (databaseRegistry port)) refreshInterval lastRefresh
      message).wp (fun _ _ => True)
        (fun lastRefresh' _ => ∀ p ∈ lastRefresh', p = message.provider ∨ p ∈ lastRefresh) h := by
  have hinsert : ∀ now : ℕ, ∀ p ∈ lastRefresh.insert message.provider now,
      p = message.provider ∨ p ∈ lastRefresh := fun now p hp => Finmap.mem_insert.mp hp
  have hkeep : ∀ p ∈ lastRefresh, p = message.provider ∨ p ∈ lastRefresh := fun p hp => .inr hp
  -- no call before the last line says anything about the map
  have hskip : ∀ {α : Type} (p : Io α) (k : α → Io LastRefresh) (h : List IoEvent),
      (∀ a h', (k a).wp (fun _ _ => True)
        (fun lastRefresh' _ => ∀ p ∈ lastRefresh', p = message.provider ∨ p ∈ lastRefresh) h') →
      (p >>= k).wp (fun _ _ => True)
        (fun lastRefresh' _ => ∀ p ∈ lastRefresh', p = message.provider ∨ p ∈ lastRefresh) h := by
    intro α p k h hk
    rw [Prog.wp_bind]
    exact Prog.wp_trivial (fun _ _ => trivial) hk _
  unfold handleMessage
  split
  · unfold refreshVacant
    apply hskip
    intro result h'
    unfold enterVacant
    rw [Prog.wp_bind]
    cases result with
    | ok versions =>
      rw [Prog.wp_bind]
      refine Prog.wp_trivial (fun _ _ => trivial) (fun now h' => ?_) _
      exact (Prog.wp_pure _).mpr (hskip _ _ _ fun _ _ => (Prog.wp_pure _).mpr (hinsert now))
    | error err =>
      exact (Prog.wp_pure _).mpr (hskip _ _ _ fun _ _ => (Prog.wp_pure _).mpr hkeep)
  · apply hskip
    intro now h'
    split
    · unfold refreshStale
      apply hskip
      intro result h'
      apply hskip
      intro completed h'
      exact hskip _ _ _ fun _ _ => (Prog.wp_pure _).mpr (hinsert completed)
    · exact hskip _ _ _ fun _ _ => (Prog.wp_pure _).mpr hkeep

/-- The run from a map that only holds well-formed host names. -/
theorem runs_handleMessages (messages : List RefreshRequest) {lastRefresh : LastRefresh}
    (hmap : ∀ p ∈ lastRefresh, WellFormedAuthority deps port p.hostname)
    {tr : List IoEvent} {out : Outcome LastRefresh}
    (hr : Prog.Runs (handleMessages (refresherOps deps (databaseRegistry port)) refreshInterval
      lastRefresh messages) tr out) :
    (∃ lastRefresh', out = .returned lastRefresh') ↔
      ∀ message ∈ messages, WellFormedAuthority deps port message.provider.hostname := by
  induction messages generalizing lastRefresh tr with
  | nil =>
    obtain ⟨-, rfl⟩ := Prog.runs_done_iff.mp hr
    exact iff_of_true ⟨_, rfl⟩ fun _ h => absurd h List.not_mem_nil
  | cons message messages ih =>
    rw [handleMessages] at hr
    rcases Prog.runs_bind_iff.mp hr with ⟨m, hpanic, rfl⟩ | ⟨tr₁, tr₂, lastRefresh₁, rfl, h₁, h₂⟩
    · -- the first message panics, so its host name is ill formed
      constructor
      · rintro ⟨lastRefresh', hout⟩
        cases hout
      · intro hall
        have hgood := hall message List.mem_cons_self
        obtain ⟨a, ha⟩ := (neverPanics_handleMessage hgood).returned hpanic
        cases ha
    · -- it returns, so its host name is well formed, and so are those of the next map
      have hgood : WellFormedAuthority deps port message.provider.hostname := by
        by_contra hbad
        have hnew : lastRefresh.lookup message.provider = none := by
          rw [Finmap.lookup_eq_none]
          intro hmem
          exact hbad (hmap _ hmem)
        exact alwaysPanics_handleMessage hnew hbad tr₁ lastRefresh₁ h₁
      have hmap₁ : ∀ p ∈ lastRefresh₁, WellFormedAuthority deps port p.hostname := by
        intro p hp
        have hkeys := Prog.wp_run (wp_handleMessage_keys message lastRefresh []) h₁
        rcases hkeys p hp with rfl | hold
        · exact hgood
        · exact hmap p hold
      rw [ih hmap₁ h₂, List.forall_mem_cons]
      exact ⟨fun h => ⟨hgood, h⟩, fun h => h.2⟩

end

/-- **The refresher survives exactly the well-formed host names.**  Whatever the registries,
the database and the clock answer, a sequence of messages is worked through to its end if and
only if each host name in it, with the port of the instance, is the authority of a URL. -/
theorem refresher_survives_iff (deps : Externals) (port refreshInterval : ℕ)
    (messages : List RefreshRequest) (tr : List IoEvent) (out : Outcome LastRefresh)
    (hr : Prog.Runs (handleMessages (refresherOps deps (databaseRegistry port)) refreshInterval
      ∅ messages) tr out) :
    (∃ lastRefresh, out = .returned lastRefresh) ↔
      ∀ message ∈ messages, WellFormedAuthority deps port message.provider.hostname :=
  runs_handleMessages messages (fun _ hp => absurd hp Finmap.notMem_empty) hr

/-! ## A host name with a port -/

/-- Registries none of whose documents can be decoded. -/
def muteRegistries : Externals where
  host := plainHosts
  backslashes := true
  decodeServices _ := none
  decodeVersions _ := none
  decodeResponse _ := none

/-- A provider asked for under a host name that already has a port. -/
def portProvider : TerraformProvider :=
  { hostname := "registry.terraform.io:8443".toList, namespace_ := "hashicorp".toList
    providerType := "random".toList }

/-- One instance, and clients that ask for that provider. -/
def portDeployment : Deployment :=
  .uniform muteRegistries mirrorArgs fun _ => { instanceId := 0, route := .index portProvider }

/-- A message for the provider at the host name, without a port. -/
def messageFor (hostname : Text) : RefreshRequest :=
  { provider := { portProvider with hostname := hostname }, responseChannel := some 0 }

/-- Two registries, and once more the first, which has just been asked. -/
def servedMessages : List RefreshRequest :=
  [messageFor "registry.terraform.io".toList, messageFor "registry.opentofu.org".toList,
    messageFor "registry.terraform.io".toList]

def emptyRegistry : Externals := pathRegistry (some { versions := [] }) none

/-- All three are worked through, and with the port after them they are not. -/
theorem refresher_survives_port :
    (∀ message ∈ servedMessages,
      WellFormedAuthority emptyRegistry 443 message.provider.hostname) ∧
    ¬ ∀ message ∈ servedMessages ++ [messageFor "registry.terraform.io:8443".toList],
      WellFormedAuthority emptyRegistry 443 message.provider.hostname := by
  let ops := refresherOps emptyRegistry (databaseRegistry 443)
  constructor
  · have hreturned : (Prog.execute Call.usual (handleMessages ops 10 ∅ servedMessages)).2 =
        .returned (((∅ : LastRefresh).insert (messageFor "registry.terraform.io".toList).provider
          0).insert (messageFor "registry.opentofu.org".toList).provider 0) := by decide +kernel
    exact (refresher_survives_iff emptyRegistry 443 10 servedMessages _ _
      (Prog.runs_execute Call.usual _)).mp ⟨_, hreturned⟩
  · intro hall
    have hpanic : (Prog.execute Call.usual (handleMessages ops 10 ∅
        (servedMessages ++ [messageFor "registry.terraform.io:8443".toList]))).2 =
          .panicked "Could not parse URL".toList := by decide +kernel
    obtain ⟨lastRefresh, hr⟩ := (refresher_survives_iff emptyRegistry 443 10 _ _ _
      (Prog.runs_execute Call.usual _)).mpr hall
    cases hpanic.symm.trans hr

/-- What is seen of a task that has panicked. -/
def panicOf (i : Task) (s : DeploymentState) : Option Text :=
  match s.pool i with
  | .running (.panicked message) => some message
  | _ => none

/-- One request of a client brings the refresher down. -/
theorem refresher_panics :
    ∃ s, portDeployment.Reachable s ∧
      panicOf (.refresher 0) s = some "Could not parse URL".toList :=
  Machine.exists_run_of_play (panicOf (.refresher 0))
    (opened 0 ++ enqueued 0 portProvider ++ [.start (.refresher 0), taken 0 0 portProvider])
    (by decide)

end Terrashine.Analysis
