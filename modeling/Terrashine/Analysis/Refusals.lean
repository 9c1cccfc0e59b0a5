import Terrashine.Analysis.Responses
import Terrashine.Analysis.LaterAnswers

/-!
# When a refusal is transient

A request is refused with `ConcurrentProviderFetch` when the refresher calls the provider not
stale, and that it does only after a store for the provider succeeded.  As long as every
such store leaves a row, the rows are there when a request is refused, and whoever can read
the database later is answered from it: `refusal_transient`.  A response without platforms
leaves no row, and then the refusals go on: `refused_without_rows`.
-/

set_option autoImplicit false

namespace Terrashine.Analysis

open Terrashine.Library Terrashine.Model Terrashine.Interface

/-! ## Answers -/

/-- What the program of a task has ended with. -/
def answerOf (i : Task) (s : DeploymentState) : Option Answer :=
  match s.pool i with
  | .running (.done a) => some a
  | .finished a => some a
  | _ => none

/-- A successful store leaves a row of its provider. -/
def LeavesRows (s : DeploymentState) (l : DeploymentLabel) : Prop :=
  ∀ i p response n applied,
    l = .call i ⟨.storeProviderVersions p response, .ok n⟩ applied →
      tuples response ≠ [] ∨ (offers s.world.db p).Nonempty

section Runs

variable {D : Deployment} {s s' : DeploymentState} {n : ℕ} {p q : TerraformProvider}

/-- An index request that has ended did so as its history says. -/
theorem indexResult_of_answerOf (hs : D.Reachable s) (hroute : (D.requests n).route = .index p)
    {a : Answer} (ha : answerOf (.request n) s = some a) :
    ∃ result, a = .index result ∧ IndexResult n p (s.history (.request n)) result := by
  have hkept := (channelProtocol_obeyed D).sound hs (.request n)
  have hensures : (channelProtocol D).ensures (.request n) a (s.history (.request n)) := by
    unfold answerOf at ha
    split at ha
    · next a' hpool =>
      cases ha
      exact (Prog.wp_done a).mp (hkept.running _ hpool)
    · next a' hpool =>
      cases ha
      exact hkept.finished _ hpool
    · cases ha
  exact hensures p hroute

/-- **A refused request was called not stale**, after a store for its provider. -/
theorem stored_of_refused (hs : D.Reachable s) (hroute : (D.requests n).route = .index p)
    (hrefused : answerOf (.request n) s = some (.index (.error (.concurrentProviderFetch q)))) :
    q = p ∧ StoredBy p (s.history (.refresher (D.requests n).instanceId)) := by
  obtain ⟨result, heq, hresult⟩ := indexResult_of_answerOf hs hroute hrefused
  have herror : result = .error (.concurrentProviderFetch q) := (Answer.index.inj heq).symm
  generalize hh : s.history (.request n) = h at hresult
  cases hresult with
  | cached r index sent hknown => cases herror
  | refused r err hknown => cases err <;> cases herror
  | answered r response hknown =>
    cases response with
    | none => cases herror
    | some response =>
      have hreceived : (⟨.receiveResponse, some response⟩ : IoEvent) ∈ s.history (.request n) := by
        rw [hh]
        simp
      obtain ⟨p', before, tr, after, hroute', hhistory, hown, hstored⟩ :=
        received_responded hs hreceived
      have hp : p' = p := Route.index.inj (hroute'.symm.trans hroute)
      subst hp
      cases hown with
      | notStale now =>
        cases herror
        refine ⟨rfl, ?_⟩
        rw [hhistory, List.append_assoc]
        exact (hstored rfl).append _
      | performed bef run aft result hbefore hafter hr =>
        cases result with
        | ok versions => cases herror
        | error err =>
          -- the error of a refresh is never this one
          have hproper : StoresFailProperly run := by
            intro p₀ response₀ err₀ hmem
            refine storesFailProperly hs (.refresher (D.requests n).instanceId) p₀ response₀ err₀ ?_
            rw [hhistory]
            simp [hmem]
          cases herror
          exact (refreshVersions_ofRefresh hproper hr).elim

/-- A successful store adds a row or finds one. -/
theorem step_leavesRows {l : DeploymentLabel} (hl : D.machine.Step s l s') (hrows : LeavesRows s l)
    {i : Task} {response : ProviderVersions} {m : ℕ}
    (hown : Label.own i l = some ⟨.storeProviderVersions p response, .ok m⟩) :
    (offers s'.world.db p).Nonempty := by
  obtain ⟨applied, hcall⟩ := Label.own_eq_some.mp hown
  rcases hrows i p response m applied hcall with hne | ⟨v, hv⟩
  · obtain ⟨v, hv⟩ := List.exists_mem_of_ne_nil _ hne
    refine ⟨v, ?_⟩
    rw [step_offers hl]
    exact .inr ⟨response, ⟨i, .ok m, applied, hcall, .inl ⟨m, rfl⟩⟩, hv⟩
  · exact ⟨v, (step_extends hl).offers p hv⟩

/-- **Where every store leaves a row, a provider that was stored has one.** -/
theorem offers_nonempty (hs : D.machine.Reachable LeavesRows World.initial s) {i : Task}
    (hstored : StoredBy p (s.history i)) : (offers s.world.db p).Nonempty := by
  obtain ⟨response, m, hmem⟩ := hstored
  obtain ⟨s₁, s₂, applied, -, hrows, hl, hlater⟩ := Machine.exists_step hs hmem
  obtain ⟨v, hv⟩ := step_leavesRows hl hrows (Label.own_eq_some.mpr ⟨applied, rfl⟩)
  have hleads : D.Leads s₂ s := Machine.Run.mono (fun _ _ _ => trivial) hlater
  exact ⟨v, (leads_extends hleads).offers p hv⟩

/-- **A refusal is transient where every store leaves a row.**  In every run of any number of
instances in which it does: when an index request is refused, the database has a row of its
provider, and every index request for the provider that starts later and reads the database is
answered with what it reads. -/
theorem refusal_transient (hs : D.machine.Reachable LeavesRows World.initial s)
    (hroute : (D.requests n).route = .index p)
    (hrefused : answerOf (.request n) s = some (.index (.error (.concurrentProviderFetch q)))) :
    q = p ∧ (offers s.world.db p).Nonempty ∧
      ∀ s', D.Leads s s' → ∀ m rows, (D.requests m).route = .index p →
        s.history (.request m) = [] →
        (⟨.selectVersions p, .ok rows⟩ : IoEvent) ∈ s'.history (.request m) →
        ∃ index, MirrorIndex.ofRows rows = some index ∧
          ∀ a, answerOf (.request m) s' = some a → a = .index (.ok index) := by
  have hs₀ : D.Reachable s := Machine.Run.mono (fun _ _ _ => trivial) hs
  obtain ⟨rfl, hstored⟩ := stored_of_refused hs₀ hroute hrefused
  have hrows := offers_nonempty hs hstored
  refine ⟨rfl, hrows, ?_⟩
  intro s' hlater m rows hroute' hnew hread
  have hall : s'.history (.request m) = s.history (.request m) ++ s'.history (.request m) := by
    rw [hnew, List.nil_append]
  obtain ⟨db₀, hbefore, -, hperm⟩ := readBetween hlater hall hread
  obtain ⟨v, hv⟩ := hrows
  have hv₀ := hbefore.offers _ hv
  rcases ofRows_eq hperm with ⟨-, hempty⟩ | ⟨index, hindex, -, -⟩
  · rw [hempty] at hv₀
    exact absurd hv₀ (Set.notMem_empty v)
  · refine ⟨index, hindex, fun a ha => ?_⟩
    obtain ⟨result, rfl, hresult⟩ := indexResult_of_answerOf (hs₀.trans hlater) hroute' ha
    rw [hresult.of_read hread hindex]

end Runs

/-! ## Two requests at once -/

/-- A new provider is asked for twice before the refresher has stored it: the second message
finds it not stale. -/
def twoAtOnce (versions : ProviderVersions) (rows : ℕ) : List ScriptMove :=
  opened 0 ++ enqueued 0 randomProvider ++ enqueued 1 randomProvider ++
    [.start (.refresher 0), taken 0 0 randomProvider] ++
    refreshed 0 randomProvider versions rows ++ foundFresh 0 1 randomProvider

/-- Every successful store of the step brings tuples. -/
def storesTuples (_ : DeploymentState) : DeploymentLabel → Bool
  | .call _ ⟨.storeProviderVersions _ response, .ok _⟩ _ => !(tuples response).isEmpty
  | _ => true

/-- A store that brings tuples leaves a row. -/
theorem leavesRows_of_storesTuples (s : DeploymentState) (l : DeploymentLabel)
    (h : storesTuples s l = true) : LeavesRows s l := by
  rintro i p response n applied rfl
  left
  simpa [storesTuples] using h

/-- The second of two requests is refused, and then the provider has rows. -/
theorem refusal_transient_built : ∃ s : DeploymentState,
    answerOf (.request 1) s =
      some (.index (.error (.concurrentProviderFetch randomProvider))) ∧
    (offers s.world.db randomProvider).Nonempty := by
  obtain ⟨s, hs, hanswer⟩ : ∃ s,
      (versionsDeployment builtVersions).machine.Reachable LeavesRows World.initial s ∧
      answerOf (.request 1) s =
        some (.index (.error (.concurrentProviderFetch randomProvider))) :=
    Machine.exists_run_of_play_if leavesRows_of_storesTuples (answerOf (.request 1))
      (twoAtOnce builtVersions 1) rfl
  exact ⟨s, hanswer, (refusal_transient hs rfl hanswer).2.1⟩

/-- A version that is announced and not yet built. -/
def unbuiltVersion : ProviderVersions :=
  { versions := [{ version := "2.0.0".toList, platforms := [] }] }

/-- A call to the database that failed. -/
def databaseFailed : DeploymentLabel → Bool
  | .call _ ⟨.selectVersions _, .error _⟩ _ => true
  | .call _ ⟨.storeProviderVersions _ _, .error _⟩ _ => true
  | .call _ ⟨.selectAuthToken _, .error _⟩ _ => true
  | _ => false

/-- All calls to the database succeed, and a request is refused while the database has no row
of its provider; a request that starts after it is refused again. -/
theorem refused_without_rows : ∃ s s' : DeploymentState,
    (versionsDeployment unbuiltVersion).Reachable s ∧
    (versionsDeployment unbuiltVersion).Leads s s' ∧
    answerOf (.request 1) s =
      some (.index (.error (.concurrentProviderFetch randomProvider))) ∧
    s.world.db.selectVersions randomProvider = [] ∧ s.history (.request 2) = [] ∧
    answerOf (.request 2) s' =
      some (.index (.error (.concurrentProviderFetch randomProvider))) ∧
    s'.trace.any databaseFailed = false := by
  obtain ⟨s, s', hs, hlater, hview⟩ : ∃ s s' : DeploymentState,
      (versionsDeployment unbuiltVersion).Reachable s ∧
      (versionsDeployment unbuiltVersion).Leads s s' ∧
      (answerOf (.request 1) s, s.world.db.selectVersions randomProvider, s.history (.request 2),
        answerOf (.request 2) s', s'.trace.any databaseFailed) =
      (some (.index (.error (.concurrentProviderFetch randomProvider))), [], [],
        some (.index (.error (.concurrentProviderFetch randomProvider))), false) :=
    Machine.exists_runs_of_play _ (twoAtOnce unbuiltVersion 0)
      (enqueued 2 randomProvider ++ foundFresh 0 2 randomProvider) rfl
  simp only [Prod.mk.injEq] at hview
  obtain ⟨hrefused, hrows, hnew, hagain, hok⟩ := hview
  exact ⟨s, s', hs, hlater, hrefused, hrows, hnew, hagain, hok⟩

end Terrashine.Analysis
