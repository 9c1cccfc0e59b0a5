import Terrashine.Analysis.LaterAnswers
import Terrashine.Analysis.Clock

/-!
# How often a registry is asked

A refresher that has stored the versions of a provider leaves its registry alone until the refresh
interval has passed.  The map it remembers is renewed after each store (`ReadSince`), and the
refresh is only begun when a later look at the clock is past the interval (`Rested`): so of two
moments, a store of a provider and the next call for it, the clock tells more than the interval
apart (`refreshes_spaced`).
-/

set_option autoImplicit false

namespace Terrashine.Analysis

open Terrashine.Library Terrashine.Model Terrashine.Interface

/-! ## Histories with stores -/

/-- The clock was read as `last` after every store of the provider. -/
def ReadSince (p : TerraformProvider) (last : ℕ) (h : List IoEvent) : Prop :=
  ∀ before response n after, h = before ++ ⟨.storeProviderVersions p response, .ok n⟩ :: after →
    (⟨.instantNow, last⟩ : IoEvent) ∈ after

/-- After every store of the provider the clock was seen to pass by more than the interval. -/
def Rested (refreshInterval : ℕ) (p : TerraformProvider) (h : List IoEvent) : Prop :=
  ∀ before response n after, h = before ++ ⟨.storeProviderVersions p response, .ok n⟩ :: after →
    ∃ last now : ℕ, (⟨.instantNow, last⟩ : IoEvent) ∈ after ∧ (⟨.instantNow, now⟩ : IoEvent) ∈ after ∧
      last + refreshInterval < now

/-- No store of the provider has succeeded in this part. -/
def Spared (p : TerraformProvider) (tr : List IoEvent) : Prop :=
  ∀ response n, (⟨.storeProviderVersions p response, .ok n⟩ : IoEvent) ∉ tr

section Histories

variable {p : TerraformProvider} {h tr : List IoEvent} {last now refreshInterval : ℕ}

/-- An event that is not in the second half of a history is in the first. -/
theorem split_of_append {ev : IoEvent} {before after : List IoEvent} (hev : ev ∉ tr)
    (heq : h ++ tr = before ++ ev :: after) :
    ∃ middle, h = before ++ ev :: middle ∧ after = middle ++ tr := by
  rcases List.append_eq_append_iff.mp heq with ⟨a, -, htr⟩ | ⟨c, rfl, hc⟩
  · rw [htr] at hev
    exact absurd (List.mem_append_right _ List.mem_cons_self) hev
  · cases c with
    | nil =>
      rw [List.nil_append] at hc
      rw [← hc] at hev
      exact absurd List.mem_cons_self hev
    | cons ev' middle =>
      obtain ⟨rfl, rfl⟩ := List.cons.inj hc
      exact ⟨middle, rfl, rfl⟩

/-- A part without a store of the provider changes nothing about the last reading. -/
theorem ReadSince.append (hread : ReadSince p last h) (htr : Spared p tr) :
    ReadSince p last (h ++ tr) := by
  intro before response n after heq
  obtain ⟨middle, hh, rfl⟩ := split_of_append (htr response n) heq
  exact List.mem_append_left _ (hread before response n middle hh)

/-- A provider stays rested while it is not stored. -/
theorem Rested.append (hrested : Rested refreshInterval p h) (htr : Spared p tr) :
    Rested refreshInterval p (h ++ tr) := by
  intro before response n after heq
  obtain ⟨middle, hh, rfl⟩ := split_of_append (htr response n) heq
  obtain ⟨last, now, hlast, hnow, hlt⟩ := hrested before response n middle hh
  exact ⟨last, now, List.mem_append_left _ hlast, List.mem_append_left _ hnow, hlt⟩

/-- A provider that was never stored is rested. -/
theorem Spared.rested (hspared : Spared p h) (refreshInterval : ℕ) :
    Rested refreshInterval p h := by
  rintro before response n after rfl
  exact absurd (List.mem_append_right _ List.mem_cons_self) (hspared response n)

/-- Two parts without a store of the provider make one. -/
theorem Spared.append (hh : Spared p h) (htr : Spared p tr) : Spared p (h ++ tr) := by
  intro response n hmem
  rcases List.mem_append.mp hmem with hmem | hmem
  · exact hh response n hmem
  · exact htr response n hmem

/-- Calls none of which stores the provider spare it. -/
theorem spared_of_calls {C : Call → Prop} (hC : ∀ response, ¬ C (.storeProviderVersions p response))
    (htr : ∀ ev ∈ tr, C ev.1) : Spared p tr :=
  fun response _ hmem => hC response (htr _ hmem)

/-- A look at the clock spares every provider. -/
theorem spared_clock (p : TerraformProvider) (now : ℕ) : Spared p [⟨.instantNow, now⟩] := by
  intro response n hmem
  simp at hmem

/-- A look at the clock comes after every store. -/
theorem readSince_clock (p : TerraformProvider) (h : List IoEvent) (now : ℕ) :
    ReadSince p now (h ++ [⟨.instantNow, now⟩]) := by
  intro before response n after heq
  obtain ⟨middle, -, rfl⟩ := split_of_append (spared_clock p now response n) heq
  exact List.mem_append_right _ (List.mem_singleton_self _)

/-- A reading that lies far enough behind the last one shows that the provider is rested. -/
theorem ReadSince.rested (hread : ReadSince p last h) (hlt : refreshInterval < now - last) :
    Rested refreshInterval p (h ++ [⟨.instantNow, now⟩]) := by
  intro before response n after heq
  obtain ⟨middle, hh, rfl⟩ := split_of_append (spared_clock p now response n) heq
  refine ⟨last, now, List.mem_append_left _ (hread before response n middle hh),
    List.mem_append_right _ (List.mem_singleton_self _), ?_⟩
  omega

end Histories

/-! ## The protocol -/

/-- A call to the registry or the database for a refresh of the provider. -/
def Refreshing (p : TerraformProvider) (h : List IoEvent) (c : Call) : Prop :=
  (∃ message, inHand h = some message ∧ message.provider = p) ∧
    (Upstream c ∨ ∃ response, c = .storeProviderVersions p response)

/-- What the refresher remembers is up to date. -/
def Paced (lastRefresh : LastRefresh) (h : List IoEvent) : Prop :=
  ∀ p, (lastRefresh.lookup p = none → Spared p h) ∧
    ∀ last, lastRefresh.lookup p = some last → ReadSince p last h

/-- A refresher begins to refresh a provider when it has rested. -/
def rateProtocol (D : Deployment) : Machine.Protocol Task Call Call.Ret Answer where
  allows i h c := ∀ k, i = .refresher k → ∀ p, Refreshing p h c →
    Rested (D.args k).refreshInterval p h
  ensures i answer h := ∀ k, i = .refresher k → ∀ lastRefresh,
    answer = .refresher (some lastRefresh) → Paced lastRefresh h

section Protocol

variable {D : Deployment} {k : ℕ} {lastRefresh : LastRefresh} {message : RefreshRequest}
  {h : List IoEvent}

/-- A call that is not made for a refresh. -/
theorem allows_idle {c : Call} (hup : ¬ Upstream c)
    (hstore : ∀ p response, c ≠ .storeProviderVersions p response) (i : Task) (h : List IoEvent) :
    (rateProtocol D).allows i h c := by
  rintro k - p ⟨-, hc | ⟨response, rfl⟩⟩
  · exact absurd hc hup
  · exact absurd rfl (hstore p response)

/-- A call that is made for the message in hand. -/
theorem allows_refresh {c : Call} (hhand : inHand h = some message)
    (hrested : Rested (D.args k).refreshInterval message.provider h) :
    (rateProtocol D).allows (.refresher k) h c := by
  rintro k' ⟨⟩ p ⟨⟨message', hhand', rfl⟩, -⟩
  cases hhand.symm.trans hhand'
  exact hrested

/-- What a refresh leaves behind: a store of its provider when it succeeds, and none otherwise. -/
structure RefreshTrace (p : TerraformProvider) (result : Except TerrashineError ProviderVersions)
    (tr : List IoEvent) : Prop where
  others : ∀ q, q ≠ p → Spared q tr
  failed : ∀ err, result = .error err → Spared p tr
  working : ∀ ev ∈ tr, Working ev.1

/-- A refresh that gets no further than the registry leaves no store behind. -/
theorem refreshTrace_upstream {p : TerraformProvider}
    {result : Except TerrashineError ProviderVersions} {tr : List IoEvent}
    (htr : ∀ ev ∈ tr, Upstream ev.1) : RefreshTrace p result tr := by
  have hspared : ∀ q, Spared q tr := fun q => spared_of_calls (fun _ h => h) htr
  refine ⟨fun q _ => hspared q, fun _ _ => hspared p, fun ev hev => ?_⟩
  have hup := htr ev hev
  generalize ev.1 = c at hup
  cases c <;> first | exact hup.elim | trivial

/-- A refresh of a rested provider keeps to the protocol and leaves its own trace. -/
theorem wp_refreshVersions (hhand : inHand h = some message)
    (hrested : Rested (D.args k).refreshInterval message.provider h) :
    (refreshVersions D.deps (D.registry k) message.provider).run.wp
      ((rateProtocol D).allows (.refresher k))
      (fun result h' => ∃ tr, h' = h ++ tr ∧ RefreshTrace message.provider result tr) h := by
  have hallowed : ∀ tr c, (∀ ev ∈ tr, Upstream ev.1) →
      (rateProtocol D).allows (.refresher k) (h ++ tr) c := by
    intro tr c htr
    have htrace : RefreshTrace message.provider (.ok { versions := [] }) tr :=
      refreshTrace_upstream htr
    apply allows_refresh
    · rw [inHand_append htrace.working, hhand]
    · exact hrested.append (spared_of_calls (fun _ h => h) htr)
  unfold refreshVersions
  rw [Prog.wp_run_bind]
  refine Prog.wp_mono _ (Prog.wp_of_calls (calls_providerGet _ _ _ _ _) h
    fun tr c htr _ => hallowed tr c htr) ?_
  rintro result h' - ⟨tr, rfl, -, htr⟩
  cases result with
  | error err => exact ⟨tr, rfl, refreshTrace_upstream htr⟩
  | ok versions =>
    dsimp only
    rw [Prog.wp_run_bind, wp_tryCall, perform_def, Prog.wp_call]
    refine ⟨hallowed tr _ htr, fun r => (Prog.wp_done r).mpr ?_⟩
    have hup : ∀ result, RefreshTrace message.provider result tr :=
      fun result => refreshTrace_upstream htr
    have hworking : ∀ ev ∈ tr ++ [⟨.storeProviderVersions message.provider versions, r⟩],
        Working ev.1 := by
      intro ev hev
      rcases List.mem_append.mp hev with hev | hev
      · exact (hup (.ok versions)).working ev hev
      · rw [List.mem_singleton.mp hev]
        trivial
    cases r with
    | error err =>
      refine ⟨_, List.append_assoc _ _ _, fun q hq => ?_, fun err' _ => ?_, hworking⟩
      · exact ((hup (.ok versions)).others q hq).append fun response n hmem => by simp at hmem
      · exact ((hup (.error err)).failed err rfl).append fun response n hmem => by simp at hmem
    | ok rows =>
      refine (Prog.wp_done _).mpr
        ⟨_, List.append_assoc _ _ _, fun q hq => ?_, fun err heq => ?_, hworking⟩
      · exact ((hup (.ok versions)).others q hq).append fun response n hmem => by simp [hq] at hmem
      · cases heq

/-- A look at the clock is always allowed. -/
theorem wp_clock_idle {α : Type} (i : Task) (next : ℕ → Io α) {Q : α → List IoEvent → Prop}
    (hnext : ∀ now, (next now).wp ((rateProtocol D).allows i) Q (h ++ [⟨.instantNow, now⟩])) :
    (perform .instantNow >>= next).wp ((rateProtocol D).allows i) Q h := by
  rw [perform_def, Prog.call_bind, Prog.wp_call]
  exact ⟨allows_idle (by simp [Upstream]) (by simp) i h, hnext⟩

/-- The map stays up to date while nothing is stored. -/
theorem Paced.append (hpaced : Paced lastRefresh h) {tr : List IoEvent}
    (htr : ∀ p, Spared p tr) : Paced lastRefresh (h ++ tr) :=
  fun p => ⟨fun hnone => ((hpaced p).1 hnone).append (htr p),
    fun last hlast => ((hpaced p).2 last hlast).append (htr p)⟩

/-- One more event that stores nothing for the provider spares it. -/
theorem spared_cons {p : TerraformProvider} {ev : IoEvent} {tr : List IoEvent}
    (hev : ∀ response n, ev ≠ ⟨.storeProviderVersions p response, .ok n⟩) (htr : Spared p tr) :
    Spared p (ev :: tr) := by
  intro response n hmem
  rcases List.mem_cons.mp hmem with heq | hmem
  · exact hev response n heq.symm
  · exact htr response n hmem

/-- A response keeps the map up to date. -/
theorem wp_answer_idle (hpaced : Paced lastRefresh h) (channel : Option ℕ)
    (response : RefreshResponse) :
    ((refresherOps D.deps (D.registry k)).answer channel response >>= fun _ =>
      pure lastRefresh).wp ((rateProtocol D).allows (.refresher k)) Paced h := by
  cases channel with
  | none =>
    rw [answer_none]
    exact (Prog.wp_pure _).mpr hpaced
  | some n =>
    rw [answer_some, Prog.wp_call]
    refine ⟨allows_idle (by simp [Upstream]) (by simp) _ h,
      fun delivered => (Prog.wp_pure _).mpr ?_⟩
    exact hpaced.append fun p => spared_cons (by simp) fun _ _ hmem => absurd hmem List.not_mem_nil

/-- The entry of a provider is renewed after its refresh. -/
theorem Paced.insert {result : Except TerrashineError ProviderVersions} {tr : List IoEvent}
    (hpaced : Paced lastRefresh h) (htrace : RefreshTrace message.provider result tr) (now : ℕ) :
    Paced (lastRefresh.insert message.provider now) (h ++ tr ++ [⟨.instantNow, now⟩]) := by
  intro q
  by_cases hq : q = message.provider
  · subst hq
    rw [Finmap.lookup_insert]
    constructor
    · intro hnone
      cases hnone
    · intro last hlast
      cases hlast
      exact readSince_clock _ _ now
  · rw [Finmap.lookup_insert_of_ne _ hq]
    have hspared := (htrace.others q hq).append (spared_clock q now)
    rw [List.append_assoc]
    exact ⟨fun hnone => ((hpaced q).1 hnone).append hspared,
      fun last hlast => ((hpaced q).2 last hlast).append hspared⟩

/-- **The treatment of one message.** -/
theorem wp_handleMessage_paced (hhand : inHand h = some message) (hpaced : Paced lastRefresh h) :
    (handleMessage (refresherOps D.deps (D.registry k)) (D.args k).refreshInterval lastRefresh
      message).wp ((rateProtocol D).allows (.refresher k)) Paced h := by
  unfold handleMessage
  cases hlast : lastRefresh.lookup message.provider with
  | none =>
    unfold refreshVacant
    rw [Prog.wp_bind]
    refine Prog.wp_mono _
      (wp_refreshVersions hhand (((hpaced message.provider).1 hlast).rested _)) ?_
    rintro result h' - ⟨tr, rfl, htrace⟩
    unfold enterVacant
    cases result with
    | ok versions =>
      dsimp only
      rw [bind_assoc]
      apply wp_clock_idle
      intro now
      exact wp_answer_idle (hpaced.insert htrace now) _ _
    | error err =>
      dsimp only
      rw [pure_bind]
      refine wp_answer_idle (hpaced.append fun p => ?_) _ _
      by_cases hp : p = message.provider
      · subst hp
        exact htrace.failed err rfl
      · exact htrace.others p hp
  | some last =>
    dsimp only
    apply wp_clock_idle
    intro now
    have hpaced' : Paced lastRefresh (h ++ [⟨.instantNow, now⟩]) :=
      hpaced.append fun p => spared_clock p now
    have hhand' : inHand (h ++ [⟨.instantNow, now⟩]) = some message := by
      rw [inHand_concat, hhand]
      rfl
    split
    · next hstale =>
      unfold refreshStale
      rw [Prog.wp_bind]
      refine Prog.wp_mono _ (wp_refreshVersions hhand'
        (((hpaced message.provider).2 last hlast).rested hstale)) ?_
      rintro result h' - ⟨tr, rfl, htrace⟩
      apply wp_clock_idle
      intro completed
      exact wp_answer_idle (hpaced'.insert htrace completed) _ _
    · unfold answerFresh
      exact wp_answer_idle hpaced' _ _

/-- **A round keeps the map up to date and refreshes rested providers only.** -/
theorem wp_round_paced (hpaced : Paced lastRefresh h) :
    (D.refresherRound k lastRefresh).wp ((rateProtocol D).allows (.refresher k))
      ((rateProtocol D).ensures (.refresher k)) h := by
  unfold Deployment.refresherRound refresherRound
  rw [Prog.wp_map, perform_def, Prog.call_bind, Prog.wp_call]
  refine ⟨allows_idle (by simp [Upstream]) (by simp) _ h, fun r => ?_⟩
  cases r with
  | none =>
    show Prog.wp _ _ (perform .dropReceiver >>= fun _ => pure none) _
    rw [perform_def, Prog.call_bind, Prog.wp_call]
    refine ⟨allows_idle (by simp [Upstream]) (by simp) _ _, fun u => (Prog.wp_pure _).mpr ?_⟩
    intro k' _ lastRefresh' heq
    cases heq
  | some message =>
    show Prog.wp _ _ (handleMessage _ _ _ _ >>= fun lastRefresh' => pure (some lastRefresh')) _
    rw [Prog.wp_bind]
    have hreceived : Paced lastRefresh (h ++ [⟨.recvOrCancelled, some message⟩]) :=
      hpaced.append fun p => spared_cons (by simp) fun _ _ hmem => absurd hmem List.not_mem_nil
    refine Prog.wp_mono _ (wp_handleMessage_paced (by simp [handAfter]) hreceived) ?_
    intro lastRefresh' h' _ hpaced'
    refine (Prog.wp_pure _).mpr ?_
    intro k' _ lastRefresh'' heq
    cases heq
    exact hpaced'

/-- The empty map is up to date at the start. -/
theorem paced_empty : Paced ∅ [] :=
  fun _ => ⟨fun _ _ _ hmem => absurd hmem List.not_mem_nil, fun last hlast => by
    rw [Finmap.lookup_empty] at hlast
    cases hlast⟩

/-- Every refresher keeps to the protocol. -/
theorem rateProtocol_obeyed (D : Deployment) : D.machine.Obeys (rateProtocol D) := by
  have hother : ∀ {i : Task} {p : Io Answer} {h : List IoEvent}, (∀ k, i ≠ .refresher k) →
      p.wp ((rateProtocol D).allows i) ((rateProtocol D).ensures i) h := fun hi =>
    Prog.wp_trivial (fun _ _ k heq => absurd heq (hi k)) (fun _ _ k heq => absurd heq (hi k)) _
  constructor
  · intro i
    cases i with
    | refresher k => exact wp_round_paced paced_empty
    | _ => exact hother (by simp)
  · intro i a p h hensures hagain
    cases i with
    | refresher k =>
      cases a with
      | refresher lastRefresh =>
        cases lastRefresh with
        | some lastRefresh =>
          cases hagain
          exact wp_round_paced (hensures k rfl lastRefresh rfl)
        | none => cases hagain
      | _ => cases hagain
    | _ => exact hother (by simp)

end Protocol

/-! ## Moments -/

section Moments

variable {D : Deployment} {s₁ s₂ s₃ s₄ : DeploymentState} {k : ℕ} {p : TerraformProvider}

/-- **A refresher that has stored the versions of a provider does not ask for them again before the
interval has passed.** -/
theorem refreshes_spaced (hs : D.Reachable s₁) {response : ProviderVersions} {rows : ℕ}
    {applied : Bool}
    (hstore : D.machine.Step s₁
      (.call (.refresher k) ⟨.storeProviderVersions p response, .ok rows⟩ applied) s₂)
    (hlater : D.Leads s₂ s₃) {ev : IoEvent} {applied' : Bool}
    (hcall : D.machine.Step s₃ (.call (.refresher k) ev applied') s₄)
    (hrefresh : Refreshing p (s₃.history (.refresher k)) ev.1) :
    s₁.world.clock + (D.args k).refreshInterval < s₃.world.clock := by
  have hs₃ : D.Reachable s₃ := (hs.tail ⟨_, trivial, hstore⟩).trans hlater
  have hrested := (rateProtocol_obeyed D).allowed_step hs₃ hcall k rfl p hrefresh
  obtain ⟨after, hafter⟩ := Machine.Run.history_prefix hlater (.refresher k)
  have hsplit : s₃.history (.refresher k) =
      s₁.history (.refresher k) ++ ⟨.storeProviderVersions p response, .ok rows⟩ :: after := by
    rw [← hafter, history_self hstore, List.append_assoc, List.singleton_append]
  obtain ⟨last, now, hlast, hnow, hlt⟩ := hrested _ response rows after hsplit
  have hfirst := (reading_between hlater hafter.symm hlast).1
  have hsecond := (reading_between hlater hafter.symm hnow).2
  have hclock := clock_step hstore
  omega

end Moments

/-- The first store of a provider, and, after an hour, the second. -/
def storedTwice : List ScriptMove :=
  opened 0 ++ enqueued 0 randomProvider ++ enqueued 1 randomProvider ++
    [.start (.refresher 0), taken 0 0 randomProvider] ++
    refreshed 0 randomProvider builtVersions 1 ++
    [.env (.tick 3600000000001), .again (.refresher 0), taken 0 1 randomProvider,
      answered (.refresher 0) .instantNow 3600000000001, usual (.refresher 0),
      usual (.refresher 0), usual (.refresher 0),
      answered (.refresher 0) (.storeProviderVersions randomProvider builtVersions) (.ok 0)]

/-- An event at a known place splits the history there. -/
theorem split_at {h : List IoEvent} {i : ℕ} {ev : IoEvent} (hev : h[i]? = some ev) :
    h = h.take i ++ ev :: h.drop (i + 1) := by
  obtain ⟨hi, rfl⟩ := List.getElem?_eq_some_iff.mp hev
  rw [List.getElem_cons_drop, List.take_append_drop]

/-- The two stores of the script lie more than an hour apart. -/
theorem refreshes_spaced_hour : ∃ s₁ s₃ : DeploymentState,
    (versionsDeployment builtVersions).Reachable s₁ ∧
    (versionsDeployment builtVersions).Leads s₁ s₃ ∧
    s₁.world.clock + 3600000000000 < s₃.world.clock := by
  obtain ⟨s, hs, hview⟩ : ∃ s, (versionsDeployment builtVersions).Reachable s ∧
      ((s.history (.refresher 0))[4]?, (s.history (.refresher 0))[12]?,
        inHand ((s.history (.refresher 0)).take 12)) =
      (some ⟨.storeProviderVersions randomProvider builtVersions, .ok 1⟩,
        some ⟨.storeProviderVersions randomProvider builtVersions, .ok 0⟩,
        some (ownMessage 1 randomProvider)) :=
    Machine.exists_run_of_play (fun s : DeploymentState =>
      ((s.history (.refresher 0))[4]?, (s.history (.refresher 0))[12]?,
        inHand ((s.history (.refresher 0)).take 12))) storedTwice rfl
  obtain ⟨hfirst, hsecond, hhand⟩ : _ ∧ _ ∧ _ := by simpa only [Prod.mk.injEq] using hview
  obtain ⟨s₃, s₄, applied', hs₃, -, hcall, -, hbefore⟩ :=
    Machine.exists_step_after hs (split_at hsecond)
  have hearlier : (s₃.history (.refresher 0))[4]? =
      some ⟨.storeProviderVersions randomProvider builtVersions, .ok 1⟩ := by
    rw [hbefore, List.getElem?_take_of_lt (by decide)]
    exact hfirst
  obtain ⟨s₁, s₂, applied, hs₁, -, hstore, hlater, -⟩ :=
    Machine.exists_step_after hs₃ (split_at hearlier)
  refine ⟨s₁, s₃, hs₁, .head ⟨_, trivial, hstore⟩ hlater, ?_⟩
  refine refreshes_spaced hs₁ hstore hlater hcall
    ⟨⟨ownMessage 1 randomProvider, ?_, rfl⟩, .inr ⟨_, rfl⟩⟩
  rw [hbefore]
  exact hhand

end Terrashine.Analysis
