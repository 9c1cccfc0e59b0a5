import Terrashine.Analysis.Upstream
import Terrashine.Analysis.IndexRequests
import Terrashine.Program.Refresh

/-!
# What the refresher does

Between two messages the refresher only asks registries, stores what they answer, and looks
at the clock.  It sends a response on a channel when the message in its hand has that
channel, once, and the response is the outcome of what it did since it took the message:
`RefresherCall` says so of each call, `wp_refresherRound` of the code.  It calls a provider
not stale only after it has stored a response for it.
-/

set_option autoImplicit false

namespace Terrashine.Analysis

open Terrashine.Library Terrashine.Model

/-! ## The message in hand -/

def handAfter (hand : Option RefreshRequest) : IoEvent → Option RefreshRequest
  | ⟨.recvOrCancelled, message⟩ => message
  | ⟨.respond _ _, _⟩ => none
  | _ => hand

/-- The message that was received last and not yet responded to. -/
def inHand (h : List IoEvent) : Option RefreshRequest := h.foldl handAfter none

/-- The last call was answered with the cancellation. -/
def Stopping (h : List IoEvent) : Prop := ∃ h', h = h' ++ [⟨.recvOrCancelled, none⟩]

/-- At the start no message is in hand. -/
@[simp] theorem inHand_nil : inHand [] = none := rfl

/-- One more call changes the hand as `handAfter` says. -/
@[simp] theorem inHand_concat (h : List IoEvent) (ev : IoEvent) :
    inHand (h ++ [ev]) = handAfter (inHand h) ev := by
  simp [inHand]

/-- A call in the course of one message: a step of the refresh or a look at the clock. -/
def Working : Call → Prop
  | .httpGet _ => True
  | .selectAuthToken _ => True
  | .storeProviderVersions _ _ => True
  | .instantNow => True
  | _ => False

/-- Working calls keep the message in hand. -/
theorem inHand_append {h tr : List IoEvent} (htr : ∀ ev ∈ tr, Working ev.1) :
    inHand (h ++ tr) = inHand h := by
  induction tr using List.reverseRecOn with
  | nil => rw [List.append_nil]
  | append_singleton tr ev ih =>
    have hinit : ∀ ev ∈ tr, Working ev.1 := fun e he => htr e (List.mem_append_left _ he)
    rw [← List.append_assoc, inHand_concat, ih hinit]
    have hev := htr ev (List.mem_append_right _ (List.mem_singleton_self ev))
    obtain ⟨c, r⟩ := ev
    cases c <;> first | rfl | exact hev.elim

/-- A refresher that works has not been cancelled. -/
theorem not_stopping_append {h tr : List IoEvent} (hh : ¬ Stopping h)
    (htr : ∀ ev ∈ tr, Working ev.1) : ¬ Stopping (h ++ tr) := by
  rcases List.eq_nil_or_concat' tr with rfl | ⟨init, last, rfl⟩
  · rw [List.append_nil]
    exact hh
  · rintro ⟨h', heq⟩
    rw [← List.append_assoc] at heq
    obtain ⟨-, hlast⟩ := List.append_inj' heq rfl
    have hev := htr last (List.mem_append_right _ (List.mem_singleton_self last))
    rw [List.singleton_inj] at hlast
    rw [hlast] at hev
    exact hev

/-- Only the cancellation stops a refresher. -/
theorem not_stopping_concat {h : List IoEvent} {ev : IoEvent}
    (hev : ev ≠ ⟨.recvOrCancelled, none⟩) : ¬ Stopping (h ++ [ev]) := by
  rintro ⟨h', heq⟩
  obtain ⟨-, hlast⟩ := List.append_inj' heq rfl
  rw [List.singleton_inj] at hlast
  exact hev hlast

/-! ## One refresh -/

section Refresh

variable {deps : Externals} {port : ℕ} {p : TerraformProvider}

/-- The history holds a store for the provider that succeeded. -/
def StoredBy (p : TerraformProvider) (h : List IoEvent) : Prop :=
  ∃ response n, (⟨.storeProviderVersions p response, .ok n⟩ : IoEvent) ∈ h

/-- A store is not taken back by what comes later. -/
theorem StoredBy.append {h : List IoEvent} (hs : StoredBy p h) (tr : List IoEvent) :
    StoredBy p (h ++ tr) := by
  obtain ⟨response, n, hmem⟩ := hs
  exact ⟨response, n, List.mem_append_left _ hmem⟩

/-- A refresh consists of working calls. -/
theorem calls_refreshVersions (deps : Externals) (port : ℕ) (p : TerraformProvider) :
    (refreshVersions deps (databaseRegistry port) p).run.Calls Working := by
  unfold refreshVersions
  refine Prog.calls_run_bind ?_ fun versions => ?_
  · refine Prog.calls_mono ?_ (calls_providerGet _ _ _ _ _)
    intro c hc
    cases c <;> first | exact hc.elim | trivial
  · refine Prog.calls_run_bind (calls_tryCall ?_) fun n => Prog.calls_run_pure _
    exact (Prog.calls_perform _ _).mpr trivial

/-- A refresh that succeeds has stored what it returns. -/
theorem refreshVersions_stored {tr : List IoEvent} {versions : ProviderVersions}
    (hr : Prog.Runs (refreshVersions deps (databaseRegistry port) p).run tr
      (.returned (.ok versions))) : StoredBy p tr := by
  unfold refreshVersions at hr
  obtain ⟨tr₁, tr₂, response, rfl, -, hr₂⟩ := Prog.runs_run_bind_ok hr
  obtain ⟨tr₃, tr₄, n, rfl, hr₃, -⟩ := Prog.runs_run_bind_ok hr₂
  have hcall := runs_tryCall_ok hr₃
  rw [perform_def, Prog.runs_call_iff] at hcall
  obtain ⟨r, tr', rfl, hdone⟩ := hcall
  obtain ⟨-, hout⟩ := Prog.runs_done_iff.mp hdone
  cases hout
  refine ⟨response, n, ?_⟩
  simp

end Refresh

/-! ## The responses -/

/-- What the refresher did since it took a message for the provider, and the response this
makes: the outcome of one refresh, or none because the provider is not stale. -/
inductive OwnOutcome (deps : Externals) (port : ℕ) (p : TerraformProvider) :
    List IoEvent → RefreshResponse → Prop
  | performed (before tr after result) (hbefore : ∀ ev ∈ before, ev.1 = Call.instantNow)
      (hafter : ∀ ev ∈ after, ev.1 = Call.instantNow)
      (hr : Prog.Runs (refreshVersions deps (databaseRegistry port) p).run tr (.returned result)) :
      OwnOutcome deps port p (before ++ tr ++ after) (.refreshPerformed result)
  | notStale (now) : OwnOutcome deps port p [⟨.instantNow, now⟩] .providerVersionNotStale

/-- The response to the message in hand on channel `n`. -/
def OwnResponse (deps : Externals) (port : ℕ) (n : ℕ) (response : RefreshResponse)
    (h : List IoEvent) : Prop :=
  ∃ p before tr, h = before ++ (⟨.recvOrCancelled, some (ownMessage n p)⟩ : IoEvent) :: tr ∧
    (∀ ev ∈ tr, Working ev.1) ∧ OwnOutcome deps port p tr response ∧
    (response = .providerVersionNotStale → StoredBy p before)

/-- The calls of a refresher, each after the history in which it may make it. -/
def RefresherCall (deps : Externals) (port : ℕ) (h : List IoEvent) (c : Call) : Prop :=
  (Stopping h → c = .dropReceiver) ∧
    match c with
    | .recvOrCancelled => ∀ message, inHand h = some message → message.responseChannel = none
    | .respond n response => OwnResponse deps port n response h
    | .dropReceiver => Stopping h
    | c => Working c

/-- Where a round begins and ends: every provider in the map was stored, no message with a
channel is in hand, and the refresher was not cancelled. -/
structure BetweenRounds (lastRefresh : LastRefresh) (h : List IoEvent) : Prop where
  stored : ∀ p ∈ lastRefresh, StoredBy p h
  free : ∀ message, inHand h = some message → message.responseChannel = none
  goesOn : ¬ Stopping h

/-- The refresher starts between two rounds. -/
theorem betweenRounds_nil : BetweenRounds ∅ [] := by
  refine ⟨fun p hp => absurd hp Finmap.notMem_empty, by simp, ?_⟩
  rintro ⟨h', heq⟩
  simp at heq

section Message

variable {deps : Externals} {port refreshInterval : ℕ} {message : RefreshRequest}
  {h₁ : List IoEvent}

/-- The history while the message is in hand. -/
def During (h₁ : List IoEvent) (message : RefreshRequest) (tr : List IoEvent) : List IoEvent :=
  h₁ ++ (⟨.recvOrCancelled, some message⟩ : IoEvent) :: tr

/-- More calls happen while the same message is in hand. -/
theorem during_append (tr tr' : List IoEvent) :
    During h₁ message tr ++ tr' = During h₁ message (tr ++ tr') := by
  simp [During]

/-- During a round its message is in hand. -/
theorem inHand_during {tr : List IoEvent} (htr : ∀ ev ∈ tr, Working ev.1) :
    inHand (During h₁ message tr) = some message := by
  have hsplit : During h₁ message tr =
      (h₁ ++ [(⟨.recvOrCancelled, some message⟩ : IoEvent)]) ++ tr := by simp [During]
  rw [hsplit, inHand_append htr, inHand_concat]
  rfl

/-- During a round the refresher has not been cancelled. -/
theorem not_stopping_during {tr : List IoEvent} (htr : ∀ ev ∈ tr, Working ev.1) :
    ¬ Stopping (During h₁ message tr) := by
  have hsplit : During h₁ message tr =
      (h₁ ++ [(⟨.recvOrCancelled, some message⟩ : IoEvent)]) ++ tr := by simp [During]
  rw [hsplit]
  exact not_stopping_append (not_stopping_concat (by simp)) htr

/-- A call of the refresh, or a look at the clock, is always allowed. -/
theorem refresherCall_working {tr : List IoEvent} (htr : ∀ ev ∈ tr, Working ev.1) {c : Call}
    (hc : Working c) : RefresherCall deps port (During h₁ message tr) c := by
  refine ⟨fun hs => absurd hs (not_stopping_during htr), ?_⟩
  cases c <;> first | exact hc | exact hc.elim

/-- The rule for a look at the clock during a round. -/
theorem wp_clock {tr : List IoEvent} (htr : ∀ ev ∈ tr, Working ev.1) {α : Type}
    (next : ℕ → Io α) {Q : α → List IoEvent → Prop}
    (hnext : ∀ now, (next now).wp (RefresherCall deps port) Q
      (During h₁ message (tr ++ [⟨.instantNow, now⟩]))) :
    (perform .instantNow >>= next).wp (RefresherCall deps port) Q (During h₁ message tr) := by
  rw [perform_def, Prog.call_bind, Prog.wp_call]
  refine ⟨refresherCall_working htr trivial, fun now => ?_⟩
  rw [during_append]
  exact hnext now

/-- A look at the clock is a working call. -/
theorem working_concat_clock {tr : List IoEvent} (htr : ∀ ev ∈ tr, Working ev.1) (now : ℕ) :
    ∀ ev ∈ tr ++ [(⟨.instantNow, now⟩ : IoEvent)], Working ev.1 := by
  intro ev hev
  rcases List.mem_append.mp hev with hev | hev
  · exact htr ev hev
  · rw [List.mem_singleton] at hev
    subst hev
    trivial

/-- The refresh, with the run that its result comes from. -/
theorem wp_refresh {tr : List IoEvent} (htr : ∀ ev ∈ tr, Working ev.1) {α : Type}
    {p : TerraformProvider} (next : Except TerrashineError ProviderVersions → Io α)
    {Q : α → List IoEvent → Prop}
    (hnext : ∀ result tr', (∀ ev ∈ tr ++ tr', Working ev.1) →
      Prog.Runs (refreshVersions deps (databaseRegistry port) p).run tr' (.returned result) →
      (next result).wp (RefresherCall deps port) Q (During h₁ message (tr ++ tr'))) :
    ((refreshVersions deps (databaseRegistry port) p).run >>= next).wp
      (RefresherCall deps port) Q (During h₁ message tr) := by
  rw [Prog.wp_bind]
  have hall : ∀ tr', (∀ ev ∈ tr', Working ev.1) → ∀ ev ∈ tr ++ tr', Working ev.1 := by
    intro tr' htr' ev hev
    rcases List.mem_append.mp hev with hev | hev
    · exact htr ev hev
    · exact htr' ev hev
  have hrun := Prog.wp_of_calls (φ := RefresherCall deps port) (calls_refreshVersions deps port p)
    (During h₁ message tr) fun tr' c htr' hc => by
      rw [during_append]
      exact refresherCall_working (hall tr' htr') hc
  refine Prog.wp_mono _ hrun ?_
  rintro result h' - ⟨tr', rfl, hr, hworking⟩
  rw [during_append]
  exact hnext result tr' (hall tr' hworking) hr

/-- Without a channel nothing is responded. -/
theorem answer_none (ops : RefresherOps Io) (response : RefreshResponse) {α : Type}
    (next : Unit → Io α) : (ops.answer none response >>= next) = next () := rfl

/-- With a channel the response is one call. -/
theorem answer_some (deps : Externals) (registry : RegistryClient) (n : ℕ)
    (response : RefreshResponse) {α : Type} (next : Unit → Io α) :
    ((refresherOps deps registry).answer (some n) response >>= next) =
      Prog.call (.respond n response) fun _ => next () := rfl

/-- The response, when the message asks for one. -/
theorem wp_answer {tr : List IoEvent} (htr : ∀ ev ∈ tr, Working ev.1) {response : RefreshResponse}
    (hown : OwnOutcome deps port message.provider tr response)
    (hstored : response = .providerVersionNotStale → StoredBy message.provider h₁)
    {lastRefresh : LastRefresh} (hmap : ∀ p ∈ lastRefresh, StoredBy p (h₁ ++ tr)) :
    ((refresherOps deps (databaseRegistry port)).answer message.responseChannel response >>=
      fun _ => pure lastRefresh).wp (RefresherCall deps port) BetweenRounds
      (During h₁ message tr) := by
  have hkept : ∀ tr', ∀ p ∈ lastRefresh, StoredBy p (During h₁ message tr ++ tr') := by
    intro tr' p hp
    obtain ⟨stored, n, hmem⟩ := hmap p hp
    refine ⟨stored, n, List.mem_append_left _ ?_⟩
    rcases List.mem_append.mp hmem with hmem | hmem
    · exact List.mem_append_left _ hmem
    · exact List.mem_append_right _ (List.mem_cons_of_mem _ hmem)
  cases hchannel : message.responseChannel with
  | none =>
    rw [answer_none, Prog.wp_pure]
    refine ⟨?_, ?_, not_stopping_during htr⟩
    · simpa using hkept []
    · intro message' hhand
      rw [inHand_during htr] at hhand
      cases hhand
      exact hchannel
  | some n =>
    rw [answer_some, Prog.wp_call]
    refine ⟨⟨fun hs => absurd hs (not_stopping_during htr), ?_⟩, fun delivered => ?_⟩
    · refine ⟨message.provider, h₁, tr, ?_, htr, hown, hstored⟩
      have hmessage : message = ownMessage n message.provider := by
        cases message
        cases hchannel
        rfl
      rw [During, hmessage]
      rfl
    · rw [Prog.wp_pure]
      refine ⟨hkept _, ?_, not_stopping_concat (by simp)⟩
      simp [handAfter]

/-- **The treatment of one message.** -/
theorem wp_handleMessage {lastRefresh : LastRefresh} (hmap : ∀ p ∈ lastRefresh, StoredBy p h₁) :
    (handleMessage (refresherOps deps (databaseRegistry port)) refreshInterval lastRefresh
      message).wp (RefresherCall deps port) BetweenRounds (During h₁ message []) := by
  have hnil : ∀ ev ∈ ([] : List IoEvent), Working ev.1 := by simp
  have hkept : ∀ tr, ∀ p ∈ lastRefresh, StoredBy p (h₁ ++ tr) :=
    fun tr p hp => (hmap p hp).append tr
  have hclock : ∀ now, ∀ ev ∈ [(⟨.instantNow, now⟩ : IoEvent)], ev.1 = Call.instantNow := by
    simp
  have hinsert : ∀ now tr, StoredBy message.provider (h₁ ++ tr) →
      ∀ p ∈ lastRefresh.insert message.provider now, StoredBy p (h₁ ++ tr) := by
    intro now tr hs p hp
    rcases Finmap.mem_insert.mp hp with rfl | hp
    · exact hs
    · exact hkept tr p hp
  unfold handleMessage
  cases hlast : lastRefresh.lookup message.provider with
  | none =>
    unfold refreshVacant
    apply wp_refresh hnil
    intro result tr hworking hr
    rw [List.nil_append] at hworking ⊢
    have hperformed : ∀ after, (∀ ev ∈ after, ev.1 = Call.instantNow) →
        OwnOutcome deps port message.provider (tr ++ after) (.refreshPerformed result) :=
      fun after hafter => .performed [] tr after result (by simp) hafter hr
    unfold enterVacant
    cases result with
    | ok versions =>
      dsimp only
      rw [bind_assoc]
      apply wp_clock hworking
      intro now
      refine wp_answer (working_concat_clock hworking now) (hperformed _ (hclock now)) (by simp) ?_
      apply hinsert
      obtain ⟨response, n, hmem⟩ := refreshVersions_stored hr
      exact ⟨response, n, by simp [hmem]⟩
    | error err =>
      dsimp only
      rw [pure_bind]
      refine wp_answer hworking ?_ (by simp) (hkept tr)
      simpa using hperformed [] (by simp)
  | some last =>
    have hmem : message.provider ∈ lastRefresh := by
      rw [← Finmap.lookup_isSome, hlast]
      rfl
    dsimp only
    apply wp_clock hnil
    intro now
    rw [List.nil_append]
    have hnow := working_concat_clock hnil now
    rw [List.nil_append] at hnow
    split
    · unfold refreshStale
      apply wp_refresh hnow
      intro result tr hworking hr
      apply wp_clock hworking
      intro completed
      refine wp_answer (working_concat_clock hworking completed) ?_ (by simp) ?_
      · exact .performed _ tr _ result (hclock now) (hclock completed) hr
      · apply hinsert
        exact (hmap _ hmem).append _
    · unfold answerFresh
      exact wp_answer hnow (.notStale now) (fun _ => hmap _ hmem) (hkept _)

/-- **One round of the loop.** -/
theorem wp_refresherRound {lastRefresh : LastRefresh} {h : List IoEvent}
    (hb : BetweenRounds lastRefresh h) :
    (refresherRound deps (databaseRegistry port) refreshInterval lastRefresh).wp
      (RefresherCall deps port) (fun r h' => ∀ lastRefresh', r = some lastRefresh' →
        BetweenRounds lastRefresh' h') h := by
  unfold refresherRound
  rw [perform_def, Prog.call_bind, Prog.wp_call]
  refine ⟨⟨fun hs => absurd hs hb.goesOn, hb.free⟩, fun r => ?_⟩
  cases r with
  | none =>
    show Prog.wp _ _ (perform .dropReceiver >>= fun _ => pure none) _
    rw [perform_def, Prog.call_bind, Prog.wp_call]
    refine ⟨⟨fun _ => rfl, h, rfl⟩, fun u => (Prog.wp_pure _).mpr ?_⟩
    intro lastRefresh' hnone
    cases hnone
  | some message =>
    show Prog.wp _ _ (handleMessage _ _ _ _ >>= fun lastRefresh' => pure (some lastRefresh')) _
    rw [Prog.wp_bind]
    refine Prog.wp_mono _ (wp_handleMessage hb.stored) ?_
    intro lastRefresh' h' _ hbetween
    refine (Prog.wp_pure _).mpr ?_
    intro lastRefresh'' hsome
    cases hsome
    exact hbetween

end Message

end Terrashine.Analysis
