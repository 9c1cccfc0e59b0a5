import Terrashine.Program.Refresh

/-!
# The refresher against its history

The refresher decides from a map that three branches write under different conditions.  Here
the same body runs over a script: one `Turn` for each message, with the readings of the clock
before and after a refresh, the result of the refresh, and whether the requester still
listens.  `Remembers` ties the map to the history, and `refresher_history` says that the
decisions are those of the history alone.
-/

set_option autoImplicit false

namespace Terrashine.Analysis

open Terrashine.Library Terrashine.Model

/-- One message, and what the refresher meets while it handles it. -/
structure Turn where
  message : RefreshRequest
  now : ℕ
  completed : ℕ
  outcome : Except TerrashineError ProviderVersions
  listening : Bool
  deriving DecidableEq

abbrev Turn.provider (t : Turn) : TerraformProvider := t.message.provider

/-- What the refresher did: the refreshes it called and the responses it sent. -/
structure TurnRecord where
  calls : List TerraformProvider
  sent : List (ℕ × RefreshResponse)
  deriving DecidableEq

/-- The clock shows `now` until the refresh has been called and `completed` after it. -/
def scriptOps (t : Turn) : RefresherOps (StateM TurnRecord) where
  instantNow := fun record => (if record.calls = [] then t.now else t.completed, record)
  refreshVersions p := fun record => (t.outcome, { record with calls := record.calls ++ [p] })
  send channel response := fun record =>
    (t.listening, { record with sent := record.sent ++ [(channel, response)] })

/-- The body of the loop on one turn. -/
def runTurn (refreshInterval : ℕ) (lastRefresh : LastRefresh) (t : Turn) :
    LastRefresh × TurnRecord :=
  handleMessage (scriptOps t) refreshInterval lastRefresh t.message { calls := [], sent := [] }

/-- The loop on a sequence of turns, each with what it did. -/
def runTurns (refreshInterval : ℕ) : LastRefresh → List Turn → List (Turn × TurnRecord)
  | _, [] => []
  | lastRefresh, t :: ts =>
    (t, (runTurn refreshInterval lastRefresh t).2) ::
      runTurns refreshInterval (runTurn refreshInterval lastRefresh t).1 ts

/-! ## One turn -/

/-- The responses of a turn: one when the message has a channel, none otherwise. -/
def responses (channel : Option ℕ) (response : RefreshResponse) : List (ℕ × RefreshResponse) :=
  channel.toList.map fun sender => (sender, response)

section Turn

variable {refreshInterval : ℕ} {lastRefresh : LastRefresh} {t : Turn}

/-- A provider that is not in the map is refreshed, and entered when that succeeds. -/
theorem runTurn_vacant (h : lastRefresh.lookup t.provider = none) :
    runTurn refreshInterval lastRefresh t =
      (match t.outcome with
        | .ok _ => lastRefresh.insert t.provider t.completed
        | .error _ => lastRefresh,
        { calls := [t.provider]
          sent := responses t.message.responseChannel (.refreshPerformed t.outcome) }) := by
  obtain ⟨⟨p, channel⟩, now, completed, outcome, listening⟩ := t
  unfold runTurn handleMessage
  rw [h]
  cases outcome <;> cases channel <;> rfl

/-- A stale provider is refreshed and its entry renewed, whatever comes of it. -/
theorem runTurn_stale {last : ℕ} (h : lastRefresh.lookup t.provider = some last)
    (hstale : refreshInterval < t.now - last) :
    runTurn refreshInterval lastRefresh t =
      (lastRefresh.insert t.provider t.completed,
        { calls := [t.provider]
          sent := responses t.message.responseChannel (.refreshPerformed t.outcome) }) := by
  obtain ⟨⟨p, channel⟩, now, completed, outcome, listening⟩ := t
  unfold runTurn handleMessage
  rw [h]
  show (if refreshInterval < now - last then _ else _ : StateM TurnRecord LastRefresh) _ = _
  rw [if_pos hstale]
  cases channel <;> rfl

/-- A provider that is not stale is not refreshed. -/
theorem runTurn_fresh {last : ℕ} (h : lastRefresh.lookup t.provider = some last)
    (hfresh : ¬ refreshInterval < t.now - last) :
    runTurn refreshInterval lastRefresh t =
      (lastRefresh,
        { calls := [], sent := responses t.message.responseChannel .providerVersionNotStale }) := by
  obtain ⟨⟨p, channel⟩, now, completed, outcome, listening⟩ := t
  unfold runTurn handleMessage
  rw [h]
  show (if refreshInterval < now - last then _ else _ : StateM TurnRecord LastRefresh) _ = _
  rw [if_neg hfresh]
  cases channel <;> rfl

end Turn

/-! ## The history -/

/-- The earlier turns at which a refresh of the provider was called. -/
def callsFor (p : TerraformProvider) (history : List (Turn × TurnRecord)) : List Turn :=
  (history.filter fun x => x.1.provider = p ∧ x.2.calls ≠ []).map Prod.fst

/-- What the history says about a message: no earlier call for its provider succeeded, or the
latest one, successful or not, lies back by more than the interval. -/
def Due (refreshInterval : ℕ) (history : List (Turn × TurnRecord)) (t : Turn) : Prop :=
  (∀ u ∈ callsFor t.provider history, ∃ err, u.outcome = .error err) ∨
    ∃ u, (callsFor t.provider history).getLast? = some u ∧ u.completed + refreshInterval < t.now

/-- **The invariant that ties the map to the history**: a provider is in it from its first
successful call on, with the completion of its latest call. -/
def Remembers (lastRefresh : LastRefresh) (history : List (Turn × TurnRecord)) : Prop :=
  ∀ p, match lastRefresh.lookup p with
    | none => ∀ u ∈ callsFor p history, ∃ err, u.outcome = .error err
    | some last => (∃ u ∈ callsFor p history, ∃ versions, u.outcome = .ok versions) ∧
      ∃ u, (callsFor p history).getLast? = some u ∧ u.completed = last

/-- One more turn is one more call for its own provider, if it refreshes. -/
theorem callsFor_concat (p : TerraformProvider) (history : List (Turn × TurnRecord)) (t : Turn)
    (record : TurnRecord) :
    callsFor p (history ++ [(t, record)]) =
      callsFor p history ++ (if t.provider = p ∧ record.calls ≠ [] then [t] else []) := by
  unfold callsFor
  rw [List.filter_append, List.map_append]
  congr 1
  by_cases h : t.provider = p ∧ record.calls ≠ []
  · rw [if_pos h, List.filter_cons_of_pos (by simpa using h)]
    rfl
  · rw [if_neg h, List.filter_cons_of_neg (by simpa using h)]
    rfl

/-- A map that remembers the history decides as the history does. -/
theorem Remembers.due_iff {refreshInterval : ℕ} {lastRefresh : LastRefresh}
    {history : List (Turn × TurnRecord)} (h : Remembers lastRefresh history) (t : Turn) :
    Due refreshInterval history t ↔
      match lastRefresh.lookup t.provider with
      | none => True
      | some last => refreshInterval < t.now - last := by
  have hp := h t.provider
  unfold Due
  cases hl : lastRefresh.lookup t.provider with
  | none =>
    rw [hl] at hp
    exact iff_of_true (.inl hp) trivial
  | some last =>
    rw [hl] at hp
    obtain ⟨⟨u, hu, versions, hok⟩, v, hlast, rfl⟩ := hp
    constructor
    · rintro (hall | ⟨w, hw, hlt⟩)
      · obtain ⟨err, herr⟩ := hall u hu
        rw [hok] at herr
        cases herr
      · rw [hlast] at hw
        cases hw
        omega
    · intro hlt
      exact .inr ⟨v, hlast, by omega⟩

/-- **One turn keeps the invariant.** -/
theorem Remembers.runTurn {refreshInterval : ℕ} {lastRefresh : LastRefresh}
    {history : List (Turn × TurnRecord)} (h : Remembers lastRefresh history) (t : Turn) :
    Remembers (runTurn refreshInterval lastRefresh t).1
      (history ++ [(t, (runTurn refreshInterval lastRefresh t).2)]) := by
  intro p
  rw [callsFor_concat]
  have hp := h p
  have htp := h t.provider
  cases hl : lastRefresh.lookup t.provider with
  | none =>
    rw [hl] at htp
    rw [runTurn_vacant hl]
    dsimp only
    by_cases heq : t.provider = p
    · subst heq
      rw [if_pos ⟨rfl, List.cons_ne_nil _ _⟩]
      cases hout : t.outcome with
      | ok versions =>
        dsimp only
        rw [Finmap.lookup_insert]
        dsimp only
        refine ⟨⟨t, List.mem_append_right _ (List.mem_singleton_self t), versions, hout⟩, t, ?_,
          rfl⟩
        rw [List.getLast?_append]
        rfl
      | error err =>
        dsimp only
        rw [hl]
        dsimp only
        intro u hu
        rcases List.mem_append.mp hu with hu | hu
        · exact htp u hu
        · rw [List.mem_singleton.mp hu]
          exact ⟨err, hout⟩
    · rw [if_neg fun hc => heq hc.1, List.append_nil]
      cases t.outcome with
      | ok versions =>
        dsimp only
        rw [Finmap.lookup_insert_of_ne _ (Ne.symm heq)]
        exact hp
      | error err => exact hp
  | some last =>
    by_cases hstale : refreshInterval < t.now - last
    · rw [hl] at htp
      obtain ⟨⟨u, hu, hok⟩, -⟩ := htp
      rw [runTurn_stale hl hstale]
      dsimp only
      by_cases heq : t.provider = p
      · subst heq
        rw [if_pos ⟨rfl, List.cons_ne_nil _ _⟩, Finmap.lookup_insert]
        dsimp only
        refine ⟨⟨u, List.mem_append_left _ hu, hok⟩, t, ?_, rfl⟩
        rw [List.getLast?_append]
        rfl
      · rw [if_neg fun hc => heq hc.1, List.append_nil, Finmap.lookup_insert_of_ne _ (Ne.symm heq)]
        exact hp
    · rw [runTurn_fresh hl hstale]
      dsimp only
      rw [if_neg fun hc => hc.2 rfl, List.append_nil]
      exact hp

/-! ## The whole run -/

/-- What a turn does when its provider is refreshed, and when it is not. -/
def performed (t : Turn) : TurnRecord :=
  { calls := [t.provider]
    sent := responses t.message.responseChannel (.refreshPerformed t.outcome) }

def notStale (t : Turn) : TurnRecord :=
  { calls := [], sent := responses t.message.responseChannel .providerVersionNotStale }

/-- A turn refreshes exactly when the history says that it is due. -/
theorem Remembers.record {refreshInterval : ℕ} {lastRefresh : LastRefresh}
    {history : List (Turn × TurnRecord)} (h : Remembers lastRefresh history) (t : Turn) :
    (Due refreshInterval history t →
      (Analysis.runTurn refreshInterval lastRefresh t).2 = performed t) ∧
    (¬ Due refreshInterval history t →
      (Analysis.runTurn refreshInterval lastRefresh t).2 = notStale t) := by
  rw [h.due_iff]
  cases hl : lastRefresh.lookup t.provider with
  | none =>
    rw [runTurn_vacant hl]
    exact ⟨fun _ => rfl, fun hdue => absurd trivial hdue⟩
  | some last =>
    refine ⟨fun hstale => ?_, fun hfresh => ?_⟩
    · rw [runTurn_stale hl hstale]
      rfl
    · rw [runTurn_fresh hl hfresh]
      rfl

/-- The turns are run in the order in which they come. -/
theorem map_fst_runTurns (refreshInterval : ℕ) (lastRefresh : LastRefresh) (ts : List Turn) :
    (runTurns refreshInterval lastRefresh ts).map Prod.fst = ts := by
  induction ts generalizing lastRefresh with
  | nil => rfl
  | cons t ts ih =>
    rw [runTurns, List.map_cons, ih]

/-- The run from a map that remembers the history so far. -/
theorem Remembers.runTurns {refreshInterval : ℕ} (ts : List Turn) {lastRefresh : LastRefresh}
    {history : List (Turn × TurnRecord)} (h : Remembers lastRefresh history)
    {before after : List (Turn × TurnRecord)} {t : Turn} {record : TurnRecord}
    (hrun : runTurns refreshInterval lastRefresh ts = before ++ (t, record) :: after) :
    (Due refreshInterval (history ++ before) t → record = performed t) ∧
    (¬ Due refreshInterval (history ++ before) t → record = notStale t) := by
  induction ts generalizing lastRefresh history before with
  | nil =>
    rw [Analysis.runTurns] at hrun
    exact absurd hrun (by simp)
  | cons u ts ih =>
    rw [Analysis.runTurns] at hrun
    cases before with
    | nil =>
      obtain ⟨heq, -⟩ := List.cons_eq_cons.mp hrun
      cases heq
      rw [List.append_nil]
      exact h.record t
    | cons x before =>
      obtain ⟨heq, hrest⟩ := List.cons_eq_cons.mp hrun
      cases heq
      have hnext := ih (h.runTurn u) hrest
      rw [List.append_assoc] at hnext
      exact hnext

/-- At the start there is no history and nothing is remembered. -/
theorem remembers_empty : Remembers ∅ [] := by
  intro p
  rw [Finmap.lookup_empty]
  intro u hu
  cases hu

/-! ## Other providers, and requesters that stopped listening -/

/-- A turn leaves what is remembered of other providers alone. -/
theorem lookup_runTurn_of_ne {refreshInterval : ℕ} {lastRefresh : LastRefresh} {t : Turn}
    {p : TerraformProvider} (hne : p ≠ t.provider) :
    (runTurn refreshInterval lastRefresh t).1.lookup p = lastRefresh.lookup p := by
  cases hl : lastRefresh.lookup t.provider with
  | none =>
    rw [runTurn_vacant hl]
    cases t.outcome with
    | ok versions => exact Finmap.lookup_insert_of_ne _ hne
    | error err => rfl
  | some last =>
    by_cases hstale : refreshInterval < t.now - last
    · rw [runTurn_stale hl hstale]
      exact Finmap.lookup_insert_of_ne _ hne
    · rw [runTurn_fresh hl hstale]

/-- A turn depends on what is remembered of its provider, and not on who listens. -/
theorem runTurn_congr (refreshInterval : ℕ) {lastRefresh lastRefresh' : LastRefresh} {t : Turn}
    (h : lastRefresh.lookup t.provider = lastRefresh'.lookup t.provider) (listening : Bool) :
    (runTurn refreshInterval lastRefresh t).2 =
        (runTurn refreshInterval lastRefresh' { t with listening := listening }).2 ∧
      (runTurn refreshInterval lastRefresh t).1.lookup t.provider =
        (runTurn refreshInterval lastRefresh' { t with listening := listening }).1.lookup
          t.provider := by
  have h' := h
  cases hl : lastRefresh.lookup t.provider with
  | none =>
    rw [hl] at h'
    rw [runTurn_vacant hl, runTurn_vacant (t := { t with listening := listening }) h'.symm]
    refine ⟨rfl, ?_⟩
    cases t.outcome with
    | ok versions =>
      dsimp only
      rw [Finmap.lookup_insert, Finmap.lookup_insert]
    | error err => exact h
  | some last =>
    rw [hl] at h'
    by_cases hstale : refreshInterval < t.now - last
    · rw [runTurn_stale hl hstale,
        runTurn_stale (t := { t with listening := listening }) h'.symm hstale]
      refine ⟨rfl, ?_⟩
      dsimp only
      rw [Finmap.lookup_insert, Finmap.lookup_insert]
    · rw [runTurn_fresh hl hstale,
        runTurn_fresh (t := { t with listening := listening }) h'.symm hstale]
      exact ⟨rfl, h⟩

/-- The turns of one provider, with other listeners. -/
def only (p : TerraformProvider) (listens : Turn → Bool) (ts : List Turn) : List Turn :=
  (ts.filter fun t => t.provider = p).map fun t => { t with listening := listens t }

/-- What the run does for one provider is what a run of its turns alone does. -/
theorem runTurns_only (refreshInterval : ℕ) (p : TerraformProvider) (listens : Turn → Bool)
    (ts : List Turn) {lastRefresh lastRefresh' : LastRefresh}
    (h : lastRefresh.lookup p = lastRefresh'.lookup p) :
    ((runTurns refreshInterval lastRefresh ts).filter fun x => x.1.provider = p).map Prod.snd =
      (runTurns refreshInterval lastRefresh' (only p listens ts)).map Prod.snd := by
  induction ts generalizing lastRefresh lastRefresh' with
  | nil => rfl
  | cons t ts ih =>
    unfold only
    rw [runTurns]
    by_cases heq : t.provider = p
    · subst heq
      have hturn := runTurn_congr refreshInterval h (listens t)
      rw [List.filter_cons_of_pos (by simp), List.filter_cons_of_pos (by simp), List.map_cons,
        List.map_cons, runTurns, List.map_cons, ih hturn.2, hturn.1]
      rfl
    · rw [List.filter_cons_of_neg (by simpa using heq), List.filter_cons_of_neg (by simpa using heq)]
      apply ih
      rw [lookup_runTurn_of_ne (Ne.symm heq)]
      exact h

/-- **The refresher implements its history specification.**  For every sequence of messages,
clock readings, results and listeners: a message calls for a refresh exactly when the history
says so, it then gets the result as its one response, and otherwise that the versions are not
stale; a message without a channel gets no response.  Dropping the messages of all other
providers, and changing who listens, changes nothing of this for a provider. -/
theorem refresher_history (refreshInterval : ℕ) (ts : List Turn) :
    (runTurns refreshInterval ∅ ts).map Prod.fst = ts ∧
    (∀ before t record after, runTurns refreshInterval ∅ ts = before ++ (t, record) :: after →
      (record.calls ≠ [] ↔ Due refreshInterval before t) ∧
      (Due refreshInterval before t → record.calls = [t.provider] ∧
        record.sent = t.message.responseChannel.toList.map fun sender =>
          (sender, .refreshPerformed t.outcome)) ∧
      (¬ Due refreshInterval before t → record.calls = [] ∧
        record.sent = t.message.responseChannel.toList.map fun sender =>
          (sender, .providerVersionNotStale))) ∧
    ∀ p listens,
      ((runTurns refreshInterval ∅ ts).filter fun x => x.1.provider = p).map Prod.snd =
        (runTurns refreshInterval ∅ (only p listens ts)).map Prod.snd := by
  refine ⟨map_fst_runTurns _ _ _, ?_, fun p listens => runTurns_only _ p listens ts rfl⟩
  intro before t record after hrun
  have h := remembers_empty.runTurns ts hrun
  rw [List.nil_append] at h
  refine ⟨⟨fun hcalls => ?_, fun hdue => ?_⟩, fun hdue => ?_, fun hdue => ?_⟩
  · by_contra hdue
    rw [h.2 hdue] at hcalls
    exact hcalls rfl
  · rw [h.1 hdue]
    exact List.cons_ne_nil _ _
  · rw [h.1 hdue]
    exact ⟨rfl, rfl⟩
  · rw [h.2 hdue]
    exact ⟨rfl, rfl⟩

end Terrashine.Analysis
