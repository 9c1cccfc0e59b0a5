import Terrashine.Library.Rounds
import Terrashine.Analysis.RefresherHistory
import Terrashine.Analysis.Refusals
import Terrashine.Analysis.Clock

/-!
# The refresher in its deployment

The body of the loop was written over what it needs of its surroundings, and its decisions are
known for every script of clock readings and results (`Remembers`).  Here the refresher of a
deployment, which shares its world with everything else, is shown to do what the body does over a
script: its history is the traces of complete turns and a part of one more, and the turns decide
as the turns before them say (`refresher_refines`).
-/

set_option autoImplicit false

namespace Terrashine.Analysis

open Terrashine.Library Terrashine.Model Terrashine.Interface

/-! ## Turns in a history -/

/-- The calls of a turn that did what the record says. -/
inductive TurnTrace (deps : Externals) (port : ℕ) (t : Turn) : TurnRecord → List IoEvent → Prop
  | performed (before refresh after : List IoEvent) (sent : List (ℕ × RefreshResponse))
      (hbefore : before <+: [⟨.instantNow, t.now⟩])
      (hrefresh : Prog.Runs (refreshVersions deps (databaseRegistry port) t.provider).run refresh
        (.returned t.outcome))
      (hafter : after <+: [⟨.instantNow, t.completed⟩]) :
      TurnTrace deps port t { calls := [t.provider], sent := sent }
        (⟨.recvOrCancelled, some t.message⟩ :: (before ++ refresh ++ after ++
          sent.map fun r => ⟨.respond r.1 r.2, t.listening⟩))
  | notStale (sent : List (ℕ × RefreshResponse)) :
      TurnTrace deps port t { calls := [], sent := sent }
        (⟨.recvOrCancelled, some t.message⟩ :: ⟨.instantNow, t.now⟩ ::
          sent.map fun r => ⟨.respond r.1 r.2, t.listening⟩)

section Turns

variable {deps : Externals} {port refreshInterval : ℕ} {lastRefresh lastRefresh' : LastRefresh}

/-- A run of the answer sends the response to the channel, if there is one. -/
theorem runs_answer {registry : RegistryClient} {channel : Option ℕ} {response : RefreshResponse}
    {tr : List IoEvent}
    (h : Prog.Runs ((refresherOps deps registry).answer channel response) tr (.returned ())) :
    ∃ listening, tr = (responses channel response).map fun r => ⟨.respond r.1 r.2, listening⟩ := by
  cases channel with
  | none =>
    obtain ⟨rfl, -⟩ := Prog.runs_done_iff.mp h
    exact ⟨true, rfl⟩
  | some sender =>
    obtain ⟨tr₁, tr₂, listening, rfl, hcall, hdone⟩ := Prog.runs_bind_returned_iff.mp h
    obtain ⟨rfl, -⟩ := Prog.runs_done_iff.mp hdone
    have hsent : tr₁ = [⟨.respond sender response, listening⟩] := Prog.runs_perform_iff.mp hcall
    exact ⟨listening, by rw [hsent]; rfl⟩

/-- The end of a turn: the response, and the map it goes on with. -/
theorem runs_answer_pure {registry : RegistryClient} {channel : Option ℕ}
    {response : RefreshResponse} {tr : List IoEvent}
    (h : Prog.Runs ((refresherOps deps registry).answer channel response >>=
      fun _ => pure lastRefresh) tr (.returned lastRefresh')) :
    lastRefresh' = lastRefresh ∧
      ∃ listening, tr = (responses channel response).map fun r => ⟨.respond r.1 r.2, listening⟩ := by
  obtain ⟨tr₁, tr₂, u, rfl, hanswer, hdone⟩ := Prog.runs_bind_returned_iff.mp h
  obtain ⟨rfl, heq⟩ := Prog.runs_done_iff.mp hdone
  cases heq
  obtain ⟨listening, rfl⟩ := runs_answer hanswer
  exact ⟨rfl, listening, by rw [List.append_nil]⟩

/-- **The treatment of a message is one turn.** -/
theorem turn_of_handleMessage {message : RefreshRequest} {tr : List IoEvent}
    (h : Prog.Runs (handleMessage (refresherOps deps (databaseRegistry port)) refreshInterval
      lastRefresh message) tr (.returned lastRefresh')) :
    ∃ t record, runTurn refreshInterval lastRefresh t = (lastRefresh', record) ∧
      TurnTrace deps port t record (⟨.recvOrCancelled, some message⟩ :: tr) := by
  unfold handleMessage at h
  cases hlast : lastRefresh.lookup message.provider with
  | none =>
    rw [hlast] at h
    obtain ⟨tr₁, tr₂, result, rfl, hrefresh, hrest⟩ := Prog.runs_bind_returned_iff.mp h
    obtain ⟨tr₃, tr₄, entered, rfl, henter, hanswer⟩ := Prog.runs_bind_returned_iff.mp hrest
    obtain ⟨rfl, listening, rfl⟩ := runs_answer_pure hanswer
    cases result with
    | ok versions =>
      obtain ⟨tr₅, tr₆, now, rfl, hclock, hdone⟩ := Prog.runs_bind_returned_iff.mp henter
      obtain ⟨rfl, heq⟩ := Prog.runs_done_iff.mp hdone
      cases heq
      obtain rfl : tr₅ = [⟨.instantNow, now⟩] := Prog.runs_perform_iff.mp hclock
      let t : Turn := { message := message, now := now, completed := now
                        outcome := .ok versions, listening := listening }
      have htrace : TurnTrace deps port t _ _ :=
        .performed [] tr₁ [⟨.instantNow, now⟩]
          (responses message.responseChannel (.refreshPerformed (.ok versions)))
          List.nil_prefix hrefresh (List.prefix_refl _)
      exact ⟨t, _, runTurn_vacant (t := t) hlast, by simpa using htrace⟩
    | error err =>
      obtain ⟨rfl, heq⟩ := Prog.runs_done_iff.mp henter
      cases heq
      -- the clock is not looked at
      let t : Turn := { message := message, now := 0, completed := 0
                        outcome := .error err, listening := listening }
      have htrace : TurnTrace deps port t _ _ :=
        .performed [] tr₁ [] (responses message.responseChannel (.refreshPerformed (.error err)))
          List.nil_prefix hrefresh List.nil_prefix
      exact ⟨t, _, runTurn_vacant (t := t) hlast, by simpa using htrace⟩
  | some last =>
    rw [hlast] at h
    obtain ⟨tr₁, tr₂, now, rfl, hclock, hrest⟩ := Prog.runs_bind_returned_iff.mp h
    obtain rfl : tr₁ = [⟨.instantNow, now⟩] := Prog.runs_perform_iff.mp hclock
    split at hrest
    · next hstale =>
      obtain ⟨tr₃, tr₄, result, rfl, hrefresh, hrest⟩ := Prog.runs_bind_returned_iff.mp hrest
      obtain ⟨tr₅, tr₆, completed, rfl, hclock, hanswer⟩ := Prog.runs_bind_returned_iff.mp hrest
      obtain rfl : tr₅ = [⟨.instantNow, completed⟩] := Prog.runs_perform_iff.mp hclock
      obtain ⟨rfl, listening, rfl⟩ := runs_answer_pure hanswer
      let t : Turn := { message := message, now := now, completed := completed
                        outcome := result, listening := listening }
      have htrace : TurnTrace deps port t _ _ :=
        .performed [⟨.instantNow, now⟩] tr₃ [⟨.instantNow, completed⟩]
          (responses message.responseChannel (.refreshPerformed result))
          (List.prefix_refl _) hrefresh (List.prefix_refl _)
      exact ⟨t, _, runTurn_stale (t := t) hlast hstale, by simpa using htrace⟩
    · next hfresh =>
      obtain ⟨rfl, listening, rfl⟩ := runs_answer_pure hrest
      let t : Turn := { message := message, now := now, completed := now
                        outcome := .ok { versions := [] }, listening := listening }
      have htrace : TurnTrace deps port t _ _ :=
        .notStale (responses message.responseChannel .providerVersionNotStale)
      exact ⟨t, _, runTurn_fresh (t := t) hlast hfresh, htrace⟩

/-- **One round of the loop is one turn.** -/
theorem turn_of_runs {tr : List IoEvent}
    (h : Prog.Runs (refresherRound deps (databaseRegistry port) refreshInterval lastRefresh) tr
      (.returned (some lastRefresh'))) :
    ∃ t record, runTurn refreshInterval lastRefresh t = (lastRefresh', record) ∧
      TurnTrace deps port t record tr := by
  obtain ⟨tr₁, tr₂, r, rfl, hreceive, hrest⟩ := Prog.runs_bind_returned_iff.mp h
  obtain rfl : tr₁ = [⟨.recvOrCancelled, r⟩] := Prog.runs_perform_iff.mp hreceive
  cases r with
  | none =>
    obtain ⟨tr₃, tr₄, u, rfl, -, hdone⟩ := Prog.runs_bind_returned_iff.mp hrest
    obtain ⟨-, heq⟩ := Prog.runs_done_iff.mp hdone
    cases heq
  | some message =>
    obtain ⟨tr₃, tr₄, entered, rfl, hhandle, hdone⟩ := Prog.runs_bind_returned_iff.mp hrest
    obtain ⟨rfl, heq⟩ := Prog.runs_done_iff.mp hdone
    cases heq
    rw [List.append_nil]
    exact turn_of_handleMessage hhandle

end Turns

/-! ## Rounds -/

/-- What is remembered after a sequence of turns. -/
def remembered (refreshInterval : ℕ) (lastRefresh : LastRefresh) (ts : List Turn) : LastRefresh :=
  ts.foldl (fun lastRefresh t => (runTurn refreshInterval lastRefresh t).1) lastRefresh

/-- One more turn runs with what the turns before it have left. -/
theorem runTurns_concat (refreshInterval : ℕ) (lastRefresh : LastRefresh) (ts : List Turn)
    (t : Turn) : runTurns refreshInterval lastRefresh (ts ++ [t]) =
      runTurns refreshInterval lastRefresh ts ++
        [(t, (runTurn refreshInterval (remembered refreshInterval lastRefresh ts) t).2)] := by
  induction ts generalizing lastRefresh with
  | nil => rfl
  | cons u ts ih =>
    rw [List.cons_append, runTurns, runTurns, ih]
    rfl

section Rounds

variable {D : Deployment} {s : DeploymentState} {k : ℕ}

/-- The rounds of a refresher are the turns of a script. -/
theorem turns_of_rounds {rounds : List (List IoEvent)} {p : Io Answer}
    (h : Machine.Rounds D.machine (.refresher k) rounds p) :
    ∃ ts, p = D.refresherRound k (remembered (D.args k).refreshInterval ∅ ts) ∧
      List.Forall₂ (fun x tr => TurnTrace D.deps (D.args k).upstreamRegistryPort x.1 x.2 tr)
        (runTurns (D.args k).refreshInterval ∅ ts) rounds := by
  induction h with
  | main => exact ⟨[], rfl, .nil⟩
  | @again rounds p q tr a h hruns hagain ih =>
    obtain ⟨ts, rfl, htraces⟩ := ih
    obtain ⟨tr₁, tr₂, ended, rfl, hround, hdone⟩ := Prog.runs_bind_returned_iff.mp hruns
    obtain ⟨rfl, heq⟩ := Prog.runs_done_iff.mp hdone
    cases heq
    cases ended with
    | none => cases hagain
    | some lastRefresh =>
      cases hagain
      obtain ⟨t, record, hturn, htrace⟩ := turn_of_runs hround
      refine ⟨ts ++ [t], ?_, ?_⟩
      · unfold remembered
        rw [List.foldl_concat]
        unfold remembered at hturn
        rw [hturn]
      · rw [runTurns_concat, hturn, List.append_nil]
        exact List.rel_append htraces (.cons htrace .nil)

/-- What the refresher of instance `k` has done: complete turns, and a part of one more. -/
structure RefinesTurns (D : Deployment) (s : DeploymentState) (k : ℕ)
    (turns : List (Turn × TurnRecord)) (traces : List (List IoEvent)) (current : List IoEvent) :
    Prop where
  history : s.history (.refresher k) = traces.flatten ++ current
  traced : List.Forall₂
    (fun x tr => TurnTrace D.deps (D.args k).upstreamRegistryPort x.1 x.2 tr) turns traces
  due : ∀ before t record after, turns = before ++ (t, record) :: after →
    Due (D.args k).refreshInterval before t → record = performed t
  notDue : ∀ before t record after, turns = before ++ (t, record) :: after →
    ¬ Due (D.args k).refreshInterval before t → record = notStale t
  goesOn : ∃ lastRefresh p, Remembers lastRefresh turns ∧
    (D.refresherRound k lastRefresh).Steps current p
  ordered : ((s.history (.refresher k)).filterMap reading).Pairwise (· ≤ ·)

/-- After any turns the map and the history belong together. -/
theorem remembers_remembered {refreshInterval : ℕ} (ts : List Turn) :
    Remembers (remembered refreshInterval ∅ ts) (runTurns refreshInterval ∅ ts) := by
  induction ts using List.reverseRecOn with
  | nil => exact remembers_empty
  | append_singleton ts t ih =>
    rw [runTurns_concat]
    unfold remembered
    rw [List.foldl_concat]
    exact ih.runTurn t

/-- **The refresher of a deployment does what its loop body does over a script**, whatever else goes
on around it. -/
theorem refresher_refines (D : Deployment) (s : DeploymentState) (hs : D.Reachable s) (k : ℕ) :
    ∃ turns traces current, RefinesTurns D s k turns traces current := by
  obtain ⟨rounds, p, current, q, hrounds, hsteps, hhistory⟩ :=
    Machine.history_rounds hs (.refresher k)
  obtain ⟨ts, rfl, htraces⟩ := turns_of_rounds hrounds
  refine ⟨runTurns (D.args k).refreshInterval ∅ ts, rounds, current, hhistory, htraces, ?_, ?_,
    ⟨_, q, remembers_remembered ts, hsteps⟩, readings_ordered hs _⟩
  · intro before t record after hrun hdue
    exact (remembers_empty.runTurns ts hrun).1 hdue
  · intro before t record after hrun hdue
    exact (remembers_empty.runTurns ts hrun).2 hdue

end Rounds

/-- A refresher that has stored the versions of a provider, and is asked for them again. -/
theorem refresher_refines_twice : ∃ s turns traces current,
    (versionsDeployment builtVersions).Reachable s ∧
    (s.history (.refresher 0)).getLast? = some ⟨.respond 1 .providerVersionNotStale, true⟩ ∧
    RefinesTurns (versionsDeployment builtVersions) s 0 turns traces current := by
  obtain ⟨s, hs, hlast⟩ : ∃ s, (versionsDeployment builtVersions).Reachable s ∧
      (s.history (.refresher 0)).getLast? = some ⟨.respond 1 .providerVersionNotStale, true⟩ :=
    Machine.exists_run_of_play (fun s : DeploymentState => (s.history (.refresher 0)).getLast?)
      (twoAtOnce builtVersions 1) rfl
  obtain ⟨turns, traces, current, hrefines⟩ := refresher_refines _ s hs 0
  exact ⟨s, turns, traces, current, hs, hlast, hrefines⟩

end Terrashine.Analysis
