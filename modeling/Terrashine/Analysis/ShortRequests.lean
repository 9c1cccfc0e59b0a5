import Terrashine.Analysis.ArtifactProtocol

/-!
# Requests of a single call

A request for the downloads of a version and a request to the credentials API ask the database
once, and their answer says what it replied.  `ShortCall` and `ShortResult` are their calls and
their complete histories; `changes_owned` says which task makes each of the calls that change
what clients can see.
-/

set_option autoImplicit false

namespace Terrashine.Analysis

open Terrashine.Library Terrashine.Model Terrashine.Interface

/-- The one call of a request. -/
inductive ShortCall : Route → List IoEvent → Call → Prop
  | listDownloads (p segment version) (h : Version.tryFrom segment = .ok version) :
      ShortCall (.version p segment) [] (.selectDownloads p version.versionPrefix)
  | update (hostname token) :
      ShortCall (.updateCredential hostname token) [] (.upsertAuthToken hostname token)
  | delete (hostname) : ShortCall (.deleteCredential hostname) [] (.deleteAuthToken hostname)
  | exists_ (hostname) : ShortCall (.existsCredential hostname) [] (.selectAuthToken hostname)

/-- The complete histories, with the answers. -/
inductive ShortResult (url : Url) : Route → List IoEvent → Answer → Prop
  | malformed (p segment err) (h : Version.tryFrom segment = .error err) :
      ShortResult url (.version p segment) [] (.version (.error .badRequest))
  | listed (p segment version downloads) (h : Version.tryFrom segment = .ok version) :
      ShortResult url (.version p segment)
        [⟨.selectDownloads p version.versionPrefix, .ok downloads⟩]
        (.version (.ok (.build downloads url.serialize)))
  | notListed (p segment version err) (h : Version.tryFrom segment = .ok version) :
      ShortResult url (.version p segment)
        [⟨.selectDownloads p version.versionPrefix, .error err⟩]
        (.version (.error .internalServerError))
  | updated (hostname token) :
      ShortResult url (.updateCredential hostname token)
        [⟨.upsertAuthToken hostname token, .ok ()⟩] (.credential .ok .data)
  | notUpdated (hostname token err msg) :
      ShortResult url (.updateCredential hostname token)
        [⟨.upsertAuthToken hostname token, .error err⟩]
        (.credential .internalServerError (.error msg))
  | deleted (hostname) :
      ShortResult url (.deleteCredential hostname) [⟨.deleteAuthToken hostname, .ok ()⟩]
        (.credential .ok .data)
  | notDeleted (hostname err msg) :
      ShortResult url (.deleteCredential hostname) [⟨.deleteAuthToken hostname, .error err⟩]
        (.credential .internalServerError (.error msg))
  | found (hostname token) :
      ShortResult url (.existsCredential hostname) [⟨.selectAuthToken hostname, .ok (some token)⟩]
        (.credential .ok (.found true))
  | notFound (hostname) :
      ShortResult url (.existsCredential hostname) [⟨.selectAuthToken hostname, .ok none⟩]
        (.credential .notFound (.found false))
  | notChecked (hostname err msg) :
      ShortResult url (.existsCredential hostname) [⟨.selectAuthToken hostname, .error err⟩]
        (.credential .internalServerError (.error msg))

/-- The routes of these requests. -/
def Short : Route → Prop
  | .index _ => False
  | .artifact _ => False
  | _ => True

section Handlers

variable {url : Url}

/-- The version handler makes its query and answers with the rows. -/
theorem wp_versionHandler (p : TerraformProvider) {segment : Text} {version : Version}
    (h : Version.tryFrom segment = .ok version) :
    (Answer.version <$> versionHandler url p version).wp (ShortCall (.version p segment))
      (fun a h => ShortResult url (.version p segment) h a) [] := by
  unfold versionHandler listDownloads
  rw [Prog.wp_map, Prog.wp_bind, wp_tryCall, perform_def, Prog.wp_call]
  refine ⟨.listDownloads p segment version h, fun r => (Prog.wp_done r).mpr ?_⟩
  cases r with
  | ok downloads => exact (Prog.wp_pure _).mpr (.listed p segment version downloads h)
  | error err => exact (Prog.wp_pure _).mpr (.notListed p segment version err h)

/-- The update handler makes its upsert and answers with what came of it. -/
theorem wp_updateCredential (hostname token : Text) :
    ((fun r => Answer.credential r.1 r.2) <$>
      updateCredential databaseCredentials hostname token).wp
        (ShortCall (.updateCredential hostname token))
        (fun a h => ShortResult url (.updateCredential hostname token) h a) [] := by
  unfold updateCredential databaseCredentials
  rw [Prog.wp_map, Prog.wp_bind, wp_tryCall, perform_def, Prog.wp_call]
  refine ⟨.update hostname token, fun r => (Prog.wp_done r).mpr ?_⟩
  cases r with
  | ok u => exact (Prog.wp_pure _).mpr (.updated hostname token)
  | error err => exact (Prog.wp_pure _).mpr (.notUpdated hostname token err _)

/-- The handler of a deletion makes its statement and answers with what came of it. -/
theorem wp_deleteCredential (hostname : Text) :
    ((fun r => Answer.credential r.1 r.2) <$> deleteCredential databaseCredentials hostname).wp
      (ShortCall (.deleteCredential hostname))
      (fun a h => ShortResult url (.deleteCredential hostname) h a) [] := by
  unfold deleteCredential databaseCredentials
  rw [Prog.wp_map, Prog.wp_bind, wp_tryCall, perform_def, Prog.wp_call]
  refine ⟨.delete hostname, fun r => (Prog.wp_done r).mpr ?_⟩
  cases r with
  | ok u => exact (Prog.wp_pure _).mpr (.deleted hostname)
  | error err => exact (Prog.wp_pure _).mpr (.notDeleted hostname err _)

/-- The last handler makes its look-up and answers with what it found. -/
theorem wp_existsCredential (hostname : Text) :
    ((fun r => Answer.credential r.1 r.2) <$> existsCredential databaseCredentials hostname).wp
      (ShortCall (.existsCredential hostname))
      (fun a h => ShortResult url (.existsCredential hostname) h a) [] := by
  unfold existsCredential databaseCredentials
  rw [Prog.wp_map, Prog.wp_bind, Prog.wp_run_bind, wp_tryCall, perform_def, Prog.wp_call]
  refine ⟨.exists_ hostname, fun r => (Prog.wp_done r).mpr ?_⟩
  cases r with
  | error err => exact (Prog.wp_pure _).mpr (.notChecked hostname err _)
  | ok row =>
    cases row with
    | some token => exact (Prog.wp_pure _).mpr ((Prog.wp_pure _).mpr (.found hostname token))
    | none => exact (Prog.wp_pure _).mpr ((Prog.wp_pure _).mpr (.notFound hostname))

end Handlers

/-! ## The protocol -/

/-- What these requests do. -/
def shortProtocol (D : Deployment) : Machine.Protocol Task Call Call.Ret Answer where
  allows i h c := match i with
    | .request n => Short (D.requests n).route → ShortCall (D.requests n).route h c
    | _ => True
  ensures i a h := match i with
    | .request n => Short (D.requests n).route →
        ShortResult (D.args (D.requests n).instanceId).httpRedirectUrl (D.requests n).route h a
    | _ => True

/-- Each of these handlers makes its one call, or none. -/
theorem wp_shortHandler (D : Deployment) (n : ℕ) (hshort : Short (D.requests n).route) :
    (D.handler n).wp (ShortCall (D.requests n).route)
      (fun a h => ShortResult (D.args (D.requests n).instanceId).httpRedirectUrl
        (D.requests n).route h a) [] := by
  unfold Deployment.handler
  cases hroute : (D.requests n).route with
  | index p => exact absurd hshort (by simp [hroute, Short])
  | artifact v => exact absurd hshort (by simp [hroute, Short])
  | version p segment =>
    dsimp only
    split
    · next version hversion => exact wp_versionHandler p hversion
    · next err herr => exact (Prog.wp_pure _).mpr (.malformed p segment err herr)
  | updateCredential hostname token => exact wp_updateCredential hostname token
  | deleteCredential hostname => exact wp_deleteCredential hostname
  | existsCredential hostname => exact wp_existsCredential hostname

/-- Every request of these routes keeps to the protocol. -/
theorem shortProtocol_obeyed (D : Deployment) : D.machine.Obeys (shortProtocol D) := by
  constructor
  · intro i
    cases i with
    | request n =>
      show (D.handler n).wp _ _ []
      by_cases hshort : Short (D.requests n).route
      · have hcalls : (shortProtocol D).allows (.request n) = ShortCall (D.requests n).route := by
          funext h c
          exact propext ⟨fun hc => hc hshort, fun hc _ => hc⟩
        rw [hcalls]
        exact Prog.wp_mono _ (wp_shortHandler D n hshort) fun a h _ hresult _ => hresult
      · exact Prog.wp_trivial (fun _ _ hno => absurd hno hshort) (fun _ _ hno => absurd hno hshort) _
    | refresher k => exact Prog.wp_trivial (fun _ _ => trivial) (fun _ _ => trivial) _
    | server k => exact Prog.wp_trivial (fun _ _ => trivial) (fun _ _ => trivial) _
  · intro i a p h _ hagain
    cases i with
    | request n => cases hagain
    | refresher k => exact Prog.wp_trivial (fun _ _ => trivial) (fun _ _ => trivial) _
    | server k => exact Prog.wp_trivial (fun _ _ => trivial) (fun _ _ => trivial) _

section Requests

variable {D : Deployment} {s s' : DeploymentState} {n : ℕ}

/-- A finished request has one of the complete histories, with its answer. -/
theorem shortResult_of_finished (hs : D.Reachable s) (hshort : Short (D.requests n).route)
    {answer : Answer} (hfin : s.pool (.request n) = .finished answer) :
    ShortResult (D.args (D.requests n).instanceId).httpRedirectUrl (D.requests n).route
      (s.history (.request n)) answer :=
  ((shortProtocol_obeyed D).sound hs (.request n)).finished answer hfin hshort

/-! ## Who changes what -/

/-- The task may make the call, when it is one that changes the catalogue or the tokens, or reads
a row to store its archive. -/
def Owns (D : Deployment) (i : Task) : Call → Prop
  | .storeProviderVersions _ _ => ∃ k, i = .refresher k
  | .selectArtifact v => ∃ n, i = .request n ∧ (D.requests n).route = .artifact v
  | .upsertAuthToken hostname token =>
      ∃ n, i = .request n ∧ (D.requests n).route = .updateCredential hostname token
  | .deleteAuthToken hostname =>
      ∃ n, i = .request n ∧ (D.requests n).route = .deleteCredential hostname
  | _ => True

/-- **Only refreshers store versions, and only requests to the credentials API change tokens.** -/
theorem changes_owned (hs : D.Reachable s) {i : Task} {ev : IoEvent} {applied : Bool}
    (hl : D.machine.Step s (.call i ev applied) s') : Owns D i ev.1 := by
  have hchannel := (channelProtocol_obeyed D).allowed_step hs hl
  obtain ⟨c, r⟩ := ev
  dsimp only at hchannel ⊢
  cases i with
  | request n =>
    have hartifact := (artifactProtocol_obeyed D).allowed_step hs hl
    have hshort := (shortProtocol_obeyed D).allowed_step hs hl
    dsimp only [shortProtocol] at hshort
    generalize s.history (.request n) = h at hchannel hartifact hshort
    cases hroute : (D.requests n).route with
    | index p => cases hchannel.1 p hroute <;> trivial
    | artifact v =>
      have hcall := hartifact.1 v hroute
      dsimp only at hcall
      cases hcall with
      | read => exact ⟨n, rfl, hroute⟩
      | fetch detail tr c hnone hc =>
        rcases hc with rfl | hc
        · trivial
        · cases c <;> first | exact hc.elim | trivial
      | stash detail tr id body tr' c hnone hfetched hc => cases hc <;> trivial
      | redirectKnown detail id hsome => trivial
      | redirectNew detail tr id body tr' hnone hfetched hstash => trivial
    | version p segment =>
      rw [hroute] at hshort
      cases hshort trivial
      trivial
    | updateCredential hostname token =>
      rw [hroute] at hshort
      cases hshort trivial
      exact ⟨n, rfl, hroute⟩
    | deleteCredential hostname =>
      rw [hroute] at hshort
      cases hshort trivial
      exact ⟨n, rfl, hroute⟩
    | existsCredential hostname =>
      rw [hroute] at hshort
      cases hshort trivial
      trivial
  | refresher k =>
    obtain ⟨-, hcall⟩ := hchannel
    cases c <;> first | exact ⟨k, rfl⟩ | exact hcall.elim | trivial
  | server k =>
    rcases hchannel.2 with rfl | rfl <;> trivial

end Requests

end Terrashine.Analysis
