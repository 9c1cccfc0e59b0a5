import Terrashine.Interface.Mirror
import Terrashine.Library.Moments
import Terrashine.Analysis.ArtifactRaces
import Terrashine.Analysis.CredentialStores
import Terrashine.Analysis.ShortRequests
import Terrashine.Analysis.Growth

/-!
# A deployment is a mirror

`mirrorOf` is the mirror that clients see in a state of a deployment: the rows of both tables
joined, the objects that the artifact ids of the rows name, and the tokens.  Each step of a
deployment is a change of this mirror or none at all, and the label of the step says which:
`mirror_simulated`.
-/

set_option autoImplicit false

namespace Terrashine.Analysis

open Terrashine.Library Terrashine.Model Terrashine.Interface

/-! ## The builds of a database -/

/-- What the version row with that id is a build of. -/
def buildOf (db : Database) (id : ℕ) : Option (TerraformProvider × VersionTuple) :=
  (db.selectArtifact id).map fun detail =>
    ({ hostname := detail.hostname, namespace_ := detail.namespace_
       providerType := detail.providerType },
      { version := detail.version, os := detail.os, arch := detail.arch })

section Builds

variable {db db' : Database} {p p' : TerraformProvider} {t : VersionTuple} {id : ℕ}
  {r : TerraformProviderVersionRow}

/-- A row belongs to one provider. -/
theorem RowOf.provider_eq (h : RowOf db p r) (h' : RowOf db p' r) : p = p' := by
  obtain ⟨-, q, hq, hid, rfl⟩ := h
  obtain ⟨-, q', hq', hid', rfl⟩ := h'
  rw [Table.eq_of_key db.schema.providerPkey hq hq' (hid.symm.trans hid')]

/-- The build under a number is the tuple of that row. -/
theorem buildOf_eq_some :
    buildOf db id = some (p, t) ↔ ∃ r, RowOf db p r ∧ r.id = id ∧ r.tuple = t := by
  constructor
  · intro h
    obtain ⟨detail, hselect, heq⟩ := Option.map_eq_some_iff.mp h
    obtain ⟨rfl, rfl⟩ := Prod.mk.inj heq
    obtain ⟨r, hnames, hid, -⟩ := selectArtifact_eq_some hselect
    exact ⟨r, hnames.provider, Int.natCast_inj.mp hid, hnames.tuple⟩
  · rintro ⟨r, hrow, rfl, rfl⟩
    obtain ⟨detail, hselect, -⟩ := selectArtifact_of_mem hrow.1
    obtain ⟨r', hnames, hid, -⟩ := selectArtifact_eq_some hselect
    have hsame : r' = r :=
      Table.eq_of_key db.schema.versionPkey hnames.provider.1 hrow.1 (Int.natCast_inj.mp hid)
    subst hsame
    unfold buildOf
    rw [hselect, Option.map_some, hnames.tuple, hrow.provider_eq hnames.provider]

/-- Two ids do not stand for one build. -/
theorem buildOf_injective (db : Database) (id id' : ℕ) (b : TerraformProvider × VersionTuple)
    (h : buildOf db id = some b) (h' : buildOf db id' = some b) : id = id' := by
  obtain ⟨p, t⟩ := b
  obtain ⟨r, ⟨hr, q, hq, hid, hp⟩, rfl, htuple⟩ := buildOf_eq_some.mp h
  obtain ⟨r', ⟨hr', q', hq', hid', hp'⟩, rfl, htuple'⟩ := buildOf_eq_some.mp h'
  have hprovider := Table.eq_of_key db.schema.uniqueProvider hq hq' (hp.trans hp'.symm)
  have hkey : r.key = r'.key := by
    unfold TerraformProviderVersionRow.key
    rw [hid, hid', hprovider, htuple, htuple']
  rw [Table.eq_of_key db.schema.versionTuple hr hr' hkey]

/-- Where neither rows nor offers have changed, neither have the builds. -/
theorem buildOf_congr (hext : Extends db db') (hoffers : ∀ p, offers db' p = offers db p) :
    buildOf db' = buildOf db := by
  have hkept : ∀ id b, buildOf db id = some b → buildOf db' id = some b := by
    rintro id ⟨p, t⟩ h
    obtain ⟨r, hrow, rfl, rfl⟩ := buildOf_eq_some.mp h
    obtain ⟨r', hrow', hid, htuple, -⟩ := hext.rowOf hrow
    exact buildOf_eq_some.mpr ⟨r', hrow', hid, htuple⟩
  funext id
  cases hnew : buildOf db' id with
  | some b =>
    obtain ⟨p, t⟩ := b
    obtain ⟨r, hrow, rfl, rfl⟩ := buildOf_eq_some.mp hnew
    have hoffered : r.tuple ∈ offers db p := by
      rw [← hoffers p]
      exact ⟨r, hrow, rfl⟩
    obtain ⟨r₀, hrow₀, htuple⟩ := hoffered
    have hold := buildOf_eq_some.mpr ⟨r₀, hrow₀, rfl, htuple⟩
    rw [buildOf_injective db' _ _ _ hnew (hkept _ _ hold), hold]
  | none =>
    cases hold : buildOf db id with
    | none => rfl
    | some b =>
      rw [hkept id b hold] at hnew
      cases hnew

end Builds

/-! ## The archives and the tokens -/

/-- The object that the artifact id of the row names. -/
def archiveOf (D : Deployment) (w : World) (id : ℕ) : Option Bytes :=
  (artifactOf w.db id).bind fun a => w.s3.objects D.bucketName (s3Key D.bucketPrefix a)

def tokenOf (db : Database) (hostname : Text) : Option Text := (db.selectAuthToken hostname).join

/-- An archive belongs to a build. -/
theorem build_of_archiveOf (D : Deployment) (w : World) (id : ℕ) (content : Bytes)
    (h : archiveOf D w id = some content) : ∃ b, buildOf w.db id = some b := by
  obtain ⟨a, ha, -⟩ := Option.bind_eq_some_iff.mp h
  obtain ⟨r, hr, rfl, -⟩ := artifactOf_eq_some.mp ha
  obtain ⟨q, hq, hid⟩ := w.db.schema.versionProvider r hr
  exact ⟨(q.provider, r.tuple), buildOf_eq_some.mpr ⟨r, ⟨hr, q, hq, hid.symm, rfl⟩, rfl, rfl⟩⟩

/-- The mirror that clients see. -/
def mirrorOf (D : Deployment) (s : DeploymentState) : Mirror where
  build := buildOf s.world.db
  archive := archiveOf D s.world
  token := tokenOf s.world.db
  distinct := buildOf_injective s.world.db
  archived := build_of_archiveOf D s.world

/-- The mirror offers the tuples of the database. -/
theorem offers_mirrorOf (D : Deployment) (s : DeploymentState) (p : TerraformProvider) :
    (mirrorOf D s).offers p = offers s.world.db p := by
  ext t
  constructor
  · rintro ⟨id, h⟩
    obtain ⟨r, hrow, -, htuple⟩ := buildOf_eq_some.mp h
    exact ⟨r, hrow, htuple⟩
  · rintro ⟨r, hrow, htuple⟩
    exact ⟨r.id, buildOf_eq_some.mpr ⟨r, hrow, rfl, htuple⟩⟩

/-! ## One step -/

/-- What a call does to the tokens. -/
inductive TokenStep (db db' : Database) : Call → Prop
  | same (c : Call) (h : db'.selectAuthToken = db.selectAuthToken) : TokenStep db db' c
  | upsert (hostname token : Text)
      (h : db'.selectAuthToken = Function.update db.selectAuthToken hostname (some (some token))) :
      TokenStep db db' (.upsertAuthToken hostname token)
  | delete (hostname : Text)
      (h : db'.selectAuthToken = Function.update db.selectAuthToken hostname none) :
      TokenStep db db' (.deleteAuthToken hostname)

/-- The tokens are read off the rows of the hosts. -/
theorem selectAuthToken_of_hosts {db db' : Database} (h : db'.hosts = db.hosts) :
    db'.selectAuthToken = db.selectAuthToken := by
  funext hostname
  unfold Database.selectAuthToken
  rw [h]

/-- A store leaves the hosts alone. -/
theorem hosts_store (fault : Option StoreStep) (now : ℕ) (db : Database) (p : TerraformProvider)
    (response : ProviderVersions) :
    (storeProviderVersions fault now db p response).2.hosts = db.hosts := by
  cases hrun : storeProviderVersions fault now db p response with
  | mk result db' =>
    cases result with
    | error err => exact congrArg Tables.terraformRegistryHost (store_error hrun).1
    | ok n =>
      obtain ⟨pid, new, hstored, -⟩ := store_ok hrun
      exact hstored.hosts

/-- The update of an artifact leaves the hosts alone. -/
theorem hosts_updateArtifact (now : ℕ) (db : Database) (a v : ℕ) :
    (db.updateArtifact now a v).2.hosts = db.hosts := by
  unfold Database.updateArtifact
  split <;> rfl

/-- A statement on the tokens changes them as it says, or reports an error. -/
theorem upsertAuthToken_cases (db : Database) (hostname token : Text) :
    ((db.upsertAuthToken hostname token).1 = .ok () ∧
        (db.upsertAuthToken hostname token).2.selectAuthToken =
          Function.update db.selectAuthToken hostname (some (some token))) ∨
      (db.upsertAuthToken hostname token).2.selectAuthToken = db.selectAuthToken := by
  cases hrun : db.upsertAuthToken hostname token with
  | mk result db' =>
    cases result with
    | ok u => exact .inl ⟨rfl, selectAuthToken_upsert hrun⟩
    | error err =>
      right
      apply selectAuthToken_of_hosts
      unfold Database.upsertAuthToken at hrun
      split at hrun
      · split at hrun
        · cases (Prod.mk.inj hrun).1
        · rw [← (Prod.mk.inj hrun).2]
      · rw [← (Prod.mk.inj hrun).2]

/-- A deletion removes the token, or changes none. -/
theorem deleteAuthToken_cases (db : Database) (hostname : Text) :
    ((db.deleteAuthToken hostname).1 = .ok () ∧
        (db.deleteAuthToken hostname).2.selectAuthToken =
          Function.update db.selectAuthToken hostname none) ∨
      (db.deleteAuthToken hostname).2.selectAuthToken = db.selectAuthToken := by
  cases hrun : db.deleteAuthToken hostname with
  | mk result db' =>
    cases result with
    | ok u => exact .inl ⟨rfl, selectAuthToken_delete hrun⟩
    | error err =>
      right
      apply selectAuthToken_of_hosts
      unfold Database.deleteAuthToken at hrun
      split at hrun
      · cases (Prod.mk.inj hrun).1
      · rw [← (Prod.mk.inj hrun).2]

section Calls

variable {w w' : World} {k : ℕ} {channel : Option ℕ} {applied : Bool}

/-- **Only an upsert or a deletion changes a token.** -/
theorem perform_tokens {c : Call} {r : c.Ret} (h : w.perform k channel c r applied = some w') :
    TokenStep w.db w'.db c := by
  have hother : onDatabase c = false → TokenStep w.db w'.db c := by
    intro hc
    apply TokenStep.same
    rw [(perform_frame h).db hc]
  have hhosts : ∀ {ε α : Type} [DecidableEq ε] [DecidableEq α] {lost : ε}
      {result : Except ε α × Database} {answer : Except ε α},
      w.statement lost result answer applied = some w' → result.2.hosts = w.db.hosts →
      TokenStep w.db w'.db c := by
    intro ε α _ _ lost result answer hw hresult
    apply TokenStep.same
    rcases statement_eq_some hw with ⟨rfl, -⟩ | ⟨rfl, -⟩
    · exact selectAuthToken_of_hosts hresult
    · rfl
  cases c with
  | storeProviderVersions p response => exact hhosts h (hosts_store ..)
  | nextvalArtifactIds => exact hhosts h rfl
  | updateArtifact a v => exact hhosts h (hosts_updateArtifact ..)
  | upsertAuthToken hostname token =>
    have hst : w.statement SqlError.unavailable (w.db.upsertAuthToken hostname token) r applied =
      some w' := h
    rcases statement_eq_some hst with ⟨rfl, -⟩ | ⟨rfl, -⟩
    · rcases upsertAuthToken_cases w.db hostname token with ⟨-, heq⟩ | heq
      · exact .upsert hostname token heq
      · exact .same _ heq
    · exact .same _ rfl
  | deleteAuthToken hostname =>
    have hst : w.statement SqlError.unavailable (w.db.deleteAuthToken hostname) r applied =
      some w' := h
    rcases statement_eq_some hst with ⟨rfl, -⟩ | ⟨rfl, -⟩
    · rcases deleteAuthToken_cases w.db hostname with ⟨-, heq⟩ | heq
      · exact .delete hostname heq
      · exact .same _ heq
    · exact .same _ rfl
  | _ => exact hother rfl

end Calls

/-- A row that is set sets the token. -/
theorem tokenOf_update {db db' : Database} {hostname : Text} {row : Option (Option Text)}
    (h : db'.selectAuthToken = Function.update db.selectAuthToken hostname row) :
    tokenOf db' = Function.update (tokenOf db) hostname row.join := by
  funext k
  unfold tokenOf
  rw [h]
  by_cases hk : k = hostname
  · rw [hk, Function.update_self, Function.update_self]
  · rw [Function.update_of_ne hk, Function.update_of_ne hk]

section Steps

variable {D : Deployment} {s s' : DeploymentState} {l : DeploymentLabel} {i : Task}

/-- An upload that was completed stays one. -/
theorem Completed.later {n : ℕ} {h h' : List IoEvent} {detail : ArtifactDetails} {id : ℕ}
    {body : Body} {parts : List (Bytes × Text)} (hdone : Completed D n h detail id body parts)
    (hlater : h <+: h') : Completed D n h' detail id body parts := by
  obtain ⟨v, tr, uploadId, rest, hroute, hfetched, rfl⟩ := hdone
  obtain ⟨more, rfl⟩ := hlater
  refine ⟨v, tr, uploadId, rest ++ more, hroute, hfetched, ?_⟩
  simp

/-- **The archive of a row stays the same object** for as long as the row names it. -/
theorem archiveOf_later (hs : D.Reachable s) (hlater : D.Leads s s') {v a : ℕ}
    (ha : artifactOf s.world.db v = some a) (ha' : artifactOf s'.world.db v = some a) :
    archiveOf D s'.world v = archiveOf D s.world v := by
  obtain ⟨i, answer, hev⟩ := updated_of_reachable hs ha
  obtain ⟨n, detail, body, parts, rfl, -, hdone, -, -⟩ := completed_of_update hs hev
  have hdone' := hdone.later (Machine.Run.history_prefix hlater (.request n))
  unfold archiveOf
  rw [ha, ha', Option.bind_some, Option.bind_some, object_of_reachable hs hdone,
    object_of_reachable (hs.trans hlater) hdone']

/-- A row that names an archive has one. -/
theorem archiveOf_ne_none (hs : D.Reachable s) {v a : ℕ} (ha : artifactOf s.world.db v = some a) :
    ∃ content, archiveOf D s.world v = some content ∧
      s.world.s3.objects D.bucketName (s3Key D.bucketPrefix a) = some content := by
  obtain ⟨i, answer, hev⟩ := updated_of_reachable hs ha
  obtain ⟨n, detail, body, parts, rfl, -, hdone, -, -⟩ := completed_of_update hs hev
  have hobject := object_of_reachable hs hdone
  refine ⟨_, ?_, hobject⟩
  unfold archiveOf
  rw [ha, Option.bind_some, hobject]

/-- A step that updates no row leaves the archives alone. -/
theorem archiveOf_step (hs : D.Reachable s) (hl : D.machine.Step s l s') {v : ℕ}
    (ha : artifactOf s'.world.db v = artifactOf s.world.db v) :
    archiveOf D s'.world v = archiveOf D s.world v := by
  cases hrow : artifactOf s.world.db v with
  | none =>
    unfold archiveOf
    rw [ha, hrow]
    rfl
  | some a => exact archiveOf_later hs (.single ⟨l, trivial, hl⟩) hrow (ha.trans hrow)

/-- What the versions of a provider announce. -/
def announcement (response : ProviderVersions) : Mirror.Announcement where
  versions := {v | v ∈ response.versions.map (·.version)}
  builds := {t | t ∈ tuples response}
  listed t ht := by
    obtain ⟨item, hitem, platform, -, rfl⟩ := mem_tuples.mp ht
    exact List.mem_map.mpr ⟨item, hitem, rfl⟩

/-- What the steps of a deployment do to its mirror: refreshers publish builds, an artifact request
stores the archive of its own build, and the token of a host name is set and forgotten by requests
that say so. -/
inductive MirrorMove (D : Deployment) : DeploymentLabel → Mirror → Mirror → Prop
  | publish (k : ℕ) (p : TerraformProvider) (response : ProviderVersions)
      (r : Except TerrashineError ℕ) (applied : Bool) (m m' : Mirror)
      (h : m.Changes m' (.publish p (announcement response))) :
      MirrorMove D (.call (.refresher k) ⟨.storeProviderVersions p response, r⟩ applied) m m'
  | store (n a id : ℕ) (r : Except SqlError Unit) (applied : Bool) (content : Bytes)
      (m m' : Mirror) (hroute : (D.requests n).route = .artifact id)
      (h : m.Changes m' (.store id content)) :
      MirrorMove D (.call (.request n) ⟨.updateArtifact a id, r⟩ applied) m m'
  | setToken (n : ℕ) (hostname token : Text) (r : Except SqlError Unit) (applied : Bool)
      (m m' : Mirror) (hroute : (D.requests n).route = .updateCredential hostname token)
      (h : m.Changes m' (.setToken hostname token)) :
      MirrorMove D (.call (.request n) ⟨.upsertAuthToken hostname token, r⟩ applied) m m'
  | forgetToken (n : ℕ) (hostname : Text) (r : Except SqlError Unit) (applied : Bool)
      (m m' : Mirror) (hroute : (D.requests n).route = .deleteCredential hostname)
      (h : m.Changes m' (.forgetToken hostname)) :
      MirrorMove D (.call (.request n) ⟨.deleteAuthToken hostname, r⟩ applied) m m'

/-- Only a store changes what is offered. -/
theorem offers_of_call {c : Call} {r : c.Ret} {applied : Bool}
    (hl : D.machine.Step s (.call i ⟨c, r⟩ applied) s')
    (hc : ∀ p response, c ≠ .storeProviderVersions p response) (p : TerraformProvider) :
    offers s'.world.db p = offers s.world.db p := perform_offers hc (perform_of_step hl) p

/-- The mirror stays when builds, archives and tokens do. -/
theorem mirrorOf_same (hs : D.Reachable s) (hl : D.machine.Step s l s')
    (hoffers : ∀ p, offers s'.world.db p = offers s.world.db p)
    (hrows : ∀ v, artifactOf s'.world.db v = artifactOf s.world.db v)
    (htokens : s'.world.db.selectAuthToken = s.world.db.selectAuthToken) :
    mirrorOf D s' = mirrorOf D s := by
  refine Mirror.ext (buildOf_congr (step_extends hl) hoffers) ?_ ?_
  · funext v
    exact archiveOf_step hs hl (hrows v)
  · show tokenOf s'.world.db = tokenOf s.world.db
    unfold tokenOf
    rw [htokens]

/-- An update of its row stores the archive of a build. -/
theorem changes_of_updates (hs : D.Reachable s) (hl : D.machine.Step s l s') {v a : ℕ}
    (hupdates : Updates v l i a) :
    ∃ content, (mirrorOf D s).Changes (mirrorOf D s') (.store v content) ∧
      s'.world.s3.objects D.bucketName (s3Key D.bucketPrefix a) = some content := by
  have hs' : D.Reachable s' := hs.tail ⟨l, trivial, hl⟩
  obtain ⟨content, hcontent, hobject⟩ :=
    archiveOf_ne_none hs' (artifactOf_of_updates hs hl hupdates)
  have hlabel : ∃ r applied, l = .call i ⟨.updateArtifact a v, r⟩ applied := by
    cases hupdates with
    | answered i a applied => exact ⟨_, _, rfl⟩
    | lost i a err => exact ⟨_, _, rfl⟩
  obtain ⟨r, applied, rfl⟩ := hlabel
  refine ⟨content, .store v content ?_ ?_ ?_, hobject⟩
  · exact buildOf_congr (step_extends hl) (offers_of_call hl (by simp))
  · funext w
    by_cases hw : w = v
    · subst hw
      rw [Function.update_self]
      exact hcontent
    · rw [Function.update_of_ne hw]
      rcases step_artifactOf hl w with heq | ⟨j, b, hother, -⟩
      · exact archiveOf_step hs hl heq
      · cases hother <;> exact absurd rfl hw
  · show tokenOf s'.world.db = tokenOf s.world.db
    cases perform_tokens (perform_of_step hl) with
    | same c h =>
      unfold tokenOf
      rw [h]

/-- The archive that a request stores is that of the build it was asked for. -/
theorem route_of_updates (hs : D.Reachable s) (hl : D.machine.Step s l s') {v a : ℕ}
    (hupdates : Updates v l i a) : ∃ n, i = .request n ∧ (D.requests n).route = .artifact v := by
  obtain ⟨n, detail, rfl, -, hread, -, -⟩ := read_of_updates hs hl hupdates
  obtain ⟨s₁, s₂, applied, hs₁, -, hstep, -⟩ := Machine.exists_step hs hread
  exact changes_owned hs₁ hstep

/-- The rows that a step leaves alone. -/
theorem artifactOf_of_step (hl : D.machine.Step s l s') (hno : ∀ v i a, ¬ Updates v l i a) (v : ℕ) :
    artifactOf s'.world.db v = artifactOf s.world.db v := by
  rcases step_artifactOf hl v with heq | ⟨i, a, hupdates, -⟩
  · exact heq
  · exact absurd hupdates (hno v i a)

/-- A commit publishes what its response announces. -/
theorem changes_of_stored (hs : D.Reachable s) {p : TerraformProvider} {response : ProviderVersions}
    {r : Except TerrashineError ℕ} {applied : Bool}
    (hl : D.machine.Step s (.call i ⟨.storeProviderVersions p response, r⟩ applied) s') {pid : ℕ}
    {new : List TerraformProviderVersionRow}
    (hstored : Stored s.world.db s'.world.db p response pid new) :
    (mirrorOf D s).Changes (mirrorOf D s') (.publish p (announcement response)) := by
  refine .publish _ _ ?_ ?_ ?_ ?_ ?_
  · rw [offers_mirrorOf, offers_mirrorOf, hstored.offers, if_pos rfl]
    rfl
  · intro q hq
    rw [offers_mirrorOf, offers_mirrorOf, hstored.offers, if_neg hq]
  · rintro id ⟨q, t⟩ hbuild
    obtain ⟨row, hrow, rfl, rfl⟩ := buildOf_eq_some.mp hbuild
    obtain ⟨row', hrow', hid, htuple, -⟩ := (step_extends hl).rowOf hrow
    exact buildOf_eq_some.mpr ⟨row', hrow', hid, htuple⟩
  · funext v
    exact archiveOf_step hs hl (artifactOf_of_step hl (fun v i a h => by cases h) v)
  · show tokenOf s'.world.db = tokenOf s.world.db
    unfold tokenOf
    rw [selectAuthToken_of_hosts hstored.hosts]

/-- An upsert that takes effect sets the token of the mirror. -/
theorem changes_of_upsert (hs : D.Reachable s) {hostname token : Text} {r : Except SqlError Unit}
    {applied : Bool}
    (hl : D.machine.Step s (.call i ⟨.upsertAuthToken hostname token, r⟩ applied) s')
    (htoken : s'.world.db.selectAuthToken =
      Function.update s.world.db.selectAuthToken hostname (some (some token))) :
    (mirrorOf D s).Changes (mirrorOf D s') (.setToken hostname token) := by
  refine .setToken _ _ ?_ ?_ (tokenOf_update htoken)
  · exact buildOf_congr (step_extends hl) (offers_of_call hl (by simp))
  · funext v
    exact archiveOf_step hs hl (artifactOf_of_step hl (fun v i a h => by cases h) v)

/-- A deletion that takes effect forgets it. -/
theorem changes_of_delete (hs : D.Reachable s) {hostname : Text} {r : Except SqlError Unit}
    {applied : Bool} (hl : D.machine.Step s (.call i ⟨.deleteAuthToken hostname, r⟩ applied) s')
    (htoken : s'.world.db.selectAuthToken =
      Function.update s.world.db.selectAuthToken hostname none) :
    (mirrorOf D s).Changes (mirrorOf D s') (.forgetToken hostname) := by
  refine .forgetToken _ ?_ ?_ (tokenOf_update htoken)
  · exact buildOf_congr (step_extends hl) (offers_of_call hl (by simp))
  · funext v
    exact archiveOf_step hs hl (artifactOf_of_step hl (fun v i a h => by cases h) v)

/-- What one step does to the mirror. -/
theorem mirrorMove_of_step (hs : D.Reachable s) (hl : D.machine.Step s l s') :
    mirrorOf D s' = mirrorOf D s ∨ MirrorMove D l (mirrorOf D s) (mirrorOf D s') := by
  rcases step_cases hl with ⟨i, ⟨c, r⟩, applied, rfl, hw⟩ | hq
  · have howned := changes_owned hs hl
    have htokens := perform_tokens hw
    have hother : (∀ p response, c ≠ .storeProviderVersions p response) →
        (∀ v i' a, ¬ Updates v (.call i ⟨c, r⟩ applied) i' a) →
        s'.world.db.selectAuthToken = s.world.db.selectAuthToken →
        mirrorOf D s' = mirrorOf D s ∨
          MirrorMove D (.call i ⟨c, r⟩ applied) (mirrorOf D s) (mirrorOf D s') := by
      intro hc hno htoken
      exact .inl (mirrorOf_same hs hl (offers_of_call hl hc) (artifactOf_of_step hl hno) htoken)
    cases c with
    | storeProviderVersions p response =>
      obtain ⟨k, rfl⟩ := howned
      rcases perform_store (i := .refresher k) hw with ⟨-, -, pid, new, hstored⟩ | ⟨-, htables⟩
      · exact .inr (.publish k p response r applied _ _ (changes_of_stored hs hl hstored))
      · left
        refine mirrorOf_same hs hl (fun q => offers_congr ?_ ?_ q)
          (artifactOf_of_step hl fun v i a h => by cases h) ?_
        · rw [Database.providers, htables]
        · rw [Database.versions, htables]
        · exact selectAuthToken_of_hosts (congrArg Tables.terraformRegistryHost htables)
    | updateArtifact a v =>
      by_cases hup : ∃ b j, Updates v (.call i ⟨.updateArtifact a v, r⟩ applied) j b
      · obtain ⟨b, j, hupdates⟩ := hup
        have hsame : j = i ∧ b = a := by cases hupdates <;> exact ⟨rfl, rfl⟩
        obtain ⟨rfl, rfl⟩ := hsame
        obtain ⟨content, hchanges, -⟩ := changes_of_updates hs hl hupdates
        obtain ⟨n, rfl, hroute⟩ := route_of_updates hs hl hupdates
        exact .inr (.store n b v r applied content _ _ hroute hchanges)
      · cases htokens with
        | same c htoken =>
          refine hother (by simp) ?_ htoken
          intro w j b hupdates
          cases hupdates with
          | answered i a applied => exact hup ⟨_, _, .answered _ _ _⟩
          | lost i a err => exact hup ⟨_, _, .lost _ _ _⟩
    | upsertAuthToken hostname token =>
      obtain ⟨n, rfl, hroute⟩ := howned
      cases htokens with
      | same c htoken => exact hother (by simp) (fun v i a h => by cases h) htoken
      | upsert hostname token htoken =>
        exact .inr
          (.setToken n hostname token r applied _ _ hroute (changes_of_upsert hs hl htoken))
    | deleteAuthToken hostname =>
      obtain ⟨n, rfl, hroute⟩ := howned
      cases htokens with
      | same c htoken => exact hother (by simp) (fun v i a h => by cases h) htoken
      | delete hostname htoken =>
        exact .inr (.forgetToken n hostname r applied _ _ hroute (changes_of_delete hs hl htoken))
    | _ =>
      cases htokens with
      | same c htoken => exact hother (by simp) (fun v i a h => by cases h) htoken
  · left
    refine mirrorOf_same hs hl (fun p => offers_congr ?_ ?_ p) (artifactOf_of_step hl ?_) ?_
    · rw [Database.providers, hq.tables]
    · rw [Database.versions, hq.tables]
    · intro v i a hupdates
      cases hupdates <;> exact hq.noCall _ _ _ rfl
    · exact selectAuthToken_of_hosts (congrArg Tables.terraformRegistryHost hq.tables)

/-- A step whose label is that of no change. -/
theorem mirrorOf_of_step (hs : D.Reachable s) (hl : D.machine.Step s l s')
    (hno : ∀ m m', ¬ MirrorMove D l m m') : mirrorOf D s' = mirrorOf D s := by
  rcases mirrorMove_of_step hs hl with hsame | hmove
  · exact hsame
  · exact absurd hmove (hno _ _)

/-- **Every step of a deployment is a change of its mirror, or leaves it alone.** -/
theorem mirror_simulated (D : Deployment) :
    Machine.Simulates D.machine (fun _ _ => True) World.initial (mirrorOf D) (MirrorMove D) :=
  ⟨fun _ _ _ hs _ hl => mirrorMove_of_step hs hl⟩

/-- The steps of a deployment make its mirror grow. -/
theorem MirrorMove.grows {m m' : Mirror} (h : MirrorMove D l m m') : m.Grows m' := by
  cases h with
  | publish k p response r applied m m' h => exact h.grows
  | store n a id r applied content m m' hroute h => exact h.grows
  | setToken n hostname token r applied m m' hroute h => exact h.grows
  | forgetToken n hostname r applied m m' hroute h => exact h.grows

/-- **No run takes a build or an archive back.** -/
theorem mirror_grows (hs : D.Reachable s) (hlater : D.Leads s s') :
    (mirrorOf D s).Grows (mirrorOf D s') := by
  have hsimulates : Machine.Simulates D.machine (fun _ _ => True) World.initial (mirrorOf D)
      (MirrorMove D) := ⟨fun _ _ _ hs _ hl => mirrorMove_of_step hs hl⟩
  exact hsimulates.relates Mirror.Grows.refl (fun _ _ _ => Mirror.Grows.trans)
    (fun _ _ _ hmove => hmove.grows) hs hlater

end Steps

end Terrashine.Analysis
