import Terrashine.Program.Credentials
import Terrashine.Analysis.Effects
import Terrashine.Library.KeyedStore

/-!
# The two credential helpers keep one map

The helper on the table `terraform_registry_host` and the one in memory are both a store of
tokens under host names.  `databaseStore_implements` and `memoryStore_implements` say so of a
single operation, which fails exactly when its query fails or its lock is not obtained; from
them every answer of a session is the one its history calls for, and the two answer alike.
-/

set_option autoImplicit false

namespace Terrashine.Analysis

open Terrashine.Library Terrashine.Model Terrashine.Interface

/-- The host name fits its column, and no text has a NUL. -/
def Admissible (op : CredentialOp) : Prop :=
  op.hostname.length ≤ 253 ∧ validText op.hostname = true ∧
    ∀ hostname token, op = .store hostname token → validText token = true

/-- A token under each host name that has an entry, which `transform` puts into a header. -/
def credentialSpec : KeyedSpec CredentialOp CredentialAnswer Text (Option Text) where
  key := CredentialOp.hostname
  write
    | .store _ token => some (some (some token))
    | .forget _ => some none
    | .get _ => none
    | .transform _ _ => none
  answer op entry := match op with
    | .store _ _ => .done
    | .forget _ => .done
    | .get _ => .credential (entry.elim .notFound .entry)
    | .transform request _ => .request (entry.join.elim request request.bearerAuth)

abbrev CredentialAttempt : Type := Attempt CredentialOp AnyhowError CredentialAnswer

abbrev CredentialStore (σ : Type) : Type :=
  KeyedStore CredentialOp AnyhowError CredentialAnswer Text (Option Text) σ

/-! ## In memory -/

/-- The attempt fails when the lock is not obtained. -/
def memoryStore : CredentialStore CredentialMap where
  initial map := map = ∅
  content map hostname := map.lookup hostname
  step map e map' :=
    ((memoryCredentials.apply e.op).run.run (!e.failed)).run map = (e.answer, map')

/-- What `transform` does with the lock of the map. -/
theorem memory_transform (map : CredentialMap) (request : RequestBuilder) (hostname : Text) :
    ((memoryCredentials.transform request hostname).run.run true).run map =
      (.ok ((map.lookup hostname).join.elim request request.bearerAuth), map) := by
  have hget : ((memoryCredentials.get hostname).run.run true).run map =
      (.ok ((map.lookup hostname).elim .notFound .entry), map) := rfl
  unfold CredentialHelper.transform
  rw [ExceptT.run_bind, ReaderT.run_bind, StateT.run_bind, hget]
  cases map.lookup hostname with
  | none => rfl
  | some entry => cases entry <;> rfl

/-- The map is a correct store of tokens. -/
theorem memoryStore_implements : memoryStore.Implements credentialSpec Admissible where
  initial := by
    rintro map rfl hostname
    show Finmap.lookup hostname (∅ : CredentialMap) = none
    exact Finmap.lookup_empty hostname
  step := by
    rintro map ⟨op, failed, answer⟩ map' hstep -
    have hrun : ((memoryCredentials.apply op).run.run (!failed)).run map = (answer, map') := hstep
    constructor
    · intro hfailed
      cases hfailed
      cases op <;> cases hrun <;> exact ⟨⟨_, rfl⟩, rfl⟩
    · intro hfailed
      cases hfailed
      cases op with
      | store hostname token =>
        cases hrun
        refine ⟨rfl, ?_⟩
        funext k
        show Finmap.lookup k (map.insert hostname (some token)) =
          Function.update (fun k => map.lookup k) hostname (some (some token)) k
        by_cases hk : k = hostname
        · subst hk
          rw [Finmap.lookup_insert, Function.update_self]
        · rw [Finmap.lookup_insert_of_ne _ hk, Function.update_of_ne hk]
      | forget hostname =>
        cases hrun
        refine ⟨rfl, ?_⟩
        funext k
        show Finmap.lookup k (map.erase hostname) =
          Function.update (fun k => map.lookup k) hostname none k
        by_cases hk : k = hostname
        · subst hk
          rw [Finmap.lookup_erase, Function.update_self]
        · rw [Finmap.lookup_erase_ne hk, Function.update_of_ne hk]
      | get hostname =>
        cases hrun
        exact ⟨rfl, rfl⟩
      | transform request hostname =>
        have happly : ((memoryCredentials.apply (.transform request hostname)).run.run true).run map =
            (.ok (.request ((map.lookup hostname).join.elim request request.bearerAuth)), map) := by
          unfold CredentialHelper.apply
          dsimp only
          rw [ExceptT.run_bind, ReaderT.run_bind, StateT.run_bind, memory_transform]
          rfl
        have heq := happly.symm.trans hrun
        cases heq
        exact ⟨rfl, rfl⟩

/-! ## In the database -/

/-- The calls in order, each with an effect exactly when its answer reports one. -/
def performAll (k : ℕ) (w : World) (tr : List IoEvent) : Option World :=
  tr.foldlM (fun w ev => w.perform k none ev.1 ev.2 false) w

def queryFailed : IoEvent → Bool
  | ⟨.selectAuthToken _, .error .unavailable⟩ => true
  | ⟨.upsertAuthToken _ _, .error .unavailable⟩ => true
  | ⟨.deleteAuthToken _, .error .unavailable⟩ => true
  | _ => false

/-- The attempt fails when its query does, for whatever reason outside the statement. -/
def databaseStore (k : ℕ) : CredentialStore World where
  initial w := w.db.hosts = []
  content w hostname := w.db.selectAuthToken hostname
  step w e w' := ∃ tr, Prog.Runs (databaseCredentials.apply e.op).run tr (.returned e.answer) ∧
    performAll k w tr = some w' ∧ e.failed = tr.any queryFailed

/-- The upsert puts the token under its host name, and leaves all others. -/
theorem selectAuthToken_upsert {db db' : Database} {hostname token : Text}
    (h : db.upsertAuthToken hostname token = (.ok (), db')) :
    db'.selectAuthToken = Function.update db.selectAuthToken hostname (some (some token)) := by
  have hhosts : db'.hosts = (db.tables.withToken db.sequences hostname token).terraformRegistryHost := by
    unfold Database.upsertAuthToken at h
    split at h
    · split at h
      · rw [← (Prod.mk.inj h).2]
      · cases (Prod.mk.inj h).1
    · cases (Prod.mk.inj h).1
  funext k
  unfold Database.selectAuthToken
  rw [hhosts]
  unfold Tables.withToken
  split
  · next hkey =>
    rw [Table.find?_update (f := TerraformRegistryHostRow.hostname) _ (by intro r; split <;> rfl)]
    by_cases hk : k = hostname
    · subst hk
      obtain ⟨r, hr⟩ := Option.isSome_iff_exists.mp (Table.find?_isSome_iff.mpr hkey)
      have hname : r.hostname = k := by simpa using List.find?_some hr
      rw [hr, Function.update_self]
      simp [hname]
    · rw [Function.update_of_ne hk]
      cases hr : db.hosts.find? fun r => r.hostname = k with
      | none => simp
      | some r =>
        have hname : r.hostname = k := by simpa using List.find?_some hr
        simp [hname, hk]
  · next hkey =>
    rw [← Table.find?_isSome_iff, Option.not_isSome_iff_eq_none] at hkey
    dsimp only
    rw [List.find?_append]
    by_cases hk : k = hostname
    · subst hk
      rw [hkey, Function.update_self]
      simp
    · have hne : hostname ≠ k := fun h => hk h.symm
      rw [Function.update_of_ne hk]
      simp [hne]

/-- A deletion that succeeds leaves no token under the host name. -/
theorem selectAuthToken_delete {db db' : Database} {hostname : Text}
    (h : db.deleteAuthToken hostname = (.ok (), db')) :
    db'.selectAuthToken = Function.update db.selectAuthToken hostname none := by
  have hhosts : db'.hosts = db.hosts.filter fun r => r.hostname ≠ hostname := by
    unfold Database.deleteAuthToken at h
    split at h
    · rw [← (Prod.mk.inj h).2]
      rfl
    · cases (Prod.mk.inj h).1
  funext k
  unfold Database.selectAuthToken
  rw [hhosts, Table.find?_remove]
  by_cases hk : k = hostname
  · rw [if_pos hk, hk, Function.update_self]
    rfl
  · rw [if_neg hk, Function.update_of_ne hk]

/-- A single call is performed by itself. -/
theorem performAll_singleton {k : ℕ} {w w' : World} {c : Call} {r : c.Ret}
    (h : performAll k w [⟨c, r⟩] = some w') : w.perform k none c r false = some w' := by
  unfold performAll at h
  rw [List.foldlM_cons] at h
  obtain ⟨w₁, hw₁, hrest⟩ := Option.bind_eq_some_iff.mp h
  cases hrest
  exact hw₁

/-- A statement that the constraints allow takes effect, or its connection failed. -/
theorem statement_allowed {w w' : World} {result : Except SqlError Unit × Database}
    {r : Except SqlError Unit} (hresult : result.1 = .ok ())
    (h : w.statement .unavailable result r false = some w') :
    r = .ok () ∧ w' = { w with db := result.2 } ∨ r = .error .unavailable ∧ w' = w := by
  rcases statement_eq_some h with ⟨hw, hr | ⟨-, happlied⟩⟩ | ⟨hw, -, hr, -⟩
  · exact .inl ⟨hr.trans hresult, hw⟩
  · cases happlied
  · exact .inr ⟨hr, hw⟩

/-- A query with valid texts finds what is there, or its connection failed. -/
theorem select_allowed {k : ℕ} {w w' : World} {hostname : Text}
    {r : Except SqlError (Option (Option Text))} (hvalid : validText hostname = true)
    (h : w.perform k none (.selectAuthToken hostname) r false = some w') :
    w' = w ∧ (r = .ok (w.db.selectAuthToken hostname) ∨ r = .error .unavailable) := by
  have hquery : w.query (validText hostname) (fun row => row = w.db.selectAuthToken hostname) r =
      some w' := h
  obtain ⟨hw, hok⟩ := query_eq_some hquery
  refine ⟨hw, ?_⟩
  rw [hvalid] at hquery
  cases r with
  | ok row =>
    have hrow := (hok row rfl).2
    rw [decide_eq_true_eq] at hrow
    exact .inl (congrArg _ hrow)
  | error err =>
    cases err with
    | unavailable => exact .inr rfl
    | _ => cases hquery

/-- No constraint of the schema stands against the upsert of an admissible token. -/
theorem upsert_allowed (db : Database) {hostname token : Text} (hlen : hostname.length ≤ 253)
    (hvalid : validText hostname = true) (htoken : validText token = true) :
    (db.upsertAuthToken hostname token).1 = .ok () := by
  unfold Database.upsertAuthToken
  rw [hvalid, htoken, if_pos (Bool.and_self true), dif_pos hlen]

/-- No constraint of the schema stands against a deletion. -/
theorem delete_allowed (db : Database) {hostname : Text} (hvalid : validText hostname = true) :
    (db.deleteAuthToken hostname).1 = .ok () := by
  unfold Database.deleteAuthToken
  rw [if_pos hvalid]

/-- The table is a correct store of tokens. -/
theorem databaseStore_implements (k : ℕ) :
    (databaseStore k).Implements credentialSpec Admissible where
  initial := by
    intro w hw hostname
    show (w.db.hosts.find? _).map _ = none
    rw [show w.db.hosts = [] from hw]
    rfl
  step := by
    rintro w ⟨op, failed, answer⟩ w' ⟨tr, hrun, hperf, hfailed⟩ ⟨hlen, hvalid, htoken⟩
    dsimp only at hrun hfailed hlen hvalid htoken
    subst hfailed
    cases op with
    | store hostname token =>
      have hallowed := upsert_allowed w.db hlen hvalid (htoken hostname token rfl)
      cases hrun with
      | call e next r hrun =>
        cases r with
        | error err =>
          cases hrun
          obtain ⟨hr, -⟩ | ⟨hr, hw⟩ := statement_allowed hallowed (performAll_singleton hperf)
          · cases hr
          · cases hr
            exact .of_failed rfl hw
        | ok u =>
          cases hrun
          obtain ⟨-, rfl⟩ | ⟨hr, -⟩ := statement_allowed hallowed (performAll_singleton hperf)
          · exact .of_done rfl (selectAuthToken_upsert (Prod.ext hallowed rfl))
          · cases hr
    | forget hostname =>
      have hallowed := delete_allowed w.db hvalid
      cases hrun with
      | call e next r hrun =>
        cases r with
        | error err =>
          cases hrun
          obtain ⟨hr, -⟩ | ⟨hr, hw⟩ := statement_allowed hallowed (performAll_singleton hperf)
          · cases hr
          · cases hr
            exact .of_failed rfl hw
        | ok u =>
          cases hrun
          obtain ⟨-, rfl⟩ | ⟨hr, -⟩ := statement_allowed hallowed (performAll_singleton hperf)
          · exact .of_done rfl (selectAuthToken_delete (Prod.ext hallowed rfl))
          · cases hr
    | get hostname =>
      cases hrun with
      | @call _ _ r tr _ hrun =>
        cases r with
        | error err =>
          cases hrun
          obtain ⟨rfl, hr⟩ := select_allowed hvalid (performAll_singleton hperf)
          rcases hr with hr | hr
          · cases hr
          · cases hr
            exact .of_failed rfl rfl
        | ok row =>
          obtain ⟨rfl, hanswer⟩ : tr = [] ∧
              answer = .ok (.credential (row.elim .notFound .entry)) := by
            cases row <;> cases hrun <;> exact ⟨rfl, rfl⟩
          obtain ⟨rfl, hr⟩ := select_allowed hvalid (performAll_singleton hperf)
          rcases hr with hr | hr
          · have hrow := Except.ok.inj hr
            subst hrow
            exact .of_done hanswer rfl
          · cases hr
    | transform request hostname =>
      cases hrun with
      | @call _ _ r tr _ hrun =>
        cases r with
        | error err =>
          cases hrun
          obtain ⟨rfl, hr⟩ := select_allowed hvalid (performAll_singleton hperf)
          rcases hr with hr | hr
          · cases hr
          · cases hr
            exact .of_failed rfl rfl
        | ok row =>
          obtain ⟨rfl, hanswer⟩ : tr = [] ∧
              answer = .ok (.request (row.join.elim request request.bearerAuth)) := by
            cases row with
            | none =>
              cases hrun
              exact ⟨rfl, rfl⟩
            | some token => cases token <;> cases hrun <;> exact ⟨rfl, rfl⟩
          obtain ⟨rfl, hr⟩ := select_allowed hvalid (performAll_singleton hperf)
          rcases hr with hr | hr
          · have hrow := Except.ok.inj hr
            subst hrow
            exact .of_done hanswer rfl
          · cases hr

/-- What one call does, the list of it does. -/
theorem performAll_of_perform {k : ℕ} {w w' : World} {c : Call} {r : c.Ret}
    (h : w.perform k none c r false = some w') : performAll k w [⟨c, r⟩] = some w' := by
  unfold performAll
  rw [List.foldlM_cons, h]
  rfl

/-- A statement may fail without an effect. -/
theorem statement_failed {w : World} {result : Except SqlError Unit × Database}
    (hresult : result.1 = .ok ()) :
    w.statement .unavailable result (.error .unavailable) false = some w := by
  unfold World.statement
  rw [hresult]
  rfl

/-- A statement that is accepted may take effect. -/
theorem statement_done {w : World} {result : Except SqlError Unit × Database}
    (hresult : result.1 = .ok ()) :
    w.statement .unavailable result (.ok ()) false = some { w with db := result.2 } := by
  unfold World.statement
  rw [hresult]
  rfl

/-- A look-up may find what the table holds. -/
theorem select_done {w : World} {k : ℕ} {hostname : Text} (hvalid : validText hostname = true) :
    w.perform k none (.selectAuthToken hostname) (.ok (w.db.selectAuthToken hostname)) false =
      some w := by
  show w.query (validText hostname) (fun row => row = w.db.selectAuthToken hostname) (.ok _) = _
  unfold World.query
  rw [hvalid]
  simp

/-- An operation whose only query is answered has been tried. -/
theorem databaseStore_step_of_perform {k : ℕ} {w w' : World} {op : CredentialOp} {c : Call}
    {r : c.Ret} {answer : Except AnyhowError CredentialAnswer}
    (hrun : Prog.Runs (databaseCredentials.apply op).run [⟨c, r⟩] (.returned answer))
    (hperf : w.perform k none c r false = some w') :
    (databaseStore k).step w ⟨op, queryFailed ⟨c, r⟩, answer⟩ w' :=
  ⟨[⟨c, r⟩], hrun, performAll_of_perform hperf, (Bool.or_false _).symm⟩

/-- Every admissible operation can be tried, with success and without. -/
theorem databaseStore_step (k : ℕ) (w : World) (op : CredentialOp) (failed : Bool)
    (hop : Admissible op) : ∃ answer w', (databaseStore k).step w ⟨op, failed, answer⟩ w' := by
  obtain ⟨hlen, hvalid, htoken⟩ := hop
  cases op with
  | store hostname token =>
    have hallowed := upsert_allowed w.db hlen hvalid (htoken hostname token rfl)
    cases failed with
    | true =>
      have hrun : Prog.Runs (databaseCredentials.apply (.store hostname token)).run
          [⟨.upsertAuthToken hostname token, .error .unavailable⟩]
          (.returned (.error (anyhow SqlError.unavailable))) := .call _ _ _ (.done _)
      exact ⟨_, w, databaseStore_step_of_perform hrun (statement_failed hallowed)⟩
    | false =>
      have hrun : Prog.Runs (databaseCredentials.apply (.store hostname token)).run
          [⟨.upsertAuthToken hostname token, .ok ()⟩] (.returned (.ok .done)) :=
        .call _ _ _ (.done _)
      exact ⟨_, _, databaseStore_step_of_perform hrun (statement_done hallowed)⟩
  | forget hostname =>
    have hallowed := delete_allowed w.db hvalid
    cases failed with
    | true =>
      have hrun : Prog.Runs (databaseCredentials.apply (.forget hostname)).run
          [⟨.deleteAuthToken hostname, .error .unavailable⟩]
          (.returned (.error (anyhow SqlError.unavailable))) := .call _ _ _ (.done _)
      exact ⟨_, w, databaseStore_step_of_perform hrun (statement_failed hallowed)⟩
    | false =>
      have hrun : Prog.Runs (databaseCredentials.apply (.forget hostname)).run
          [⟨.deleteAuthToken hostname, .ok ()⟩] (.returned (.ok .done)) := .call _ _ _ (.done _)
      exact ⟨_, _, databaseStore_step_of_perform hrun (statement_done hallowed)⟩
  | get hostname =>
    cases failed with
    | true =>
      have hrun : Prog.Runs (databaseCredentials.apply (.get hostname)).run
          [⟨.selectAuthToken hostname, .error .unavailable⟩]
          (.returned (.error (anyhow SqlError.unavailable))) := .call _ _ _ (.done _)
      exact ⟨_, w, databaseStore_step_of_perform hrun rfl⟩
    | false =>
      have hrun : ∀ row, ∃ answer, Prog.Runs (databaseCredentials.apply (.get hostname)).run
          [⟨.selectAuthToken hostname, .ok row⟩] (.returned answer) := by
        rintro (_ | token) <;> exact ⟨_, .call _ _ _ (.done _)⟩
      obtain ⟨answer, hanswer⟩ := hrun (w.db.selectAuthToken hostname)
      exact ⟨answer, w, databaseStore_step_of_perform hanswer (select_done hvalid)⟩
  | transform request hostname =>
    cases failed with
    | true =>
      have hrun : Prog.Runs (databaseCredentials.apply (.transform request hostname)).run
          [⟨.selectAuthToken hostname, .error .unavailable⟩]
          (.returned (.error (anyhow SqlError.unavailable))) := .call _ _ _ (.done _)
      exact ⟨_, w, databaseStore_step_of_perform hrun rfl⟩
    | false =>
      have hrun : ∀ row, ∃ answer,
          Prog.Runs (databaseCredentials.apply (.transform request hostname)).run
            [⟨.selectAuthToken hostname, .ok row⟩] (.returned answer) := by
        rintro (_ | _ | token) <;> exact ⟨_, .call _ _ _ (.done _)⟩
      obtain ⟨answer, hanswer⟩ := hrun (w.db.selectAuthToken hostname)
      exact ⟨answer, w, databaseStore_step_of_perform hanswer (select_done hvalid)⟩

/-! ## One map -/

/-- The token stored under the host name, when the last successful `store` or `forget` on it
was a `store`. -/
def lastStored (past : List CredentialAttempt) (hostname : Text) : Option Text :=
  match credentialSpec.lastWrite past hostname with
  | some (.store _ token) => some token
  | _ => none

/-- An attempt is answered as its history calls for, and touches nothing else. -/
structure ActsAsMap {σ : Type} (S : CredentialStore σ) (past : List CredentialAttempt) (s : σ)
    (e : CredentialAttempt) (s' : σ) : Prop where
  /-- An error is a failed query or a lock not obtained: forgetting an absent host name is
  none. -/
  error_iff : (∃ err, e.answer = .error err) ↔ e.failed = true
  get : ∀ hostname found, e.op = .get hostname → e.answer = .ok found →
    found = .credential ((lastStored past hostname).elim .notFound fun token => .entry (some token))
  /-- Without a token the request stays as it is. -/
  untouched : ∀ builder hostname transformed, e.op = .transform builder hostname →
    e.answer = .ok transformed → lastStored past hostname = none → transformed = .request builder
  /-- The token becomes one more header; where no header can hold it, no request is left. -/
  attached : ∀ request hostname transformed token,
    e.op = .transform { request := .ok request } hostname → e.answer = .ok transformed →
    lastStored past hostname = some token →
    transformed = .request
      { request := if legalHeaderValue token then
          .ok { request with bearers := request.bearers ++ [token] }
        else .error .builder }
  /-- A request that could not be built stays the error that it is. -/
  broken : ∀ err hostname transformed, e.op = .transform { request := .error err } hostname →
    e.answer = .ok transformed → transformed = .request { request := .error err }
  unchanged : (∃ err, e.answer = .error err) → S.content s' = S.content s
  others : ∀ hostname, hostname ≠ e.op.hostname → S.content s' hostname = S.content s hostname

/-- What `bearer_auth` makes of a request. -/
theorem bearerAuth_ok (request : HttpRequest) (token : Text) :
    RequestBuilder.bearerAuth { request := .ok request } token =
      { request := if legalHeaderValue token then
          .ok { request with bearers := request.bearers ++ [token] }
        else .error .builder } := by
  unfold RequestBuilder.bearerAuth
  dsimp only
  split <;> rfl

/-- What the history leaves under a host name is the token that was stored last. -/
theorem held_eq (past : List CredentialAttempt) (hostname : Text) :
    credentialSpec.held past hostname = (lastStored past hostname).map some := by
  unfold KeyedSpec.held lastStored
  cases h : credentialSpec.lastWrite past hostname with
  | none => rfl
  | some op => cases op <;> rfl

/-- A correct store of tokens acts as a map on everything that is tried. -/
theorem actsAsMap_of_implements {σ : Type} {S : CredentialStore σ}
    (himp : S.Implements credentialSpec Admissible) {past : List CredentialAttempt} {s s' : σ}
    {e : CredentialAttempt} (hs : S.Session past s) (hstep : S.step s e s')
    (hpast : ∀ x ∈ past, Admissible x.op) (he : Admissible e.op) : ActsAsMap S past s e s' := by
  have hmeets := himp.step s e s' hstep he
  have hcontent : ∀ hostname, S.content s hostname = (lastStored past hostname).map some := by
    intro hostname
    rw [himp.content_eq hs hpast, held_eq]
  have herror : (∃ err, e.answer = .error err) → e.failed = true := by
    rintro ⟨err, herr⟩
    by_contra hfailed
    have hans := (hmeets.done (Bool.eq_false_iff.mpr hfailed)).1
    rw [herr] at hans
    cases hans
  have hdone : ∀ answer, e.answer = .ok answer →
      answer = credentialSpec.answer e.op (S.content s e.op.hostname) := by
    intro answer hanswer
    have hfailed : e.failed = false := by
      by_contra hfailed
      obtain ⟨err, herr⟩ := (hmeets.failed (Bool.eq_true_of_not_eq_false hfailed)).1
      rw [hanswer] at herr
      cases herr
    have hans := (hmeets.done hfailed).1
    rw [hanswer] at hans
    exact Except.ok.inj hans
  have htransform : ∀ builder hostname transformed, e.op = .transform builder hostname →
      e.answer = .ok transformed →
      transformed = .request ((lastStored past hostname).elim builder builder.bearerAuth) := by
    intro builder hostname transformed hop hanswer
    rw [hdone transformed hanswer, hop]
    dsimp only [CredentialOp.hostname]
    rw [hcontent]
    cases lastStored past hostname <;> rfl
  refine ⟨⟨herror, fun h => (hmeets.failed h).1⟩, ?_, ?_, ?_, ?_,
    fun h => (hmeets.failed (herror h)).2, ?_⟩
  · intro hostname found hop hanswer
    rw [hdone found hanswer, hop]
    dsimp only [CredentialOp.hostname]
    rw [hcontent]
    cases lastStored past hostname <;> rfl
  · intro builder hostname transformed hop hanswer hnone
    rw [htransform builder hostname transformed hop hanswer, hnone]
    rfl
  · intro request hostname transformed token hop hanswer hsome
    rw [htransform _ hostname transformed hop hanswer, hsome]
    exact congrArg CredentialAnswer.request (bearerAuth_ok request token)
  · intro err hostname transformed hop hanswer
    rw [htransform _ hostname transformed hop hanswer]
    cases lastStored past hostname <;> rfl
  · intro hostname hne
    cases hfailed : e.failed with
    | true => rw [(hmeets.failed hfailed).2]
    | false =>
      rw [(hmeets.done hfailed).2]
      exact KeyedSpec.after_of_ne hne

/-- **Both helpers are the same map**: every attempt of a session with either acts on it as on
a map of tokens, and where the same operations fail both give the same results. -/
theorem credentials_same_map {k : ℕ} {past past' : List CredentialAttempt} {w : World}
    {map : CredentialMap} (hdb : (databaseStore k).Session past w)
    (hmem : memoryStore.Session past' map) (hvalid : ∀ x ∈ past, Admissible x.op)
    (hvalid' : ∀ x ∈ past', Admissible x.op) :
    (∀ e w', (databaseStore k).step w e w' → Admissible e.op →
        ActsAsMap (databaseStore k) past w e w') ∧
      (∀ e map', memoryStore.step map e map' → Admissible e.op →
        ActsAsMap memoryStore past' map e map') ∧
      (past.map (fun e => (e.op, e.failed)) = past'.map (fun e => (e.op, e.failed)) →
        past.map (fun e => e.answer.toOption) = past'.map (fun e => e.answer.toOption)) := by
  refine ⟨?_, ?_, ?_⟩
  · intro e w' hstep he
    exact actsAsMap_of_implements (databaseStore_implements k) hdb hstep hvalid he
  · intro e map' hstep he
    exact actsAsMap_of_implements memoryStore_implements hmem hstep hvalid' he
  · intro hsame
    exact ((databaseStore_implements k).answers_agree memoryStore_implements hdb hmem hvalid
      hsame).1

/-- A token with a line break can be stored but not sent. -/
def brokenToken : Text := "a\nb".toList

/-- A request without a token. -/
def bareRequest : RequestBuilder := .get (Url.ofScheme "https".toList)

/-- A failed query between a `store` and the `get` and `forget` after it, and requests with a token
that a header can hold and with one that none can. -/
def tried : List (CredentialOp × Bool) :=
  [(.store "a".toList "t".toList, false), (.forget "a".toList, true), (.get "a".toList, false),
    (.transform bareRequest "a".toList, false), (.forget "b".toList, false),
    (.forget "a".toList, false), (.get "a".toList, false), (.store "a".toList brokenToken, false),
    (.transform bareRequest "a".toList, false)]

/-- Every operation of the example may be tried. -/
theorem admissible_tried : ∀ x ∈ tried, Admissible x.1 := by
  intro x hx
  simp only [tried, List.mem_cons, List.not_mem_nil, or_false] at hx
  rcases hx with rfl | rfl | rfl | rfl | rfl | rfl | rfl | rfl | rfl <;>
    exact ⟨by decide, by decide, by rintro hostname token h; cases h <;> decide⟩

/-- The helper on the database answers the example as the one in memory does. -/
theorem credentials_same_map_tried : ∃ past w, (databaseStore 0).Session past w ∧
    past.map (fun e => (e.op, e.failed)) = tried ∧
    past.map (fun e => e.answer.toOption) =
      [some .done, none, some (.credential (.entry (some "t".toList))),
        some (.request
          { request := .ok { url := Url.ofScheme "https".toList, bearers := ["t".toList] } }),
        some .done, some .done, some (.credential .notFound), some .done,
        some (.request { request := .error .builder })] := by
  have hvalid : ∀ past : List CredentialAttempt, past.map (fun e => (e.op, e.failed)) = tried →
      ∀ x ∈ past, Admissible x.op := by
    intro past hpast x hx
    exact admissible_tried (x.op, x.failed) (hpast ▸ List.mem_map_of_mem hx)
  obtain ⟨past, w, hs, hpast⟩ := KeyedStore.exists_session
    (show (databaseStore 0).initial World.initial from rfl) (databaseStore_step 0) tried
    admissible_tried
  have h₀ : memoryStore.Session [] ∅ := .nil rfl
  have h₁ := h₀.snoc (e := ⟨tried[0].1, false, _⟩) rfl
  have h₂ := h₁.snoc (e := ⟨tried[1].1, true, _⟩) rfl
  have h₃ := h₂.snoc (e := ⟨tried[2].1, false, _⟩) rfl
  have h₄ := h₃.snoc (e := ⟨tried[3].1, false, _⟩) rfl
  have h₅ := h₄.snoc (e := ⟨tried[4].1, false, _⟩) rfl
  have h₆ := h₅.snoc (e := ⟨tried[5].1, false, _⟩) rfl
  have h₇ := h₆.snoc (e := ⟨tried[6].1, false, _⟩) rfl
  have h₈ := h₇.snoc (e := ⟨tried[7].1, false, _⟩) rfl
  have h₉ := h₈.snoc (e := ⟨tried[8].1, false, _⟩) rfl
  have hagree := (credentials_same_map hs h₉ (hvalid past hpast) (hvalid _ rfl)).2.2
    (hpast.trans rfl)
  exact ⟨past, w, hs, hpast, hagree.trans rfl⟩

/-- The token is stored and `transform` succeeds, but no request carries it. -/
theorem transform_refuses_token : ¬ ∀ (past : List CredentialAttempt) (map map' : CredentialMap)
    (request : HttpRequest) (hostname : Text) (transformed : CredentialAnswer),
    memoryStore.Session past map → (∀ x ∈ past, Admissible x.op) →
    Admissible (.transform { request := .ok request } hostname) →
    memoryStore.step map
      ⟨.transform { request := .ok request } hostname, false, .ok transformed⟩ map' →
    transformed = .request { request := .ok ((lastStored past hostname).elim request fun token =>
      { request with bearers := request.bearers ++ [token] }) } := by
  intro h
  have hnew : memoryStore.Session [] ∅ := .nil rfl
  have hsession := hnew.snoc (e := ⟨CredentialOp.store "a".toList brokenToken, false, _⟩) rfl
  have hrefused := h _ _ _ { url := Url.ofScheme "https".toList, bearers := [] } "a".toList
    (.request { request := .error .builder }) hsession ?_
    ⟨by decide, by decide, by rintro hostname token ⟨⟩⟩ rfl
  · cases hrefused
  · intro x hx
    rw [List.mem_singleton.mp hx]
    exact ⟨by decide, by decide, by rintro hostname token ⟨⟩; decide⟩

end Terrashine.Analysis
