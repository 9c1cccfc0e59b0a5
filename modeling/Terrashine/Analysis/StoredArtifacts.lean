import Terrashine.Analysis.ArtifactProtocol

/-!
# What the object storage holds

Ids and uploads are given out once, so an upload is only ever touched by the request that
created it, and the key of an id is only ever written by the request that drew it.  While a
request uploads its parts, the storage holds just these: `upload_of_reachable`.  A completed
upload is an object of all its parts in order, and nobody writes to its key again:
`object_of_reachable`.
-/

set_option autoImplicit false

namespace Terrashine.Analysis

open Terrashine.Library Terrashine.Model Terrashine.Interface

/-! ## Requests to the storage -/

/-- The open upload that a call is about. -/
def usedUpload : Call → Option ℕ
  | .uploadPart _ _ uploadId _ _ => some uploadId
  | .abortMultipartUpload _ _ uploadId => some uploadId
  | .completeMultipartUpload _ _ uploadId _ => some uploadId
  | _ => none

/-- What a call does to the object storage, when it does anything. -/
inductive StorageStep (s : ObjectStorage) : Call → ObjectStorage → Prop
  | same (c : Call) : StorageStep s c s
  | creates (bucket key : Text) :
      StorageStep s (.createMultipartUpload bucket key) (s.create bucket key)
  | puts (bucket key : Text) (uploadId partNumber : ℕ) (body : Bytes) (eTag : Option Text)
      (s' : ObjectStorage) (h : s.putPart bucket key uploadId
        { partNumber := partNumber, eTag := eTag, body := body } = some s') :
      StorageStep s (.uploadPart bucket key uploadId partNumber body) s'
  | aborts (bucket key : Text) (uploadId : ℕ) (s' : ObjectStorage)
      (h : s.abort bucket key uploadId = some s') :
      StorageStep s (.abortMultipartUpload bucket key uploadId) s'
  | completes (bucket key : Text) (uploadId : ℕ) (entries : List CompletedPart)
      (s' : ObjectStorage) (h : s.complete bucket key uploadId entries = some s') :
      StorageStep s (.completeMultipartUpload bucket key uploadId entries) s'

section Calls

variable {w w' : World} {k : ℕ} {channel : Option ℕ} {applied : Bool} {s s' : ObjectStorage}
  {bucket key : Text} {uploadId : ℕ} {c : Call}

/-- An upload is open under its own bucket and key. -/
theorem openUpload_eq_some {upload : Upload} :
    s.openUpload bucket key uploadId = some upload ↔
      s.uploads uploadId = some upload ∧ upload.bucket = bucket ∧ upload.key = key := by
  unfold ObjectStorage.openUpload
  rw [Option.filter_eq_some_iff, decide_eq_true_eq]

/-- A part that is put is added to an open upload. -/
theorem putPart_eq_some {part : UploadedPart} (h : s.putPart bucket key uploadId part = some s') :
    ∃ upload, s.openUpload bucket key uploadId = some upload ∧
      s' = { s with
        uploads := Function.update s.uploads uploadId
          (some { upload with parts := upload.parts ++ [part] }) } := by
  obtain ⟨upload, hopen, rfl⟩ := Option.map_eq_some_iff.mp h
  exact ⟨upload, hopen, rfl⟩

/-- A completion makes the object of what it lists and closes the upload. -/
theorem complete_eq_some {entries : List CompletedPart}
    (h : s.complete bucket key uploadId entries = some s') :
    ∃ upload content, s.openUpload bucket key uploadId = some upload ∧
      upload.assemble entries = some content ∧
      s' = { s with
        uploads := Function.update s.uploads uploadId none
        objects := Function.update s.objects bucket
          (Function.update (s.objects bucket) key (some content)) } := by
  obtain ⟨upload, hopen, hmap⟩ := Option.bind_eq_some_iff.mp h
  obtain ⟨content, hcontent, rfl⟩ := Option.map_eq_some_iff.mp hmap
  exact ⟨upload, content, hopen, hcontent, rfl⟩

/-- The world after a request to the storage that was not lost on the way. -/
theorem storage_s3 {α : Type} {result : Option ObjectStorage} {answer : Except S3Error α}
    (h : w.storage result answer applied = some w') : w'.s3 = w.s3 ∨ result = some w'.s3 := by
  rcases storage_eq_some h with ⟨s, rfl, rfl, -⟩ | ⟨rfl, -⟩
  · exact .inr rfl
  · exact .inl rfl

/-- A request to the storage that is answered took effect. -/
theorem storage_ok {α : Type} {result : Option ObjectStorage} {a : α}
    (h : w.storage result (.ok a) applied = some w') : result = some w'.s3 := by
  obtain ⟨s, rfl, rfl⟩ := Option.map_eq_some_iff.mp h
  rfl

/-- A successful creation opens an upload under a new id. -/
theorem perform_create_ok {r : Option ℕ}
    (h : w.perform k channel (.createMultipartUpload bucket key) (.ok r) applied = some w') :
    w'.s3 = w.s3.create bucket key ∧ ∀ uploadId, r = some uploadId → uploadId = w.s3.nextUpload := by
  unfold World.perform at h
  dsimp only at h
  split at h
  · next uploadId heq =>
    cases heq
    split at h
    · next hid =>
      cases h
      refine ⟨rfl, fun uploadId' h' => ?_⟩
      cases h'
      exact hid
    · cases h
  · next hnot =>
    refine ⟨(Option.some.inj (storage_ok h)).symm, fun uploadId h' => ?_⟩
    subst h'
    exact absurd rfl (hnot uploadId)

/-- A successful upload of a part has put it. -/
theorem perform_uploadPart_ok {partNumber : ℕ} {body : Bytes} {eTag : Option Text}
    (h : w.perform k channel (.uploadPart bucket key uploadId partNumber body) (.ok eTag) applied =
      some w') :
    w.s3.putPart bucket key uploadId { partNumber := partNumber, eTag := eTag, body := body } =
      some w'.s3 := by
  have hstorage : w.storage (w.s3.putPart bucket key uploadId
      { partNumber := partNumber, eTag := eTag, body := body })
      (.ok eTag : Except S3Error (Option Text)) applied = some w' := h
  exact storage_ok hstorage

/-- A successful completion has completed the upload. -/
theorem perform_complete_ok {entries : List CompletedPart}
    (h : w.perform k channel (.completeMultipartUpload bucket key uploadId entries) (.ok ())
      applied = some w') : w.s3.complete bucket key uploadId entries = some w'.s3 := by
  have hstorage : w.storage (w.s3.complete bucket key uploadId entries)
      (.ok () : Except S3Error Unit) applied = some w' := h
  exact storage_ok hstorage

/-- **What a call does to the storage.** -/
theorem perform_storage {r : c.Ret} (h : w.perform k channel c r applied = some w') :
    StorageStep w.s3 c w'.s3 := by
  have hsame : w'.s3 = w.s3 → StorageStep w.s3 c w'.s3 := by
    intro heq
    rw [heq]
    exact .same c
  have hother : onStorage c = false → StorageStep w.s3 c w'.s3 := fun hc =>
    hsame ((perform_frame h).s3 hc)
  cases c with
  | createMultipartUpload bucket key =>
    cases r with
    | ok r =>
      rw [(perform_create_ok h).1]
      exact .creates bucket key
    | error err =>
      have hstorage : w.storage (some (w.s3.create bucket key))
          (.error err : Except S3Error (Option ℕ)) applied = some w' := h
      rcases storage_s3 hstorage with heq | hresult
      · exact hsame heq
      · rw [← Option.some.inj hresult]
        exact .creates bucket key
  | uploadPart bucket key uploadId partNumber body =>
    rcases storage_s3 h with heq | hresult
    · exact hsame heq
    · exact .puts bucket key uploadId partNumber body _ _ hresult
  | abortMultipartUpload bucket key uploadId =>
    rcases storage_s3 h with heq | hresult
    · exact hsame heq
    · exact .aborts bucket key uploadId _ hresult
  | completeMultipartUpload bucket key uploadId entries =>
    rcases storage_s3 h with heq | hresult
    · exact hsame heq
    · exact .completes bucket key uploadId entries _ hresult
  | _ => exact hother rfl

/-- The ids of uploads only go up. -/
theorem StorageStep.nextUpload_le (h : StorageStep s c s') : s.nextUpload ≤ s'.nextUpload := by
  cases h with
  | same => exact Nat.le_refl _
  | creates bucket key => exact Nat.le_succ _
  | puts bucket key uploadId partNumber body eTag s' h =>
    obtain ⟨upload, -, rfl⟩ := putPart_eq_some h
    exact Nat.le_refl _
  | aborts bucket key uploadId s' h =>
    obtain ⟨upload, -, rfl⟩ := Option.map_eq_some_iff.mp h
    exact Nat.le_refl _
  | completes bucket key uploadId entries s' h =>
    obtain ⟨upload, content, -, -, rfl⟩ := complete_eq_some h
    exact Nat.le_refl _

/-- A call that is about another upload leaves this one alone. -/
theorem StorageStep.uploads (h : StorageStep s c s') (hused : usedUpload c ≠ some uploadId)
    (hold : uploadId < s.nextUpload) : s'.uploads uploadId = s.uploads uploadId := by
  have hother : ∀ (uploadId' : ℕ) (u : Option Upload), uploadId' ≠ uploadId →
      Function.update s.uploads uploadId' u uploadId = s.uploads uploadId := by
    intro uploadId' u hne
    exact Function.update_of_ne hne.symm _ _
  cases h with
  | same => rfl
  | creates bucket key => exact hother _ _ (by omega)
  | puts bucket key uploadId' partNumber body eTag s' h =>
    obtain ⟨upload, -, rfl⟩ := putPart_eq_some h
    exact hother _ _ (by simpa [usedUpload] using hused)
  | aborts bucket key uploadId' s' h =>
    obtain ⟨upload, -, rfl⟩ := Option.map_eq_some_iff.mp h
    exact hother _ _ (by simpa [usedUpload] using hused)
  | completes bucket key uploadId' entries s' h =>
    obtain ⟨upload, content, -, -, rfl⟩ := complete_eq_some h
    exact hother _ _ (by simpa [usedUpload] using hused)

/-- Only a completion under a key changes its object. -/
theorem StorageStep.objects (h : StorageStep s c s')
    (hc : ∀ uploadId entries, c ≠ .completeMultipartUpload bucket key uploadId entries) :
    s'.objects bucket key = s.objects bucket key := by
  cases h with
  | same => rfl
  | creates bucket' key' => rfl
  | puts bucket' key' uploadId partNumber body eTag s' h =>
    obtain ⟨upload, -, rfl⟩ := putPart_eq_some h
    rfl
  | aborts bucket' key' uploadId s' h =>
    obtain ⟨upload, -, rfl⟩ := Option.map_eq_some_iff.mp h
    rfl
  | completes bucket' key' uploadId entries s' h =>
    obtain ⟨upload, content, -, -, rfl⟩ := complete_eq_some h
    by_cases hb : bucket = bucket'
    · subst hb
      by_cases hk : key = key'
      · subst hk
        exact absurd rfl (hc uploadId entries)
      · simp [hk]
    · simp [hb]

end Calls

/-! ## Ids and uploads are given out once -/

/-- The id that a draw from the sequence is answered with. -/
def drawnId : IoEvent → Option ℕ
  | ⟨.nextvalArtifactIds, .ok id⟩ => some id
  | _ => none

/-- The upload that a creation is answered with. -/
def createdUpload : IoEvent → Option ℕ
  | ⟨.createMultipartUpload _ _, .ok (some uploadId)⟩ => some uploadId
  | _ => none

/-- Every id of an artifact is drawn once. -/
theorem issues_artifactIds (D : Deployment) :
    D.machine.Issues (fun w => w.db.sequences.artifactIds) drawnId := by
  constructor
  · intro s l s' hl
    exact (step_extends hl).sequences.artifact
  · intro s i ev applied s' id hl hid
    have hw := perform_of_step hl
    unfold drawnId at hid
    split at hid
    · next id' =>
      cases hid
      have hstatement : s.world.statement SqlError.unavailable
          (.ok s.world.db.nextvalArtifactIds.1, s.world.db.nextvalArtifactIds.2)
          (.ok id) applied = some s'.world := hw
      rcases statement_eq_some hstatement with ⟨hworld, hanswer | ⟨hanswer, -⟩⟩ | ⟨-, -, hanswer, -⟩
      · cases hanswer
        rw [hworld]
        exact ⟨rfl, Nat.lt_succ_self _⟩
      · cases hanswer
      · cases hanswer
    · cases hid

/-- Every id of an upload is given out once. -/
theorem issues_uploads (D : Deployment) :
    D.machine.Issues (fun w => w.s3.nextUpload) createdUpload := by
  constructor
  · intro s l s' hl
    rcases step_cases hl with ⟨i, ev, applied, -, hw⟩ | hq
    · exact (perform_storage hw).nextUpload_le
    · rw [hq.s3]
  · intro s i ev applied s' uploadId hl hid
    have hw := perform_of_step hl
    unfold createdUpload at hid
    split at hid
    · next bucket key uploadId' =>
      cases hid
      obtain ⟨hcreated, hfresh⟩ := perform_create_ok hw
      rw [hcreated]
      exact ⟨hfresh uploadId rfl, Nat.lt_succ_self _⟩
    · cases hid

/-! ## Uploads -/

/-- These parts as the storage holds them. -/
def storedParts (n : ℕ) (parts : List (Bytes × Text)) : List UploadedPart :=
  (parts.zipIdx n).map fun p => { partNumber := p.2, eTag := some p.1.2, body := p.1.1 }

/-- The upload of these parts, before its completion. -/
def openUploadOf (bucket key : Text) (parts : List (Bytes × Text)) : Upload :=
  { bucket := bucket, key := key, parts := storedParts 1 parts }

/-- The parts are numbered one after the other. -/
theorem partNumber_storedParts (n : ℕ) (parts : List (Bytes × Text)) :
    (storedParts n parts).map (·.partNumber) = List.range' n parts.length := by
  unfold storedParts
  rw [List.map_map, ← List.zipIdx_map_snd n parts]
  rfl

/-- One more part is one more event. -/
theorem uploadEvents_concat (target : UploadTarget) (n : ℕ) (parts : List (Bytes × Text))
    (last : Bytes × Text) :
    uploadEvents target n (parts ++ [last]) = uploadEvents target n parts ++
      [⟨.uploadPart target.bucketName target.key target.uploadId (n + parts.length) last.1,
        .ok (some last.2)⟩] := uploadEvents_append parts [last]

/-- The parts of two lists are stored one list after the other. -/
theorem storedParts_append (n : ℕ) (parts parts' : List (Bytes × Text)) :
    storedParts n (parts ++ parts') =
      storedParts n parts ++ storedParts (n + parts.length) parts' := by
  unfold storedParts
  rw [List.zipIdx_append, List.map_append]

/-- A map that never fails is a plain map. -/
theorem mapM_eq_some {α β : Type} {f : α → Option β} {g : α → β} {xs : List α}
    (h : ∀ x ∈ xs, f x = some (g x)) : xs.mapM f = some (xs.map g) := by
  induction xs with
  | nil => rfl
  | cons x xs ih =>
    have hrest := ih fun y hy => h y (List.mem_cons_of_mem x hy)
    rw [List.mapM_cons, h x List.mem_cons_self, hrest]
    rfl

/-- **A completion that lists the uploaded parts makes the object of their bodies.** -/
theorem assemble_listed (bucket key : Text) (parts : List (Bytes × Text)) :
    (openUploadOf bucket key parts).assemble (listed 1 parts) =
      some (parts.map Prod.fst).flatten := by
  have hsorted : ((listed 1 parts).map (·.partNumber)).Pairwise (· < ·) := by
    rw [partNumber_listed]
    exact List.pairwise_lt_range'
  have hnodup : ((storedParts 1 parts).reverse.map (·.partNumber)).Nodup := by
    rw [List.map_reverse, List.nodup_reverse, partNumber_storedParts]
    exact List.nodup_range'
  have hbody : ∀ p ∈ parts.zipIdx 1, ((openUploadOf bucket key parts).partBody ∘
      fun p => { eTag := p.1.2, partNumber := p.2 }) p = some p.1.1 := by
    intro p hp
    have hmem : ({ partNumber := p.2, eTag := some p.1.2, body := p.1.1 } : UploadedPart) ∈
        (storedParts 1 parts).reverse := by
      rw [List.mem_reverse]
      exact List.mem_map.mpr ⟨p, hp, rfl⟩
    have hfound := Table.find?_eq_of_mem hnodup hmem
    unfold Upload.partBody openUploadOf
    dsimp only [Function.comp_apply] at hfound ⊢
    rw [hfound]
    exact if_pos rfl
  have hlisted : (listed 1 parts).mapM (openUploadOf bucket key parts).partBody =
      some (parts.map Prod.fst) := by
    have hbodies : (parts.zipIdx 1).map (fun p => p.1.1) = parts.map Prod.fst := by
      nth_rewrite 2 [← List.zipIdx_map_fst 1 parts]
      rw [List.map_map]
      rfl
    unfold listed
    rw [List.mapM_map, mapM_eq_some hbody, hbodies]
  unfold Upload.assemble
  rw [if_pos hsorted, hlisted]
  rfl

section Runs

variable {D : Deployment} {s s' : DeploymentState} {n : ℕ}

/-- A call about an upload comes after its creation. -/
theorem created_of_used {v : ℤ} {h : List IoEvent} {c : Call} {uploadId : ℕ}
    (hcall : Deployment.ArtifactCall D n v h c) (hused : usedUpload c = some uploadId) :
    ∃ bucket key,
      (⟨.createMultipartUpload bucket key, .ok (some uploadId)⟩ : IoEvent) ∈ h := by
  cases hcall with
  | read => cases hused
  | fetch detail tr c hnone hc =>
    exfalso
    rcases hc with rfl | hc
    · cases hused
    · cases c <;> first | exact hc.elim | cases hused
  | stash detail tr id body tr' c hnone hfetched hc =>
    refine ⟨D.bucketName, s3Key D.bucketPrefix id, ?_⟩
    cases hc <;> cases hused <;> simp
  | redirectKnown detail id hsome => cases hused
  | redirectNew detail tr id body tr' hnone hfetched hstash => cases hused

/-- What a request needs to have created before its step. -/
theorem owner_of_used (hs' : D.Reachable s') {i : Task} {ev : IoEvent} {h : List IoEvent}
    (hh : s'.history i = h ++ [ev]) {uploadId : ℕ} (hused : usedUpload ev.1 = some uploadId)
    {bucket key : Text}
    (hcreated : (⟨.createMultipartUpload bucket key, .ok (some uploadId)⟩ : IoEvent) ∈
      s'.history (.request n)) : i = .request n := by
  have hstores : storesArtifact ev.1 = true := by
    obtain ⟨c, r⟩ := ev
    cases c <;> first | rfl | cases hused
  obtain ⟨m, v, rfl, -, hcall⟩ := artifactCall_of_stores hs' hh hstores
  obtain ⟨bucket', key', hmem⟩ := created_of_used hcall hused
  have hmem' : (⟨.createMultipartUpload bucket' key', .ok (some uploadId)⟩ : IoEvent) ∈
      s'.history (.request m) := by
    rw [hh]
    exact List.mem_append_left _ hmem
  exact (issues_uploads D).owner hs' hmem' rfl hcreated rfl

/-- **While a request uploads its parts, the storage holds just these.** -/
theorem upload_of_reachable (hs : D.Reachable s) {before : List IoEvent} {bucket key : Text}
    {uploadId : ℕ} {parts : List (Bytes × Text)}
    (hh : s.history (.request n) =
      before ++ ⟨.createMultipartUpload bucket key, .ok (some uploadId)⟩ ::
        uploadEvents ⟨bucket, key, uploadId⟩ 1 parts) :
    s.world.s3.uploads uploadId = some (openUploadOf bucket key parts) := by
  revert before parts
  refine Machine.invariant (I := fun s => ∀ {before parts}, s.history (.request n) =
    before ++ ⟨.createMultipartUpload bucket key, .ok (some uploadId)⟩ ::
      uploadEvents ⟨bucket, key, uploadId⟩ 1 parts →
    s.world.s3.uploads uploadId = some (openUploadOf bucket key parts)) ?_ ?_ hs
  · intro before parts hh
    simp at hh
  · intro s l s' hs ih _ hl before parts hh
    have hs' : D.Reachable s' := hs.tail ⟨l, trivial, hl⟩
    have hhistory := hl.history (.request n)
    cases hown : Label.own (.request n) l with
    | none =>
      rw [hown, Option.toList_none, List.append_nil] at hhistory
      rw [← ih (hhistory ▸ hh)]
      rcases step_cases hl with ⟨i, ev, applied, rfl, hw⟩ | hq
      · have hcreated : (⟨.createMultipartUpload bucket key, .ok (some uploadId)⟩ : IoEvent) ∈
            s'.history (.request n) := by
          rw [hh]
          simp
        apply (perform_storage hw).uploads
        · intro hused
          have hi := owner_of_used hs' (history_self hl) hused hcreated
          subst hi
          simp [Label.own] at hown
        · rw [hhistory] at hcreated
          exact (issues_uploads D).lt hs hcreated rfl
      · rw [hq.s3]
    | some ev =>
      obtain ⟨applied, hw⟩ := step_own hl hown
      rw [hown, Option.toList_some, hh] at hhistory
      rcases List.eq_nil_or_concat' parts with rfl | ⟨parts, last, rfl⟩
      · obtain ⟨-, hev⟩ := List.append_inj' hhistory rfl
        obtain rfl := (List.cons_eq_cons.mp hev).1
        obtain ⟨hcreated, hfresh⟩ := perform_create_ok hw
        rw [hcreated, hfresh uploadId rfl]
        exact Function.update_self _ _ _
      · rw [uploadEvents_concat, ← List.cons_append, ← List.append_assoc] at hhistory
        obtain ⟨hbefore, hev⟩ := List.append_inj' hhistory rfl
        obtain rfl := (List.cons_eq_cons.mp hev).1
        have hopen := ih hbefore.symm
        obtain ⟨upload, hupload, heq⟩ := putPart_eq_some (perform_uploadPart_ok hw)
        obtain ⟨hsome, -, -⟩ := openUpload_eq_some.mp hupload
        rw [hopen] at hsome
        cases hsome
        rw [heq]
        unfold openUploadOf
        rw [storedParts_append]
        exact Function.update_self _ _ _

/-! ## Objects -/

/-- Different ids have different keys. -/
theorem s3Key_injective (bucketPrefix : Text) : Function.Injective (s3Key bucketPrefix) := by
  intro id id' h
  unfold s3Key at h
  exact Text.ofNat_injective (List.append_cancel_left h)

/-- An upload is completed under the key of an id that its request has drawn, and only once. -/
theorem completes_once {v : ℤ} {h : List IoEvent} {bucket : Text} {id uploadId : ℕ}
    {entries : List CompletedPart}
    (hcall : Deployment.ArtifactCall D n v h
      (.completeMultipartUpload bucket (s3Key D.bucketPrefix id) uploadId entries)) :
    (⟨.nextvalArtifactIds, .ok id⟩ : IoEvent) ∈ h ∧
      ∀ bucket' key' uploadId' entries' r,
        (⟨.completeMultipartUpload bucket' key' uploadId' entries', r⟩ : IoEvent) ∉ h := by
  generalize hc : Call.completeMultipartUpload bucket (s3Key D.bucketPrefix id) uploadId entries =
    c at hcall
  cases hcall with
  | read => cases hc
  | fetch detail tr c hnone hc' =>
    subst hc
    simp [Fetching, Upstream] at hc'
  | redirectKnown detail id' hsome => cases hc
  | redirectNew detail tr id' body tr' hnone hfetched hstash => cases hc
  | stash detail tr id' body tr' c hnone hfetched hstash =>
    cases hstash with
    | complete uploadId' parts =>
      injection hc with _ hkey
      have hid := s3Key_injective D.bucketPrefix hkey
      subst hid
      refine ⟨List.mem_cons_of_mem _ (List.mem_append_left _ hfetched.drawn), ?_⟩
      intro bucket' key' uploadId'' entries' r hmem
      rcases List.mem_cons.mp hmem with hmem | hmem
      · cases hmem
      rcases List.mem_append.mp hmem with hmem | hmem
      · have hfetching := hfetched.calls _ hmem
        simp [Fetching, Upstream] at hfetching
      · rcases List.mem_cons.mp hmem with hmem | hmem
        · cases hmem
        · obtain ⟨m, part, hpart⟩ := call_of_mem_uploadEvents hmem
          cases hpart
    | _ => cases hc

/-- Request `n` has completed the upload of these parts under the key of the id. -/
def Completed (D : Deployment) (n : ℕ) (h : List IoEvent) (detail : ArtifactDetails) (id : ℕ)
    (body : Body) (parts : List (Bytes × Text)) : Prop :=
  ∃ v tr uploadId rest, (D.requests n).route = .artifact v ∧
    Fetched D.deps (D.args (D.requests n).instanceId).upstreamRegistryPort detail tr id body ∧
    h = ⟨.selectArtifact v, .ok (some detail)⟩ ::
      (tr ++ ⟨.createMultipartUpload D.bucketName (s3Key D.bucketPrefix id), .ok (some uploadId)⟩ ::
        (uploadEvents ⟨D.bucketName, s3Key D.bucketPrefix id, uploadId⟩ 1 parts ++
          ⟨.completeMultipartUpload D.bucketName (s3Key D.bucketPrefix id) uploadId
            (listed 1 parts), .ok ()⟩ :: rest))

/-- Who completes an upload has drawn its id. -/
theorem Completed.drawn {h : List IoEvent} {detail : ArtifactDetails} {id : ℕ} {body : Body}
    {parts : List (Bytes × Text)} (hdone : Completed D n h detail id body parts) :
    (⟨.nextvalArtifactIds, .ok id⟩ : IoEvent) ∈ h := by
  obtain ⟨v, tr, uploadId, rest, -, hfetched, rfl⟩ := hdone
  exact List.mem_cons_of_mem _ (List.mem_append_left _ hfetched.drawn)

/-- **A completed upload is an object of its parts**, in every later state. -/
theorem object_of_reachable (hs : D.Reachable s) {detail : ArtifactDetails} {id : ℕ} {body : Body}
    {parts : List (Bytes × Text)}
    (hdone : Completed D n (s.history (.request n)) detail id body parts) :
    s.world.s3.objects D.bucketName (s3Key D.bucketPrefix id) =
      some (parts.map Prod.fst).flatten := by
  revert hdone
  refine Machine.invariant (I := fun s => Completed D n (s.history (.request n)) detail id body parts →
    s.world.s3.objects D.bucketName (s3Key D.bucketPrefix id) =
      some (parts.map Prod.fst).flatten) ?_ ?_ hs
  · rintro ⟨v, tr, uploadId, rest, -, -, hh⟩
    cases hh
  · intro s l s' hs ih _ hl hdone
    have hs' : D.Reachable s' := hs.tail ⟨l, trivial, hl⟩
    have hhistory := hl.history (.request n)
    cases hown : Label.own (.request n) l with
    | none =>
      rw [hown, Option.toList_none, List.append_nil] at hhistory
      have hdone' := hdone
      rw [hhistory] at hdone'
      rw [← ih hdone']
      rcases step_cases hl with ⟨i, ev, applied, rfl, hw⟩ | hq
      · apply (perform_storage hw).objects
        -- another request has no business with the key of this id
        intro uploadId entries hc
        have hself := history_self hl
        obtain ⟨c, r⟩ := ev
        dsimp only at hc
        subst hc
        obtain ⟨m, v, rfl, -, hcall⟩ := artifactCall_of_stores hs' hself rfl
        have hdrawn : (⟨.nextvalArtifactIds, .ok id⟩ : IoEvent) ∈ s'.history (.request m) := by
          rw [hself]
          exact List.mem_append_left _ (completes_once hcall).1
        have hm := (issues_artifactIds D).owner hs' hdrawn rfl hdone.drawn rfl
        rw [hm] at hown
        simp [Label.own] at hown
      · rw [hq.s3]
    | some ev =>
      obtain ⟨applied, rfl⟩ := Label.own_eq_some.mp hown
      have hw := perform_of_step hl
      have hself := history_self hl
      obtain ⟨v, tr, uploadId, rest, hroute, hfetched, hh⟩ := hdone
      rw [hself] at hh
      rcases List.eq_nil_or_concat' rest with rfl | ⟨rest, last, rfl⟩
      · -- the completion itself
        have hsplit : s.history (.request n) ++ [ev] =
            (⟨.selectArtifact v, .ok (some detail)⟩ :: tr ++
              ⟨.createMultipartUpload D.bucketName (s3Key D.bucketPrefix id),
                .ok (some uploadId)⟩ ::
              uploadEvents ⟨D.bucketName, s3Key D.bucketPrefix id, uploadId⟩ 1 parts) ++
            [⟨.completeMultipartUpload D.bucketName (s3Key D.bucketPrefix id) uploadId
              (listed 1 parts), .ok ()⟩] := by
          rw [hh]
          simp
        obtain ⟨hbefore, hev⟩ := List.append_inj' hsplit rfl
        obtain rfl := (List.cons_eq_cons.mp hev).1
        have hopen := upload_of_reachable hs hbefore
        obtain ⟨upload, content, hupload, hcontent, heq⟩ :=
          complete_eq_some (perform_complete_ok hw)
        obtain ⟨hsome, -, -⟩ := openUpload_eq_some.mp hupload
        rw [hopen] at hsome
        cases hsome
        rw [assemble_listed] at hcontent
        cases hcontent
        rw [heq]
        simp
      · -- a call after it
        have hsplit : s.history (.request n) ++ [ev] =
            (⟨.selectArtifact v, .ok (some detail)⟩ ::
              (tr ++ ⟨.createMultipartUpload D.bucketName (s3Key D.bucketPrefix id),
                .ok (some uploadId)⟩ ::
              (uploadEvents ⟨D.bucketName, s3Key D.bucketPrefix id, uploadId⟩ 1 parts ++
                ⟨.completeMultipartUpload D.bucketName (s3Key D.bucketPrefix id) uploadId
                  (listed 1 parts), .ok ()⟩ :: rest))) ++ [last] := by
          rw [hh]
          simp
        obtain ⟨hbefore, -⟩ := List.append_inj' hsplit rfl
        have hdone' : Completed D n (s.history (.request n)) detail id body parts :=
          ⟨v, tr, uploadId, rest, hroute, hfetched, hbefore⟩
        rw [← ih hdone']
        apply (perform_storage hw).objects
        intro uploadId' entries hc
        have hcall := artifactCall_of_route hs' hroute hself
        rw [hc] at hcall
        apply (completes_once hcall).2 D.bucketName (s3Key D.bucketPrefix id) uploadId
          (listed 1 parts) (.ok ())
        rw [hbefore]
        simp

end Runs

end Terrashine.Analysis
