import Terrashine.Program.Artifacts
import Terrashine.Library.Chunking

/-!
# The upload of an artifact

`stashArtifact_ends` says how every run of the upload ends and which calls it has made by
then.  A successful run has uploaded the parts that `Chunking` cuts the stream into, numbered
from one, and lists them all when it completes the upload; a run that a refused part or a
refused completion ends leaves the upload where it is.
-/

set_option autoImplicit false

namespace Terrashine.Analysis

open Terrashine.Library Terrashine.Model

/-- A part that was refused, or answered without the e-tag that the completion needs. -/
def partRefused : Except S3Error (Option Text) → Bool
  | .error _ => true
  | .ok none => true
  | .ok (some _) => false

/-- The uploads of parts with their e-tags, numbered from `n`. -/
def uploadEvents (target : UploadTarget) (n : ℕ) (parts : List (Bytes × Text)) : List IoEvent :=
  (parts.zipIdx n).map fun p =>
    ⟨.uploadPart target.bucketName target.key target.uploadId p.2 p.1.1, .ok (some p.1.2)⟩

/-- The entries of the completion request for these parts. -/
def listed (n : ℕ) (parts : List (Bytes × Text)) : List CompletedPart :=
  (parts.zipIdx n).map fun p => { eTag := p.1.2, partNumber := p.2 }

section Loop

variable {target : UploadTarget} {n : ℕ}

/-- The events of two lists of parts come one after the other, numbered on. -/
theorem uploadEvents_append (parts parts' : List (Bytes × Text)) :
    uploadEvents target n (parts ++ parts') =
      uploadEvents target n parts ++ uploadEvents target (n + parts.length) parts' := by
  unfold uploadEvents
  rw [List.zipIdx_append, List.map_append]

/-- The entries of two lists of parts come one after the other, numbered on. -/
theorem listed_append (parts parts' : List (Bytes × Text)) :
    listed n (parts ++ parts') = listed n parts ++ listed (n + parts.length) parts' := by
  unfold listed
  rw [List.zipIdx_append, List.map_append]

/-- The upload of a part is one call, which is accepted with an e-tag or refused. -/
theorem uploadPart_ends {buffer : Bytes} {tr : List IoEvent}
    {out : Outcome (Except AnyhowError CompletedPart)}
    (hr : Prog.Runs (uploadPart target n buffer).run tr out) :
    (∃ eTag, out = .returned (.ok { eTag := eTag, partNumber := n }) ∧
        tr = uploadEvents target n [(buffer, eTag)]) ∨
      ∃ r err, out = .returned (.error err) ∧ partRefused r = true ∧
        tr = [⟨.uploadPart target.bucketName target.key target.uploadId n buffer, r⟩] := by
  cases hr with
  | call _ _ r hr =>
    rcases r with err | _ | eTag
    · cases hr
      exact .inr ⟨_, _, rfl, rfl, rfl⟩
    · cases hr
      exact .inr ⟨_, _, rfl, rfl, rfl⟩
    · cases hr
      exact .inl ⟨eTag, rfl, rfl⟩

/-- An abort is one call and ends with an error. -/
theorem abortUpload_ends {α : Type} {tr : List IoEvent} {out : Outcome (Except AnyhowError α)}
    (hr : Prog.Runs (abortUpload target).run tr out) :
    ∃ err r, out = .returned (.error err) ∧
      tr = [⟨.abortMultipartUpload target.bucketName target.key target.uploadId, r⟩] := by
  cases hr with
  | call _ _ r hr =>
    rcases r with err | _
    · cases hr
      exact ⟨_, _, rfl, rfl⟩
    · cases hr
      exact ⟨_, _, rfl, rfl⟩

/-- How the upload of parts ends before the completion: with an abort, or with a part that was
refused. -/
inductive CutShort (target : UploadTarget) (n : ℕ) : List IoEvent → Prop
  | aborted (parts : List (Bytes × Text)) (r : Except S3Error Unit) :
      CutShort target n (uploadEvents target n parts ++
        [⟨.abortMultipartUpload target.bucketName target.key target.uploadId, r⟩])
  | refused (parts : List (Bytes × Text)) (body : Bytes) (r : Except S3Error (Option Text))
      (hr : partRefused r = true) :
      CutShort target n (uploadEvents target n parts ++
        [⟨.uploadPart target.bucketName target.key target.uploadId (n + parts.length) body, r⟩])

/-- What is cut short after some parts is cut short. -/
theorem CutShort.append {tr : List IoEvent} (parts : List (Bytes × Text))
    (h : CutShort target (n + parts.length) tr) :
    CutShort target n (uploadEvents target n parts ++ tr) := by
  cases h with
  | aborted parts' r =>
    rw [← List.append_assoc, ← uploadEvents_append]
    exact .aborted (parts ++ parts') r
  | refused parts' body r hr =>
    have hnumber : n + parts.length + parts'.length = n + (parts ++ parts').length := by
      rw [List.length_append]
      omega
    rw [← List.append_assoc, ← uploadEvents_append, hnumber]
    exact .refused (parts ++ parts') body r hr

/-- **How the loop over the chunks ends.** -/
theorem uploadChunks_ends {ending : BodyEnd} (chunks : List Bytes) (state : UploadState)
    {tr : List IoEvent} {out : Outcome (Except AnyhowError UploadState)}
    (hr : Prog.Runs (uploadChunks target ending state chunks).run tr out) :
    (∃ parts, ending = .complete ∧ tr = uploadEvents target state.partNumber parts ∧
        parts.map Prod.fst =
          (Chunking.cut s3MinimumUploadChunkBytes state.uploadBuffer chunks).1 ∧
        out = .returned (.ok
          { uploadBuffer := (Chunking.cut s3MinimumUploadChunkBytes state.uploadBuffer chunks).2
            uploadParts := state.uploadParts ++ listed state.partNumber parts
            partNumber := state.partNumber + parts.length })) ∨
      ∃ err, out = .returned (.error err) ∧ CutShort target state.partNumber tr := by
  induction chunks generalizing state tr with
  | nil =>
    unfold uploadChunks at hr
    cases ending with
    | complete =>
      obtain ⟨rfl, rfl⟩ := Prog.runs_done_iff.mp hr
      refine .inl ⟨[], rfl, rfl, rfl, ?_⟩
      simp [Chunking.cut, listed]
    | broken =>
      obtain ⟨err, r, rfl, rfl⟩ := abortUpload_ends hr
      exact .inr ⟨err, rfl, .aborted [] r⟩
  | cons chunk chunks ih =>
    unfold uploadChunks at hr
    dsimp only at hr
    by_cases hfull : (state.uploadBuffer ++ chunk).length < s3MinimumUploadChunkBytes
    · rw [if_pos hfull] at hr
      rw [Chunking.cut_short hfull]
      exact ih _ hr
    · rw [if_neg hfull] at hr
      rw [Chunking.cut_full hfull]
      rcases Prog.runs_run_bind hr with ⟨m, hpart, -⟩ | ⟨err, hpart, rfl⟩ |
        ⟨tr₁, tr₂, part, rfl, hpart, hrest⟩
      · rcases uploadPart_ends hpart with ⟨eTag, hout, -⟩ | ⟨r, err, hout, -⟩ <;> cases hout
      · rcases uploadPart_ends hpart with ⟨eTag, hout, -⟩ | ⟨r, err', hout, hrefused, rfl⟩
        · cases hout
        · exact .inr ⟨err, rfl, .refused [] _ r hrefused⟩
      · rcases uploadPart_ends hpart with ⟨eTag, hout, rfl⟩ | ⟨r, err, hout, -⟩
        · cases hout
          rcases ih _ hrest with ⟨parts, hending, rfl, hbodies, rfl⟩ | ⟨err, rfl, hcut⟩
          · refine .inl ⟨(state.uploadBuffer ++ chunk, eTag) :: parts, hending, rfl, ?_, ?_⟩
            · rw [List.map_cons, hbodies]
            · rw [List.length_cons, List.append_assoc, Nat.add_right_comm]
              rfl
          · exact .inr ⟨err, rfl, .append [(_, eTag)] hcut⟩
        · cases hout

/-- **How the tail after the loop ends.** -/
theorem uploadRemaining_ends {state : UploadState} {tr : List IoEvent}
    {out : Outcome (Except AnyhowError (List CompletedPart))}
    (hr : Prog.Runs (uploadRemaining target state).run tr out) :
    (∃ parts, tr = uploadEvents target state.partNumber parts ∧
        parts.map Prod.fst = (if state.uploadBuffer = [] then [] else [state.uploadBuffer]) ∧
        out = .returned (.ok (state.uploadParts ++ listed state.partNumber parts))) ∨
      ∃ err, out = .returned (.error err) ∧ CutShort target state.partNumber tr := by
  unfold uploadRemaining at hr
  by_cases hempty : state.uploadBuffer = []
  · rw [if_pos hempty] at hr
    obtain ⟨rfl, rfl⟩ := Prog.runs_done_iff.mp hr
    refine .inl ⟨[], rfl, (if_pos hempty).symm, ?_⟩
    simp [listed]
  · rw [if_neg hempty] at hr
    rw [if_neg hempty]
    rcases Prog.runs_run_bind hr with ⟨m, hpart, -⟩ | ⟨err, hpart, rfl⟩ |
      ⟨tr₁, tr₂, part, rfl, hpart, hrest⟩
    · rcases uploadPart_ends hpart with ⟨eTag, hout, -⟩ | ⟨r, err, hout, -⟩ <;> cases hout
    · rcases uploadPart_ends hpart with ⟨eTag, hout, -⟩ | ⟨r, err', hout, hrefused, rfl⟩
      · cases hout
      · exact .inr ⟨err, rfl, .refused [] _ r hrefused⟩
    · rcases uploadPart_ends hpart with ⟨eTag, hout, rfl⟩ | ⟨r, err, hout, -⟩
      · cases hout
        obtain ⟨rfl, rfl⟩ := Prog.runs_done_iff.mp hrest
        exact .inl ⟨[(state.uploadBuffer, eTag)], List.append_nil _, rfl, rfl⟩
      · cases hout

end Loop

/-! ## The whole upload -/

/-- How a run of the upload ends, with the calls it has made by then. -/
inductive StashEnds (bucketName key : Text) (artifact : Artifact) (stream : Body) :
    List IoEvent → Outcome (Except AnyhowError Unit) → Prop
  | notCreated (r : Except S3Error (Option ℕ)) (hr : ∀ uploadId, r ≠ .ok (some uploadId))
      (err : AnyhowError) :
      StashEnds bucketName key artifact stream [⟨.createMultipartUpload bucketName key, r⟩]
        (.returned (.error err))
  | cutShort (uploadId : ℕ) (tr : List IoEvent)
      (htr : CutShort { bucketName := bucketName, key := key, uploadId := uploadId } 1 tr)
      (err : AnyhowError) :
      StashEnds bucketName key artifact stream
        (⟨.createMultipartUpload bucketName key, .ok (some uploadId)⟩ :: tr)
        (.returned (.error err))
  | notCompleted (uploadId : ℕ) (parts : List (Bytes × Text)) (source : S3Error)
      (err : AnyhowError) :
      StashEnds bucketName key artifact stream
        (⟨.createMultipartUpload bucketName key, .ok (some uploadId)⟩ ::
          (uploadEvents { bucketName := bucketName, key := key, uploadId := uploadId } 1 parts ++
            [⟨.completeMultipartUpload bucketName key uploadId (listed 1 parts),
              .error source⟩]))
        (.returned (.error err))
  | completed (uploadId : ℕ) (parts : List (Bytes × Text)) (hending : stream.ending = .complete)
      (hbodies : parts.map Prod.fst = Chunking.parts s3MinimumUploadChunkBytes stream.chunks)
      (r : Except SqlError Unit) (result : Except AnyhowError Unit)
      (hresult : result = .ok () ↔ r = .ok ()) :
      StashEnds bucketName key artifact stream
        (⟨.createMultipartUpload bucketName key, .ok (some uploadId)⟩ ::
          (uploadEvents { bucketName := bucketName, key := key, uploadId := uploadId } 1 parts ++
            [⟨.completeMultipartUpload bucketName key uploadId (listed 1 parts), .ok ()⟩,
              ⟨.updateArtifact artifact.artifactId artifact.versionId, r⟩]))
        (.returned result)

section Stash

variable {bucketName bucketPrefix : Text} {artifact : Artifact} {stream : Body}
  {tr : List IoEvent} {out : Outcome (Except AnyhowError Unit)}

/-- The completion and the update of the row, once all parts are uploaded. -/
theorem completion_ends {uploadId : ℕ} {parts : List (Bytes × Text)}
    (hending : stream.ending = .complete)
    (hbodies : parts.map Prod.fst = Chunking.parts s3MinimumUploadChunkBytes stream.chunks)
    {key : Text}
    (hr : Prog.Runs (tryCall anyhow (perform
        (.completeMultipartUpload bucketName key uploadId (listed 1 parts))) >>= fun _ =>
      storeArtifactInDatabase artifact).run tr out) :
    StashEnds bucketName key artifact stream
      (⟨.createMultipartUpload bucketName key, .ok (some uploadId)⟩ ::
        (uploadEvents { bucketName := bucketName, key := key, uploadId := uploadId } 1 parts ++ tr))
      out := by
  cases hr with
  | call _ _ r hr =>
    rcases r with source | ⟨⟩
    · cases hr
      exact .notCompleted uploadId parts source _
    · cases hr with
      | call _ _ r hr =>
        rcases r with source | ⟨⟩
        · cases hr
          exact .completed uploadId parts hending hbodies _ _ (by simp)
        · cases hr
          exact .completed uploadId parts hending hbodies _ _ (by simp)

/-- **How every run of the upload ends.** -/
theorem stashArtifact_ends
    (hr : Prog.Runs (stashArtifact bucketName bucketPrefix artifact stream).run tr out) :
    StashEnds bucketName (artifact.toS3Key bucketPrefix) artifact stream tr out := by
  cases hr with
  | @call _ _ r tr _ hr =>
    rcases r with err | _ | uploadId
    · cases hr
      exact .notCreated _ (fun uploadId h => by cases h) _
    · cases hr
      exact .notCreated _ (fun uploadId h => by cases h) _
    · let target : UploadTarget :=
        { bucketName := bucketName, key := artifact.toS3Key bucketPrefix, uploadId := uploadId }
      have hloop : Prog.Runs (uploadChunks target stream.ending
            { uploadBuffer := [], uploadParts := [], partNumber := 1 } stream.chunks >>= fun state =>
          uploadRemaining target state >>= fun uploadParts =>
          tryCall anyhow (perform (.completeMultipartUpload bucketName
            (artifact.toS3Key bucketPrefix) uploadId uploadParts)) >>= fun _ =>
          storeArtifactInDatabase artifact).run tr out := hr
      rcases Prog.runs_run_bind hloop with ⟨m, hchunks, -⟩ | ⟨err, hchunks, rfl⟩ |
        ⟨tr₁, tr₂, state, rfl, hchunks, hrest⟩
      · rcases uploadChunks_ends _ _ hchunks with ⟨_, -, -, -, hout⟩ | ⟨_, hout, -⟩ <;> cases hout
      · rcases uploadChunks_ends _ _ hchunks with ⟨_, -, -, -, hout⟩ | ⟨_, -, hcut⟩
        · cases hout
        · exact .cutShort uploadId _ hcut err
      · rcases uploadChunks_ends _ _ hchunks with ⟨parts, hending, rfl, hparts, hout⟩ | ⟨_, hout, -⟩
        swap
        · cases hout
        cases hout
        rcases Prog.runs_run_bind hrest with ⟨m, htail, -⟩ | ⟨err, htail, rfl⟩ |
          ⟨tr₂, tr₃, uploadParts, rfl, htail, hcomplete⟩
        · rcases uploadRemaining_ends htail with ⟨_, -, -, hout⟩ | ⟨_, hout, -⟩ <;> cases hout
        · rcases uploadRemaining_ends htail with ⟨_, -, -, hout⟩ | ⟨_, -, hcut⟩
          · cases hout
          · exact .cutShort uploadId _ (.append parts hcut) err
        · rcases uploadRemaining_ends htail with ⟨last, rfl, hlast, hout⟩ | ⟨_, hout, -⟩
          · cases hout
            have hbodies : (parts ++ last).map Prod.fst =
                Chunking.parts s3MinimumUploadChunkBytes stream.chunks := by
              rw [List.map_append, hparts, hlast]
              rfl
            rw [List.nil_append, ← listed_append] at hcomplete
            rw [← List.append_assoc, ← uploadEvents_append]
            exact completion_ends hending hbodies hcomplete
          · cases hout

/-! ## A successful upload -/

/-- The bodies are the stream, cut at the minimum size of a part. -/
structure Chopped (chunks bodies : List Bytes) : Prop where
  whole : bodies.flatten = chunks.flatten
  large : ∀ body ∈ bodies.dropLast, s3MinimumUploadChunkBytes ≤ body.length
  nonempty : ∀ body ∈ bodies, body ≠ []
  /-- Before an upload the buffer held less than the minimum, and then the chunk that was
  appended last, unless the stream had already ended. -/
  buffered : ∀ done body rest, bodies = done ++ body :: rest →
    (rest = [] ∧ body.length < s3MinimumUploadChunkBytes) ∨
      ∃ before chunk after held, chunks = before ++ chunk :: after ∧ body = held ++ chunk ∧
        held.length < s3MinimumUploadChunkBytes ∧ done.flatten ++ held = before.flatten

/-- The minimum of a part is not zero. -/
theorem s3MinimumUploadChunkBytes_pos : 0 < s3MinimumUploadChunkBytes := by decide

/-- The parts of the stream are the stream, cut at the minimum. -/
theorem chopped_parts (chunks : List Bytes) :
    Chopped chunks (Chunking.parts s3MinimumUploadChunkBytes chunks) where
  whole := Chunking.flatten_parts
  large := fun _ h => Chunking.le_length_of_mem_dropLast h
  nonempty := fun _ h => Chunking.ne_nil_of_mem_parts s3MinimumUploadChunkBytes_pos h
  buffered := fun _ _ _ h => Chunking.parts_eq_append s3MinimumUploadChunkBytes_pos h

/-- A stream that goes on after the minimum has more than one part. -/
theorem Chopped.one_lt_length {before after bodies : List Bytes}
    (h : Chopped (before ++ after) bodies)
    (hfull : s3MinimumUploadChunkBytes ≤ before.flatten.length) (hafter : after.flatten ≠ []) :
    1 < bodies.length := by
  have hwhole := h.whole
  rw [List.flatten_append] at hwhole
  match bodies, h, hwhole with
  | [], _, hwhole => exact absurd (List.append_eq_nil_iff.mp hwhole.symm).2 hafter
  | _ :: _ :: _, _, _ => simp
  | [body], h, hwhole =>
    rw [List.flatten_singleton] at hwhole
    rcases h.buffered [] body [] rfl with ⟨-, hshort⟩ | ⟨front, chunk, rest, held, hchunks, hbody,
      hheld, hfront⟩
    · rw [hwhole, List.length_append] at hshort
      omega
    · -- nothing comes after the chunk that filled the only part
      have hfront' : held = front.flatten := hfront
      have hrest : rest.flatten = [] := by
        have hall := congrArg List.flatten hchunks
        rw [List.flatten_append, ← hwhole, hbody, hfront', List.flatten_append,
          List.flatten_cons, ← List.append_assoc] at hall
        exact List.self_eq_append_right.mp hall
      rcases List.append_eq_append_iff.mp hchunks with ⟨more, hmore, -⟩ | ⟨more, hmore, htail⟩
      · rw [hfront', hmore, List.flatten_append, List.length_append] at hheld
        omega
      · cases more with
        | nil =>
          rw [hfront', ← List.append_nil front, ← hmore] at hheld
          omega
        | cons chunk' more =>
          have hlater : rest = more ++ after := (List.cons.inj htail).2
          rw [hlater, List.flatten_append] at hrest
          exact absurd (List.append_eq_nil_iff.mp hrest).2 hafter

/-- The entries are numbered one after the other. -/
theorem partNumber_listed (n : ℕ) (parts : List (Bytes × Text)) :
    (listed n parts).map (·.partNumber) = List.range' n parts.length := by
  unfold listed
  rw [List.map_map, ← List.zipIdx_map_snd n parts]
  rfl

/-- The entries have the e-tags of their parts. -/
theorem eTag_listed (n : ℕ) (parts : List (Bytes × Text)) :
    (listed n parts).map (·.eTag) = parts.map Prod.snd := by
  unfold listed
  rw [List.map_map]
  nth_rewrite 2 [← List.zipIdx_map_fst n parts]
  rw [List.map_map]
  rfl

/-- The calls of a successful upload. -/
structure Uploaded (bucketName key : Text) (artifact : Artifact) (stream : Body) (uploadId : ℕ)
    (parts : List (Bytes × Text)) (tr : List IoEvent) : Prop where
  ending : stream.ending = .complete
  calls : tr = ⟨.createMultipartUpload bucketName key, .ok (some uploadId)⟩ ::
    (uploadEvents ⟨bucketName, key, uploadId⟩ 1 parts ++
      [⟨.completeMultipartUpload bucketName key uploadId (listed 1 parts), .ok ()⟩,
        ⟨.updateArtifact artifact.artifactId artifact.versionId, .ok ()⟩])
  numbered : (listed 1 parts).map (·.partNumber) = List.range' 1 parts.length
  tagged : (listed 1 parts).map (·.eTag) = parts.map Prod.snd
  chopped : Chopped stream.chunks (parts.map Prod.fst)

/-- **A successful upload is the stream**: it consists of the parts the stream is cut into,
numbered from one, and completes with exactly these parts and the e-tags they got. -/
theorem stashArtifact_uploads (hr : Prog.Runs
    (stashArtifact bucketName bucketPrefix artifact stream).run tr (.returned (.ok ()))) :
    ∃ uploadId parts,
      Uploaded bucketName (artifact.toS3Key bucketPrefix) artifact stream uploadId parts tr := by
  have hends := stashArtifact_ends hr
  generalize hout : (Outcome.returned (Except.ok ()) : Outcome (Except AnyhowError Unit)) = out
    at hends
  cases hends with
  | notCreated r hcreate err => cases hout
  | cutShort uploadId tr htr err => cases hout
  | notCompleted uploadId parts source err => cases hout
  | completed uploadId parts hending hbodies r result hresult =>
    cases hout
    have hupdate : r = .ok () := hresult.mp rfl
    subst hupdate
    exact ⟨uploadId, parts, hending, rfl, partNumber_listed 1 parts, eTag_listed 1 parts,
      hbodies ▸ chopped_parts stream.chunks⟩

end Stash

section Succeeds

variable (target : UploadTarget)

/-- The storage can accept a part. -/
theorem uploadPart_succeeds (n : ℕ) (buffer : Bytes) : ∃ tr part,
    Prog.Runs (uploadPart target n buffer).run tr (.returned (.ok part)) :=
  ⟨_, { eTag := [], partNumber := n }, Prog.runs_execute Call.usual _⟩

/-- The loop over the chunks has a run that succeeds. -/
theorem uploadChunks_succeeds (chunks : List Bytes) (state : UploadState) : ∃ tr state',
    Prog.Runs (uploadChunks target .complete state chunks).run tr (.returned (.ok state')) := by
  induction chunks generalizing state with
  | nil => exact ⟨_, _, .done _⟩
  | cons chunk chunks ih =>
    unfold uploadChunks
    dsimp only
    split
    · exact ih _
    · obtain ⟨tr, part, hpart⟩ := uploadPart_succeeds target state.partNumber
        (state.uploadBuffer ++ chunk)
      obtain ⟨tr', state', hrest⟩ := ih
        { uploadBuffer := [], uploadParts := state.uploadParts ++ [part]
          partNumber := state.partNumber + 1 }
      exact ⟨_, _, hpart.run_bind hrest⟩

/-- The tail after the loop has a run that succeeds. -/
theorem uploadRemaining_succeeds (state : UploadState) : ∃ tr uploadParts,
    Prog.Runs (uploadRemaining target state).run tr (.returned (.ok uploadParts)) := by
  unfold uploadRemaining
  split
  · exact ⟨_, _, .done _⟩
  · obtain ⟨tr, part, hpart⟩ := uploadPart_succeeds target state.partNumber state.uploadBuffer
    exact ⟨_, _, hpart.run_bind (.done _)⟩

/-- **Every complete stream can be uploaded.** -/
theorem stashArtifact_succeeds (bucketName bucketPrefix : Text) (artifact : Artifact)
    (chunks : List Bytes) : ∃ tr,
      Prog.Runs (stashArtifact bucketName bucketPrefix artifact
        { chunks := chunks, ending := .complete }).run tr (.returned (.ok ())) := by
  let target : UploadTarget :=
    { bucketName := bucketName, key := artifact.toS3Key bucketPrefix, uploadId := 1 }
  obtain ⟨tr, state, hchunks⟩ := uploadChunks_succeeds target chunks
    { uploadBuffer := [], uploadParts := [], partNumber := 1 }
  obtain ⟨tr', uploadParts, htail⟩ := uploadRemaining_succeeds target state
  have hcreate : Prog.Runs (tryCall anyhow (perform (.createMultipartUpload bucketName
      (artifact.toS3Key bucketPrefix)))).run _ (.returned (.ok (some 1))) :=
    Prog.runs_execute Call.usual _
  have hcomplete : Prog.Runs (tryCall anyhow (perform (.completeMultipartUpload bucketName
        (artifact.toS3Key bucketPrefix) 1 uploadParts)) >>= fun _ =>
      storeArtifactInDatabase artifact).run _ (.returned (.ok ())) :=
    Prog.runs_execute Call.usual _
  exact ⟨_, hcreate.run_bind (hchunks.run_bind (htail.run_bind hcomplete))⟩

end Succeeds

def someArtifact : Artifact :=
  { versionId := 1, hostname := [], namespace_ := [], providerType := [], version := [], os := []
    arch := [], artifactId := 1 }

/-- A byte that is held, a chunk that fills the buffer after it, and two short ones. -/
def longChunks : List Bytes := [[1], List.replicate s3MinimumUploadChunkBytes 0] ++ [[], [2, 3]]

/-- The first two of these chunks have the minimum. -/
theorem le_length_longChunks : s3MinimumUploadChunkBytes ≤
    [[1], List.replicate s3MinimumUploadChunkBytes (0 : UInt8)].flatten.length := by
  rw [List.flatten_cons, List.flatten_singleton, List.length_append, List.length_replicate]
  exact Nat.le_add_left _ _

/-- A part is cut within the loop, and another one is the rest of the stream. -/
theorem stashArtifact_uploads_long : ∃ uploadId parts tr, 1 < parts.length ∧
    Uploaded [] "artifacts/1".toList someArtifact { chunks := longChunks, ending := .complete }
      uploadId parts tr := by
  obtain ⟨tr, hr⟩ := stashArtifact_succeeds [] [] someArtifact longChunks
  obtain ⟨uploadId, parts, h⟩ := stashArtifact_uploads hr
  refine ⟨uploadId, parts, tr, ?_, h⟩
  have hchopped : Chopped ([[1], List.replicate s3MinimumUploadChunkBytes 0] ++ [[], [2, 3]])
      (parts.map Prod.fst) := h.chopped
  rw [← List.length_map (f := Prod.fst)]
  exact hchopped.one_lt_length le_length_longChunks (by decide)

/-! ## An upload that fails -/

/-- An answer that ends the upload without an abort: a part or the completion is refused. -/
def uploadRefused : IoEvent → Bool
  | ⟨.uploadPart _ _ _ _ _, r⟩ => partRefused r
  | ⟨.completeMultipartUpload _ _ _ _, .error _⟩ => true
  | _ => false

/-- No upload is left dangling: one that was created and not completed is aborted before the
error is returned. -/
def CleansUp (bucketName key : Text) (tr : List IoEvent)
    (out : Outcome (Except AnyhowError Unit)) : Prop :=
  ∀ uploadId err, out = .returned (.error err) →
    (⟨.createMultipartUpload bucketName key, .ok (some uploadId)⟩ : IoEvent) ∈ tr →
    (∀ parts, (⟨.completeMultipartUpload bucketName key uploadId parts, .ok ()⟩ : IoEvent) ∉ tr) →
    ∃ r, (⟨.abortMultipartUpload bucketName key uploadId, r⟩ : IoEvent) ∈ tr

section Cleanup

variable {bucketName key : Text} {target : UploadTarget} {n uploadId : ℕ}
  {parts : List (Bytes × Text)}

/-- No part of these was refused. -/
theorem not_refused_of_mem {ev : IoEvent} (h : ev ∈ uploadEvents target n parts) :
    uploadRefused ev = false := by
  unfold uploadEvents at h
  obtain ⟨p, -, rfl⟩ := List.mem_map.mp h
  rfl

/-- The calls of the loop before it ends: uploads of parts, and nothing else. -/
theorem call_of_mem_uploadEvents {ev : IoEvent} (h : ev ∈ uploadEvents target n parts) :
    ∃ m body, ev.1 = .uploadPart target.bucketName target.key target.uploadId m body := by
  unfold uploadEvents at h
  obtain ⟨p, -, rfl⟩ := List.mem_map.mp h
  exact ⟨p.2, p.1.1, rfl⟩

/-- An upload of parts followed by calls that refuse it is not aborted. -/
theorem not_cleansUp {rest : List IoEvent} {err : AnyhowError}
    (habort : ∀ ev ∈ rest, ∀ r, ev ≠ ⟨.abortMultipartUpload bucketName key uploadId, r⟩)
    (hcomplete : ∀ ev ∈ rest, ∀ entries,
      ev ≠ ⟨.completeMultipartUpload bucketName key uploadId entries, .ok ()⟩) :
    ¬ CleansUp bucketName key
      (⟨.createMultipartUpload bucketName key, .ok (some uploadId)⟩ ::
        (uploadEvents target n parts ++ rest)) (.returned (.error err)) := by
  intro h
  have hnone : ∀ entries, (⟨.completeMultipartUpload bucketName key uploadId entries, .ok ()⟩ : IoEvent) ∉
      (⟨.createMultipartUpload bucketName key, .ok (some uploadId)⟩ ::
        (uploadEvents target n parts ++ rest) : List IoEvent) := by
    intro entries hmem
    rcases List.mem_cons.mp hmem with hmem | hmem
    · cases hmem
    · rcases List.mem_append.mp hmem with hmem | hmem
      · obtain ⟨m, body, hcall⟩ := call_of_mem_uploadEvents hmem
        cases hcall
      · exact hcomplete _ hmem entries rfl
  obtain ⟨r, hmem⟩ := h uploadId err rfl List.mem_cons_self hnone
  rcases List.mem_cons.mp hmem with hmem | hmem
  · cases hmem
  · rcases List.mem_append.mp hmem with hmem | hmem
    · obtain ⟨m, body, hcall⟩ := call_of_mem_uploadEvents hmem
      cases hcall
    · exact habort _ hmem r rfl

/-- One upload is created. -/
theorem uploadId_eq {rest : List IoEvent} {uploadId' : ℕ}
    (hrest : ∀ ev ∈ rest, ev.1 ≠ .createMultipartUpload bucketName key)
    (hmem : (⟨.createMultipartUpload bucketName key, .ok (some uploadId')⟩ : IoEvent) ∈
      (⟨.createMultipartUpload bucketName key, .ok (some uploadId)⟩ ::
        (uploadEvents target n parts ++ rest) : List IoEvent)) : uploadId' = uploadId := by
  rcases List.mem_cons.mp hmem with hmem | hmem
  · cases hmem
    rfl
  · rcases List.mem_append.mp hmem with hmem | hmem
    · obtain ⟨m, body, hcall⟩ := call_of_mem_uploadEvents hmem
      cases hcall
    · exact absurd rfl (hrest _ hmem)

/-- Where nothing after the parts was refused, nothing was. -/
theorem not_refused {rest : List IoEvent} (hrest : ∀ ev ∈ rest, uploadRefused ev = false) :
    ∀ ev ∈ (⟨.createMultipartUpload bucketName key, .ok (some uploadId)⟩ ::
      (uploadEvents target n parts ++ rest) : List IoEvent), uploadRefused ev = false := by
  intro ev hmem
  rcases List.mem_cons.mp hmem with rfl | hmem
  · rfl
  · rcases List.mem_append.mp hmem with hmem | hmem
    · exact not_refused_of_mem hmem
    · exact hrest ev hmem

end Cleanup

/-- **When an upload is cleaned up**: exactly when no part and no completion is refused, so
that a failure after its creation is one of the stream. -/
theorem cleansUp_iff {bucketName bucketPrefix : Text} {artifact : Artifact} {stream : Body}
    {tr : List IoEvent} {out : Outcome (Except AnyhowError Unit)}
    (hr : Prog.Runs (stashArtifact bucketName bucketPrefix artifact stream).run tr out) :
    CleansUp bucketName (artifact.toS3Key bucketPrefix) tr out ↔
      ∀ ev ∈ tr, uploadRefused ev = false := by
  cases stashArtifact_ends hr with
  | notCreated r hcreate err =>
    refine iff_of_true ?_ ?_
    · intro uploadId err' _ hmem
      cases List.mem_singleton.mp hmem
      exact absurd rfl (hcreate uploadId)
    · intro ev hmem
      cases List.mem_singleton.mp hmem
      rfl
  | cutShort uploadId tr htr err =>
    cases htr with
    | aborted parts r =>
      refine iff_of_true ?_ (not_refused (by simp [uploadRefused]))
      intro uploadId' err' _ hmem _
      obtain rfl := uploadId_eq (by simp) hmem
      exact ⟨r, List.mem_cons_of_mem _ (List.mem_append_right _ (List.mem_singleton_self _))⟩
    | refused parts body r hrefused =>
      refine iff_of_false (not_cleansUp ?_ ?_) ?_
      · intro ev hmem r' h
        cases (List.mem_singleton.mp hmem).symm.trans h
      · intro ev hmem entries h
        cases (List.mem_singleton.mp hmem).symm.trans h
      · intro h
        have hlast := h _ (List.mem_cons_of_mem _
          (List.mem_append_right _ (List.mem_singleton_self _)))
        exact absurd (hrefused.symm.trans hlast) (by decide)
  | notCompleted uploadId parts source err =>
    refine iff_of_false (not_cleansUp ?_ ?_) ?_
    · intro ev hmem r' h
      cases (List.mem_singleton.mp hmem).symm.trans h
    · intro ev hmem entries h
      cases (List.mem_singleton.mp hmem).symm.trans h
    · intro h
      have hlast := h _ (List.mem_cons_of_mem _
        (List.mem_append_right _ (List.mem_singleton_self _)))
      cases hlast
  | completed uploadId parts hending hbodies r result hresult =>
    refine iff_of_true ?_ (not_refused (by simp [uploadRefused]))
    intro uploadId' err _ hmem hnone
    obtain rfl := uploadId_eq (by simp) hmem
    exact absurd (List.mem_cons_of_mem _ (List.mem_append_right _ List.mem_cons_self))
      (hnone (listed 1 parts))

/-- The answers of a storage that creates uploads and refuses parts. -/
def refusesParts : (c : Call) → c.Ret
  | .uploadPart _ _ _ _ _ => .error .failed
  | c => c.usual

/-- A stream that breaks off is cleaned up. -/
theorem cleansUp_iff_broken : CleansUp [] "artifacts/1".toList
    (Prog.execute Call.usual (stashArtifact [] [] someArtifact
      { chunks := [[1]], ending := .broken }).run).1
    (Prog.execute Call.usual (stashArtifact [] [] someArtifact
      { chunks := [[1]], ending := .broken }).run).2 := by
  apply (cleansUp_iff (Prog.runs_execute Call.usual (stashArtifact [] [] someArtifact
    { chunks := [[1]], ending := .broken }).run)).mpr
  decide

/-- A refused part leaves the upload dangling. -/
theorem dangling : ¬ ∀ (bucketName bucketPrefix : Text) (artifact : Artifact) (stream : Body)
    (tr : List IoEvent) (out : Outcome (Except AnyhowError Unit)),
    Prog.Runs (stashArtifact bucketName bucketPrefix artifact stream).run tr out →
    CleansUp bucketName (artifact.toS3Key bucketPrefix) tr out := by
  intro h
  let key := someArtifact.toS3Key []
  have hr : Prog.Runs (stashArtifact [] [] someArtifact { chunks := [[1]], ending := .complete }).run
      (⟨.createMultipartUpload [] key, .ok (some 1)⟩ ::
        (uploadEvents ⟨[], key, 1⟩ 1 [] ++ [⟨.uploadPart [] key 1 1 [1], .error .failed⟩]))
      (.returned (.error (anyhow S3Error.failed))) := Prog.runs_execute refusesParts _
  refine not_cleansUp ?_ ?_ (h [] [] someArtifact _ _ _ hr)
  · intro ev hmem r heq
    cases (List.mem_singleton.mp hmem).symm.trans heq
  · intro ev hmem entries heq
    cases (List.mem_singleton.mp hmem).symm.trans heq

end Terrashine.Analysis
