import Terrashine.Analysis.FirstAnswer

/-!
# What an index request does

An index request makes two or three calls: it reads the database, and then either wakes the
refresher and answers from what it read, or sends a message with its own channel and waits
for the response.  `IndexCall` lists these calls with the history each of them comes after,
`IndexResult` the complete histories with their answers, and `wp_indexHandler` says that the
handler keeps to them.
-/

set_option autoImplicit false

namespace Terrashine.Analysis

open Terrashine.Library Terrashine.Model

/-- The message of request `n`, and the one a cached answer sends. -/
def ownMessage (n : ℕ) (p : TerraformProvider) : RefreshRequest :=
  { provider := p, responseChannel := some n }

def wakeMessage (p : TerraformProvider) : RefreshRequest :=
  { provider := p, responseChannel := none }

/-- The read gave an index. -/
def Known (r : Except SqlError (List (Option Text))) (index : MirrorIndex) : Prop :=
  ∃ rows, r = .ok rows ∧ MirrorIndex.ofRows rows = some index

/-- The calls of index request `n` for the provider `p`. -/
inductive IndexCall (n : ℕ) (p : TerraformProvider) : List IoEvent → Call → Prop
  | read : IndexCall n p [] (.selectVersions p)
  | wake (r index) (h : Known r index) :
      IndexCall n p [⟨.selectVersions p, r⟩] (.trySend (wakeMessage p))
  | send (r) (h : ∀ index, ¬ Known r index) :
      IndexCall n p [⟨.selectVersions p, r⟩] (.sendTimeout (ownMessage n p) 1)
  | wait (r) (h : ∀ index, ¬ Known r index) :
      IndexCall n p [⟨.selectVersions p, r⟩, ⟨.sendTimeout (ownMessage n p) 1, .ok ()⟩]
        .receiveResponse

/-- The complete histories of index request `n`, with what it answers. -/
inductive IndexResult (n : ℕ) (p : TerraformProvider) :
    List IoEvent → Except TerrashineError MirrorIndex → Prop
  | cached (r index sent) (h : Known r index) :
      IndexResult n p [⟨.selectVersions p, r⟩, ⟨.trySend (wakeMessage p), sent⟩] (.ok index)
  | refused (r err) (h : ∀ index, ¬ Known r index) :
      IndexResult n p [⟨.selectVersions p, r⟩, ⟨.sendTimeout (ownMessage n p) 1, .error err⟩]
        (.error (sendTimeoutError err))
  | answered (r response) (h : ∀ index, ¬ Known r index) :
      IndexResult n p [⟨.selectVersions p, r⟩, ⟨.sendTimeout (ownMessage n p) 1, .ok ()⟩,
        ⟨.receiveResponse, response⟩] (refreshAnswer p response)

section Handler

variable {n : ℕ} {p : TerraformProvider}

/-- A request that found no index waits for the refresher. -/
theorem wp_requestRefresh {r : Except SqlError (List (Option Text))}
    (h : ∀ index, ¬ Known r index) :
    (requestRefresh n p).wp (IndexCall n p) (fun result h' => IndexResult n p h' result)
      [⟨.selectVersions p, r⟩] := by
  unfold requestRefresh
  rw [perform_def, Prog.call_bind, Prog.wp_call]
  refine ⟨.send r h, fun sent => ?_⟩
  cases sent with
  | error err => exact (Prog.wp_pure _).mpr (.refused r err h)
  | ok u =>
    show Prog.wp _ _ (perform .receiveResponse >>= fun response =>
      pure (refreshAnswer p response)) _
    rw [perform_def, Prog.call_bind, Prog.wp_call]
    refine ⟨.wait r h, fun response => ?_⟩
    exact (Prog.wp_pure _).mpr (.answered r response h)

/-- What the read of the handler ends with. -/
theorem wp_listProviderVersions {φ : List IoEvent → Call → Prop} {h : List IoEvent}
    {Q : Except TerrashineError (Option MirrorIndex) → List IoEvent → Prop}
    (hφ : φ h (.selectVersions p))
    (hok : ∀ rows, Q (.ok (MirrorIndex.ofRows rows)) (h ++ [⟨.selectVersions p, .ok rows⟩]))
    (herror : ∀ err, Q (.error (.databaseError err)) (h ++ [⟨.selectVersions p, .error err⟩])) :
    (listProviderVersions p).run.wp φ Q h := by
  unfold listProviderVersions
  rw [Prog.wp_run_bind, wp_tryCall, perform_def, Prog.wp_call]
  refine ⟨hφ, fun r => (Prog.wp_done r).mpr ?_⟩
  cases r with
  | ok rows => exact (Prog.wp_pure _).mpr (hok rows)
  | error err => exact herror err

/-- **The handler makes no other calls, and answers as its history says.** -/
theorem wp_indexHandler (n : ℕ) (p : TerraformProvider) :
    (indexHandler n p).wp (IndexCall n p) (fun result h => IndexResult n p h result) [] := by
  unfold indexHandler
  rw [Prog.wp_bind]
  apply wp_listProviderVersions .read
  · intro rows
    cases hindex : MirrorIndex.ofRows rows with
    | none =>
      apply wp_requestRefresh
      rintro index ⟨rows', heq, hsome⟩
      cases heq
      rw [hindex] at hsome
      cases hsome
    | some index =>
      have hknown : Known (.ok rows) index := ⟨rows, rfl, hindex⟩
      dsimp only
      rw [perform_def, Prog.call_bind, Prog.wp_call]
      refine ⟨.wake _ index hknown, fun sent => ?_⟩
      exact (Prog.wp_pure _).mpr (.cached _ index sent hknown)
  · intro err
    apply wp_requestRefresh
    rintro index ⟨rows, heq, -⟩
    cases heq

/-! ## What the history tells -/

/-- An answer after a successful read of a known provider is that read. -/
theorem IndexResult.of_read {h : List IoEvent} {result : Except TerrashineError MirrorIndex}
    (hr : IndexResult n p h result) {rows : List (Option Text)} {index : MirrorIndex}
    (hread : (⟨.selectVersions p, .ok rows⟩ : IoEvent) ∈ h)
    (hindex : MirrorIndex.ofRows rows = some index) : result = .ok index := by
  cases hr with
  | cached r index' sent hknown =>
    have hrows : r = .ok rows := by simpa [eq_comm] using hread
    obtain ⟨rows', heq, hindex'⟩ := hknown
    rw [hrows] at heq
    cases heq
    rw [hindex] at hindex'
    cases hindex'
    rfl
  | refused r err hknown =>
    have hrows : r = .ok rows := by simpa [eq_comm] using hread
    exact absurd ⟨rows, hrows, hindex⟩ (hknown index)
  | answered r response hknown =>
    have hrows : r = .ok rows := by simpa [eq_comm] using hread
    exact absurd ⟨rows, hrows, hindex⟩ (hknown index)

end Handler

end Terrashine.Analysis
