import Terrashine.Program.Registry

/-!
# Reading a body within its limit

`read_body_limit` checks the limit before each chunk it appends.  What comes out depends on
the whole body alone: `readBodyLimit_whole`.  The invariant of the loop is that the buffer is
the part of the body that has arrived and that it is within the limit.
-/

set_option autoImplicit false

namespace Terrashine.Analysis

open Terrashine.Library Terrashine.Model

section

variable {limit : ℕ} {buffer : Bytes} {chunks : List Bytes} {ending : BodyEnd}

/-- The buffer each time the loop asks for the next chunk. -/
def readBuffers (limit : ℕ) : Bytes → List Bytes → List Bytes
  | buffer, [] => [buffer]
  | buffer, chunk :: rest =>
    buffer :: if limit < buffer.length + chunk.length then []
      else readBuffers limit (buffer ++ chunk) rest

/-- What a caller that starts with the empty buffer gets: the body or an error. -/
def readBody (limit : ℕ) (response : HttpResponse) : Except TerrashineError Bytes :=
  match readBodyLimit [] response limit with
  | (.ok (), buffer) => .ok buffer
  | (.error err, _) => .error err

/-- The last of these buffers is the one the loop leaves behind. -/
theorem getLast?_readBuffers (ending : BodyEnd) :
    (readBuffers limit buffer chunks).getLast? = some (readChunks limit ending buffer chunks).2 := by
  induction chunks generalizing buffer with
  | nil =>
    unfold readBuffers readChunks
    cases ending <;> rfl
  | cons chunk rest ih =>
    unfold readBuffers readChunks
    split
    · rfl
    · rw [List.getLast?_cons, ih]
      rfl

/-- **The invariant of the loop**: the buffer is within the limit, and it is a prefix of what
there is to read. -/
theorem mem_readBuffers (hbuffer : buffer.length ≤ limit) :
    ∀ b ∈ readBuffers limit buffer chunks, b.length ≤ limit ∧ b <+: buffer ++ chunks.flatten := by
  induction chunks generalizing buffer with
  | nil =>
    intro b hb
    unfold readBuffers at hb
    rw [List.mem_singleton] at hb
    subst hb
    simp [hbuffer]
  | cons chunk rest ih =>
    intro b hb
    unfold readBuffers at hb
    rcases List.mem_cons.mp hb with rfl | hb
    · exact ⟨hbuffer, List.prefix_append _ _⟩
    · split at hb
      · exact absurd hb List.not_mem_nil
      · have hfits : (buffer ++ chunk).length ≤ limit := by
          rw [List.length_append]
          omega
        have hnext := ih hfits b hb
        simpa using hnext

/-- A body that fits is read to its end. -/
theorem readChunks_fits (hfits : (buffer ++ chunks.flatten).length ≤ limit) :
    readChunks limit ending buffer chunks =
      (match ending with
        | .complete => .ok ()
        | .broken => .error (.providerResponseFailure .transport),
      buffer ++ chunks.flatten) := by
  induction chunks generalizing buffer with
  | nil =>
    unfold readChunks
    rw [List.flatten_nil, List.append_nil]
    cases ending <;> rfl
  | cons chunk rest ih =>
    have hrest : (buffer ++ chunk ++ rest.flatten).length ≤ limit := by simpa using hfits
    have hchunk : ¬ limit < buffer.length + chunk.length := by
      simp only [List.length_append] at hrest
      omega
    unfold readChunks
    rw [if_neg hchunk, ih hrest]
    simp

/-- A body that does not fit is refused, however it would have ended. -/
theorem readChunks_tooLarge (hbuffer : buffer.length ≤ limit)
    (hlarge : limit < (buffer ++ chunks.flatten).length) :
    (readChunks limit ending buffer chunks).1 = .error (.providerResponseTooLarge limit) := by
  induction chunks generalizing buffer with
  | nil =>
    simp only [List.flatten_nil, List.append_nil] at hlarge
    omega
  | cons chunk rest ih =>
    unfold readChunks
    split
    · rfl
    · have hfits : (buffer ++ chunk).length ≤ limit := by
        rw [List.length_append]
        omega
      apply ih hfits
      simpa using hlarge

end

/-- What a caller gets, said of the body as a whole. -/
theorem readBody_eq (limit : ℕ) (response : HttpResponse) :
    readBody limit response = if response.body.chunks.flatten.length ≤ limit then
        match response.body.ending with
        | .complete => .ok response.body.chunks.flatten
        | .broken => .error (.providerResponseFailure .transport)
      else .error (.providerResponseTooLarge limit) := by
  unfold readBody readBodyLimit
  by_cases hfits : response.body.chunks.flatten.length ≤ limit
  · have hread : readChunks limit response.body.ending [] response.body.chunks = _ :=
      readChunks_fits (by simpa using hfits)
    rw [hread, if_pos hfits]
    cases response.body.ending <;> simp
  · have herror : (readChunks limit response.body.ending [] response.body.chunks).1 = _ :=
      readChunks_tooLarge (Nat.zero_le limit) (by simpa using hfits)
    rw [if_neg hfits]
    cases hread : readChunks limit response.body.ending [] response.body.chunks with
    | mk result buffer =>
      rw [hread] at herror
      dsimp only at herror
      rw [herror]

/-- **The outcome depends on the body, not on its chunking.**  A body that arrives completely is
returned whole when it is within the limit and refused when it is not; one that breaks off is
an error; and whenever the loop asks for a chunk, its buffer is within the limit and a prefix of
the body. -/
theorem readBodyLimit_whole (limit : ℕ) (response : HttpResponse) :
    (response.body.ending = .complete →
      readBody limit response = if response.body.chunks.flatten.length ≤ limit
        then .ok response.body.chunks.flatten else .error (.providerResponseTooLarge limit)) ∧
    (response.body.ending = .broken → ∃ err, readBody limit response = .error err) ∧
    (readBuffers limit [] response.body.chunks).getLast? =
      some (readBodyLimit [] response limit).2 ∧
    (∀ buffer ∈ readBuffers limit [] response.body.chunks,
      buffer.length ≤ limit ∧ buffer <+: response.body.chunks.flatten) ∧
    ∀ other : HttpResponse, response.body.ending = other.body.ending →
      response.body.chunks.flatten = other.body.chunks.flatten →
      readBody limit response = readBody limit other := by
  refine ⟨fun hcomplete => ?_, fun hbroken => ?_, ?_, ?_, fun other hending hbody => ?_⟩
  · rw [readBody_eq, hcomplete]
  · rw [readBody_eq, hbroken]
    split
    · exact ⟨_, rfl⟩
    · exact ⟨_, rfl⟩
  · exact getLast?_readBuffers response.body.ending
  · exact mem_readBuffers (Nat.zero_le limit)
  · rw [readBody_eq, readBody_eq, hending, hbody]

/-- At the limit exactly, and one byte over it. -/
example : readBody 3 { status := 200, body := { chunks := [[1], [], [2, 3]], ending := .complete } } =
    .ok [1, 2, 3] := by decide

example : readBody 2 { status := 200, body := { chunks := [[1], [], [2, 3]], ending := .complete } } =
    .error (.providerResponseTooLarge 2) := by decide

end Terrashine.Analysis
