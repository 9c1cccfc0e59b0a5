import Mathlib.Data.List.Basic

/-!
# Cutting a stream into parts

Chunks of any sizes are collected in a buffer; whenever the buffer has reached a minimum
length it becomes a part, and what is left after the last chunk is one more part unless it
is empty.  The parts are the stream again, in order, and only the last may be short.
-/

set_option autoImplicit false

namespace Terrashine.Library

namespace Chunking

variable {α : Type}

/-- The full parts, and what is left in the buffer. -/
def cut (minimum : ℕ) : List α → List (List α) → List (List α) × List α
  | buffer, [] => ([], buffer)
  | buffer, chunk :: rest =>
    if (buffer ++ chunk).length < minimum then cut minimum (buffer ++ chunk) rest
    else ((buffer ++ chunk) :: (cut minimum [] rest).1, (cut minimum [] rest).2)

/-- All parts of a stream. -/
def parts (minimum : ℕ) (chunks : List (List α)) : List (List α) :=
  (cut minimum [] chunks).1 ++
    (if (cut minimum [] chunks).2 = [] then [] else [(cut minimum [] chunks).2])

variable {minimum : ℕ} {buffer : List α} {chunk : List α} {chunks : List (List α)}

/-- A chunk that does not fill the buffer is held. -/
theorem cut_short (h : (buffer ++ chunk).length < minimum) :
    cut minimum buffer (chunk :: chunks) = cut minimum (buffer ++ chunk) chunks := by
  rw [cut, if_pos h]

/-- A chunk that fills the buffer ends a part, and the next one starts empty. -/
theorem cut_full (h : ¬ (buffer ++ chunk).length < minimum) :
    cut minimum buffer (chunk :: chunks) =
      ((buffer ++ chunk) :: (cut minimum [] chunks).1, (cut minimum [] chunks).2) := by
  rw [cut, if_neg h]

/-- Nothing of the stream is lost or moved. -/
theorem flatten_cut : (cut minimum buffer chunks).1.flatten ++ (cut minimum buffer chunks).2 =
    buffer ++ chunks.flatten := by
  induction chunks generalizing buffer with
  | nil => simp [cut]
  | cons chunk chunks ih =>
    by_cases h : (buffer ++ chunk).length < minimum
    · rw [cut_short h, ih, List.flatten_cons, List.append_assoc]
    · have hrest : (cut minimum [] chunks).1.flatten ++ (cut minimum [] chunks).2 =
          [] ++ chunks.flatten := ih
      rw [cut_full h, List.flatten_cons, List.append_assoc, hrest, List.flatten_cons,
        List.nil_append, List.append_assoc]

/-- A full part has the minimum. -/
theorem le_length_of_mem_cut {body : List α} (h : body ∈ (cut minimum buffer chunks).1) :
    minimum ≤ body.length := by
  induction chunks generalizing buffer with
  | nil => simp [cut] at h
  | cons chunk chunks ih =>
    by_cases hb : (buffer ++ chunk).length < minimum
    · rw [cut_short hb] at h
      exact ih h
    · rw [cut_full hb] at h
      rcases List.mem_cons.mp h with rfl | h
      · omega
      · exact ih h

/-- What is left in the buffer is short. -/
theorem length_rest_lt (hbuffer : buffer.length < minimum) :
    (cut minimum buffer chunks).2.length < minimum := by
  induction chunks generalizing buffer with
  | nil => simpa [cut] using hbuffer
  | cons chunk chunks ih =>
    by_cases h : (buffer ++ chunk).length < minimum
    · rw [cut_short h]
      exact ih h
    · rw [cut_full h]
      exact ih (by simp only [List.length_nil]; omega)

/-- **What a full part is made of**: the chunk that filled it, after a buffer that was not yet
full and that held exactly what came after the earlier parts. -/
theorem cut_eq_append (hbuffer : buffer.length < minimum) {done rest : List (List α)}
    {body : List α} (h : (cut minimum buffer chunks).1 = done ++ body :: rest) :
    ∃ before chunk after held, chunks = before ++ chunk :: after ∧ body = held ++ chunk ∧
      held.length < minimum ∧ done.flatten ++ held = buffer ++ before.flatten := by
  induction chunks generalizing buffer done with
  | nil => simp [cut] at h
  | cons chunk chunks ih =>
    by_cases hb : (buffer ++ chunk).length < minimum
    · rw [cut_short hb] at h
      obtain ⟨before, c, after, held, hchunks, hbody, hheld, hdone⟩ := ih hb h
      refine ⟨chunk :: before, c, after, held, by rw [hchunks]; rfl, hbody, hheld, ?_⟩
      rw [hdone, List.flatten_cons, List.append_assoc]
    · rw [cut_full hb] at h
      cases done with
      | nil =>
        obtain ⟨hbody, -⟩ := List.cons.inj h
        exact ⟨[], chunk, chunks, buffer, rfl, hbody.symm, hbuffer, by simp⟩
      | cons first done =>
        obtain ⟨hfirst, hrest⟩ := List.cons.inj h
        have hpos : ([] : List α).length < minimum := by simp only [List.length_nil]; omega
        obtain ⟨before, c, after, held, hchunks, hbody, hheld, hdone⟩ := ih hpos hrest
        refine ⟨chunk :: before, c, after, held, by rw [hchunks]; rfl, hbody, hheld, ?_⟩
        rw [List.flatten_cons, List.append_assoc, hdone, ← hfirst, List.flatten_cons,
          List.nil_append, List.append_assoc]

/-- **The parts are the stream.** -/
theorem flatten_parts : (parts minimum chunks).flatten = chunks.flatten := by
  have h : (cut minimum [] chunks).1.flatten ++ (cut minimum [] chunks).2 =
      [] ++ chunks.flatten := flatten_cut
  unfold parts
  rw [List.flatten_append, ← List.nil_append chunks.flatten, ← h]
  split
  · next hrest => rw [hrest, List.flatten_nil]
  · rw [List.flatten_singleton]

/-- A part is the short rest of the stream, or the chunk that filled it after what was held. -/
theorem parts_eq_append (hmin : 0 < minimum) {done rest : List (List α)} {body : List α}
    (h : parts minimum chunks = done ++ body :: rest) :
    (rest = [] ∧ body.length < minimum) ∨
      ∃ before chunk after held, chunks = before ++ chunk :: after ∧ body = held ++ chunk ∧
        held.length < minimum ∧ done.flatten ++ held = before.flatten := by
  have hlast : ∀ before, (if (cut minimum [] chunks).2 = [] then []
      else [(cut minimum [] chunks).2]) = before ++ body :: rest →
      rest = [] ∧ body.length < minimum := by
    intro before hbefore
    split at hbefore
    · simp at hbefore
    · cases before with
      | nil =>
        obtain ⟨hbody, hrest⟩ := List.cons.inj hbefore
        exact ⟨hrest.symm, hbody ▸ length_rest_lt hmin⟩
      | cons first before => simp at hbefore
  unfold parts at h
  rcases List.append_eq_append_iff.mp h with ⟨after, -, hafter⟩ | ⟨after, hcut, hafter⟩
  · exact .inl (hlast after hafter)
  · cases after with
    | nil => exact .inl (hlast [] hafter.symm)
    | cons body' after =>
      obtain ⟨rfl, -⟩ := List.cons.inj hafter
      obtain ⟨before, chunk, later, held, hchunks, hbody, hheld, hdone⟩ :=
        cut_eq_append hmin hcut
      exact .inr ⟨before, chunk, later, held, hchunks, hbody, hheld, hdone⟩

/-- No part is empty. -/
theorem ne_nil_of_mem_parts (hmin : 0 < minimum) {body : List α}
    (h : body ∈ parts minimum chunks) : body ≠ [] := by
  unfold parts at h
  rcases List.mem_append.mp h with h | h
  · have hlen := le_length_of_mem_cut h
    exact List.ne_nil_of_length_pos (by omega)
  · split at h
    · simp at h
    · next hrest =>
      rw [List.mem_singleton] at h
      exact h ▸ hrest

/-- All parts but the last have the minimum. -/
theorem le_length_of_mem_dropLast {body : List α} (h : body ∈ (parts minimum chunks).dropLast) :
    minimum ≤ body.length := by
  unfold parts at h
  split at h
  · rw [List.append_nil] at h
    exact le_length_of_mem_cut (List.dropLast_subset _ h)
  · rw [List.dropLast_concat] at h
    exact le_length_of_mem_cut h

end Chunking

end Terrashine.Library
