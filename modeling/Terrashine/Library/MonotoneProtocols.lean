import Terrashine.Library.Program

/-!
# Protocols that ask what has happened

A protocol is monotone when whatever it allows after a history it also allows after one that holds
all of that and more: it asks whether a call has been made, never whether one has not.  A program
that keeps a monotone protocol keeps it whatever else happens in between, and so do two programs
that are joined: `wp_tryJoin`.
-/

set_option autoImplicit false

namespace Terrashine.Library

namespace Prog

variable {E : Type} {R : E → Type} {α β ε : Type}

/-- What is allowed stays allowed when more has happened. -/
def Monotone (φ : List (Event E R) → E → Prop) : Prop :=
  ∀ h h' e, h ⊆ h' → φ h e → φ h' e

section Monotone

variable {φ : List (Event E R) → E → Prop} {h h' : List (Event E R)}

/-- More may have happened before. -/
theorem wp_of_subset (hφ : Monotone φ) {p : Prog E R α} (hsub : h ⊆ h')
    (hp : p.wp φ (fun _ _ => True) h) : p.wp φ (fun _ _ => True) h' := by
  induction p generalizing h h' with
  | done a => exact (wp_done a).mpr trivial
  | panicked m => exact (wp_panicked m).mpr trivial
  | pick next ih => exact (wp_pick next).mpr fun b => ih b hsub ((wp_pick next).mp hp b)
  | call e next ih =>
    obtain ⟨he, hnext⟩ := (wp_call e next).mp hp
    exact (wp_call e next).mpr ⟨hφ h h' e hsub he, fun r =>
      ih r (List.append_subset.mpr ⟨List.subset_append_of_subset_left _ hsub,
        List.subset_append_right _ _⟩) (hnext r)⟩

/-- The rule for the right half of a join, given the rule for what its left half goes on with. -/
theorem wp_tryJoinAt (hφ : Monotone φ) {e : E} {p : R e → Prog E R (Except ε α)}
    {q : Prog E R (Except ε β)}
    (hleft : ∀ r (q : Prog E R (Except ε β)) h, (p r).wp φ (fun _ _ => True) h →
      q.wp φ (fun _ _ => True) h → (tryJoin (p r) q).wp φ (fun _ _ => True) h)
    (hp : (call e p).wp φ (fun _ _ => True) h) (hq : q.wp φ (fun _ _ => True) h) :
    (tryJoinAt e (fun r q => tryJoin (p r) q) q).wp φ (fun _ _ => True) h := by
  have hstep : ∀ (q : Prog E R (Except ε β)) h, (call e p).wp φ (fun _ _ => True) h →
      q.wp φ (fun _ _ => True) h →
      (call e fun r => tryJoin (p r) q).wp φ (fun _ _ => True) h := by
    intro q h hp hq
    obtain ⟨he, hnext⟩ := (wp_call e p).mp hp
    exact (wp_call _ _).mpr ⟨he, fun r => hleft r q _ (hnext r)
      (wp_of_subset hφ (List.subset_append_left _ _) hq)⟩
  induction q generalizing h with
  | done x =>
    cases x with
    | error err => exact (wp_done _).mpr trivial
    | ok b => exact hstep _ h hp hq
  | panicked m => exact (wp_panicked m).mpr trivial
  | pick next ih => exact (wp_pick _).mpr fun b => ih b hp ((wp_pick next).mp hq b)
  | call f next ih =>
    refine (wp_pick _).mpr fun goLeft => ?_
    cases goLeft with
    | true => exact hstep _ h hp hq
    | false =>
      obtain ⟨hf, hnext⟩ := (wp_call f next).mp hq
      exact (wp_call _ _).mpr ⟨hf, fun r =>
        ih r (wp_of_subset hφ (List.subset_append_left _ _) hp) (hnext r)⟩

/-- **Two programs that keep a monotone protocol keep it when they are joined.** -/
theorem wp_tryJoin (hφ : Monotone φ) {p : Prog E R (Except ε α)} {q : Prog E R (Except ε β)}
    (hp : p.wp φ (fun _ _ => True) h) (hq : q.wp φ (fun _ _ => True) h) :
    (tryJoin p q).wp φ (fun _ _ => True) h := by
  induction p generalizing h q with
  | done x =>
    cases x with
    | error err => exact (wp_done _).mpr trivial
    | ok a =>
      refine (wp_bind _ _ _).mpr (wp_mono _ hq fun y h' _ _ => ?_)
      cases y <;> exact (wp_done _).mpr trivial
  | panicked m => exact (wp_panicked m).mpr trivial
  | pick next ih => exact (wp_pick _).mpr fun b => ih b ((wp_pick next).mp hp b) hq
  | call e next ih => exact wp_tryJoinAt hφ (fun r q h hp hq => ih r hp hq) hp hq

end Monotone

end Prog

end Terrashine.Library
