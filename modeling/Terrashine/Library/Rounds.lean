import Terrashine.Library.Machine

/-!
# Rounds of a looping task

A task that goes on after it has ended has done complete runs of the programs it went through, and
a part of one run of the program it is in.  `Steps` is about such a part, `Rounds` about what was
completed, and `history_rounds` takes the history of a task apart accordingly, in every state of
every interleaving.
-/

set_option autoImplicit false

namespace Terrashine.Library

namespace Prog

variable {E : Type} {R : E → Type} {α : Type}

/-- With these calls the program `p` gets to `q`. -/
inductive Steps (p : Prog E R α) : List (Event E R) → Prog E R α → Prop
  | refl : Steps p [] p
  | pick {tr : List (Event E R)} (next : Bool → Prog E R α) (b : Bool)
      (h : Steps p tr (.pick next)) :
      Steps p tr (next b)
  | call {tr : List (Event E R)} (e : E) (next : R e → Prog E R α) (r : R e)
      (h : Steps p tr (.call e next)) : Steps p (tr ++ [⟨e, r⟩]) (next r)

/-- Steps of a program and a run of what is left make a run of the program. -/
theorem Steps.runs {p q : Prog E R α} {tr tr' : List (Event E R)} {out : Outcome α}
    (h : Steps p tr q) (hq : Runs q tr' out) : Runs p (tr ++ tr') out := by
  induction h generalizing tr' with
  | refl => exact hq
  | pick next b h ih => exact ih (.pick next b hq)
  | call e next r h ih =>
    rw [List.append_assoc]
    exact ih (.call e next r hq)

/-- What holds of a program's calls and ends holds of what is left of it after some steps. -/
theorem wp_steps {φ : List (Event E R) → E → Prop} {Q : α → List (Event E R) → Prop}
    {p q : Prog E R α} {before tr : List (Event E R)} (h : Steps p tr q)
    (hφ : ∀ tr c next, Steps p tr (.call c next) → φ (before ++ tr) c)
    (hQ : ∀ tr a, Runs p tr (.returned a) → Q a (before ++ tr)) : q.wp φ Q (before ++ tr) := by
  induction q generalizing tr with
  | done a =>
    have hruns := h.runs (.done a)
    rw [List.append_nil] at hruns
    exact (wp_done a).mpr (hQ tr a hruns)
  | panicked m => exact (wp_panicked m).mpr trivial
  | pick next ih => exact (wp_pick next).mpr fun b => ih b (.pick next b h)
  | call e next ih =>
    refine (wp_call e next).mpr ⟨hφ tr e next h, fun r => ?_⟩
    rw [List.append_assoc]
    exact ih r (.call e next r h)

/-- **A program keeps a protocol that its parts and its complete runs keep.** -/
theorem wp_of_steps {φ : List (Event E R) → E → Prop} {Q : α → List (Event E R) → Prop}
    {p : Prog E R α} {before : List (Event E R)}
    (hφ : ∀ tr c next, Steps p tr (.call c next) → φ (before ++ tr) c)
    (hQ : ∀ tr a, Runs p tr (.returned a) → Q a (before ++ tr)) : p.wp φ Q before := by
  have hwp := wp_steps (.refl : Steps p [] p) hφ hQ
  rwa [List.append_nil] at hwp

end Prog

namespace Machine

variable {ι E : Type} {R : E → Type} {α W A : Type}

/-- The calls of the rounds that task `i` has completed, and the program it went on with. -/
inductive Rounds (M : Machine ι E R α W A) (i : ι) : List (List (Event E R)) → Prog E R α → Prop
  | main : Rounds M i [] (M.main i)
  | again {rounds : List (List (Event E R))} {p q : Prog E R α} {tr : List (Event E R)} (a : α)
      (h : Rounds M i rounds p) (hr : p.Runs tr (.returned a)) (ha : M.again i a = some q) :
      Rounds M i (rounds ++ [tr]) q

/-- Each call comes in a round, each result at the end of one. -/
def roundsProtocol (M : Machine ι E R α W A) : Protocol ι E R α where
  allows i h c := ∃ rounds p tr next, Rounds M i rounds p ∧ p.Steps tr (.call c next) ∧
    h = rounds.flatten ++ tr
  ensures i a h := ∃ rounds p tr, Rounds M i rounds p ∧ p.Runs tr (.returned a) ∧
    h = rounds.flatten ++ tr

/-- Every machine obeys the protocol that says its tasks run in rounds. -/
theorem roundsProtocol_obeyed (M : Machine ι E R α W A) : M.Obeys (roundsProtocol M) := by
  have hround : ∀ {i : ι} {rounds : List (List (Event E R))} {p : Prog E R α},
      Rounds M i rounds p →
        p.wp ((roundsProtocol M).allows i) ((roundsProtocol M).ensures i) rounds.flatten := by
    intro i rounds p hrounds
    apply Prog.wp_of_steps
    · exact fun tr c next hsteps => ⟨rounds, p, tr, next, hrounds, hsteps, rfl⟩
    · exact fun tr a hruns => ⟨rounds, p, tr, hrounds, hruns, rfl⟩
  constructor
  · intro i
    exact hround .main
  · intro i a p h hended hagain
    obtain ⟨rounds, p₀, tr, hrounds, hruns, rfl⟩ := hended
    have hnext := hround (.again a hrounds hruns hagain)
    rwa [List.flatten_concat] at hnext

/-- **What a task has done**: complete rounds, and a part of one more. -/
theorem history_rounds [DecidableEq ι] {M : Machine ι E R α W A}
    {C : State ι E R α W A → Label ι E R A → Prop}
    {w : W} {s : State ι E R α W A} (h : M.Reachable C w s) (i : ι) :
    ∃ rounds p tr q, Rounds M i rounds p ∧ p.Steps tr q ∧
      s.history i = rounds.flatten ++ tr := by
  have hlawful := ((roundsProtocol_obeyed M).sound h i).lawful
  rcases List.eq_nil_or_concat' (s.history i) with hnil | ⟨before, ev, hlast⟩
  · exact ⟨[], M.main i, [], M.main i, .main, .refl, hnil⟩
  · obtain ⟨rounds, p, tr, next, hrounds, hsteps, rfl⟩ := hlawful before ev [] hlast
    refine ⟨rounds, p, tr ++ [ev], next ev.2, hrounds, .call ev.1 next ev.2 hsteps, ?_⟩
    rw [hlast, List.append_assoc]

end Machine

end Terrashine.Library
