import Mathlib.Logic.Function.Basic
import Mathlib.Data.List.Basic

/-!
# Programs that call out, and what they do to their own history

A task of a concurrent system is a program: it computes, it calls out to its
surroundings and waits for the answer, it sometimes leaves a choice to the
scheduler, and it may panic.  `Prog E R α` is the tree of all that it can do,
with `E` the calls, `R e` the answers to the call `e` and `α` its results.

Two readings of a program are used by everything above this file:

* `Runs p tr out`: the calls of `p`, answered as in `tr`, lead to `out`;
* `wp φ Q p h`: started with its own history `h`, every call that `p` makes is
  one `φ` allows at that moment, and a result satisfies `Q`.

`wp_bind` composes the second; `wp_run` gives back the first from it.
-/

set_option autoImplicit false

namespace Terrashine.Library

/-- A program over the calls `E`, answered in `R`, with results in `α`. -/
inductive Prog (E : Type) (R : E → Type) (α : Type) : Type where
  | done (a : α)
  | panicked (message : List Char)
  | pick (next : Bool → Prog E R α)
  | call (e : E) (next : R e → Prog E R α)

/-- One call of a task together with the answer it got. -/
abbrev Event (E : Type) (R : E → Type) : Type := Σ e : E, R e

/-- How a task ends. -/
inductive Outcome (α : Type) : Type where
  | returned (a : α)
  | panicked (message : List Char)
  deriving DecidableEq

namespace Prog

variable {E : Type} {R : E → Type} {α β γ : Type}

/-- Sequencing: a panic of the first program is a panic of the whole. -/
def bind : Prog E R α → (α → Prog E R β) → Prog E R β
  | done a, f => f a
  | panicked m, _ => panicked m
  | pick next, f => pick fun b => (next b).bind f
  | call e next, f => call e fun r => (next r).bind f

instance : Monad (Prog E R) where
  pure := done
  bind := bind

/-- The program that makes one call and returns its answer. -/
def perform (e : E) : Prog E R (R e) := call e done

/-- A program that only has a result is done. -/
@[simp] theorem pure_def (a : α) : (pure a : Prog E R α) = done a := rfl

/-- What follows a program that is done is what its result is given to. -/
@[simp] theorem done_bind (a : α) (f : α → Prog E R β) : (done a >>= f) = f a := rfl

/-- Nothing follows a panic. -/
@[simp] theorem panicked_bind (m : List Char) (f : α → Prog E R β) :
    ((panicked m : Prog E R α) >>= f) = panicked m := rfl

/-- What follows a choice follows both of its sides. -/
@[simp] theorem pick_bind (next : Bool → Prog E R α) (f : α → Prog E R β) :
    (pick next >>= f) = pick fun b => next b >>= f := rfl

/-- What follows a call follows each of its answers. -/
@[simp] theorem call_bind (e : E) (next : R e → Prog E R α) (f : α → Prog E R β) :
    (call e next >>= f) = call e fun r => next r >>= f := rfl

/-- A call in front of a program waits for it. -/
@[simp] theorem perform_bind (e : E) (f : R e → Prog E R β) :
    (perform e >>= f) = call e f := rfl

/-- Returning the result adds nothing to a program. -/
theorem bind_done (p : Prog E R α) : p >>= done = p := by
  induction p with
  | done a => rfl
  | panicked m => rfl
  | pick next ih => simp only [pick_bind, ih]
  | call e next ih => simp only [call_bind, ih]

/-- Sequencing is associative. -/
theorem bind_bind (p : Prog E R α) (f : α → Prog E R β) (g : β → Prog E R γ) :
    p >>= f >>= g = p >>= fun a => f a >>= g := by
  induction p with
  | done a => rfl
  | panicked m => rfl
  | pick next ih => simp only [pick_bind, ih]
  | call e next ih => simp only [call_bind, ih]

instance : LawfulMonad (Prog E R) :=
  LawfulMonad.mk' _ (fun p => bind_done p) (fun _ _ => rfl) (fun p f g => bind_bind p f g)

/-! ## Complete runs -/

/-- `Runs p tr out`: the calls of `p`, answered as in `tr`, lead to `out`. -/
inductive Runs : Prog E R α → List (Event E R) → Outcome α → Prop
  | done (a : α) : Runs (done a) [] (.returned a)
  | panicked (m : List Char) : Runs (panicked m) [] (.panicked m)
  | pick (next : Bool → Prog E R α) (b : Bool) {tr out} (h : Runs (next b) tr out) :
      Runs (pick next) tr out
  | call (e : E) (next : R e → Prog E R α) (r : R e) {tr out} (h : Runs (next r) tr out) :
      Runs (call e next) (⟨e, r⟩ :: tr) out

/-- A program that is done has one run, without calls. -/
theorem runs_done_iff {a : α} {tr : List (Event E R)} {out : Outcome α} :
    Runs (done a) tr out ↔ tr = [] ∧ out = .returned a := by
  constructor
  · intro h; cases h; exact ⟨rfl, rfl⟩
  · rintro ⟨rfl, rfl⟩; exact .done a

/-- A panic is one run, without calls. -/
theorem runs_panicked_iff {m : List Char} {tr : List (Event E R)} {out : Outcome α} :
    Runs (panicked m) tr out ↔ tr = [] ∧ out = .panicked m := by
  constructor
  · intro h; cases h; exact ⟨rfl, rfl⟩
  · rintro ⟨rfl, rfl⟩; exact .panicked m

/-- A run from a call is its event, with any answer, and a run from there. -/
theorem runs_call_iff {e : E} {next : R e → Prog E R α} {tr : List (Event E R)}
    {out : Outcome α} :
    Runs (call e next) tr out ↔ ∃ r tr', tr = ⟨e, r⟩ :: tr' ∧ Runs (next r) tr' out := by
  constructor
  · intro h
    cases h with
    | call _ _ r h => exact ⟨r, _, rfl, h⟩
  · rintro ⟨r, tr', rfl, h⟩; exact .call e next r h

/-- A run from a choice is a run of one of its sides. -/
theorem runs_pick_iff {next : Bool → Prog E R α} {tr : List (Event E R)} {out : Outcome α} :
    Runs (pick next) tr out ↔ ∃ b, Runs (next b) tr out := by
  constructor
  · intro h
    cases h with
    | pick _ b h => exact ⟨b, h⟩
  · rintro ⟨b, h⟩; exact .pick next b h

/-- **Runs of a sequence.**  Either the first program panics, or it returns and the
second runs from its result. -/
theorem runs_bind_iff {p : Prog E R α} {f : α → Prog E R β} {tr : List (Event E R)}
    {out : Outcome β} :
    Runs (p >>= f) tr out ↔
      (∃ m, Runs p tr (.panicked m) ∧ out = .panicked m) ∨
      ∃ tr₁ tr₂ a, tr = tr₁ ++ tr₂ ∧ Runs p tr₁ (.returned a) ∧ Runs (f a) tr₂ out := by
  induction p generalizing tr with
  | done a =>
    simp only [done_bind, runs_done_iff]
    constructor
    · intro h; exact .inr ⟨[], tr, a, rfl, ⟨rfl, rfl⟩, h⟩
    · rintro (⟨m, ⟨-, hm⟩, -⟩ | ⟨_, tr₂, a', rfl, ⟨rfl, ha⟩, h⟩)
      · cases hm
      · cases ha; exact h
  | panicked m =>
    simp only [panicked_bind, runs_panicked_iff]
    constructor
    · rintro ⟨rfl, rfl⟩; exact .inl ⟨m, ⟨rfl, rfl⟩, rfl⟩
    · rintro (⟨m', ⟨rfl, hm⟩, rfl⟩ | ⟨_, _, _, _, ⟨_, ha⟩, _⟩)
      · cases hm; exact ⟨rfl, rfl⟩
      · cases ha
  | pick next ih =>
    simp only [pick_bind, runs_pick_iff, ih]
    constructor
    · rintro ⟨b, ⟨m, h, rfl⟩ | ⟨tr₁, tr₂, a, rfl, h₁, h₂⟩⟩
      · exact .inl ⟨m, ⟨b, h⟩, rfl⟩
      · exact .inr ⟨tr₁, tr₂, a, rfl, ⟨b, h₁⟩, h₂⟩
    · rintro (⟨m, ⟨b, h⟩, rfl⟩ | ⟨tr₁, tr₂, a, rfl, ⟨b, h₁⟩, h₂⟩)
      · exact ⟨b, .inl ⟨m, h, rfl⟩⟩
      · exact ⟨b, .inr ⟨tr₁, tr₂, a, rfl, h₁, h₂⟩⟩
  | call e next ih =>
    simp only [call_bind, runs_call_iff, ih]
    constructor
    · rintro ⟨r, tr', rfl, ⟨m, h, rfl⟩ | ⟨tr₁, tr₂, a, rfl, h₁, h₂⟩⟩
      · exact .inl ⟨m, ⟨r, tr', rfl, h⟩, rfl⟩
      · exact .inr ⟨⟨e, r⟩ :: tr₁, tr₂, a, rfl, ⟨r, tr₁, rfl, h₁⟩, h₂⟩
    · rintro (⟨m, ⟨r, tr', rfl, h⟩, rfl⟩ | ⟨_, tr₂, a, rfl, ⟨r, tr₁, rfl, h₁⟩, h₂⟩)
      · exact ⟨r, tr', rfl, .inl ⟨m, h, rfl⟩⟩
      · exact ⟨r, tr₁ ++ tr₂, rfl, .inr ⟨tr₁, tr₂, a, rfl, h₁, h₂⟩⟩

/-- A sequence returns when both of its parts do. -/
theorem runs_bind_returned_iff {p : Prog E R α} {f : α → Prog E R β} {tr : List (Event E R)}
    {b : β} : Runs (p >>= f) tr (.returned b) ↔
      ∃ tr₁ tr₂ a, tr = tr₁ ++ tr₂ ∧ Runs p tr₁ (.returned a) ∧ Runs (f a) tr₂ (.returned b) := by
  rw [runs_bind_iff]
  constructor
  · rintro (⟨m, -, hm⟩ | h)
    · cases hm
    · exact h
  · exact .inr

/-- A single call returns its own answer. -/
theorem runs_perform_iff {e : E} {tr : List (Event E R)} {r : R e} :
    Runs (perform e) tr (.returned r) ↔ tr = [⟨e, r⟩] := by
  unfold perform
  rw [runs_call_iff]
  constructor
  · rintro ⟨r', tr', rfl, hdone⟩
    obtain ⟨rfl, heq⟩ := runs_done_iff.mp hdone
    cases heq
    rfl
  · rintro rfl
    exact ⟨r, [], rfl, .done r⟩

/-- The run in which every call is answered by an oracle and every choice is the first. -/
def execute (answer : (e : E) → R e) : Prog E R α → List (Event E R) × Outcome α
  | done a => ([], .returned a)
  | panicked m => ([], .panicked m)
  | pick next => execute answer (next true)
  | call e next =>
    let rest := execute answer (next (answer e))
    (⟨e, answer e⟩ :: rest.1, rest.2)

/-- Every program ends once its calls are answered. -/
theorem runs_execute (answer : (e : E) → R e) (p : Prog E R α) :
    Runs p (p.execute answer).1 (p.execute answer).2 := by
  induction p with
  | done a => exact .done a
  | panicked m => exact .panicked m
  | pick next ih => exact .pick next true (ih true)
  | call e next ih => exact .call e next (answer e) (ih (answer e))

/-- A call in a run can be answered otherwise, and then the program goes on to another end. -/
theorem runs_reanswer (answer : (e : E) → R e) {p : Prog E R α} {tr₁ tr₂ : List (Event E R)}
    {ev : Event E R} {out : Outcome α} (h : Runs p (tr₁ ++ ev :: tr₂) out) (r : R ev.1) :
    ∃ tr₂' out', Runs p (tr₁ ++ ⟨ev.1, r⟩ :: tr₂') out' := by
  induction p generalizing tr₁ with
  | done a =>
    have hnil := (runs_done_iff.mp h).1
    simp at hnil
  | panicked m =>
    have hnil := (runs_panicked_iff.mp h).1
    simp at hnil
  | pick next ih =>
    obtain ⟨b, hb⟩ := runs_pick_iff.mp h
    obtain ⟨tr₂', out', hr⟩ := ih b hb
    exact ⟨tr₂', out', .pick next b hr⟩
  | call e next ih =>
    obtain ⟨r₀, tr', htr, hnext⟩ := runs_call_iff.mp h
    cases tr₁ with
    | nil =>
      obtain ⟨rfl, -⟩ := List.cons_eq_cons.mp htr
      exact ⟨_, _, .call e next r (runs_execute answer (next r))⟩
    | cons first tr₁ =>
      obtain ⟨rfl, rfl⟩ := List.cons_eq_cons.mp htr
      obtain ⟨tr₂', out', hr⟩ := ih r₀ hnext
      exact ⟨tr₂', out', .call e next r₀ hr⟩

/-! ## Weakest preconditions over the own history -/

/-- `wp φ Q p h`: started with own history `h`, every call `p` makes is one that `φ`
allows at that moment, and a result satisfies `Q`.  A panicked task makes no
further call, so nothing is asked of it. -/
def wp (φ : List (Event E R) → E → Prop) (Q : α → List (Event E R) → Prop) :
    Prog E R α → List (Event E R) → Prop
  | done a, h => Q a h
  | panicked _, _ => True
  | pick next, h => ∀ b, (next b).wp φ Q h
  | call e next, h => φ h e ∧ ∀ r, (next r).wp φ Q (h ++ [⟨e, r⟩])

section Wp

variable {φ : List (Event E R) → E → Prop} {Q Q' : α → List (Event E R) → Prop}
  {h : List (Event E R)}

/-- At the end the postcondition holds. -/
@[simp] theorem wp_done (a : α) : wp φ Q (done a) h ↔ Q a h := Iff.rfl

/-- `pure` reaches exactly the postconditions that hold of its value. -/
@[simp] theorem wp_pure (a : α) : wp φ Q (pure a) h ↔ Q a h := Iff.rfl

/-- A panic has no end to hold at. -/
@[simp] theorem wp_panicked (m : List Char) : wp φ Q (panicked m) h ↔ True := Iff.rfl

/-- Both sides of a choice have to do. -/
@[simp] theorem wp_pick (next : Bool → Prog E R α) :
    wp φ Q (pick next) h ↔ ∀ b, wp φ Q (next b) h := Iff.rfl

/-- A call has to be allowed, and every answer to it has to do. -/
@[simp] theorem wp_call (e : E) (next : R e → Prog E R α) :
    wp φ Q (call e next) h ↔ φ h e ∧ ∀ r, wp φ Q (next r) (h ++ [⟨e, r⟩]) := Iff.rfl

/-- A single call has to be allowed, and every answer meets the postcondition. -/
@[simp] theorem wp_perform (e : E) (Q : R e → List (Event E R) → Prop) :
    wp φ Q (perform e) h ↔ φ h e ∧ ∀ r, Q r (h ++ [⟨e, r⟩]) := Iff.rfl

/-- **The rule of sequencing.** -/
theorem wp_bind (p : Prog E R α) (f : α → Prog E R β) (Q : β → List (Event E R) → Prop) :
    wp φ Q (p >>= f) h ↔ wp φ (fun a h' => wp φ Q (f a) h') p h := by
  induction p generalizing h with
  | done a => rfl
  | panicked m => rfl
  | pick next ih => simp only [pick_bind, wp_pick, ih]
  | call e next ih => simp only [call_bind, wp_call, ih]

/-- A function of the result goes into the postcondition. -/
theorem wp_map (f : α → β) (p : Prog E R α) (Q : β → List (Event E R) → Prop) :
    wp φ Q (f <$> p) h ↔ wp φ (fun a h' => Q (f a) h') p h :=
  wp_bind p (fun a => done (f a)) Q

/-- The rule of consequence. -/
theorem wp_mono (p : Prog E R α) (hw : wp φ Q p h) (hQ : ∀ a h', h <+: h' → Q a h' → Q' a h') :
    wp φ Q' p h := by
  induction p generalizing h with
  | done a => exact hQ a h (List.prefix_refl h) hw
  | panicked m => trivial
  | pick next ih => exact fun b => ih b (hw b) hQ
  | call e next ih =>
    refine ⟨hw.1, fun r => ih r (hw.2 r) fun a h' hp hq => hQ a h' ?_ hq⟩
    exact (List.prefix_append h _).trans hp

/-- A protocol that allows more is kept as well. -/
theorem wp_weaken {ψ : List (Event E R) → E → Prop} (p : Prog E R α) (hw : wp φ Q p h)
    (hφ : ∀ h e, φ h e → ψ h e) : wp ψ Q p h := by
  induction p generalizing h with
  | done a => exact hw
  | panicked m => trivial
  | pick next ih => exact fun b => ih b (hw b)
  | call e next ih => exact ⟨hφ h e hw.1, fun r => ih r (hw.2 r)⟩

/-- Two protocols at once. -/
theorem wp_and {ψ : List (Event E R) → E → Prop} (p : Prog E R α) (hw : wp φ Q p h)
    (hw' : wp ψ Q' p h) :
    wp (fun h e => φ h e ∧ ψ h e) (fun a h => Q a h ∧ Q' a h) p h := by
  induction p generalizing h with
  | done a => exact ⟨hw, hw'⟩
  | panicked m => trivial
  | pick next ih => exact fun b => ih b (hw b) (hw' b)
  | call e next ih => exact ⟨⟨hw.1, hw'.1⟩, fun r => ih r (hw.2 r) (hw'.2 r)⟩

/-- Where all calls are allowed and all results are good, so is every program. -/
theorem wp_trivial (hφ : ∀ h e, φ h e) (hQ : ∀ a h, Q a h) (p : Prog E R α) : wp φ Q p h := by
  induction p generalizing h with
  | done a => exact hQ a h
  | panicked m => trivial
  | pick next ih => exact fun b => ih b
  | call e next ih => exact ⟨hφ h e, fun r => ih r⟩

/-- A complete run of a program that satisfies its `wp` ends in `Q`. -/
theorem wp_run {p : Prog E R α} (hw : wp φ Q p h) {tr : List (Event E R)} {a : α}
    (hr : Runs p tr (.returned a)) : Q a (h ++ tr) := by
  induction p generalizing h tr with
  | done a' =>
    obtain ⟨rfl, ha⟩ := runs_done_iff.mp hr
    cases ha
    simpa using hw
  | panicked m => cases (runs_panicked_iff.mp hr).2
  | pick next ih =>
    obtain ⟨b, hb⟩ := runs_pick_iff.mp hr
    exact ih b (hw b) hb
  | call e next ih =>
    obtain ⟨r, tr', rfl, h'⟩ := runs_call_iff.mp hr
    simpa using ih r (hw.2 r) h'

/-- Every call of a complete run was allowed when it was made. -/
theorem wp_allows {p : Prog E R α} (hw : wp φ Q p h) {tr : List (Event E R)} {out : Outcome α}
    (hr : Runs p tr out) {tr₁ tr₂ : List (Event E R)} {ev : Event E R}
    (htr : tr = tr₁ ++ ev :: tr₂) : φ (h ++ tr₁) ev.1 := by
  induction hr generalizing h tr₁ with
  | done a => exact absurd htr (by simp)
  | panicked m => exact absurd htr (by simp)
  | pick next b _ ih => exact ih (hw b) htr
  | call e next r _ ih =>
    cases tr₁ with
    | nil =>
      obtain ⟨rfl, -⟩ := List.cons_eq_cons.mp htr
      rw [List.append_nil]
      exact hw.1
    | cons ev' tr₁ =>
      obtain ⟨rfl, htr'⟩ := List.cons_eq_cons.mp htr
      have hstep := ih (hw.2 r) htr'
      rw [List.append_assoc] at hstep
      exact hstep

/-- **A `wp` from the complete runs**: every call is one that some complete run makes, since any
call can be answered. -/
theorem wp_of_runs (answer : (e : E) → R e) {p : Prog E R α}
    (hφ : ∀ tr out tr₁ ev tr₂, Runs p tr out → tr = tr₁ ++ ev :: tr₂ → φ (h ++ tr₁) ev.1)
    (hQ : ∀ tr a, Runs p tr (.returned a) → Q a (h ++ tr)) : wp φ Q p h := by
  induction p generalizing h with
  | done a => simpa using hQ [] a (.done a)
  | panicked m => trivial
  | pick next ih =>
    intro b
    apply ih b
    · intro tr out tr₁ ev tr₂ hr htr
      exact hφ tr out tr₁ ev tr₂ (.pick next b hr) htr
    · intro tr a hr
      exact hQ tr a (.pick next b hr)
  | call e next ih =>
    constructor
    · have hr := runs_execute answer (call e next)
      simpa using hφ _ _ [] ⟨e, answer e⟩ _ hr rfl
    · intro r
      apply ih r
      · intro tr out tr₁ ev tr₂ hr htr
        have hall := hφ (⟨e, r⟩ :: tr) out (⟨e, r⟩ :: tr₁) ev tr₂ (.call e next r hr) (by simp [htr])
        simpa using hall
      · intro tr a hr
        simpa using hQ (⟨e, r⟩ :: tr) a (.call e next r hr)

end Wp

/-! ## Programs that only make calls of one kind -/

/-- Every call the program can make is in `C`. -/
def Calls (C : E → Prop) : Prog E R α → Prop
  | done _ => True
  | panicked _ => True
  | pick next => ∀ b, (next b).Calls C
  | call e next => C e ∧ ∀ r, (next r).Calls C

/-- A program that is done makes no call. -/
@[simp] theorem calls_done (C : E → Prop) (a : α) : Calls C (done a : Prog E R α) ↔ True := Iff.rfl

/-- `pure` makes no call. -/
@[simp] theorem calls_pure (C : E → Prop) (a : α) : Calls C (pure a : Prog E R α) ↔ True := Iff.rfl

/-- A panic makes no call. -/
@[simp] theorem calls_panicked (C : E → Prop) (m : List Char) :
    Calls C (panicked m : Prog E R α) ↔ True := Iff.rfl

/-- A choice makes the calls of both sides. -/
@[simp] theorem calls_pick (C : E → Prop) (next : Bool → Prog E R α) :
    Calls C (pick next) ↔ ∀ b, Calls C (next b) := Iff.rfl

/-- A call is one of the calls a program makes, with those after each answer. -/
@[simp] theorem calls_call (C : E → Prop) (e : E) (next : R e → Prog E R α) :
    Calls C (call e next) ↔ C e ∧ ∀ r, Calls C (next r) := Iff.rfl

/-- A single call is the only one. -/
@[simp] theorem calls_perform (C : E → Prop) (e : E) :
    Calls C (perform e : Prog E R (R e)) ↔ C e := by simp [perform]

/-- A sequence makes the calls of its parts. -/
theorem calls_bind {C : E → Prop} {p : Prog E R α} {f : α → Prog E R β}
    (hp : Calls C p) (hf : ∀ a, Calls C (f a)) : Calls C (p >>= f) := by
  induction p with
  | done a => exact hf a
  | panicked m => trivial
  | pick next ih => exact fun b => ih b (hp b)
  | call e next ih => exact ⟨hp.1, fun r => ih r (hp.2 r)⟩

/-- A weaker condition holds of the same calls. -/
theorem calls_mono {C D : E → Prop} (hCD : ∀ e, C e → D e) {p : Prog E R α}
    (hp : Calls C p) : Calls D p := by
  induction p with
  | done a => trivial
  | panicked m => trivial
  | pick next ih => exact fun b => ih b (hp b)
  | call e next ih => exact ⟨hCD e hp.1, fun r => ih r (hp.2 r)⟩

/-- **The rule for a sub-program whose calls are always allowed.**  Its result comes
with the complete run that led to it, and that run only holds calls in `C`. -/
theorem wp_of_calls {C : E → Prop} {φ : List (Event E R) → E → Prop} {p : Prog E R α}
    (hp : Calls C p) (h : List (Event E R))
    (hφ : ∀ tr e, (∀ ev ∈ tr, C ev.1) → C e → φ (h ++ tr) e) :
    wp φ (fun a h' => ∃ tr, h' = h ++ tr ∧ Runs p tr (.returned a) ∧ ∀ ev ∈ tr, C ev.1) p h := by
  induction p generalizing h with
  | done a => exact ⟨[], by simp, .done a, by simp⟩
  | panicked m => trivial
  | pick next ih =>
    intro b
    refine wp_mono _ (ih b (hp b) h hφ) ?_
    rintro a h' - ⟨tr, rfl, hr, hc⟩
    exact ⟨tr, rfl, .pick next b hr, hc⟩
  | call e next ih =>
    refine ⟨by simpa using hφ [] e (by simp) hp.1, fun r => ?_⟩
    have hstep := ih r (hp.2 r) (h ++ [⟨e, r⟩]) fun tr e' htr he' => by
      have hall : ∀ ev ∈ (⟨e, r⟩ : Event E R) :: tr, C ev.1 := List.forall_mem_cons.mpr ⟨hp.1, htr⟩
      simpa using hφ (⟨e, r⟩ :: tr) e' hall he'
    refine wp_mono _ hstep ?_
    rintro a h' - ⟨tr, rfl, hr, hc⟩
    refine ⟨⟨e, r⟩ :: tr, by simp, .call e next r hr, ?_⟩
    intro ev hev
    rcases List.mem_cons.mp hev with rfl | hev
    · exact hp.1
    · exact hc ev hev

/-- A program whose calls are always allowed, where nothing is asked of its result. -/
theorem Calls.wp {C : E → Prop} {φ : List (Event E R) → E → Prop}
    {Q : α → List (Event E R) → Prop} {p : Prog E R α} (hp : Calls C p)
    (hφ : ∀ h e, C e → φ h e) (hQ : ∀ a h, Q a h) (h : List (Event E R)) : p.wp φ Q h := by
  have hrun := wp_of_calls (φ := φ) hp h fun tr e _ he => hφ _ e he
  exact wp_mono p hrun fun a h' _ _ => hQ a h'

/-- **The rule for a history that has begun elsewhere**: what a program does from its own beginning
it does after anything else. -/
theorem Calls.wp_after {C : E → Prop} {φ ψ : List (Event E R) → E → Prop}
    {Q : α → List (Event E R) → Prop} {p : Prog E R α} (hp : Calls C p)
    {before h : List (Event E R)} (hh : ∀ ev ∈ h, C ev.1) (hw : p.wp φ (fun _ _ => True) h)
    (hψ : ∀ tr e, (∀ ev ∈ tr, C ev.1) → φ tr e → ψ (before ++ tr) e) (hQ : ∀ a h', Q a h') :
    p.wp ψ Q (before ++ h) := by
  induction p generalizing h with
  | done a => exact hQ a _
  | panicked m => trivial
  | pick next ih => exact fun b => ih b (hp b) hh (hw b)
  | call e next ih =>
    refine ⟨hψ h e hh hw.1, fun r => ?_⟩
    have hh' : ∀ ev ∈ h ++ [⟨e, r⟩], C ev.1 := by
      intro ev hev
      rcases List.mem_append.mp hev with hev | hev
      · exact hh ev hev
      · rw [List.mem_singleton.mp hev]
        exact hp.1
    rw [List.append_assoc]
    exact ih r (hp.2 r) hh' (hw.2 r)

/-- The calls of a run are calls the program can make. -/
theorem Calls.of_runs {C : E → Prop} {p : Prog E R α} (hp : Calls C p) {tr : List (Event E R)}
    {out : Outcome α} (hr : Runs p tr out) : ∀ ev ∈ tr, C ev.1 := by
  induction hr with
  | done a => simp
  | panicked m => simp
  | pick next b hr ih => exact ih (hp b)
  | call e next r hr ih => exact List.forall_mem_cons.mpr ⟨hp.1, ih (hp.2 r)⟩

/-! ## Programs that never, and programs that always panic -/

/-- No answers lead to a panic. -/
def NeverPanics : Prog E R α → Prop
  | done _ => True
  | panicked _ => False
  | pick next => ∀ b, (next b).NeverPanics
  | call _ next => ∀ r, (next r).NeverPanics

/-- All answers lead to a panic. -/
def AlwaysPanics (p : Prog E R α) : Prop := ∀ tr a, ¬ Runs p tr (.returned a)

/-- A program that is done does not panic. -/
@[simp] theorem neverPanics_done (a : α) : NeverPanics (done a : Prog E R α) ↔ True := Iff.rfl

/-- `pure` does not panic. -/
@[simp] theorem neverPanics_pure (a : α) : NeverPanics (pure a : Prog E R α) ↔ True := Iff.rfl

/-- A panic does panic. -/
@[simp] theorem neverPanics_panicked (m : List Char) :
    NeverPanics (panicked m : Prog E R α) ↔ False := Iff.rfl

/-- A call does not panic, if no answer leads to a panic. -/
@[simp] theorem neverPanics_call (e : E) (next : R e → Prog E R α) :
    NeverPanics (call e next) ↔ ∀ r, NeverPanics (next r) := Iff.rfl

/-- Neither side of a choice may panic. -/
@[simp] theorem neverPanics_pick (next : Bool → Prog E R α) :
    NeverPanics (pick next) ↔ ∀ b, NeverPanics (next b) := Iff.rfl

/-- A single call does not panic. -/
@[simp] theorem neverPanics_perform (e : E) : NeverPanics (perform e : Prog E R (R e)) :=
  fun _ => trivial

/-- A sequence does not panic when neither of its parts does. -/
theorem neverPanics_bind {p : Prog E R α} {f : α → Prog E R β} (hp : NeverPanics p)
    (hf : ∀ a, NeverPanics (f a)) : NeverPanics (p >>= f) := by
  induction p with
  | done a => exact hf a
  | panicked m => exact hp.elim
  | pick next ih => exact fun b => ih b (hp b)
  | call e next ih => exact fun r => ih r (hp r)

/-- The runs of a program that never panics return. -/
theorem NeverPanics.returned {p : Prog E R α} (hp : NeverPanics p) {tr : List (Event E R)}
    {out : Outcome α} (hr : Runs p tr out) : ∃ a, out = .returned a := by
  induction hr with
  | done a => exact ⟨a, rfl⟩
  | panicked m => exact hp.elim
  | pick next b _ ih => exact ih (hp b)
  | call e next r _ ih => exact ih (hp r)

/-- What comes after a panic does not matter. -/
theorem AlwaysPanics.bind {p : Prog E R α} (hp : AlwaysPanics p) (f : α → Prog E R β) :
    AlwaysPanics (p >>= f) := by
  intro tr b hr
  rcases runs_bind_iff.mp hr with ⟨m, -, hm⟩ | ⟨tr₁, tr₂, a, -, hra, -⟩
  · cases hm
  · exact hp tr₁ a hra

/-! ## Programs with a bounded number of calls -/

/-- No answers lead to more than `n` calls. -/
def CallsAtMost : Prog E R α → ℕ → Prop
  | done _, _ => True
  | panicked _, _ => True
  | pick next, n => ∀ b, (next b).CallsAtMost n
  | call _ next, n => ∃ m, n = m + 1 ∧ ∀ r, (next r).CallsAtMost m

/-- A program that is done makes at most any number of calls. -/
@[simp] theorem callsAtMost_done (a : α) (n : ℕ) :
    (done a : Prog E R α).CallsAtMost n ↔ True := Iff.rfl

/-- `pure` makes at most any number of calls. -/
@[simp] theorem callsAtMost_pure (a : α) (n : ℕ) :
    (pure a : Prog E R α).CallsAtMost n ↔ True := Iff.rfl

/-- A panic makes at most any number of calls. -/
@[simp] theorem callsAtMost_panicked (m : List Char) (n : ℕ) :
    (panicked m : Prog E R α).CallsAtMost n ↔ True := Iff.rfl

/-- A choice makes as many as either of its sides. -/
@[simp] theorem callsAtMost_pick (next : Bool → Prog E R α) (n : ℕ) :
    (pick next).CallsAtMost n ↔ ∀ b, (next b).CallsAtMost n := Iff.rfl

/-- A call is one more than what follows it. -/
@[simp] theorem callsAtMost_call (e : E) (next : R e → Prog E R α) (n : ℕ) :
    (call e next).CallsAtMost n ↔ ∃ m, n = m + 1 ∧ ∀ r, (next r).CallsAtMost m := Iff.rfl

/-- A single call is one. -/
theorem callsAtMost_perform (e : E) : (perform e : Prog E R (R e)).CallsAtMost 1 :=
  ⟨0, rfl, fun _ => trivial⟩

/-- A bound may be raised. -/
theorem CallsAtMost.mono {p : Prog E R α} {m n : ℕ} (hp : p.CallsAtMost m) (hmn : m ≤ n) :
    p.CallsAtMost n := by
  induction p generalizing m n with
  | done a => trivial
  | panicked msg => trivial
  | pick next ih => exact fun b => ih b (hp b) hmn
  | call e next ih =>
    obtain ⟨m', rfl, hnext⟩ := hp
    exact ⟨n - 1, by omega, fun r => ih r (hnext r) (by omega)⟩

/-- **The bounds of a sequence add up.** -/
theorem CallsAtMost.bind {p : Prog E R α} {f : α → Prog E R β} {m n : ℕ} (hp : p.CallsAtMost m)
    (hf : ∀ a, (f a).CallsAtMost n) : (p >>= f).CallsAtMost (m + n) := by
  induction p generalizing m with
  | done a => exact (hf a).mono (by omega)
  | panicked msg => trivial
  | pick next ih => exact fun b => ih b (hp b)
  | call e next ih =>
    obtain ⟨m', rfl, hnext⟩ := hp
    exact ⟨m' + n, by omega, fun r => ih r (hnext r)⟩

/-- A function of the result makes no call. -/
theorem CallsAtMost.map {p : Prog E R α} {n : ℕ} (hp : p.CallsAtMost n) (f : α → β) :
    (f <$> p).CallsAtMost n := by
  have hbound : (p >>= fun a => done (f a)).CallsAtMost (n + 0) :=
    hp.bind fun a => (callsAtMost_done (f a) 0).mpr trivial
  exact hbound

/-! ## Programs that may fail with an error -/

section Fail

variable {ε : Type} {φ : List (Event E R) → E → Prop} {C : E → Prop}

/-- The rule of sequencing for programs with errors: an error skips the rest. -/
theorem wp_run_bind (x : ExceptT ε (Prog E R) α) (f : α → ExceptT ε (Prog E R) β)
    (Q : Except ε β → List (Event E R) → Prop) (h : List (Event E R)) :
    wp φ Q (x >>= f).run h ↔ wp φ (fun (r : Except ε α) h' => match r with
      | .ok a => wp φ Q (f a).run h'
      | .error err => Q (.error err) h') x.run h := by
  rw [ExceptT.run_bind, wp_bind]
  constructor
  · intro hw
    refine wp_mono _ hw ?_
    rintro (err | a) h' - hq <;> exact hq
  · intro hw
    refine wp_mono _ hw ?_
    rintro (err | a) h' - hq <;> exact hq

/-- A result without an error makes no call. -/
theorem calls_run_pure (a : α) : Calls C (pure a : ExceptT ε (Prog E R) α).run := trivial

/-- A result without an error does not panic. -/
theorem neverPanics_run_pure (a : α) : NeverPanics (pure a : ExceptT ε (Prog E R) α).run := trivial

/-- A sequence that an error skips makes the calls of its parts. -/
theorem calls_run_bind {x : ExceptT ε (Prog E R) α} {f : α → ExceptT ε (Prog E R) β}
    (hx : Calls C x.run) (hf : ∀ a, Calls C (f a).run) : Calls C (x >>= f).run := by
  rw [ExceptT.run_bind]
  apply calls_bind hx
  intro r
  cases r with
  | ok a => exact hf a
  | error err => trivial

/-- A sequence that an error skips does not panic when neither of its parts does. -/
theorem neverPanics_run_bind {x : ExceptT ε (Prog E R) α} {f : α → ExceptT ε (Prog E R) β}
    (hx : NeverPanics x.run) (hf : ∀ a, NeverPanics (f a).run) : NeverPanics (x >>= f).run := by
  rw [ExceptT.run_bind]
  apply neverPanics_bind hx
  intro r
  cases r with
  | ok a => exact hf a
  | error err => trivial

/-- A sequence that an error skips makes at most as many calls as both of its parts. -/
theorem CallsAtMost.run_bind {x : ExceptT ε (Prog E R) α} {f : α → ExceptT ε (Prog E R) β}
    {m n : ℕ} (hx : x.run.CallsAtMost m) (hf : ∀ a, (f a).run.CallsAtMost n) :
    (x >>= f).run.CallsAtMost (m + n) := by
  rw [ExceptT.run_bind]
  apply hx.bind
  intro r
  cases r with
  | ok a => exact hf a
  | error err => trivial

/-- A run of a sequence: the first part ends it, or the second goes on from its result. -/
theorem runs_run_bind {x : ExceptT ε (Prog E R) α} {f : α → ExceptT ε (Prog E R) β}
    {tr : List (Event E R)} {out : Outcome (Except ε β)} (hr : Runs (x >>= f).run tr out) :
    (∃ m, Runs x.run tr (.panicked m) ∧ out = .panicked m) ∨
      (∃ err, Runs x.run tr (.returned (.error err)) ∧ out = .returned (.error err)) ∨
      ∃ tr₁ tr₂ a, tr = tr₁ ++ tr₂ ∧ Runs x.run tr₁ (.returned (.ok a)) ∧
        Runs (f a).run tr₂ out := by
  rw [ExceptT.run_bind] at hr
  rcases runs_bind_iff.mp hr with hpanic | ⟨tr₁, tr₂, r, htr, hrx, hrf⟩
  · exact .inl hpanic
  · cases r with
    | ok a => exact .inr (.inr ⟨tr₁, tr₂, a, htr, hrx, hrf⟩)
    | error err =>
      obtain ⟨rfl, rfl⟩ := runs_done_iff.mp hrf
      rw [List.append_nil] at htr
      exact .inr (.inl ⟨err, htr ▸ hrx, rfl⟩)

/-- A successful run of a sequence is a successful run of each part. -/
theorem runs_run_bind_ok {x : ExceptT ε (Prog E R) α} {f : α → ExceptT ε (Prog E R) β}
    {tr : List (Event E R)} {b : β} (hr : Runs (x >>= f).run tr (.returned (.ok b))) :
    ∃ tr₁ tr₂ a, tr = tr₁ ++ tr₂ ∧ Runs x.run tr₁ (.returned (.ok a)) ∧
      Runs (f a).run tr₂ (.returned (.ok b)) := by
  rw [ExceptT.run_bind] at hr
  rcases runs_bind_iff.mp hr with ⟨m, -, hm⟩ | ⟨tr₁, tr₂, r, htr, hrx, hrf⟩
  · cases hm
  · cases r with
    | ok a => exact ⟨tr₁, tr₂, a, htr, hrx, hrf⟩
    | error err => cases (runs_done_iff.mp hrf).2

/-- Runs of two parts, the first of them successful, make one of their sequence. -/
theorem Runs.run_bind {x : ExceptT ε (Prog E R) α} {f : α → ExceptT ε (Prog E R) β}
    {tr₁ tr₂ : List (Event E R)} {a : α} {out : Outcome (Except ε β)}
    (hx : Runs x.run tr₁ (.returned (.ok a))) (hf : Runs (f a).run tr₂ out) :
    Runs (x >>= f).run (tr₁ ++ tr₂) out := by
  rw [ExceptT.run_bind]
  exact runs_bind_iff.mpr (.inr ⟨tr₁, tr₂, .ok a, rfl, hx, hf⟩)

end Fail

/-! ## Two programs of one task joined -/

section Join

variable {ε : Type}

/-- The right half of `tryJoin`, while the left one waits at the call `e`. -/
def tryJoinAt (e : E) (left : R e → Prog E R (Except ε β) → Prog E R (Except ε (α × β))) :
    Prog E R (Except ε β) → Prog E R (Except ε (α × β))
  | done (.error err) => done (.error err)
  | done (.ok b) => call e fun r => left r (done (.ok b))
  | panicked m => panicked m
  | pick next => pick fun b => tryJoinAt e left (next b)
  | call f next => pick fun goLeft =>
      if goLeft then call e fun r => left r (call f next)
      else call f fun r => tryJoinAt e left (next r)

/-- Both programs are polled by one task in an order the scheduler picks, until both
have succeeded or one has failed, which drops the other. -/
def tryJoin : Prog E R (Except ε α) → Prog E R (Except ε β) → Prog E R (Except ε (α × β))
  | done (.error err), _ => done (.error err)
  | done (.ok a), q => q >>= fun
      | .error err => done (.error err)
      | .ok b => done (.ok (a, b))
  | panicked m, _ => panicked m
  | pick next, q => pick fun b => tryJoin (next b) q
  | call e next, q => tryJoinAt e (fun r q => tryJoin (next r) q) q

/-- What a successful join consists of: a run of each half, both inside the whole. -/
def Joined (p : Prog E R (Except ε α)) (q : Prog E R (Except ε β)) (tr : List (Event E R))
    (a : α) (b : β) : Prop :=
  ∃ tr₁ tr₂, Runs p tr₁ (.returned (.ok a)) ∧ Runs q tr₂ (.returned (.ok b)) ∧
    tr₁.Sublist tr ∧ tr₂.Sublist tr

/-- The step of `runs_tryJoin` for a left half that waits at a call. -/
theorem runs_tryJoinAt (e : E) (next : R e → Prog E R (Except ε α)) (a : α) (b : β)
    (ih : ∀ r (q : Prog E R (Except ε β)) tr,
      Runs (tryJoin (next r) q) tr (.returned (.ok (a, b))) → Joined (next r) q tr a b)
    (q : Prog E R (Except ε β)) (tr : List (Event E R))
    (hr : Runs (tryJoinAt e (fun r q => tryJoin (next r) q) q) tr (.returned (.ok (a, b)))) :
    Joined (call e next) q tr a b := by
  have hleft : ∀ (q : Prog E R (Except ε β)) tr,
      Runs (call e fun r => tryJoin (next r) q) tr (.returned (.ok (a, b))) →
        Joined (call e next) q tr a b := by
    intro q tr hr
    obtain ⟨r, tr', rfl, hr'⟩ := runs_call_iff.mp hr
    obtain ⟨tr₁, tr₂, h₁, h₂, hs₁, hs₂⟩ := ih r q tr' hr'
    exact ⟨⟨e, r⟩ :: tr₁, tr₂, .call e next r h₁, h₂, hs₁.cons_cons _, hs₂.cons _⟩
  induction q generalizing tr with
  | done x =>
    cases x with
    | error err => cases (runs_done_iff.mp hr).2
    | ok b' => exact hleft _ tr hr
  | panicked m => cases (runs_panicked_iff.mp hr).2
  | pick more ihq =>
    obtain ⟨c, hc⟩ := runs_pick_iff.mp hr
    obtain ⟨tr₁, tr₂, h₁, h₂, hs⟩ := ihq c tr hc
    exact ⟨tr₁, tr₂, h₁, .pick more c h₂, hs⟩
  | call f more ihq =>
    obtain ⟨goLeft, hgo⟩ := runs_pick_iff.mp hr
    cases goLeft with
    | true => exact hleft _ tr hgo
    | false =>
      obtain ⟨r, tr', rfl, hr'⟩ := runs_call_iff.mp hgo
      obtain ⟨tr₁, tr₂, h₁, h₂, hs₁, hs₂⟩ := ihq r tr' hr'
      exact ⟨tr₁, ⟨f, r⟩ :: tr₂, h₁, .call f more r h₂, hs₁.cons _, hs₂.cons_cons _⟩

/-- **A successful join is a successful run of each half.** -/
theorem runs_tryJoin (p : Prog E R (Except ε α)) (q : Prog E R (Except ε β))
    (tr : List (Event E R)) (a : α) (b : β)
    (hr : Runs (tryJoin p q) tr (.returned (.ok (a, b)))) : Joined p q tr a b := by
  induction p generalizing q tr with
  | done x =>
    cases x with
    | error err => cases (runs_done_iff.mp hr).2
    | ok a' =>
      rcases runs_bind_iff.mp hr with ⟨m, -, hm⟩ | ⟨tr₁, tr₂, y, rfl, hq, hd⟩
      · cases hm
      · cases y with
        | error err => cases (runs_done_iff.mp hd).2
        | ok b' =>
          obtain ⟨rfl, hout⟩ := runs_done_iff.mp hd
          cases hout
          exact ⟨[], tr₁, .done _, hq, by simp, by simp⟩
  | panicked m => cases (runs_panicked_iff.mp hr).2
  | pick next ih =>
    obtain ⟨c, hc⟩ := runs_pick_iff.mp hr
    obtain ⟨tr₁, tr₂, h₁, h₂, hs⟩ := ih c q tr hc
    exact ⟨tr₁, tr₂, .pick next c h₁, h₂, hs⟩
  | call e next ih => exact runs_tryJoinAt e next a b ih q tr hr

/-- The right half of a join makes its own calls and those of the left. -/
theorem calls_tryJoinAt {C : E → Prop} (e : E) (he : C e)
    (left : R e → Prog E R (Except ε β) → Prog E R (Except ε (α × β)))
    (hl : ∀ r q, Calls C q → Calls C (left r q)) (q : Prog E R (Except ε β))
    (hq : Calls C q) : Calls C (tryJoinAt e left q) := by
  induction q with
  | done x =>
    cases x with
    | error err => trivial
    | ok b => exact ⟨he, fun r => hl r _ trivial⟩
  | panicked m => trivial
  | pick next ih => exact fun b => ih b (hq b)
  | call f next ih =>
    intro goLeft
    cases goLeft with
    | true => exact ⟨he, fun r => hl r _ hq⟩
    | false => exact ⟨hq.1, fun r => ih r (hq.2 r)⟩

/-- A join makes the calls of its two programs. -/
theorem calls_tryJoin {C : E → Prop} (p : Prog E R (Except ε α)) (q : Prog E R (Except ε β))
    (hp : Calls C p) (hq : Calls C q) : Calls C (tryJoin p q) := by
  induction p generalizing q with
  | done x =>
    cases x with
    | error err => trivial
    | ok a =>
      refine calls_bind hq fun y => ?_
      cases y <;> trivial
  | panicked m => trivial
  | pick next ih => exact fun b => ih b q (hp b) hq
  | call e next ih =>
    exact calls_tryJoinAt e hp.1 _ (fun r q hq => ih r q (hp.2 r) hq) q hq

end Join

/-! ## The errors of a program -/

section Errors

variable {ε : Type} {P : ε → Prop}

/-- Whatever error the program ends with is in `P`. -/
def FailsIn (P : ε → Prop) : Prog E R (Except ε α) → Prop
  | done (.error err) => P err
  | done (.ok _) => True
  | panicked _ => True
  | pick next => ∀ b, (next b).FailsIn P
  | call _ next => ∀ r, (next r).FailsIn P

/-- A result is no failure. -/
theorem failsIn_run_pure (a : α) : FailsIn P (pure a : ExceptT ε (Prog E R) α).run := trivial

/-- An error fails with itself. -/
theorem failsIn_error {err : ε} (h : P err) :
    FailsIn P (pure (.error err) : Prog E R (Except ε α)) := h

/-- What fails in one way after every result fails in this way. -/
theorem failsIn_bind {p : Prog E R β} {f : β → Prog E R (Except ε α)}
    (hf : ∀ b, FailsIn P (f b)) : FailsIn P (p >>= f) := by
  induction p with
  | done b => exact hf b
  | panicked m => trivial
  | pick next ih => exact fun b => ih b
  | call e next ih => exact fun r => ih r

/-- A sequence that passes errors on fails only as its two parts do. -/
theorem FailsIn.bind {p : Prog E R (Except ε β)} {f : Except ε β → Prog E R (Except ε α)}
    (hp : FailsIn P p) (herror : ∀ err, P err → FailsIn P (f (.error err)))
    (hok : ∀ b, FailsIn P (f (.ok b))) : FailsIn P (p >>= f) := by
  induction p with
  | done x =>
    cases x with
    | error err => exact herror err hp
    | ok b => exact hok b
  | panicked m => trivial
  | pick next ih => exact fun b => ih b (hp b)
  | call e next ih => exact fun r => ih r (hp r)

/-- A sequence that an error skips fails in the ways of its parts. -/
theorem FailsIn.run_bind {x : ExceptT ε (Prog E R) β} {f : β → ExceptT ε (Prog E R) α}
    (hx : FailsIn P x.run) (hf : ∀ b, FailsIn P (f b).run) : FailsIn P (x >>= f).run := by
  rw [ExceptT.run_bind]
  exact hx.bind (fun _ herr => herr) hf

/-- The right half of a join fails in its own ways and in those of the left. -/
theorem failsIn_tryJoinAt (e : E)
    (left : R e → Prog E R (Except ε β) → Prog E R (Except ε (α × β)))
    (hl : ∀ r q, FailsIn P q → FailsIn P (left r q)) (q : Prog E R (Except ε β))
    (hq : FailsIn P q) : FailsIn P (tryJoinAt e left q) := by
  induction q with
  | done x =>
    cases x with
    | error err => exact hq
    | ok b => exact fun r => hl r _ trivial
  | panicked m => trivial
  | pick next ih => exact fun b => ih b (hq b)
  | call f next ih =>
    intro goLeft
    cases goLeft with
    | true => exact fun r => hl r _ hq
    | false => exact fun r => ih r (hq r)

/-- A join fails as one of its halves does. -/
theorem failsIn_tryJoin (p : Prog E R (Except ε α)) (q : Prog E R (Except ε β))
    (hp : FailsIn P p) (hq : FailsIn P q) : FailsIn P (tryJoin p q) := by
  induction p generalizing q with
  | done x =>
    cases x with
    | error err => exact hp
    | ok a => exact hq.bind (fun _ herr => herr) fun _ => trivial
  | panicked m => trivial
  | pick next ih => exact fun b => ih b q (hp b) hq
  | call e next ih => exact failsIn_tryJoinAt e _ (fun r q hq => ih r q (hp r) hq) q hq

/-- Every error a run ends with is one of those. -/
theorem FailsIn.wp {p : Prog E R (Except ε α)} (hp : FailsIn P p) (h : List (Event E R)) :
    p.wp (fun _ _ => True) (fun r _ => ∀ err, r = .error err → P err) h := by
  induction p generalizing h with
  | done x =>
    rintro err rfl
    exact hp
  | panicked m => trivial
  | pick next ih => exact fun b => ih b (hp b) h
  | call e next ih => exact ⟨trivial, fun r => ih r (hp r) _⟩

end Errors

-- from here on programs are reasoned about by the rules above
attribute [irreducible] wp Calls NeverPanics CallsAtMost FailsIn

end Prog

end Terrashine.Library
