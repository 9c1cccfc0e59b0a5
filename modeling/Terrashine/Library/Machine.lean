import Terrashine.Library.Program
import Mathlib.Logic.Relation

/-!
# A machine of interleaved tasks

Any number of tasks run over one shared world.  A task is a program; a step starts
a task, performs the call one task waits at, resolves one of its scheduler choices,
lets a finished loop body start over, drops a task at a point where it waits, or is a
move of the environment.  Every step is recorded in the trace, so that a state knows
the order of all that led to it, and `State.history i` is what task `i` itself did.

`Protocol` is a promise of every task about its own calls, given its own history;
`Machine.Obeys` says that each program keeps it (a `wp` for each), and
`Obeys.sound` that then every reachable state of every interleaving does.
`Machine.invariant` is the rule for a property of all states, `Machine.exists_step` goes
back from a call in a history to the step that made it, and `Issues` is about calls that
are answered with the value of a counter.
-/

set_option autoImplicit false

namespace Terrashine.Library

/-- The programs of the tasks `ι` and what their calls do to the world `W`. -/
structure Machine (ι E : Type) (R : E → Type) (α W A : Type) where
  main : ι → Prog E R α
  /-- A task that is a loop goes on with a further program. -/
  again : ι → α → Option (Prog E R α)
  /-- The world when a task is started, or `none` while it cannot be. -/
  start : ι → W → Option W
  /-- The world after a call with that answer, or `none` when the call is not ready or
  cannot be answered so.  The flag says whether a call that reports an error took
  effect all the same. -/
  perform : ι → W → (e : E) → R e → Bool → Option W
  finish : ι → W → W
  /-- The world when the task is dropped at the point where it waits, or `none` for a task
  nobody drops. -/
  drop : ι → W → Option W
  env : A → W → Option W

/-- Where a task stands. -/
inductive Thread (E : Type) (R : E → Type) (α : Type) : Type where
  | waiting
  | running (p : Prog E R α)
  | finished (a : α)
  | dropped

/-- One step of the machine, as it stands in the trace. -/
inductive Label (ι E : Type) (R : E → Type) (A : Type) : Type where
  | start (i : ι)
  | call (i : ι) (ev : Event E R) (applied : Bool)
  | pick (i : ι) (b : Bool)
  | again (i : ι)
  | finish (i : ι)
  | drop (i : ι)
  | env (a : A)

/-- The shared world, the tasks, and all steps so far, the latest last. -/
structure State (ι E : Type) (R : E → Type) (α W A : Type) where
  world : W
  pool : ι → Thread E R α
  trace : List (Label ι E R A)

variable {ι E : Type} {R : E → Type} {α W A : Type}

/-- No task has been started. -/
def Machine.initial (w : W) : State ι E R α W A :=
  { world := w, pool := fun _ => .waiting, trace := [] }

/-- The initial state has the world it is given. -/
@[simp] theorem Machine.initial_world (w : W) :
    (Machine.initial w : State ι E R α W A).world = w := rfl

/-- No task has been started in the initial state. -/
@[simp] theorem Machine.initial_pool (w : W) (i : ι) :
    (Machine.initial w : State ι E R α W A).pool i = .waiting := rfl

/-- The trace of the initial state is empty. -/
@[simp] theorem Machine.initial_trace (w : W) :
    (Machine.initial w : State ι E R α W A).trace = [] := rfl

variable [DecidableEq ι]

/-- The call of task `i` that a step is, if it is one. -/
def Label.own (i : ι) : Label ι E R A → Option (Event E R)
  | .call j ev _ => if j = i then some ev else none
  | _ => none

/-- The event a label is for a task is that of a call of this task. -/
theorem Label.own_eq_some {i : ι} {l : Label ι E R A} {ev : Event E R} :
    Label.own i l = some ev ↔ ∃ applied, l = .call i ev applied := by
  constructor
  · intro h
    cases l with
    | call j ev' applied =>
      simp only [Label.own] at h
      split at h
      · next hj =>
        cases h
        exact ⟨applied, by rw [hj]⟩
      · cases h
    | _ => cases h
  · rintro ⟨applied, rfl⟩
    exact if_pos rfl

namespace State

/-- The calls task `i` has made, with their answers. -/
def history (s : State ι E R α W A) (i : ι) : List (Event E R) :=
  s.trace.filterMap (Label.own i)

/-- The state after a step of task `i`. -/
def advance (s : State ι E R α W A) (l : Label ι E R A) (w : W) (i : ι) (t : Thread E R α) :
    State ι E R α W A :=
  { world := w, pool := Function.update s.pool i t, trace := s.trace ++ [l] }

/-- Advancing a task installs the new world. -/
@[simp] theorem advance_world (s : State ι E R α W A) (l : Label ι E R A) (w : W) (i : ι)
    (t : Thread E R α) : (s.advance l w i t).world = w := rfl

/-- Advancing a task adds the label to the trace. -/
@[simp] theorem advance_trace (s : State ι E R α W A) (l : Label ι E R A) (w : W) (i : ι)
    (t : Thread E R α) : (s.advance l w i t).trace = s.trace ++ [l] := rfl

/-- Advancing a task gives it its new thread. -/
@[simp] theorem advance_pool_self (s : State ι E R α W A) (l : Label ι E R A) (w : W) (i : ι)
    (t : Thread E R α) : (s.advance l w i t).pool i = t := by simp [advance]

/-- Advancing a task leaves the threads of the others alone. -/
theorem advance_pool_of_ne (s : State ι E R α W A) (l : Label ι E R A) (w : W) {i j : ι}
    (t : Thread E R α) (h : j ≠ i) : (s.advance l w i t).pool j = s.pool j := by
  simp [advance, h]

/-- Advancing a task adds to each history what the label is for its task. -/
theorem advance_history (s : State ι E R α W A) (l : Label ι E R A) (w : W) (i j : ι)
    (t : Thread E R α) :
    (s.advance l w i t).history j = s.history j ++ (Label.own j l).toList := by
  simp only [history, advance_trace, List.filterMap_append]
  cases hl : Label.own j l <;> simp [hl]

/-- The history of a task consists of its calls in the trace. -/
theorem mem_history_iff {s : State ι E R α W A} {i : ι} {ev : Event E R} :
    ev ∈ s.history i ↔ ∃ applied, Label.call i ev applied ∈ s.trace := by
  simp only [history, List.mem_filterMap, Label.own_eq_some]
  constructor
  · rintro ⟨l, hl, applied, rfl⟩
    exact ⟨applied, hl⟩
  · rintro ⟨applied, hl⟩
    exact ⟨_, hl, applied, rfl⟩

end State

namespace Machine

variable (M : Machine ι E R α W A)

/-- No task has called anything at the start. -/
@[simp] theorem initial_history (w : W) (i : ι) :
    (initial w : State ι E R α W A).history i = [] := rfl

/-- The steps of the machine. -/
inductive Step : State ι E R α W A → Label ι E R A → State ι E R α W A → Prop
  | start (s i w) (hp : s.pool i = .waiting) (hw : M.start i s.world = some w) :
      Step s (.start i) (s.advance (.start i) w i (.running (M.main i)))
  | call (s i e next r applied w) (hp : s.pool i = .running (.call e next))
      (hw : M.perform i s.world e r applied = some w) :
      Step s (.call i ⟨e, r⟩ applied) (s.advance (.call i ⟨e, r⟩ applied) w i (.running (next r)))
  | pick (s i next b) (hp : s.pool i = .running (.pick next)) :
      Step s (.pick i b) (s.advance (.pick i b) s.world i (.running (next b)))
  | again (s i a p) (hp : s.pool i = .running (.done a)) (ha : M.again i a = some p) :
      Step s (.again i) (s.advance (.again i) s.world i (.running p))
  | finish (s i a) (hp : s.pool i = .running (.done a)) (ha : M.again i a = none) :
      Step s (.finish i) (s.advance (.finish i) (M.finish i s.world) i (.finished a))
  | drop (s i p w) (hp : s.pool i = .running p) (hw : M.drop i s.world = some w) :
      Step s (.drop i) (s.advance (.drop i) w i .dropped)
  | env (s a w) (hw : M.env a s.world = some w) :
      Step s (.env a) { s with world := w, trace := s.trace ++ [.env a] }

/-- A run every step of which meets the condition `C`. -/
abbrev Run (C : State ι E R α W A → Label ι E R A → Prop) :
    State ι E R α W A → State ι E R α W A → Prop :=
  Relation.ReflTransGen fun s s' => ∃ l, C s l ∧ M.Step s l s'

/-- The states of the runs that start in the world `w` and whose steps meet `C`. -/
abbrev Reachable (C : State ι E R α W A → Label ι E R A → Prop) (w : W)
    (s : State ι E R α W A) : Prop := M.Run C (initial w) s

variable {M} {C : State ι E R α W A → Label ι E R A → Prop} {w : W}

/-- A run with a stronger condition is one with a weaker. -/
theorem Run.mono {D : State ι E R α W A → Label ι E R A → Prop} {s s' : State ι E R α W A}
    (hCD : ∀ s l, C s l → D s l) (h : M.Run C s s') : M.Run D s s' := by
  induction h with
  | refl => exact .refl
  | tail _ hl ih =>
    obtain ⟨l, hc, hl⟩ := hl
    exact ih.tail ⟨l, hCD _ l hc, hl⟩

/-- **The rule of invariants.** -/
theorem invariant {I : State ι E R α W A → Prop} (h₀ : I (initial w))
    (hstep : ∀ s l s', M.Reachable C w s → I s → C s l → M.Step s l s' → I s')
    {s : State ι E R α W A} (h : M.Reachable C w s) : I s := by
  induction h with
  | refl => exact h₀
  | tail hr hs ih =>
    obtain ⟨l, hc, hl⟩ := hs
    exact hstep _ l _ hr ih hc hl

/-- A step adds its label to the trace. -/
theorem Step.trace {s s' : State ι E R α W A} {l : Label ι E R A} (h : M.Step s l s') :
    s'.trace = s.trace ++ [l] := by cases h <;> rfl

/-- A step adds to a history what its label is for the task. -/
theorem Step.history {s s' : State ι E R α W A} {l : Label ι E R A} (h : M.Step s l s') (i : ι) :
    s'.history i = s.history i ++ (Label.own i l).toList := by
  simp only [State.history, h.trace, List.filterMap_append]
  cases hl : Label.own i l <;> simp [hl]

/-- An event that is in a history after a step was there before, or is that of the step. -/
theorem Step.mem_history {s s' : State ι E R α W A} {l : Label ι E R A} (h : M.Step s l s') {i : ι}
    {ev : Event E R} (hev : ev ∈ s'.history i) :
    ev ∈ s.history i ∨ ∃ applied, l = .call i ev applied := by
  rw [h.history] at hev
  rcases List.mem_append.mp hev with hev | hev
  · exact .inl hev
  · have hown : Label.own i l = some ev := by simpa [eq_comm] using hev
    exact .inr (Label.own_eq_some.mp hown)

/-- A later state knows all that an earlier one did. -/
theorem Run.trace_prefix {s s' : State ι E R α W A} (h : M.Run C s s') :
    s.trace <+: s'.trace := by
  induction h with
  | refl => exact List.prefix_refl _
  | tail _ hl ih =>
    obtain ⟨l, -, hl⟩ := hl
    exact ih.trans (hl.trace ▸ List.prefix_append _ _)

/-- No run takes anything out of a history. -/
theorem Run.history_prefix {s s' : State ι E R α W A} (h : M.Run C s s') (i : ι) :
    s.history i <+: s'.history i := by
  induction h with
  | refl => exact List.prefix_refl _
  | tail _ hl ih =>
    obtain ⟨l, -, hl⟩ := hl
    exact ih.trans (hl.history i ▸ List.prefix_append _ _)

/-- What stands in the trace of a run was a step of that run. -/
theorem Run.exists_step_of_mem {s s' : State ι E R α W A} (h : M.Run C s s')
    {t : List (Label ι E R A)} (ht : s'.trace = s.trace ++ t) {l : Label ι E R A} (hl : l ∈ t) :
    ∃ s₁ s₂, M.Run C s s₁ ∧ C s₁ l ∧ M.Step s₁ l s₂ ∧ M.Run C s₂ s' := by
  induction h generalizing t with
  | refl =>
    have hnil : t = [] := by simpa using ht
    rw [hnil] at hl
    exact absurd hl List.not_mem_nil
  | @tail s₁ s₂ hr hstep ih =>
    obtain ⟨l', hc, hl'⟩ := hstep
    obtain ⟨t₁, ht₁⟩ := Run.trace_prefix hr
    have hsplit : t = t₁ ++ [l'] := by
      have hnext := hl'.trace
      rw [ht, ← ht₁, List.append_assoc] at hnext
      exact List.append_cancel_left hnext
    rw [hsplit] at hl
    rcases List.mem_append.mp hl with hold | hnew
    · obtain ⟨s₃, s₄, h₃, hc₃, hl₃, h₄⟩ := ih ht₁.symm hold
      exact ⟨s₃, s₄, h₃, hc₃, hl₃, h₄.tail ⟨l', hc, hl'⟩⟩
    · rw [List.mem_singleton] at hnew
      subst hnew
      exact ⟨s₁, s₂, hr, hc, hl', .refl⟩

/-- A call that a task has made in a run is a step of that run. -/
theorem Run.exists_step {s s' : State ι E R α W A} (h : M.Run C s s') {i : ι}
    {tr : List (Event E R)} (hh : s'.history i = s.history i ++ tr) {ev : Event E R} (hev : ev ∈ tr) :
    ∃ s₁ s₂ applied, M.Run C s s₁ ∧ C s₁ (.call i ev applied) ∧
      M.Step s₁ (.call i ev applied) s₂ ∧ M.Run C s₂ s' := by
  obtain ⟨t, ht⟩ := Run.trace_prefix h
  have htr : tr = t.filterMap (Label.own i) := by
    unfold State.history at hh
    rw [← ht, List.filterMap_append] at hh
    exact (List.append_cancel_left hh).symm
  rw [htr] at hev
  obtain ⟨l, hl, hown⟩ := List.mem_filterMap.mp hev
  obtain ⟨applied, rfl⟩ := Label.own_eq_some.mp hown
  obtain ⟨s₁, s₂, hrun⟩ := Run.exists_step_of_mem h ht.symm hl
  exact ⟨s₁, s₂, applied, hrun⟩

/-- A label of the trace was a step on the way. -/
theorem exists_step_of_mem {s : State ι E R α W A} (h : M.Reachable C w s) {l : Label ι E R A}
    (hl : l ∈ s.trace) :
    ∃ s₁ s₂, M.Reachable C w s₁ ∧ C s₁ l ∧ M.Step s₁ l s₂ ∧ M.Run C s₂ s :=
  Run.exists_step_of_mem h (by simp) hl

/-- **A call in the history of a task was a step on the way.** -/
theorem exists_step {s : State ι E R α W A} (h : M.Reachable C w s) {i : ι} {ev : Event E R}
    (hev : ev ∈ s.history i) :
    ∃ s₁ s₂ applied, M.Reachable C w s₁ ∧ C s₁ (.call i ev applied) ∧
      M.Step s₁ (.call i ev applied) s₂ ∧ M.Run C s₂ s :=
  Run.exists_step h (by simp) hev

/-- A task that has finished goes on with nothing. -/
theorem again_of_finished {s : State ι E R α W A} (h : M.Reachable C w s) {i : ι} {a : α}
    (ha : s.pool i = .finished a) : M.again i a = none := by
  refine invariant
    (I := fun s => ∀ i a, s.pool i = .finished a → M.again i a = none) ?_ ?_ h i a ha
  · intro i a ha
    cases ha
  · intro s l s' _ ih _ hl j b hb
    have hmoved : ∀ (i : ι) (t : Thread E R α), (∀ a, t = .finished a → M.again i a = none) →
        Function.update s.pool i t j = .finished b → M.again j b = none := by
      intro i t ht hj
      by_cases hij : j = i
      · subst hij
        rw [Function.update_self] at hj
        exact ht b hj
      · rw [Function.update_of_ne hij] at hj
        exact ih j b hj
    cases hl with
    | start i w hp hw => exact hmoved i _ (by simp) hb
    | call i e next r applied w hp hw => exact hmoved i _ (by simp) hb
    | pick i next c hp => exact hmoved i _ (by simp) hb
    | again i a p hp ha => exact hmoved i _ (by simp) hb
    | finish i a hp ha =>
      refine hmoved i _ ?_ hb
      rintro a' ⟨⟩
      exact ha
    | drop i p w hp hw => exact hmoved i _ (by simp) hb
    | env a w hw => exact ih j b hb

/-- A task whose programs never panic does not panic in any run. -/
theorem neverPanics_of_reachable {i : ι} (hmain : (M.main i).NeverPanics)
    (hagain : ∀ a p, M.again i a = some p → p.NeverPanics) {s : State ι E R α W A}
    (h : M.Reachable C w s) {p : Prog E R α} (hp : s.pool i = .running p) : p.NeverPanics := by
  refine invariant (I := fun s => ∀ p, s.pool i = .running p → p.NeverPanics) ?_ ?_ h p hp
  · intro p hp
    cases hp
  · intro s l s' _ ih _ hl p hp
    have hmoved : ∀ (j : ι) (t : Thread E R α),
        (∀ q, i = j → t = .running q → q.NeverPanics) →
        Function.update s.pool j t i = .running p → p.NeverPanics := by
      intro j t ht hi
      by_cases hij : i = j
      · subst hij
        rw [Function.update_self] at hi
        exact ht p rfl hi
      · rw [Function.update_of_ne hij] at hi
        exact ih p hi
    cases hl with
    | start j w hj hw =>
      refine hmoved j _ ?_ hp
      rintro q rfl ⟨⟩
      exact hmain
    | call j e next r applied w hj hw =>
      refine hmoved j _ ?_ hp
      rintro q rfl ⟨⟩
      exact (Prog.neverPanics_call e next).mp (ih _ hj) r
    | pick j next b hj =>
      refine hmoved j _ ?_ hp
      rintro q rfl ⟨⟩
      exact (Prog.neverPanics_pick next).mp (ih _ hj) b
    | again j a q hj ha =>
      refine hmoved j _ ?_ hp
      rintro q' rfl ⟨⟩
      exact hagain a q ha
    | finish j a hj ha => exact hmoved j _ (by simp) hp
    | drop j q w hj hw => exact hmoved j _ (by simp) hp
    | env a w hw => exact ih p hp

/-! ## Numbers that are given out once -/

/-- The calls that are answered with a number get the value of a counter, which they move on. -/
structure Issues (M : Machine ι E R α W A) (counter : W → ℕ) (issued : Event E R → Option ℕ) :
    Prop where
  mono : ∀ s l s', M.Step s l s' → counter s.world ≤ counter s'.world
  fresh : ∀ s i ev applied s' a, M.Step s (.call i ev applied) s' → issued ev = some a →
    a = counter s.world ∧ counter s.world < counter s'.world

section Issues

variable {counter : W → ℕ} {issued : Event E R → Option ℕ} {s : State ι E R α W A} {i j : ι}
  {ev ev' : Event E R} {a : ℕ}

/-- What was given out lies below the counter. -/
theorem Issues.lt (hissues : Issues M counter issued) (h : M.Reachable C w s)
    (hev : ev ∈ s.history i) (ha : issued ev = some a) : a < counter s.world := by
  revert hev
  refine invariant (I := fun s => ev ∈ s.history i → a < counter s.world) ?_ ?_ h
  · intro hev
    exact absurd hev List.not_mem_nil
  · intro s l s' _ ih _ hl hev
    rw [hl.history] at hev
    rcases List.mem_append.mp hev with hev | hev
    · exact Nat.lt_of_lt_of_le (ih hev) (hissues.mono s l s' hl)
    · have hown : Label.own i l = some ev := by simpa [eq_comm] using hev
      obtain ⟨applied, rfl⟩ := Label.own_eq_some.mp hown
      obtain ⟨rfl, hlt⟩ := hissues.fresh s i ev applied s' a hl ha
      exact hlt

/-- **Nobody is given a number that another task has.** -/
theorem Issues.owner (hissues : Issues M counter issued) (h : M.Reachable C w s)
    (hi : ev ∈ s.history i) (ha : issued ev = some a) (hj : ev' ∈ s.history j)
    (ha' : issued ev' = some a) : i = j := by
  revert hi hj
  refine invariant (I := fun s => ev ∈ s.history i → ev' ∈ s.history j → i = j) ?_ ?_ h
  · intro hi
    exact absurd hi List.not_mem_nil
  · intro s l s' hs ih _ hl hi hj
    rw [hl.history] at hi hj
    rcases List.mem_append.mp hi with hold | hnew
    · rcases List.mem_append.mp hj with hold' | hnew'
      · exact ih hold hold'
      · have hown : Label.own j l = some ev' := by simpa [eq_comm] using hnew'
        obtain ⟨applied, rfl⟩ := Label.own_eq_some.mp hown
        obtain ⟨rfl, -⟩ := hissues.fresh s j ev' applied s' a hl ha'
        exact absurd (hissues.lt hs hold ha) (Nat.lt_irrefl _)
    · have hown : Label.own i l = some ev := by simpa [eq_comm] using hnew
      obtain ⟨applied, rfl⟩ := Label.own_eq_some.mp hown
      rcases List.mem_append.mp hj with hold' | hnew'
      · obtain ⟨rfl, -⟩ := hissues.fresh s i ev applied s' a hl ha
        exact absurd (hissues.lt hs hold' ha') (Nat.lt_irrefl _)
      · by_contra hij
        simp [Label.own, hij] at hnew'

end Issues

/-! ## Protocols -/

/-- A promise of each task about its own calls and its own results. -/
structure Protocol (ι E : Type) (R : E → Type) (α : Type) where
  allows : ι → List (Event E R) → E → Prop
  ensures : ι → α → List (Event E R) → Prop

/-- Every call in the history was allowed when it was made. -/
def Lawful (allows : List (Event E R) → E → Prop) (h : List (Event E R)) : Prop :=
  ∀ h₁ ev h₂, h = h₁ ++ ev :: h₂ → allows h₁ ev.1

/-- The empty history is lawful. -/
theorem lawful_nil (allows : List (Event E R) → E → Prop) : Lawful allows [] := by
  intro h₁ ev h₂ h
  simp at h

/-- A lawful history stays lawful with one more call that it allows. -/
theorem Lawful.snoc {allows : List (Event E R) → E → Prop} {h : List (Event E R)}
    {ev : Event E R} (hl : Lawful allows h) (he : allows h ev.1) : Lawful allows (h ++ [ev]) := by
  intro h₁ ev' h₂ heq
  rcases List.eq_nil_or_concat h₂ with rfl | ⟨h₃, last, rfl⟩
  · obtain ⟨rfl, hev⟩ := List.append_inj' heq rfl
    cases hev
    exact he
  · have heq' : h ++ [ev] = (h₁ ++ ev' :: h₃) ++ [last] := by simpa using heq
    obtain ⟨rfl, -⟩ := List.append_inj' heq' rfl
    exact hl h₁ ev' h₃ rfl

/-- Each program, and each round of a loop, keeps the protocol. -/
structure Obeys (M : Machine ι E R α W A) (P : Protocol ι E R α) : Prop where
  main : ∀ i, (M.main i).wp (P.allows i) (P.ensures i) []
  again : ∀ i a p h, P.ensures i a h → M.again i a = some p → p.wp (P.allows i) (P.ensures i) h

/-- What the protocol says about one task in one state. -/
structure KeptBy (P : Protocol ι E R α) (s : State ι E R α W A) (i : ι) : Prop where
  lawful : Lawful (P.allows i) (s.history i)
  waiting : s.pool i = .waiting → s.history i = []
  running : ∀ p, s.pool i = .running p → p.wp (P.allows i) (P.ensures i) (s.history i)
  finished : ∀ a, s.pool i = .finished a → P.ensures i a (s.history i)

/-- A task that takes no part in a step stays as it was. -/
theorem KeptBy.frame {P : Protocol ι E R α} {s s' : State ι E R α W A} {i : ι}
    (h : KeptBy P s i) (hp : s'.pool i = s.pool i) (hh : s'.history i = s.history i) :
    KeptBy P s' i :=
  ⟨hh ▸ h.lawful, fun hw => hh ▸ h.waiting (hp ▸ hw), fun p hr => hh ▸ h.running p (hp ▸ hr),
    fun a hf => hh ▸ h.finished a (hp ▸ hf)⟩

/-- A task that goes on without a call. -/
theorem KeptBy.silent {P : Protocol ι E R α} {s : State ι E R α W A} {l : Label ι E R A} {w : W}
    {i : ι} {t : Thread E R α} (h : KeptBy P s i) (hl : Label.own i l = none) (hw : t ≠ .waiting)
    (hr : ∀ p, t = .running p → p.wp (P.allows i) (P.ensures i) (s.history i))
    (hf : ∀ a, t = .finished a → P.ensures i a (s.history i)) : KeptBy P (s.advance l w i t) i := by
  have hh : (s.advance l w i t).history i = s.history i := by
    simp [State.advance_history, hl]
  refine ⟨hh ▸ h.lawful, ?_, ?_, ?_⟩
  · intro hp; exact absurd (by simpa using hp) hw
  · intro p hp; rw [hh]; exact hr p (by simpa using hp)
  · intro a hp; rw [hh]; exact hf a (by simpa using hp)

/-- The tasks a step does not belong to. -/
theorem KeptBy.other {P : Protocol ι E R α} {s : State ι E R α W A} {l : Label ι E R A} {w : W}
    {i j : ι} {t : Thread E R α} (h : KeptBy P s j) (hj : j ≠ i) (hl : Label.own j l = none) :
    KeptBy P (s.advance l w i t) j :=
  h.frame (State.advance_pool_of_ne s l w t hj) (by simp [State.advance_history, hl])

/-- One step of the machine keeps the protocol of every task. -/
theorem Obeys.step {P : Protocol ι E R α} (ho : Obeys M P) {s s' : State ι E R α W A}
    {l : Label ι E R A} (hk : ∀ i, KeptBy P s i) (h : M.Step s l s') : ∀ i, KeptBy P s' i := by
  intro j
  cases h with
  | start i w hp hw =>
    by_cases hj : j = i
    · subst hj
      refine (hk j).silent rfl (by simp) ?_ (by simp)
      rintro p ⟨⟩
      rw [(hk j).waiting hp]
      exact ho.main j
    · exact (hk j).other hj rfl
  | call i e next r applied w hp hw =>
    by_cases hj : j = i
    · subst hj
      have hwp := (Prog.wp_call e next).mp ((hk j).running _ hp)
      have hh : (s.advance (.call j ⟨e, r⟩ applied) w j (.running (next r))).history j =
          s.history j ++ [⟨e, r⟩] := by simp [State.advance_history, Label.own]
      refine ⟨hh ▸ (hk j).lawful.snoc hwp.1, ?_, ?_, ?_⟩
      · intro hx; simp at hx
      · intro p hx
        have : p = next r := by simpa using hx.symm
        subst this
        rw [hh]
        exact hwp.2 r
      · intro a hx; simp at hx
    · exact (hk j).other hj (by simp [Label.own, Ne.symm hj])
  | pick i next b hp =>
    by_cases hj : j = i
    · subst hj
      refine (hk j).silent rfl (by simp) ?_ (by simp)
      rintro p ⟨⟩
      exact (Prog.wp_pick next).mp ((hk j).running _ hp) b
    · exact (hk j).other hj rfl
  | again i a p hp ha =>
    by_cases hj : j = i
    · subst hj
      refine (hk j).silent rfl (by simp) ?_ (by simp)
      rintro p' ⟨⟩
      exact ho.again j a p _ ((Prog.wp_done a).mp ((hk j).running _ hp)) ha
    · exact (hk j).other hj rfl
  | finish i a hp ha =>
    by_cases hj : j = i
    · subst hj
      refine (hk j).silent rfl (by simp) (by simp) ?_
      rintro a' ⟨⟩
      exact (Prog.wp_done a).mp ((hk j).running _ hp)
    · exact (hk j).other hj rfl
  | drop i p w hp hw =>
    by_cases hj : j = i
    · subst hj
      exact (hk j).silent rfl (by simp) (by simp) (by simp)
    · exact (hk j).other hj rfl
  | env a w hw =>
    exact (hk j).frame rfl (by simp [State.history, Label.own])

/-- **Soundness of protocols.**  In every state of every interleaving, whatever the
steps, each task has kept its protocol. -/
theorem Obeys.sound {P : Protocol ι E R α} (ho : Obeys M P) {s : State ι E R α W A}
    (h : M.Reachable C w s) (i : ι) : KeptBy P s i := by
  revert i
  refine invariant (I := fun s => ∀ i, KeptBy P s i) ?_ ?_ h
  · intro i
    exact ⟨lawful_nil _, fun _ => rfl, by simp, by simp⟩
  · intro s l s' _ hk _ hl
    exact ho.step hk hl

/-- The call a task makes next is one its protocol allows. -/
theorem Obeys.allowed {P : Protocol ι E R α} (ho : Obeys M P) {s : State ι E R α W A}
    (h : M.Reachable C w s) {i : ι} {e : E} {next : R e → Prog E R α}
    (hp : s.pool i = .running (.call e next)) : P.allows i (s.history i) e :=
  ((Prog.wp_call e next).mp ((ho.sound h i).running _ hp)).1

/-- A call that stands in the trace was allowed when it was made. -/
theorem Obeys.allowed_step {P : Protocol ι E R α} (ho : Obeys M P) {s s' : State ι E R α W A}
    (h : M.Reachable C w s) {i : ι} {ev : Event E R} {applied : Bool}
    (hl : M.Step s (.call i ev applied) s') : P.allows i (s.history i) ev.1 := by
  cases hl with
  | call i e next r applied w hp hw => exact ho.allowed h hp

/-! ## Runs given by a script -/

/-- What a script chooses for one step. -/
inductive Move (ι E : Type) (R : E → Type) (A : Type) : Type where
  | start (i : ι)
  | call (i : ι) (answer : (e : E) → Option (R e × Bool))
  | pick (i : ι) (b : Bool)
  | again (i : ι)
  | finish (i : ι)
  | drop (i : ι)
  | env (a : A)

/-- The label and the state a move leads to, when it is possible. -/
def move (M : Machine ι E R α W A) (s : State ι E R α W A) :
    Move ι E R A → Option (Label ι E R A × State ι E R α W A)
  | .start i => match s.pool i with
    | .waiting => (M.start i s.world).map fun w =>
        (.start i, s.advance (.start i) w i (.running (M.main i)))
    | _ => none
  | .call i answer => match s.pool i with
    | .running (.call e next) => match answer e with
      | some (r, applied) => (M.perform i s.world e r applied).map fun w =>
          (.call i ⟨e, r⟩ applied, s.advance (.call i ⟨e, r⟩ applied) w i (.running (next r)))
      | none => none
    | _ => none
  | .pick i b => match s.pool i with
    | .running (.pick next) => some (.pick i b, s.advance (.pick i b) s.world i (.running (next b)))
    | _ => none
  | .again i => match s.pool i with
    | .running (.done a) => (M.again i a).map fun p =>
        (.again i, s.advance (.again i) s.world i (.running p))
    | _ => none
  | .finish i => match s.pool i with
    | .running (.done a) => match M.again i a with
      | none => some (.finish i, s.advance (.finish i) (M.finish i s.world) i (.finished a))
      | some _ => none
    | _ => none
  | .drop i => match s.pool i with
    | .running _ => (M.drop i s.world).map fun w => (.drop i, s.advance (.drop i) w i .dropped)
    | _ => none
  | .env a => (M.env a s.world).map fun w => (.env a, { s with world := w, trace := s.trace ++ [.env a] })

/-- The state a script leads to, as long as `ok` holds of each of its steps. -/
def play (M : Machine ι E R α W A) (ok : State ι E R α W A → Label ι E R A → Bool)
    (s : State ι E R α W A) : List (Move ι E R A) → Option (State ι E R α W A)
  | [] => some s
  | m :: ms => match M.move s m with
    | some (l, s') => if ok s l then M.play ok s' ms else none
    | none => none

/-- What a move of a script does is a step. -/
theorem step_of_move {s s' : State ι E R α W A} {m : Move ι E R A} {l : Label ι E R A}
    (h : M.move s m = some (l, s')) : M.Step s l s' := by
  unfold move at h
  split at h
  case h_1 i =>
    split at h
    · next hp =>
      obtain ⟨w, hw, heq⟩ := Option.map_eq_some_iff.mp h
      cases heq
      exact .start s i w hp hw
    · cases h
  case h_2 i answer =>
    split at h
    · next e next hp =>
      split at h
      · next r applied _ =>
        obtain ⟨w, hw, heq⟩ := Option.map_eq_some_iff.mp h
        cases heq
        exact .call s i e next r applied w hp hw
      · cases h
    · cases h
  case h_3 i b =>
    split at h
    · next next hp => cases h; exact .pick s i next b hp
    · cases h
  case h_4 i =>
    split at h
    · next a hp =>
      obtain ⟨p, ha, heq⟩ := Option.map_eq_some_iff.mp h
      cases heq
      exact .again s i a p hp ha
    · cases h
  case h_5 i =>
    split at h
    · next a hp =>
      split at h
      · next ha => cases h; exact .finish s i a hp ha
      · cases h
    · cases h
  case h_6 i =>
    split at h
    · next p hp =>
      obtain ⟨w, hw, heq⟩ := Option.map_eq_some_iff.mp h
      cases heq
      exact .drop s i p w hp hw
    · cases h
  case h_7 a =>
    obtain ⟨w, hw, heq⟩ := Option.map_eq_some_iff.mp h
    cases heq
    exact .env s a w hw

/-- **A script that can be played is a run.** -/
theorem run_of_play {ok : State ι E R α W A → Label ι E R A → Bool} {s s' : State ι E R α W A}
    {ms : List (Move ι E R A)} (h : M.play ok s ms = some s') :
    M.Run (fun s l => ok s l = true) s s' := by
  induction ms generalizing s with
  | nil => cases h; exact .refl
  | cons m ms ih =>
    unfold play at h
    split at h
    · next l s₁ hm =>
      split at h
      · next hok => exact .head ⟨l, hok, step_of_move hm⟩ (ih h)
      · cases h
    · cases h

/-- A script, a check that implies the condition, and what one can see of the state the script
leads to. -/
theorem exists_run_of_play_if {C : State ι E R α W A → Label ι E R A → Prop}
    {ok : State ι E R α W A → Label ι E R A → Bool} (hok : ∀ s l, ok s l = true → C s l)
    {β : Type} (view : State ι E R α W A → β) {s : State ι E R α W A} (ms : List (Move ι E R A))
    {b : β} (h : (M.play ok s ms).map view = some b) : ∃ s', M.Run C s s' ∧ view s' = b := by
  obtain ⟨s', hs', hb⟩ := Option.map_eq_some_iff.mp h
  exact ⟨s', (run_of_play hs').mono hok, hb⟩

/-- A script and what one can see of the state it leads to. -/
theorem exists_run_of_play {β : Type} (view : State ι E R α W A → β) {s : State ι E R α W A}
    (ms : List (Move ι E R A)) {b : β} (h : (M.play (fun _ _ => true) s ms).map view = some b) :
    ∃ s', M.Run (fun _ _ => True) s s' ∧ view s' = b :=
  exists_run_of_play_if (fun _ _ _ => trivial) view ms h

/-- Two scripts, one after the other, a check of the second one, and what one can see of the states
they lead to. -/
theorem exists_runs_of_play_if {C : State ι E R α W A → Label ι E R A → Prop}
    {ok : State ι E R α W A → Label ι E R A → Bool} (hok : ∀ s l, ok s l = true → C s l)
    {β : Type} (view : State ι E R α W A → State ι E R α W A → β) {s : State ι E R α W A}
    (ms ms' : List (Move ι E R A)) {b : β}
    (h : ((M.play (fun _ _ => true) s ms).bind fun s₁ =>
      (M.play ok s₁ ms').map (view s₁)) = some b) :
    ∃ s₁ s₂, M.Run (fun _ _ => True) s s₁ ∧ M.Run C s₁ s₂ ∧ view s₁ s₂ = b := by
  obtain ⟨s₁, hs₁, h'⟩ := Option.bind_eq_some_iff.mp h
  obtain ⟨s₂, hs₂, hb⟩ := Option.map_eq_some_iff.mp h'
  exact ⟨s₁, s₂, (run_of_play hs₁).mono fun _ _ _ => trivial, (run_of_play hs₂).mono hok, hb⟩

/-- Two scripts, one after the other, and what one can see of the states they lead to. -/
theorem exists_runs_of_play {β : Type} (view : State ι E R α W A → State ι E R α W A → β)
    {s : State ι E R α W A} (ms ms' : List (Move ι E R A)) {b : β}
    (h : ((M.play (fun _ _ => true) s ms).bind fun s₁ =>
      (M.play (fun _ _ => true) s₁ ms').map (view s₁)) = some b) :
    ∃ s₁ s₂, M.Run (fun _ _ => True) s s₁ ∧ M.Run (fun _ _ => True) s₁ s₂ ∧ view s₁ s₂ = b :=
  exists_runs_of_play_if (fun _ _ _ => trivial) view ms ms' h

end Machine

end Terrashine.Library
