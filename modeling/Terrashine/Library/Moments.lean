import Terrashine.Library.Machine

/-!
# Moments in the life of a task

A step lies within the life of a task when the task has been started by the end of it and has
not finished before it; every call of the task is such a step, `within_of_mem`.  A trace
determines the state it leads to, so of two tasks one of which had finished before the other
was started, the first has all its moments before the second: `Within.before`.

`Simulates` is about an abstract view of the states: each step of the machine is a step of the
view, or the view stays.  What every step of the view preserves, every run of the machine
preserves, `Simulates.relates`.
-/

set_option autoImplicit false

namespace Terrashine.Library

namespace Machine

variable {ι E : Type} {R : E → Type} {α W A : Type} [DecidableEq ι] {M : Machine ι E R α W A}
  {C : State ι E R α W A → Label ι E R A → Prop} {w : W}

/-! ## Traces determine states -/

/-- A label leaves no choice. -/
theorem Step.deterministic {s s₁ s₂ : State ι E R α W A} {l : Label ι E R A} (h₁ : M.Step s l s₁)
    (h₂ : M.Step s l s₂) : s₁ = s₂ := by
  cases h₁ with
  | start i w hp hw =>
    cases h₂ with
    | start _ w' hp' hw' =>
      rw [hw] at hw'
      cases hw'
      rfl
  | call i e next r applied w hp hw =>
    cases h₂ with
    | call _ _ next' _ _ w' hp' hw' =>
      rw [hp] at hp'
      cases hp'
      rw [hw] at hw'
      cases hw'
      rfl
  | pick i next b hp =>
    cases h₂ with
    | pick _ next' _ hp' =>
      rw [hp] at hp'
      cases hp'
      rfl
  | again i a p hp ha =>
    cases h₂ with
    | again _ a' p' hp' ha' =>
      rw [hp] at hp'
      cases hp'
      rw [ha] at ha'
      cases ha'
      rfl
  | finish i a hp ha =>
    cases h₂ with
    | finish _ a' hp' ha' =>
      rw [hp] at hp'
      cases hp'
      rfl
  | drop i p w hp hw =>
    cases h₂ with
    | drop _ p' w' hp' hw' =>
      rw [hw] at hw'
      cases hw'
      rfl
  | env a w hw =>
    cases h₂ with
    | env _ w' hw' =>
      rw [hw] at hw'
      cases hw'
      rfl

/-- **Two reachable states with the same trace are the same.** -/
theorem eq_of_trace {s s' : State ι E R α W A} (h : M.Reachable C w s) (h' : M.Reachable C w s')
    (htrace : s.trace = s'.trace) : s = s' := by
  induction h generalizing s' with
  | refl =>
    cases h' with
    | refl => rfl
    | tail hr hl =>
      obtain ⟨l, -, hl⟩ := hl
      rw [hl.trace] at htrace
      simp at htrace
  | tail hr hl ih =>
    obtain ⟨l, -, hl⟩ := hl
    cases h' with
    | refl =>
      rw [hl.trace] at htrace
      simp at htrace
    | tail hr' hl' =>
      obtain ⟨l', -, hl'⟩ := hl'
      rw [hl.trace, hl'.trace] at htrace
      obtain ⟨hsame, hlast⟩ := List.append_inj' htrace rfl
      cases hlast
      rw [ih hr' hsame] at hl
      exact hl.deterministic hl'

/-- A state that knows all that an earlier one did comes after it. -/
theorem run_of_prefix {s s' : State ι E R α W A} (h : M.Reachable C w s) (h' : M.Reachable C w s')
    (htrace : s.trace <+: s'.trace) : M.Run C s s' := by
  induction h' with
  | refl =>
    have hnil : s.trace = [] := List.prefix_nil.mp htrace
    rw [eq_of_trace h .refl hnil]
  | tail hr hl ih =>
    obtain ⟨l, hc, hl⟩ := hl
    have htrace' := htrace
    rw [hl.trace, List.prefix_concat_iff] at htrace'
    rcases htrace' with heq | hold
    · rw [eq_of_trace h (.tail hr ⟨l, hc, hl⟩) (heq.trans hl.trace.symm)]
    · exact (ih hold).tail ⟨l, hc, hl⟩

/-- A call in the history of a task was made when the history ended before it. -/
theorem exists_step_after {s : State ι E R α W A} (h : M.Reachable C w s) {i : ι}
    {h₁ h₂ : List (Event E R)} {ev : Event E R} (hh : s.history i = h₁ ++ ev :: h₂) :
    ∃ s₁ s₂ applied, M.Reachable C w s₁ ∧ C s₁ (.call i ev applied) ∧
      M.Step s₁ (.call i ev applied) s₂ ∧ M.Run C s₂ s ∧ s₁.history i = h₁ := by
  induction h generalizing h₂ with
  | refl =>
    rw [initial_history] at hh
    exact absurd hh.symm (by simp)
  | @tail s₀ s hr hstep ih =>
    obtain ⟨l, hc, hl⟩ := hstep
    have hhistory := hl.history i
    rw [hh] at hhistory
    cases hown : Label.own i l with
    | none =>
      rw [hown, Option.toList_none, List.append_nil] at hhistory
      obtain ⟨s₁, s₂, applied, hs₁, hc₁, hl₁, hlater, hbefore⟩ := ih hhistory.symm
      exact ⟨s₁, s₂, applied, hs₁, hc₁, hl₁, hlater.tail ⟨l, hc, hl⟩, hbefore⟩
    | some last =>
      rw [hown, Option.toList_some] at hhistory
      rcases List.eq_nil_or_concat' h₂ with rfl | ⟨h₂, last', rfl⟩
      · obtain ⟨hbefore, hev⟩ := List.append_inj' hhistory rfl
        obtain rfl := (List.cons_eq_cons.mp hev).1
        obtain ⟨applied, rfl⟩ := Label.own_eq_some.mp hown
        exact ⟨s₀, s, applied, hr, hc, hl, .refl, hbefore.symm⟩
      · rw [← List.cons_append, ← List.append_assoc] at hhistory
        obtain ⟨hbefore, -⟩ := List.append_inj' hhistory rfl
        obtain ⟨s₁, s₂, applied, hs₁, hc₁, hl₁, hlater, hsplit⟩ := ih hbefore.symm
        exact ⟨s₁, s₂, applied, hs₁, hc₁, hl₁, hlater.tail ⟨l, hc, hl⟩, hsplit⟩

/-! ## Started and finished tasks -/

/-- The trace shows where the task stands. -/
structure Staged (s : State ι E R α W A) (i : ι) : Prop where
  started : s.pool i ≠ .waiting → Label.start i ∈ s.trace
  finished : Label.finish i ∈ s.trace ↔ ∃ a, s.pool i = .finished a

/-- A task that takes the step. -/
theorem Staged.moves {s : State ι E R α W A} {i : ι} (h : Staged s i) {l : Label ι E R A} {w : W}
    {t : Thread E R α} (hl : l ≠ .finish i) (hp : ∀ a, s.pool i ≠ .finished a)
    (hstart : s.pool i = .waiting → l = .start i) (ht : ∀ a, t ≠ .finished a) :
    Staged (s.advance l w i t) i := by
  constructor
  · intro _
    rw [State.advance_trace]
    by_cases hw : s.pool i = .waiting
    · exact List.mem_append_right _ (List.mem_singleton.mpr (hstart hw).symm)
    · exact List.mem_append_left _ (h.started hw)
  · rw [State.advance_trace, State.advance_pool_self, List.mem_append, List.mem_singleton]
    constructor
    · rintro (hold | hnew)
      · obtain ⟨a, ha⟩ := h.finished.mp hold
        exact absurd ha (hp a)
      · exact absurd hnew.symm hl
    · rintro ⟨a, ha⟩
      exact absurd ha (ht a)

omit [DecidableEq ι] in
/-- A task that does not take the step. -/
theorem Staged.stays {s s' : State ι E R α W A} {i : ι} (h : Staged s i) {l : Label ι E R A}
    (htrace : s'.trace = s.trace ++ [l]) (hp : s'.pool i = s.pool i) (hl : l ≠ .finish i) :
    Staged s' i := by
  constructor
  · intro hw
    rw [hp] at hw
    rw [htrace]
    exact List.mem_append_left _ (h.started hw)
  · rw [htrace, hp, List.mem_append, List.mem_singleton]
    constructor
    · rintro (hold | hnew)
      · exact h.finished.mp hold
      · exact absurd hnew.symm hl
    · intro hfin
      exact .inl (h.finished.mpr hfin)

/-- A step keeps the trace and the stage of a task together. -/
theorem Staged.step {s s' : State ι E R α W A} {l : Label ι E R A} {i : ι} (h : Staged s i)
    (hl : M.Step s l s') : Staged s' i := by
  have hmoves : ∀ (j : ι) (l : Label ι E R A) (w : W) (t : Thread E R α), l ≠ .finish i →
      (i = j → (∀ a, s.pool j ≠ .finished a) ∧ (s.pool j = .waiting → l = .start j) ∧
        ∀ a, t ≠ .finished a) → Staged (s.advance l w j t) i := by
    intro j l w t hne hself
    by_cases hij : i = j
    · subst hij
      obtain ⟨hp, hstart, ht⟩ := hself rfl
      exact h.moves hne hp hstart ht
    · exact h.stays rfl (State.advance_pool_of_ne s l w t hij) hne
  cases hl with
  | start j w hp hw =>
    refine hmoves j _ w _ (by simp) fun _ => ⟨?_, fun _ => rfl, by simp⟩
    intro a ha
    rw [hp] at ha
    cases ha
  | call j e next r applied w hp hw =>
    refine hmoves j _ w _ (by simp) fun _ => ⟨?_, ?_, by simp⟩ <;> simp [hp]
  | pick j next b hp =>
    refine hmoves j _ _ _ (by simp) fun _ => ⟨?_, ?_, by simp⟩ <;> simp [hp]
  | again j a p hp ha =>
    refine hmoves j _ _ _ (by simp) fun _ => ⟨?_, ?_, by simp⟩ <;> simp [hp]
  | finish j a hp ha =>
    by_cases hij : i = j
    · subst hij
      constructor
      · intro _
        exact List.mem_append_left _ (h.started (by simp [hp]))
      · simp
    · exact h.stays rfl (State.advance_pool_of_ne s _ _ _ hij) (by simpa using Ne.symm hij)
  | drop j p w hp hw =>
    refine hmoves j _ w _ (by simp) fun _ => ⟨?_, ?_, by simp⟩ <;> simp [hp]
  | env a w hw => exact h.stays rfl rfl (by simp)

/-- In a reachable state the trace shows where every task stands. -/
theorem staged_of_reachable {s : State ι E R α W A} (h : M.Reachable C w s) (i : ι) :
    Staged s i := by
  refine invariant (I := fun s => Staged s i) ?_ ?_ h
  · exact ⟨fun hw => absurd rfl hw, by simp⟩
  · intro s l s' _ ih _ hl
    exact ih.step hl

/-! ## Moments -/

/-- The step from `s₁` to `s₂`, on the way to `s`, lies within the life of task `i`. -/
structure Within (M : Machine ι E R α W A) (C : State ι E R α W A → Label ι E R A → Prop) (w : W)
    (i : ι) (s₁ : State ι E R α W A) (l : Label ι E R A) (s₂ s : State ι E R α W A) : Prop where
  reachable : M.Reachable C w s₁
  meets : C s₁ l
  step : M.Step s₁ l s₂
  later : M.Run C s₂ s
  started : Label.start i ∈ s₂.trace
  unfinished : Label.finish i ∉ s₁.trace

/-- A call of the task. -/
theorem within_of_mem {s : State ι E R α W A} (h : M.Reachable C w s) {i : ι} {ev : Event E R}
    (hev : ev ∈ s.history i) :
    ∃ s₁ s₂ applied, Within M C w i s₁ (.call i ev applied) s₂ s := by
  obtain ⟨s₁, s₂, applied, hs₁, hc, hl, hlater⟩ := exists_step h hev
  have hstaged := staged_of_reachable hs₁ i
  refine ⟨s₁, s₂, applied, hs₁, hc, hl, hlater, ?_, ?_⟩
  · rw [hl.trace]
    cases hl with
    | call i e next r applied w hp hw =>
      exact List.mem_append_left _ (hstaged.started (by simp [hp]))
  · intro hfin
    obtain ⟨a, ha⟩ := hstaged.finished.mp hfin
    cases hl with
    | call i e next r applied w hp hw =>
      rw [hp] at ha
      cases ha

/-- The start of the task. -/
theorem within_of_started {s : State ι E R α W A} (h : M.Reachable C w s) {i : ι}
    (hp : s.pool i ≠ .waiting) : ∃ s₁ s₂, Within M C w i s₁ (.start i) s₂ s := by
  obtain ⟨s₁, s₂, hs₁, hc, hl, hlater⟩ :=
    exists_step_of_mem h ((staged_of_reachable h i).started hp)
  refine ⟨s₁, s₂, hs₁, hc, hl, hlater, ?_, ?_⟩
  · rw [hl.trace]
    exact List.mem_append_right _ (List.mem_singleton_self _)
  · intro hfin
    obtain ⟨a, ha⟩ := (staged_of_reachable hs₁ i).finished.mp hfin
    cases hl with
    | start i w hwaiting hw =>
      rw [hwaiting] at ha
      cases ha

/-- **Moments keep the order of time.**  When task `i` has finished before task `j` is started,
every moment of `i` comes before every moment of `j`. -/
theorem Within.before {s s₁ s₂ t₁ t₂ : State ι E R α W A} {l l' : Label ι E R A} {i j : ι}
    (hi : Within M C w i s₁ l s₂ s) (hj : Within M C w j t₁ l' t₂ s)
    {past future : List (Label ι E R A)} (htrace : s.trace = past ++ future)
    (hfinished : Label.finish i ∈ past) (hstarted : Label.start j ∉ past) : M.Run C s₂ t₁ := by
  have hs₂ : M.Reachable C w s₂ := hi.reachable.tail ⟨l, hi.meets, hi.step⟩
  have hpast : past <+: s.trace := htrace ▸ List.prefix_append _ _
  -- the moment of `i` ends within the past, and that of `j` begins after it
  have hends : s₂.trace <+: past := by
    rcases List.prefix_or_prefix_of_prefix (Run.trace_prefix hi.later) hpast with hp | hp
    · exact hp
    · rw [hi.step.trace, List.prefix_concat_iff] at hp
      rcases hp with heq | hold
      · exact (hi.step.trace.trans heq.symm) ▸ List.prefix_refl _
      · exact absurd (hold.subset hfinished) hi.unfinished
  have hbegins : past <+: t₁.trace := by
    rcases List.prefix_or_prefix_of_prefix (Run.trace_prefix hj.later) hpast with hp | hp
    · exact absurd (hp.subset hj.started) hstarted
    · rw [hj.step.trace, List.prefix_concat_iff] at hp
      rcases hp with heq | hold
      · have hmem := hj.started
        rw [hj.step.trace, ← heq] at hmem
        exact absurd hmem hstarted
      · exact hold
  exact run_of_prefix hs₂ hj.reachable (hends.trans hbegins)

/-! ## Abstract views -/

section View

variable {V : Type}

/-- Each step of the machine is one of the view's, or the view stays as it is. -/
structure Simulates (M : Machine ι E R α W A) (C : State ι E R α W A → Label ι E R A → Prop) (w : W)
    (view : State ι E R α W A → V) (moves : Label ι E R A → V → V → Prop) : Prop where
  step : ∀ s l s', M.Reachable C w s → C s l → M.Step s l s' →
    view s' = view s ∨ moves l (view s) (view s')

variable {view : State ι E R α W A → V} {moves : Label ι E R A → V → V → Prop}

/-- **What the moves of the view preserve, all runs preserve.** -/
theorem Simulates.relates (h : Simulates M C w view moves) {r : V → V → Prop}
    (hrefl : ∀ v, r v v) (htrans : ∀ v₁ v₂ v₃, r v₁ v₂ → r v₂ v₃ → r v₁ v₃)
    (hmoves : ∀ l v v', moves l v v' → r v v') {s s' : State ι E R α W A}
    (hs : M.Reachable C w s) (hl : M.Run C s s') : r (view s) (view s') := by
  induction hl with
  | refl => exact hrefl _
  | tail hr hstep ih =>
    obtain ⟨l, hc, hl⟩ := hstep
    rcases h.step _ l _ (hs.trans hr) hc hl with hsame | hmove
    · rw [hsame]
      exact ih
    · exact htrans _ _ _ ih (hmoves l _ _ hmove)

end View

end Machine

end Terrashine.Library
