import Terrashine.Library.Machine

/-!
# Tasks that run alone

Programs end on every path, so a task whose calls can all be answered comes to the end of its
program in a run in which no other task moves: `exists_end`.  Which calls it can make is told by a
protocol that its program keeps, and `K` is what holds of its history and the world at each of
them.
-/

set_option autoImplicit false

namespace Terrashine.Library

namespace Machine

variable {ι E : Type} {R : E → Type} {α W A : Type} [DecidableEq ι] {M : Machine ι E R α W A}
  {C : State ι E R α W A → Label ι E R A → Prop}

/-- Only task `i` has moved. -/
structure Alone (M : Machine ι E R α W A) (C : State ι E R α W A → Label ι E R A → Prop) (i : ι)
    (s s' : State ι E R α W A) : Prop where
  run : M.Run C s s'
  pool : ∀ j, j ≠ i → s'.pool j = s.pool j

/-- A task that does nothing is alone. -/
theorem Alone.refl (i : ι) (s : State ι E R α W A) : Alone M C i s s := ⟨.refl, fun _ _ => rfl⟩

/-- Two runs of one task alone make one. -/
theorem Alone.trans {i : ι} {s₁ s₂ s₃ : State ι E R α W A} (h : Alone M C i s₁ s₂)
    (h' : Alone M C i s₂ s₃) : Alone M C i s₁ s₃ :=
  ⟨h.run.trans h'.run, fun j hj => (h'.pool j hj).trans (h.pool j hj)⟩

/-- A single step of the task is such a run. -/
theorem Alone.step {i : ι} {s : State ι E R α W A} {l : Label ι E R A} {w : W} {t : Thread E R α}
    (hc : C s l) (hl : M.Step s l (s.advance l w i t)) : Alone M C i s (s.advance l w i t) :=
  ⟨.single ⟨l, hc, hl⟩, fun _ hj => s.advance_pool_of_ne l w t hj⟩

/-- What a call adds to the history of its task. -/
theorem history_call (s : State ι E R α W A) (i : ι) (ev : Event E R) (applied : Bool) (w : W)
    (t : Thread E R α) :
    (s.advance (.call i ev applied) w i t).history i = s.history i ++ [ev] := by
  rw [State.advance_history]
  simp [Label.own]

/-! ## One step of a task -/

/-- A task that waits can be started alone. -/
theorem exists_start {i : ι} {s : State ι E R α W A} {w : W} (hc : C s (.start i))
    (hpool : s.pool i = .waiting) (hw : M.start i s.world = some w) :
    ∃ s', Alone M C i s s' ∧ s'.world = w ∧ s'.pool i = .running (M.main i) :=
  ⟨_, .step hc (.start s i w hpool hw), rfl, s.advance_pool_self _ w i _⟩

/-- A call that the world answers can be made alone. -/
theorem exists_call {i : ι} {s : State ι E R α W A} {e : E} {next : R e → Prog E R α} {r : R e}
    {applied : Bool} {w : W} (hc : C s (.call i ⟨e, r⟩ applied))
    (hpool : s.pool i = .running (.call e next)) (hw : M.perform i s.world e r applied = some w) :
    ∃ s', Alone M C i s s' ∧ s'.world = w ∧ s'.pool i = .running (next r) :=
  ⟨_, .step hc (.call s i e next r applied w hpool hw), rfl, s.advance_pool_self _ w i _⟩

/-- A task that goes on with another round can do so alone. -/
theorem exists_again {i : ι} {s : State ι E R α W A} {a : α} {p : Prog E R α} (hc : C s (.again i))
    (hpool : s.pool i = .running (.done a)) (ha : M.again i a = some p) :
    ∃ s', Alone M C i s s' ∧ s'.world = s.world ∧ s'.pool i = .running p :=
  ⟨_, .step hc (.again s i a p hpool ha), rfl, s.advance_pool_self _ s.world i _⟩

/-- A task that is done can finish alone. -/
theorem exists_finish {i : ι} {s : State ι E R α W A} {a : α} (hc : C s (.finish i))
    (hpool : s.pool i = .running (.done a)) (ha : M.again i a = none) :
    ∃ s', Alone M C i s s' ∧ s'.world = M.finish i s.world ∧ s'.pool i = .finished a :=
  ⟨_, .step hc (.finish s i a hpool ha), rfl, s.advance_pool_self _ _ i _⟩

/-- A move of the environment leaves all tasks where they are. -/
theorem exists_env {s : State ι E R α W A} {a : A} {w : W} (hc : C s (.env a))
    (hw : M.env a s.world = some w) :
    ∃ s', M.Run C s s' ∧ s'.world = w ∧ s'.pool = s.pool ∧ ∀ i, s'.history i = s.history i :=
  ⟨_, .single ⟨_, hc, .env s a w hw⟩, rfl, rfl, fun i => by simp [State.history, Label.own]⟩

/-- A task that nobody drops is never dropped. -/
theorem not_dropped {i : ι} {w : W} {s : State ι E R α W A} (h : M.Reachable C w s)
    (hdrop : ∀ w, M.drop i w = none) : s.pool i ≠ .dropped := by
  refine invariant (I := fun s => s.pool i ≠ .dropped) (by simp) ?_ h
  intro s l s' _ ih _ hl
  have hmoved : ∀ (j : ι) (l : Label ι E R A) (w : W) (t : Thread E R α),
      (j = i → t ≠ .dropped) → (s.advance l w j t).pool i ≠ .dropped := by
    intro j l w t ht
    by_cases hj : j = i
    · subst hj
      rw [State.advance_pool_self]
      exact ht rfl
    · rw [State.advance_pool_of_ne s l w t (Ne.symm hj)]
      exact ih
  cases hl with
  | drop j p w hp hw =>
    apply hmoved
    rintro rfl
    rw [hdrop] at hw
    cases hw
  | env m w hw => exact ih
  | _ => exact hmoved _ _ _ _ fun _ => by simp

/-! ## A program to its end -/

/-- **A task whose calls can be answered comes to the end of its program**, on its own. -/
theorem exists_end {i : ι} {φ : List (Event E R) → E → Prop} {Q : α → List (Event E R) → Prop}
    {K : List (Event E R) → W → Prop} (hcall : ∀ s ev applied, C s (.call i ev applied))
    (hpick : ∀ s b, C s (.pick i b))
    (hanswer : ∀ h e w, φ h e → K h w → ∃ r applied w', M.perform i w e r applied = some w' ∧
      K (h ++ [⟨e, r⟩]) w')
    {p : Prog E R α} {s : State ι E R α W A} (hpool : s.pool i = .running p)
    (hp : p.wp φ Q (s.history i)) (hK : K (s.history i) s.world) :
    ∃ s', Alone M C i s s' ∧ K (s'.history i) s'.world ∧
      ((∃ a, s'.pool i = .running (.done a) ∧ Q a (s'.history i)) ∨
        ¬ p.NeverPanics ∧ ∃ m, s'.pool i = .running (.panicked m)) := by
  induction p generalizing s with
  | done a => exact ⟨s, .refl i s, hK, .inl ⟨a, hpool, (Prog.wp_done a).mp hp⟩⟩
  | panicked m => exact ⟨s, .refl i s, hK, .inr ⟨(Prog.neverPanics_panicked m).mp, m, hpool⟩⟩
  | pick next ih =>
    have hstep := Step.pick (M := M) s i next true hpool
    have hhistory : (s.advance (.pick i true) s.world i (.running (next true))).history i =
        s.history i := by
      rw [State.advance_history]
      simp [Label.own]
    obtain ⟨s', halone, hK', hend⟩ := ih true (State.advance_pool_self s _ s.world i _)
      (by rw [hhistory]; exact (Prog.wp_pick next).mp hp true) (by rw [hhistory]; exact hK)
    refine ⟨s', (Alone.step (hpick s true) hstep).trans halone, hK', ?_⟩
    rcases hend with hdone | ⟨hpanics, hpanicked⟩
    · exact .inl hdone
    · exact .inr ⟨fun h => hpanics ((Prog.neverPanics_pick next).mp h true), hpanicked⟩
  | call e next ih =>
    obtain ⟨he, hnext⟩ := (Prog.wp_call e next).mp hp
    obtain ⟨r, applied, w, hw, hKw⟩ := hanswer _ e s.world he hK
    have hstep := Step.call (M := M) s i e next r applied w hpool hw
    have hhistory := history_call s i ⟨e, r⟩ applied w (.running (next r))
    obtain ⟨s', halone, hK', hend⟩ := ih r (State.advance_pool_self s _ w i _)
      (by rw [hhistory]; exact hnext r) (by rw [hhistory]; exact hKw)
    refine ⟨s', (Alone.step (hcall s _ applied) hstep).trans halone, hK', ?_⟩
    rcases hend with hdone | ⟨hpanics, hpanicked⟩
    · exact .inl hdone
    · exact .inr ⟨fun h => hpanics ((Prog.neverPanics_call e next).mp h r), hpanicked⟩

end Machine

end Terrashine.Library
