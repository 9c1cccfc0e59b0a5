import Terrashine.Analysis.Effects
import Terrashine.Library.Moments

/-!
# The clock

Nothing sets the clock back, and a look at it shows what it says at that moment: so the readings of
a task come in the order of time, and what was read between two moments lies between what the clock
said at the two.
-/

set_option autoImplicit false

namespace Terrashine.Analysis

open Terrashine.Library Terrashine.Model Terrashine.Interface

/-- What a look at the clock has shown. -/
def reading : IoEvent → Option ℕ
  | ⟨.instantNow, now⟩ => some now
  | _ => none

/-- A reading is a look at the clock. -/
theorem reading_eq_some {ev : IoEvent} {now : ℕ} :
    reading ev = some now ↔ ev = ⟨.instantNow, now⟩ := by
  constructor
  · intro h
    obtain ⟨c, r⟩ := ev
    cases c <;> cases h
    rfl
  · rintro rfl
    rfl

section Clock

variable {D : Deployment} {s s' : DeploymentState} {l : DeploymentLabel} {i : Task}

/-- No step turns the clock back. -/
theorem clock_step (hl : D.machine.Step s l s') : s.world.clock ≤ s'.world.clock := by
  cases hl with
  | start i w hp hw =>
    have hw' : Deployment.start D i s.world = some w := hw
    unfold Deployment.start at hw'
    split at hw'
    · dsimp only at hw'
      split at hw'
      · cases hw'
        exact Nat.le_refl _
      · cases hw'
    · cases hw'
      exact Nat.le_refl _
  | call i e next r applied w hp hw => exact Nat.le_of_eq (perform_frame hw).clock.symm
  | pick i next b hp => exact Nat.le_refl _
  | again i a p hp ha => exact Nat.le_refl _
  | finish i a hp ha => cases i <;> exact Nat.le_refl _
  | drop i p w hp hw =>
    have hw' : Deployment.drop D i s.world = some w := hw
    cases i with
    | request n =>
      cases hw'
      exact Nat.le_refl _
    | _ => cases hw'
  | env m w hw =>
    have hw' : Deployment.envMove m s.world = some w := hw
    unfold Deployment.envMove at hw'
    split at hw'
    · cases hw'
      exact Nat.le_refl _
    · dsimp only at hw'
      split at hw'
      · cases hw'
        exact Nat.le_refl _
      · cases hw'
    · cases hw'
      exact Nat.le_add_right _ _
    · cases hw'
      exact Nat.le_refl _

/-- No run turns the clock back. -/
theorem clock_run (h : D.Leads s s') : s.world.clock ≤ s'.world.clock := by
  induction h with
  | refl => exact Nat.le_refl _
  | tail _ hl ih =>
    obtain ⟨l, -, hl⟩ := hl
    exact ih.trans (clock_step hl)

/-- Who looks at the clock sees its time. -/
theorem reading_of_step {now : ℕ} {applied : Bool}
    (hl : D.machine.Step s (.call i ⟨.instantNow, now⟩ applied) s') : now = s.world.clock := by
  have hw := perform_of_step hl
  unfold World.perform at hw
  dsimp only at hw
  split at hw
  · next heq => exact heq
  · cases hw

/-- **What is read between two moments** lies between what the clock says at the two. -/
theorem reading_between (h : D.Leads s s') {tr : List IoEvent}
    (hh : s'.history i = s.history i ++ tr) {now : ℕ}
    (hread : (⟨.instantNow, now⟩ : IoEvent) ∈ tr) :
    s.world.clock ≤ now ∧ now ≤ s'.world.clock := by
  obtain ⟨s₁, s₂, applied, hbefore, -, hl, hafter⟩ := Machine.Run.exists_step h hh hread
  rw [reading_of_step hl]
  exact ⟨clock_run hbefore, (clock_step hl).trans (clock_run hafter)⟩

/-- **The readings of a task never go back.** -/
theorem readings_ordered (hs : D.Reachable s) (i : Task) :
    ((s.history i).filterMap reading).Pairwise (· ≤ ·) := by
  refine Machine.invariant (I := fun s => ((s.history i).filterMap reading).Pairwise (· ≤ ·))
    List.Pairwise.nil ?_ hs
  intro s l s' hs ih _ hl
  rw [hl.history, List.filterMap_append, List.pairwise_append]
  refine ⟨ih, ?_, ?_⟩
  · cases Label.own i l with
    | none => exact List.Pairwise.nil
    | some ev => cases hread : reading ev <;> simp [hread]
  · intro earlier hearlier later hlater
    obtain ⟨ev, hev, hread⟩ := List.mem_filterMap.mp hlater
    obtain ⟨applied, rfl⟩ := Label.own_eq_some.mp (Option.mem_toList.mp hev)
    cases reading_eq_some.mp hread
    rw [reading_of_step hl]
    obtain ⟨ev, hev, hread⟩ := List.mem_filterMap.mp hearlier
    cases reading_eq_some.mp hread
    exact (reading_between hs (List.nil_append _).symm hev).2

end Clock

end Terrashine.Analysis
