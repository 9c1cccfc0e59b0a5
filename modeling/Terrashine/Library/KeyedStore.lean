import Mathlib.Logic.Function.Basic
import Mathlib.Data.List.Induction

/-!
# Stores that keep values under keys

A specification of such a store by its history: what is found under a key is what the last
successful write to that key left there.  A store implements it when every single step
does what the specification says from what the store holds; then every answer of a whole
session is the one that the history before it calls for, and two stores that implement the
same specification answer alike.
-/

set_option autoImplicit false

namespace Terrashine.Library

/-- What operations do: the key they are about, what they leave there unless they only read,
and the answer from what they find there. -/
structure KeyedSpec (Op Ans κ β : Type) where
  key : Op → κ
  write : Op → Option (Option β)
  answer : Op → Option β → Ans

/-- An operation that was tried, and its answer. -/
structure Attempt (Op ε Ans : Type) where
  op : Op
  failed : Bool
  answer : Except ε Ans

/-- A store: the states it may start from, what it holds, and its steps. -/
structure KeyedStore (Op ε Ans κ β σ : Type) where
  initial : σ → Prop
  content : σ → κ → Option β
  step : σ → Attempt Op ε Ans → σ → Prop

section

variable {Op ε Ans κ β σ τ : Type} [DecidableEq κ]

namespace KeyedSpec

variable (spec : KeyedSpec Op Ans κ β)

/-- The last successful write to the key. -/
def lastWrite (past : List (Attempt Op ε Ans)) (k : κ) : Option Op :=
  ((past.filter fun e => !e.failed && decide (spec.key e.op = k) &&
    (spec.write e.op).isSome).getLast?).map (·.op)

/-- What the history leaves under the key. -/
def held (past : List (Attempt Op ε Ans)) (k : κ) : Option β :=
  (spec.lastWrite past k).bind fun op => (spec.write op).join

/-- What an operation that succeeds leaves of what was held. -/
def after (op : Op) (content : κ → Option β) : κ → Option β :=
  (spec.write op).elim content (Function.update content (spec.key op))

variable {spec}

/-- An operation only concerns its own key. -/
theorem after_of_ne {op : Op} {content : κ → Option β} {k : κ} (hk : k ≠ spec.key op) :
    spec.after op content k = content k := by
  unfold after
  cases spec.write op with
  | none => rfl
  | some v => exact Function.update_of_ne hk v content

/-- The last attempt decides on top of those before it, unless it failed. -/
theorem held_concat (past : List (Attempt Op ε Ans)) (e : Attempt Op ε Ans) :
    spec.held (past ++ [e]) =
      if e.failed then spec.held past else spec.after e.op (spec.held past) := by
  funext k
  unfold held lastWrite after
  rw [List.filter_append]
  cases hfailed : e.failed with
  | true => simp [hfailed]
  | false =>
    cases hwrite : spec.write e.op with
    | none => simp [hwrite]
    | some v =>
      by_cases hk : spec.key e.op = k
      · subst hk
        simp [hfailed, hwrite]
      · have hne : k ≠ spec.key e.op := fun h => hk h.symm
        simp [hk, Function.update_of_ne hne]

end KeyedSpec

namespace KeyedStore

variable (S : KeyedStore Op ε Ans κ β σ) (T : KeyedStore Op ε Ans κ β τ)
  (spec : KeyedSpec Op Ans κ β) (valid : Op → Prop)

/-- One step does what the specification says, from what the store holds. -/
structure StepMeets (s : σ) (e : Attempt Op ε Ans) (s' : σ) : Prop where
  failed : e.failed = true → (∃ err, e.answer = .error err) ∧ S.content s' = S.content s
  done : e.failed = false → e.answer = .ok (spec.answer e.op (S.content s (spec.key e.op))) ∧
    S.content s' = spec.after e.op (S.content s)

structure Implements : Prop where
  initial : ∀ s, S.initial s → ∀ k, S.content s k = none
  step : ∀ s e s', S.step s e s' → valid e.op → S.StepMeets spec s e s'

/-- The steps of a store from its start. -/
inductive Session : List (Attempt Op ε Ans) → σ → Prop
  | nil {s : σ} (hs : S.initial s) : Session [] s
  | snoc {past : List (Attempt Op ε Ans)} {s s' : σ} {e : Attempt Op ε Ans}
      (hs : Session past s) (hstep : S.step s e s') : Session (past ++ [e]) s'

variable {S T spec valid}

/-- An attempt that fails meets the specification by leaving the state alone. -/
theorem StepMeets.of_failed {s s' : σ} {op : Op} {answer : Except ε Ans} {err : ε}
    (ha : answer = .error err) (hs : s' = s) : S.StepMeets spec s ⟨op, true, answer⟩ s' :=
  ⟨fun _ => ⟨⟨err, ha⟩, congrArg S.content hs⟩, fun h => Bool.noConfusion h⟩

/-- One that succeeds meets it with the answer and the content that it prescribes. -/
theorem StepMeets.of_done {s s' : σ} {op : Op} {answer : Except ε Ans}
    (ha : answer = .ok (spec.answer op (S.content s (spec.key op))))
    (hs : S.content s' = spec.after op (S.content s)) :
    S.StepMeets spec s ⟨op, false, answer⟩ s' :=
  ⟨fun h => Bool.noConfusion h, fun _ => ⟨ha, hs⟩⟩

omit [DecidableEq κ] in
/-- A store that can always be asked has a session for every list of operations, whichever of
them fail. -/
theorem exists_session {s₀ : σ} (hs₀ : S.initial s₀)
    (hstep : ∀ s op failed, valid op → ∃ (answer : Except ε Ans) (s' : σ),
      S.step s ⟨op, failed, answer⟩ s')
    (tried : List (Op × Bool)) (hvalid : ∀ x ∈ tried, valid x.1) :
    ∃ past s, S.Session past s ∧ past.map (fun e => (e.op, e.failed)) = tried := by
  induction tried using List.reverseRecOn with
  | nil => exact ⟨[], s₀, .nil hs₀, rfl⟩
  | append_singleton tried x ih =>
    obtain ⟨past, s, hs, hpast⟩ := ih fun y hy => hvalid y (List.mem_append_left _ hy)
    obtain ⟨answer, s', hnext⟩ := hstep s x.1 x.2
      (hvalid x (List.mem_append_right _ (List.mem_singleton_self x)))
    refine ⟨past ++ [⟨x.1, x.2, answer⟩], s', .snoc hs hnext, ?_⟩
    rw [List.map_append, hpast]
    rfl

/-- **The store holds what its history leaves.** -/
theorem Implements.content_eq (himp : S.Implements spec valid) {past : List (Attempt Op ε Ans)}
    {s : σ} (hs : S.Session past s) (hvalid : ∀ e ∈ past, valid e.op) :
    S.content s = spec.held past := by
  induction hs with
  | nil hs =>
    funext k
    exact himp.initial _ hs k
  | snoc hs hstep ih =>
    next past s s' e =>
    have hbefore := ih fun x hx => hvalid x (List.mem_append_left _ hx)
    have hmeets := himp.step s e s' hstep
      (hvalid e (List.mem_append_right _ (List.mem_singleton_self e)))
    rw [KeyedSpec.held_concat, ← hbefore]
    cases hfailed : e.failed with
    | true => exact (hmeets.failed hfailed).2
    | false => exact (hmeets.done hfailed).2

/-- **Two stores with one specification answer alike**, where the same operations fail. -/
theorem Implements.answers_agree (hS : S.Implements spec valid) (hT : T.Implements spec valid)
    {past past' : List (Attempt Op ε Ans)} {s : σ} {t : τ} (hs : S.Session past s)
    (ht : T.Session past' t) (hvalid : ∀ e ∈ past, valid e.op)
    (hsame : past.map (fun e => (e.op, e.failed)) = past'.map (fun e => (e.op, e.failed))) :
    past.map (fun e => e.answer.toOption) = past'.map (fun e => e.answer.toOption) ∧
      S.content s = T.content t := by
  induction hs generalizing past' t with
  | nil hs =>
    cases ht with
    | nil ht =>
      refine ⟨rfl, ?_⟩
      funext k
      rw [hS.initial _ hs k, hT.initial _ ht k]
    | snoc ht hstep => simp at hsame
  | snoc hs hstep ih =>
    next past s s' e =>
    cases ht with
    | nil ht => simp at hsame
    | snoc ht hstep' =>
      next past' t e' =>
      rw [List.map_append, List.map_append] at hsame
      obtain ⟨hpast, hlast⟩ := List.append_inj' hsame rfl
      have hop : e.op = e'.op ∧ e.failed = e'.failed := by simpa using hlast
      have hve : valid e.op := hvalid e (List.mem_append_right _ (List.mem_singleton_self e))
      obtain ⟨hans, hcontent⟩ := ih ht (fun x hx => hvalid x (List.mem_append_left _ hx)) hpast
      have hm := hS.step s e s' hstep hve
      have hm' := hT.step t e' _ hstep' (hop.1 ▸ hve)
      rw [List.map_append, List.map_append, hans]
      cases hfailed : e.failed with
      | true =>
        obtain ⟨⟨err, herr⟩, hsame⟩ := hm.failed hfailed
        obtain ⟨⟨err', herr'⟩, hsame'⟩ := hm'.failed (hop.2 ▸ hfailed)
        rw [hsame, hsame', List.map_singleton, List.map_singleton, herr, herr']
        exact ⟨rfl, hcontent⟩
      | false =>
        obtain ⟨hans, hafter⟩ := hm.done hfailed
        obtain ⟨hans', hafter'⟩ := hm'.done (hop.2 ▸ hfailed)
        rw [hafter, hafter', List.map_singleton, List.map_singleton, hans, hans', ← hop.1, hcontent]
        exact ⟨rfl, rfl⟩

end KeyedStore

end

end Terrashine.Library
