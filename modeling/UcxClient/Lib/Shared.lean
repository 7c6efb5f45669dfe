import Mathlib.Logic.Function.Basic
import Mathlib.Data.Option.Defs
import UcxClient.Lib.Transition

/-!
# Components that share a variable

Each component is a system of its own, whose state has a part of type `γ` that it reads and writes
through `get` and `put`. In the joint system (`State`, `step`) all components use the same variable,
and any interleaving of their steps is possible.

`independent`: if a relation `Same` is kept by a step of both sides, and a component's `Same` by the
steps of the others that meet a condition, then in a run whose steps meet the condition every
component does what it does when it runs alone.
-/

universe u v w x

namespace Shared

open Transition

variable {ι : Type u} {σ : Type v} {γ : Type w} {α : Type x}

/-- The components and the variable that they share. -/
structure State (ι : Type u) (σ : Type v) (γ : Type w) where
  comp : ι → σ
  shared : γ

section
variable (cstep : σ → α → Option σ) (put : γ → σ → σ) (get : σ → γ)

/-- The state as component `i` finds it. -/
def view (p : State ι σ γ) (i : ι) : σ := put p.shared (p.comp i)

/-- A step of one component. -/
def step [DecidableEq ι] (p : State ι σ γ) (a : ι × α) : Option (State ι σ γ) :=
  (cstep (view put p a.1) a.2).map fun s => ⟨Function.update p.comp a.1 s, get s⟩

end

/-- The actions of component `i`. -/
def own [DecidableEq ι] (i : ι) (acts : List (ι × α)) : List α :=
  acts.filterMap fun a => if a.1 = i then some a.2 else none

theorem own_cons_self [DecidableEq ι] (i : ι) (a : α) (acts : List (ι × α)) :
    own i ((i, a) :: acts) = a :: own i acts := by
  simp [own]

theorem own_cons_of_ne [DecidableEq ι] {i j : ι} (h : j ≠ i) (a : α) (acts : List (ι × α)) :
    own i ((j, a) :: acts) = own i acts := by
  simp [own, h]

theorem isSome_eq_of_rel {β : Type u} {R : β → β → Prop} {a b : Option β} (h : Option.Rel R a b) :
    a.isSome = b.isSome := by
  cases h <;> rfl

section
variable [DecidableEq ι] {cstep : σ → α → Option σ} {put : γ → σ → σ} {get : σ → γ}
  {Same : σ → σ → Prop} {ok : State ι σ γ → ι × α → Bool}

/-- **Independence.** Each component runs as it does alone, and is blocked only if it is alone. -/
theorem independent (hput : ∀ s, put (get s) s = s)
    (hstep : ∀ s s' a, Same s s' → Option.Rel Same (cstep s a) (cstep s' a))
    (hforeign : ∀ p i a s j x, j ≠ i → ok p (i, a) = true → cstep (view put p i) a = some s →
      Same x (view put p j) → Same x (put (get s) (p.comp j)))
    {p p' : State ι σ γ} {acts : List (ι × α)}
    (h : runIf ok (step cstep put get) p acts = some p') {i : ι} {x : σ}
    (hx : Same x (view put p i)) :
    ∃ s, run cstep x (own i acts) = some s ∧ Same s (view put p' i) ∧
      ∀ a, (step cstep put get p' (i, a)).isSome = (cstep s a).isSome := by
  induction acts generalizing p x with
  | nil =>
    obtain rfl : p = p' := Option.some.inj h
    refine ⟨x, rfl, hx, fun a => ?_⟩
    rw [step, Option.isSome_map]
    exact (isSome_eq_of_rel (hstep _ _ a hx)).symm
  | cons ja acts ih =>
    obtain ⟨j, a⟩ := ja
    obtain ⟨p1, h1, h2⟩ := Option.bind_eq_some_iff.1 h
    dsimp only at h1
    split at h1
    · next hok =>
      obtain ⟨s1, hs1, rfl⟩ := Option.map_eq_some_iff.1 h1
      dsimp only at hs1
      by_cases hji : j = i
      · subst hji
        have hrel := hstep _ _ a hx
        rw [hs1] at hrel
        rw [own_cons_self, run]
        generalize cstep x a = y at hrel ⊢
        cases hrel with
        | @some s _ hsame =>
          refine ih h2 ?_
          show Same s (put (get s1) (Function.update p.comp j s1 j))
          rw [Function.update_self, hput]
          exact hsame
      · rw [own_cons_of_ne hji]
        refine ih h2 ?_
        show Same x (put (get s1) (Function.update p.comp j s1 i))
        rw [Function.update_of_ne (Ne.symm hji)]
        exact hforeign p j a s1 i x (Ne.symm hji) hok hs1 hx
    · cases h1

end

end Shared
