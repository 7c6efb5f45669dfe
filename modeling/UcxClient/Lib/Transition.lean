/-!
# Step functions, their runs and their refinement

A system is a step function `step : σ → α → Option σ`: the action `a` leads from `s` to `s'` when
`step s a = some s'` and cannot be taken when it is `none`.

* `run` performs a list of actions; `Reach step ok init` are the states that steps meeting the
  condition `ok` (on the state before the step and the action) lead to. `Reach.invariant` is the
  induction rule: what holds initially and is kept by every such step holds in every such state.
* An observed system also emits an event per step. `trace` collects them, and `trace_refines` is
  forward simulation: if every step of the concrete system is matched by the abstract one on the
  event it emits, the abstract system accepts the events of every run.
-/

universe u v w x

namespace Transition

section Runs
variable {σ : Type u} {α : Type v}

/-- Perform the actions in order. -/
def run (step : σ → α → Option σ) : σ → List α → Option σ
  | s, [] => some s
  | s, a :: as => (step s a).bind (run step · as)

/-- The states that steps meeting `ok` lead to from a state in `init`. -/
inductive Reach (step : σ → α → Option σ) (ok : σ → α → Prop) (init : σ → Prop) : σ → Prop
  | start {s : σ} : init s → Reach step ok init s
  | next {s s' : σ} {a : α} : Reach step ok init s → ok s a → step s a = some s' →
      Reach step ok init s'

/-- No condition on the steps. -/
def anyStep : σ → α → Prop := fun _ _ => True

variable {step : σ → α → Option σ} {ok ok' : σ → α → Prop} {init : σ → Prop}

theorem run_append (s : σ) (as bs : List α) :
    run step s (as ++ bs) = (run step s as).bind (run step · bs) := by
  induction as generalizing s with
  | nil => rfl
  | cons a as ih =>
    simp only [List.cons_append, run, Option.bind_assoc]
    congr 1
    funext s'
    exact ih s'

/-- The end of a run of actions that meet the condition in every state is reached. -/
theorem Reach.run {s s' : σ} {as : List α} (hs : Reach step ok init s)
    (hok : ∀ a ∈ as, ∀ s, ok s a) (h : run step s as = some s') : Reach step ok init s' := by
  induction as generalizing s with
  | nil => cases h; exact hs
  | cons a as ih =>
    obtain ⟨s1, h1, h2⟩ := Option.bind_eq_some_iff.1 h
    exact ih (.next hs (hok a List.mem_cons_self s) h1)
      (fun b hb => hok b (List.mem_cons_of_mem _ hb)) h2

/-- Perform the actions in order, as long as each passes `check` in the state it is taken in. -/
def runIf (check : σ → α → Bool) (step : σ → α → Option σ) : σ → List α → Option σ :=
  run fun s a => if check s a then step s a else none

theorem runIf_cons {check : σ → α → Bool} {s s' : σ} {a : α} {as : List α} :
    runIf check step s (a :: as) = some s' ↔
      check s a = true ∧ ∃ s₁, step s a = some s₁ ∧ runIf check step s₁ as = some s' := by
  simp only [runIf, run, Option.bind_eq_some_iff]
  by_cases hc : check s a = true
  · simp [hc]
  · simp [hc]

theorem runIf_append {check : σ → α → Bool} {s s' : σ} {as bs : List α} :
    runIf check step s (as ++ bs) = some s' ↔
      ∃ s₁, runIf check step s as = some s₁ ∧ runIf check step s₁ bs = some s' := by
  rw [runIf, run_append, Option.bind_eq_some_iff]

/-- The end of a run is reached if the check of its steps implies the condition. -/
theorem Reach.runIf {check : σ → α → Bool} {s s' : σ} {as : List α} (hs : Reach step ok init s)
    (hok : ∀ s a, check s a = true → ok s a)
    (h : runIf check step s as = some s') : Reach step ok init s' := by
  induction as generalizing s with
  | nil => cases h; exact hs
  | cons a as ih =>
    obtain ⟨s1, h1, h2⟩ := Option.bind_eq_some_iff.1 h
    dsimp only at h1
    split at h1
    · next hc => exact ih (.next hs (hok s a hc) h1) h2
    · cases h1

theorem Reach.mono (hok : ∀ s a, ok s a → ok' s a) {s : σ} (h : Reach step ok init s) :
    Reach step ok' init s := by
  induction h with
  | start hi => exact .start hi
  | next _ ha hs ih => exact .next ih (hok _ _ ha) hs

/-- **The invariant rule.** -/
theorem Reach.invariant {I : σ → Prop} (h0 : ∀ s, init s → I s)
    (hstep : ∀ s a s', I s → ok s a → step s a = some s' → I s') {s : σ}
    (h : Reach step ok init s) : I s := by
  induction h with
  | start hi => exact h0 _ hi
  | next _ ha hs ih => exact hstep _ _ _ ih ha hs

end Runs

section Refinement
variable {σ : Type u} {α : Type v} {τ : Type w} {ε : Type x}

/-- Perform the actions in order and collect the events, as long as the steps meet `ok`. -/
inductive Trace (step : σ → α → Option (σ × Option ε)) (ok : σ → α → Prop) (s₀ : σ) :
    σ → List ε → Prop
  | nil : Trace step ok s₀ s₀ []
  | snoc {s s' : σ} {a : α} {e : Option ε} {es : List ε} : Trace step ok s₀ s es → ok s a →
      step s a = some (s', e) → Trace step ok s₀ s' (es ++ e.toList)

/-- The abstract system accepts a list of events. -/
def accepts (astep : τ → ε → Option τ) : τ → List ε → Option τ := run astep

variable {step : σ → α → Option (σ × Option ε)} {ok : σ → α → Prop} {astep : τ → ε → Option τ}

/-- **Forward simulation.** -/
theorem trace_refines {R : σ → τ → Prop} {s₀ : σ} {t₀ : τ} (h0 : R s₀ t₀)
    (hsim : ∀ s t a s' e, R s t → ok s a → step s a = some (s', e) →
      ∃ t', accepts astep t e.toList = some t' ∧ R s' t') {s : σ} {es : List ε}
    (h : Trace step ok s₀ s es) : ∃ t, accepts astep t₀ es = some t ∧ R s t := by
  induction h with
  | nil => exact ⟨t₀, rfl, h0⟩
  | @snoc s s' a e es _ ha hs ih =>
    obtain ⟨t, ht, hR⟩ := ih
    obtain ⟨t', ht', hR'⟩ := hsim _ _ _ _ _ hR ha hs
    refine ⟨t', ?_, hR'⟩
    simp only [accepts] at ht ht' ⊢
    rw [run_append, ht]
    exact ht'

theorem Trace.mono {ok' : σ → α → Prop} (hok : ∀ s a, ok s a → ok' s a) {s₀ s : σ} {es : List ε}
    (h : Trace step ok s₀ s es) : Trace step ok' s₀ s es := by
  induction h with
  | nil => exact .nil
  | snoc _ ha hs ih => exact .snoc ih (hok _ _ ha) hs

/-- Perform the actions in order and collect the events, as long as each passes `check` in the
state it is taken in. -/
def traceIf (check : σ → α → Bool) (step : σ → α → Option (σ × Option ε)) :
    σ → List α → Option (σ × List ε)
  | s, [] => some (s, [])
  | s, a :: as =>
    if check s a then
      (step s a).bind fun r => (traceIf check step r.1 as).map fun x => (x.1, r.2.toList ++ x.2)
    else none

/-- The events of such a run are a trace if the check of its steps implies the condition. -/
theorem Trace.traceIf {check : σ → α → Bool} {s₀ s s' : σ} {es es' : List ε} {as : List α}
    (h : Trace step ok s₀ s es) (hok : ∀ s a, check s a = true → ok s a)
    (hr : Transition.traceIf check step s as = some (s', es')) :
    Trace step ok s₀ s' (es ++ es') := by
  induction as generalizing s es es' with
  | nil =>
    cases hr
    simpa using h
  | cons a as ih =>
    simp only [Transition.traceIf] at hr
    split at hr
    · next hc =>
      obtain ⟨⟨s1, e⟩, h1, h2⟩ := Option.bind_eq_some_iff.1 hr
      obtain ⟨⟨s2, es2⟩, h3, h4⟩ := Option.map_eq_some_iff.1 h2
      cases h4
      have := ih (h.snoc (hok s a hc) h1) h3
      rwa [List.append_assoc] at this
    · cases hr

end Refinement

end Transition
