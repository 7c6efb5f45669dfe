/-!
# Machines that emit events

`feed step s bs` runs a machine from `s` on the inputs `bs` and collects the events it emits. A run on
inputs in a row is a run on their concatenation (`feed_append`), and two machines whose states are
related step by step, on equal events, stay so (`feed_rel`).
-/

universe u v w x

namespace Machine

variable {σ : Type u} {β : Type v} {ε : Type w} {τ : Type x}

/-- The state after the inputs and the events on the way. -/
def feed (step : σ → β → σ × List ε) : σ → List β → σ × List ε
  | s, [] => (s, [])
  | s, b :: bs => ((feed step (step s b).1 bs).1, (step s b).2 ++ (feed step (step s b).1 bs).2)

variable {step : σ → β → σ × List ε}

@[simp] theorem feed_nil (s : σ) : feed step s [] = (s, []) := rfl

theorem feed_cons (s : σ) (b : β) (bs : List β) : feed step s (b :: bs) =
    ((feed step (step s b).1 bs).1, (step s b).2 ++ (feed step (step s b).1 bs).2) := rfl

@[simp] theorem feed_singleton (s : σ) (b : β) : feed step s [b] = step s b := by
  simp [feed]

theorem feed_append (s : σ) (bs cs : List β) : feed step s (bs ++ cs) =
    ((feed step (feed step s bs).1 cs).1, (feed step s bs).2 ++ (feed step (feed step s bs).1 cs).2) := by
  induction bs generalizing s with
  | nil => rfl
  | cons b bs ih => simp only [List.cons_append, feed, ih, List.append_assoc]

/-- **Simulation.** -/
theorem feed_rel {step' : τ → β → τ × List ε} {R : σ → τ → Prop}
    (hstep : ∀ s t b, R s t → R (step s b).1 (step' t b).1 ∧ (step s b).2 = (step' t b).2)
    {s : σ} {t : τ} (h : R s t) (bs : List β) :
    R (feed step s bs).1 (feed step' t bs).1 ∧ (feed step s bs).2 = (feed step' t bs).2 := by
  induction bs generalizing s t with
  | nil => exact ⟨h, rfl⟩
  | cons b bs ih =>
    obtain ⟨h1, h2⟩ := hstep s t b h
    obtain ⟨h3, h4⟩ := ih h1
    exact ⟨h3, by rw [feed_cons, feed_cons, h2, h4]⟩

end Machine
