/-!
# Pre- and postconditions

`StateT σ Option α` are the computations over a state that may have no result: they wait for ever, or what they
do is not defined. `Triple P c Q` is partial correctness: from a state with `P`, a result `a` of `c` comes with a
state of which `Q a` holds. `Returns P c Q` is total correctness: from a state with `P` there is such a result.
There is a rule for each way to put computations together, and one for any number of them (`Triple.forM`).
-/

universe u v w

variable {σ α β : Type u} {ι : Type v}

def Triple (P : σ → Prop) (c : StateT σ Option α) (Q : α → σ → Prop) : Prop :=
  ∀ s, P s → ∀ a s', c.run s = some (a, s') → Q a s'

def Returns (P : σ → Prop) (c : StateT σ Option α) (Q : α → σ → Prop) : Prop :=
  ∀ s, P s → ∃ a s', c.run s = some (a, s') ∧ Q a s'

/-- A sequence runs its second part from where the first one ends. -/
theorem runs_bind {c : StateT σ Option α} {s s' : σ} {a : α} (h : c.run s = some (a, s'))
    (f : α → StateT σ Option β) : (c >>= f).run s = (f a).run s' := by
  rw [StateT.run_bind, h]
  rfl

/-- What a sequence returns, its second part has returned. -/
theorem of_runs_bind {c : StateT σ Option α} {f : α → StateT σ Option β} {s s'' : σ} {b : β}
    (h : (c >>= f).run s = some (b, s'')) : ∃ a s', c.run s = some (a, s') ∧ (f a).run s' = some (b, s'') := by
  rw [StateT.run_bind] at h
  obtain ⟨⟨a, s'⟩, hc, hf⟩ := Option.bind_eq_some_iff.1 h
  exact ⟨a, s', hc, hf⟩

namespace Triple

variable {P P' : σ → Prop} {Q Q' : α → σ → Prop} {R : β → σ → Prop}

theorem pure (a : α) (h : ∀ s, P s → Q a s) : Triple P (Pure.pure a) Q := by
  intro s hs b s' hrun
  cases hrun
  exact h s hs

theorem bind {c : StateT σ Option α} {f : α → StateT σ Option β} (hc : Triple P c Q)
    (hf : ∀ a, Triple (Q a) (f a) R) : Triple P (c >>= f) R := by
  intro s hs b s'' hrun
  obtain ⟨a, s', hfirst, hsecond⟩ := of_runs_bind hrun
  exact hf a s' (hc s hs a s' hfirst) b s'' hsecond

theorem mono {c : StateT σ Option α} (h : Triple P c Q) (hpre : ∀ s, P' s → P s) (hpost : ∀ a s, Q a s → Q' a s) :
    Triple P' c Q' := fun s hs a s' hrun => hpost a s' (h s (hpre s hs) a s' hrun)

/-- A computation that is the case of an `if`. -/
theorem ite {b : Prop} [Decidable b] {c d : StateT σ Option α} (hc : b → Triple P c Q) (hd : ¬b → Triple P d Q) :
    Triple P (if b then c else d) Q := by
  split
  · next h => exact hc h
  · next h => exact hd h

/-- **What each of a list of computations does to an index of the states, all of them do one after the other.** -/
theorem forM {κ : Type w} {I : κ → σ → Prop} {next : κ → ι → Option κ} {is : List ι} {c : ι → StateT σ Option PUnit}
    (h : ∀ i ∈ is, ∀ k, Triple (I k) (c i) fun _ s => ∃ k', next k i = some k' ∧ I k' s) (k : κ) :
    Triple (I k) (is.forM c) fun _ s => ∃ k', is.foldlM next k = some k' ∧ I k' s := by
  induction is generalizing k with
  | nil => exact pure PUnit.unit fun _ hs => ⟨k, rfl, hs⟩
  | cons i is ih =>
    refine bind (h i List.mem_cons_self k) fun _ => ?_
    rintro s ⟨k', hnext, hs⟩ a s' hrun
    obtain ⟨k'', hrest, hs'⟩ := ih (fun j hj => h j (List.mem_cons_of_mem i hj)) k' s hs a s' hrun
    exact ⟨k'', by rw [List.foldlM_cons, hnext]; exact hrest, hs'⟩

end Triple

namespace Returns

variable {P : σ → Prop} {Q : α → σ → Prop} {R : β → σ → Prop}

theorem pure (a : α) (h : ∀ s, P s → Q a s) : Returns P (Pure.pure a) Q := fun s hs => ⟨a, s, rfl, h s hs⟩

theorem bind {c : StateT σ Option α} {f : α → StateT σ Option β} (hc : Returns P c Q)
    (hf : ∀ a, Returns (Q a) (f a) R) : Returns P (c >>= f) R := by
  intro s hs
  obtain ⟨a, s', hfirst, hs'⟩ := hc s hs
  obtain ⟨b, s'', hsecond, hs''⟩ := hf a s' hs'
  exact ⟨b, s'', (runs_bind hfirst f).trans hsecond, hs''⟩

end Returns
