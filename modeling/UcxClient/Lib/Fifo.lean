import UcxClient.Lib.Transition

/-!
# A FIFO whose head is lent to its reader

The abstract queue holds a list of items. `push` appends one, `front` shows the head to a reader
that keeps it until its `pop`, `empty` tells a reader that there is none. A reader sees an item
through `view`. Whatever order the events come
in, what readers were shown is, in order, what was pushed, each item once (`handed_prefix`).
-/

universe u v

namespace Fifo

variable {β : Type u} {ν : Type v}

inductive Event (β : Type u) (ν : Type v) where
  | push (b : β)
  | front (v : ν)
  | empty
  | pop
  deriving DecidableEq

structure State (β : Type u) where
  items : List β
  /-- the head has been shown and not been popped yet -/
  lent : Bool

def empty : State β := ⟨[], false⟩

def step [DecidableEq ν] (view : β → ν) (s : State β) : Event β ν → Option (State β)
  | .push b => some { s with items := s.items ++ [b] }
  | .front v =>
    match s.items with
    | b :: _ => if s.lent = false ∧ v = view b then some { s with lent := true } else none
    | [] => none
  | .empty => if s.items.isEmpty then some s else none
  | .pop => if s.lent then some ⟨s.items.tail, false⟩ else none

/-- The items pushed. -/
def pushed : List (Event β ν) → List β
  | [] => []
  | .push b :: es => b :: pushed es
  | _ :: es => pushed es

/-- What the readers were shown. -/
def handed : List (Event β ν) → List ν
  | [] => []
  | .front v :: es => v :: handed es
  | _ :: es => handed es

/-- The items that have not been shown yet. -/
def State.waiting (s : State β) : List β := if s.lent then s.items.tail else s.items

open Transition

/-- Items are neither lost nor duplicated nor reordered. -/
theorem conservation [DecidableEq ν] {view : β → ν} {s s' : State β} {es : List (Event β ν)}
    (hl : s.lent = true → s.items ≠ []) (h : accepts (step view) s es = some s') :
    (s.waiting ++ pushed es).map view = handed es ++ s'.waiting.map view := by
  induction es generalizing s with
  | nil =>
    cases h
    simp [pushed, handed]
  | cons e es ih =>
    obtain ⟨s1, h1, h2⟩ := Option.bind_eq_some_iff.1 h
    cases e with
    | push b =>
      cases h1
      have hw : ({ s with items := s.items ++ [b] } : State β).waiting = s.waiting ++ [b] := by
        unfold State.waiting
        split
        · exact List.tail_append_of_ne_nil (hl ‹_›)
        · rfl
      have := ih (by simp) h2
      rw [hw] at this
      simpa [pushed, handed] using this
    | front v =>
      simp only [step] at h1
      split at h1
      · rename_i b bs hb
        split at h1
        · rename_i hc
          cases h1
          have := ih (by simp [hb]) h2
          simp only [State.waiting, hc.1, hb, ↓reduceIte, List.tail_cons, Bool.false_eq_true] at this ⊢
          simpa [pushed, handed, hc.2] using this
        · cases h1
      · cases h1
    | empty =>
      simp only [step] at h1
      split at h1
      · cases h1
        simpa [pushed, handed] using ih hl h2
      · cases h1
    | pop =>
      simp only [step] at h1
      split at h1
      · rename_i hlent
        cases h1
        have := ih (by simp) h2
        simpa [State.waiting, hlent, pushed, handed] using this
      · cases h1

/-- **First in, first out, each item once.** -/
theorem handed_prefix [DecidableEq ν] {view : β → ν} {s' : State β} {es : List (Event β ν)}
    (h : accepts (step view) empty es = some s') : handed es <+: (pushed es).map view := by
  have := conservation (by simp [empty]) h
  exact ⟨s'.waiting.map view, by simpa [State.waiting, empty] using this.symm⟩

end Fifo
