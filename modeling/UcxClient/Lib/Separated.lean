/-!
# Items between separators

`items item sep n` reads an item and `n` more, each behind a separator. If `item` reads the pieces that are an
`Item`, up to what may stand behind one (`Stop`), then what `items` reads are such pieces, joined with the
separator (`items_iff`).
-/

universe u v

namespace Separated

variable {α : Type u} {β : Type v} [DecidableEq α]

/-- An item and `n` more behind separators, and what is left. -/
def items (item : List α → Option (β × List α)) (sep : α) : Nat → List α → Option (List β × List α)
  | 0, s => (item s).map fun x => ([x.1], x.2)
  | n + 1, s => (item s).bind fun x =>
    if x.2.head? = some sep then (items item sep n x.2.tail).map fun y => (x.1 :: y.1, y.2) else none

omit [DecidableEq α] in
theorem intercalate_cons (sep : α) (g : List α) {gs : List (List α)} (h : gs ≠ []) :
    [sep].intercalate (g :: gs) = g ++ sep :: [sep].intercalate gs := by
  obtain ⟨g', gs, rfl⟩ := List.exists_cons_of_ne_nil h
  simp [List.intercalate]

omit [DecidableEq α] in
theorem intercalate_singleton (sep : α) (g : List α) : [sep].intercalate [g] = g := by
  simp [List.intercalate]

omit [DecidableEq α] in
/-- What is in a joined text: what is in the pieces and, if there are two, the separator. -/
theorem mem_intercalate {sep c : α} {gs : List (List α)} :
    c ∈ [sep].intercalate gs ↔ (∃ g ∈ gs, c ∈ g) ∨ c = sep ∧ 2 ≤ gs.length := by
  induction gs with
  | nil => simp [List.intercalate]
  | cons g gs ih =>
    by_cases h : gs = []
    · subst h
      simp
    · have hpos := List.length_pos_iff.2 h
      rw [intercalate_cons sep g h, List.mem_append, List.mem_cons, ih]
      simp only [List.mem_cons, exists_eq_or_imp, List.length_cons]
      constructor
      · rintro (hg | rfl | hgs | ⟨rfl, -⟩)
        · exact .inl (.inl hg)
        · exact .inr ⟨rfl, by omega⟩
        · exact .inl (.inr hgs)
        · exact .inr ⟨rfl, by omega⟩
      · rintro ((hg | hgs) | ⟨rfl, -⟩)
        · exact .inl hg
        · exact .inr (.inr (.inl hgs))
        · exact .inr (.inl rfl)

/-- Pieces without the separator are joined with one less than there are pieces. -/
theorem count_intercalate {sep : α} {gs : List (List α)} (hne : gs ≠ [])
    (h : ∀ g ∈ gs, sep ∉ g) : ([sep].intercalate gs).count sep + 1 = gs.length := by
  induction gs with
  | nil => exact absurd rfl hne
  | cons g gs ih =>
    have hg : g.count sep = 0 := List.count_eq_zero.2 (h g List.mem_cons_self)
    by_cases hgs : gs = []
    · subst hgs
      rw [intercalate_singleton, hg]
      rfl
    · have hrest := ih hgs fun g hg => h g (List.mem_cons_of_mem _ hg)
      rw [intercalate_cons sep g hgs, List.count_append, List.count_cons_self, hg, List.length_cons, ← hrest]
      omega

section
variable {item : List α → Option (β × List α)} {sep : α} {Item : List α → Prop} {value : List α → β}
  {Stop : List α → Prop}
  (hitem : ∀ s v rest, Stop rest →
    (item s = some (v, rest) ↔ s ≠ [] ∧ ∃ g, s = g ++ rest ∧ Item g ∧ v = value g))
  (hsep : ∀ s, Stop (sep :: s))
include hitem hsep

/-- **What is read are items between separators**; the last one is empty only if something is behind it. -/
theorem items_iff {n : Nat} {s rest : List α} {vs : List β} (hstop : Stop rest) :
    items item sep n s = some (vs, rest) ↔
      ∃ gs, gs.length = n + 1 ∧ (∀ g ∈ gs, Item g) ∧ vs = gs.map value ∧
        s = [sep].intercalate gs ++ rest ∧ (gs.getLast? = some [] → rest ≠ []) := by
  induction n generalizing s vs with
  | zero =>
    constructor
    · intro h
      obtain ⟨⟨v, rest'⟩, hs, heq⟩ := Option.map_eq_some_iff.1 h
      cases heq
      obtain ⟨hne, g, rfl, hg, rfl⟩ := (hitem _ _ _ hstop).1 hs
      refine ⟨[g], rfl, by simpa using hg, rfl, by rw [intercalate_singleton], ?_⟩
      rintro hlast rfl
      cases hlast
      exact hne rfl
    · rintro ⟨gs, hlen, hgs, rfl, rfl, hlast⟩
      obtain ⟨g, rfl⟩ := List.length_eq_one_iff.1 hlen
      rw [intercalate_singleton]
      have hne : g ++ rest ≠ [] := fun h => by
        obtain ⟨rfl, rfl⟩ := List.append_eq_nil_iff.1 h
        exact hlast rfl rfl
      have := (hitem (g ++ rest) (value g) rest hstop).2 ⟨hne, g, rfl, hgs g List.mem_cons_self, rfl⟩
      simp [items, this]
  | succ n ih =>
    constructor
    · intro h
      obtain ⟨⟨v, rest'⟩, hs, h⟩ := Option.bind_eq_some_iff.1 h
      dsimp only at h
      split at h
      · next hhead =>
        obtain ⟨⟨vs', rest''⟩, hrec, heq⟩ := Option.map_eq_some_iff.1 h
        cases heq
        obtain ⟨t, rfl⟩ : ∃ t, rest' = sep :: t := by
          cases rest' with
          | nil => cases hhead
          | cons c t =>
            cases hhead
            exact ⟨t, rfl⟩
        obtain ⟨-, g, rfl, hg, rfl⟩ := (hitem _ _ _ (hsep t)).1 hs
        obtain ⟨gs, hlen, hgs, rfl, ht, hlast⟩ := ih.1 hrec
        obtain ⟨g', gs, rfl⟩ := List.exists_cons_of_length_eq_add_one hlen
        refine ⟨g :: g' :: gs, by rw [List.length_cons, hlen], List.forall_mem_cons.2 ⟨hg, hgs⟩, rfl, ?_, ?_⟩
        · rw [List.tail_cons] at ht
          rw [ht, intercalate_cons sep g (List.cons_ne_nil g' gs)]
          simp
        · rwa [List.getLast?_cons_cons]
      · cases h
    · rintro ⟨gs, hlen, hgs, rfl, rfl, hlast⟩
      obtain ⟨g, gs, rfl⟩ := List.exists_cons_of_length_eq_add_one hlen
      have hlen' : gs.length = n + 1 := by simpa using hlen
      obtain ⟨g', gs', rfl⟩ := List.exists_cons_of_length_eq_add_one hlen'
      rw [List.getLast?_cons_cons] at hlast
      have hrec := ih.2 ⟨g' :: gs', hlen', fun g hg => hgs g (List.mem_cons_of_mem _ hg), rfl, rfl, hlast⟩
      have hs := (hitem (g ++ sep :: ([sep].intercalate (g' :: gs') ++ rest)) (value g) _ (hsep _)).2
        ⟨by simp, g, rfl, hgs g List.mem_cons_self, rfl⟩
      rw [intercalate_cons sep g (List.cons_ne_nil g' gs'), List.append_assoc, List.cons_append]
      simp only [items, hs, Option.bind_some, List.head?_cons, if_true, List.tail_cons, hrec,
        Option.map_some, List.map_cons]

end

end Separated
