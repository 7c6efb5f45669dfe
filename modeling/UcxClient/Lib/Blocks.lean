/-!
# Blocks of a fixed size

`cut n l` are the pieces of `n` elements that a list is cut into, the last one with the rest, and
`pad n x c` fills a piece up to `n` elements with `x`. For pieces of any length up to `n`, the padded
pieces in a row are the elements and padding, less than a piece of it, if and only if all elements
behind the first short piece are `x` anyway and there are no more pieces than the elements need
(`flatten_pad_iff`).
-/

universe u

namespace Blocks

variable {α : Type u}

/-- Fill `c` up to `n` elements. -/
def pad (n : Nat) (x : α) (c : List α) : List α := c ++ List.replicate (n - c.length) x

/-- The pieces of `n` elements. -/
def cut (n : Nat) (l : List α) : List (List α) :=
  (List.range ((l.length + n - 1) / n)).map fun i => (l.drop (i * n)).take n

theorem length_pad {n : Nat} {x : α} {c : List α} (h : c.length ≤ n) : (pad n x c).length = n := by
  simp only [pad, List.length_append, List.length_replicate]
  omega

theorem pad_of_length {n : Nat} {x : α} {c : List α} (h : c.length = n) : pad n x c = c := by
  simp [pad, h]

theorem length_le_of_mem_cut {n : Nat} {l c : List α} (h : c ∈ cut n l) : c.length ≤ n := by
  obtain ⟨i, -, rfl⟩ := List.mem_map.1 h
  rw [List.length_take]
  omega

theorem cut_nil {n : Nat} (hn : 0 < n) : cut n ([] : List α) = [] := by
  simp only [cut, List.length_nil]
  rw [Nat.div_eq_of_lt (by omega)]
  rfl

theorem cut_cons {n : Nat} (hn : 0 < n) {l : List α} (hl : l ≠ []) :
    cut n l = l.take n :: cut n (l.drop n) := by
  have hpos : 0 < l.length := List.length_pos_iff.2 hl
  have hcount : (l.length + n - 1) / n = ((l.drop n).length + n - 1) / n + 1 := by
    rw [List.length_drop]
    by_cases hle : n ≤ l.length
    · rw [← Nat.add_div_right _ hn]
      congr 1
      omega
    · have h0 : l.length - n = 0 := by omega
      rw [h0, Nat.div_eq_of_lt_le (k := 1) (by omega) (by omega), Nat.div_eq_of_lt (by omega)]
  simp only [cut]
  rw [hcount, List.range_succ_eq_map]
  simp only [List.map_cons, List.map_map, Nat.zero_mul, List.drop_zero, List.drop_drop]
  congr 2
  funext i
  simp only [Function.comp, Nat.succ_mul]
  rw [Nat.add_comm]

/-! ## Padding between the pieces -/

theorem eq_of_all {x : α} {l l' : List α} (h : ∀ a ∈ l, a = x) (h' : ∀ a ∈ l', a = x)
    (hlen : l.length = l'.length) : l = l' := by
  rw [List.eq_replicate_iff.2 ⟨rfl, h⟩, List.eq_replicate_iff.2 ⟨rfl, h'⟩, hlen]

theorem length_flatten_le {n : Nat} {cs : List (List α)} (hcs : ∀ c ∈ cs, c.length ≤ n) :
    cs.flatten.length ≤ n * cs.length := by
  induction cs with
  | nil => exact Nat.le_refl _
  | cons c cs ih =>
    have h1 := hcs c List.mem_cons_self
    have h2 := ih fun c hc => hcs c (List.mem_cons_of_mem _ hc)
    rw [List.flatten_cons, List.length_append, List.length_cons, Nat.mul_succ]
    omega

theorem length_flatten_pad {n : Nat} {x : α} {cs : List (List α)}
    (hcs : ∀ c ∈ cs, c.length ≤ n) :
    (cs.map (pad n x)).flatten.length = n * cs.length := by
  induction cs with
  | nil => rfl
  | cons c cs ih =>
    rw [List.map_cons, List.flatten_cons, List.length_append, length_pad (hcs c List.mem_cons_self),
      ih fun c hc => hcs c (List.mem_cons_of_mem _ hc), List.length_cons, Nat.mul_succ, Nat.add_comm]

/-- Full pieces are not padded. -/
theorem flatten_pad_takeWhile (n : Nat) (x : α) (cs : List (List α)) :
    (cs.map (pad n x)).flatten = (cs.takeWhile (·.length = n)).flatten ++
      ((cs.dropWhile (·.length = n)).map (pad n x)).flatten := by
  induction cs with
  | nil => rfl
  | cons c cs ih =>
    by_cases hc : c.length = n
    · simp only [hc, decide_true, List.takeWhile_cons_of_pos, List.dropWhile_cons_of_pos,
        List.map_cons, List.flatten_cons, ih, pad_of_length, List.append_assoc]
    · simp [hc]

theorem all_pad {n : Nat} {x : α} {cs : List (List α)} (h : ∀ a ∈ cs.flatten, a = x) :
    ∀ a ∈ (cs.map (pad n x)).flatten, a = x := by
  intro a ha
  obtain ⟨p, hp, ha⟩ := List.mem_flatten.1 ha
  obtain ⟨c, hc, rfl⟩ := List.mem_map.1 hp
  rcases List.mem_append.1 ha with ha | ha
  · exact h a (List.mem_flatten.2 ⟨c, hc, ha⟩)
  · exact (List.mem_replicate.1 ha).2

section
variable [DecidableEq α] {n : Nat} {x : α}

/-- The length of the padding that a list starts with. -/
def leading (x : α) (l : List α) : Nat := (l.takeWhile (· = x)).length

theorem leading_append_of_all {l l' : List α} (h : ∀ a ∈ l, a = x) :
    leading x (l ++ l') = l.length + leading x l' := by
  simp only [leading]
  rw [List.takeWhile_append_of_pos (by simpa using h), List.length_append]

theorem leading_append_of_lt {l : List α} (l' : List α) (h : leading x l < l.length) :
    leading x (l ++ l') = leading x l := by
  simp only [leading] at h ⊢
  rw [List.takeWhile_append, if_neg (by omega)]

theorem all_of_leading {l : List α} (h : l.length ≤ leading x l) : ∀ a ∈ l, a = x := by
  have heq : l.takeWhile (· = x) = l :=
    (List.takeWhile_prefix _).eq_of_length_le h
  have hall : (l.takeWhile (· = x)).all (· = x) = true := List.all_takeWhile
  rw [heq] at hall
  simpa using hall

/-- Padding the pieces moves the first element that is not padding further back. -/
theorem leading_le_leading_pad (cs : List (List α)) :
    leading x cs.flatten ≤ leading x (cs.map (pad n x)).flatten := by
  induction cs with
  | nil => exact Nat.le_refl _
  | cons c cs ih =>
    simp only [List.map_cons, List.flatten_cons, pad, List.append_assoc]
    by_cases hc : ∀ a ∈ c, a = x
    · rw [leading_append_of_all hc, leading_append_of_all hc,
        leading_append_of_all (fun a ha => (List.mem_replicate.1 ha).2)]
      omega
    · have hlt : leading x c < c.length :=
        Nat.lt_of_not_le fun hge => hc (all_of_leading hge)
      exact Nat.le_of_eq
        ((leading_append_of_lt _ hlt).trans (leading_append_of_lt _ hlt).symm)

/-- Padding in front of padded pieces cannot be told from padding behind the elements only if all
elements are padding. -/
theorem all_of_pad_eq {cs : List (List α)} {d m : Nat} (hd : 0 < d)
    (h : List.replicate d x ++ (cs.map (pad n x)).flatten = cs.flatten ++ List.replicate m x) :
    ∀ a ∈ cs.flatten, a = x := by
  apply all_of_leading
  have hlead := leading_le_leading_pad (n := n) (x := x) cs
  have heq := congrArg (leading x) h
  rw [leading_append_of_all (fun a ha => (List.mem_replicate.1 ha).2), List.length_replicate] at heq
  refine Nat.le_of_not_lt fun hlt => ?_
  rw [leading_append_of_lt _ hlt] at heq
  omega

/-- **Padding between the pieces.** -/
theorem flatten_pad_iff {cs : List (List α)} (hcs : ∀ c ∈ cs, c.length ≤ n) :
    (∃ m, m < n ∧ (cs.map (pad n x)).flatten = cs.flatten ++ List.replicate m x) ↔
      (∀ a ∈ (cs.dropWhile (·.length = n)).tail.flatten, a = x) ∧
        n * cs.length < cs.flatten.length + n := by
  have hlen := length_flatten_pad (x := x) hcs
  have hsplit : cs.flatten = (cs.takeWhile (·.length = n)).flatten ++
      (cs.dropWhile (·.length = n)).flatten := by
    rw [← List.flatten_append, List.takeWhile_append_dropWhile]
  have hhead : ∀ c rest, cs.dropWhile (·.length = n) = c :: rest → c.length < n := by
    intro c rest h
    have hmem : c ∈ cs := (List.dropWhile_suffix _).subset (h ▸ List.mem_cons_self)
    have hne : ¬c.length = n := by
      have := List.head?_dropWhile_not (fun c : List α => decide (c.length = n)) cs
      rw [h] at this
      simpa using this
    have := hcs c hmem
    omega
  constructor
  · intro ⟨m, hm, h⟩
    have hlen' := congrArg List.length h
    rw [hlen, List.length_append, List.length_replicate] at hlen'
    refine ⟨?_, by omega⟩
    rw [flatten_pad_takeWhile n, hsplit, List.append_assoc, List.append_cancel_left_eq] at h
    cases hdrop : cs.dropWhile (·.length = n) with
    | nil => simp
    | cons c rest =>
      rw [hdrop] at h
      simp only [List.map_cons, List.flatten_cons, pad, List.append_assoc,
        List.append_cancel_left_eq] at h
      exact all_of_pad_eq (Nat.sub_pos_of_lt (hhead c rest hdrop)) h
  · intro ⟨hall, hcount⟩
    have hle := length_flatten_le hcs
    have hfront := flatten_pad_takeWhile n x cs
    cases hdrop : cs.dropWhile (·.length = n) with
    | nil =>
      rw [hdrop] at hfront hsplit
      refine ⟨0, by omega, ?_⟩
      rw [hfront, hsplit]
      simp
    | cons c rest =>
      rw [hdrop] at hfront hsplit hall
      simp only [List.map_cons, List.flatten_cons, pad, List.append_assoc] at hfront hsplit
      refine ⟨n * cs.length - cs.flatten.length, by omega, ?_⟩
      rw [hfront] at hlen ⊢
      rw [hsplit] at hle ⊢
      simp only [List.append_assoc, List.append_cancel_left_eq]
      refine eq_of_all (x := x) ?_ ?_ ?_
      · intro a ha
        rcases List.mem_append.1 ha with ha | ha
        · exact (List.mem_replicate.1 ha).2
        · exact all_pad hall a ha
      · intro a ha
        rcases List.mem_append.1 ha with ha | ha
        · exact hall a ha
        · exact (List.mem_replicate.1 ha).2
      · simp only [List.length_append, List.length_replicate] at hlen hle ⊢
        omega

end

end Blocks
