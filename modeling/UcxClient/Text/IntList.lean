import Mathlib.Data.List.Basic
import UcxClient.Lib.Separated
import UcxClient.Lib.Strtol
import UcxClient.Text.Strict

/-!
# Which texts are lists of integers

`ListText s vs`: the text `s` is the list `vs`, decimal numerals in brackets with commas between them.
`uCxStringToIntList` reads exactly these texts and, beyond them, the texts of a list behind which something
else stands, and lists with blanks or a plus sign in front of a numeral (`readsListExactly_iff`).
-/

open ByteMem Separated

/-! ## Lists as texts -/

inductive ListText : List UInt8 → List Int16 → Prop
  | empty : ListText [ch '[', ch ']'] []
  | ints {xs : List (List UInt8 × Int16)} : xs ≠ [] → (∀ x ∈ xs, Denotes x.1 x.2.toInt) →
      ListText (ch '[' :: ([ch ','].intercalate (xs.map Prod.fst) ++ [ch ']'])) (xs.map Prod.snd)

/-- What `strtol` takes for a number in base 10, in the range of an `int16_t`. -/
def LooseInt (g : List UInt8) : Prop := ∃ n, Numeral 10 g n ∧ -2 ^ 15 ≤ n ∧ n < 2 ^ 15

/-- A list as `uCxStringToIntList` takes it, and what is behind its bracket. -/
structure LooseList (gs : List (List UInt8)) (t s : List UInt8) : Prop where
  ne : gs ≠ []
  ints : ∀ g ∈ gs, LooseInt g
  text : s = ch '[' :: ([ch ','].intercalate gs ++ ch ']' :: t)
  /-- A comma behind the bracket counts as one of the list unless it is the last character. -/
  behind : ch ',' ∉ t.dropLast

/-- Wherever the string is, `uCxStringToIntList` takes it if and only if it is a list, and stores that one. -/
def ReadsListExactly (s : List UInt8) : Prop :=
  ∀ pre post, let r := uCxStringToIntList (pre ++ s ++ 0 :: post) pre.length
    (r.2 ≠ none → ∃ vs, ListText s vs) ∧
      ∀ vs, ListText s vs → ∃ ints, r.2 = some ints ∧ ints.length = vs.length ∧
        loadI16s r.1 (ints.pIntValues.getD 0) ints.length = vs

/-- Something stands behind the list, or a numeral has a blank or a plus sign. -/
def BeyondList (s : List UInt8) : Prop :=
  (∃ t, t ≠ [] ∧ s = ch '[' :: ch ']' :: t) ∨
    ∃ gs t, LooseList gs t s ∧ (t ≠ [] ∨ ∃ g ∈ gs, ∀ n, ¬Denotes g n)

/-! ## Integers between commas -/

/-- The number that is taken from a text. -/
def intValue (g : List UInt8) : Int16 := Int16.ofInt (strtol 10 g).1

/-- A number of a list and what is behind it. -/
def intItem (s : List UInt8) : Option (Int16 × List UInt8) :=
  if (strtol 10 s).2.length = s.length ∨ (strtol 10 s).1 < -32768 ∨ 32767 < (strtol 10 s).1 then none
  else some (Int16.ofInt (strtol 10 s).1, (strtol 10 s).2)

theorem LooseInt.read {g : List UInt8} (h : LooseInt g) {rest : List UInt8}
    (hstop : ∀ c ∈ rest.head?, Stops c) : ∃ n, strtol 10 (g ++ rest) = (n, rest) ∧ strtol 10 g = (n, []) ∧
      -2 ^ 15 ≤ n ∧ n < 2 ^ 15 := by
  obtain ⟨n, hnum, h1, h2⟩ := h
  have hclamp : clampLong n = n := clampLong_eq (by omega) (by omega)
  have hread := hnum.strtol_append (by decide) hstop
  have halone := hnum.strtol_eq (by decide)
  rw [hclamp] at hread halone
  exact ⟨n, hread, halone, h1, h2⟩

theorem LooseInt.ne_nil {g : List UInt8} (h : LooseInt g) : g ≠ [] := by
  obtain ⟨n, hnum, -⟩ := h
  exact hnum.ne_nil

theorem LooseInt.not_stops {g : List UInt8} (h : LooseInt g) {c : UInt8} (hc : c ∈ g) : ¬Stops c := by
  obtain ⟨n, hnum, -⟩ := h
  exact hnum.not_stops (by decide) hc

theorem intItem_iff (s : List UInt8) (v : Int16) (rest : List UInt8) (hstop : ∀ c ∈ rest.head?, Stops c) :
    intItem s = some (v, rest) ↔ s ≠ [] ∧ ∃ g, s = g ++ rest ∧ LooseInt g ∧ v = intValue g := by
  constructor
  · intro h
    unfold intItem at h
    split at h
    · cases h
    · next hok =>
      rcases hstrtol : strtol 10 s with ⟨value, rest'⟩
      rw [hstrtol] at h hok
      cases h
      rcases strtol_numeral hstrtol with ⟨-, rfl⟩ | ⟨g, n, rfl, hnum, rfl⟩
      · exact absurd (.inl rfl) hok
      · have hclamp : clampLong n = n ∧ -2 ^ 15 ≤ n ∧ n < 2 ^ 15 := by
          simp only [clampLong] at hok ⊢
          omega
        have hne : g ++ rest' ≠ [] := fun h => hnum.ne_nil (List.append_eq_nil_iff.1 h).1
        exact ⟨hne, g, rfl, ⟨n, hnum, hclamp.2⟩, by rw [intValue, hnum.strtol_eq (by decide)]⟩
  · rintro ⟨-, g, rfl, hg, rfl⟩
    obtain ⟨n, hread, halone, h1, h2⟩ := hg.read hstop
    have hpos := List.length_pos_iff.2 hg.ne_nil
    rw [intItem, hread, if_neg (by simp only [List.length_append]; omega), intValue, halone]

theorem commaInts_eq (n : Nat) (s : List UInt8) : commaInts n s = items intItem (ch ',') n s := by
  induction n generalizing s with
  | zero =>
    rw [commaInts, items, intItem]
    rcases strtol 10 s with ⟨value, rest⟩
    dsimp only
    split
    · rfl
    · rfl
  | succ n ih =>
    rw [commaInts, items, intItem]
    rcases strtol 10 s with ⟨value, rest⟩
    dsimp only
    split
    · rfl
    · rcases rest with - | ⟨c, cs⟩
      · rfl
      · by_cases hc : c = ch ','
        · simp [hc, ih]
        · simp [hc]

theorem commaInts_iff {n : Nat} {s rest : List UInt8} {vs : List Int16} (hstop : ∀ c ∈ rest.head?, Stops c) :
    commaInts n s = some (vs, rest) ↔ ∃ gs, gs.length = n + 1 ∧ (∀ g ∈ gs, LooseInt g) ∧
      vs = gs.map intValue ∧ s = [ch ','].intercalate gs ++ rest := by
  have hsep := stops_comma.head
  rw [commaInts_eq, items_iff intItem_iff hsep hstop]
  constructor
  · intro ⟨gs, hlen, hgs, hvs, hs, _⟩
    exact ⟨gs, hlen, hgs, hvs, hs⟩
  · intro ⟨gs, hlen, hgs, hvs, hs⟩
    exact ⟨gs, hlen, hgs, hvs, hs, fun hlast => absurd rfl (hgs [] (List.mem_of_getLast? hlast)).ne_nil⟩

/-- The commas up to the last character but one, when the integers end at the bracket. -/
theorem count_commas {gs : List (List UInt8)} (hne : gs ≠ []) (hgs : ∀ g ∈ gs, LooseInt g) (t : List UInt8) :
    ([ch ','].intercalate gs ++ ch ']' :: t).dropLast.count (ch ',') + 1 =
      gs.length + t.dropLast.count (ch ',') := by
  have hcount := count_intercalate hne fun g hg hc => (hgs g hg).not_stops hc stops_comma
  rw [List.dropLast_append_of_ne_nil (List.cons_ne_nil _ _), List.count_append, ← hcount]
  cases t with
  | nil => rfl
  | cons c t =>
    rw [List.dropLast_cons_cons, List.count_cons_of_ne (by decide)]
    omega

theorem loose_close {gs : List (List UInt8)} (hgs : ∀ g ∈ gs, LooseInt g) {c : UInt8} (hstop : Stops c)
    (hne : c ≠ ch ',') : c ∉ [ch ','].intercalate gs := fun hc => by
  rcases mem_intercalate.1 hc with ⟨g, hg, hc⟩ | ⟨hc, -⟩
  · exact (hgs g hg).not_stops hc hstop
  · exact hne hc

/-- Joined integers do not start with the bracket. -/
theorem loose_head {gs : List (List UInt8)} (hne : gs ≠ []) (hgs : ∀ g ∈ gs, LooseInt g) :
    ∃ c cs, [ch ','].intercalate gs = c :: cs ∧ c ≠ ch ']' := by
  have hnot := loose_close hgs stops_close (by decide)
  cases hs : [ch ','].intercalate gs with
  | nil =>
    obtain ⟨g, gs, rfl⟩ := List.exists_cons_of_ne_nil hne
    obtain ⟨c, cs, hcons⟩ := List.exists_cons_of_ne_nil (hgs g List.mem_cons_self).ne_nil
    have hmem : c ∈ [ch ','].intercalate (g :: gs) :=
      mem_intercalate.2 (.inl ⟨g, List.mem_cons_self, by rw [hcons]; exact List.mem_cons_self⟩)
    rw [hs] at hmem
    cases hmem
  | cons c cs =>
    refine ⟨c, cs, rfl, ?_⟩
    rw [hs] at hnot
    exact fun hc => hnot (hc ▸ List.mem_cons_self)

theorem bracketInts_empty (t : List UInt8) : bracketInts (ch '[' :: ch ']' :: t) = some [] := by
  rw [bracketInts, if_pos]
  simp

theorem bracketInts_loose {gs : List (List UInt8)} {t s : List UInt8} (h : LooseList gs t s) :
    bracketInts s = some (gs.map intValue) := by
  obtain ⟨hne, hgs, rfl, hbehind⟩ := h
  obtain ⟨c, cs, hcons, hc⟩ := loose_head hne hgs
  have hcount := count_commas hne hgs t
  rw [List.count_eq_zero.2 hbehind] at hcount
  have hstop := stops_close.head t
  have hlen : ([ch ','].intercalate gs ++ ch ']' :: t).dropLast.count (ch ',') + 1 = gs.length := by omega
  have hread := (commaInts_iff hstop).2 ⟨gs, hlen.symm, hgs, rfl, rfl⟩
  have hempty : ¬(2 ≤ (ch '[' :: ([ch ','].intercalate gs ++ ch ']' :: t)).length ∧
      (ch '[' :: ([ch ','].intercalate gs ++ ch ']' :: t)).headD 0 = ch '[' ∧
      (ch '[' :: ([ch ','].intercalate gs ++ ch ']' :: t)).getD 1 0 = ch ']') := by
    rw [hcons]
    exact fun h => hc h.2.2
  have hlong : ¬((ch '[' :: ([ch ','].intercalate gs ++ ch ']' :: t)).length < 3 ∨
      (ch '[' :: ([ch ','].intercalate gs ++ ch ']' :: t)).headD 0 ≠ ch '[') := by
    rw [hcons]
    simp
    omega
  rw [bracketInts, if_neg hempty, if_neg hlong]
  simp only [List.drop_succ_cons, List.drop_zero, hread, List.headD_cons, if_true]

/-- **What `bracketInts` takes.** -/
theorem bracketInts_cases {s : List UInt8} {vs : List Int16} (h : bracketInts s = some vs) :
    (∃ t, s = ch '[' :: ch ']' :: t) ∨ ∃ gs t, LooseList gs t s := by
  unfold bracketInts at h
  split at h
  · next hempty =>
    match s, hempty with
    | c :: d :: t, hempty =>
      obtain ⟨-, hc, hd⟩ := hempty
      obtain rfl : c = ch '[' := hc
      obtain rfl : d = ch ']' := hd
      exact .inl ⟨t, rfl⟩
  · split at h
    · cases h
    · next hlong =>
      rw [not_or, Decidable.not_not] at hlong
      split at h
      · next vs' rest hread =>
        split at h
        · next hclose =>
          obtain ⟨t, rfl⟩ : ∃ t, rest = ch ']' :: t := by
            cases rest with
            | nil => exact absurd hclose (by decide)
            | cons c t => exact ⟨t, congrArg (· :: t) hclose⟩
          obtain ⟨gs, hlen, hgs, -, hs⟩ := (commaInts_iff (stops_close.head t)).1 hread
          have hne : gs ≠ [] := List.length_pos_iff.1 (by omega)
          have hcount := count_commas hne hgs t
          rw [← hs] at hcount
          have hnone : t.dropLast.count (ch ',') = 0 := by omega
          refine .inr ⟨gs, t, hne, hgs, ?_, List.count_eq_zero.1 hnone⟩
          cases s with
          | nil => exact absurd hlong.1 (by decide)
          | cons c s =>
            obtain rfl : c = ch '[' := hlong.2
            exact congrArg (ch '[' :: ·) hs
        · cases h
      · cases h

/-- What becomes of a string that `bracketInts` takes. -/
theorem stringToIntList_some {s : List UInt8} (h0 : 0 ∉ s) {vs : List Int16} (h : bracketInts s = some vs)
    (pre post : List UInt8) :
    ∃ ints, (uCxStringToIntList (pre ++ s ++ 0 :: post) pre.length).2 = some ints ∧
      ints.length = vs.length ∧ loadI16s (uCxStringToIntList (pre ++ s ++ 0 :: post) pre.length).1
        (ints.pIntValues.getD 0) ints.length = vs := by
  have hlength : ∀ (n p : Nat) (m : List UInt8), (loadI16s m p n).length = n := by
    intro n
    induction n with
    | zero => exact fun p m => rfl
    | succ n ih => exact fun p m => congrArg (· + 1) (ih (p + 2) m)
  obtain ⟨t', -, hmem, hmatch⟩ := stringToIntList_mid h0 pre post
  rw [h] at hmatch
  obtain ⟨ints, hints, hload⟩ := hmatch
  have hvs := hload post
  rw [← hmem] at hvs
  have hlen := congrArg List.length hvs
  rw [hlength] at hlen
  exact ⟨ints, hints, hlen, hvs⟩

theorem stringToIntList_none {s : List UInt8} (h0 : 0 ∉ s) (h : bracketInts s = none)
    (pre post : List UInt8) : (uCxStringToIntList (pre ++ s ++ 0 :: post) pre.length).2 = none := by
  obtain ⟨t', -, -, hmatch⟩ := stringToIntList_mid h0 pre post
  rw [h] at hmatch
  exact hmatch

/-! ## The result -/

theorem Denotes.chars {g : List UInt8} {n : Int} (h : Denotes g n) {c : UInt8} (hc : c ∈ g) :
    isdigit c = true ∨ c = ch '-' := by
  cases h with
  | unsigned _ hds => exact .inl (hds c hc)
  | negative _ hds =>
    rcases List.mem_cons.1 hc with hc | hc
    · exact .inr hc
    · exact .inl (hds c hc)

/-- A character of a decimal numeral is none of these. -/
theorem numeral_char (c : UInt8) (h : isdigit c = true ∨ c = ch '-') :
    isspace c = false ∧ c ≠ ch '+' ∧ c ≠ ch ']' := by
  rcases h with h | rfl
  · obtain ⟨hspace, -, hplus⟩ := not_space_of_isdigit c h
    exact ⟨hspace, hplus, ne_of_class h rfl⟩
  · decide

/-- A number of a list is a decimal numeral unless it has a blank or a plus sign. -/
theorem LooseInt.denotes {g : List UInt8} (h : LooseInt g) :
    Denotes g (intValue g).toInt ∨ ∃ c ∈ g, isspace c = true ∨ c = ch '+' := by
  obtain ⟨n, -, halone, h1, h2⟩ := @LooseInt.read g h [] nofun
  have hvalue : (intValue g).toInt = n := by
    rw [intValue, halone, Int16.toInt_ofInt_of_le h1 h2]
  obtain ⟨n', hnum, h1', h2'⟩ := h
  have hsame : n' = n := by
    have heq := hnum.strtol_eq (by decide)
    rw [halone, clampLong_eq (by omega) (by omega)] at heq
    exact (Prod.mk.inj heq).1.symm
  obtain ⟨c, cs, rfl⟩ := List.exists_cons_of_ne_nil hnum.ne_nil
  rw [hvalue, ← hsame]
  rcases hnum.denotes with hden | hhead
  · exact .inl hden
  · exact .inr ⟨c, List.mem_cons_self, hhead⟩

theorem ListText.takes {s : List UInt8} {vs : List Int16} (h : ListText s vs) : bracketInts s = some vs := by
  cases h with
  | empty => exact bracketInts_empty []
  | @ints xs hne hxs =>
    have hloose : ∀ x ∈ xs, LooseInt x.1 ∧ intValue x.1 = x.2 := fun x hx => by
      have h1 := x.2.le_toInt
      have h2 := x.2.toInt_lt
      refine ⟨⟨_, (hxs x hx).numeral, h1, h2⟩, ?_⟩
      have hclamp : clampLong x.2.toInt = x.2.toInt := clampLong_eq (by omega) (by omega)
      rw [intValue, (hxs x hx).strtol_eq, hclamp, Int16.ofInt_toInt]
    have hgs : ∀ g ∈ xs.map Prod.fst, LooseInt g := List.forall_mem_map.2 fun x hx => (hloose x hx).1
    have hne' : xs.map Prod.fst ≠ [] := fun h => hne (List.map_eq_nil_iff.1 h)
    have hvs : (xs.map Prod.fst).map intValue = xs.map Prod.snd := by
      rw [List.map_map]
      exact List.map_congr_left fun x hx => (hloose x hx).2
    rw [← hvs]
    exact bracketInts_loose ⟨hne', hgs, rfl, List.not_mem_nil⟩

/-- The text of a list: what is between the brackets is numerals and commas. -/
theorem ListText.body {s : List UInt8} {vs : List Int16} (h : ListText s vs) :
    ∃ body, s = ch '[' :: (body ++ [ch ']']) ∧
      ∀ c ∈ body, isspace c = false ∧ c ≠ ch '+' ∧ c ≠ ch ']' := by
  cases h with
  | empty => exact ⟨[], rfl, nofun⟩
  | @ints xs _ hxs =>
    refine ⟨_, rfl, fun c hc => ?_⟩
    rcases mem_intercalate.1 hc with ⟨g, hg, hc⟩ | ⟨rfl, -⟩
    · obtain ⟨x, hx, rfl⟩ := List.mem_map.1 hg
      exact numeral_char c ((hxs x hx).chars hc)
    · decide

/-- What goes beyond a list is no list. -/
theorem BeyondList.not_listText {s : List UInt8} (h : BeyondList s) (vs : List Int16) : ¬ListText s vs := by
  intro htext
  obtain ⟨body, hs, hchars⟩ := htext.body
  have hclose : ch ']' ∉ body := fun hc => (hchars _ hc).2.2 rfl
  have hsplit : ∀ {front t : List UInt8}, s = ch '[' :: (front ++ ch ']' :: t) → body = front ∧ t = [] := by
    intro front t heq
    rw [hs] at heq
    obtain ⟨hfront, -, ht⟩ :=
      (List.append_cons_inj_of_notMem hclose List.not_mem_nil).1 (List.cons.inj heq).2
    exact ⟨hfront, ht.symm⟩
  rcases h with ⟨t, ht, hst⟩ | ⟨gs, t, hloose, hbeyond⟩
  · exact ht (@hsplit [] t hst).2
  · obtain ⟨hfront, ht⟩ := hsplit hloose.text
    rcases hbeyond with hne | ⟨g, hg, hno⟩
    · exact hne ht
    · rcases (hloose.ints g hg).denotes with hd | ⟨c, hc, hbad⟩
      · exact hno _ hd
      · have hmem : c ∈ body := hfront ▸ mem_intercalate.2 (.inl ⟨g, hg, hc⟩)
        obtain ⟨hspace, hplus, -⟩ := hchars c hmem
        rcases hbad with hbad | hbad
        · rw [hspace] at hbad
          cases hbad
        · exact hplus hbad

/-- A list whose numbers are decimal numerals. -/
theorem LooseList.listText {gs : List (List UInt8)} {s : List UInt8} (h : LooseList gs [] s)
    (hall : ∀ g ∈ gs, ∃ n, Denotes g n) : ListText s (gs.map intValue) := by
  obtain ⟨hne, hgs, rfl, -⟩ := h
  have hvalue : ∀ g ∈ gs, Denotes g (intValue g).toInt := fun g hg => by
    rcases (hgs g hg).denotes with hd | ⟨c, hc, hbad⟩
    · exact hd
    · obtain ⟨n, hn⟩ := hall g hg
      obtain ⟨hspace, hplus, -⟩ := numeral_char c (hn.chars hc)
      rcases hbad with hbad | hbad
      · rw [hspace] at hbad
        cases hbad
      · exact absurd hbad hplus
  have hne' : gs.map (fun g => (g, intValue g)) ≠ [] := fun h => hne (List.map_eq_nil_iff.1 h)
  have htext := ListText.ints hne' (List.forall_mem_map.2 hvalue)
  rw [List.map_map, List.map_map, show Prod.fst ∘ (fun g => (g, intValue g)) = id from rfl, List.map_id] at htext
  exact htext

theorem BeyondList.not_reads {s : List UInt8} (h : BeyondList s) (h0 : 0 ∉ s) : ¬ReadsListExactly s := by
  intro hreads
  have htakes : ∃ vs, bracketInts s = some vs := by
    rcases h with ⟨t, -, rfl⟩ | ⟨gs, t, hloose, -⟩
    · exact ⟨_, bracketInts_empty t⟩
    · exact ⟨_, bracketInts_loose hloose⟩
  obtain ⟨vs, hvs⟩ := htakes
  obtain ⟨ints, hints, -⟩ := stringToIntList_some h0 hvs [] []
  obtain ⟨vs', htext⟩ := (hreads [] []).1 (by rw [hints]; exact Option.some_ne_none ints)
  exact h.not_listText vs' htext

/-- **`uCxStringToIntList` reads exactly the lists**, unless something stands behind the list or a numeral has a
blank or a plus sign. -/
theorem readsListExactly_iff {s : List UInt8} (h0 : 0 ∉ s) : ReadsListExactly s ↔ ¬BeyondList s := by
  constructor
  · exact fun h hbeyond => hbeyond.not_reads h0 h
  · intro hbeyond pre post
    refine ⟨fun hsome => ?_, fun vs htext => stringToIntList_some h0 htext.takes pre post⟩
    cases htakes : bracketInts s with
    | none => exact absurd (stringToIntList_none h0 htakes pre post) hsome
    | some vs =>
      rcases bracketInts_cases htakes with ⟨t, rfl⟩ | ⟨gs, t, hloose⟩
      · have ht : t = [] := Classical.byContradiction fun ht => hbeyond (.inl ⟨t, ht, rfl⟩)
        exact ⟨[], ht ▸ .empty⟩
      · have ht : t = [] := Classical.byContradiction fun ht => hbeyond (.inr ⟨gs, t, hloose, .inl ht⟩)
        subst ht
        refine ⟨_, hloose.listText fun g hg => Classical.byContradiction fun hno => ?_⟩
        exact hbeyond (.inr ⟨gs, [], hloose, .inr ⟨g, hg, fun n hn => hno ⟨n, hn⟩⟩⟩)

theorem readsListExactly_iff_two : ReadsListExactly (text "[-1,23]") ↔ ¬BeyondList (text "[-1,23]") :=
  readsListExactly_iff (by decide)

theorem beyond_list_read : ¬ReadsListExactly (text "[]x") ∧ ¬ReadsListExactly (text "[+1]") := by
  have hplus : LooseInt (text "+1") :=
    ⟨1, @Numeral.mk 10 [] [ch '+'] [] [ch '1'] nofun (.inr (.inl rfl)) (.inl rfl) (List.cons_ne_nil _ _)
      (List.forall_mem_singleton.2 (by decide)), by decide⟩
  have hno : ∀ n, ¬Denotes (text "+1") n := fun n hn => by
    have hchar : isdigit (ch '+') = true ∨ ch '+' = ch '-' := hn.chars List.mem_cons_self
    exact absurd hchar (by decide)
  have hlist : LooseList [text "+1"] [] (text "[+1]") :=
    ⟨List.cons_ne_nil _ _, List.forall_mem_singleton.2 hplus, rfl, List.not_mem_nil⟩
  constructor
  · exact BeyondList.not_reads (.inl ⟨[ch 'x'], List.cons_ne_nil _ _, rfl⟩) (by decide)
  · exact BeyondList.not_reads (.inr ⟨_, _, hlist, .inr ⟨_, List.mem_cons_self, hno⟩⟩) (by decide)
