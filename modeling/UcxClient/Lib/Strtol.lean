import UcxClient.Lib.Ascii

/-!
# What `strtol` reads

`Numeral base g n`: the characters `g` are blanks, a sign, the prefix `0x` in base 16, and digits, of the
number `n`; all but the digits may be missing. `strtol` reads a numeral and stops in front of what cannot
go on with it (`strtol_numeral`, `Numeral.strtol_append`), or it reads nothing (`strtol_stop`).
-/

/-- The number behind a sign. -/
def signed (sign : List UInt8) (n : Nat) : Int := if sign = [ch '-'] then -(n : Int) else n

/-- Blanks, a sign, a prefix and digits. -/
inductive Numeral (base : Nat) : List UInt8 → Int → Prop
  | mk {ws sign pre ds : List UInt8} :
      (∀ c ∈ ws, isspace c = true) →
      (sign = [] ∨ sign = [ch '+'] ∨ sign = [ch '-']) →
      (pre = [] ∨ base = 16 ∧ (pre = [ch '0', ch 'x'] ∨ pre = [ch '0', ch 'X'])) →
      ds ≠ [] → (∀ c ∈ ds, digitVal c < base) →
      Numeral base (ws ++ (sign ++ (pre ++ ds))) (signed sign (ofDigits base 0 ds))

theorem Numeral.ne_nil {base : Nat} {g : List UInt8} {n : Int} (h : Numeral base g n) : g ≠ [] := by
  obtain ⟨-, -, -, hne, -⟩ := h
  simp [hne]

theorem numeral_of_digits {g : List UInt8} {base : Nat} (hne : g ≠ []) (h : ∀ c ∈ g, digitVal c < base) :
    Numeral base g (ofDigits base 0 g) := by
  have := @Numeral.mk base [] [] [] g nofun (.inl rfl) (.inl rfl) hne h
  exact this

theorem numeral_of_minus {ds : List UInt8} {base : Nat} (hne : ds ≠ []) (h : ∀ c ∈ ds, digitVal c < base) :
    Numeral base (ch '-' :: ds) (-(ofDigits base 0 ds : Nat)) := by
  have := @Numeral.mk base [] [ch '-'] [] ds nofun (.inr (.inr rfl)) (.inl rfl) hne h
  exact this

/-- A character that no numeral starts with or goes on with. -/
structure Stops (c : UInt8) : Prop where
  digitVal : digitVal c = 36
  space : isspace c = false
  sign : c ≠ ch '-' ∧ c ≠ ch '+'

theorem Stops.head {c : UInt8} (h : Stops c) (s : List UInt8) : ∀ d ∈ (c :: s).head?, Stops d := fun d hd => by
  cases hd
  exact h

theorem stops_dot : Stops (ch '.') := ⟨by decide, by decide, by decide⟩

theorem stops_colon : Stops (ch ':') := ⟨by decide, by decide, by decide⟩

theorem stops_comma : Stops (ch ',') := ⟨by decide, by decide, by decide⟩

theorem stops_open : Stops (ch '[') := ⟨by decide, by decide, by decide⟩

theorem stops_close : Stops (ch ']') := ⟨by decide, by decide, by decide⟩

/-- None of its characters stops it. -/
theorem Numeral.not_stops {base : Nat} {g : List UInt8} {n : Int} (h : Numeral base g n) (hbase : base ≤ 36)
    {c : UInt8} (hc : c ∈ g) : ¬Stops c := by
  intro ⟨hdigit, hspace, hminus, hplus⟩
  obtain ⟨hws, hsign, hpre, -, hds⟩ := h
  rcases List.mem_append.1 hc with hc | hc
  · rw [hws c hc] at hspace
    cases hspace
  · rcases List.mem_append.1 hc with hc | hc
    · rcases hsign with rfl | rfl | rfl
      · cases hc
      · exact hplus (List.mem_singleton.1 hc)
      · exact hminus (List.mem_singleton.1 hc)
    · rcases List.mem_append.1 hc with hc | hc
      · have hx : digitVal (ch '0') ≠ 36 ∧ digitVal (ch 'x') ≠ 36 ∧ digitVal (ch 'X') ≠ 36 := by decide
        rcases hpre with rfl | ⟨-, rfl | rfl⟩
        · cases hc
        · simp only [List.mem_cons, List.not_mem_nil, or_false] at hc
          rcases hc with rfl | rfl
          · exact hx.1 hdigit
          · exact hx.2.1 hdigit
        · simp only [List.mem_cons, List.not_mem_nil, or_false] at hc
          rcases hc with rfl | rfl
          · exact hx.1 hdigit
          · exact hx.2.2 hdigit
      · have := hds c hc
        omega

/-! ## The pieces -/

theorem digit_facts : ∀ c, digitVal c < 36 → isspace c = false ∧ c ≠ ch '-' ∧ c ≠ ch '+' := by
  apply forall_byte
  decide +kernel

theorem strtolDigits_spec {base acc v : Nat} {s rest : List UInt8}
    (h : strtolDigits base acc s = (v, rest)) :
    ∃ ds, s = ds ++ rest ∧ (∀ c ∈ ds, digitVal c < base) ∧ v = ofDigits base acc ds := by
  induction s generalizing acc with
  | nil =>
    cases h
    exact ⟨[], rfl, nofun, rfl⟩
  | cons c cs ih =>
    rw [strtolDigits] at h
    split at h
    · next hc =>
      obtain ⟨ds, rfl, hds, rfl⟩ := ih h
      exact ⟨c :: ds, rfl, List.forall_mem_cons.2 ⟨hc, hds⟩, rfl⟩
    · cases h
      exact ⟨[], rfl, nofun, rfl⟩

theorem strtolSign_spec {s rest : List UInt8} {neg : Bool} (h : strtolSign s = (neg, rest)) :
    ∃ sign, s = sign ++ rest ∧ (sign = [] ∨ sign = [ch '+'] ∨ sign = [ch '-']) ∧
      neg = decide (sign = [ch '-']) := by
  cases s with
  | nil =>
    cases h
    exact ⟨[], rfl, .inl rfl, rfl⟩
  | cons c cs =>
    rw [strtolSign] at h
    repeat' split at h
    · next hc =>
      cases h
      exact ⟨[ch '-'], by rw [hc]; rfl, .inr (.inr rfl), rfl⟩
    · next hc =>
      cases h
      exact ⟨[ch '+'], by rw [hc]; rfl, .inr (.inl rfl), rfl⟩
    · cases h
      exact ⟨[], rfl, .inl rfl, rfl⟩

theorem strtolPrefix_spec (base : Nat) (s : List UInt8) :
    ∃ pre, s = pre ++ strtolPrefix base s ∧
      (pre = [] ∨ base = 16 ∧ (pre = [ch '0', ch 'x'] ∨ pre = [ch '0', ch 'X'])) := by
  unfold strtolPrefix
  split
  · split
    · next h =>
      obtain ⟨hbase, rfl, rfl | rfl, -⟩ := h
      · exact ⟨[ch '0', ch 'x'], rfl, .inr ⟨hbase, .inl rfl⟩⟩
      · exact ⟨[ch '0', ch 'X'], rfl, .inr ⟨hbase, .inr rfl⟩⟩
    · exact ⟨[], rfl, .inl rfl⟩
  · exact ⟨[], rfl, .inl rfl⟩

/-- **What `strtol` reads**: nothing, or a numeral. -/
theorem strtol_numeral {base : Nat} {s rest : List UInt8} {v : Int} (h : strtol base s = (v, rest)) :
    v = 0 ∧ rest = s ∨ ∃ g n, s = g ++ rest ∧ Numeral base g n ∧ v = clampLong n := by
  have hws : ∀ c ∈ s.takeWhile isspace, isspace c = true := List.all_eq_true.1 List.all_takeWhile
  have hs : s = s.takeWhile isspace ++ s.dropWhile isspace := List.takeWhile_append_dropWhile.symm
  rcases hsign : strtolSign (s.dropWhile isspace) with ⟨neg, s1⟩
  obtain ⟨sign, heq, hsigns, hneg⟩ := strtolSign_spec hsign
  obtain ⟨pre, hpre, hpres⟩ := strtolPrefix_spec base s1
  unfold strtol at h
  rw [hsign] at h
  dsimp only at h
  split at h
  · cases h
    exact .inl ⟨rfl, rfl⟩
  · next c cs hcons =>
    split at h
    · next hc =>
      rw [strtolDigits, if_pos hc] at h
      rcases hdigits : strtolDigits base (0 * base + digitVal c) cs with ⟨n, rest'⟩
      obtain ⟨ds, rfl, hds, rfl⟩ := strtolDigits_spec hdigits
      rw [hdigits] at h
      cases h
      have hnum := Numeral.mk hws hsigns hpres (List.cons_ne_nil c ds) (List.forall_mem_cons.2 ⟨hc, hds⟩)
      refine .inr ⟨_, _, ?_, hnum, ?_⟩
      · rw [hcons] at hpre
        rw [hpre] at heq
        rw [heq] at hs
        simpa using hs
      · rw [hneg, signed]
        simp only [decide_eq_true_eq]
        rfl
    · cases h
      exact .inl ⟨rfl, rfl⟩

/-- `strtol` leaves an end of the string. -/
theorem strtol_suffix (base : Nat) (s : List UInt8) : (strtol base s).2 <:+ s := by
  rcases hstrtol : strtol base s with ⟨v, rest⟩
  rcases strtol_numeral hstrtol with ⟨-, rfl⟩ | ⟨g, n, rfl, -⟩
  · exact List.suffix_refl rest
  · exact List.suffix_append g rest

/-- A decimal numeral without a blank in front is digits behind a sign. -/
theorem Numeral.decimal {g : List UInt8} {n : Int} (h : Numeral 10 g n) (hspace : isspace (g.headD 0) = false) :
    ∃ sign ds, g = sign ++ ds ∧ (sign = [] ∨ sign = [ch '+'] ∨ sign = [ch '-']) ∧ ds ≠ [] ∧
      (∀ c ∈ ds, isdigit c = true) ∧ n = signed sign (ofDigits 10 0 ds) := by
  cases h with
  | @mk ws sign pre ds hws hsign hpre hne hds =>
    obtain rfl : pre = [] := hpre.resolve_right fun h => absurd h.1 (by decide)
    cases ws with
    | cons c ws =>
      have hblank : isspace c = true := hws c List.mem_cons_self
      rw [List.cons_append, List.headD_cons, hblank] at hspace
      cases hspace
    | nil => exact ⟨sign, ds, rfl, hsign, hne, fun c hc => isdigit_of_digitVal c (hds c hc), rfl⟩

/-- If it starts with a digit it is nothing but digits. -/
theorem Numeral.digits {g : List UInt8} {n : Int} (h : Numeral 10 g n)
    (hhead : isdigit (g.headD 0) = true) : (∀ c ∈ g, isdigit c = true) ∧ n = ofDigits 10 0 g := by
  obtain ⟨sign, ds, rfl, hsign, -, hds, rfl⟩ := h.decimal (not_space_of_isdigit _ hhead).1
  rcases hsign with rfl | rfl | rfl
  · exact ⟨hds, rfl⟩
  · cases hhead
  · cases hhead

/-! ## Numerals are read -/

section
variable {base : Nat} {g rest : List UInt8} {n : Int}

theorem strtolPrefix_digits {c : UInt8} {ds : List UInt8} (hds : ∀ d ∈ c :: ds, digitVal d < base)
    (hrest : ∀ d ∈ rest.head?, digitVal d = 36) :
    strtolPrefix base (c :: ds ++ rest) = c :: ds ++ rest := by
  have hx : digitVal (ch 'x') = 33 ∧ digitVal (ch 'X') = 33 := by decide
  unfold strtolPrefix
  split
  · next z x d cs heq =>
    split
    · next h =>
      -- the second character is an `x`, which is no digit and stops no numeral
      obtain ⟨rfl, -, hxx, -⟩ := h
      have h33 : digitVal x = 33 := by
        rcases hxx with rfl | rfl
        · exact hx.1
        · exact hx.2
      cases ds with
      | nil =>
        have hcons : rest = x :: d :: cs := (List.cons.inj heq).2
        have := hrest x (by rw [hcons]; rfl)
        omega
      | cons d' ds =>
        obtain rfl : d' = x := (List.cons.inj (List.cons.inj heq).2).1
        have := hds d' (List.mem_cons_of_mem _ List.mem_cons_self)
        omega
    · exact heq.symm
  · rfl

theorem strtolPrefix_append {pre ds : List UInt8}
    (hpre : pre = [] ∨ base = 16 ∧ (pre = [ch '0', ch 'x'] ∨ pre = [ch '0', ch 'X'])) (hne : ds ≠ [])
    (hds : ∀ d ∈ ds, digitVal d < base) (hrest : ∀ d ∈ rest.head?, digitVal d = 36) :
    strtolPrefix base (pre ++ (ds ++ rest)) = ds ++ rest := by
  obtain ⟨c, ds, rfl⟩ := List.exists_cons_of_ne_nil hne
  rcases hpre with rfl | ⟨rfl, hpre⟩
  · exact strtolPrefix_digits hds hrest
  · have hc := hds c List.mem_cons_self
    rcases hpre with rfl | rfl
    · simp [strtolPrefix, hc]
    · simp [strtolPrefix, hc]

/-- What is behind the blanks and the sign starts with a digit. -/
theorem head_digit {pre ds : List UInt8} (hbase : base ≤ 36)
    (hpre : pre = [] ∨ base = 16 ∧ (pre = [ch '0', ch 'x'] ∨ pre = [ch '0', ch 'X'])) (hne : ds ≠ [])
    (hds : ∀ d ∈ ds, digitVal d < base) : ∃ c cs, pre ++ (ds ++ rest) = c :: cs ∧ digitVal c < 36 := by
  obtain ⟨c, ds, rfl⟩ := List.exists_cons_of_ne_nil hne
  have hc := hds c List.mem_cons_self
  rcases hpre with rfl | ⟨rfl, rfl | rfl⟩
  · exact ⟨c, ds ++ rest, rfl, by omega⟩
  · exact ⟨ch '0', _, rfl, by decide⟩
  · exact ⟨ch '0', _, rfl, by decide⟩

theorem strtolSign_append {sign s : List UInt8} {c : UInt8} {cs : List UInt8} (hs : s = c :: cs)
    (hc : digitVal c < 36) (hsign : sign = [] ∨ sign = [ch '+'] ∨ sign = [ch '-']) :
    (sign ++ s).dropWhile isspace = sign ++ s ∧ strtolSign (sign ++ s) = (decide (sign = [ch '-']), s) := by
  subst hs
  obtain ⟨hspace, hminus, hplus⟩ := digit_facts c hc
  rcases hsign with rfl | rfl | rfl
  · simp [strtolSign, hspace, hminus, hplus]
  · exact ⟨rfl, rfl⟩
  · exact ⟨rfl, rfl⟩

/-- **A numeral is read to its end.** -/
theorem Numeral.strtol_append (h : Numeral base g n) (hbase : base ≤ 36)
    (hrest : ∀ c ∈ rest.head?, Stops c) : strtol base (g ++ rest) = (clampLong n, rest) := by
  cases h with
  | @mk ws sign pre ds hws hsign hpre hne hds =>
    have hstop : ∀ c ∈ rest.head?, digitVal c = 36 := fun c hc => (hrest c hc).digitVal
    have hend : ∀ c ∈ rest.head?, ¬digitVal c < base := fun c hc => by
      have := hstop c hc
      omega
    obtain ⟨c, cs, hcons, hc⟩ := @head_digit base rest pre ds hbase hpre hne hds
    obtain ⟨hdrop, hneg⟩ := strtolSign_append hcons hc hsign
    have hlongest := strtolPrefix_append hpre hne hds hstop
    have hdigits := strtolDigits_append 0 hds hend
    have hassoc : ws ++ (sign ++ (pre ++ ds)) ++ rest = ws ++ (sign ++ (pre ++ (ds ++ rest))) := by simp
    unfold strtol
    rw [hassoc, List.dropWhile_append_of_pos hws, hdrop, hneg]
    dsimp only
    rw [hlongest]
    obtain ⟨d, ds, rfl⟩ := List.exists_cons_of_ne_nil hne
    simp only [List.cons_append, if_pos (hds d List.mem_cons_self)]
    rw [← List.cons_append, hdigits, signed]
    simp only [decide_eq_true_eq]

theorem Numeral.strtol_eq (h : Numeral base g n) (hbase : base ≤ 36) :
    strtol base g = (clampLong n, []) := by
  have hall : strtol base (g ++ []) = _ := h.strtol_append hbase nofun
  rwa [List.append_nil] at hall

theorem strtol_stop {c : UInt8} {cs : List UInt8} (hbase : base ≤ 36) (h : Stops c) :
    strtol base (c :: cs) = (0, c :: cs) := by
  have hdrop : (c :: cs).dropWhile isspace = c :: cs := by simp [h.space]
  have hsign : strtolSign (c :: cs) = (false, c :: cs) := by
    rw [strtolSign, if_neg h.sign.1, if_neg h.sign.2]
  have hlongest : strtolPrefix base (c :: cs) = c :: cs := by
    unfold strtolPrefix
    split
    · next heq =>
      split
      · next h0 =>
        obtain ⟨-, rfl, -⟩ := h0
        obtain rfl := (List.cons.inj heq).1
        exact absurd h.digitVal (by decide)
      · exact heq.symm
    · rfl
  have hdigit : ¬digitVal c < base := by
    have := h.digitVal
    omega
  unfold strtol
  rw [hdrop, hsign]
  dsimp only
  rw [hlongest]
  exact if_neg hdigit

end
