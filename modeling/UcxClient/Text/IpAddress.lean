import UcxClient.Lib.Separated
import UcxClient.Lib.Strtol
import UcxClient.Text.RoundTrip

/-!
# Which texts are IP addresses

`IpText gs s a`: the text `s` is the address `a`, in the groups `gs`: four groups of decimal digits, or eight
groups of hexadecimal digits, with or without brackets. `LooseIp`: eight groups of what `strtol` takes for a
number in base 16, one of them with a blank, a sign or a prefix. `uCxStringToIpAddress` reads exactly the
addresses but for these texts, which it reads, too (`readsIpExactly_iff`).
-/

open Separated

/-! ## Addresses as texts -/

/-- The number of an address in network order. -/
def SockIpAddress.number : SockIpAddress → Nat
  | .v4 ipv4 => ipv4.toNat
  | .v6 w0 w1 w2 w3 => ((w3.toNat * 2 ^ 32 + w2.toNat) * 2 ^ 32 + w1.toNat) * 2 ^ 32 + w0.toNat

/-- The number of groups with these numbers. -/
def joined (base : Nat) (ns : List Nat) : Nat := ns.foldl (fun acc n => acc * base + n) 0

structure DecGroup (g : List UInt8) : Prop where
  ne : g ≠ []
  digits : ∀ c ∈ g, isdigit c = true
  le : ofDigits 10 0 g ≤ 255

structure HexGroup (g : List UInt8) : Prop where
  length : g.length ≤ 4
  digits : ∀ c ∈ g, digitVal c < 16

/-- `[s]` -/
def bracketed (s : List UInt8) : List UInt8 := ch '[' :: s ++ [ch ']']

inductive IpText (gs : List (List UInt8)) : List UInt8 → SockIpAddress → Prop
  | v4 {ipv4 : UInt32} : gs.length = 4 → (∀ g ∈ gs, DecGroup g) →
      ipv4.toNat = joined 256 (gs.map (ofDigits 10 0)) → IpText gs ([ch '.'].intercalate gs) (.v4 ipv4)
  | v6 {s : List UInt8} {w0 w1 w2 w3 : UInt32} : gs.length = 8 → (∀ g ∈ gs, HexGroup g) →
      (s = [ch ':'].intercalate gs ∨ s = bracketed ([ch ':'].intercalate gs)) →
      (SockIpAddress.v6 w0 w1 w2 w3).number = joined 65536 (gs.map (ofDigits 16 0)) →
      IpText gs s (.v6 w0 w1 w2 w3)

/-- What `strtol` takes for a number in base 16, of four characters at most. -/
def LooseGroup (g : List UInt8) : Prop := g = [] ∨ g.length ≤ 4 ∧ ∃ n, Numeral 16 g n

/-- The groups of an IPv6 text as `uCxStringToIpAddress` takes it. -/
structure LooseText (gs : List (List UInt8)) (s : List UInt8) : Prop where
  length : gs.length = 8
  groups : ∀ g ∈ gs, LooseGroup g
  text : s = [ch ':'].intercalate gs ∧ gs.getLast? ≠ some [] ∨ s = bracketed ([ch ':'].intercalate gs)

/-- Some of the groups have a blank, a sign or a prefix. -/
def LooseIp (s : List UInt8) : Prop := ∃ gs, LooseText gs s ∧ ∃ g ∈ gs, ¬HexGroup g

/-- `uCxStringToIpAddress` takes `s` only as the address that it is, and it takes it if it is one whose last group
is not empty. -/
def ReadsIpExactly (s : List UInt8) : Prop :=
  (∀ a, uCxStringToIpAddress s = some a → ∃ gs, IpText gs s a) ∧
    ∀ gs a, IpText gs s a → gs.getLast? ≠ some [] → uCxStringToIpAddress s = some a

/-! ## Groups of decimal digits -/

/-- A group of an IPv4 address and what is behind it. -/
def decItem (s : List UInt8) : Option (UInt32 × List UInt8) :=
  if !isdigit (s.headD 0) then none
  else if (strtol 10 s).1 < 0 ∨ 255 < (strtol 10 s).1 then none
  else some (UInt32.ofNat (strtol 10 s).1.toNat, (strtol 10 s).2)

theorem decItem_iff (s : List UInt8) (v : UInt32) (rest : List UInt8)
    (hstop : ∀ c ∈ rest.head?, Stops c) : decItem s = some (v, rest) ↔
      s ≠ [] ∧ ∃ g, s = g ++ rest ∧ DecGroup g ∧ v = UInt32.ofNat (ofDigits 10 0 g) := by
  constructor
  · intro h
    unfold decItem at h
    split at h
    · cases h
    · next hdigit =>
      have hdigit : isdigit (s.headD 0) = true := by simpa using hdigit
      have hne : s ≠ [] := by
        rintro rfl
        cases hdigit
      split at h
      · cases h
      · next hrange =>
        rcases hstrtol : strtol 10 s with ⟨value, rest'⟩
        rw [hstrtol] at h hrange
        cases h
        refine ⟨hne, ?_⟩
        rcases strtol_numeral hstrtol with ⟨-, rfl⟩ | ⟨g, n, rfl, hnum, rfl⟩
        · -- a digit stops no numeral
          obtain ⟨c, cs, rfl⟩ := List.exists_cons_of_ne_nil hne
          have hc := (hstop c rfl).digitVal
          have := digitVal_lt_ten hdigit
          simp only [List.headD_cons] at this
          omega
        · have hg : g ≠ [] := hnum.ne_nil
          obtain ⟨c, cs, rfl⟩ := List.exists_cons_of_ne_nil hg
          obtain ⟨hdigits, rfl⟩ := hnum.digits hdigit
          have hclamp : clampLong (ofDigits 10 0 (c :: cs)) = ofDigits 10 0 (c :: cs) ∧
              ofDigits 10 0 (c :: cs) ≤ 255 := by
            simp only [clampLong] at hrange ⊢
            omega
          exact ⟨c :: cs, rfl, ⟨hg, hdigits, hclamp.2⟩, by rw [hclamp.1, Int.toNat_natCast]⟩
  · rintro ⟨-, g, rfl, ⟨hg, hdigits, hle⟩, rfl⟩
    have hnum := numeral_of_digits hg fun c hc => digitVal_lt_ten (hdigits c hc)
    have hclamp : clampLong (ofDigits 10 0 g) = ofDigits 10 0 g := clampLong_eq (by omega) (by omega)
    obtain ⟨c, cs, rfl⟩ := List.exists_cons_of_ne_nil hg
    have hhead : isdigit ((c :: cs ++ rest).headD 0) = true := hdigits c List.mem_cons_self
    unfold decItem
    rw [hhead, hnum.strtol_append (by decide) hstop, hclamp, if_neg (by decide), if_neg (by omega),
      Int.toNat_natCast]

theorem ipv4Groups_eq (n : Nat) (s : List UInt8) :
    ipv4Groups n s = (items decItem (ch '.') n s).bind fun x => if x.2 = [] then some x.1 else none := by
  induction n generalizing s with
  | zero =>
    rw [ipv4Groups, items, decItem]
    rcases strtol 10 s with ⟨value, pEnd⟩
    split
    · rfl
    · dsimp only
      split
      · rfl
      · rfl
  | succ n ih =>
    rw [ipv4Groups, items, decItem]
    rcases strtol 10 s with ⟨value, pEnd⟩
    split
    · rfl
    · dsimp only
      split
      · rfl
      · rcases pEnd with - | ⟨c, cs⟩
        · rfl
        · by_cases hc : c = ch '.'
          · simp only [hc, ih, List.headD_cons, ne_eq, not_true_eq_false, if_false, List.drop_succ_cons,
              List.drop_zero, Option.bind_some, List.head?_cons, List.tail_cons, if_true]
            cases items decItem (ch '.') n cs with
            | none => rfl
            | some x => by_cases hx : x.2 = [] <;> simp [hx]
          · simp [hc]

theorem ipv4Groups_iff {n : Nat} {s : List UInt8} {ds : List UInt32} :
    ipv4Groups n s = some ds ↔ ∃ gs, gs.length = n + 1 ∧ (∀ g ∈ gs, DecGroup g) ∧
      ds = gs.map (fun g => UInt32.ofNat (ofDigits 10 0 g)) ∧ s = [ch '.'].intercalate gs := by
  have hsep := stops_dot.head
  have hitems : items decItem (ch '.') n s = some (ds, []) ↔ _ := items_iff decItem_iff hsep nofun
  rw [ipv4Groups_eq, Option.bind_eq_some_iff]
  constructor
  · intro ⟨⟨vs, rest⟩, hread, hend⟩
    dsimp only at hend
    split at hend
    · next hnil =>
      cases hend
      subst hnil
      obtain ⟨gs, hlen, hgs, hds, hs, -⟩ := hitems.1 hread
      exact ⟨gs, hlen, hgs, hds, by rw [hs, List.append_nil]⟩
    · cases hend
  · intro ⟨gs, hlen, hgs, hds, hs⟩
    refine ⟨(ds, []), hitems.2 ⟨gs, hlen, hgs, hds, by rw [hs, List.append_nil], fun hlast => ?_⟩, rfl⟩
    exact absurd rfl (hgs [] (List.mem_of_getLast? hlast)).ne

theorem ipv4_toNat {k0 k1 k2 k3 : Nat} (h0 : k0 ≤ 255) (h1 : k1 ≤ 255) (h2 : k2 ≤ 255) (h3 : k3 ≤ 255) :
    (UInt32.ofNat k0 <<< 24 ||| UInt32.ofNat k1 <<< 16 ||| UInt32.ofNat k2 <<< 8 ||| UInt32.ofNat k3).toNat =
      joined 256 [k0, k1, k2, k3] := by
  have hnat : (UInt32.ofNat (((k0 * 256 + k1) * 256 + k2) * 256 + k3)).toNat =
      ((k0 * 256 + k1) * 256 + k2) * 256 + k3 := by
    rw [UInt32.toNat_ofNat', Nat.mod_eq_of_lt (by omega)]
  have hbytes := ipv4_bytes (UInt32.ofNat (((k0 * 256 + k1) * 256 + k2) * 256 + k3))
  rw [hnat] at hbytes
  have e0 : (((k0 * 256 + k1) * 256 + k2) * 256 + k3) / 2 ^ 24 % 256 = k0 := by omega
  have e1 : (((k0 * 256 + k1) * 256 + k2) * 256 + k3) / 2 ^ 16 % 256 = k1 := by omega
  have e2 : (((k0 * 256 + k1) * 256 + k2) * 256 + k3) / 2 ^ 8 % 256 = k2 := by omega
  have e3 : (((k0 * 256 + k1) * 256 + k2) * 256 + k3) % 256 = k3 := by omega
  rw [e0, e1, e2, e3] at hbytes
  rw [hbytes, hnat]
  simp [joined]

theorem eq_of_length_four {α : Type} : ∀ {l : List α}, l.length = 4 → ∃ a b c d, l = [a, b, c, d]
  | [a, b, c, d], _ => ⟨a, b, c, d, rfl⟩

/-- **What `ipv4StringToIpAddress` reads.** -/
theorem ipv4_iff {s : List UInt8} {a : SockIpAddress} : ipv4StringToIpAddress s = some a ↔
    ∃ gs ipv4, a = .v4 ipv4 ∧ gs.length = 4 ∧ (∀ g ∈ gs, DecGroup g) ∧
      ipv4.toNat = joined 256 (gs.map (ofDigits 10 0)) ∧ s = [ch '.'].intercalate gs := by
  have hread : ∀ gs : List (List UInt8), gs.length = 4 → (∀ g ∈ gs, DecGroup g) →
      s = [ch '.'].intercalate gs → ∃ ipv4, ipv4StringToIpAddress s = some (.v4 ipv4) ∧
        ipv4.toNat = joined 256 (gs.map (ofDigits 10 0)) := by
    intro gs hlen hgs hs
    have hgroups : ipv4Groups 3 s = some _ := ipv4Groups_iff.2 ⟨gs, hlen, hgs, rfl, hs⟩
    rw [ipv4StringToIpAddress, hgroups]
    obtain ⟨g0, g1, g2, g3, rfl⟩ := eq_of_length_four hlen
    simp only [List.forall_mem_cons] at hgs
    obtain ⟨h0, h1, h2, h3, -⟩ := hgs
    exact ⟨_, rfl, ipv4_toNat h0.le h1.le h2.le h3.le⟩
  constructor
  · intro h
    have hgroups : ∃ ds, ipv4Groups 3 s = some ds := by
      unfold ipv4StringToIpAddress at h
      split at h
      · next hsome => exact ⟨_, hsome⟩
      · cases h
    obtain ⟨ds, hds⟩ := hgroups
    obtain ⟨gs, hlen, hgs, -, hs⟩ := ipv4Groups_iff.1 hds
    obtain ⟨ipv4, hip, hnum⟩ := hread gs hlen hgs hs
    rw [h] at hip
    exact ⟨gs, ipv4, Option.some.inj hip, hlen, hgs, hnum, hs⟩
  · rintro ⟨gs, ipv4, rfl, hlen, hgs, hnum, hs⟩
    obtain ⟨ipv4', hip, hnum'⟩ := hread gs hlen hgs hs
    rw [hip, UInt32.toNat_inj.1 (hnum.trans hnum'.symm)]

/-! ## Groups of hexadecimal digits -/

/-- The number that `ipv6StringToIpAddress` takes from a group. -/
def hexValue (g : List UInt8) : UInt32 := UInt32.ofNat ((strtol 16 g).1 % 65536).toNat

/-- A group of an IPv6 address and what is behind it. -/
def hexItem (s : List UInt8) : Option (UInt32 × List UInt8) :=
  if s = [] then none
  else if 4 < s.length - (strtol 16 s).2.length then none
  else some (UInt32.ofNat ((strtol 16 s).1 % 65536).toNat, (strtol 16 s).2)

theorem hexItem_iff (s : List UInt8) (v : UInt32) (rest : List UInt8)
    (hstop : ∀ c ∈ rest.head?, Stops c) : hexItem s = some (v, rest) ↔
      s ≠ [] ∧ ∃ g, s = g ++ rest ∧ LooseGroup g ∧ v = hexValue g := by
  constructor
  · intro h
    unfold hexItem at h
    split at h
    · cases h
    · next hne =>
      split at h
      · cases h
      · next hlen =>
        rcases hstrtol : strtol 16 s with ⟨value, rest'⟩
        rw [hstrtol] at h hlen
        cases h
        refine ⟨hne, ?_⟩
        rcases strtol_numeral hstrtol with ⟨rfl, rfl⟩ | ⟨g, n, rfl, hnum, rfl⟩
        · exact ⟨[], rfl, .inl rfl, rfl⟩
        · have hle : g.length ≤ 4 := by
            simp only [List.length_append, Nat.add_sub_cancel] at hlen
            omega
          exact ⟨g, rfl, .inr ⟨hle, n, hnum⟩, by rw [hexValue, hnum.strtol_eq (by decide)]⟩
  · rintro ⟨hne, g, rfl, rfl | ⟨hlen, n, hnum⟩, rfl⟩
    · obtain ⟨c, cs, hcons⟩ := List.exists_cons_of_ne_nil hne
      rw [List.nil_append] at hcons ⊢
      subst hcons
      have hread : strtol 16 (c :: cs) = (0, c :: cs) := strtol_stop (by decide) (hstop c rfl)
      rw [hexItem, if_neg (List.cons_ne_nil c cs), hread, if_neg (by simp)]
      rfl
    · have hread := hnum.strtol_append (by decide) hstop
      rw [hexItem, if_neg hne, hread, if_neg (by simp; omega), hexValue, hnum.strtol_eq (by decide)]

theorem ipv6Groups_eq (blockChar : Bool) (n : Nat) (s : List UInt8) :
    ipv6Groups blockChar n s = (items hexItem (ch ':') n s).bind fun x =>
      if x.2 = (if blockChar then [ch ']'] else []) then some x.1 else none := by
  induction n generalizing s with
  | zero =>
    rw [ipv6Groups, items, hexItem]
    rcases strtol 16 s with ⟨value, pTmp⟩
    split
    · rfl
    · dsimp only
      split
      · rfl
      · cases blockChar with
        | false => simp
        | true =>
          have hnul : (0 : UInt8) ≠ ch ']' := by decide
          rcases pTmp with - | ⟨c, cs⟩
          · simp [hnul]
          · by_cases hc : c = ch ']' <;> simp [hc]
  | succ n ih =>
    rw [ipv6Groups, items, hexItem]
    rcases strtol 16 s with ⟨value, pTmp⟩
    split
    · rfl
    · dsimp only
      split
      · rfl
      · rcases pTmp with - | ⟨c, cs⟩
        · rfl
        · by_cases hc : c = ch ':'
          · simp only [hc, ih, List.headD_cons, ne_eq, not_true_eq_false, if_false, List.drop_succ_cons,
              List.drop_zero, Option.bind_some, List.head?_cons, List.tail_cons, if_true]
            cases items hexItem (ch ':') n cs with
            | none => rfl
            | some x => by_cases hx : x.2 = (if blockChar then [ch ']'] else []) <;> simp [hx]
          · simp [hc]

theorem ipv6Groups_iff {blockChar : Bool} {n : Nat} {s : List UInt8} {ds : List UInt32} :
    ipv6Groups blockChar n s = some ds ↔ ∃ gs, gs.length = n + 1 ∧ (∀ g ∈ gs, LooseGroup g) ∧
      ds = gs.map hexValue ∧
      s = [ch ':'].intercalate gs ++ (if blockChar then [ch ']'] else []) ∧
      (blockChar = false → gs.getLast? ≠ some []) := by
  have hsep := stops_colon.head
  have hend : ∀ c ∈ (if blockChar then [ch ']'] else []).head?, Stops c := by
    cases blockChar with
    | false => nofun
    | true => exact stops_close.head []
  have hitems : items hexItem (ch ':') n s = some (ds, _) ↔ _ := items_iff hexItem_iff hsep hend
  have hlast : ∀ gs : List (List UInt8),
      (gs.getLast? = some [] → (if blockChar then [ch ']'] else []) ≠ []) ↔
        (blockChar = false → gs.getLast? ≠ some []) := by
    intro gs
    cases blockChar <;> simp
  simp only [hlast] at hitems
  rw [ipv6Groups_eq, Option.bind_eq_some_iff, ← hitems]
  constructor
  · intro ⟨⟨vs, rest⟩, hread, hsome⟩
    obtain ⟨hrest, hvs⟩ := Option.ite_none_right_eq_some.1 hsome
    cases hvs
    dsimp only at hrest
    rwa [hrest] at hread
  · exact fun hread => ⟨_, hread, if_pos rfl⟩

theorem hexValue_lt (g : List UInt8) : (hexValue g).toNat < 65536 := by
  rw [hexValue, UInt32.toNat_ofNat']
  omega

theorem LooseGroup.not_stops {g : List UInt8} (h : LooseGroup g) {c : UInt8} (hc : c ∈ g) : ¬Stops c := by
  rcases h with rfl | ⟨-, n, hnum⟩
  · cases hc
  · exact hnum.not_stops (by decide) hc

/-- The characters of joined groups. -/
theorem loose_chars {gs : List (List UInt8)} (h : ∀ g ∈ gs, LooseGroup g) {c : UInt8}
    (hc : c ∈ [ch ':'].intercalate gs) : c = ch ':' ∨ ¬Stops c := by
  rcases mem_intercalate.1 hc with ⟨g, hg, hc⟩ | ⟨hc, -⟩
  · exact .inr ((h g hg).not_stops hc)
  · exact .inl hc

theorem loose_no_open {gs : List (List UInt8)} (h : ∀ g ∈ gs, LooseGroup g) :
    ([ch ':'].intercalate gs).headD 0 ≠ ch '[' := by
  intro heq
  cases hs : [ch ':'].intercalate gs with
  | nil =>
    rw [hs] at heq
    exact absurd heq (by decide)
  | cons c cs =>
    rw [hs] at heq
    have hc : c = ch '[' := heq
    subst hc
    rcases loose_chars h (by rw [hs]; exact List.mem_cons_self) with hc | hc
    · exact absurd hc (by decide)
    · exact hc stops_open

theorem ipv6_number {k0 k1 k2 k3 k4 k5 k6 k7 : UInt32} (h0 : k0.toNat < 65536) (h1 : k1.toNat < 65536)
    (h2 : k2.toNat < 65536) (h3 : k3.toNat < 65536) (h4 : k4.toNat < 65536) (h5 : k5.toNat < 65536)
    (h6 : k6.toNat < 65536) (h7 : k7.toNat < 65536) :
    (SockIpAddress.v6 (k6 <<< 16 ||| k7) (k4 <<< 16 ||| k5) (k2 <<< 16 ||| k3) (k0 <<< 16 ||| k1)).number =
      joined 65536 ([k0, k1, k2, k3, k4, k5, k6, k7].map UInt32.toNat) := by
  have hword : ∀ {a b : UInt32}, a.toNat < 65536 → b.toNat < 65536 →
      (a <<< 16 ||| b).toNat = a.toNat * 65536 + b.toNat := by
    intro a b ha hb
    simp only [UInt32.toNat_or, UInt32.toNat_shiftLeft, UInt32.reduceToNat, Nat.reduceMod,
      Nat.shiftLeft_eq]
    rw [Nat.mod_eq_of_lt (by omega), or_eq_add (k := 16) (by omega) (by omega)]
  simp only [SockIpAddress.number, hword h0 h1, hword h2 h3, hword h4 h5, hword h6 h7, joined,
    List.map_cons, List.map_nil, List.foldl_cons, List.foldl_nil]
  omega

/-- The words of an IPv6 address are given by its number. -/
theorem v6_inj {w0 w1 w2 w3 w0' w1' w2' w3' : UInt32}
    (h : (SockIpAddress.v6 w0 w1 w2 w3).number = (SockIpAddress.v6 w0' w1' w2' w3').number) :
    SockIpAddress.v6 w0 w1 w2 w3 = .v6 w0' w1' w2' w3' := by
  simp only [SockIpAddress.number] at h
  have hw0 := w0.toNat_lt
  have hw1 := w1.toNat_lt
  have hw2 := w2.toNat_lt
  have hw0' := w0'.toNat_lt
  have hw1' := w1'.toNat_lt
  have hw2' := w2'.toNat_lt
  have e0 : w0.toNat = w0'.toNat := by omega
  have e1 : w1.toNat = w1'.toNat := by omega
  have e2 : w2.toNat = w2'.toNat := by omega
  have e3 : w3.toNat = w3'.toNat := by omega
  rw [UInt32.toNat_inj.1 e0, UInt32.toNat_inj.1 e1, UInt32.toNat_inj.1 e2, UInt32.toNat_inj.1 e3]

/-- `ipv6StringToIpAddress` behind the bracket. -/
theorem ipv6Groups_loose {s : List UInt8} {ds : List UInt32} :
    ipv6Groups (s.headD 0 == ch '[') 7 (if s.headD 0 == ch '[' then s.drop 1 else s) = some ds ↔
      ∃ gs, LooseText gs s ∧ ds = gs.map hexValue := by
  rw [ipv6Groups_iff]
  constructor
  · intro ⟨gs, hlen, hgs, hds, hs, hlast⟩
    refine ⟨gs, ⟨hlen, hgs, ?_⟩, hds⟩
    by_cases hopen : s.headD 0 = ch '['
    · right
      simp only [hopen, beq_self_eq_true, if_true] at hs
      cases s with
      | nil => exact absurd hopen (by decide)
      | cons c cs =>
        obtain rfl : c = ch '[' := hopen
        have hs : cs = [ch ':'].intercalate gs ++ [ch ']'] := hs
        rw [bracketed, hs, List.cons_append]
    · left
      have hopen : (s.headD 0 == ch '[') = false := by simpa using hopen
      simp only [hopen, Bool.false_eq_true, if_false, List.append_nil] at hs
      exact ⟨hs, hlast hopen⟩
  · rintro ⟨gs, ⟨hlen, hgs, ⟨rfl, hlast⟩ | rfl⟩, hds⟩
    · have hopen : (([ch ':'].intercalate gs).headD 0 == ch '[') = false := by
        simpa using loose_no_open hgs
      rw [hopen]
      exact ⟨gs, hlen, hgs, hds, by simp, fun _ => hlast⟩
    · exact ⟨gs, hlen, hgs, hds, by simp [bracketed], fun h => by simp [bracketed] at h⟩

theorem eq_of_length_eight {α : Type} : ∀ {l : List α}, l.length = 8 →
    ∃ a b c d e f g h, l = [a, b, c, d, e, f, g, h]
  | [a, b, c, d, e, f, g, h], _ => ⟨a, b, c, d, e, f, g, h, rfl⟩

theorem ipv6_read {gs : List (List UInt8)} {s : List UInt8} (h : LooseText gs s) :
    ∃ w0 w1 w2 w3, ipv6StringToIpAddress s = some (.v6 w0 w1 w2 w3) ∧
      (SockIpAddress.v6 w0 w1 w2 w3).number = joined 65536 (gs.map fun g => (hexValue g).toNat) := by
  have hgroups := ipv6Groups_loose.2 ⟨gs, h, rfl⟩
  have hlen := h.length
  rw [ipv6StringToIpAddress, hgroups]
  obtain ⟨g0, g1, g2, g3, g4, g5, g6, g7, rfl⟩ := eq_of_length_eight hlen
  exact ⟨_, _, _, _, rfl, ipv6_number (hexValue_lt g0) (hexValue_lt g1) (hexValue_lt g2) (hexValue_lt g3)
    (hexValue_lt g4) (hexValue_lt g5) (hexValue_lt g6) (hexValue_lt g7)⟩

/-- **What `ipv6StringToIpAddress` reads.** -/
theorem ipv6_iff {s : List UInt8} {a : SockIpAddress} : ipv6StringToIpAddress s = some a ↔
    ∃ gs w0 w1 w2 w3, a = .v6 w0 w1 w2 w3 ∧ LooseText gs s ∧
      a.number = joined 65536 (gs.map fun g => (hexValue g).toNat) := by
  constructor
  · intro h
    have hgroups : ∃ ds, ipv6Groups (s.headD 0 == ch '[') 7
        (if s.headD 0 == ch '[' then s.drop 1 else s) = some ds := by
      unfold ipv6StringToIpAddress at h
      dsimp only at h
      split at h
      · next hsome => exact ⟨_, hsome⟩
      · cases h
    obtain ⟨ds, hds⟩ := hgroups
    obtain ⟨gs, hgs, -⟩ := ipv6Groups_loose.1 hds
    obtain ⟨w0, w1, w2, w3, hip, hnum⟩ := ipv6_read hgs
    obtain rfl := Option.some.inj (h.symm.trans hip)
    exact ⟨gs, w0, w1, w2, w3, rfl, hgs, hnum⟩
  · rintro ⟨gs, w0, w1, w2, w3, rfl, hgs, hnum⟩
    obtain ⟨w0', w1', w2', w3', hip, hnum'⟩ := ipv6_read hgs
    rw [hip, v6_inj (hnum.trans hnum'.symm)]

/-! ## The result -/

theorem ofDigits_lt {base : Nat} {ds : List UInt8} (h : ∀ c ∈ ds, digitVal c < base) :
    ofDigits base 0 ds < base ^ ds.length := by
  have hacc : ∀ (ds : List UInt8) (acc : Nat), (∀ c ∈ ds, digitVal c < base) →
      ofDigits base acc ds < (acc + 1) * base ^ ds.length := by
    intro ds
    induction ds with
    | nil => exact fun acc _ => by simp [ofDigits]
    | cons c ds ih =>
      intro acc hds
      have hc := hds c List.mem_cons_self
      have hlt := ih (acc * base + digitVal c) fun d hd => hds d (List.mem_cons_of_mem _ hd)
      have hle : acc * base + digitVal c + 1 ≤ (acc + 1) * base := by
        rw [Nat.add_mul]
        omega
      calc ofDigits base acc (c :: ds) = ofDigits base (acc * base + digitVal c) ds := rfl
        _ < (acc * base + digitVal c + 1) * base ^ ds.length := hlt
        _ ≤ (acc + 1) * base * base ^ ds.length := Nat.mul_le_mul_right _ hle
        _ = (acc + 1) * base ^ (c :: ds).length := by
          rw [List.length_cons, Nat.pow_succ, Nat.mul_assoc, Nat.mul_comm base]
  have := hacc ds 0 h
  rwa [Nat.zero_add, Nat.one_mul] at this

theorem HexGroup.loose {g : List UInt8} (h : HexGroup g) : LooseGroup g := by
  by_cases hg : g = []
  · exact .inl hg
  · exact .inr ⟨h.length, _, numeral_of_digits hg h.digits⟩

theorem HexGroup.value {g : List UInt8} (h : HexGroup g) : (hexValue g).toNat = ofDigits 16 0 g := by
  have hlt := ofDigits_lt h.digits
  have hpow : 16 ^ g.length ≤ 16 ^ 4 := Nat.pow_le_pow_right (by decide) h.length
  have hread : (strtol 16 g).1 = ofDigits 16 0 g := by
    by_cases hg : g = []
    · subst hg
      rfl
    · rw [(numeral_of_digits hg h.digits).strtol_eq (by decide)]
      exact clampLong_eq (by omega) (by omega)
  rw [hexValue, hread, UInt32.toNat_ofNat']
  omega

theorem map_hexValue {gs : List (List UInt8)} (h : ∀ g ∈ gs, HexGroup g) :
    (gs.map fun g => (hexValue g).toNat) = gs.map (ofDigits 16 0) :=
  List.map_congr_left fun g hg => (h g hg).value

theorem LooseText.no_dot {gs : List (List UInt8)} {s : List UInt8} (h : LooseText gs s) :
    s.contains (ch '.') = false := by
  have hgroups : ch '.' ∉ [ch ':'].intercalate gs := fun hc => by
    rcases loose_chars h.groups hc with hc | hc
    · exact absurd hc (by decide)
    · exact hc stops_dot
  have hne : ch '.' ≠ ch '[' ∧ ch '.' ≠ ch ']' := by decide
  have hmem : ch '.' ∉ s := by
    rcases h.text with ⟨rfl, -⟩ | rfl
    · exact hgroups
    · simp [bracketed, hgroups, hne]
  simpa using hmem

theorem dot_mem {gs : List (List UInt8)} (hlen : gs.length = 4) :
    ([ch '.'].intercalate gs).contains (ch '.') = true := by
  have : ch '.' ∈ [ch '.'].intercalate gs := mem_intercalate.2 (.inr ⟨rfl, by omega⟩)
  simpa using this

/-- The characters of a text with hexadecimal groups. -/
theorem IpText.chars_v6 {gs : List (List UInt8)} {s : List UInt8} {w0 w1 w2 w3 : UInt32}
    (h : IpText gs s (.v6 w0 w1 w2 w3)) {c : UInt8} (hc : c ∈ s) : digitVal c < 16 ∨ Stops c := by
  cases h with
  | v6 hlen hgs htext hnum =>
    have hjoin : c ∈ [ch ':'].intercalate gs → digitVal c < 16 ∨ Stops c := fun hc => by
      rcases mem_intercalate.1 hc with ⟨g, hg, hc⟩ | ⟨rfl, -⟩
      · exact .inl ((hgs g hg).digits c hc)
      · exact .inr stops_colon
    rcases htext with rfl | rfl
    · exact hjoin hc
    · simp only [bracketed, List.mem_append, List.mem_cons, List.not_mem_nil, or_false] at hc
      rcases hc with (rfl | hc) | rfl
      · exact .inr stops_open
      · exact hjoin hc
      · exact .inr stops_close

/-- A loose group that is not hexadecimal has a character that is no digit. -/
theorem LooseGroup.exists_char {g : List UInt8} (h : LooseGroup g) (hno : ¬HexGroup g) :
    ∃ c ∈ g, ¬digitVal c < 16 := by
  apply Classical.byContradiction
  intro hall
  refine hno ⟨?_, fun c hc => ?_⟩
  · rcases h with rfl | ⟨hlen, -⟩
    · exact Nat.zero_le 4
    · exact hlen
  · exact Classical.byContradiction fun hd => hall ⟨c, hc, hd⟩

/-- **`uCxStringToIpAddress` reads exactly the IP addresses**, unless a group of an IPv6 address has a blank, a
sign or a prefix. -/
theorem readsIpExactly_iff (s : List UInt8) : ReadsIpExactly s ↔ ¬LooseIp s := by
  constructor
  · rintro ⟨hsound, -⟩ ⟨gs, hgs, g, hg, hhex⟩
    obtain ⟨w0, w1, w2, w3, hread, -⟩ := ipv6_read hgs
    obtain ⟨gs', htext⟩ := hsound (.v6 w0 w1 w2 w3) (by rw [uCxStringToIpAddress, hgs.no_dot]; exact hread)
    obtain ⟨c, hc, hdigit⟩ := (hgs.groups g hg).exists_char hhex
    have hmem : c ∈ [ch ':'].intercalate gs := mem_intercalate.2 (.inl ⟨g, hg, hc⟩)
    have hs : c ∈ s := by
      rcases hgs.text with ⟨rfl, -⟩ | rfl
      · exact hmem
      · exact List.mem_append_left _ (List.mem_cons_of_mem _ hmem)
    rcases htext.chars_v6 hs with hd | hstop
    · exact hdigit hd
    · exact (hgs.groups g hg).not_stops hc hstop
  · intro hloose
    refine ⟨fun a ha => ?_, fun gs a htext hlast => ?_⟩
    · unfold uCxStringToIpAddress at ha
      split at ha
      · obtain ⟨gs, ipv4, rfl, hlen, hgs, hnum, rfl⟩ := ipv4_iff.1 ha
        exact ⟨gs, .v4 hlen hgs hnum⟩
      · obtain ⟨gs, w0, w1, w2, w3, rfl, hgs, hnum⟩ := ipv6_iff.1 ha
        have hhex : ∀ g ∈ gs, HexGroup g := fun g hg => by
          apply Classical.byContradiction
          exact fun hno => hloose ⟨gs, hgs, g, hg, hno⟩
        rw [map_hexValue hhex] at hnum
        exact ⟨gs, .v6 hgs.length hhex (hgs.text.imp_left And.left) hnum⟩
    · cases htext with
      | v4 hlen hgs hnum =>
        rw [uCxStringToIpAddress, if_pos (dot_mem hlen)]
        exact ipv4_iff.2 ⟨gs, _, rfl, hlen, hgs, hnum, rfl⟩
      | v6 hlen hgs htext hnum =>
        have hgs' : LooseText gs s := ⟨hlen, fun g hg => (hgs g hg).loose, htext.imp_left (⟨·, hlast⟩)⟩
        rw [uCxStringToIpAddress, hgs'.no_dot]
        exact ipv6_iff.2 ⟨gs, _, _, _, _, rfl, hgs', by rw [map_hexValue hgs]; exact hnum⟩

theorem signed_group_read : ¬∀ s, ReadsIpExactly s := by
  intro h
  have hread : uCxStringToIpAddress (text "+1:0:0:0:0:0:0:0") = some (.v6 0 0 0 65536) := by
    decide +kernel
  obtain ⟨gs, htext⟩ := (h _).1 _ hread
  have hplus : digitVal (ch '+') = 36 ∧ ch '+' ∈ text "+1:0:0:0:0:0:0:0" := by decide
  rcases htext.chars_v6 hplus.2 with hd | hstop
  · omega
  · exact hstop.sign.2 rfl
