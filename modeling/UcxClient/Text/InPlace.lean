import UcxClient.Text.Accesses
import UcxClient.Text.Decode

/-!
# Decoders that write behind what they read

Each decoder of a parameter is a sweep over its token: it stores only where it has read.

* An escape sequence stands for no more characters than it has (`unescapeTurn_accesses`). So `unescapeString`
  ends, at the terminator, with a string that is no longer (`unescapeString_accesses`).
* The byte array takes one place for two digits (`hexLoop_accesses`).
* An integer takes two places, and has a digit and a bracket or comma in front (`intListLoop_accesses`).

The results and the memory are those of the functions without their accesses.
-/

open ByteMem Logged

/-! ## Escaped strings -/

theorem run_copy (pRead pWrite : Nat) (m : List UInt8) :
    (Accesses.copy pRead pWrite).run m =
      ((pRead + 1, pWrite + 1), [.read pRead, .store pWrite (m.getD pRead 0)]) := rfl

/-- What an escape sequence of two characters stands for. -/
theorem unescapeCharacter_cases (c : UInt8) :
    (∃ b, unescapeCharacter c = [b]) ∨ unescapeCharacter c = [ch '\\', c] := by
  unfold unescapeCharacter
  repeat' split
  all_goals first
    | exact .inl ⟨_, rfl⟩
    | exact .inr rfl

section Unescape
variable {m : List UInt8} {lo hi pRead pWrite : Nat}

/-- The accesses of a turn of the loop that passes `k` characters and writes `w`. -/
structure TurnAccesses (m : List UInt8) (lo hi pRead pWrite : Nat) (w : List UInt8) (k : Nat)
    (r : (Nat × Nat) × List Access) : Prop where
  result : r.1 = (pRead + k, pWrite + w.length)
  memory : replay m r.2 = store m pWrite w
  sweep : Sweep lo hi pRead (pRead + k) r.2

/-- A character that stands for itself. -/
theorem unescapeTurn_plain_accesses {c c1 : UInt8} (h0 : m.getD pRead 0 = c) (h1 : m.getD (pRead + 1) 0 = c1)
    (hplain : c = ch '\\' → c1 = 0) (hlo : lo ≤ pWrite) (hw : pWrite ≤ pRead) (hhi : pRead < hi) :
    TurnAccesses m lo hi pRead pWrite [c] 1 ((Accesses.unescapeTurn pRead pWrite).run m) := by
  by_cases hc : c = ch '\\'
  · have hrun : (Accesses.unescapeTurn pRead pWrite).run m = ((pRead + 1, pWrite + 1),
        [.read pRead, .read (pRead + 1), .read pRead, .store pWrite c]) := by
      simp only [Accesses.unescapeTurn, run_copy, run_bind, run_read, replay_read, replay_nil, h0, h1, hc,
        hplain hc, ↓reduceIte, List.cons_append, List.nil_append]
    rw [hrun]
    exact ⟨rfl, rfl, .next (by omega) (.again (by omega) (.again (by omega) (.store hlo (by omega) .nil)))⟩
  · have hrun : (Accesses.unescapeTurn pRead pWrite).run m = ((pRead + 1, pWrite + 1),
        [.read pRead, .read pRead, .store pWrite c]) := by
      simp only [Accesses.unescapeTurn, run_copy, run_bind, run_read, replay_read, replay_nil, h0, hc,
        ↓reduceIte, List.cons_append, List.nil_append]
    rw [hrun]
    exact ⟨rfl, rfl, .next (by omega) (.again (by omega) (.store hlo (by omega) .nil))⟩

/-- A turn for a backslash goes on with the `switch`, which may read the character behind the backslash and
those of its escape sequence. -/
theorem unescapeTurn_escape_accesses {k : Nat} {w : List UInt8} {as : List Access}
    (h0 : m.getD pRead 0 = ch '\\') (h1 : m.getD (pRead + 1) 0 ≠ 0) (hhi : pRead + 1 < hi)
    (hrun : (Accesses.unescapeSwitch (pRead + 1) pWrite).run m = ((pRead + k, pWrite + w.length), as))
    (hmem : replay m as = store m pWrite w) (hsweep : Sweep lo hi (pRead + 2) (pRead + k) as) :
    TurnAccesses m lo hi pRead pWrite w k ((Accesses.unescapeTurn pRead pWrite).run m) := by
  have hturn : (Accesses.unescapeTurn pRead pWrite).run m = ((pRead + k, pWrite + w.length),
      .read pRead :: .read (pRead + 1) :: as) := by
    simp only [Accesses.unescapeTurn, run_bind, run_read, replay_read, replay_nil, h0, h1, hrun, ↓reduceIte,
      List.cons_append, List.nil_append]
  rw [hturn]
  exact ⟨rfl, hmem, .next (by omega) (.next (by omega) hsweep)⟩

/-- A turn for `\x`, with two digits or without. -/
theorem unescapeTurn_hex_accesses (h0 : m.getD pRead 0 = ch '\\') (h1 : m.getD (pRead + 1) 0 = ch 'x')
    (hlo : lo ≤ pWrite) (hw : pWrite ≤ pRead)
    (hend : ∀ i, pRead ≤ i → i ≤ hi → m.getD i 0 ≠ 0 → i < hi) (hhi : pRead + 1 < hi) :
    TurnAccesses m lo hi pRead pWrite (unescapeTurn m pRead).1 (unescapeTurn m pRead).2
      ((Accesses.unescapeTurn pRead pWrite).run m) := by
  have hx : ch 'x' ≠ 0 := by decide
  have hescape := fun w k as => @unescapeTurn_escape_accesses m lo hi pRead pWrite k w as h0
    (by rw [h1]; exact hx) hhi
  obtain ⟨c2, h2⟩ : ∃ c2, m.getD (pRead + 2) 0 = c2 := ⟨_, rfl⟩
  obtain ⟨c3, h3⟩ : ∃ c3, m.getD (pRead + 3) 0 = c3 := ⟨_, rfl⟩
  by_cases hc2 : c2 = 0
  · -- the string ends behind the `x`
    have hturn : unescapeTurn m pRead = ([ch 'x'], 2) := by
      simp only [unescapeTurn, h0, h1, h2, hx, hc2, ne_eq, not_false_eq_true, not_true_eq_false, and_self,
        false_and, ↓reduceIte]
    rw [hturn]
    refine hescape [ch 'x'] 2 [.read (pRead + 1), .read (pRead + 2), .read (pRead + 1),
      .store pWrite (ch 'x')] ?_ rfl ?_
    · simp only [Accesses.unescapeSwitch, run_copy, run_bind, run_read, replay_read, replay_nil, h1, h2,
        hc2, ↓reduceIte, List.cons_append, List.nil_append]
      rfl
    · exact .again (by omega) (.again (by omega) (.again (by omega) (.store hlo (by omega) .nil)))
  · have hhi2 : pRead + 2 < hi := hend (pRead + 2) (by omega) (by omega) (by rw [h2]; exact hc2)
    by_cases hshort : c3 = 0 ∨ uCxAtUtilHexToByte c2 c3 = none
    · -- no two digits
      have hturn : unescapeTurn m pRead = ([ch 'x'], 2) := by
        simp only [unescapeTurn, h0, h1, h2, h3, hx, hc2, ne_eq, not_false_eq_true, and_self, true_and,
          ↓reduceIte]
        rcases hshort with h | h
        · rw [if_neg fun h' => h' h]
        · rw [h]
          exact ite_self _
      rw [hturn]
      refine hescape [ch 'x'] 2 [.read (pRead + 1), .read (pRead + 2), .read (pRead + 3),
        .read (pRead + 1), .store pWrite (ch 'x')] ?_ rfl ?_
      · simp only [Accesses.unescapeSwitch, run_bind, run_read, replay_read, replay_nil, h1, h2, h3, hc2,
          ↓reduceIte, List.cons_append, List.nil_append]
        by_cases hc3 : c3 = 0
        · simp only [hc3, ↓reduceIte, run_copy, h1]
          rfl
        · simp only [hc3, hshort.resolve_left hc3, ↓reduceIte, run_copy, h1]
          rfl
      · exact .again (by omega) (.again (by omega) (.again (by omega) (.again (by omega)
          (.store hlo (by omega) .nil))))
    · rw [not_or] at hshort
      obtain ⟨hc3, hbyte⟩ := hshort
      obtain ⟨byte, hbyte⟩ := Option.ne_none_iff_exists'.1 hbyte
      have hhi3 : pRead + 3 < hi := hend (pRead + 3) (by omega) (by omega) (by rw [h3]; exact hc3)
      have hturn : unescapeTurn m pRead = ([byte], 4) := by
        simp only [unescapeTurn, h0, h1, h2, h3, hx, hc2, hc3, hbyte, ne_eq, not_false_eq_true, and_self,
          ↓reduceIte]
      rw [hturn]
      refine hescape [byte] 4 [.read (pRead + 1), .read (pRead + 2), .read (pRead + 3),
        .store pWrite byte] ?_ rfl ?_
      · simp only [Accesses.unescapeSwitch, run_bind, run_read, run_store, run_pure, replay_read, replay_nil,
          h1, h2, h3, hc2, hc3, hbyte, ↓reduceIte, List.cons_append, List.nil_append]
        rfl
      · exact .again (by omega) (.next (by omega) (.next (by omega) (.store hlo (by omega) .nil)))

/-- A turn for any other escape sequence, known or unknown. -/
theorem unescapeTurn_letter_accesses {c : UInt8} (h0 : m.getD pRead 0 = ch '\\')
    (h1 : m.getD (pRead + 1) 0 = c) (hc : c ≠ 0) (hx : c ≠ ch 'x') (hlo : lo ≤ pWrite) (hw : pWrite ≤ pRead)
    (hhi : pRead + 1 < hi) :
    TurnAccesses m lo hi pRead pWrite (unescapeTurn m pRead).1 (unescapeTurn m pRead).2
      ((Accesses.unescapeTurn pRead pWrite).run m) := by
  have hescape := fun w k as => @unescapeTurn_escape_accesses m lo hi pRead pWrite k w as h0
    (by rw [h1]; exact hc) hhi
  have hturn : unescapeTurn m pRead = (unescapeCharacter c, 2) := by
    simp only [unescapeTurn, h0, h1, hx, hc, ne_eq, not_false_eq_true, and_self, ↓reduceIte]
  rw [hturn]
  rcases unescapeCharacter_cases c with ⟨b, hb⟩ | hb
  · rw [hb]
    refine hescape [b] 2 [.read (pRead + 1), .store pWrite b] ?_ rfl ?_
    · simp only [Accesses.unescapeSwitch, run_bind, run_read, run_store, run_pure, replay_read, replay_nil,
        h1, hx, hb, ↓reduceIte, List.cons_append, List.nil_append]
      rfl
    · exact .again (by omega) (.store hlo (by omega) .nil)
  · rw [hb]
    -- the backslash is written before the character behind it is read again
    have hagain : (m.set pWrite (ch '\\')).getD (pRead + 1) 0 = c := by
      rw [List.getD_eq_getElem?_getD, List.getElem?_set_ne (by omega), ← List.getD_eq_getElem?_getD, h1]
    refine hescape [ch '\\', c] 2 [.read (pRead + 1), .store pWrite (ch '\\'), .read (pRead + 1),
      .store (pWrite + 1) c] ?_ rfl ?_
    · simp only [Accesses.unescapeSwitch, run_copy, run_bind, run_read, run_store, replay_read, replay_nil,
        replay_store, h1, hx, hb, hagain, ↓reduceIte, List.cons_append, List.nil_append]
      rfl
    · exact .again (by omega) (.store hlo (by omega) (.again (by omega)
        (.store (by omega) (by omega) .nil)))

/-- **A turn of `unescapeString`**, with the terminator at `hi`. -/
theorem unescapeTurn_accesses (hlo : lo ≤ pWrite) (hw : pWrite ≤ pRead)
    (hend : ∀ i, pRead ≤ i → i ≤ hi → m.getD i 0 ≠ 0 → i < hi) (hhi : pRead < hi) :
    TurnAccesses m lo hi pRead pWrite (unescapeTurn m pRead).1 (unescapeTurn m pRead).2
      ((Accesses.unescapeTurn pRead pWrite).run m) := by
  obtain ⟨c, h0⟩ : ∃ c, m.getD pRead 0 = c := ⟨_, rfl⟩
  obtain ⟨c1, h1⟩ : ∃ c1, m.getD (pRead + 1) 0 = c1 := ⟨_, rfl⟩
  by_cases hplain : c = ch '\\' → c1 = 0
  · have hturn : unescapeTurn m pRead = ([c], 1) := by
      rw [unescapeTurn, h0, h1, if_neg fun h => h.2 (hplain h.1)]
    rw [hturn]
    exact unescapeTurn_plain_accesses h0 h1 hplain hlo hw hhi
  · rw [Classical.not_imp] at hplain
    obtain ⟨rfl, hc1⟩ := hplain
    have hhi1 : pRead + 1 < hi := hend (pRead + 1) (by omega) (by omega) (by rw [h1]; exact hc1)
    by_cases hx : c1 = ch 'x'
    · exact unescapeTurn_hex_accesses h0 (h1.trans hx) hlo hw hend hhi1
    · exact unescapeTurn_letter_accesses h0 h1 hc1 hx hlo hw hhi1

/-- The loop ends at the terminator, and what it has written is no longer than what it has read. -/
theorem unescapeLoop_accesses {n : Nat} {m body post : List UInt8} {pRead pWrite : Nat}
    (hm : m.drop pRead = body ++ 0 :: post) (h0 : 0 ∉ body) (hlo : lo ≤ pWrite) (hw : pWrite ≤ pRead)
    (hn : body.length < n) :
    ∃ as, (Accesses.unescapeLoop n pRead pWrite).run m = (some (pWrite + (unescaped body).length), as) ∧
      replay m as = (store m pWrite (unescaped body)).set (pWrite + (unescaped body).length) 0 ∧
      Sweep lo (pRead + body.length) pRead (pRead + body.length + 1) as := by
  induction n generalizing m body pRead pWrite with
  | zero => omega
  | succ n ih =>
    have hget := getD_of_drop hm
    have hget0 := hget 0
    rw [Nat.add_zero] at hget0
    by_cases hne : body = []
    · subst hne
      have hend : m.getD pRead 0 = 0 := hget0
      refine ⟨[.read pRead, .store pWrite 0], ?_, rfl, .next (Nat.le_refl _) (.store hlo (by omega) .nil)⟩
      simp only [Accesses.unescapeLoop, run_bind, run_read, run_store, run_pure, hend, ↓reduceIte]
      rfl
    · obtain ⟨w, k, hturn, hk, hkl, hwk, heq⟩ := unescapeTurn_eq hm hne h0
      have hhead : m.getD pRead 0 ≠ 0 := by
        obtain ⟨c, cs, rfl⟩ := List.exists_cons_of_ne_nil hne
        rw [hget0]
        exact fun h => h0 (h ▸ List.mem_cons_self)
      have hpos : 0 < body.length := List.length_pos_iff.2 hne
      have hend : ∀ i, pRead ≤ i → i ≤ pRead + body.length → m.getD i 0 ≠ 0 → i < pRead + body.length := by
        intro i hi hi' hne
        refine Nat.lt_of_le_of_ne hi' fun h => hne ?_
        rw [h, hget]
        simp
      have hstep := unescapeTurn_accesses hlo hw hend (by omega)
      rw [hturn] at hstep
      obtain ⟨hres, hmem, hsweep⟩ := hstep
      have hdrop : (store m pWrite w).drop (pRead + k) = body.drop k ++ 0 :: post := by
        rw [drop_store_of_le _ _ _ _ (by omega), ← List.drop_drop, hm,
          List.drop_append_of_le_length hkl]
      obtain ⟨as, hrun, hmem', hsweep'⟩ := ih hdrop (fun h => h0 (List.mem_of_mem_drop h))
        (show lo ≤ pWrite + w.length by omega) (by omega)
        (by rw [List.length_drop]; omega)
      have hhi : pRead + k + (body.drop k).length = pRead + body.length := by
        rw [List.length_drop]
        omega
      rw [hhi] at hsweep'
      refine ⟨.read pRead :: (((Accesses.unescapeTurn pRead pWrite).run m).2 ++ as), ?_, ?_,
        .again (by omega) (hsweep.append hsweep')⟩
      · rw [Accesses.unescapeLoop]
        refine bind_eq (run_read _ _) ?_
        rw [if_neg hhead]
        refine bind_eq (Prod.ext hres rfl) ?_
        simp only [hmem]
        rw [hrun, heq, List.length_append, Nat.add_assoc]
      · rw [replay_read, replay_append, hmem, hmem', heq, store_append, List.length_append, Nat.add_assoc]

/-- **`unescapeString` ends at the terminator** and has read nothing behind it. -/
theorem unescapeString_accesses {n : Nat} {body : List UInt8} (h0 : 0 ∉ body) (hn : body.length < n)
    (pre post : List UInt8) :
    ∃ as, (Accesses.unescapeString n pre.length).run (pre ++ body ++ 0 :: post) =
        (some (unescaped body).length, as) ∧
      unescapeString (pre ++ body ++ 0 :: post) pre.length =
        (replay (pre ++ body ++ 0 :: post) as, (unescaped body).length) ∧
      (unescaped body).length ≤ body.length ∧
      Sweep pre.length (pre.length + body.length) pre.length (pre.length + body.length + 1) as := by
  have hdrop : (pre ++ body ++ 0 :: post).drop pre.length = body ++ 0 :: post := by
    rw [List.append_assoc, List.drop_left]
  obtain ⟨as, hrun, hmem, hsweep⟩ := unescapeLoop_accesses hdrop h0 (Nat.le_refl _) (Nat.le_refl _) hn
  obtain ⟨hlen, hloop⟩ := unescapeLoop_eq (n := (pre ++ body ++ 0 :: post).length - pre.length) hdrop h0
    (Nat.le_refl _) (by simp)
  refine ⟨as ++ [], ?_, ?_, hlen, hsweep.append .nil⟩
  · refine bind_eq hrun ?_
    rw [run_pure, Option.map_some, Nat.add_sub_cancel_left]
  · rw [List.append_nil, hmem]
    simp only [unescapeString, hloop, Nat.add_sub_cancel_left]

end Unescape

/-! ## Byte arrays -/

/-- The loop reads two digits for each byte that it stores. -/
theorem hexLoop_accesses (n i p hi : Nat) (m : List UInt8) (hhi : p + (i + n) * 2 ≤ hi + 1) :
    ∃ as f, (Accesses.hexLoop p n i).run m = ((ParseParams.hexLoop p n i m).2, as) ∧
      replay m as = (ParseParams.hexLoop p n i m).1 ∧ Sweep p hi (p + i * 2) f as := by
  induction n generalizing i m with
  | zero => exact ⟨[], p + i * 2, rfl, rfl, .nil⟩
  | succ n ih =>
    rw [Accesses.hexLoop, ParseParams.hexLoop]
    cases hbyte : uCxAtUtilHexToByte (m.getD (p + i * 2) 0) (m.getD (p + i * 2 + 1) 0) with
    | none =>
      refine ⟨[.read (p + i * 2), .read (p + i * 2 + 1)], p + i * 2 + 1 + 1, ?_, rfl,
        .next (by omega) (.next (by omega) .nil)⟩
      simp only [run_bind, run_read, run_pure, replay_read, replay_nil, hbyte]
      rfl
    | some byte =>
      obtain ⟨as, f, hrun, hmem, hsweep⟩ := ih (i + 1) (m.set (p + i) byte) (by omega)
      have hnext : p + (i + 1) * 2 = p + i * 2 + 1 + 1 := by omega
      rw [hnext] at hsweep
      refine ⟨.read (p + i * 2) :: .read (p + i * 2 + 1) :: .store (p + i) byte :: as, f, ?_, hmem,
        .next (by omega) (.next (by omega) (.store (by omega) (by omega) hsweep))⟩
      simp only [run_bind, run_read, run_store, replay_read, replay_store, replay_nil, hbyte, hrun]
      rfl

/-! ## Integer lists -/

/-- What `strtol` passes is read. -/
theorem run_strtolAt {m s post : List UInt8} {pParse : Nat} (hm : m.drop pParse = s ++ 0 :: post)
    (h0 : 0 ∉ s) :
    (Accesses.strtolAt pParse).run m =
      (((strtol 10 s).1, pParse + (s.length - (strtol 10 s).2.length)),
        (List.range' pParse (s.length - (strtol 10 s).2.length + 1)).map .read) := by
  rw [Accesses.strtolAt]
  simp only [run_bind, run_block, run_readRange, run_pure, replay_nil, replay_reads, List.nil_append,
    List.append_nil, cstr_of_drop hm h0]

/-- What is said of the loop: its accesses are a sweep, and where it stops is in the string. -/
def IntListAccesses (m s : List UInt8) (p n i pParse : Nat) : Prop :=
  ∃ as f, (Accesses.intListLoop p n i pParse).run m = ((intListLoop p n i m pParse).2, as) ∧
    replay m as = (intListLoop p n i m pParse).1 ∧ Sweep p (pParse + s.length) pParse f as ∧
    ∀ q, (intListLoop p n i m pParse).2 = some q → q ≤ pParse + s.length

section IntListLoop
variable {m s post : List UInt8} {n i p pParse : Nat}

/-- What `strtol` passes is read, and so is the character behind it. -/
def numeralReads (pParse k : Nat) : List Access := (List.range' pParse (k + 1)).map .read

theorem replay_numeralReads (m : List UInt8) (pParse k : Nat) : replay m (numeralReads pParse k) = m :=
  replay_reads m _

theorem suffix_of_strtol {s : List UInt8} {value : Int} {rest : List UInt8}
    (hs : strtol 10 s = (value, rest)) : rest <:+ s := by
  have h := strtol_suffix 10 s
  rwa [hs] at h

/-- What reading an integer and storing it comes to: a sweep up to the character behind the integer. -/
theorem sweep_integer {k hi : Nat} (v : Int16) (hp : p + 2 * i < pParse) (hk : 0 < k) (hhi : pParse + k ≤ hi) :
    Sweep p hi pParse (pParse + k + 1) (numeralReads pParse k ++ stores (p + 2 * i) (i16Bytes v)) := by
  have hbytes : (i16Bytes v).length = 2 := length_u16Bytes _
  exact (Sweep.range (n := k + 1) (by omega)).append (Sweep.stores (by omega) (by omega))

variable {value : Int} {rest : List UInt8} (hm : m.drop pParse = s ++ 0 :: post) (h0 : 0 ∉ s)
  (hs : strtol 10 s = (value, rest)) (hle : rest.length ≤ s.length)
include hm h0 hs

/-- The loop stops at what is no integer of 16 bits. -/
theorem intListLoop_stops (hbad : rest.length = s.length ∨ value < -32768 ∨ 32767 < value) :
    IntListAccesses m s p n i pParse := by
  have hread := run_strtolAt hm h0
  rw [hs] at hread
  have hbad' : pParse = pParse + (s.length - rest.length) ∨ value < -32768 ∨ 32767 < value :=
    hbad.imp_left fun h => by omega
  have hloop : intListLoop p n i m pParse = (m, none) := by
    cases n with
    | zero => rw [intListLoop, cstr_of_drop hm h0, hs]; exact if_pos hbad
    | succ n => rw [intListLoop, cstr_of_drop hm h0, hs]; exact if_pos hbad
  have hrun : (Accesses.intListLoop p n i pParse).run m =
      (none, numeralReads pParse (s.length - rest.length) ++ []) := by
    cases n with
    | zero => exact bind_eq hread (by simp only [hbad', ↓reduceIte, run_pure])
    | succ n => exact bind_eq hread (by simp only [hbad', ↓reduceIte, run_pure])
  rw [IntListAccesses, hloop]
  refine ⟨_, _, hrun, ?_, (Sweep.range ?_).append .nil, by rintro _ ⟨⟩⟩
  · rw [List.append_nil, replay_numeralReads]
  · omega

include hle

/-- The loop ends behind its last integer. -/
theorem intListLoop_last (hgood : ¬(rest.length = s.length ∨ value < -32768 ∨ 32767 < value))
    (hp : p + 2 * i < pParse) : IntListAccesses m s p 0 i pParse := by
  have hread := run_strtolAt hm h0
  rw [hs] at hread
  have hgood' : ¬(pParse = pParse + (s.length - rest.length) ∨ value < -32768 ∨ 32767 < value) :=
    fun h => hgood (h.imp_left fun h => by omega)
  have hloop : intListLoop p 0 i m pParse = (store m (p + 2 * i) (i16Bytes (Int16.ofInt value)),
      some (pParse + (s.length - rest.length))) := by
    rw [intListLoop, cstr_of_drop hm h0, hs]
    exact if_neg hgood
  have hrun : (Accesses.intListLoop p 0 i pParse).run m = (some (pParse + (s.length - rest.length)),
      numeralReads pParse (s.length - rest.length) ++
        (stores (p + 2 * i) (i16Bytes (Int16.ofInt value)) ++ [])) := by
    refine bind_eq hread ?_
    simp only [hgood', ↓reduceIte]
    exact bind_eq (run_storeRange _ _ _) (run_pure _ _)
  rw [List.append_nil] at hrun
  rw [IntListAccesses, hloop]
  refine ⟨_, _, hrun, ?_, sweep_integer _ hp (by omega) (by omega), fun q hq => ?_⟩
  · rw [replay_append, replay_numeralReads, replay_stores]
  · cases hq
    omega

omit h0 hle in
/-- What `strtol` leaves is still there behind the store. -/
theorem drop_behind_integer (v : Int16) (hgood : rest.length ≠ s.length) (hp : p + 2 * i < pParse) :
    (store m (p + 2 * i) (i16Bytes v)).drop (pParse + (s.length - rest.length)) = rest ++ 0 :: post := by
  have hbytes : (i16Bytes v).length = 2 := length_u16Bytes _
  have hsuffix := suffix_of_strtol hs
  have hle := hsuffix.length_le
  rw [drop_store_of_le _ _ _ _ (by omega)]
  exact drop_suffix hm hsuffix

/-- The loop goes on behind a comma, and stops at anything else. -/
theorem intListLoop_next (hgood : ¬(rest.length = s.length ∨ value < -32768 ∨ 32767 < value))
    (hp : p + 2 * i < pParse)
    (hnext : ∀ cs, rest = ch ',' :: cs →
      IntListAccesses (store m (p + 2 * i) (i16Bytes (Int16.ofInt value))) cs p n (i + 1)
        (pParse + (s.length - rest.length) + 1)) :
    IntListAccesses m s p (n + 1) i pParse := by
  have hread := run_strtolAt hm h0
  rw [hs] at hread
  have hgood' : ¬(pParse = pParse + (s.length - rest.length) ∨ value < -32768 ∨ 32767 < value) :=
    fun h => hgood (h.imp_left fun h => by omega)
  have hget := getD_eq_headD (drop_behind_integer hm hs (Int16.ofInt value) (fun h => hgood (.inl h)) hp)
  have hloop : intListLoop p (n + 1) i m pParse =
      if rest.headD 0 ≠ ch ',' then (store m (p + 2 * i) (i16Bytes (Int16.ofInt value)), none)
      else intListLoop p n (i + 1) (store m (p + 2 * i) (i16Bytes (Int16.ofInt value)))
        (pParse + (s.length - rest.length) + 1) := by
    rw [intListLoop, cstr_of_drop hm h0, hs, ← hget]
    exact if_neg hgood
  -- up to the character behind the integer
  have hrun : ∀ r, (if rest.headD 0 ≠ ch ',' then (pure none : Logged (Option Nat))
      else Accesses.intListLoop p n (i + 1) (pParse + (s.length - rest.length) + 1)).run
        (store m (p + 2 * i) (i16Bytes (Int16.ofInt value))) = r →
      (Accesses.intListLoop p (n + 1) i pParse).run m = (r.1, numeralReads pParse (s.length - rest.length) ++
        (stores (p + 2 * i) (i16Bytes (Int16.ofInt value)) ++
          ([.read (pParse + (s.length - rest.length))] ++ r.2))) := by
    intro r hr
    refine bind_eq hread ?_
    simp only [hgood', ↓reduceIte]
    refine bind_eq (run_storeRange _ _ _) (bind_eq (run_read _ _) ?_)
    rw [replay_read, replay_nil, replay_stores, replay_numeralReads, hget]
    exact hr
  have hsweep : Sweep p (pParse + s.length) pParse (pParse + (s.length - rest.length) + 1)
      (numeralReads pParse (s.length - rest.length) ++
        stores (p + 2 * i) (i16Bytes (Int16.ofInt value))) :=
    sweep_integer _ hp (by omega) (by omega)
  have hmem : ∀ as, replay m (numeralReads pParse (s.length - rest.length) ++
      (stores (p + 2 * i) (i16Bytes (Int16.ofInt value)) ++
        ([.read (pParse + (s.length - rest.length))] ++ as))) =
      replay (store m (p + 2 * i) (i16Bytes (Int16.ofInt value))) as := by
    intro as
    rw [replay_append, replay_numeralReads, replay_append, replay_stores, replay_append, replay_read,
      replay_nil]
  rw [IntListAccesses, hloop]
  by_cases hcomma : rest.headD 0 ≠ ch ','
  · rw [if_pos hcomma] at hrun ⊢
    refine ⟨_, pParse + (s.length - rest.length) + 1, hrun _ rfl, hmem [], ?_, by rintro _ ⟨⟩⟩
    rw [← List.append_assoc]
    exact hsweep.append (.again (by omega) .nil)
  · rw [if_neg hcomma] at hrun ⊢
    obtain ⟨cs, rfl⟩ : ∃ cs, rest = ch ',' :: cs := by
      rw [ne_eq, Decidable.not_not] at hcomma
      cases rest with
      | nil => exact absurd hcomma (by decide)
      | cons c cs => exact ⟨cs, by rw [List.headD_cons] at hcomma; rw [hcomma]⟩
    obtain ⟨as, f, hrun', hmem', hsweep', hend⟩ := hnext cs rfl
    have hhi : pParse + (s.length - (ch ',' :: cs).length) + 1 + cs.length = pParse + s.length := by
      rw [List.length_cons] at hle hgood ⊢
      omega
    rw [hhi] at hsweep' hend
    refine ⟨_, f, hrun _ hrun', (hmem as).trans hmem', ?_, hend⟩
    rw [← List.append_assoc]
    exact hsweep.append (.again (by omega) hsweep')

end IntListLoop

/-- Each integer is stored behind the bracket and the characters of those that are read already. -/
theorem intListLoop_accesses {m s post : List UInt8} {n i p pParse : Nat} (hm : m.drop pParse = s ++ 0 :: post)
    (h0 : 0 ∉ s) (hp : p + 2 * i < pParse) : IntListAccesses m s p n i pParse := by
  induction n generalizing i m s pParse with
  | zero =>
    rcases hs : strtol 10 s with ⟨value, rest⟩
    have hsuffix := suffix_of_strtol hs
    by_cases hbad : rest.length = s.length ∨ value < -32768 ∨ 32767 < value
    · exact intListLoop_stops hm h0 hs hbad
    · exact intListLoop_last hm h0 hs hsuffix.length_le hbad hp
  | succ n ih =>
    rcases hs : strtol 10 s with ⟨value, rest⟩
    have hsuffix := suffix_of_strtol hs
    by_cases hbad : rest.length = s.length ∨ value < -32768 ∨ 32767 < value
    · exact intListLoop_stops hm h0 hs hbad
    · refine intListLoop_next hm h0 hs hsuffix.length_le hbad hp fun cs hcs => ih ?_ ?_ ?_
      · have hdrop := drop_behind_integer hm hs (Int16.ofInt value) (fun h => hbad (.inl h)) hp
        rw [← List.drop_drop, hdrop, hcs]
        rfl
      · intro h
        exact h0 (hsuffix.subset (by rw [hcs]; exact List.mem_cons_of_mem _ h))
      · have hle := hsuffix.length_le
        omega

/-- The bracket, the integers and the bracket behind them. -/
theorem stringToIntList_accesses {t : List UInt8} (h0 : 0 ∉ t) (pre post : List UInt8) :
    ∃ as f, (Accesses.uCxStringToIntList pre.length).run (pre ++ t ++ 0 :: post) =
        ((uCxStringToIntList (pre ++ t ++ 0 :: post) pre.length).2, as) ∧
      replay (pre ++ t ++ 0 :: post) as = (uCxStringToIntList (pre ++ t ++ 0 :: post) pre.length).1 ∧
      Sweep pre.length (pre.length + t.length) pre.length f as := by
  have hstr := cstr_mid h0 pre post
  rw [uCxStringToIntList, Accesses.uCxStringToIntList, hstr]
  by_cases hempty : 2 ≤ t.length ∧ t.headD 0 = ch '[' ∧ t.getD 1 0 = ch ']'
  · simp only [run_bind, run_block, replay_nil, hstr, if_pos hempty, run_pure]
    exact ⟨_, _, rfl, rfl, .nil⟩
  · by_cases hshort : t.length < 3 ∨ t.headD 0 ≠ ch '['
    · simp only [run_bind, run_block, replay_nil, hstr, if_neg hempty, if_pos hshort, run_pure]
      exact ⟨_, _, rfl, rfl, .nil⟩
    · have hdrop : (pre ++ t ++ 0 :: post).drop (pre.length + 1) = t.drop 1 ++ 0 :: post := by
        rw [← List.drop_drop, List.append_assoc, List.drop_left, List.drop_append_of_le_length (by omega)]
      obtain ⟨as, f, hrun, hmem, hsweep, hend⟩ := intListLoop_accesses
        (n := (t.drop 1).dropLast.count (ch ',')) (i := 0) (p := pre.length) hdrop
        (fun h => h0 (List.mem_of_mem_drop h)) (by omega)
      have hhi : pre.length + 1 + (t.drop 1).length = pre.length + t.length := by
        rw [List.length_drop]
        omega
      rw [hhi] at hsweep hend
      simp only [run_bind, run_block, run_read, replay_nil, replay_read, hstr, if_neg hempty, if_neg hshort,
        hrun, hmem]
      generalize intListLoop pre.length ((t.drop 1).dropLast.count (ch ',')) 0 (pre ++ t ++ 0 :: post)
        (pre.length + 1) = r at hmem hend ⊢
      obtain ⟨m, pParse⟩ := r
      cases pParse with
      | none =>
        refine ⟨_, f, rfl, ?_, ?_⟩
        · simpa using hmem
        · simpa using Sweep.next (by omega) hsweep
      | some pParse =>
        have hle := hend pParse rfl
        refine ⟨_, f, rfl, ?_, ?_⟩
        · simpa using hmem
        · simpa using Sweep.next (by omega) (hsweep.append (.again hle .nil))
