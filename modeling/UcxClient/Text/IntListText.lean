import UcxClient.Text.IntList
import UcxClient.Text.RoundTrip

/-!
# The text of a list of integers

Two functions write the text of a list: `uCxIntListToString` to a buffer of its caller, with a check for room
before every character that does not come from `snprintf`, and the format `l` of `uCxAtClientSendCmdVaList`
through a scratch buffer, one integer at a time. Both write `listText`; the first one if and only if there is
room for it, but its return value is that length only as long as it fits an `int32_t` (`encodesExactly_iff`).
-/

open ByteMem Separated

/-- The text of a list. -/
def listText (vs : List Int16) : List UInt8 :=
  ch '[' :: ([ch ','].intercalate (vs.map fun v => formatInt v.toInt) ++ [ch ']'])

/-- The call with the buffer `buf` between `pre` and `post` succeeds if and only if the text and its terminator
fit, and keeps the rest of the memory. If it succeeds the buffer has the text, which is what `l` writes. -/
structure Encodes (vs : List Int16) (pre buf post : List UInt8) (r : List UInt8 × Int) : Prop where
  succeeds : 0 ≤ r.2 ↔ (listText vs).length + 1 ≤ buf.length
  inside : ∃ buf', buf'.length = buf.length ∧ r.1 = pre ++ buf' ++ post
  length : 0 ≤ r.2 → r.2 = (listText vs).length
  text : 0 ≤ r.2 → cstr r.1 pre.length = listText vs
  bytes : 0 ≤ r.2 → cstr r.1 pre.length = SendCmd.intListBytes vs
  sent : 0 ≤ r.2 → ∀ pCmd, uCxAtClientSendCmdVaList pCmd [ch 'l'] [.intList vs] =
    some (pCmd ++ cstr r.1 pre.length ++ [ch '\r'])

/-- Wherever the buffer is and whatever is in it. -/
def EncodesExactly (vs : List Int16) (sizeBytes : Nat) : Prop :=
  ∀ pre buf post, buf.length = sizeBytes →
    Encodes vs pre buf post (uCxIntListToString vs (pre ++ buf ++ post) pre.length sizeBytes)

/-! ## The text -/

/-! ## Through the scratch buffer -/

namespace SendCmd

/-- The numeral of an `int16_t` fits in `buf` with the character in front and the terminator. -/
theorem length_formatInt16 (v : Int16) : (formatInt v.toInt).length ≤ 6 := by
  have hlt := v.toInt_lt
  have hle := v.le_toInt
  have hdigits := length_formatUnsigned (n := v.toInt.natAbs) (k := 5) (by decide) (by omega)
  unfold formatInt
  split
  · rw [List.length_cons]
    omega
  · omega

theorem intListWrites_eq (vs : List Int16) {c : UInt8} {cs : List UInt8} (h : (c :: cs).length = bufSize) :
    intListWrites (c :: cs) vs = intListText c vs := by
  induction vs generalizing c cs with
  | nil => rfl
  | cons v vs ih =>
    have hlen := length_formatInt16 v
    have hsize : bufSize = 42 := rfl
    rw [hsize, List.length_cons] at h
    have hall : (formatInt v.toInt).take (bufSize - 1 - 1) = formatInt v.toInt :=
      List.take_of_length_le (by omega)
    obtain ⟨gap, hgap, hstore⟩ := store_prefix [c] cs [] (formatInt v.toInt ++ [0]) (by
      rw [List.length_append, List.length_singleton]
      omega)
    rw [List.append_nil, List.append_nil] at hstore
    have hstore' : store (c :: cs) 1 (formatInt v.toInt ++ [0]) = c :: (formatInt v.toInt ++ [0] ++ gap) := hstore
    rw [intListWrites, snprintf, if_neg (by decide), hall, hstore']
    dsimp only
    rw [List.set_cons_zero, ih (by rw [List.length_cons, hgap, hsize]; exact h), intListText]
    simp [load]

theorem argText_intList (vs : List Int16) : argText (.intList vs) = some (intListBytes vs) := by
  rw [argText, intListBytes]
  congr 1
  split
  · rfl
  · exact (intListWrites_eq vs (by rfl)).symm

theorem intListText_eq (c : UInt8) {vs : List Int16} (h : vs ≠ []) :
    intListText c vs = c :: ([ch ','].intercalate (vs.map fun v => formatInt v.toInt) ++ [ch ']']) := by
  induction vs generalizing c with
  | nil => exact absurd rfl h
  | cons v vs ih =>
    by_cases hvs : vs = []
    · subst hvs
      rw [List.map_cons, List.map_nil, intercalate_singleton]
      rfl
    · rw [intListText, ih (ch ',') hvs, List.map_cons, intercalate_cons _ _ (by simpa using hvs)]
      simp

theorem intListBytes_eq (vs : List Int16) : intListBytes vs = listText vs := by
  have hbytes := argText_intList vs
  rw [argText, Option.some_inj] at hbytes
  rw [← hbytes]
  split
  · next h =>
    rw [h]
    rfl
  · next h => exact intListText_eq (ch '[') h

end SendCmd

/-! ## Into the room of a buffer -/

/-- Into room for at least two characters `f` writes the text `t`, unless less than two would be left, and
nothing outside. -/
def WritesText (f : Nat → List UInt8 → Nat → List UInt8 × Option Nat) (t : List UInt8) : Prop :=
  ∀ pre room post, 2 ≤ room.length → ∃ room', room'.length = room.length ∧
    f (pre.length + room.length) (pre ++ room ++ post) pre.length = (pre ++ room' ++ post,
      if t.length + 1 < room.length then some (pre.length + t.length) else none) ∧
    (t.length + 1 < room.length → t <+: room')

theorem WritesText.nil : WritesText (fun _ m pWrite => (m, some pWrite)) [] := fun pre room post h => by
  refine ⟨room, rfl, ?_, fun _ => List.nil_prefix⟩
  rw [if_pos (by rw [List.length_nil]; omega)]
  rfl

/-- One after the other. -/
theorem WritesText.seq {f g : Nat → List UInt8 → Nat → List UInt8 × Option Nat} {t u : List UInt8}
    (hf : WritesText f t) (hg : WritesText g u) :
    WritesText (fun pEnd m pWrite => match f pEnd m pWrite with
      | (m, none) => (m, none)
      | (m, some pWrite) => g pEnd m pWrite) (t ++ u) := fun pre room post hroom => by
  obtain ⟨room₁, hlen₁, hrun₁, htext₁⟩ := hf pre room post hroom
  dsimp only
  rw [hrun₁]
  by_cases ht : t.length + 1 < room.length
  · obtain ⟨rest, rfl⟩ := htext₁ ht
    rw [List.length_append] at hlen₁
    obtain ⟨rest', hlen, hrun, htext⟩ := hg (pre ++ t) rest post (by omega)
    have hend : (pre ++ t).length + rest.length = pre.length + room.length := by
      rw [List.length_append]
      omega
    rw [hend, List.length_append, List.append_assoc pre t rest] at hrun
    rw [if_pos ht]
    refine ⟨t ++ rest', by rw [List.length_append]; omega, ?_, fun h => ?_⟩
    · dsimp only
      rw [hrun, List.append_assoc pre t rest', List.length_append]
      congr 1
      by_cases hu : u.length + 1 < rest.length
      · rw [if_pos hu, if_pos (by omega), Nat.add_assoc]
      · rw [if_neg hu, if_neg (by omega)]
    · rw [List.length_append] at h
      exact (List.prefix_append_right_inj t).2 (htext (by omega))
  · rw [if_neg ht]
    refine ⟨room₁, hlen₁, ?_, fun h => ?_⟩
    · rw [if_neg (by rw [List.length_append]; omega)]
    · rw [List.length_append] at h
      omega

/-- `snprintf` to all the room there is. -/
theorem snprintf_room (pre room post s : List UInt8) (h : 0 < room.length) : ∃ room',
    room'.length = room.length ∧
    snprintf (pre ++ room ++ post) pre.length room.length s = (pre ++ room' ++ post, s.length) ∧
    (s.length < room.length → s <+: room') := by
  have htake : (s.take (room.length - 1)).length ≤ room.length - 1 := List.length_take_le ..
  obtain ⟨gap, hgap, hstore⟩ := store_prefix pre room post (s.take (room.length - 1) ++ [0]) (by
    rw [List.length_append, List.length_singleton]
    omega)
  refine ⟨_, hgap, by rw [snprintf, if_neg (by omega), hstore], fun hs => ?_⟩
  rw [List.take_of_length_le (by omega), List.append_assoc]
  exact List.prefix_append ..

/-- Integer number `i` with the comma in front of it. -/
def itemText (i : Nat) (v : Int16) : List UInt8 := (if 0 < i then [ch ','] else []) ++ formatInt v.toInt

theorem intListItem_writes (i : Nat) (v : Int16) :
    WritesText (fun pEnd m pWrite => intListItem pEnd i v m pWrite) (itemText i v) := by
  intro pre room post hroom
  have hpos := List.length_pos_iff.2 (numeral_formatInt v.toInt).ne_nil
  dsimp only
  rw [intListItem, if_neg (by omega)]
  by_cases hi : 0 < i
  · obtain ⟨c, cs, rfl⟩ := List.exists_cons_of_ne_nil (List.length_pos_iff.1 (by omega : 0 < room.length))
    rw [List.length_cons] at hroom ⊢
    have hset : (pre ++ c :: cs ++ post).set pre.length (ch ',') = pre ++ [ch ','] ++ cs ++ post := by
      simp
    obtain ⟨room', hlen, hrun, htext⟩ := snprintf_room (pre ++ [ch ',']) cs post (formatInt v.toInt) (by omega)
    rw [List.length_append, List.length_singleton] at hrun
    have hsize : pre.length + (cs.length + 1) - (pre.length + 1) = cs.length := by omega
    rw [itemText, if_pos hi, if_pos hi, hset]
    dsimp only
    rw [hsize, hrun]
    refine ⟨ch ',' :: room', by rw [List.length_cons, hlen], ?_, fun h => ?_⟩
    · dsimp only
      rw [List.length_append, List.length_singleton, List.append_assoc pre]
      by_cases hfit : 1 + (formatInt v.toInt).length + 1 < cs.length + 1
      · rw [if_neg (by omega), if_pos hfit, Nat.add_assoc]
        rfl
      · rw [if_pos (by omega), if_neg hfit]
        rfl
    · rw [List.length_append, List.length_singleton] at h
      exact (List.prefix_cons_inj _).2 (htext (by omega))
  · obtain ⟨room', hlen, hrun, htext⟩ := snprintf_room pre room post (formatInt v.toInt) (by omega)
    rw [itemText, if_neg hi, if_neg hi, List.nil_append]
    dsimp only
    rw [Nat.add_sub_cancel_left, hrun]
    refine ⟨room', hlen, ?_, fun h => htext (by omega)⟩
    dsimp only
    by_cases hfit : (formatInt v.toInt).length + 1 < room.length
    · rw [if_neg (by omega), if_pos hfit]
    · rw [if_pos (by omega), if_neg hfit]

/-- The integers from number `i` on. -/
def itemsText : Nat → List Int16 → List UInt8
  | _, [] => []
  | i, v :: vs => itemText i v ++ itemsText (i + 1) vs

theorem intListItems_writes (i : Nat) (vs : List Int16) :
    WritesText (fun pEnd m pWrite => intListItems pEnd i vs m pWrite) (itemsText i vs) := by
  induction vs generalizing i with
  | nil => exact .nil
  | cons v vs ih => exact (intListItem_writes i v).seq (ih (i + 1))

theorem itemsText_eq (i : Nat) {vs : List Int16} (h : vs ≠ []) : itemsText i vs =
    (if 0 < i then [ch ','] else []) ++ [ch ','].intercalate (vs.map fun v => formatInt v.toInt) := by
  induction vs generalizing i with
  | nil => exact absurd rfl h
  | cons v vs ih =>
    rw [itemsText, itemText, List.append_assoc]
    congr 1
    by_cases hvs : vs = []
    · subst hvs
      simp [itemsText]
    · rw [ih (i + 1) hvs, if_pos (Nat.succ_pos i), List.map_cons, intercalate_cons _ _ (by simpa using hvs)]
      rfl

theorem itemsText_zero (vs : List Int16) :
    itemsText 0 vs = [ch ','].intercalate (vs.map fun v => formatInt v.toInt) := by
  cases vs with
  | nil => rfl
  | cons v vs => exact itemsText_eq 0 (List.cons_ne_nil v vs)

/-! ## The buffer -/

theorem length_listText (vs : List Int16) : (listText vs).length = (itemsText 0 vs).length + 2 := by
  rw [itemsText_zero]
  simp [listText]

/-- The bracket in front of what comes next is overwritten in place. -/
theorem set_room (pre : List UInt8) (c c' : UInt8) (room post : List UInt8) :
    (pre ++ c :: room ++ post).set pre.length c' = pre ++ [c'] ++ room ++ post := by
  simp

/-- The bracket and the terminator behind a text. -/
theorem set_close (pre t : List UInt8) (c c' : UInt8) (gap post : List UInt8) :
    ((pre ++ (t ++ c :: c' :: gap) ++ post).set (pre.length + t.length) (ch ']')).set (pre.length + t.length + 1) 0 =
      pre ++ (t ++ [ch ']', 0] ++ gap) ++ post := by
  have hfirst := set_room (pre ++ t) c (ch ']') (c' :: gap) post
  have hsecond := set_room (pre ++ t ++ [ch ']']) c' 0 gap post
  simp only [List.length_append, List.length_singleton, List.append_assoc, List.cons_append,
    List.nil_append, ← Nat.add_assoc] at hfirst hsecond ⊢
  rw [hfirst, hsecond]

/-- **What a call does.** -/
theorem uCxIntListToString_eq (vs : List Int16) (pre buf post : List UInt8) : ∃ buf', buf'.length = buf.length ∧
    uCxIntListToString vs (pre ++ buf ++ post) pre.length buf.length = (pre ++ buf' ++ post,
      if (listText vs).length < buf.length then toInt32 (listText vs).length else -1) ∧
    ((listText vs).length < buf.length → listText vs ++ [0] <+: buf') := by
  have hlen := length_listText vs
  rw [uCxIntListToString]
  by_cases hshort : buf.length < 3
  · rw [if_pos hshort, if_neg (by omega)]
    exact ⟨buf, rfl, rfl, fun h => by omega⟩
  · rw [if_neg hshort]
    obtain - | ⟨b, room⟩ := buf
    · simp at hshort
    rw [List.length_cons] at hshort ⊢
    by_cases hvs : vs = []
    · subst hvs
      obtain - | ⟨b₁, - | ⟨b₂, gap⟩⟩ := room
      · simp at hshort
      · simp at hshort
      · have htext : listText [] = [ch '[', ch ']'] := rfl
        rw [htext, if_pos (by rfl), if_pos (by simp), set_room]
        refine ⟨ch '[' :: ch ']' :: 0 :: gap, rfl, ?_, fun _ => ⟨gap, rfl⟩⟩
        simp
        rfl
    · have hlength : vs.length ≠ 0 := by simpa using hvs
      obtain ⟨room', hroom', hrun, htext⟩ :=
        intListItems_writes 0 vs (pre ++ [ch '[']) room post (by omega)
      rw [List.length_append, List.length_singleton] at hrun
      rw [if_neg hlength, set_room, show pre.length + (room.length + 1) = pre.length + 1 + room.length by omega]
      dsimp only at hrun ⊢
      rw [hrun]
      by_cases hfit : (itemsText 0 vs).length + 1 < room.length
      · obtain ⟨rest, rfl⟩ := htext hfit
        rw [List.length_append] at hroom'
        obtain - | ⟨c, - | ⟨c', gap⟩⟩ := rest
        · simp at hroom'
          omega
        · simp at hroom'
          omega
        · rw [if_pos hfit, if_pos (by omega)]
          dsimp only
          rw [if_neg (by omega)]
          have hvalue : pre.length + 1 + (itemsText 0 vs).length + 1 - pre.length = (listText vs).length := by
            omega
          have hset := set_close (pre ++ [ch '[']) (itemsText 0 vs) c c' gap post
          have hbuf : ch '[' :: (itemsText 0 vs ++ [ch ']', 0] ++ gap) = listText vs ++ [0] ++ gap := by
            rw [listText, itemsText_zero]
            simp
          rw [List.length_append, List.length_singleton] at hset
          rw [hset, hvalue]
          refine ⟨listText vs ++ [0] ++ gap, ?_, ?_, fun _ => List.prefix_append ..⟩
          · rw [← hbuf]
            simp at hroom' ⊢
            omega
          · rw [← hbuf]
            simp
      · rw [if_neg hfit, if_neg (by omega)]
        exact ⟨ch '[' :: room', by rw [List.length_cons, hroom'], by simp, fun h => by omega⟩

theorem token_intList (vs : List Int16) : (Arg.intList vs).token = listText vs := by
  rw [Arg.token, SendCmd.argText_intList, SendCmd.intListBytes_eq]
  rfl

theorem zero_notMem_listText (vs : List Int16) : 0 ∉ listText vs := by
  rw [← token_intList]
  exact zero_notMem_token rfl rfl

theorem cstr_listText (vs : List Int16) (pre gap post : List UInt8) :
    cstr (pre ++ (listText vs ++ [0] ++ gap) ++ post) pre.length = listText vs := by
  have hmid := cstr_mid (zero_notMem_listText vs) pre (gap ++ post)
  simpa using hmid

theorem sendCmd_intList (pCmd : List UInt8) (vs : List Int16) :
    uCxAtClientSendCmdVaList pCmd [ch 'l'] [.intList vs] = some (pCmd ++ listText vs ++ [ch '\r']) := by
  have hbinary : ∀ a ∈ [Arg.intList vs], a.isBinary = false := fun a ha => by
    rw [List.mem_singleton.1 ha]
    rfl
  have hsend := sendCmd_eq pCmd hbinary
  simp only [List.map_cons, List.map_nil, token_intList, commaSeparated, List.flatMap_nil, List.append_nil] at hsend
  exact hsend

theorem EncodesExactly.short {vs : List Int16} {sizeBytes : Nat} (h : EncodesExactly vs sizeBytes)
    (hfit : (listText vs).length < sizeBytes) : (listText vs).length < 2 ^ 31 := by
  have hencodes := h [] (List.replicate sizeBytes 0) [] List.length_replicate
  obtain ⟨buf', -, hcall, -⟩ := uCxIntListToString_eq vs [] (List.replicate sizeBytes 0) []
  rw [List.length_replicate, if_pos hfit] at hcall
  rw [hcall] at hencodes
  have hok := hencodes.succeeds.2 (by rw [List.length_replicate]; exact hfit)
  have hvalue := hencodes.length hok
  dsimp only at hvalue
  rw [toInt32_eq] at hvalue
  omega

/-- **The encoders agree, and the size is exact**, if and only if the text does not fit or is shorter than 2^31
characters. -/
theorem encodesExactly_iff (vs : List Int16) (sizeBytes : Nat) :
    EncodesExactly vs sizeBytes ↔ sizeBytes ≤ (listText vs).length ∨ (listText vs).length < 2 ^ 31 := by
  constructor
  · intro h
    by_cases hfit : sizeBytes ≤ (listText vs).length
    · exact .inl hfit
    · exact .inr (h.short (by omega))
  · intro h pre buf post hsize
    subst hsize
    obtain ⟨buf', hlen, hcall, htext⟩ := uCxIntListToString_eq vs pre buf post
    rw [hcall]
    by_cases hfit : (listText vs).length < buf.length
    · have hvalue : toInt32 (listText vs).length = (listText vs).length := toInt32_of_lt (by omega) (by omega)
      obtain ⟨gap, rfl⟩ := htext hfit
      have hstr := cstr_listText vs pre gap post
      have hbytes := hstr.trans (SendCmd.intListBytes_eq vs).symm
      rw [if_pos hfit, hvalue]
      exact ⟨⟨fun _ => hfit, fun _ => Int.natCast_nonneg _⟩, ⟨_, hlen, rfl⟩, fun _ => rfl, fun _ => hstr,
        fun _ => hbytes, fun _ pCmd => by rw [hstr, sendCmd_intList]⟩
    · have hfail : ¬(0 : Int) ≤ -1 := by decide
      rw [if_neg hfit]
      exact ⟨⟨fun hok => absurd hok hfail, fun h => absurd h hfit⟩, ⟨buf', hlen, rfl⟩,
        fun hok => absurd hok hfail, fun hok => absurd hok hfail, fun hok => absurd hok hfail,
        fun hok => absurd hok hfail⟩

theorem length_listText_replicate {n : Nat} (h : 0 < n) : (listText (List.replicate n 0)).length = 2 * n + 1 := by
  have hzero : (formatInt (0 : Int16).toInt).length = 1 := rfl
  rw [length_listText, itemsText_zero]
  induction n with
  | zero => omega
  | succ n ih =>
    by_cases hn : n = 0
    · subst hn
      rfl
    · have hlen := ih (by omega)
      rw [List.replicate_succ, List.map_cons, intercalate_cons _ _ (by simpa using hn), List.length_append,
        List.length_cons]
      omega

/-- The text of 2^30 zeros fits and is written, but what is returned is negative. -/
theorem long_list_encoded : (listText (List.replicate (2 ^ 30) 0)).length + 1 = 2 ^ 31 + 2 ∧
    (uCxIntListToString (List.replicate (2 ^ 30) 0) (List.replicate (2 ^ 31 + 2) 0) 0 (2 ^ 31 + 2)).2 =
      1 - 2 ^ 31 ∧ ¬EncodesExactly (List.replicate (2 ^ 30) 0) (2 ^ 31 + 2) := by
  have hlen : (listText (List.replicate (2 ^ 30) 0)).length = 2 ^ 31 + 1 :=
    length_listText_replicate (n := 2 ^ 30) (by decide)
  refine ⟨by rw [hlen], ?_, fun h => ?_⟩
  · obtain ⟨buf', -, hcall, -⟩ := uCxIntListToString_eq (List.replicate (2 ^ 30) 0) []
      (List.replicate (2 ^ 31 + 2) 0) []
    rw [List.length_replicate, hlen, if_pos (by decide)] at hcall
    rw [List.nil_append, List.append_nil, List.length_nil] at hcall
    rw [hcall, toInt32_eq]
    dsimp only
    decide
  · have hshort := h.short (by rw [hlen]; decide)
    rw [hlen] at hshort
    exact absurd hshort (by decide)
