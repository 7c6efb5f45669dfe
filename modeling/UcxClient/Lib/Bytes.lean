/-!
# Byte memory

A block of memory is a list of bytes and an address in it is an index. `store m off bs` writes the
bytes `bs` one after the other from index `off` on; a byte outside the block is dropped, so a store
never changes the size of the block (`length_store`). The lemmas split a block around the range
that is written (`store_mid`, `store_append_left`, `store_append_right`), which is how a layout
`before ++ field ++ after` is updated, and say what lies outside that range is kept
(`take_store_of_le`).

A 16 bit field is two bytes, low byte first (`u16Bytes`, `getU16`). `AgreeBelow n` relates two blocks
that differ at most from index `n` on.
-/

namespace ByteMem

/-- Write `bs` from index `off` on. -/
def store : List UInt8 → Nat → List UInt8 → List UInt8
  | m, _, [] => m
  | m, off, b :: bs => store (m.set off b) (off + 1) bs

/-- The `n` bytes from index `off` on. -/
def load (m : List UInt8) (off n : Nat) : List UInt8 := (m.drop off).take n

/-- `memmove(m, &m[src], n)`: the range starts of the block, `src` bytes further down. -/
def moveDown (m : List UInt8) (src n : Nat) : List UInt8 := store m 0 (load m src n)

/-- The two bytes of a `uint16_t`. -/
def u16Bytes (n : Nat) : List UInt8 := [UInt8.ofNat n, UInt8.ofNat (n / 256)]

/-- The `uint16_t` at index `off`. -/
def getU16 (m : List UInt8) (off : Nat) : Nat :=
  (m.getD off 0).toNat + 256 * (m.getD (off + 1) 0).toNat

/-! ## Stores -/

@[simp] theorem store_nil (m : List UInt8) (off : Nat) : store m off [] = m := rfl

@[simp] theorem length_store (m : List UInt8) (off : Nat) (bs : List UInt8) :
    (store m off bs).length = m.length := by
  induction bs generalizing m off with
  | nil => rfl
  | cons b bs ih => simp [store, ih]

/-- Two stores in a row are one. -/
theorem store_append (m : List UInt8) (off : Nat) (xs ys : List UInt8) :
    store m off (xs ++ ys) = store (store m off xs) (off + xs.length) ys := by
  induction xs generalizing m off with
  | nil => rfl
  | cons x xs ih =>
    simp only [List.cons_append, store, ih, List.length_cons]
    congr 1
    omega

/-- A store past `pre` leaves `pre` alone. -/
theorem store_append_right (pre m : List UInt8) (off : Nat) (bs : List UInt8) :
    store (pre ++ m) (pre.length + off) bs = pre ++ store m off bs := by
  induction bs generalizing m off with
  | nil => rfl
  | cons b bs ih =>
    simp only [store]
    rw [List.set_append, if_neg (by omega), Nat.add_sub_cancel_left, Nat.add_assoc, ih]

/-- A store that ends before `post` leaves `post` alone. -/
theorem store_append_left (m post : List UInt8) (off : Nat) (bs : List UInt8)
    (h : off + bs.length ≤ m.length) : store (m ++ post) off bs = store m off bs ++ post := by
  induction bs generalizing m off with
  | nil => rfl
  | cons b bs ih =>
    simp only [List.length_cons] at h
    simp only [store]
    rw [List.set_append, if_pos (by omega), ih _ _ (by simp; omega)]

/-- A store of a whole block replaces it. -/
theorem store_all (m bs : List UInt8) (h : m.length = bs.length) : store m 0 bs = bs := by
  induction bs generalizing m with
  | nil => simpa using h
  | cons b bs ih =>
    obtain - | ⟨x, m⟩ := m
    · simp at h
    · have : store (b :: m) 1 bs = [b] ++ store m 0 bs := store_append_right [b] m 0 bs
      simp only [store, List.set_cons_zero, Nat.zero_add, this]
      rw [ih m (by simpa using h)]
      rfl

/-- **A field is overwritten in place**: the bytes before and after it are kept. -/
theorem store_mid (pre mid post bs : List UInt8) (off : Nat) (ho : off = pre.length)
    (h : mid.length = bs.length) : store (pre ++ mid ++ post) off bs = pre ++ bs ++ post := by
  subst ho
  rw [store_append_left _ _ _ _ (by simp [h]), show pre.length = pre.length + 0 from rfl,
    store_append_right, store_all _ _ h]

/-- The bytes below the range that is written are kept. -/
theorem take_store_of_le (m : List UInt8) (off n : Nat) (bs : List UInt8) (h : n ≤ off) :
    (store m off bs).take n = m.take n := by
  induction bs generalizing m off with
  | nil => rfl
  | cons b bs ih =>
    rw [store, ih _ _ (by omega), List.take_set_of_le h]

/-- The bytes above the range that is written are kept. -/
theorem drop_store_of_le (m : List UInt8) (off n : Nat) (bs : List UInt8)
    (h : off + bs.length ≤ n) : (store m off bs).drop n = m.drop n := by
  induction bs generalizing m off with
  | nil => rfl
  | cons b bs ih =>
    simp only [List.length_cons] at h
    rw [store, ih _ _ (by omega), List.drop_set_of_lt (by omega)]

/-! ## Reading back -/

theorem load_mid (pre mid post : List UInt8) (off n : Nat) (ho : off = pre.length)
    (hn : n = mid.length) : load (pre ++ mid ++ post) off n = mid := by
  subst ho hn
  simp [load]

/-- Moving a range down to the start of the block drops what was before it. -/
theorem moveDown_append (pre mid post : List UInt8) (src n : Nat) (hs : src = pre.length)
    (hn : n = mid.length) :
    ∃ rest, moveDown (pre ++ mid ++ post) src n = mid ++ rest ∧
      rest.length = pre.length + post.length := by
  refine ⟨(pre ++ mid ++ post).drop n, ?_, by simp; omega⟩
  rw [moveDown, load_mid _ _ _ _ _ hs hn]
  have hsplit := (List.take_append_drop n (pre ++ mid ++ post)).symm
  have := store_mid [] ((pre ++ mid ++ post).take n) ((pre ++ mid ++ post).drop n) mid 0 rfl
    (by simp; omega)
  rw [List.nil_append, ← hsplit] at this
  simpa using this

@[simp] theorem length_u16Bytes (n : Nat) : (u16Bytes n).length = 2 := rfl

theorem getU16_u16Bytes (pre post : List UInt8) (n off : Nat) (ho : off = pre.length)
    (hn : n < 65536) : getU16 (pre ++ u16Bytes n ++ post) off = n := by
  subst ho
  have h0 : (pre ++ u16Bytes n ++ post).getD pre.length 0 = UInt8.ofNat n := by
    simp [u16Bytes, List.getD_eq_getElem?_getD]
  have h1 : (pre ++ u16Bytes n ++ post).getD (pre.length + 1) 0 = UInt8.ofNat (n / 256) := by
    simp [u16Bytes, List.getD_eq_getElem?_getD]
  rw [getU16, h0, h1]
  simp only [UInt8.toNat_ofNat']
  omega

/-- A field is read from the bytes at its place. -/
theorem getU16_congr_take {m m' : List UInt8} {n off : Nat} (h : m.take n = m'.take n)
    (hoff : off + 2 ≤ n) : getU16 m off = getU16 m' off := by
  have hget : ∀ i, i < n → m.getD i 0 = m'.getD i 0 := by
    intro i hi
    have hi' := congrArg (fun l => l.getD i 0) h
    simpa [List.getD_eq_getElem?_getD, List.getElem?_take, hi] using hi'
  rw [getU16, getU16, hget off (by omega), hget (off + 1) (by omega)]

/-! ## Blocks that agree below an index -/

/-- Blocks of one size that agree below `n`. -/
def AgreeBelow (n : Nat) (m m' : List UInt8) : Prop :=
  m.length = m'.length ∧ ∀ i < n, m[i]? = m'[i]?

namespace AgreeBelow

variable {n off : Nat} {m m' : List UInt8}

theorem mono (h : AgreeBelow n m m') {k : Nat} (hk : k ≤ n) : AgreeBelow k m m' :=
  ⟨h.1, fun i hi => h.2 i (Nat.lt_of_lt_of_le hi hk)⟩

theorem set (h : AgreeBelow n m m') (i : Nat) (b : UInt8) :
    AgreeBelow n (m.set i b) (m'.set i b) := by
  refine ⟨by simp [h.1], fun j hj => ?_⟩
  rw [List.getElem?_set, List.getElem?_set, h.1, h.2 j hj]

theorem set_next (h : AgreeBelow n m m') (b : UInt8) :
    AgreeBelow (n + 1) (m.set n b) (m'.set n b) := by
  refine ⟨by simp [h.1], fun j hj => ?_⟩
  rw [List.getElem?_set, List.getElem?_set, h.1]
  by_cases hjn : n = j
  · rw [if_pos hjn, if_pos hjn]
  · rw [if_neg hjn, if_neg hjn]
    exact h.2 j (by omega)

/-- The same bytes stored at the same place keep the blocks alike. -/
theorem store (h : AgreeBelow n m m') (off : Nat) (bs : List UInt8) :
    AgreeBelow n (ByteMem.store m off bs) (ByteMem.store m' off bs) := by
  induction bs generalizing m m' off with
  | nil => exact h
  | cons b bs ih => exact ih (h.set off b) (off + 1)

/-- Bytes stored right behind the part that is alike become part of it. -/
theorem store_next (h : AgreeBelow n m m') (bs : List UInt8) :
    AgreeBelow (n + bs.length) (ByteMem.store m n bs) (ByteMem.store m' n bs) := by
  induction bs generalizing n m m' with
  | nil => exact h
  | cons b bs ih =>
    have := ih (h.set_next b)
    rwa [Nat.add_assoc, Nat.add_comm 1] at this

end AgreeBelow

end ByteMem
