import Mathlib.Data.List.Rotate
import Mathlib.Data.Nat.ModEq

/-!
# Ring buffers

A ring buffer keeps what its writer puts in until its reader gets it. `RingBuffer` is what its users
rely on: a claim tells the writer how much it may write next, which may be less than the room there is,
but is not nothing unless there is none; `putFinish` appends what was written; the reader gets the oldest
items. `ArrayRing` is such a buffer, in an array with the place of its oldest item.
-/

universe u v

/-- Ring buffers of items `α`. -/
class RingBuffer (ρ : Type u) (α : outParam (Type v)) where
  init : Nat → ρ
  contents : ρ → List α
  capacity : ρ → Nat
  isEmpty : ρ → Bool
  /-- The number of items that may be written next, at most `n`. -/
  putClaim : ρ → Nat → Nat
  /-- The claim ends, and the items have been written. -/
  putFinish : ρ → List α → ρ
  get : ρ → Nat → List α × ρ
  contents_init (n : Nat) : contents (init n) = []
  capacity_init (n : Nat) : capacity (init n) = n
  isEmpty_iff (r : ρ) : isEmpty r = true ↔ contents r = []
  putClaim_le (r : ρ) (n : Nat) : putClaim r n ≤ n
  putClaim_room (r : ρ) (n : Nat) : (contents r).length + putClaim r n ≤ capacity r
  putClaim_pos (r : ρ) (n : Nat) : 0 < n → (contents r).length < capacity r → 0 < putClaim r n
  contents_putFinish (r : ρ) (n : Nat) (as : List α) : as.length ≤ putClaim r n →
    contents (putFinish r as) = contents r ++ as
  capacity_putFinish (r : ρ) (as : List α) : capacity (putFinish r as) = capacity r
  fst_get (r : ρ) (n : Nat) : (get r n).1 = (contents r).take n
  contents_get (r : ρ) (n : Nat) : contents (get r n).2 = (contents r).drop n
  capacity_get (r : ρ) (n : Nat) : capacity (get r n).2 = capacity r

namespace RingBuffer

variable {ρ : Type u} {α : Type v} [RingBuffer ρ α] {r : ρ} {n : Nat}

theorem length_contents_le (r : ρ) : (contents r).length ≤ capacity r :=
  Nat.le_of_add_right_le (putClaim_room r 0)

/-- Nothing can be claimed of a full buffer only. -/
theorem full_of_putClaim (hn : 0 < n) (h : putClaim r n = 0) : (contents r).length = capacity r := by
  have hle := length_contents_le r
  have hpos := putClaim_pos r n hn
  omega

theorem contents_putFinish_nil (r : ρ) : contents (putFinish r ([] : List α)) = contents r := by
  rw [contents_putFinish r 0 [] (Nat.zero_le _), List.append_nil]

/-- What is got was the beginning of the contents. -/
theorem get_append (r : ρ) (n : Nat) : (get r n).1 ++ contents (get r n).2 = contents r := by
  rw [fst_get, contents_get, List.take_append_drop]

end RingBuffer

/-- A ring buffer in an array. -/
structure ArrayRing (α : Type u) where
  buf : List α
  /-- the place of the oldest item -/
  getPos : Nat
  used : Nat
  used_le : used ≤ buf.length

namespace ArrayRing

variable {α : Type u}

def contents (r : ArrayRing α) : List α := (r.buf.rotate r.getPos).take r.used

def putPos (r : ArrayRing α) : Nat := (r.getPos + r.used) % r.buf.length

/-- Store an item, if there is room. -/
def push (r : ArrayRing α) (a : α) : ArrayRing α :=
  if h : r.used < r.buf.length then
    { r with buf := r.buf.set r.putPos a, used := r.used + 1, used_le := by rwa [List.length_set] }
  else r

/-- The free items up to the end of the array. -/
def claim (r : ArrayRing α) (n : Nat) : Nat := min n (min (r.buf.length - r.used) (r.buf.length - r.putPos))

def get (r : ArrayRing α) (n : Nat) : List α × ArrayRing α :=
  (r.contents.take n,
    { r with
      getPos := (r.getPos + min n r.used) % r.buf.length
      used := r.used - min n r.used
      used_le := Nat.le_trans (Nat.sub_le _ _) r.used_le })

theorem length_contents (r : ArrayRing α) : r.contents.length = r.used := by
  rw [contents, List.length_take, List.length_rotate, Nat.min_eq_left r.used_le]

theorem length_push (r : ArrayRing α) (a : α) : (r.push a).buf.length = r.buf.length := by
  unfold push
  split
  · exact List.length_set
  · rfl

/-- What is stored behind the newest item is the newest item of the rotated array. -/
theorem rotate_set_putPos (r : ArrayRing α) (h : r.used < r.buf.length) (a : α) :
    (r.buf.set r.putPos a).rotate r.getPos = (r.buf.rotate r.getPos).set r.used a := by
  have hlen : ((r.buf.set r.putPos a).rotate r.getPos).length = ((r.buf.rotate r.getPos).set r.used a).length := by
    simp only [List.length_rotate, List.length_set]
  refine List.ext_getElem hlen fun i hi hi' => ?_
  simp only [List.length_rotate, List.length_set] at hi
  simp only [List.getElem_rotate, List.getElem_set, List.length_set]
  have hiff : r.putPos = (i + r.getPos) % r.buf.length ↔ r.used = i := by
    have hmod : r.putPos = (i + r.getPos) % r.buf.length ↔ r.used ≡ i [MOD r.buf.length] := by
      unfold putPos
      rw [Nat.add_comm i]
      exact ⟨fun h => Nat.ModEq.add_left_cancel' r.getPos h, fun h => Nat.ModEq.add_left r.getPos h⟩
    rw [hmod]
    exact ⟨fun hm => Nat.ModEq.eq_of_lt_of_lt hm h hi, fun he => he ▸ rfl⟩
  simp only [hiff]

theorem contents_push (r : ArrayRing α) (h : r.used < r.buf.length) (a : α) :
    (r.push a).contents = r.contents ++ [a] := by
  have hlen : r.used < (r.buf.rotate r.getPos).length := by rwa [List.length_rotate]
  rw [push, dif_pos h, contents, r.rotate_set_putPos h, contents]
  simp only
  rw [List.take_add_one, List.getElem?_set_self hlen, List.take_set_of_le (Nat.le_refl _)]
  rfl

theorem used_push (r : ArrayRing α) (h : r.used < r.buf.length) (a : α) : (r.push a).used = r.used + 1 := by
  rw [push, dif_pos h]

theorem contents_pushAll (r : ArrayRing α) (as : List α) (h : r.used + as.length ≤ r.buf.length) :
    (as.foldl push r).contents = r.contents ++ as := by
  induction as generalizing r with
  | nil => exact (List.append_nil _).symm
  | cons a as ih =>
    rw [List.length_cons] at h
    have hlt : r.used < r.buf.length := by omega
    rw [List.foldl_cons, ih (r.push a) (by rw [r.length_push, r.used_push hlt]; omega), r.contents_push hlt,
      List.append_assoc, List.singleton_append]

theorem length_pushAll (r : ArrayRing α) (as : List α) : (as.foldl push r).buf.length = r.buf.length := by
  induction as generalizing r with
  | nil => rfl
  | cons a as ih => rw [List.foldl_cons, ih, length_push]

theorem contents_get (r : ArrayRing α) (n : Nat) : (r.get n).2.contents = r.contents.drop n := by
  have hk : min n r.used ≤ (r.buf.rotate r.getPos).length := by
    rw [List.length_rotate]
    exact Nat.le_trans (Nat.min_le_right _ _) r.used_le
  have hrot : r.buf.rotate ((r.getPos + min n r.used) % r.buf.length) =
      (r.buf.rotate r.getPos).drop (min n r.used) ++ (r.buf.rotate r.getPos).take (min n r.used) := by
    rw [List.rotate_mod, ← List.rotate_rotate, List.rotate_eq_drop_append_take hk]
  have hused := r.used_le
  simp only [get, contents]
  rw [hrot, List.take_append_of_le_length (by rw [List.length_drop, List.length_rotate]; omega), ← List.drop_take]
  rcases Nat.le_total n r.used with hn | hn
  · rw [Nat.min_eq_left hn]
  · rw [Nat.min_eq_right hn, List.drop_eq_nil_of_le (List.length_take_le _ _), List.drop_eq_nil_of_le]
    exact Nat.le_trans (List.length_take_le _ _) hn

theorem claim_room (r : ArrayRing α) (n : Nat) : r.contents.length + r.claim n ≤ r.buf.length := by
  have := r.used_le
  rw [length_contents, claim]
  omega

instance [Inhabited α] : RingBuffer (ArrayRing α) α where
  init n := ⟨List.replicate n default, 0, 0, Nat.zero_le _⟩
  contents := contents
  capacity r := r.buf.length
  isEmpty r := r.used == 0
  putClaim := claim
  putFinish r as := as.foldl push r
  get := get
  contents_init _ := rfl
  capacity_init _ := List.length_replicate
  isEmpty_iff r := by rw [beq_iff_eq, ← List.length_eq_zero_iff, length_contents]
  putClaim_le _ _ := Nat.min_le_left _ _
  putClaim_room := claim_room
  putClaim_pos r n hn h := by
    rw [length_contents] at h
    have : r.putPos < r.buf.length := Nat.mod_lt _ (by omega)
    unfold claim
    omega
  contents_putFinish r n as h := by
    have := r.claim_room n
    rw [length_contents] at this
    exact r.contents_pushAll as (by omega)
  capacity_putFinish := length_pushAll
  fst_get _ _ := rfl
  contents_get := contents_get
  capacity_get _ _ := rfl

end ArrayRing
