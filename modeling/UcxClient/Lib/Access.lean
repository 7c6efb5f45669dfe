import UcxClient.Lib.Bytes

/-!
# Memory accesses in order

A `Logged` computation runs on a block of memory and lists what it reads and stores, in order. The block
behind it is the block before it with these stores made (`replay`), so no store is left out.

* `Guarded allowed as`: every store of `as` is allowed by the accesses before it. It is shown access by
  access (`guarded_append`).
* `Sweep lo hi f f' as`: a decoder that shares a block between its reader and its writer. It starts with the
  places from `lo` to `f` read, and leaves those up to `f'` read; it reads up to `hi`, and stores from
  `lo` on and only where it has read. Sweeps in a row are a sweep (`Sweep.append`).
* `replay_kept`: what lies behind all stores is kept.
-/

namespace ByteMem

inductive Access where
  | read (i : Nat)
  | store (i : Nat) (b : UInt8)
  deriving DecidableEq

/-- The block after an access. -/
def Access.apply (m : List UInt8) : Access → List UInt8
  | .read _ => m
  | .store i b => m.set i b

/-- The block after accesses in a row. -/
def replay (m : List UInt8) (as : List Access) : List UInt8 := as.foldl Access.apply m

@[simp] theorem replay_nil (m : List UInt8) : replay m [] = m := rfl

@[simp] theorem replay_read (m : List UInt8) (i : Nat) (as : List Access) :
    replay m (.read i :: as) = replay m as := rfl

@[simp] theorem replay_store (m : List UInt8) (i : Nat) (b : UInt8) (as : List Access) :
    replay m (.store i b :: as) = replay (m.set i b) as := rfl

@[simp] theorem replay_append (m : List UInt8) (as bs : List Access) :
    replay m (as ++ bs) = replay (replay m as) bs := List.foldl_append

/-- What lies behind all stores is kept. -/
theorem replay_kept {m : List UInt8} {as : List Access} {n : Nat} (h : ∀ i b, .store i b ∈ as → i < n) :
    (replay m as).drop n = m.drop n := by
  induction as generalizing m with
  | nil => rfl
  | cons a as ih =>
    have ih := fun m => @ih m fun i b hmem => h i b (List.mem_cons_of_mem a hmem)
    cases a with
    | read i => exact ih m
    | store i b => rw [replay_store, ih, List.drop_set_of_lt (h i b List.mem_cons_self)]

/-! ## Computations -/

/-- A computation on a block: its result and its accesses. -/
structure Logged (α : Type) where
  run : List UInt8 → α × List Access

namespace Logged

variable {α β : Type}

instance : Monad Logged where
  pure a := ⟨fun _ => (a, [])⟩
  bind x f := ⟨fun m =>
    let (a, as) := x.run m
    let (b, bs) := (f a).run (replay m as)
    (b, as ++ bs)⟩

/-- The byte at index `i`. -/
def read (i : Nat) : Logged UInt8 := ⟨fun m => (m.getD i 0, [.read i])⟩

def store (i : Nat) (b : UInt8) : Logged Unit := ⟨fun _ => ((), [.store i b])⟩

/-- The block, for what is computed from it without a record of its reads. -/
def block : Logged (List UInt8) := ⟨fun m => (m, [])⟩

/-- The `n` bytes from index `i` on are read. -/
def readRange : Nat → Nat → Logged Unit
  | _, 0 => pure ()
  | i, n + 1 => do
    let _ ← read i
    readRange (i + 1) n

/-- The bytes are stored one after the other from index `i` on. -/
def storeRange : Nat → List UInt8 → Logged Unit
  | _, [] => pure ()
  | i, b :: bs => do
    store i b
    storeRange (i + 1) bs

@[simp] theorem run_pure (a : α) (m : List UInt8) : (pure a : Logged α).run m = (a, []) := rfl

@[simp] theorem run_bind (x : Logged α) (f : α → Logged β) (m : List UInt8) :
    (x >>= f).run m =
      (((f (x.run m).1).run (replay m (x.run m).2)).1,
        (x.run m).2 ++ ((f (x.run m).1).run (replay m (x.run m).2)).2) := rfl

@[simp] theorem run_read (i : Nat) (m : List UInt8) : (read i).run m = (m.getD i 0, [.read i]) := rfl

@[simp] theorem run_store (i : Nat) (b : UInt8) (m : List UInt8) :
    (store i b).run m = ((), [.store i b]) := rfl

@[simp] theorem run_block (m : List UInt8) : block.run m = (m, []) := rfl

/-- One computation after the other. -/
theorem bind_eq {x : Logged α} {f : α → Logged β} {m : List UInt8} {a : α} {b : β} {as bs : List Access}
    (hx : x.run m = (a, as)) (hf : (f a).run (replay m as) = (b, bs)) :
    (x >>= f).run m = (b, as ++ bs) := by
  rw [run_bind, hx]
  simp only [hf]

/-- The accesses of `readRange`. -/
theorem run_readRange (i n : Nat) (m : List UInt8) :
    (readRange i n).run m = ((), (List.range' i n).map .read) := by
  induction n generalizing i with
  | zero => rfl
  | succ n ih => exact bind_eq (run_read i m) (ih (i + 1))

/-- What is read is left as it is. -/
@[simp] theorem replay_reads (m : List UInt8) (is : List Nat) : replay m (is.map .read) = m := by
  induction is with
  | nil => rfl
  | cons i is ih => exact ih

/-- The stores of `storeRange`. -/
def stores : Nat → List UInt8 → List Access
  | _, [] => []
  | i, b :: bs => .store i b :: stores (i + 1) bs

theorem run_storeRange (i : Nat) (bs : List UInt8) (m : List UInt8) :
    (storeRange i bs).run m = ((), stores i bs) := by
  induction bs generalizing i m with
  | nil => rfl
  | cons b bs ih => exact bind_eq (run_store i b m) (ih (i + 1) _)

@[simp] theorem replay_stores (m : List UInt8) (i : Nat) (bs : List UInt8) :
    replay m (stores i bs) = ByteMem.store m i bs := by
  induction bs generalizing m i with
  | nil => rfl
  | cons b bs ih => exact ih _ _

theorem stores_append (i : Nat) (bs cs : List UInt8) :
    stores i (bs ++ cs) = stores i bs ++ stores (i + bs.length) cs := by
  induction bs generalizing i with
  | nil => rfl
  | cons b bs ih => rw [List.cons_append, stores, ih, List.length_cons, Nat.add_right_comm i]; rfl

theorem mem_stores {i j : Nat} {b : UInt8} {bs : List UInt8} (h : .store j b ∈ stores i bs) :
    i ≤ j ∧ j < i + bs.length := by
  induction bs generalizing i with
  | nil => cases h
  | cons c bs ih =>
    rw [List.length_cons]
    rcases List.mem_cons.1 h with heq | h
    · cases heq
      omega
    · have := ih h
      omega

end Logged

/-! ## Stores that are allowed -/

/-- Every store is allowed by the accesses before it. -/
def Guarded (allowed : List Access → Nat → UInt8 → Prop) (as : List Access) : Prop :=
  ∀ front i b back, as = front ++ .store i b :: back → allowed front i b

section Guarded
variable {allowed allowed' : List Access → Nat → UInt8 → Prop} {as bs : List Access}

theorem Guarded.mono (h : Guarded allowed as) (hmono : ∀ front i b, allowed front i b → allowed' front i b) :
    Guarded allowed' as :=
  fun front i b back heq => hmono front i b (h front i b back heq)

theorem guarded_append : Guarded allowed (as ++ bs) ↔
    Guarded allowed as ∧ Guarded (fun front => allowed (as ++ front)) bs := by
  constructor
  · intro h
    refine ⟨fun front i b back heq => ?_, fun front i b back heq => ?_⟩
    · exact h front i b (back ++ bs) (by rw [heq, List.append_assoc, List.cons_append])
    · exact h (as ++ front) i b back (by rw [heq, List.append_assoc])
  · intro ⟨has, hbs⟩ front i b back heq
    rcases List.append_eq_append_iff.1 heq with ⟨cs, hfront, hbs'⟩ | ⟨cs, has', hback⟩
    · rw [hfront]
      exact hbs cs i b back hbs'
    · cases cs with
      | nil =>
        rw [List.append_nil] at has'
        have hfirst : allowed (as ++ []) i b := hbs [] i b back hback.symm
        rwa [List.append_nil, has'] at hfirst
      | cons c cs =>
        rw [List.cons_append, List.cons.injEq] at hback
        obtain ⟨rfl, -⟩ := hback
        exact has front i b cs has'

theorem Guarded.nil : Guarded allowed [] := by
  intro front i b back heq
  cases front <;> cases heq

theorem Guarded.read {i : Nat} (h : Guarded (fun front => allowed (.read i :: front)) as) :
    Guarded allowed (.read i :: as) := by
  intro front j b back heq
  match front, heq with
  | a :: front, heq =>
    rw [List.cons_append, List.cons.injEq] at heq
    obtain ⟨rfl, heq⟩ := heq
    exact h front j b back heq

theorem Guarded.store {i : Nat} {b : UInt8} (ha : allowed [] i b)
    (h : Guarded (fun front => allowed (.store i b :: front)) as) : Guarded allowed (.store i b :: as) := by
  intro front j c back heq
  match front, heq with
  | [], heq =>
    cases heq
    exact ha
  | a :: front, heq =>
    rw [List.cons_append, List.cons.injEq] at heq
    obtain ⟨rfl, heq⟩ := heq
    exact h front j c back heq

end Guarded

/-! ## Writing behind reading -/

/-- The store is at a place from `lo` on that has been read: before these accesses if it is below `f`, or by
one of them. -/
def Behind (lo f : Nat) (front : List Access) (i : Nat) (_ : UInt8) : Prop :=
  lo ≤ i ∧ (i < f ∨ .read i ∈ front)

structure Sweep (lo hi f f' : Nat) (as : List Access) : Prop where
  behind : Guarded (Behind lo f) as
  reads : ∀ i, f ≤ i → i < f' → .read i ∈ as
  inside : ∀ i, .read i ∈ as → i ≤ hi

namespace Sweep

variable {lo hi f f' f'' i : Nat} {as bs : List Access}

theorem nil : Sweep lo hi f f [] :=
  ⟨.nil, fun _ h h' => absurd (Nat.lt_of_le_of_lt h h') (Nat.lt_irrefl f), nofun⟩

theorem append (ha : Sweep lo hi f f' as) (hb : Sweep lo hi f' f'' bs) : Sweep lo hi f f'' (as ++ bs) := by
  refine ⟨guarded_append.2 ⟨ha.behind, hb.behind.mono fun front i b ⟨hlo, hread⟩ => ⟨hlo, ?_⟩⟩, ?_, ?_⟩
  · rcases hread with hlt | hread
    · by_cases hf : i < f
      · exact .inl hf
      · exact .inr (List.mem_append_left _ (ha.reads i (by omega) hlt))
    · exact .inr (List.mem_append_right _ hread)
  · intro i h h'
    by_cases hf : i < f'
    · exact List.mem_append_left _ (ha.reads i h hf)
    · exact List.mem_append_right _ (hb.reads i (by omega) h')
  · intro i h
    exact (List.mem_append.1 h).elim (ha.inside i) (hb.inside i)

/-- The next place is read. -/
theorem next (h : f ≤ hi) (ht : Sweep lo hi (f + 1) f' as) : Sweep lo hi f f' (.read f :: as) := by
  refine @append lo hi f (f + 1) f' [.read f] as ⟨.read .nil, fun i h h' => ?_, fun i h => ?_⟩ ht
  · obtain rfl : i = f := by omega
    exact List.mem_singleton_self _
  · cases List.mem_singleton.1 h
    assumption

/-- Any place is read. -/
theorem again (h : i ≤ hi) (ht : Sweep lo hi f f' as) : Sweep lo hi f f' (.read i :: as) := by
  refine @append lo hi f f f' [.read i] as ⟨.read .nil, fun j h h' => ?_, fun j h => ?_⟩ ht
  · omega
  · cases List.mem_singleton.1 h
    assumption

theorem store {b : UInt8} (hlo : lo ≤ i) (hf : i < f) (ht : Sweep lo hi f f' as) :
    Sweep lo hi f f' (.store i b :: as) := by
  refine @append lo hi f f f' [.store i b] as ⟨.store ⟨hlo, .inl hf⟩ .nil, fun j h h' => ?_, nofun⟩ ht
  omega

/-- The next places are read. -/
theorem range {n : Nat} (h : f + n ≤ hi + 1) : Sweep lo hi f (f + n) ((List.range' f n).map .read) := by
  induction n generalizing f with
  | zero => exact nil
  | succ n ih =>
    rw [List.range'_succ, List.map_cons, Nat.add_comm n, ← Nat.add_assoc]
    exact next (by omega) (ih (by omega))

theorem stores {bs : List UInt8} (hlo : lo ≤ i) (hf : i + bs.length ≤ f) :
    Sweep lo hi f f (Logged.stores i bs) := by
  induction bs generalizing i with
  | nil => exact nil
  | cons b bs ih =>
    rw [List.length_cons] at hf
    exact store hlo (by omega) (ih (by omega) (by omega))

/-- A decoder that has read nothing in advance stores at places that it has read. -/
theorem guarded (h : Sweep lo hi lo f as) :
    Guarded (fun front i _ => lo ≤ i ∧ i ≤ hi ∧ .read i ∈ front) as := by
  intro front i b back heq
  obtain ⟨hlo, hread⟩ := h.behind front i b back heq
  have hmem := hread.resolve_left (Nat.not_lt.2 hlo)
  exact ⟨hlo, h.inside i (heq ▸ List.mem_append_left _ hmem), hmem⟩

end Sweep

end ByteMem
