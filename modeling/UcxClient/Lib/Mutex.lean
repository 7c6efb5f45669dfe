/-!
# Mutexes

A mutex has an owner and a count of how often the owner holds it. An ordinary mutex can be locked
when nobody holds it; a reentrant one also by its owner, and its unlock by another thread has no
effect. `Mutex.lock` on a mutex that is not available cannot complete: the thread waits, for ever if
it is the owner itself. It is modelled as setting `blocked`, so that a step that would have to wait
is recognised.

`Accounts m h` says that `h u` is the number of times thread `u` holds the mutex. It is kept by
`lock` and `unlock` with the matching change of `h` and gives mutual exclusion
(`Accounts.exclusive`).
-/

/-- A mutex. -/
structure Mutex where
  reentrant : Bool
  owner : Option Nat
  count : Nat
  /-- a lock was requested that could not be granted -/
  blocked : Bool
  deriving DecidableEq, Repr

namespace Mutex

/-- A mutex nobody holds. -/
def create (reentrant : Bool) : Mutex := ⟨reentrant, none, 0, false⟩

/-- Thread `t` can take the mutex without waiting. -/
def available (m : Mutex) (t : Nat) : Bool :=
  m.owner.isNone || (m.reentrant && m.owner == some t)

def lock (m : Mutex) (t : Nat) : Mutex :=
  if m.available t then { m with owner := some t, count := m.count + 1 }
  else { m with blocked := true }

def unlock (m : Mutex) (t : Nat) : Mutex :=
  if m.reentrant && m.owner != some t then m
  else if m.count ≤ 1 then { m with owner := none, count := 0 }
  else { m with count := m.count - 1 }

@[simp] theorem reentrant_lock (m : Mutex) (t : Nat) : (m.lock t).reentrant = m.reentrant := by
  unfold lock; split <;> rfl

@[simp] theorem reentrant_unlock (m : Mutex) (t : Nat) : (m.unlock t).reentrant = m.reentrant := by
  unfold unlock; repeat' split
  all_goals rfl

@[simp] theorem blocked_unlock (m : Mutex) (t : Nat) : (m.unlock t).blocked = m.blocked := by
  unfold unlock; repeat' split
  all_goals rfl

theorem lock_of_free {m : Mutex} (t : Nat) (h : m.owner = none) :
    m.lock t = { m with owner := some t, count := m.count + 1 } := by
  simp [lock, available, h]

/-- A lock that does not block is granted. -/
theorem owner_lock {m : Mutex} {t : Nat} (h : (m.lock t).blocked = false) :
    (m.lock t).owner = some t := by
  unfold lock at h ⊢
  split
  · rfl
  · next hav =>
    rw [if_neg hav] at h
    cases h

/-- The owner gives up a mutex that it holds once. -/
theorem unlock_of_owner {m : Mutex} {t : Nat} (ho : m.owner = some t) (hc : m.count ≤ 1) :
    m.unlock t = { m with owner := none, count := 0 } := by
  simp [unlock, ho, hc]

/-- Locking and unlocking a mutex nobody holds changes nothing. -/
theorem unlock_lock_of_free {m : Mutex} (t : Nat) (h : m.owner = none) (hc : m.count = 0) :
    (m.lock t).unlock t = m := by
  rw [lock_of_free t h]
  obtain ⟨r, o, c, b⟩ := m
  cases h
  cases hc
  simp [unlock]

/-- Nobody holds the mutex. -/
structure Free (m : Mutex) : Prop where
  owner : m.owner = none
  count : m.count = 0

theorem Free.available {m : Mutex} (h : Free m) (t : Nat) : m.available t = true := by
  simp [Mutex.available, h.owner]

theorem Free.unlock_lock {m : Mutex} (h : Free m) (t : Nat) : (m.lock t).unlock t = m :=
  unlock_lock_of_free t h.owner h.count

/-! ## Ordinary mutexes -/

/-- A mutex that its owner cannot lock again, in a consistent state. -/
structure Ordinary (m : Mutex) : Prop where
  plain : m.reentrant = false
  free : m.owner = none → m.count = 0
  single : m.count ≤ 1

theorem ordinary_create : Ordinary (create false) := ⟨rfl, fun _ => rfl, Nat.zero_le 1⟩

/-- A lock that does not block finds the mutex free. -/
theorem Ordinary.lock {m : Mutex} (h : Ordinary m) {t : Nat} (hb : (m.lock t).blocked = false) :
    m.owner = none ∧ (m.lock t).owner = some t ∧ Ordinary (m.lock t) := by
  by_cases hav : m.available t = true
  · have ho : m.owner = none := by simpa [available, h.plain] using hav
    rw [lock_of_free t ho]
    exact ⟨ho, rfl, h.plain, nofun, by simp [h.free ho]⟩
  · simp [Mutex.lock, hav] at hb

theorem Ordinary.unlock {m : Mutex} (h : Ordinary m) (t : Nat) :
    (m.unlock t).owner = none ∧ Ordinary (m.unlock t) := by
  have hu : m.unlock t = { m with owner := none, count := 0 } := by
    simp [Mutex.unlock, h.plain, h.single]
  rw [hu]
  exact ⟨rfl, h.plain, fun _ => rfl, Nat.zero_le 1⟩

/-- Two mutexes that the same thread holds, at most once. -/
structure HeldAlike (m m' : Mutex) : Prop where
  owner : m.owner = m'.owner
  count : m.count = m'.count
  free : m.owner = none → m.count = 0
  single : m.count ≤ 1

theorem HeldAlike.lock {m m' : Mutex} (h : HeldAlike m m') (t : Nat) (ho : m.owner = none) :
    HeldAlike (m.lock t) (m'.lock t) := by
  have hc := h.free ho
  rw [lock_of_free t ho, lock_of_free t (h.owner ▸ ho)]
  exact ⟨rfl, by simp [h.count], nofun, by simp [hc]⟩

theorem HeldAlike.unlock {m m' : Mutex} (h : HeldAlike m m') {t : Nat} (ho : m.owner = some t) :
    HeldAlike (m.unlock t) (m'.unlock t) := by
  rw [unlock_of_owner ho h.single, unlock_of_owner (h.owner ▸ ho) (h.count ▸ h.single)]
  exact ⟨rfl, rfl, fun _ => rfl, Nat.zero_le 1⟩

/-! ## Accounting -/

/-- `h u` is the number of times thread `u` holds the mutex. -/
structure Accounts (m : Mutex) (h : Nat → Nat) : Prop where
  holds : ∀ u, h u = if m.owner = some u then m.count else 0
  free : m.owner = none ↔ m.count = 0
  single : m.reentrant = false → m.count ≤ 1

theorem Accounts.create (reentrant : Bool) : Accounts (create reentrant) fun _ => 0 :=
  ⟨fun u => by simp [Mutex.create], by simp [Mutex.create], fun _ => Nat.zero_le 1⟩

theorem Accounts.owner {m : Mutex} {h : Nat → Nat} (hm : Accounts m h) {t : Nat} (ht : 0 < h t) :
    m.owner = some t := by
  have := hm.holds t
  by_cases ho : m.owner = some t
  · exact ho
  · rw [if_neg ho] at this; omega

/-- **Mutual exclusion.** -/
theorem Accounts.exclusive {m : Mutex} {h : Nat → Nat} (hm : Accounts m h) {t u : Nat}
    (ht : 0 < h t) (hu : 0 < h u) : t = u := by
  have h1 := hm.owner ht
  have h2 := hm.owner hu
  rw [h1] at h2
  exact Option.some.inj h2

/-- A mutex another thread holds is not available. -/
theorem Accounts.available_eq {m : Mutex} {h : Nat → Nat} (hm : Accounts m h) {t u : Nat}
    (ht : m.available t = true) (hu : 0 < h u) : t = u ∧ m.reentrant = true := by
  rw [available, hm.owner hu] at ht
  simp only [Option.isNone_some, Bool.false_or, Bool.and_eq_true, beq_iff_eq,
    Option.some.injEq] at ht
  exact ⟨ht.2.symm, ht.1⟩

theorem Accounts.lock {m : Mutex} {h h' : Nat → Nat} {t : Nat} (hm : Accounts m h)
    (ha : m.available t = true) (ht : h' t = h t + 1) (hu : ∀ u, u ≠ t → h' u = h u) :
    Accounts (m.lock t) h' := by
  have hl : m.lock t = { m with owner := some t, count := m.count + 1 } := by simp [Mutex.lock, ha]
  rw [hl]
  have hcase : m.owner = none ∨ (m.reentrant = true ∧ m.owner = some t) := by
    simpa [available] using ha
  refine ⟨fun u => ?_, by simp, fun hr => ?_⟩
  · by_cases hut : u = t
    · subst hut
      rw [ht, hm.holds u]
      rcases hcase with ho | ⟨-, ho⟩
      · simp [ho, hm.free.1 ho]
      · simp [ho]
    · rw [hu u hut, hm.holds u]
      have h1 : ¬ some t = some u := fun he => hut (Option.some.inj he).symm
      rcases hcase with ho | ⟨-, ho⟩ <;> simp [ho, h1]
  · rcases hcase with ho | ⟨hr', -⟩
    · simp [hm.free.1 ho]
    · simp [hr'] at hr

theorem Accounts.unlock {m : Mutex} {h h' : Nat → Nat} {t : Nat} (hm : Accounts m h)
    (hpos : h t = h' t + 1) (hu : ∀ u, u ≠ t → h' u = h u) : Accounts (m.unlock t) h' := by
  have ho : m.owner = some t := hm.owner (by omega)
  have hc : m.count = h' t + 1 := by rw [← hpos, hm.holds t, if_pos ho]
  have hne : ∀ u, u ≠ t → h' u = 0 := fun u hut => by
    rw [hu u hut, hm.holds u, ho, if_neg fun he => hut (Option.some.inj he).symm]
  unfold Mutex.unlock
  rw [if_neg (by simp [ho])]
  split
  · refine ⟨fun u => ?_, by simp, fun _ => Nat.zero_le 1⟩
    by_cases hut : u = t
    · subst hut; simp; omega
    · simp [hne u hut]
  · refine ⟨fun u => ?_, by simp [ho]; omega, fun hr => ?_⟩
    · by_cases hut : u = t
      · subst hut; simp [ho, hc]
      · have h1 : ¬ some t = some u := fun he => hut (Option.some.inj he).symm
        simp [hne u hut, ho, h1]
    · have := hm.single hr
      simp only
      omega

end Mutex
