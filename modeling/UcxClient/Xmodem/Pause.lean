import UcxClient.Port.Clock
import UcxClient.Xmodem.Defs

/-!
# The pause between two blocks

The pause of `uCxXmodemSend` compares readings of the clock with the reading at which it is to end. Of the
readings only those up to the first one after 10 ms matter (`upToDeadline`). The pause lasts as intended
exactly if none of these and the deadline are on different sides of a point where the readings start again
(`pause_lasts_iff`).
-/

namespace Xmodem

/-- The elapsed times up to the first that is not less than 10 ms. -/
def upToDeadline : List Nat → List Nat
  | [] => []
  | e :: es => if e < 10 then e :: upToDeadline es else [e]

/-- The elapsed times behind the first that is not less than 10 ms, if there is one. -/
def behindDeadline : List Nat → Option (List Nat)
  | [] => none
  | e :: es => if e < 10 then behindDeadline es else some es

/-- A pause that starts at `t0` and looks at the clock after each of the times `es` goes on while less than
10 ms have elapsed, and ends with the first reading after that. -/
def PauseLasts (clk : Clock) (t0 : Nat) (es : List Nat) (uart : Uart) : Prop :=
  pause ⟨uart, clk.tick t0 :: es.map fun e => clk.tick (t0 + e)⟩ =
    (behindDeadline es).map fun rest => ⟨uart, rest.map fun e => clk.tick (t0 + e)⟩

/-- The clock does not start again between a reading, `e` ms after `t0`, and the deadline 10 ms after
`t0`; a reading more than a period behind the deadline counts as one as far behind the last multiple of
the period. On the POSIX port the clock must not start again between `t0` and the deadline either, if
the reading is behind it. -/
def Undisturbed (clk : Clock) (t0 e : Nat) : Prop :=
  match clk with
  | .posix _ => 10 ≤ e → clk.period t0 = clk.period (t0 + 10 + (e - 10) % clk.periodMs)
  | _ =>
    if e < 10 then clk.period (t0 + e) = clk.period (t0 + 10)
    else clk.period (t0 + 10) = clk.period (t0 + 10 + (e - 10) % clk.periodMs)

/-! ## The loop -/

theorem delayLoop_length {delayEnd : Int} {clock rest : List Int}
    (h : delayLoop delayEnd clock = some rest) : rest.length < clock.length := by
  induction clock with
  | nil => cases h
  | cons now clock ih =>
    simp only [delayLoop] at h
    split at h
    · exact Nat.lt_succ_of_lt (ih h)
    · cases h
      exact Nat.lt_succ_self _

theorem behindDeadline_length {es rest : List Nat} (h : behindDeadline es = some rest) :
    rest.length < es.length := by
  induction es with
  | nil => cases h
  | cons e es ih =>
    simp only [behindDeadline] at h
    split at h
    · exact Nat.lt_succ_of_lt (ih h)
    · cases h
      exact Nat.lt_succ_self _

/-- The loop ends where it should exactly if each comparison up to there comes out as it should. -/
theorem delayLoop_iff (reading : Nat → Int) (delayEnd : Int) (es : List Nat) :
    delayLoop delayEnd (es.map reading) = (behindDeadline es).map (·.map reading) ↔
      ∀ e ∈ upToDeadline es, (reading e < delayEnd ↔ e < 10) := by
  induction es with
  | nil => simp [delayLoop, behindDeadline, upToDeadline]
  | cons e es ih =>
    simp only [List.map_cons, delayLoop, behindDeadline, upToDeadline]
    by_cases he : e < 10 <;> by_cases hr : reading e < delayEnd
    · rw [if_pos he, if_pos he, if_pos hr, ih, List.forall_mem_cons]
      simp only [he, hr, true_and]
    · -- the loop ends too early
      rw [if_pos he, if_pos he, if_neg hr]
      refine iff_of_false (fun h => ?_) fun h => hr ((h e List.mem_cons_self).2 he)
      obtain ⟨rest, hrest, heq⟩ := Option.map_eq_some_iff.1 h.symm
      have hlen := behindDeadline_length hrest
      have := congrArg List.length heq
      simp only [List.length_map] at this
      omega
    · -- it goes on behind the deadline
      rw [if_neg he, if_neg he, if_pos hr]
      refine iff_of_false (fun h => ?_) fun h => he ((h e List.mem_cons_self).1 hr)
      have hlen := delayLoop_length h
      simp only [List.length_map] at hlen
      omega
    · simp [he, hr]

/-! ## One comparison -/

/-- A reading of a clock that starts again after 2^32 ms. -/
theorem wrapping_lt_iff (x : Int) (e : Nat) :
    (toInt32 (x + e) < toInt32 (toInt32 x + 10) ↔ e < 10) ↔
      if e < 10 then (x + e + 2 ^ 31) / 2 ^ 32 = (x + 10 + 2 ^ 31) / 2 ^ 32
      else (x + 10 + 2 ^ 31) / 2 ^ 32 = (x + 10 + ((e - 10) % 2 ^ 32 : Nat) + 2 ^ 31) / 2 ^ 32 := by
  simp only [toInt32_eq]
  split <;> omega

/-- A reading of the POSIX clock. -/
theorem posix_lt_iff (bootMs t0 e : Nat) :
    ((Clock.posix bootMs).tick (t0 + e) < toInt32 ((Clock.posix bootMs).tick t0 + 10) ↔ e < 10) ↔
      (10 ≤ e → t0 / dayMs = (t0 + 10 + (e - 10) % dayMs) / dayMs) := by
  have hdeadline : toInt32 ((Clock.posix bootMs).tick t0 + 10) = (Clock.posix bootMs).tick t0 + 10 := by
    simp only [Clock.tick_eq, Clock.lowest, Clock.lead, Clock.periodMs]
    unfold dayMs
    exact toInt32_of_lt (by omega) (by omega)
  have hlt : (Clock.posix bootMs).tick (t0 + e) < (Clock.posix bootMs).tick t0 + 10 ↔
      (t0 + e) % dayMs < t0 % dayMs + 10 := by
    simp only [Clock.tick_eq, Clock.lead, Clock.periodMs, Int.add_zero]
    omega
  rw [hdeadline, hlt]
  unfold dayMs
  omega

/-- The comparison of a reading with the deadline comes out as it should if the clock does not start
again between them. -/
theorem tick_lt_iff (clk : Clock) (t0 e : Nat) :
    (clk.tick (t0 + e) < toInt32 (clk.tick t0 + 10) ↔ e < 10) ↔ Undisturbed clk t0 e := by
  cases clk with
  | posix bootMs =>
    rw [posix_lt_iff]
    simp only [Undisturbed, Clock.period, Clock.lead, Clock.periodMs]
    norm_cast
  | zephyr =>
    have htick : ∀ t : Nat, Clock.zephyr.tick t = toInt32 t := fun t => by
      simp only [Clock.tick, Zephyr.uPortGetTickTimeMs, toInt32_eq]
      omega
    have h := wrapping_lt_iff t0 e
    simp only [Undisturbed, Clock.period, Clock.lead, Clock.periodMs, htick]
    exact_mod_cast h
  | windows bootMs =>
    have htick : ∀ n : Nat, (Clock.windows bootMs).tick (t0 + n) = toInt32 ((t0 : Int) - bootMs + n) := by
      intro n
      simp only [Clock.tick, Windows.uPortGetTickTimeMs]
      congr 1
      omega
    have hperiod : ∀ n : Nat, (Clock.windows bootMs).period (t0 + n) =
        ((t0 : Int) - bootMs + n + 2 ^ 31) / 2 ^ 32 := by
      intro n
      simp only [Clock.period, Clock.lead, Clock.periodMs]
      congr 1
      omega
    have hstart := htick 0
    simp only [Nat.add_zero, Int.natCast_zero, Int.add_zero] at hstart
    have h := wrapping_lt_iff ((t0 : Int) - bootMs) e
    simp only [Undisturbed, htick, hstart, Nat.add_assoc, hperiod]
    rw [h]
    simp only [Clock.periodMs, Int.natCast_add, Int.add_assoc]
    rfl

/-- **When the pause lasts as intended.** -/
theorem pause_lasts_iff (clk : Clock) (t0 : Nat) (es : List Nat) (uart : Uart) :
    PauseLasts clk t0 es uart ↔ ∀ e ∈ upToDeadline es, Undisturbed clk t0 e := by
  have hpause : pause ⟨uart, clk.tick t0 :: es.map fun e => clk.tick (t0 + e)⟩ =
      (delayLoop (toInt32 (clk.tick t0 + 10)) (es.map fun e => clk.tick (t0 + e))).map (⟨uart, ·⟩) := by
    simp only [pause, Port.getTimeMs, Option.bind_eq_bind, Option.bind_some]
    cases delayLoop (toInt32 (clk.tick t0 + 10)) (es.map fun e => clk.tick (t0 + e)) <;> rfl
  have hinj : Function.Injective fun clock : List Int => (⟨uart, clock⟩ : Port) := fun a b h => by
    cases h
    rfl
  have h := delayLoop_iff (fun e => clk.tick (t0 + e)) (toInt32 (clk.tick t0 + 10)) es
  simp only [tick_lt_iff] at h
  rw [← h, PauseLasts, hpause]
  constructor
  · intro heq
    apply Option.map_injective hinj
    rw [heq, Option.map_map]
    rfl
  · intro heq
    rw [heq, Option.map_map]
    rfl

/-- On a clock that starts again at 2^31 ms a pause that begins 5 ms before that ends at once; on the POSIX
clock a pause that begins at the end of a day does not end after 10 ms. -/
theorem pause_disturbed : ¬PauseLasts .zephyr (2 ^ 31 - 5) [0, 10] ⟨[], [], []⟩ ∧
    ¬PauseLasts (.posix 0) (dayMs - 1) [0, 10, 3600000] ⟨[], [], []⟩ := by
  constructor <;> (unfold PauseLasts; decide)

end Xmodem
