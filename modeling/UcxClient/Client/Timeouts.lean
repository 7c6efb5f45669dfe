import UcxClient.Client.Command
import UcxClient.Port.Clock

/-!
# Command timeouts on the clock of a port

The waits for a response line and for the status of a command both end by `timedOut`, which subtracts the
reading at the start of the command from the present one. Within a period of the clock that is the time
since the start (`timedOut_iff`). On the POSIX and no-OS ports a period is a day: a timeout that runs out
behind the end of the day in which the command began is not seen (`timeout_measured_iff`).
-/

namespace AtClient

/-- At `t` the clock has counted the time since the command began at `t0`, and the command timeout has
expired. -/
structure TimeoutMeasured (clk : Clock) (c : AtClient) (t0 t : Nat) : Prop where
  elapsed : toInt32 (clk.tick t - clk.tick t0) = t - t0
  expired : (c.beginCmd (clk.tick t0)).timedOut (clk.tick t) = true

theorem timedOut_beginCmd (c : AtClient) (start now : Int) :
    (c.beginCmd start).timedOut now = decide (c.cmdTimeout < toInt32 (now - start)) := rfl

/-- Within a period the timeout expires when it should. -/
theorem timedOut_iff {clk : Clock} {t0 t : Nat} (c : AtClient) (hsame : clk.period t0 = clk.period t)
    (hle : t0 ≤ t) (hlt : (t : Int) - t0 < 2 ^ 31) :
    toInt32 (clk.tick t - clk.tick t0) = t - t0 ∧
      ((c.beginCmd (clk.tick t0)).timedOut (clk.tick t) = true ↔ c.cmdTimeout < t - t0) := by
  have hdiff : toInt32 (clk.tick t - clk.tick t0) = t - t0 := by
    rw [Clock.tick_sub hsame, toInt32_of_lt (by omega) hlt]
  exact ⟨hdiff, by rw [timedOut_beginCmd, hdiff, decide_eq_true_iff]⟩

/-- The difference of two POSIX readings less than a day apart is negative if the later one is of
another day. -/
theorem posix_tick_sub_neg (bootMs : Nat) {t0 t : Nat} (hle : t0 ≤ t) (hday : t < t0 + dayMs)
    (hne : t0 / dayMs ≠ t / dayMs) :
    toInt32 ((Clock.posix bootMs).tick t - (Clock.posix bootMs).tick t0) = (t : Int) - t0 - dayMs ∧
      (t : Int) - t0 - dayMs < 0 := by
  have hdiff : (Clock.posix bootMs).tick t - (Clock.posix bootMs).tick t0 = (t : Int) - t0 - dayMs := by
    simp only [Clock.tick_eq, Clock.lead, Clock.periodMs]
    unfold dayMs at hday hne ⊢
    omega
  have hneg : (t : Int) - t0 - dayMs < 0 := by omega
  have hge : -(2 ^ 31) ≤ (t : Int) - t0 - dayMs := by unfold dayMs; omega
  exact ⟨by rw [hdiff, toInt32_of_lt hge (by omega)], hneg⟩

/-- **A timeout is measured correctly exactly if it expires on the day on which the command began.** -/
theorem timeout_measured_iff (bootMs : Nat) {c : AtClient} {t0 t : Nat} (hpos : 0 < c.cmdTimeout)
    (hlt : c.cmdTimeout < (t : Int) - t0) (hday : (t : Int) - t0 < dayMs) :
    TimeoutMeasured (.posix bootMs) c t0 t ↔ t0 / dayMs = t / dayMs := by
  have hle : t0 ≤ t := by omega
  refine ⟨fun h => ?_, fun hsame => ?_⟩
  · apply Classical.byContradiction
    intro hne
    obtain ⟨hdiff, hneg⟩ := posix_tick_sub_neg bootMs hle (by omega) hne
    have := h.elapsed
    omega
  · have hperiod : (Clock.posix bootMs).period t0 = (Clock.posix bootMs).period t := by
      simp only [Clock.period, Clock.lead, Clock.periodMs, Int.add_zero]
      exact_mod_cast hsame
    obtain ⟨hdiff, hexp⟩ := timedOut_iff c hperiod hle (by unfold dayMs at hday; omega)
    exact ⟨hdiff, hexp.2 hlt⟩

/-- The default timeout of a command that begins at midnight. -/
theorem timeout_measured_first_day :
    TimeoutMeasured (.posix 0) (uCxAtClientInit false 64 []) 0 10001 :=
  (timeout_measured_iff 0 (by decide) (by decide) (by decide)).2 (by decide)

/-- A command that begins a second before midnight has not timed out 20 seconds later. -/
theorem timeout_missed_at_midnight : ∃ c : AtClient, 0 < c.cmdTimeout ∧ c.cmdTimeout < 20000 ∧
    ¬TimeoutMeasured (.posix 0) c (dayMs - 1000) (dayMs + 19000) := by
  refine ⟨uCxAtClientInit false 64 [], by decide, by decide, fun h => ?_⟩
  exact absurd h.expired (by decide)

end AtClient
