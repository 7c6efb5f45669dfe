import UcxClient.Lib.CInt

/-!
# The clock of the ports (`ports/os`)

`uPortGetTickTimeMs` of each port, as a function of the milliseconds that its system's clock counts. A
reading is what is left of that time when whole periods are taken off, from some offset on
(`Clock.tick_eq`): the POSIX and no-OS ports start again every day, the others after 2^32 ms.
-/

/-- `1000 * 60 * 60 * 24` -/
def dayMs : Nat := 86400000

namespace Posix

/-- `getTickTimeMs`, also that of the no-OS port. -/
def getTickTimeMs (timeMs : Nat) : Int := toInt32 ((timeMs % dayMs : Nat) : Int)

theorem getTickTimeMs_eq (timeMs : Nat) : getTickTimeMs timeMs = (timeMs % dayMs : Nat) :=
  toInt32_of_lt (by omega) (by unfold dayMs; omega)

/-- The value of `gBootTime` behind `uPortInit`. -/
def uPortInit (gBootTime : Int) (timeMs : Nat) : Int :=
  if gBootTime = 0 then getTickTimeMs timeMs else gBootTime

def uPortGetTickTimeMs (gBootTime : Int) (timeMs : Nat) : Int :=
  toInt32 (getTickTimeMs timeMs - gBootTime)

end Posix

/-- `(int32_t)k_uptime_get_32()` -/
def Zephyr.uPortGetTickTimeMs (timeMs : Nat) : Int := toInt32 ((timeMs % 2 ^ 32 : Nat) : Int)

/-- The reading when `gBootTime` has been set. -/
def Windows.uPortGetTickTimeMs (gBootTime timeMs : Nat) : Int := toInt32 ((timeMs : Int) - gBootTime)

/-- The port, and when its clock was initialised. -/
inductive Clock where
  | posix (bootMs : Nat)
  | zephyr
  | windows (bootMs : Nat)
  deriving DecidableEq

namespace Clock

/-- `U_CX_PORT_GET_TIME_MS` at a time. -/
def tick : Clock → Nat → Int
  | .posix bootMs, timeMs => Posix.uPortGetTickTimeMs (Posix.uPortInit 0 bootMs) timeMs
  | .zephyr, timeMs => Zephyr.uPortGetTickTimeMs timeMs
  | .windows bootMs, timeMs => Windows.uPortGetTickTimeMs bootMs timeMs

/-- After so many milliseconds the readings start again. -/
def periodMs : Clock → Nat
  | .posix _ => dayMs
  | .zephyr | .windows _ => 2 ^ 32

/-- The periods are counted from that long before time 0 on. -/
def lead : Clock → Int
  | .posix _ => 0
  | .zephyr => 2 ^ 31
  | .windows bootMs => 2 ^ 31 - bootMs

/-- The first reading of a period. -/
def lowest : Clock → Int
  | .posix bootMs => -((bootMs % dayMs : Nat) : Int)
  | .zephyr | .windows _ => -(2 ^ 31)

/-- The number of the period that a time lies in. -/
def period (clk : Clock) (timeMs : Nat) : Int := (timeMs + clk.lead) / clk.periodMs

/-- **A reading is the time since its period began.** -/
theorem tick_eq (clk : Clock) (timeMs : Nat) :
    clk.tick timeMs = clk.lowest + (timeMs + clk.lead) % clk.periodMs := by
  cases clk with
  | posix bootMs =>
    have hday : (timeMs % dayMs : Nat) < 86400000 := Nat.mod_lt _ (by decide)
    have hboot : (bootMs % dayMs : Nat) < 86400000 := Nat.mod_lt _ (by decide)
    simp only [tick, Posix.uPortGetTickTimeMs, Posix.uPortInit, if_pos, Posix.getTickTimeMs_eq, lowest, lead,
      periodMs]
    rw [toInt32_of_lt (by omega) (by omega), Int.add_zero]
    omega
  | zephyr =>
    simp only [tick, Zephyr.uPortGetTickTimeMs, toInt32_eq, lowest, lead, periodMs]
    omega
  | windows bootMs =>
    simp only [tick, Windows.uPortGetTickTimeMs, toInt32_eq, lowest, lead, periodMs]
    omega

/-- Within a period the difference of two readings is the time between them. -/
theorem tick_sub {clk : Clock} {t0 t : Nat} (h : clk.period t0 = clk.period t) :
    clk.tick t - clk.tick t0 = t - t0 := by
  have h0 := Int.emod_add_mul_ediv (t0 + clk.lead) clk.periodMs
  have h1 := Int.emod_add_mul_ediv (t + clk.lead) clk.periodMs
  unfold period at h
  rw [tick_eq, tick_eq]
  rw [← h] at h1
  omega

end Clock
