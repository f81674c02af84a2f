import Mathlib.Algebra.Group.Int.Defs
import Mathlib.Algebra.Group.Nat.Defs
import Mathlib.Tactic.Common

/-!
# Configuration constants, counts and time points

The constants of `config.hpp`, the clamped counts of `options.hpp` and the time
points every timed operation works with. A time point is the signed 64-bit
nanosecond count behind `Time_point`; sums and differences of time points wrap
around (`wrap64`).
-/

namespace Ums

/-- `CFG_max_supported_cpus`, which is also `CFG_max_schedulers_count`. -/
def maxSupportedCpus : Nat := 64

/-- `CFG_min_schedulers_count`. -/
def minSchedulersCount : Nat := 1

/-- `CFG_min_workers_per_scheduler`. -/
def minWorkersPerScheduler : Nat := 1

/-- `CFG_max_workers_per_scheduler`. -/
def maxWorkersPerScheduler : Nat := 256

/--
How many schedulers run and how many workers each of them has. The two counts
are arbitrary but positive: `Options` never lets either fall below one.
-/
structure Config where
  /-- The number of schedulers created. -/
  schedulers : Nat
  /-- The number of workers of each scheduler. -/
  workers : Nat
  /-- At least one scheduler is created. -/
  schedulers_pos : 0 < schedulers
  /-- Each scheduler has at least one worker. -/
  workers_pos : 0 < workers

/-- The schedulers of a configuration, in the order of `m_schedulers`. -/
abbrev SchedId (c : Config) := Fin c.schedulers

/-- The workers of one scheduler, numbered as its constructor creates them. -/
abbrev WorkerId (c : Config) := Fin c.workers

/-- `Options::Option`: the requested value clamped to its range. -/
def Options.option (value lo hi : Nat) : Nat := max lo (min value hi)

theorem Options.option_mem {value lo hi : Nat} (h : lo ≤ hi) :
    lo ≤ Options.option value lo hi ∧ Options.option value lo hi ≤ hi := by
  unfold Options.option
  omega

/-- The configuration `Options` describes, whatever the caller asked for. -/
def Options.config (schedulersCount workersPerScheduler : Nat) : Config where
  schedulers := Options.option schedulersCount minSchedulersCount maxSupportedCpus
  workers := Options.option workersPerScheduler minWorkersPerScheduler maxWorkersPerScheduler
  schedulers_pos := (Options.option_mem (by decide)).1
  workers_pos := (Options.option_mem (by decide)).1

/-! ## Time points -/

/-- A `Time_point`: nanoseconds, signed. -/
abbrev Time := Int

/-- `Time_point::max()`. -/
def Time.max : Int := 2 ^ 63 - 1

/-- `Time_point::min()`. -/
def Time.min : Int := -2 ^ 63

/-- Two's complement wrap-around of a 64-bit result. -/
def wrap64 (x : Int) : Int := x.bmod (2 ^ 64)

/-- The narrowing of a result to a signed 32-bit integer. -/
def wrap32 (x : Int) : Int := x.bmod (2 ^ 32)

/-- Nothing wraps inside the range of a time point. -/
theorem wrap64_of_mem {x : Int} (h₁ : Time.min ≤ x) (h₂ : x ≤ Time.max) : wrap64 x = x := by
  unfold wrap64 Time.min Time.max at *
  apply Int.bmod_eq_of_le <;> omega

/-- `CFG_idle_sleep_threshold`, 20 ms. -/
def idleSleepThreshold : Int := 20000000

/-- `CFG_idle_spin_threshold`, 100 us. -/
def idleSpinThreshold : Int := 100000

end Ums
