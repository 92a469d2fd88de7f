import Mathlib.Algebra.Group.Nat.Defs
import Ricerca.Sys.Timer

/-! The ACPI timer (`sys/timers/acpi.c`). Its counter counts up and wraps around; the machine
that the counter is read from is a state of its own. -/
namespace Ricerca.Timer

/-- The device registers that a counter can be read from. -/
structure Device where
  port : UInt16 → UInt32
  mmio : UInt64 → UInt32

/-- What `struct acpi_fadt_gas` says about the place of the counter. -/
structure AcpiFadtGas where
  addressSpace : UInt8
  address : UInt64
  deriving DecidableEq

/-- The static variables of the driver. -/
structure AcpiTimer where
  goal : UInt32
  initVal : UInt32
  gas : AcpiFadtGas
  is32bit : Bool
  deriving DecidableEq

/-- Nothing is returned where the code panics. -/
def acpiTimerReadCounter (memWbPhysWinBase : UInt64) (gas : AcpiFadtGas) (device : Device) :
    Option UInt32 :=
  if gas.addressSpace = 1 then
    if gas.address < 65536 then some (device.port gas.address.toUInt16) else none
  else if gas.addressSpace = 0 then some (device.mmio (memWbPhysWinBase + gas.address))
  else none

/-- The callback `make_goal`. It never declines. -/
def acpiTimerMakeGoal (memWbPhysWinBase : UInt64) (timer : AcpiTimer) (ms : UInt32)
    (device : Device) : Option (AcpiTimer × Bool) :=
  (acpiTimerReadCounter memWbPhysWinBase timer.gas device).map fun initVal =>
    let goal := initVal + ms * 3580
    let goal := if timer.is32bit then goal else goal &&& 0xffffff
    ({ timer with initVal := initVal, goal := goal }, true)

/-- The callback `is_goal_reached`. -/
def acpiTimerIsGoalReached (memWbPhysWinBase : UInt64) (timer : AcpiTimer) (device : Device) :
    Option Bool :=
  (acpiTimerReadCounter memWbPhysWinBase timer.gas device).map fun currentVal =>
    if timer.initVal < timer.goal then
      decide (currentVal ≥ timer.goal) || decide (currentVal < timer.initVal)
    else if timer.initVal = timer.goal then true
    else decide (currentVal ≥ timer.goal) && decide (currentVal < timer.initVal)

/-- The number of ticks after which the counter starts over. -/
def AcpiTimer.wrap (timer : AcpiTimer) : Nat :=
  if timer.is32bit then 2 ^ 32 else 2 ^ 24

section Goal

variable {base : UInt64} {timer timer' : AcpiTimer} {ms v₀ v : UInt32} {device : Device}

/-- The goal is the sum of the start and the wait on the circle of counter values. -/
theorem makeGoal_spec (hRead : acpiTimerReadCounter base timer.gas device = some v₀)
    (hMs : ms.toNat * 3580 < timer.wrap) :
    ∃ timer', acpiTimerMakeGoal base timer ms device = some (timer', true) ∧
      timer'.gas = timer.gas ∧ timer'.initVal = v₀ ∧
      timer'.goal.toNat = (v₀.toNat + ms.toNat * 3580) % timer.wrap := by
  rw [acpiTimerMakeGoal, hRead]
  refine ⟨_, rfl, rfl, rfl, ?_⟩
  have hProduct : (ms * 3580).toNat = ms.toNat * 3580 := by
    have hFits : ms.toNat * 3580 < 2 ^ 32 := by
      rw [AcpiTimer.wrap] at hMs
      split at hMs <;> omega
    rw [UInt32.toNat_mul]
    exact Nat.mod_eq_of_lt hFits
  cases h32 : timer.is32bit with
  | true => simp [AcpiTimer.wrap, h32, hProduct]
  | false =>
      have hMask := Nat.and_two_pow_sub_one_eq_mod (v₀ + ms * 3580).toNat 24
      simp only [AcpiTimer.wrap, h32, Bool.false_eq_true, if_false, UInt32.toNat_and]
      rw [show (0xffffff : UInt32).toNat = 2 ^ 24 - 1 from rfl, hMask, UInt32.toNat_add, hProduct]
      omega

/-- Reading `v` on a circle of `wrap` values, `elapsed` ticks after `v₀`. -/
theorem elapsed_eq {wrap elapsed : Nat} (hStart : v₀.toNat < wrap) (hElapsed : elapsed < wrap)
    (hRead : v.toNat = (v₀.toNat + elapsed) % wrap) :
    (v.toNat + wrap - v₀.toNat) % wrap = elapsed := by
  rcases Nat.lt_or_ge (v₀.toNat + elapsed) wrap with hBefore | hAfter
  · rw [Nat.mod_eq_of_lt hBefore] at hRead
    rw [hRead, show v₀.toNat + elapsed + wrap - v₀.toNat = elapsed + wrap by omega,
      Nat.add_mod_right, Nat.mod_eq_of_lt hElapsed]
  · rw [Nat.mod_eq_sub_mod hAfter, Nat.mod_eq_of_lt (by omega)] at hRead
    rw [hRead, show v₀.toNat + elapsed - wrap + wrap - v₀.toNat = elapsed by omega,
      Nat.mod_eq_of_lt hElapsed]

/-- The three cases of the comparison amount to one comparison on the circle. -/
theorem isGoalReached_iff {wrap wait : Nat} (hWait : wait < wrap) (hStart : v₀.toNat < wrap)
    (hNow : v.toNat < wrap) (hInit : timer'.initVal = v₀)
    (hGoal : timer'.goal.toNat = (v₀.toNat + wait) % wrap)
    (hRead : acpiTimerReadCounter base timer'.gas device = some v) :
    ∃ reached, acpiTimerIsGoalReached base timer' device = some reached ∧
      (reached = true ↔ wait ≤ (v.toNat + wrap - v₀.toNat) % wrap) := by
  rw [acpiTimerIsGoalReached, hRead]
  refine ⟨_, rfl, ?_⟩
  have hElapsed : (v.toNat + wrap - v₀.toNat) % wrap =
      if v₀.toNat ≤ v.toNat then v.toNat - v₀.toNat else v.toNat + wrap - v₀.toNat := by
    split
    · rw [show v.toNat + wrap - v₀.toNat = v.toNat - v₀.toNat + wrap by omega,
        Nat.add_mod_right, Nat.mod_eq_of_lt (by omega)]
    · exact Nat.mod_eq_of_lt (by omega)
  have hGoal' : timer'.goal.toNat =
      if v₀.toNat + wait < wrap then v₀.toNat + wait else v₀.toNat + wait - wrap := by
    rw [hGoal]
    split
    · exact Nat.mod_eq_of_lt ‹_›
    · rw [Nat.mod_eq_sub_mod (by omega), Nat.mod_eq_of_lt (by omega)]
  rw [hElapsed, hInit]
  simp only [UInt32.lt_iff_toNat_lt, ← UInt32.toNat_inj, ge_iff_le, UInt32.le_iff_toNat_le]
  split_ifs at hGoal' ⊢ <;> simp <;> omega

end Goal

/-- The wait on the ACPI timer is exact on the circle of counter values: a reading reaches the
goal if and only if the wait has elapsed, and the busy wait ends with the first poll that is
made so late. -/
theorem acpi_timer_goal_exact (base : UInt64) (timer : AcpiTimer) (ms v₀ : UInt32)
    (device : Device) (hMs : ms.toNat * 3580 < timer.wrap)
    (hStart : acpiTimerReadCounter base timer.gas device = some v₀)
    (hRange : v₀.toNat < timer.wrap) :
    ∃ timer', acpiTimerMakeGoal base timer ms device = some (timer', true) ∧
      (∀ (later : Device) (v : UInt32),
        acpiTimerReadCounter base timer.gas later = some v → v.toNat < timer.wrap →
        ∃ reached, acpiTimerIsGoalReached base timer' later = some reached ∧
          (reached = true ↔
            ms.toNat * 3580 ≤ (v.toNat + timer.wrap - v₀.toNat) % timer.wrap)) ∧
      ∀ polls : List (Device × Nat),
        (∀ poll ∈ polls, poll.2 < timer.wrap ∧
          ∃ v, acpiTimerReadCounter base timer.gas poll.1 = some v ∧
            v.toNat = (v₀.toNat + poll.2) % timer.wrap) →
        timerBusyWaitOnGoal (acpiTimerIsGoalReached base timer') 0 (polls.map Prod.fst) =
          .ofFirst (polls.findIdx? fun poll => ms.toNat * 3580 ≤ poll.2) := by
  obtain ⟨timer', hMade, hGas, hInit, hGoal⟩ := makeGoal_spec hStart hMs
  refine ⟨timer', hMade, ?_, ?_⟩
  · intro later v hLater hNow
    exact isGoalReached_iff hMs hRange hNow hInit hGoal (hGas ▸ hLater)
  · intro polls hPolls
    rw [timerBusyWaitOnGoal_eq Prod.fst (fun poll => decide (ms.toNat * 3580 ≤ poll.2)) polls]
    · simp
    · intro poll hPoll
      obtain ⟨hElapsed, v, hLater, hTicks⟩ := hPolls poll hPoll
      have hNow : v.toNat < timer.wrap := by
        rw [hTicks]
        exact Nat.mod_lt _ (by omega)
      obtain ⟨reached, hCall, hReached⟩ :=
        isGoalReached_iff hMs hRange hNow hInit hGoal (hGas ▸ hLater)
      rw [elapsed_eq hRange hElapsed hTicks] at hReached
      rw [hCall, Option.some_inj, Bool.eq_iff_iff, decide_eq_true_iff]
      exact hReached

/-- A wait of one millisecond on a 24-bit counter that is about to start over. -/
theorem acpi_timer_goal_exact_wrapping :
    (1 : UInt32).toNat * 3580 < 2 ^ 24 ∧
    ∃ timer', acpiTimerMakeGoal 0 ⟨0, 0, ⟨1, 0x608⟩, false⟩ 1 ⟨fun _ => 0xfffff0, fun _ => 0⟩ =
        some (timer', true) ∧
      (∀ (later : Device) (v : UInt32),
        acpiTimerReadCounter 0 ⟨1, 0x608⟩ later = some v → v.toNat < 2 ^ 24 →
        ∃ reached, acpiTimerIsGoalReached 0 timer' later = some reached ∧
          (reached = true ↔
            (1 : UInt32).toNat * 3580 ≤ (v.toNat + 2 ^ 24 - (0xfffff0 : UInt32).toNat) % 2 ^ 24)) ∧
      ∀ polls : List (Device × Nat),
        (∀ poll ∈ polls, poll.2 < 2 ^ 24 ∧
          ∃ v, acpiTimerReadCounter 0 ⟨1, 0x608⟩ poll.1 = some v ∧
            v.toNat = ((0xfffff0 : UInt32).toNat + poll.2) % 2 ^ 24) →
        timerBusyWaitOnGoal (acpiTimerIsGoalReached 0 timer') 0 (polls.map Prod.fst) =
          .ofFirst (polls.findIdx? fun poll => (1 : UInt32).toNat * 3580 ≤ poll.2) :=
  ⟨by decide, acpi_timer_goal_exact 0 ⟨0, 0, ⟨1, 0x608⟩, false⟩ 1 0xfffff0
    ⟨fun _ => 0xfffff0, fun _ => 0⟩ (by decide) (by decide) (by decide)⟩

end Ricerca.Timer
