import Mathlib

/-!
Quiet hours of a push device, and the time to which a digest that falls into them is put off.
Instants are nanoseconds, and a time zone is its offset in seconds; it is missing when the
name of the zone does not load.
-/
namespace LabTether.QuietHours

structure PushDevice where
  (quietHoursStartMinutes quietHoursEndMinutes : ℤ)
  location : Option ℤ

def second : ℤ := 1000000000

def minute : ℤ := 60 * second

def day : ℤ := 1440 * minute

def pushDigestDeferredInterval : ℤ := 5 * minute

/-- The minute of the day that a local clock shows. -/
def minuteOfDay (clock : ℤ) : ℤ := clock / minute % 1440

variable (device : PushDevice) (now : ℤ)

def pushDeviceIsInQuietHours : Bool :=
  match device.location with
  | none => false
  | some offset =>
    let currentMinutes := minuteOfDay (now + offset * second)
    let start := device.quietHoursStartMinutes
    let stop := device.quietHoursEndMinutes
    if start < 0 ∨ start > 1439 ∨ stop < 0 ∨ stop > 1439 ∨ start = stop then false
    else if start < stop then decide (currentMinutes ≥ start ∧ currentMinutes < stop)
    else decide (currentMinutes ≥ start ∨ currentMinutes < stop)

def nextPushQuietHoursEnd : ℤ :=
  match device.location with
  | none => now + pushDigestDeferredInterval
  | some offset =>
    let clock := now + offset * second
    let start := device.quietHoursStartMinutes
    let stop := clock - clock % day + device.quietHoursEndMinutes * minute
    let stop :=
      if start > device.quietHoursEndMinutes ∧ minuteOfDay clock ≥ start then stop + day
      else if ¬ stop > clock then stop + day
      else stop
    stop + minute - offset * second

/-- The deferral is later, by at most a day and a minute, and outside the quiet hours. -/
def LandsOutside : Prop :=
  now < nextPushQuietHoursEnd device now ∧
    nextPushQuietHoursEnd device now ≤ now + day + minute ∧
    pushDeviceIsInQuietHours device (nextPushQuietHoursEnd device now) = false
  deriving Decidable

/-- A deferral lands outside the quiet hours unless they leave a single minute of the day: it
lands one minute after their end, where they have begun again. -/
theorem landsOutside_iff (h : pushDeviceIsInQuietHours device now = true) :
    LandsOutside device now ↔
      (device.quietHoursEndMinutes + 1) % 1440 ≠ device.quietHoursStartMinutes := by
  obtain ⟨start, stop, location⟩ := device
  rcases location with _ | offset
  · cases h
  simp only [pushDeviceIsInQuietHours] at h
  -- the deferral lands a minute after the end of the quiet hours, today or tomorrow
  have hland : ∃ landing, nextPushQuietHoursEnd ⟨start, stop, some offset⟩ now = landing ∧
      now < landing ∧ landing ≤ now + day + minute ∧
      minuteOfDay (landing + offset * second) = (stop + 1) % 1440 := by
    refine ⟨_, rfl, ?_⟩
    simp only [nextPushQuietHoursEnd, minuteOfDay, day, minute, second] at h ⊢
    split_ifs at h
    all_goals split_ifs <;> omega
  obtain ⟨landing, heq, hlater, hsoon, hminute⟩ := hland
  unfold LandsOutside
  simp only [heq, hlater, hsoon, true_and, pushDeviceIsInQuietHours, hminute]
  split_ifs at h ⊢
  all_goals
    simp only [decide_eq_true_eq, decide_eq_false_iff_not] at h ⊢
    omega

theorem landsOutside_evening : LandsOutside ⟨1320, 420, some 3600⟩ (82800 * second) :=
  (landsOutside_iff ⟨1320, 420, some 3600⟩ _ (by decide)).2 (by decide)

theorem quiet_day_lands_inside : pushDeviceIsInQuietHours ⟨0, 1439, some 0⟩ 0 = true ∧
    ¬ LandsOutside ⟨0, 1439, some 0⟩ 0 := by
  decide +kernel

end LabTether.QuietHours
