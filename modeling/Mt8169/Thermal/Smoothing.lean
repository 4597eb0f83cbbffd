import Mathlib.Tactic.Ring
import Mathlib.Tactic.Linarith

/-!
# Smoothing of sensor readings

`virtual_sensor_thermal_get_temp` keeps a weighted mean of the readings of a sensor, in thousandths
and rounded towards zero. The mean stays among the values it is made of, and closes in on a constant
reading up to the rounding.
-/

namespace Mt8169.Thermal

open List Function Int

/-- `DMF` -/
def dmf : ℤ := 1000

/-- The new value of `off_temp`, from a reading `c` and the old value `x`. -/
def smooth (alpha c x : ℤ) : ℤ := (alpha * c + (dmf - alpha) * x).tdiv dmf

/-- `struct thermal_dev`, with its parameters. -/
structure ThermalDev where
  alpha : ℤ
  offset : ℤ
  weight : ℤ
  offTemp : ℤ
  firstDataGet : Bool

/-- The value that a sensor starts with. -/
def ThermalDev.first (fod : Bool) (tdev : ThermalDev) (temp : ℤ) : ℤ :=
  if fod ∧ tdev.weight ≠ 0 then 0 else temp - tdev.offset

/-- The body of the loop of `virtual_sensor_thermal_get_temp`, on the sensor. In the zone of the
foreign object detection, where `fod` is set, the reading of a sensor with a weight is the rate at
which its temperature raises. -/
def ThermalDev.sense (fod : Bool) (tdev : ThermalDev) (temp : ℤ) : ThermalDev :=
  { tdev with
    offTemp := if tdev.firstDataGet then smooth tdev.alpha (temp - tdev.offset) tdev.offTemp
      else tdev.first fod temp
    firstDataGet := true }

variable {fod : Bool} {tdev : ThermalDev} {alpha c x lo hi : ℤ}

section Smooth

variable (hpos : 1 ≤ alpha) (hle : alpha ≤ dmf)
include hpos hle

/-- A smoothed value stays between two bounds. -/
theorem smooth_between (hc : lo ≤ c ∧ c ≤ hi) (hx : lo ≤ x ∧ x ≤ hi) :
    lo ≤ smooth alpha c x ∧ smooth alpha c x ≤ hi := by
  have hlo : lo * dmf ≤ alpha * c + (dmf - alpha) * x := by nlinarith
  have hhi : alpha * c + (dmf - alpha) * x ≤ hi * dmf := by nlinarith
  have hmono := Int.tdiv_le_tdiv (by decide : 0 < dmf) hlo
  have hmono' := Int.tdiv_le_tdiv (by decide : 0 < dmf) hhi
  rw [Int.mul_tdiv_cancel _ (by decide)] at hmono hmono'
  exact ⟨hmono, hmono'⟩

variable (hc : 0 ≤ c) (hx : 0 ≤ x)
include hc hx

theorem smooth_nonneg : 0 ≤ smooth alpha c x :=
  (smooth_between hpos hle ⟨hc, le_max_left c x⟩ ⟨hx, le_max_right c x⟩).1

/-- The distance to the reading does not grow, and goes down if it is more than what the rounding
takes. -/
theorem smooth_closer : (smooth alpha c x - c).natAbs ≤ (x - c).natAbs ∧
    (999 / alpha < (x - c).natAbs → (smooth alpha c x - c).natAbs < (x - c).natAbs) := by
  have hmean : smooth alpha c x = (dmf * x - alpha * (x - c)) / dmf := by
    have hnonneg : 0 ≤ alpha * c + (dmf - alpha) * x :=
      Int.add_nonneg (Int.mul_nonneg (by omega) hc) (Int.mul_nonneg (by omega) hx)
    rw [smooth, Int.tdiv_eq_ediv_of_nonneg hnonneg]
    ring_nf
  have hgap : (x - c).natAbs * alpha = (alpha * (x - c)).natAbs := by
    rw [Int.natAbs_mul, Nat.cast_mul, Int.natAbs_of_nonneg (by omega : 0 ≤ alpha), Int.mul_comm]
  have hmul : (alpha * (x - c)).natAbs ≤ 1000 * (x - c).natAbs := by
    rw [natAbs_mul]
    exact Nat.mul_le_mul_right _ (by simp only [dmf] at hle; omega)
  have hsign : 0 ≤ x - c ∧ 0 ≤ alpha * (x - c) ∨ x - c ≤ 0 ∧ alpha * (x - c) ≤ 0 := by
    rcases le_total 0 (x - c) with h | h
    · exact Or.inl ⟨h, mul_nonneg (by omega) h⟩
    · exact Or.inr ⟨h, mul_nonpos_of_nonneg_of_nonpos (by omega) h⟩
  rw [Int.ediv_lt_iff_lt_mul (by omega), hgap, hmean]
  generalize alpha * (x - c) = p at hmul hsign ⊢
  simp only [dmf]
  omega

theorem iterate_smooth_nonneg (n : ℕ) : 0 ≤ (smooth alpha c)^[n] x := by
  induction n with
  | zero => exact hx
  | succ n ih =>
    rw [iterate_succ_apply']
    exact smooth_nonneg hpos hle hc ih

/-- Under a constant reading, each round comes nearer, up to the rounding. -/
theorem iterate_smooth_close (n : ℕ) :
    ((smooth alpha c)^[n] x - c).natAbs ≤ 999 / alpha ∨
      ((smooth alpha c)^[n] x - c).natAbs + n ≤ (x - c).natAbs := by
  induction n with
  | zero => exact Or.inr (Nat.le_refl _)
  | succ n ih =>
    rw [iterate_succ_apply']
    obtain ⟨hmono, hless⟩ :=
      smooth_closer hpos hle hc (iterate_smooth_nonneg hpos hle hc hx n)
    omega

end Smooth

namespace ThermalDev

/-- Readings between two bounds keep the value between them. -/
theorem foldl_between (hpos : 1 ≤ tdev.alpha) (hle : tdev.alpha ≤ dmf)
    (hget : tdev.firstDataGet = true) {temps : List ℤ}
    (htemps : ∀ temp ∈ temps, lo ≤ temp - tdev.offset ∧ temp - tdev.offset ≤ hi)
    (hoff : lo ≤ tdev.offTemp ∧ tdev.offTemp ≤ hi) :
    lo ≤ (temps.foldl (sense fod) tdev).offTemp ∧
      (temps.foldl (sense fod) tdev).offTemp ≤ hi := by
  induction temps generalizing tdev with
  | nil => exact hoff
  | cons temp temps ih =>
    obtain ⟨htemp, hrest⟩ := forall_mem_cons.mp htemps
    refine ih hpos hle rfl hrest ?_
    simp only [sense, hget, if_true]
    exact smooth_between hpos hle htemp hoff

theorem iterate_sense (hget : tdev.firstDataGet = true) (n : ℕ) :
    (fun t => sense fod t (c + tdev.offset))^[n] tdev =
      { tdev with offTemp := (smooth tdev.alpha c)^[n] tdev.offTemp } := by
  induction n with
  | zero => rfl
  | succ n ih =>
    rw [iterate_succ_apply', ih, iterate_succ_apply']
    simp [sense, hget]

/-- `off_temp` lies among its first value and the later readings, and the distance to a constant
reading does not grow and falls to what the rounding takes. -/
theorem offTemp_smoothed (fod : Bool) {tdev : ThermalDev} (hpos : 1 ≤ tdev.alpha)
    (hle : tdev.alpha ≤ dmf) :
    (tdev.firstDataGet = false → ∀ temp temps lo hi,
      (∀ v ∈ tdev.first fod temp :: temps.map (· - tdev.offset), lo ≤ v ∧ v ≤ hi) →
      lo ≤ ((temp :: temps).foldl (sense fod) tdev).offTemp ∧
        ((temp :: temps).foldl (sense fod) tdev).offTemp ≤ hi) ∧
    (tdev.firstDataGet = true → 0 ≤ tdev.offTemp → ∀ c ≥ 0, ∀ dist : ℕ → ℕ,
      (∀ n, dist n = (((fun t => sense fod t (c + tdev.offset))^[n] tdev).offTemp - c).natAbs) →
      (∀ n, dist (n + 1) ≤ dist n) ∧ ∃ N, ∀ n ≥ N, dist n ≤ 999 / tdev.alpha) := by
  refine ⟨fun hget temp temps lo hi hvals => ?_, fun hget hoff c hc dist hdist => ?_⟩
  · obtain ⟨hfirst, hrest⟩ := forall_mem_cons.mp hvals
    have hsense : lo ≤ (tdev.sense fod temp).offTemp ∧ (tdev.sense fod temp).offTemp ≤ hi := by
      simpa [sense, hget] using hfirst
    rw [foldl_cons]
    refine foldl_between ?_ ?_ rfl (fun t ht => hrest _ (mem_map_of_mem ht)) hsense
    · exact hpos
    · exact hle
  · simp only [iterate_sense hget] at hdist
    refine ⟨fun n => ?_, (tdev.offTemp - c).natAbs + 1, fun n hn => ?_⟩
    · rw [hdist, hdist, iterate_succ_apply']
      exact (smooth_closer hpos hle hc (iterate_smooth_nonneg hpos hle hc hoff n)).1
    · rw [hdist]
      have := iterate_smooth_close hpos hle hc hoff n
      omega

/-- A sensor that has had no reading. -/
def fresh (weight : ℤ) : ThermalDev := ⟨500, 0, weight, 0, false⟩

/-- The readings 600 and 700. -/
theorem offTemp_smoothed_fresh : 1 ≤ (fresh 0).alpha ∧ (fresh 0).alpha ≤ dmf ∧
    600 ≤ ([600, 700].foldl (sense false) (fresh 0)).offTemp ∧
      ([600, 700].foldl (sense false) (fresh 0)).offTemp ≤ 700 :=
  ⟨by decide, by decide, (offTemp_smoothed false (by decide) (by decide)).1 rfl 600 [700] 600 700
    (by decide)⟩

/-- In the zone of the foreign object detection the first value is 0, whatever the reading is. -/
theorem not_offTemp_between : 1 ≤ (fresh 1).alpha ∧ (fresh 1).alpha ≤ dmf ∧
    (fresh 1).firstDataGet = false ∧ (∀ temp ∈ [600], 600 ≤ temp - (fresh 1).offset) ∧
      ¬600 ≤ ([600].foldl (sense true) (fresh 1)).offTemp := by
  decide

end ThermalDev

end Mt8169.Thermal
