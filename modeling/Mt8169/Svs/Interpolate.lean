import Mt8169.Svs.Bank
import Mathlib.Logic.Function.Basic
import Mathlib.Tactic.IntervalCases

/-!
# The voltages between the readings

A bank reads the voltages of every second operating point and interpolates the others, with
unsigned words. Where the voltage rises from one reading to the next the slope is a huge number. The
last entry is extrapolated with a truncated slope, so it may be above the entry before it.
-/

namespace Mt8169.Svs

open Function

/-- `interpolate` -/
def interpolate (f0 f1 v0 v1 fx : BitVec 32) : BitVec 32 :=
  if v0 = v1 ∨ f0 = f1 then v0
  else
    let vx := v0 * 100 - (v0 - v1) * 100 / (f0 - f1) * (f0 - fx)
    (vx + 99) / 100

/-- A table of frequency percentages. -/
structure PctTable where
  pct : ℕ → BitVec 32
  lt : ∀ i < 16, (pct i).toNat < 256
  anti : ∀ i < 15, pct (i + 1) ≤ pct i

/-- The entries that are read from the registers. -/
def readVops (vop74 vop30 : BitVec 32) (volts : ℕ → BitVec 32) : ℕ → BitVec 32
  | 14 => vop74 >>> 24 &&& 0xff
  | 12 => vop74 >>> 16 &&& 0xff
  | 10 => vop74 >>> 8 &&& 0xff
  | 8 => vop74 &&& 0xff
  | 6 => vop30 >>> 24 &&& 0xff
  | 4 => vop30 >>> 16 &&& 0xff
  | 2 => vop30 >>> 8 &&& 0xff
  | 0 => vop30 &&& 0xff
  | i => volts i

/-- The entries between and after the readings. -/
def interpolateVops (f : PctTable) (volts : ℕ → BitVec 32) : ℕ → BitVec 32 :=
  let volts := [0, 2, 4, 6, 8, 10, 12].foldl (fun volts i => update volts (i + 1)
    (interpolate (f.pct i) (f.pct (i + 2)) (volts i) (volts (i + 2)) (f.pct (i + 1)))) volts
  update volts 15 (interpolate (f.pct 12) (f.pct 14) (volts 12) (volts 14) (f.pct 15))

/-- `svs_get_vops_v2`, unless it ignores the voltages of the monitor phase, up to the adjustments of
all entries. -/
def svsGetVopsV2 (f : PctTable) (vop74 vop30 : BitVec 32) (volts : ℕ → BitVec 32) :
    ℕ → BitVec 32 :=
  interpolateVops f (readVops vop74 vop30 volts)

/-- An entry between two readings. -/
def Between (v0 v1 vx : BitVec 32) : Prop :=
  min v0.toNat v1.toNat ≤ vx.toNat ∧ vx.toNat ≤ max v0.toNat v1.toNat

/-- Readings between which the interpolation stays. -/
def PairOk (f0 f1 v0 v1 fx : BitVec 32) : Prop :=
  v1.toNat ≤ v0.toNat ∨ fx = f0 ∨
    fx = f1 ∧ f0.toNat - f1.toNat ∣ 2 ^ 32 - 100 * (v1.toNat - v0.toNat)

/-- The truncated slope between two readings, times the distance to the first. -/
def slopeDrop (f0 f1 v0 v1 fx : BitVec 32) : ℕ :=
  100 * (v0.toNat - v1.toNat) / (f0.toNat - f1.toNat) * (f0.toNat - fx.toNat)

/-- The entry that is `p` hundredths below `v`, rounded up. -/
def rounded (v p : ℕ) : ℕ := ((2 ^ 32 - p % 2 ^ 32 + v * 100) % 2 ^ 32 + 99) % 2 ^ 32 / 100

theorem rounded_zero {v : ℕ} (hv : v < 256) : rounded v 0 = v := by
  unfold rounded
  omega

/-- When the rounded value is at most another. -/
theorem rounded_le_iff {v w p : ℕ} (hv : v < 256) (hw : w ≤ v) (hp : p < 2 ^ 32 - 2 ^ 24) :
    rounded v p ≤ w ↔ 100 * (v - w) ≤ p ∧ p ≤ 100 * v + 99 := by
  unfold rounded
  omega

theorem rounded_between_iff {v w p : ℕ} (hw : w < 256) (hv : v < w) (hpos : 2 ^ 16 ≤ p)
    (hp : p ≤ 2 ^ 32 - 100 * (w - v)) :
    v ≤ rounded v p ∧ rounded v p ≤ w ↔ p = 2 ^ 32 - 100 * (w - v) := by
  have hmod : (2 ^ 32 - p % 2 ^ 32 + v * 100) % 2 ^ 32 = 2 ^ 32 - p + v * 100 := by omega
  rw [rounded, hmod]
  omega

theorem div_mul_eq_self_iff {s d n : ℕ} (hn : n ≤ d) (hq : 0 < s / d) :
    s / d * n = s ↔ n = d ∧ d ∣ s := by
  constructor
  · intro hall
    have hd := hall.symm.le.trans (Nat.mul_le_mul_left (s / d) hn)
    have hnd : n = d := Nat.eq_of_mul_eq_mul_left hq
      (hall.trans (Nat.le_antisymm hd (Nat.div_mul_le_self s d)))
    exact ⟨hnd, Dvd.intro_left _ (hnd ▸ hall)⟩
  · rintro ⟨rfl, hdvd⟩
    exact Nat.div_mul_cancel hdvd

section

variable {f0 f1 v0 v1 fx : BitVec 32} (hf0 : f0.toNat < 256) (hf : f1.toNat ≤ f0.toNat)
  (hfx : fx.toNat ≤ f0.toNat) (hv0 : v0.toNat < 256) (hv1 : v1.toNat < 256)
include hf0 hf hfx hv0 hv1

-- A division by zero is zero here, so the first branch of the source is no exception.
theorem toNat_interpolate : (interpolate f0 f1 v0 v1 fx).toNat =
    rounded v0.toNat ((2 ^ 32 - v1.toNat + v0.toNat) * 100 % 2 ^ 32 / (f0.toNat - f1.toNat) *
      (f0.toNat - fx.toNat)) := by
  have hd : (2 ^ 32 - f1.toNat + f0.toNat) % 2 ^ 32 = f0.toNat - f1.toNat := by omega
  have hn : (2 ^ 32 - fx.toNat + f0.toNat) % 2 ^ 32 = f0.toNat - fx.toNat := by omega
  have hundred : BitVec.toNat (100 : BitVec 32) = 100 := rfl
  have hninety : BitVec.toNat (99 : BitVec 32) = 99 := rfl
  rw [interpolate]
  split_ifs with heq
  · rcases heq with rfl | rfl
    · rw [Nat.sub_add_cancel (by omega), Nat.mul_mod_right, Nat.zero_div, Nat.zero_mul,
        rounded_zero hv0]
    · rw [Nat.sub_self, Nat.div_zero, Nat.zero_mul, rounded_zero hv0]
  · simp only [rounded, BitVec.toNat_udiv, BitVec.toNat_add, BitVec.toNat_sub, BitVec.toNat_mul,
      hundred, hninety, hd, hn, Nat.mod_mul_mod, Nat.add_mod_mod]

/-- For falling voltages, the interpolation does not wrap. -/
theorem toNat_interpolate_falling (hle : v1.toNat ≤ v0.toNat) :
    (interpolate f0 f1 v0 v1 fx).toNat = rounded v0.toNat (slopeDrop f0 f1 v0 v1 fx) := by
  have hslope : (2 ^ 32 - v1.toNat + v0.toNat) * 100 % 2 ^ 32 = 100 * (v0.toNat - v1.toNat) := by
    omega
  rw [toNat_interpolate hf0 hf hfx hv0 hv1, hslope, slopeDrop]

theorem interpolate_le_iff (hle : v1.toNat ≤ v0.toNat) :
    (interpolate f0 f1 v0 v1 fx).toNat ≤ v1.toNat ↔
      100 * (v0.toNat - v1.toNat) ≤ slopeDrop f0 f1 v0 v1 fx ∧
        slopeDrop f0 f1 v0 v1 fx ≤ 100 * v0.toNat + 99 := by
  have hdrop : slopeDrop f0 f1 v0 v1 fx ≤ 25500 * 255 :=
    Nat.mul_le_mul ((Nat.div_le_self _ _).trans (by omega)) (by omega)
  rw [toNat_interpolate_falling hf0 hf hfx hv0 hv1 hle]
  exact rounded_le_iff hv0 hle (by omega)

/-- It is then between the two. -/
theorem interpolate_between_falling (hfx' : f1.toNat ≤ fx.toNat) (hle : v1.toNat ≤ v0.toNat) :
    v1.toNat ≤ (interpolate f0 f1 v0 v1 fx).toNat ∧
      (interpolate f0 f1 v0 v1 fx).toNat ≤ v0.toNat := by
  have hdrop : slopeDrop f0 f1 v0 v1 fx ≤ 100 * (v0.toNat - v1.toNat) :=
    (Nat.mul_le_mul_left _ (by omega)).trans (Nat.div_mul_le_self _ _)
  rw [toNat_interpolate_falling hf0 hf hfx hv0 hv1 hle, rounded]
  omega

/-- For rising ones it wraps, and is between them at most at the ends. -/
theorem interpolate_between_rising (hfx' : f1.toNat ≤ fx.toNat) (hlt : v0.toNat < v1.toNat) :
    v0.toNat ≤ (interpolate f0 f1 v0 v1 fx).toNat ∧
        (interpolate f0 f1 v0 v1 fx).toNat ≤ v1.toNat ↔
      fx = f0 ∨ fx = f1 ∧ f0.toNat - f1.toNat ∣ 2 ^ 32 - 100 * (v1.toNat - v0.toNat) := by
  have hslope : (2 ^ 32 - v1.toNat + v0.toNat) * 100 % 2 ^ 32 =
      2 ^ 32 - 100 * (v1.toNat - v0.toNat) := by omega
  rw [toNat_interpolate hf0 hf hfx hv0 hv1, hslope, ← BitVec.toNat_inj, ← BitVec.toNat_inj]
  by_cases hnear : fx.toNat = f0.toNat
  · rw [hnear, Nat.sub_self, Nat.mul_zero, rounded_zero hv0]
    exact iff_of_true ⟨le_rfl, hlt.le⟩ (Or.inl rfl)
  · have hpos : 0 < f0.toNat - fx.toNat := by omega
    have hn : f0.toNat - fx.toNat ≤ f0.toNat - f1.toNat := by omega
    have hq : 2 ^ 16 ≤ (2 ^ 32 - 100 * (v1.toNat - v0.toNat)) / (f0.toNat - f1.toNat) :=
      (Nat.le_div_iff_mul_le (by omega)).mpr (by omega)
    rw [rounded_between_iff hv1 hlt (hq.trans (Nat.le_mul_of_pos_right _ hpos))
      ((Nat.mul_le_mul_left _ hn).trans (Nat.div_mul_le_self _ _)),
      div_mul_eq_self_iff hn (by omega), or_iff_right hnear]
    exact and_congr_left' (by omega)

/-- The interpolation is between its ends exactly if `PairOk` holds. -/
theorem interpolate_between_iff (hfx' : f1.toNat ≤ fx.toNat) :
    Between v0 v1 (interpolate f0 f1 v0 v1 fx) ↔ PairOk f0 f1 v0 v1 fx := by
  unfold Between
  rcases Nat.lt_or_ge v0.toNat v1.toNat with hlt | hle
  · rw [PairOk, or_iff_right (Nat.not_le.mpr hlt), Nat.min_eq_left hlt.le, Nat.max_eq_right hlt.le]
    exact interpolate_between_rising hf0 hf hfx hv0 hv1 hfx' hlt
  · rw [Nat.min_eq_right hle, Nat.max_eq_left hle]
    exact iff_of_true (interpolate_between_falling hf0 hf hfx hv0 hv1 hfx' hle) (Or.inl hle)

end

/-- The entry between two readings is between them, and if the readings do not increase, then
neither do the entries. -/
structure VoltsRight (volts : ℕ → BitVec 32) : Prop where
  between : ∀ k < 7, Between (volts (2 * k)) (volts (2 * k + 2)) (volts (2 * k + 1))
  anti : (∀ k < 7, volts (2 * k + 2) ≤ volts (2 * k)) → ∀ i < 15, volts (i + 1) ≤ volts i

/-- Readings for which the extrapolation ends between zero and the last reading. -/
def LastOk (f v : ℕ → BitVec 32) : Prop :=
  100 * ((v 12).toNat - (v 14).toNat) ≤ slopeDrop (f 12) (f 14) (v 12) (v 14) (f 15) ∧
    slopeDrop (f 12) (f 14) (v 12) (v 14) (f 15) ≤ 100 * (v 12).toNat + 99

/-- Readings for which the entries are right. -/
structure ReadingsOk (f v : ℕ → BitVec 32) : Prop where
  pair : ∀ k < 7, PairOk (f (2 * k)) (f (2 * k + 2)) (v (2 * k)) (v (2 * k + 2)) (f (2 * k + 1))
  last : (∀ k < 7, v (2 * k + 2) ≤ v (2 * k)) → LastOk f v

section

variable {f : PctTable} {v : ℕ → BitVec 32} {k : ℕ}

theorem interpolateVops_even (hk : k < 8) : interpolateVops f v (2 * k) = v (2 * k) := by
  interval_cases k <;> rfl

theorem interpolateVops_odd (hk : k < 7) :
    interpolateVops f v (2 * k + 1) = interpolate (f.pct (2 * k)) (f.pct (2 * k + 2)) (v (2 * k))
      (v (2 * k + 2)) (f.pct (2 * k + 1)) := by
  interval_cases k <;> rfl

variable (hv : ∀ k < 8, (v (2 * k)).toNat < 256)
include hv

theorem interpolateVops_between_iff (hk : k < 7) :
    Between (v (2 * k)) (v (2 * k + 2)) (interpolateVops f v (2 * k + 1)) ↔
      PairOk (f.pct (2 * k)) (f.pct (2 * k + 2)) (v (2 * k)) (v (2 * k + 2))
        (f.pct (2 * k + 1)) := by
  have hnear := f.anti (2 * k) (by omega)
  have hfar := f.anti (2 * k + 1) (by omega)
  rw [interpolateVops_odd hk]
  exact interpolate_between_iff (f.lt (2 * k) (by omega)) (Nat.le_trans hfar hnear) hnear
    (hv k (by omega)) (hv (k + 1) (by omega)) hfar

theorem interpolateVops_last_iff (hle : v 14 ≤ v 12) :
    interpolateVops f v 15 ≤ v 14 ↔ LastOk f.pct v :=
  have hfar := Nat.le_trans (f.anti 13 (by decide)) (f.anti 12 (by decide))
  interpolate_le_iff (f.lt 12 (by decide)) hfar (Nat.le_trans (f.anti 14 (by decide)) hfar)
    (hv 6 (by decide)) (hv 7 (by decide)) hle

/-- The voltages are right exactly if `ReadingsOk` holds. -/
theorem interpolateVops_right_iff : VoltsRight (interpolateVops f v) ↔ ReadingsOk f.pct v := by
  have heven {k : ℕ} (hk : k < 7) : interpolateVops f v (2 * k + 2) = v (2 * k + 2) :=
    interpolateVops_even (k := k + 1) (by omega)
  have heven' {k : ℕ} (hk : k < 7) : interpolateVops f v (2 * k) = v (2 * k) :=
    interpolateVops_even (by omega)
  constructor
  · intro hright
    refine ⟨fun k hk => ?_, fun hanti => ?_⟩
    · rw [← interpolateVops_between_iff hv hk, ← heven hk, ← heven' hk]
      exact hright.between k hk
    · refine (interpolateVops_last_iff hv (hanti 6 (by decide))).mp (hright.anti (fun k hk => ?_) 14
        (by decide))
      rw [heven hk, heven' hk]
      exact hanti k hk
  · intro hok
    have hbetween (k : ℕ) (hk : k < 7) := (interpolateVops_between_iff hv hk).mpr (hok.pair k hk)
    refine ⟨fun k hk => ?_, fun hanti => ?_⟩
    · rw [heven hk, heven' hk]
      exact hbetween k hk
    · replace hanti (k : ℕ) (hk : k < 7) : v (2 * k + 2) ≤ v (2 * k) := by
        rw [← heven hk, ← heven' hk]
        exact hanti k hk
      intro i hi
      obtain ⟨k, rfl | rfl⟩ : ∃ k, i = 2 * k ∨ i = 2 * k + 1 := ⟨i / 2, by omega⟩
      · rcases Nat.lt_or_ge k 7 with hk | hk
        · rw [heven' hk]
          exact (hbetween k hk).2.trans (Nat.max_eq_left (hanti k hk)).le
        · obtain rfl : k = 7 := by omega
          exact (interpolateVops_last_iff hv (hanti 6 (by decide))).mpr (hok.last hanti)
      · have hk : k < 7 := by omega
        rw [heven hk]
        exact (Nat.min_eq_right (hanti k hk)).ge.trans (hbetween k hk).1

end

/-- The entries are right exactly for such readings. -/
theorem svsGetVopsV2_right_iff (f : PctTable) (vop74 vop30 : BitVec 32) (volts : ℕ → BitVec 32) :
    VoltsRight (svsGetVopsV2 f vop74 vop30 volts) ↔
      ReadingsOk f.pct (readVops vop74 vop30 volts) := by
  refine interpolateVops_right_iff fun k hk => ?_
  interval_cases k <;> exact Nat.and_lt_two_pow _ (show _ < 2 ^ 8 by decide)

/-- A table whose last two steps are of different lengths. -/
def sampleFreqs : PctTable where
  pct i := if i ≤ 12 then 100 else if i = 13 then 75 else if i = 14 then 49 else 40
  lt := by decide
  anti := by decide

/-- The readings do not increase, and the last entry is above the one before it. -/
theorem not_svsGetVopsV2_right :
    ¬VoltsRight (svsGetVopsV2 sampleFreqs 0x3f404040 0x40404040 fun _ => 0) :=
  fun h => absurd (h.anti (by decide +kernel) 14 (by decide)) (by decide +kernel)

end Mt8169.Svs
