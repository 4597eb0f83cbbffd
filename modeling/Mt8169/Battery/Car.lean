import Mt8169.Lib.MachineInt

/-!
# The coulomb register of the gauge

`coulomb_get` of the MT6357 gauge reads a slice of the 32-bit register of the coulomb counter as
sign and magnitude and scales it to units of 0.1 mAh. `coulomb_interrupt_ht_set` and
`coulomb_interrupt_lt_set` convert a gap back with a factor of their own, which is 3 % larger.
-/

namespace Mt8169.Battery

open MachineInt

/-- `coulomb_get`, given the signed value of the register. -/
def coulombGet (rFgValue carTuneValue car : ℤ) : ℤ :=
  let car15 : ℕ := (car % 2 ^ 16).toNat
  let car31 : ℕ := (car / 2 ^ 16 % 2 ^ 16).toNat
  let uvalue32Car : ℕ := car15 >>> 11 ||| (car31 % 2 ^ 15) <<< 5
  let msb : ℕ := car31 / 2 ^ 15
  let tempValue : ℤ :=
    if uvalue32Car = 0 then 0
    else if uvalue32Car = 0xfffff then 0
    -- discharging
    else if msb = 1 then -(uvalue32Car - 0xfffff)
    else uvalue32Car
  let tempValue := (((tempValue * 11176).tdiv 1000).tdiv 10 + 5).tdiv 10
  let dvalueCar := if msb = 1 then -tempValue else tempValue
  let dvalueCar := if rFgValue ≠ 100 then (dvalueCar * 100).tdiv rFgValue else dvalueCar
  (dvalueCar * carTuneValue).tdiv 1000

/-- A gap in units of the register shifted by `CAR_TO_REG_SHIFT`. -/
def gapToReg (rFgValue carTuneValue val : ℤ) : ℤ :=
  let car := (val * 0x5c2a).tdiv 10
  let car := if rFgValue ≠ 100 then (car * rFgValue).tdiv 100 else car
  (car * 1000).tdiv carTuneValue

/-- The bound that `coulomb_interrupt_ht_set` programs for a gap. -/
def upperbound (rFgValue carTuneValue car val : ℤ) : ℤ :=
  s32 (car / 2 ^ 3 + gapToReg rFgValue carTuneValue val)

/-- The bound that `coulomb_interrupt_lt_set` programs for a gap. -/
def lowbound (rFgValue carTuneValue car val : ℤ) : ℤ :=
  s32 (car / 2 ^ 3 - gapToReg rFgValue carTuneValue val)

/-- The register is not in one of the two slices at the ends of its range, which are read as 0. -/
def Inside (car : ℤ) : Prop := -2 ^ 31 + 2 ^ 11 ≤ car ∧ car < 2 ^ 31 - 2 ^ 11
  deriving Decidable

/-- The magnitude of a reading. -/
def scaled (x : ℤ) : ℤ := (x * 11176 / 1000 / 10 + 5) / 10

theorem tdiv_scaled {x : ℤ} (hx : 0 ≤ x) :
    (((x * 11176).tdiv 1000).tdiv 10 + 5).tdiv 10 = scaled x := by
  have hpos : 0 ≤ x * 11176 := by omega
  have hpos' : 0 ≤ x * 11176 / 1000 := by omega
  rw [Int.tdiv_eq_ediv_of_nonneg hpos, Int.tdiv_eq_ediv_of_nonneg hpos',
    Int.tdiv_eq_ediv_of_nonneg (by omega), scaled]

/-- The counter in terms of the scaled register, by its sign. -/
theorem coulombGet_eq {car : ℤ} (hcar : Inside car) :
    coulombGet 100 1000 car =
      if 0 ≤ car then scaled (car / 2 ^ 11) else -scaled ((-car - 1) / 2 ^ 11) := by
  obtain ⟨hlo, hhi⟩ := hcar
  have hslice : (car % 2 ^ 16).toNat >>> 11 ||| ((car / 2 ^ 16 % 2 ^ 16).toNat % 2 ^ 15) <<< 5 =
      (car % 2 ^ 31 / 2 ^ 11).toNat := by
    rw [Nat.or_comm, ← Nat.shiftLeft_add_eq_or_of_lt, Nat.shiftLeft_eq, Nat.shiftRight_eq_div_pow]
    · omega
    · rw [Nat.shiftRight_eq_div_pow]
      omega
  unfold coulombGet
  dsimp only
  rw [hslice, if_neg (by decide), Int.mul_tdiv_cancel _ (by decide)]
  by_cases hpos : 0 ≤ car
  · have hmsb : (car / 2 ^ 16 % 2 ^ 16).toNat / 2 ^ 15 ≠ 1 := by omega
    have hvalue : (if (car % 2 ^ 31 / 2 ^ 11).toNat = 0 then 0
        else if (car % 2 ^ 31 / 2 ^ 11).toNat = 0xfffff then 0
        else ((car % 2 ^ 31 / 2 ^ 11).toNat : ℤ)) = car / 2 ^ 11 := by
      split
      · omega
      · split <;> omega
    rw [if_neg hmsb, if_neg hmsb, if_pos hpos, hvalue, tdiv_scaled (by omega)]
  · have hmsb : (car / 2 ^ 16 % 2 ^ 16).toNat / 2 ^ 15 = 1 := by omega
    have hvalue : (if (car % 2 ^ 31 / 2 ^ 11).toNat = 0 then 0
        else if (car % 2 ^ 31 / 2 ^ 11).toNat = 0xfffff then 0
        else -(((car % 2 ^ 31 / 2 ^ 11).toNat : ℤ) - 0xfffff)) = (-car - 1) / 2 ^ 11 := by
      split
      · omega
      · split <;> omega
    rw [if_pos hmsb, if_pos hmsb, if_neg hpos, hvalue, tdiv_scaled (by omega)]

/-- A reading is proportional to the register up to less than one unit. -/
theorem coulombGet_bounds {car : ℤ} (hcar : Inside car) :
    11176 * car - 145768448 ≤ 204800000 * coulombGet 100 1000 car ∧
      204800000 * coulombGet 100 1000 car ≤ 11176 * car + 145768448 := by
  have hscaled (x : ℤ) : 11176 * x - 60000 ≤ 100000 * scaled x ∧
      100000 * scaled x ≤ 11176 * x + 50000 := by
    unfold scaled
    omega
  rw [coulombGet_eq hcar]
  split
  · have := hscaled (car / 2 ^ 11)
    omega
  · have := hscaled ((-car - 1) / 2 ^ 11)
    omega

/-- A larger register never reads as a smaller counter. -/
theorem coulombGet_mono {car car' : ℤ} (hcar : Inside car) (hcar' : Inside car')
    (hle : car ≤ car') : coulombGet 100 1000 car ≤ coulombGet 100 1000 car' := by
  have hmono {x y : ℤ} (hxy : x ≤ y) : scaled x ≤ scaled y := by
    unfold scaled
    omega
  have hpos {x : ℤ} (hx : 0 ≤ x) : 0 ≤ scaled x := by
    unfold scaled
    omega
  rw [coulombGet_eq hcar, coulombGet_eq hcar']
  split
  · rw [if_pos (by omega)]
    exact hmono (by omega)
  · split
    · have := hpos (by omega : 0 ≤ (-car - 1) / 2 ^ 11)
      have := hpos (by omega : 0 ≤ car' / 2 ^ 11)
      omega
    · exact Int.neg_le_neg (hmono (by omega))

theorem gapToReg_eq {val : ℤ} (hval : 0 < val) : gapToReg 100 1000 val = val * 0x5c2a / 10 := by
  unfold gapToReg
  dsimp only
  rw [if_neg (by decide), Int.mul_tdiv_cancel _ (by decide), Int.tdiv_eq_ediv_of_nonneg (by omega)]

/-- Between the ends of its range the reading follows the register, and it changes by the gap and up
to 1/32 of it until the register, shifted, comes to the bound that is programmed for the gap. -/
theorem coulomb_agrees {car val : ℤ} (hcar : Inside car) (hval : 0 < val) :
    (∀ car', Inside car' → car ≤ car' → coulombGet 100 1000 car ≤ coulombGet 100 1000 car') ∧
    (∀ car', Inside (2 ^ 3 * (car / 2 ^ 3 + gapToReg 100 1000 val)) →
      upperbound 100 1000 car val ≤ car' / 2 ^ 3 →
      (car' - 1) / 2 ^ 3 < upperbound 100 1000 car val →
      val - 2 ≤ coulombGet 100 1000 car' - coulombGet 100 1000 car ∧
        coulombGet 100 1000 car' - coulombGet 100 1000 car ≤ val + val / 32 + 2) ∧
    ∀ car', Inside (2 ^ 3 * (car / 2 ^ 3 - gapToReg 100 1000 val)) →
      car' / 2 ^ 3 ≤ lowbound 100 1000 car val →
      lowbound 100 1000 car val < (car' + 1) / 2 ^ 3 →
      val - 2 ≤ coulombGet 100 1000 car - coulombGet 100 1000 car' ∧
        coulombGet 100 1000 car - coulombGet 100 1000 car' ≤ val + val / 32 + 2 := by
  have hbounds := coulombGet_bounds hcar
  refine ⟨fun car' hcar' => coulombGet_mono hcar hcar', ?_, ?_⟩
  · intro car' hbound hreach hfirst
    unfold upperbound at hreach hfirst
    rw [gapToReg_eq hval] at hbound hreach hfirst
    obtain ⟨hlo, hhi⟩ := hbound
    rw [s32_eq (by omega) (by omega)] at hreach hfirst
    have hinside : Inside car' := ⟨by omega, by omega⟩
    have hbounds' := coulombGet_bounds hinside
    omega
  · intro car' hbound hreach hfirst
    unfold lowbound at hreach hfirst
    rw [gapToReg_eq hval] at hbound hreach hfirst
    obtain ⟨hlo, hhi⟩ := hbound
    rw [s32_eq (by omega) (by omega)] at hreach hfirst
    have hinside : Inside car' := ⟨by omega, by omega⟩
    have hbounds' := coulombGet_bounds hinside
    omega

/-- A gap of 100 mAh from an empty register. -/
theorem coulomb_agrees_hundred :
    (Inside 0 ∧ (0 : ℤ) < 1000) ∧ 998 ≤ coulombGet 100 1000 18875200 - coulombGet 100 1000 0 ∧
      coulombGet 100 1000 18875200 - coulombGet 100 1000 0 ≤ 1033 :=
  ⟨by decide, (coulomb_agrees (by decide) (by decide : (0 : ℤ) < 1000)).2.1 18875200 (by decide)
    (by decide) (by decide)⟩

/-- The reading falls to 0 at the upper end of the range, and for a gap of 100 mAh it changes by
103 mAh. -/
theorem not_coulomb_agrees :
    ¬(∀ car car' : ℤ, -2 ^ 31 ≤ car → car ≤ car' → car' < 2 ^ 31 →
        coulombGet 100 1000 car ≤ coulombGet 100 1000 car') ∧
      ¬(∀ car' : ℤ, upperbound 100 1000 0 1000 ≤ car' / 2 ^ 3 →
        (car' - 1) / 2 ^ 3 < upperbound 100 1000 0 1000 →
        coulombGet 100 1000 car' - coulombGet 100 1000 0 ≤ 1000 + 1000 / 100 + 2) := by
  constructor
  · intro h
    exact absurd (h (2 ^ 30) (2 ^ 31 - 1) (by decide) (by decide) (by decide)) (by decide)
  · intro h
    exact absurd (h 18875200 (by decide) (by decide)) (by decide)

end Mt8169.Battery
