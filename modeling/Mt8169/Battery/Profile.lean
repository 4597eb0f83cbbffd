import Mt8169.Lib.MachineInt
import Mt8169.Lib.WeakestPre
import Mathlib.Logic.Function.Basic

/-!
# The battery table of the fuel gauge

The fuel gauge works with a table of the battery, whose rows give a charge, a voltage, a resistance
and a percentage. A temperature interrupt constructs it again between the two tables of the customer
data that enclose the temperature, and finds its capacity from the voltage at which the system can
still boot. The definitions follow `mtk_battery_algo.c` for `temperature_tb1`. An interpolation and
the compensation of a voltage wrap as an `int`, the short fields of a row are reduced to their
width, other values are unbounded, and a division by zero stops the program.
-/

namespace Mt8169.Battery

open MachineInt WeakestPre List Function

/-- `struct fuelgauge_profile_struct`. -/
structure ProfileRow where
  mah : ℤ
  voltage : ℕ
  resistance : ℕ
  resistance2 : ℕ
  percentage : ℕ
  deriving DecidableEq, Repr

/-- The rows of a table. Row `-1` is the memory in front of the table. -/
abbrev Profile : Type := ℤ → ProfileRow

/-- `struct fuel_gauge_table`. -/
structure FuelGaugeTable where
  temperature : ℤ
  qMax : ℤ
  qMaxHCurrent : ℤ
  pmicMinVol : ℤ
  ponIboot : ℤ
  size : ℕ
  fgProfile : Profile

/-- `struct fuel_gauge_custom_data` and `struct fuel_gauge_table_custom_data`. The active tables
are `fg_profile[0]` and the rest. -/
structure CustomData where
  fgProfile0 : FuelGaugeTable
  fgProfiles : List FuelGaugeTable
  agingSel : ℤ
  qmaxSel : ℤ
  ibootSel : ℤ
  shutdownSystemIboot : ℤ
  rFgValue : ℤ
  fgMeterResistance : ℤ
  diffSocSetting : ℤ
  vbat2DetVoltage1 : ℤ
  vbat2DetVoltage2 : ℤ
  vbat2DetVoltage3 : ℤ

/-- The active tables. -/
def CustomData.tables (cfg : CustomData) : List FuelGaugeTable := cfg.fgProfile0 :: cfg.fgProfiles

/-- `struct mtk_battery_algo`, with `fg_profile_temperature_1` and the values handed over to the
battery driver and to the gauge. -/
structure Algo where
  profile : Profile
  lastTemp : ℤ
  tTableC : ℤ
  qmaxT0maHTb1 : ℤ
  qmaxTNmaHTb1 : ℤ
  qmaxT0maTb1 : ℤ
  vboot : ℤ
  vbootC : ℤ
  qmaxTAging : ℤ
  agingFactor : ℤ
  dcRatio : ℤ
  quseTb1 : ℤ
  car : ℤ
  fgCD0Ocv : ℤ
  fgCD0Dod : ℤ
  fgCD0Soc : ℤ
  fgCDod : ℤ
  fgCSoc : ℤ
  soc : ℤ
  uiSoc : ℤ
  fgBatInt1Gap : ℤ
  prevCarBat0 : ℤ
  htGap : ℤ
  ltGap : ℤ
  lowTrackingEnable : Bool
  fgVbat2Lt : ℤ
  fgVbat2Ht : ℤ
  dodInitDone : Bool
  /-- `BAT_PROP_UISOC_HT_INT_GAP`. -/
  uisocIntHtGap : ℤ
  /-- `BAT_PROP_UISOC_LT_INT_GAP`. -/
  uisocIntLtGap : ℤ
  /-- `BAT_PROP_COULOMB_INT_GAP`. -/
  coulombIntGap : ℤ
  /-- The fields `soc` and `ui_soc` of `struct mtk_battery`. -/
  kernelSoc : ℤ
  kernelUiSoc : ℤ
  /-- `GAUGE_PROP_RTC_UI_SOC`. -/
  rtcUiSoc : ℤ
  /-- `GAUGE_PROP_CON0_SOC`. -/
  con0Soc : ℤ

/-- What stops the algorithm: a division by zero, or a table that is not found. -/
inductive AlgoFault where
  | divideByZero | nullProfile
  deriving DecidableEq, Repr

/-- A program of the fuel gauge algorithm. -/
abbrev AlgoProg (α : Type) : Type := Prog Algo AlgoFault α

/-- The division of the language on integers. -/
def cdiv (a b : ℤ) : AlgoProg ℤ := if b = 0 then throw .divideByZero else pure (a.tdiv b)

@[simp]
theorem wp_cdiv (a b : ℤ) (Q : ℤ → Algo → Prop) (s : Algo) :
    wp (cdiv a b) Q s ↔ b ≠ 0 ∧ Q (a.tdiv b) s := by
  unfold cdiv
  by_cases hb : b = 0
  all_goals simp [hb]

/-- `interpolation`. -/
def interpolation (i1 b1 i2 b2 i : ℤ) : AlgoProg ℤ := do
  let q ← cdiv (s32 ((b2 - b1) * (i - i1))) (i2 - i1)
  pure (s32 (q + b1))

/-- The value of an interpolation. -/
def interpolated (i1 b1 i2 b2 i : ℤ) : ℤ :=
  s32 ((s32 ((b2 - b1) * (i - i1))).tdiv (i2 - i1) + b1)

/-- An interpolation returns if the two rows differ. -/
@[simp]
theorem wp_interpolation (i1 b1 i2 b2 i : ℤ) (Q : ℤ → Algo → Prop) (s : Algo) :
    wp (interpolation i1 b1 i2 b2 i) Q s ↔ i1 ≠ i2 ∧ Q (interpolated i1 b1 i2 b2 i) s := by
  have hdiff : i2 - i1 ≠ 0 ↔ i1 ≠ i2 := by omega
  simp only [interpolation, wp_bind, wp_cdiv, wp_pure, hdiff]
  rfl

/-- A loop of `fg_check_temperature_order` over neighbouring temperatures. -/
def orderLoop (stop : ℤ → ℤ → Bool) (flags : Bool × Bool) : List ℤ → Bool × Bool → Bool × Bool
  | t :: u :: ts, seen => if stop t u then seen else orderLoop stop flags (u :: ts) flags
  | _, seen => seen

/-- `fg_check_temperature_order`: the flags `is_ascending` and `is_descending`. -/
def fgCheckTemperatureOrder (temperatures : List ℤ) : Bool × Bool :=
  orderLoop (fun t u => decide (t < u)) (false, true) temperatures
    (orderLoop (fun t u => decide (t > u)) (true, false) temperatures (false, false))

/-- The tables at `i - 1` and `i` for the first `i` at which the search stops, or for the last
one. -/
def neighbours (stop : ℤ → Bool) (prev : FuelGaugeTable) :
    List FuelGaugeTable → FuelGaugeTable × FuelGaugeTable
  | [] => (prev, prev)
  | [t] => (prev, t)
  | t :: ts => if stop t.temperature then (prev, t) else neighbours stop t ts

theorem neighbours_mem (stop : ℤ → Bool) (prev : FuelGaugeTable) (ts : List FuelGaugeTable) :
    (neighbours stop prev ts).1 ∈ prev :: ts ∧ (neighbours stop prev ts).2 ∈ prev :: ts := by
  fun_induction neighbours stop prev ts with
  | case1 prev | case2 prev t | case3 prev t ts hstop => simp
  | case4 prev t ts hne hstop ih =>
    exact ⟨mem_cons_of_mem prev ih.1, mem_cons_of_mem prev ih.2⟩

namespace CustomData

variable (cfg : CustomData)

/-- The flags of the temperatures of the active tables. -/
def order : Bool × Bool := fgCheckTemperatureOrder (cfg.tables.map FuelGaugeTable.temperature)

variable (temperature : ℤ)

/-- The tables of the lower and the higher temperature around a temperature. -/
def lowHigh : FuelGaugeTable × FuelGaugeTable :=
  if cfg.order.1 then
    neighbours (fun t => decide (temperature ≤ t)) cfg.fgProfile0 cfg.fgProfiles
  else (neighbours (fun t => decide (temperature ≥ t)) cfg.fgProfile0 cfg.fgProfiles).swap

theorem lowHigh_mem :
    (cfg.lowHigh temperature).1 ∈ cfg.tables ∧ (cfg.lowHigh temperature).2 ∈ cfg.tables := by
  unfold lowHigh
  split_ifs
  · exact neighbours_mem _ cfg.fgProfile0 cfg.fgProfiles
  · exact (neighbours_mem _ cfg.fgProfile0 cfg.fgProfiles).symm

/-- `fg_get_saddles`. -/
def fgGetSaddles : ℕ := cfg.fgProfile0.size

/-- `fg_get_profile` for the temperature of an active table. -/
def fgGetProfile : AlgoProg Profile :=
  match cfg.tables.find? fun t => t.temperature == temperature with
  | some t => pure t.fgProfile
  | none => throw .nullProfile

/-- The rows of the first table with a temperature. -/
def profileOf : Profile :=
  ((cfg.tables.find? fun t => t.temperature == temperature).getD cfg.fgProfile0).fgProfile

theorem wp_fgGetProfile {t : FuelGaugeTable} (hmem : t ∈ cfg.tables) (Q : Profile → Algo → Prop)
    (s : Algo) : wp (cfg.fgGetProfile t.temperature) Q s ↔ Q (cfg.profileOf t.temperature) s := by
  unfold fgGetProfile profileOf
  cases hfind : cfg.tables.find? fun u => u.temperature == t.temperature with
  | none =>
    have hnone := find?_eq_none.mp hfind t hmem
    simp at hnone
  | some u => simp

end CustomData

/-- A temperature within the bounds. -/
def clampTemperature (temperature low high : ℤ) : ℤ :=
  if temperature < low then low else if temperature > high then high else temperature

/-- Change the row at an index. -/
def Algo.setRow (i : ℤ) (f : ProfileRow → ProfileRow) (s : Algo) : Algo :=
  { s with profile := update s.profile i (f (s.profile i)) }

theorem stateUp_setRow (f : ℤ → ProfileRow → ProfileRow) (n : ℕ) (lo : ℤ) (s : Algo) :
    stateUp (fun i => Algo.setRow i (f i)) n lo s =
      { s with profile := fun i => if lo ≤ i ∧ i < lo + n then f i (s.profile i)
        else s.profile i } := by
  induction n generalizing lo s with
  | zero =>
    have hempty : ∀ i, ¬(lo ≤ i ∧ i < lo + (0 : ℕ)) := by omega
    simp only [stateUp, hempty, if_false]
  | succ n ih =>
    rw [stateUp, ih, Algo.setRow]
    congr 1
    funext i
    by_cases hi : i = lo
    · subst hi
      have hout : ¬(i + 1 ≤ i ∧ i < i + 1 + (n : ℤ)) := by omega
      have hin : i ≤ i ∧ i < i + ((n + 1 : ℕ) : ℤ) := by omega
      rw [if_neg hout, if_pos hin]
      exact update_self i _ s.profile
    · have hiff : (lo + 1 ≤ i ∧ i < lo + 1 + (n : ℤ)) ↔ (lo ≤ i ∧ i < lo + ((n + 1 : ℕ) : ℤ)) := by
        omega
      dsimp only
      rw [update_of_ne hi]
      exact if_congr hiff rfl rfl

/-- The table with the first `n` rows changed. -/
def mapRows (n : ℕ) (f : ℤ → ProfileRow → ProfileRow) (p : Profile) : Profile :=
  fun i => if 0 ≤ i ∧ i < n then f i (p i) else p i

/-- A loop over the rows changes each of them once. -/
theorem wp_forUp_rows {body : ℤ → AlgoProg Unit} {f : ℤ → ProfileRow → ProfileRow} {C : Prop}
    (hbody : ∀ i (Q : Unit → Algo → Prop) s, wp (body i) Q s ↔ C ∧ Q () (s.setRow i (f i)))
    (n : ℕ) (Q : Unit → Algo → Prop) (s : Algo) :
    wp (forUp 0 n body) Q s ↔ (0 < n → C) ∧ Q () { s with profile := mapRows n f s.profile } := by
  rw [wp_forUp_iff hbody, stateUp_setRow]
  have hcount : (((n : ℤ) - 0).toNat : ℤ) = n := by omega
  simp only [hcount, Int.natCast_pos, Int.zero_add]
  rfl

section Rows

variable (low high : FuelGaugeTable) (lowProfile highProfile : Profile) (temperature : ℤ)

/-- The row that is interpolated between two tables. -/
def interpolatedRow (i : ℤ) (row : ProfileRow) : ProfileRow where
  mah := interpolated low.temperature (lowProfile i).mah high.temperature (highProfile i).mah
    temperature
  voltage := u16 (interpolated low.temperature (lowProfile i).voltage high.temperature
    (highProfile i).voltage temperature)
  resistance := u16 (interpolated low.temperature (lowProfile i).resistance high.temperature
    (highProfile i).resistance temperature)
  resistance2 := u16 (interpolated low.temperature (lowProfile i).resistance2 high.temperature
    (highProfile i).resistance2 temperature)
  percentage := row.percentage

/-- A round of the loop of `fgr_construct_battery_profile`. -/
def constructRow (i : ℤ) : AlgoProg Unit := do
  let mah ← interpolation low.temperature (lowProfile i).mah high.temperature
    (highProfile i).mah temperature
  let voltage ← interpolation low.temperature (lowProfile i).voltage high.temperature
    (highProfile i).voltage temperature
  let resistance ← interpolation low.temperature (lowProfile i).resistance high.temperature
    (highProfile i).resistance temperature
  let resistance2 ← interpolation low.temperature (lowProfile i).resistance2 high.temperature
    (highProfile i).resistance2 temperature
  modify fun s => s.setRow i fun row => ⟨mah, u16 voltage, u16 resistance, u16 resistance2,
    row.percentage⟩

theorem wp_constructRow (i : ℤ) (Q : Unit → Algo → Prop) (s : Algo) :
    wp (constructRow low high lowProfile highProfile temperature i) Q s ↔
      low.temperature ≠ high.temperature ∧
        Q () (s.setRow i (interpolatedRow low high lowProfile highProfile temperature i)) := by
  simp only [constructRow, wp_bind, wp_interpolation, wp_modify]
  constructor
  · rintro ⟨hne, -, -, -, hQ⟩
    exact ⟨hne, hQ⟩
  · rintro ⟨hne, hQ⟩
    exact ⟨hne, hne, hne, hne, hQ⟩

end Rows

variable (cfg : CustomData) (qmax : ℤ) (Q : Unit → Algo → Prop) (s : Algo)

/-- `fgr_construct_battery_profile`. -/
def fgrConstructBatteryProfile : AlgoProg Unit := do
  let s ← get
  if cfg.order.1 = false ∧ cfg.order.2 = false then pure ()
  else do
    let low := (cfg.lowHigh s.lastTemp).1
    let high := (cfg.lowHigh s.lastTemp).2
    let lowProfile ← cfg.fgGetProfile low.temperature
    let highProfile ← cfg.fgGetProfile high.temperature
    let temperature := clampTemperature s.lastTemp low.temperature high.temperature
    modify fun s => { s with tTableC := temperature }
    forUp 0 cfg.fgGetSaddles (constructRow low high lowProfile highProfile temperature)
    let qmaxT0ma ← interpolation low.temperature (10 * low.qMax) high.temperature
      (10 * high.qMax) temperature
    modify fun s => { s with qmaxT0maHTb1 := qmaxT0ma }
    let qmaxTNma ← interpolation low.temperature (10 * low.qMaxHCurrent) high.temperature
      (10 * high.qMaxHCurrent) temperature
    modify fun s => { s with qmaxTNmaHTb1 := qmaxTNma }

/-- The algorithm with the table constructed for the last temperature. -/
def Algo.constructed : Algo :=
  if cfg.order.1 = false ∧ cfg.order.2 = false then s
  else
    let low := (cfg.lowHigh s.lastTemp).1
    let high := (cfg.lowHigh s.lastTemp).2
    let temperature := clampTemperature s.lastTemp low.temperature high.temperature
    { s with
      tTableC := temperature
      profile := mapRows cfg.fgGetSaddles (interpolatedRow low high
        (cfg.profileOf low.temperature) (cfg.profileOf high.temperature) temperature) s.profile
      qmaxT0maHTb1 := interpolated low.temperature (10 * low.qMax) high.temperature
        (10 * high.qMax) temperature
      qmaxTNmaHTb1 := interpolated low.temperature (10 * low.qMaxHCurrent) high.temperature
        (10 * high.qMaxHCurrent) temperature }

/-- The tables around a temperature have different temperatures, if there are two tables. -/
def CustomData.Encloses (temperature : ℤ) : Prop :=
  (cfg.order.1 = false ∧ cfg.order.2 = false) ∨
    (cfg.lowHigh temperature).1.temperature ≠ (cfg.lowHigh temperature).2.temperature
  deriving Decidable

/-- The table of a temperature, if two tables enclose it. -/
theorem wp_fgrConstructBatteryProfile :
    wp (fgrConstructBatteryProfile cfg) Q s ↔
      cfg.Encloses s.lastTemp ∧ Q () (s.constructed cfg) := by
  unfold fgrConstructBatteryProfile Algo.constructed CustomData.Encloses
  rw [wp_read]
  by_cases hflags : cfg.order.1 = false ∧ cfg.order.2 = false
  · rw [if_pos hflags, if_pos hflags, wp_pure]
    exact ⟨fun hQ => ⟨Or.inl hflags, hQ⟩, fun h => h.2⟩
  · obtain ⟨hlow, hhigh⟩ := cfg.lowHigh_mem s.lastTemp
    rw [if_neg hflags, if_neg hflags, or_iff_right hflags]
    rw [wp_bind, cfg.wp_fgGetProfile hlow, wp_bind, cfg.wp_fgGetProfile hhigh, wp_bind, wp_modify,
      wp_bind, wp_forUp_rows (wp_constructRow _ _ _ _ _)]
    simp only [wp_bind, wp_interpolation, wp_modify]
    constructor
    · rintro ⟨-, hne, -, hQ⟩
      exact ⟨hne, hQ⟩
    · rintro ⟨hne, hQ⟩
      exact ⟨fun _ => hne, hne, hne, hQ⟩

/-- `fgr_construct_table_by_temp` with `update`, for the temperature that is read. -/
def fgrConstructTableByTemp (tbat : ℤ) : AlgoProg Unit := do
  modify fun s => { s with lastTemp := tbat }
  fgrConstructBatteryProfile cfg

/-- The first of `n` rows from `i` on that passes a test, or the row after them. -/
def firstRow (test : ProfileRow → Bool) (p : Profile) : ℕ → ℤ → ℤ
  | 0, i => i
  | n + 1, i => if test (p i) then i else firstRow test p n (i + 1)

theorem firstRow_spec (test : ProfileRow → Bool) (p : Profile) (n : ℕ) (i : ℤ) :
    i ≤ firstRow test p n i ∧
      (firstRow test p n i < i + n → test (p (firstRow test p n i)) = true) ∧
      (i < firstRow test p n i → test (p (firstRow test p n i - 1)) = false) := by
  induction n generalizing i with
  | zero =>
    refine ⟨Int.le_refl i, fun hlt => ?_, fun hlt => ?_⟩
    all_goals exact absurd hlt (by simp [firstRow])
  | succ n ih =>
    unfold firstRow
    by_cases htest : test (p i) = true
    · simp [htest]
    · obtain ⟨hle, hpass, hfail⟩ := ih (i + 1)
      simp only [htest, Bool.false_eq_true, if_false]
      refine ⟨by omega, fun hlt => hpass (by omega), fun _ => ?_⟩
      by_cases hnext : firstRow test p n (i + 1) = i + 1
      · rw [hnext, Int.add_sub_cancel]
        simpa using htest
      · exact hfail (by omega)

/-- The loop that fills the percentages in. -/
def fillPercentage : AlgoProg Unit :=
  forUp 0 (100 : ℕ) fun i => do
    let s ← get
    let percentage ← cdiv ((s.profile i).mah * 10000) qmax
    modify fun s => s.setRow i fun row => { row with percentage := u16 percentage }

/-- A row with the percentage that its charge has of the capacity. -/
def rated (_i : ℤ) (row : ProfileRow) : ProfileRow :=
  { row with percentage := u16 ((row.mah * 10000).tdiv qmax) }

theorem wp_fillPercentage :
    wp (fillPercentage qmax) Q s ↔
      qmax ≠ 0 ∧ Q () { s with profile := mapRows 100 (rated qmax) s.profile } := by
  unfold fillPercentage
  rw [wp_forUp_rows (C := qmax ≠ 0) (f := rated qmax)]
  · simp
  · intro i Q s
    simp only [wp_bind, wp_get, wp_cdiv, wp_modify]
    rfl

/-- `fg_construct_battery_profile_by_qmax`. -/
def fgConstructBatteryProfileByQmax : AlgoProg Unit := do
  modify fun s => { s with qmaxT0maTb1 := qmax }
  fillPercentage qmax

/-- The first row whose voltage is below the boot voltage. -/
def bootRow (p : Profile) (vboot : ℤ) : ℤ :=
  firstRow (fun row => decide ((row.voltage : ℤ) < vboot)) p 100 0

/-- `fg_construct_battery_profile_by_vboot`. -/
def fgConstructBatteryProfileByVboot (vboot : ℤ) : AlgoProg Unit := do
  let s ← get
  let p := s.profile
  let j := bootRow p vboot
  let qmax ←
    if j = 0 then pure (p 0).mah
    else if j ≥ 100 then pure (p 99).mah
    else interpolation (p j).voltage (p j).mah (p (j - 1)).voltage (p (j - 1)).mah vboot
  modify fun s => { s with qmaxT0maTb1 := qmax }
  fillPercentage qmax

/-- The charge that is drawn when the voltage is down to the boot voltage. -/
def capacityAt (p : Profile) (vboot : ℤ) : ℤ :=
  let j := bootRow p vboot
  if j = 0 then (p 0).mah
  else if j ≥ 100 then (p 99).mah
  else interpolated (p j).voltage (p j).mah (p (j - 1)).voltage (p (j - 1)).mah vboot

/-- The algorithm with a capacity and the percentages for it. -/
def Algo.withCapacity : Algo :=
  { s with qmaxT0maTb1 := qmax, profile := mapRows 100 (rated qmax) s.profile }

/-- A capacity that is not zero gives all rows their percentage. -/
theorem wp_fgConstructBatteryProfileByQmax :
    wp (fgConstructBatteryProfileByQmax qmax) Q s ↔ qmax ≠ 0 ∧ Q () (s.withCapacity qmax) := by
  simp only [fgConstructBatteryProfileByQmax, wp_bind, wp_modify, wp_fillPercentage]
  rfl

theorem wp_fgConstructBatteryProfileByVboot (vboot : ℤ) (Q : Unit → Algo → Prop) (s : Algo) :
    wp (fgConstructBatteryProfileByVboot vboot) Q s ↔
      capacityAt s.profile vboot ≠ 0 ∧ Q () (s.withCapacity (capacityAt s.profile vboot)) := by
  obtain ⟨hle, hpass, hfail⟩ :=
    firstRow_spec (fun row => decide ((row.voltage : ℤ) < vboot)) s.profile 100 0
  unfold fgConstructBatteryProfileByVboot capacityAt
  simp only [wp_bind, wp_get]
  by_cases hfirst : bootRow s.profile vboot = 0
  · simp only [if_pos hfirst, wp_bind, wp_pure, wp_modify, wp_fillPercentage]
    rfl
  by_cases hlast : bootRow s.profile vboot ≥ 100
  · simp only [if_neg hfirst, if_pos hlast, wp_bind, wp_pure, wp_modify, wp_fillPercentage]
    rfl
  have hbelow := of_decide_eq_true (hpass (by unfold bootRow at hlast; omega))
  have habove := of_decide_eq_false (hfail (by unfold bootRow at hfirst; omega))
  have hne : ((s.profile (bootRow s.profile vboot)).voltage : ℤ) ≠
      (s.profile (bootRow s.profile vboot - 1)).voltage := by
    unfold bootRow
    omega
  simp only [if_neg hfirst, if_neg hlast, wp_bind, wp_interpolation, wp_modify, wp_fillPercentage]
  constructor
  · exact fun h => h.2
  · exact fun h => ⟨hne, h⟩

section Compensate

variable (cfg : CustomData)

variable (p : Profile) (rac high dcRatio oriv : ℤ) (s : Algo) (curr : ℤ)

/-- The voltage that a current makes at the resistances of the battery and of the meter. The
products and the sum are of type `int`. -/
def compensateValue (resistance : ℤ) : ℤ :=
  let total := s32 ((s32 (resistance * dcRatio)).tdiv 100 + cfg.rFgValue + cfg.fgMeterResistance)
  ((s32 (curr * total)).tdiv 1000 + 5).tdiv 10

/-- The first loop of `fg_compensate_battery_voltage_from_low`, from the size of the table. -/
def topRow (p : Profile) : ℕ → ℕ
  | 0 => 0
  | n + 1 => if 1 ≤ n ∧ (p (n - 1)).percentage < 10000 then n else topRow p n

/-- The second loop of `fg_compensate_battery_voltage_from_low`, from a row down. It ends at row
zero if no voltage is above the one looked for. -/
def hitRow (p : Profile) (dcRatio oriv curr : ℤ) : ℕ → ℕ
  | 0 => 0
  | n + 1 =>
    if (p n).voltage + compensateValue cfg dcRatio curr (p n).resistance > oriv then n + 1
    else hitRow p dcRatio oriv curr n

/-- The row at which the search for the boot voltage ends. -/
def lowRow (oriv curr : ℤ) : ℤ :=
  hitRow cfg s.profile s.dcRatio oriv curr (topRow s.profile cfg.fgGetSaddles)

/-- `hit_h_percent` and `hit_l_percent`. -/
def hitPercents : ℤ × ℤ :=
  if high = 0 then (0, 0) else ((p high).percentage, (p (high - 1)).percentage)

/-- A round of the last loop of `fg_compensate_battery_voltage_from_low`, by tenths of a percent. -/
def tenthRound (i _fgVolt : ℤ) : AlgoProg (Bool × ℤ) := do
  let fgVolt ← interpolation (p (high - 1)).percentage (p (high - 1)).voltage
    (p high).percentage (p high).voltage i
  let resistance ← interpolation (p (high - 1)).percentage (p (high - 1)).resistance
    (p high).percentage (p high).resistance i
  if fgVolt + compensateValue cfg dcRatio curr resistance > oriv then pure (false, fgVolt)
  else pure (true, fgVolt)

/-- `fg_compensate_battery_voltage_from_low`. If no row is hit, the last loop runs once, with the
memory in front of the table. -/
def fgCompensateBatteryVoltageFromLow : AlgoProg ℤ := do
  let s ← get
  let high := lowRow cfg s oriv curr
  let hits := hitPercents s.profile high
  loop (-10) (tenthRound cfg s.profile high s.dcRatio oriv curr)
    ((hits.1 - hits.2) / 10 + 1).toNat hits.1 (s.profile (high - 1)).voltage

/-- The value of a round. -/
def tenthValue (i _fgVolt : ℤ) : Bool × ℤ :=
  let fgVolt := interpolated (p (high - 1)).percentage (p (high - 1)).voltage
    (p high).percentage (p high).voltage i
  let resistance := interpolated (p (high - 1)).percentage (p (high - 1)).resistance
    (p high).percentage (p high).resistance i
  (!decide (fgVolt + compensateValue cfg dcRatio curr resistance > oriv), fgVolt)

theorem wp_tenthRound (i fgVolt : ℤ) (Q : Bool × ℤ → Algo → Prop) (s : Algo) :
    wp (tenthRound cfg p high dcRatio oriv curr i fgVolt) Q s ↔
      ((p (high - 1)).percentage : ℤ) ≠ (p high).percentage ∧
        Q (tenthValue cfg p high dcRatio oriv curr i fgVolt) s := by
  simp only [tenthRound, wp_bind, wp_interpolation]
  rw [← and_assoc, and_self]
  refine and_congr_right fun _ => ?_
  unfold tenthValue
  split_ifs with hhit <;> simp [hhit]

/-- The boot voltage under load. -/
def lowVoltage (oriv curr : ℤ) : ℤ :=
  let high := lowRow cfg s oriv curr
  let hits := hitPercents s.profile high
  loopValue (-10) (tenthValue cfg s.profile high s.dcRatio oriv curr)
    ((hits.1 - hits.2) / 10 + 1).toNat hits.1 (s.profile (high - 1)).voltage

/-- The percentages around the boot voltage under load differ. -/
def LowRowOk (oriv curr : ℤ) : Prop :=
  (s.profile (lowRow cfg s oriv curr - 1)).percentage ≠
    (s.profile (lowRow cfg s oriv curr)).percentage
  deriving Decidable

/-- The compensated voltage, if no two rows have equal percentages. -/
theorem wp_fgCompensateBatteryVoltageFromLow (Q : ℤ → Algo → Prop) (s : Algo) :
    wp (fgCompensateBatteryVoltageFromLow cfg oriv curr) Q s ↔
      LowRowOk cfg s oriv curr ∧ Q (lowVoltage cfg s oriv curr) s := by
  unfold fgCompensateBatteryVoltageFromLow lowVoltage LowRowOk
  rw [wp_read, wp_loop_iff (wp_tenthRound cfg _ _ _ _ _)]
  refine and_congr_left fun _ => ?_
  generalize lowRow cfg s oriv curr = high
  unfold hitPercents
  by_cases hzero : high = 0
  · rw [if_pos hzero]
    constructor
    · intro himp heq
      exact himp (by decide) (by omega)
    · intro hne _
      omega
  · rw [if_neg hzero]
    dsimp only
    constructor
    · intro himp heq
      exact himp (by omega) (by omega)
    · intro hne _
      omega

/-- `fgr_construct_vboot`, with the resistance `rac` that the gauge measures. -/
def fgrConstructVboot : AlgoProg Unit := do
  let s ← get
  let iboot := if cfg.ibootSel = 0 then cfg.fgProfile0.ponIboot else cfg.shutdownSystemIboot
  let vboot := cfg.fgProfile0.pmicMinVol + (iboot * rac).tdiv 10000
  if cfg.qmaxSel = 0 then do
    modify fun s => { s with vboot := vboot }
    fgConstructBatteryProfileByQmax s.qmaxT0maHTb1
  else if cfg.qmaxSel = 1 then do
    fgConstructBatteryProfileByVboot vboot
    let vbootC ← fgCompensateBatteryVoltageFromLow cfg cfg.fgProfile0.pmicMinVol (0 - iboot)
    modify fun s => { s with vbootC := vbootC }
    fgConstructBatteryProfileByVboot vbootC
  else pure ()
  modify fun s => if s.qmaxTAging = 9999999 ∨ s.agingFactor > 10000 then
    { s with agingFactor := 10000 } else s

/-- The current at boot. -/
def CustomData.iboot : ℤ :=
  if cfg.ibootSel = 0 then cfg.fgProfile0.ponIboot else cfg.shutdownSystemIboot

/-- The boot voltage without load. -/
def CustomData.vboot : ℤ := cfg.fgProfile0.pmicMinVol + (cfg.iboot * rac).tdiv 10000

/-- The algorithm with the capacity at the boot voltage without load. -/
def Algo.unloaded : Algo :=
  s.withCapacity (capacityAt s.profile (cfg.vboot rac))

/-- The boot voltage under load that is found with the capacity at the one without load. -/
def Algo.loadedVboot : ℤ :=
  lowVoltage cfg (s.unloaded cfg rac) cfg.fgProfile0.pmicMinVol (0 - cfg.iboot)

/-- The divisors of `fgr_construct_vboot` are not zero. -/
def VbootOk : Prop :=
  (cfg.qmaxSel = 0 → s.qmaxT0maHTb1 ≠ 0) ∧
  (cfg.qmaxSel = 1 →
    capacityAt s.profile (cfg.vboot rac) ≠ 0 ∧
    LowRowOk cfg (s.unloaded cfg rac) cfg.fgProfile0.pmicMinVol (0 - cfg.iboot) ∧
    capacityAt (s.unloaded cfg rac).profile (s.loadedVboot cfg rac) ≠ 0)
  deriving Decidable

/-- The algorithm with the aging factor within its bound. -/
def Algo.aged : Algo :=
  if s.qmaxTAging = 9999999 ∨ s.agingFactor > 10000 then { s with agingFactor := 10000 } else s

/-- The algorithm with the capacity at the boot voltage. -/
def Algo.booted : Algo :=
  if cfg.qmaxSel = 0 then ({ s with vboot := cfg.vboot rac }.withCapacity s.qmaxT0maHTb1).aged
  else if cfg.qmaxSel = 1 then
    let t := { s.unloaded cfg rac with vbootC := s.loadedVboot cfg rac }
    (t.withCapacity (capacityAt t.profile (s.loadedVboot cfg rac))).aged
  else s.aged

theorem wp_fgrConstructVboot (Q : Unit → Algo → Prop) (s : Algo) :
    wp (fgrConstructVboot cfg rac) Q s ↔ VbootOk cfg rac s ∧ Q () (s.booted cfg rac) := by
  unfold fgrConstructVboot VbootOk Algo.booted
  rw [wp_read]
  by_cases hzero : cfg.qmaxSel = 0
  · have hone : cfg.qmaxSel ≠ 1 := by omega
    rw [if_pos hzero, if_pos hzero]
    simp only [wp_bind, wp_modify, wp_fgConstructBatteryProfileByQmax]
    constructor
    · rintro ⟨hqmax, hQ⟩
      exact ⟨⟨fun _ => hqmax, fun h => absurd h hone⟩, hQ⟩
    · rintro ⟨⟨hqmax, -⟩, hQ⟩
      exact ⟨hqmax hzero, hQ⟩
  rw [if_neg hzero, if_neg hzero]
  by_cases hone : cfg.qmaxSel = 1
  · rw [if_pos hone, if_pos hone]
    simp only [wp_bind, wp_modify, wp_fgConstructBatteryProfileByVboot,
      wp_fgCompensateBatteryVoltageFromLow]
    constructor
    · rintro ⟨hunloaded, hrow, hloaded, hQ⟩
      exact ⟨⟨fun h => absurd h hzero, fun _ => ⟨hunloaded, hrow, hloaded⟩⟩, hQ⟩
    · rintro ⟨⟨-, hok⟩, hQ⟩
      obtain ⟨hunloaded, hrow, hloaded⟩ := hok hone
      exact ⟨hunloaded, hrow, hloaded, hQ⟩
  · rw [if_neg hone, if_neg hone]
    rw [wp_modify]
    exact ⟨fun hQ => ⟨⟨fun h => absurd h hzero, fun h => absurd h hone⟩, hQ⟩, fun h => h.2⟩

end Compensate

/-- `OCV_to_DOD_c`. -/
def ocvToDodC (cfg : CustomData) (ocv : ℤ) : AlgoProg ℤ := do
  let s ← get
  let p := s.profile
  let size := cfg.fgGetSaddles
  let i := firstRow (fun row => decide ((row.voltage : ℤ) ≤ ocv)) p size 0
  if i = 0 then pure (p 0).percentage
  else if i ≥ size then pure (p (size - 1)).percentage
  else interpolation (p (i - 1)).voltage (p (i - 1)).percentage (p i).voltage (p i).percentage ocv

/-- The depth of discharge at an open circuit voltage. -/
def dodAt (cfg : CustomData) (p : Profile) (ocv : ℤ) : ℤ :=
  let size := cfg.fgGetSaddles
  let i := firstRow (fun row => decide ((row.voltage : ℤ) ≤ ocv)) p size 0
  if i = 0 then (p 0).percentage
  else if i ≥ size then (p (size - 1)).percentage
  else interpolated (p (i - 1)).voltage (p (i - 1)).percentage (p i).voltage (p i).percentage ocv

/-- The depth of discharge of a voltage in the table. -/
theorem wp_ocvToDodC (cfg : CustomData) (ocv : ℤ) (Q : ℤ → Algo → Prop) (s : Algo) :
    wp (ocvToDodC cfg ocv) Q s ↔ Q (dodAt cfg s.profile ocv) s := by
  obtain ⟨hle, hpass, hfail⟩ := firstRow_spec (fun row => decide ((row.voltage : ℤ) ≤ ocv))
    s.profile cfg.fgGetSaddles 0
  unfold ocvToDodC dodAt
  simp only [wp_bind, wp_get]
  generalize firstRow (fun row => decide ((row.voltage : ℤ) ≤ ocv)) s.profile cfg.fgGetSaddles 0
    = i at hle hpass hfail ⊢
  by_cases hfirst : i = 0
  · simp only [if_pos hfirst, wp_pure]
  by_cases hlast : i ≥ cfg.fgGetSaddles
  · simp only [if_neg hfirst, if_pos hlast, wp_pure]
  have hbelow := of_decide_eq_true (hpass (by omega))
  have habove := of_decide_eq_false (hfail (by omega))
  have hne : ((s.profile (i - 1)).voltage : ℤ) ≠ (s.profile i).voltage := by omega
  simp only [if_neg hfirst, if_neg hlast, wp_interpolation]
  exact and_iff_right hne

end Mt8169.Battery
