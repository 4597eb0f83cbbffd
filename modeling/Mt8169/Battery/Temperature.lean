import Mathlib.Data.List.Chain
import Mathlib.Tactic.Ring
import Mt8169.Lib.MachineInt

/-!
# The temperature of the battery

`volttotemp` computes the resistance of the thermistor from the voltage at its tap, and
`adc_battemp` looks it up in a table of 21 points, between which it interpolates.
-/

namespace Mt8169.Battery

open MachineInt List

/-- `struct fg_temp`. -/
structure FgTemp where
  batteryTemp : ℤ
  temperatureR : ℤ

/-- A table of 21 points, from the largest resistance to the smallest. -/
structure TmpTable where
  first : FgTemp
  inner : List FgTemp
  last : FgTemp
  length_inner : inner.length = 19

/-- The points of a table. -/
def TmpTable.points (table : TmpTable) : List FgTemp := table.first :: (table.inner ++ [table.last])

/-- A division of the source, which has no result if the divisor is 0. -/
def checkedDiv (a b : ℤ) : Option ℤ := if b = 0 then none else some (a.tdiv b)

/-- The interpolation of `adc_battemp` between (`res1`, `tmp1`) and (`res2`, `tmp2`). -/
def interpolate (p q : FgTemp) (res : ℤ) : Option ℤ :=
  checkedDiv
    (s32 (((res - q.temperatureR) * p.batteryTemp + (p.temperatureR - res) * q.batteryTemp) * 10))
    (s32 (p.temperatureR - q.temperatureR))

/-- The loop of `adc_battemp` over the points of a table, with the point before them. -/
def battempLoop (res : ℤ) (p : FgTemp) : List FgTemp → Option ℤ
  | [] => interpolate p ⟨0, 0⟩ res
  | q :: table =>
    if q.temperatureR ≤ res then interpolate p q res else battempLoop res q table

/-- `adc_battemp`. -/
def adcBattemp (table : TmpTable) (res : ℤ) : Option ℤ :=
  if table.first.temperatureR ≤ res then some (-400)
  else if res ≤ table.last.temperatureR then some 600
  else battempLoop res table.first table.points

/-- The pull-up voltage of `volttotemp`. -/
def vbif28 (rbatPullUpVolt voltCali : ℤ) : Option ℤ → ℤ
  | some raw => raw + voltCali
  | none => rbatPullUpVolt

/-- `delta_v` of `volttotemp`. -/
def deltaV (vbif28 dwVolt : ℤ) : ℤ :=
  if (vbif28 - dwVolt).natAbs = 0 then 1 else (vbif28 - dwVolt).natAbs

/-- `volttotemp`. `vbif28Raw` is the measured pull-up voltage, if the gauge supports that. -/
def volttotemp (table : TmpTable) (rbatPullUpR rbatPullUpVolt voltCali : ℤ) (vbif28Raw : Option ℤ)
    (dwVolt : ℤ) : Option ℤ :=
  (checkedDiv (rbatPullUpR * dwVolt)
    (deltaV (vbif28 rbatPullUpVolt voltCali vbif28Raw) dwVolt)).bind
    fun tres => adcBattemp table (s32 tres)

/-- Two neighbouring points of a table. The interpolation between them fits an `int`: its dividend
is largest at the second point and smallest next to the first. -/
def Follows (p q : FgTemp) : Prop :=
  q.temperatureR < p.temperatureR ∧ p.batteryTemp < q.batteryTemp ∧
  -2 ^ 31 ≤ ((p.temperatureR - 1 - q.temperatureR) * p.batteryTemp + q.batteryTemp) * 10 ∧
  (p.temperatureR - q.temperatureR) * q.batteryTemp * 10 < 2 ^ 31 ∧
  p.temperatureR - q.temperatureR < 2 ^ 31
  deriving Decidable

/-- The table of a thermistor. -/
structure TmpTable.Ntc (table : TmpTable) : Prop where
  temp : ∀ p ∈ table.points, -40 ≤ p.batteryTemp ∧ p.batteryTemp ≤ 60
  points : table.points.IsChain Follows

/-- The interpolation at a distance from the first of two points. -/
def ramp (width temp step dist : ℤ) : ℤ := ((width * temp + dist * step) * 10).tdiv width

section Ramp

variable {width temp step d d' : ℤ} (hwidth : 0 < width)
include hwidth

theorem ramp_le_ramp (hstep : 0 ≤ step) (hle : d ≤ d') :
    ramp width temp step d ≤ ramp width temp step d' := by
  apply Int.tdiv_le_tdiv hwidth
  have := Int.mul_le_mul_of_nonneg_right hle hstep
  omega

theorem ramp_width : ramp width temp step width = 10 * (temp + step) := by
  rw [ramp, show (width * temp + width * step) * 10 = 10 * (temp + step) * width by ring]
  exact Int.mul_tdiv_cancel _ (by omega)

theorem ramp_bounds (temp : ℤ) (hstep : 0 ≤ step) (hd : 0 ≤ d) (hd' : d ≤ width) :
    10 * temp ≤ ramp width temp step d ∧ ramp width temp step d ≤ 10 * (temp + step) := by
  have hfirst : ramp width temp step 0 = 10 * temp := by
    rw [ramp, show (width * temp + 0 * step) * 10 = 10 * temp * width by ring]
    exact Int.mul_tdiv_cancel _ (by omega)
  rw [← hfirst, ← ramp_width hwidth]
  exact ⟨ramp_le_ramp hwidth hstep hd, ramp_le_ramp hwidth hstep hd'⟩

end Ramp

variable {p q x : FgTemp} {table : List FgTemp} {res : ℤ}

/-- The interpolation between two rows of the table is a ramp. -/
theorem interpolate_eq (h : Follows p q) (hlo : q.temperatureR ≤ res)
    (hhi : res < p.temperatureR) :
    interpolate p q res = some (ramp (p.temperatureR - q.temperatureR) p.batteryTemp
      (q.batteryTemp - p.batteryTemp) (p.temperatureR - res)) := by
  obtain ⟨hres, htemp, hlow, hhigh, hwidth⟩ := h
  obtain ⟨pTemp, pRes⟩ := p
  obtain ⟨qTemp, qRes⟩ := q
  dsimp only at *
  have hnum : ((res - qRes) * pTemp + (pRes - res) * qTemp) * 10 =
      ((pRes - qRes) * pTemp + (pRes - res) * (qTemp - pTemp)) * 10 := by ring
  have hleast : (pRes - 1 - qRes) * pTemp + qTemp =
      (pRes - qRes) * pTemp + 1 * (qTemp - pTemp) := by ring
  have hlargest : (pRes - qRes) * qTemp =
      (pRes - qRes) * pTemp + (pRes - qRes) * (qTemp - pTemp) := by ring
  have hstep : 0 ≤ qTemp - pTemp := by omega
  have hmin := Int.mul_le_mul_of_nonneg_right (by omega : 1 ≤ pRes - res) hstep
  have hmax := Int.mul_le_mul_of_nonneg_right (by omega : pRes - res ≤ pRes - qRes) hstep
  unfold interpolate checkedDiv ramp
  rw [hnum, s32_eq (by omega) hwidth, s32_eq (by omega) (by omega), if_neg (by omega)]

/-- The search over the table returns a temperature that falls with the resistance. -/
theorem battempLoop_spec (h : (p :: table).IsChain Follows) (hres : res < p.temperatureR)
    (hlast : ∃ q ∈ table, q.temperatureR ≤ res) (htemp : ∀ q ∈ table, q.batteryTemp ≤ 60) :
    ∃ t, battempLoop res p table = some t ∧ 10 * p.batteryTemp ≤ t ∧ t ≤ 600 ∧
      ∀ res', res ≤ res' → res' < p.temperatureR →
        ∃ t' ≤ t, battempLoop res' p table = some t' := by
  induction table generalizing p with
  | nil => simp at hlast
  | cons q table ih =>
    obtain ⟨hfollows, hrest⟩ := isChain_cons_cons.mp h
    have hq := htemp q mem_cons_self
    have hwidth : 0 < p.temperatureR - q.temperatureR := by have := hfollows.1; omega
    have hstep : 0 ≤ q.batteryTemp - p.batteryTemp := by have := hfollows.2.1; omega
    unfold battempLoop
    split
    · rename_i hin
      have hbounds := ramp_bounds hwidth p.batteryTemp hstep
        (by omega : 0 ≤ p.temperatureR - res) (by omega)
      refine ⟨_, interpolate_eq hfollows hin hres, hbounds.1, by omega, fun res' hle hres' => ?_⟩
      rw [if_pos (by omega), interpolate_eq hfollows (by omega) hres']
      exact ⟨_, ramp_le_ramp hwidth hstep (by omega), rfl⟩
    · rename_i hbelow
      obtain ⟨t, heq, hlo, hhi, hanti⟩ := ih hrest (by omega) (by simpa [hbelow] using hlast)
        fun x hx => htemp x (mem_cons_of_mem _ hx)
      refine ⟨t, heq, by omega, hhi, fun res' hle hres' => ?_⟩
      split
      · rename_i hin'
        have hbounds := ramp_bounds hwidth p.batteryTemp hstep
          (by omega : 0 ≤ p.temperatureR - res') (by omega)
        exact ⟨_, by omega, interpolate_eq hfollows hin' hres'⟩
      · exact hanti res' hle (by omega)

/-- At the points of a table there is nothing to interpolate. -/
theorem battempLoop_point (h : (p :: table).IsChain Follows) (hx : x ∈ table) :
    x.temperatureR < p.temperatureR ∧
      battempLoop x.temperatureR p table = some (10 * x.batteryTemp) := by
  induction table generalizing p with
  | nil => cases hx
  | cons q table ih =>
    obtain ⟨hfollows, hrest⟩ := isChain_cons_cons.mp h
    have hlt := hfollows.1
    unfold battempLoop
    rcases mem_cons.mp hx with rfl | hx
    · refine ⟨hlt, ?_⟩
      rw [if_pos (Int.le_refl _), interpolate_eq hfollows (Int.le_refl _) hlt,
        ramp_width (by omega)]
      congr 1
      omega
    · obtain ⟨hlt', heq⟩ := ih hrest hx
      rw [if_neg (by omega)]
      exact ⟨by omega, heq⟩

theorem tdiv_le_tdiv_of_le {a b d e : ℤ} (ha : 0 ≤ a) (hab : a ≤ b) (he : 0 < e) (hed : e ≤ d) :
    a.tdiv d ≤ b.tdiv e := by
  rw [Int.tdiv_eq_ediv_of_nonneg ha, Int.tdiv_eq_ediv_of_nonneg (by omega)]
  apply Int.le_ediv_of_mul_le he
  calc a / d * e ≤ a / d * d :=
        Int.mul_le_mul_of_nonneg_left hed (Int.ediv_nonneg ha (by omega))
    _ ≤ a := Int.ediv_mul_le a (by omega)
    _ ≤ b := hab

variable {tmpTable : TmpTable} (h : tmpTable.Ntc)
include h

/-- The temperature of the thermistor falls with its resistance. -/
theorem adcBattemp_antitone (res : ℤ) :
    ∃ t, adcBattemp tmpTable res = some t ∧ -400 ≤ t ∧ t ≤ 600 ∧
      ∀ res', res ≤ res' → ∃ t' ≤ t, adcBattemp tmpTable res' = some t' := by
  have hfirst := h.temp tmpTable.first mem_cons_self
  -- in the table the loop goes on behind the first point
  have hloop (res : ℤ) (hhi : ¬tmpTable.first.temperatureR ≤ res) :
      battempLoop res tmpTable.first tmpTable.points =
        battempLoop res tmpTable.first (tmpTable.inner ++ [tmpTable.last]) := if_neg hhi
  have hspec (res : ℤ) (hlo : ¬res ≤ tmpTable.last.temperatureR)
      (hhi : ¬tmpTable.first.temperatureR ≤ res) :=
    battempLoop_spec h.points (by omega : res < tmpTable.first.temperatureR)
      ⟨tmpTable.last, by simp, by omega⟩ fun q hq => (h.temp q (mem_cons_of_mem _ hq)).2
  unfold adcBattemp
  split
  · exact ⟨-400, rfl, by omega, by omega, fun res' hle => ⟨-400, by omega, if_pos (by omega)⟩⟩
  rename_i hhi
  split
  · refine ⟨600, rfl, by omega, by omega, fun res' hle => ?_⟩
    split
    · exact ⟨-400, by omega, rfl⟩
    split
    · exact ⟨600, by omega, rfl⟩
    · rename_i hhi' hlo'
      obtain ⟨t, heq, -, ht, -⟩ := hspec res' hlo' hhi'
      exact ⟨t, ht, (hloop res' hhi').trans heq⟩
  · rename_i hlo
    obtain ⟨t, heq, ht, ht', hanti⟩ := hspec res hlo hhi
    refine ⟨t, (hloop res hhi).trans heq, by omega, ht', fun res' hle => ?_⟩
    split
    · exact ⟨-400, by omega, rfl⟩
    · rename_i hhi'
      rw [if_neg (by omega), hloop res' hhi']
      exact hanti res' hle (by omega)

theorem adcBattemp_point {p : FgTemp} (hp : p ∈ tmpTable.inner) :
    adcBattemp tmpTable p.temperatureR = some (10 * p.batteryTemp) := by
  obtain ⟨hlt, heq⟩ := battempLoop_point h.points (mem_append_left _ hp)
  obtain ⟨before, after, hsplit⟩ := append_of_mem hp
  have hchain :
      ((tmpTable.first :: before) ++ p :: (after ++ [tmpTable.last])).IsChain Follows := by
    simpa [TmpTable.points, hsplit] using h.points
  have hlast := (battempLoop_point hchain.right_of_append
    (mem_append_right _ (mem_singleton_self _))).1
  rw [adcBattemp, if_neg (by omega), if_neg (by omega), TmpTable.points, battempLoop,
    if_neg (by omega), heq]

/-- The temperature falls with the resistance, and with the voltage up to the pull-up voltage. -/
theorem battemp_antitone :
    (∀ res, ∃ t, adcBattemp tmpTable res = some t ∧ -400 ≤ t ∧ t ≤ 600 ∧
      ∀ res', res ≤ res' → ∃ t' ≤ t, adcBattemp tmpTable res' = some t') ∧
    (∀ p ∈ tmpTable.inner, adcBattemp tmpTable p.temperatureR = some (10 * p.batteryTemp)) ∧
    ∀ r volt cali raw v, ∃ t, volttotemp tmpTable r volt cali raw v = some t ∧
      ∀ v', 0 ≤ r → 0 ≤ v → v ≤ v' → v' ≤ vbif28 volt cali raw →
        (r * v').tdiv (deltaV (vbif28 volt cali raw) v') < 2 ^ 31 →
        ∃ t' ≤ t, volttotemp tmpTable r volt cali raw v' = some t' := by
  refine ⟨adcBattemp_antitone h, fun p hp => adcBattemp_point h hp, fun r volt cali raw v => ?_⟩
  have hdelta (w : ℤ) : 0 < deltaV (vbif28 volt cali raw) w := by
    unfold deltaV
    split <;> omega
  have heq (w : ℤ) : volttotemp tmpTable r volt cali raw w =
      adcBattemp tmpTable (s32 ((r * w).tdiv (deltaV (vbif28 volt cali raw) w))) := by
    have hpos := hdelta w
    rw [volttotemp, checkedDiv, if_neg (by omega), Option.bind_some]
  obtain ⟨t, ht, -, -, hanti⟩ :=
    adcBattemp_antitone h (s32 ((r * v).tdiv (deltaV (vbif28 volt cali raw) v)))
  refine ⟨t, (heq v).trans ht, fun v' hr hv hle hmax hfit => ?_⟩
  rw [heq v']
  apply hanti
  have hmono := tdiv_le_tdiv_of_le (Int.mul_nonneg hr hv) (Int.mul_le_mul_of_nonneg_left hle hr)
    (hdelta v') (d := deltaV (vbif28 volt cali raw) v) (by unfold deltaV; split <;> split <;> omega)
  have hpos := Int.tdiv_nonneg (Int.mul_nonneg hr hv) (Int.le_of_lt (hdelta v))
  rw [s32_eq (by omega) (by omega), s32_eq (by omega) hfit]
  exact hmono

omit h

/-- `fg_temp_table_ntc_10`. -/
def fgTempTableNtc10 : TmpTable where
  first := ⟨-40, 195652⟩
  inner := [⟨-35, 148171⟩, ⟨-30, 113347⟩, ⟨-25, 87559⟩, ⟨-20, 68237⟩, ⟨-15, 53650⟩, ⟨-10, 42506⟩,
    ⟨-5, 33892⟩, ⟨0, 27219⟩, ⟨5, 22021⟩, ⟨10, 17926⟩, ⟨15, 14674⟩, ⟨20, 12081⟩, ⟨25, 10000⟩,
    ⟨30, 8315⟩, ⟨35, 6948⟩, ⟨40, 5834⟩, ⟨45, 4917⟩, ⟨50, 4161⟩, ⟨55, 3535⟩]
  last := ⟨60, 3014⟩
  length_inner := rfl

/-- A thermistor of ten kilohms at 25 degrees. -/
theorem battemp_antitone_ntc10 :
    fgTempTableNtc10.Ntc ∧ adcBattemp fgTempTableNtc10 10000 = some 250 :=
  have h : fgTempTableNtc10.Ntc := ⟨by decide, by decide⟩
  ⟨h, (battemp_antitone h).2.1 ⟨25, 10000⟩ (by simp [fgTempTableNtc10])⟩

/-- Above the pull-up voltage the temperature rises again. -/
theorem not_battemp_monotone :
    ¬((∀ v v' t t', v ≤ v' → volttotemp fgTempTableNtc10 24000 1800 0 none v = some t →
        volttotemp fgTempTableNtc10 24000 1800 0 none v' = some t' → t' ≤ t) ∨
      ∀ v v' t t', v ≤ v' → volttotemp fgTempTableNtc10 24000 1800 0 none v = some t →
        volttotemp fgTempTableNtc10 24000 1800 0 none v' = some t' → t ≤ t') := by
  rintro (h | h)
  · exact absurd (h 1800 18000 (-400) 5 (by decide) (by decide) (by decide)) (by decide)
  · exact absurd (h 0 1800 600 (-400) (by decide) (by decide) (by decide)) (by decide)

end Mt8169.Battery
