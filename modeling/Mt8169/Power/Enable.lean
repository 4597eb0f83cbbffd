import Mt8169.Lib.Runs
import Mt8169.Power.Selection
import Mt8169.Power.Pd

/-!
# The primary charger is enabled

Charging is switched with `charger_dev_enable`: in the status check when the battery may begin or
has to stop charging, and in basic charging by the limits. Fast charging never does it. Here it is
said when the charger is enabled after a pass exactly if both limits are not zero.
-/

namespace Mt8169.Power

open Runs Charger

variable {σ ρ : Type}

section Algorithm

variable (cfg : ChargerConfig) (alg : ChgAlg σ ρ)

/-- The charger is enabled as it should be, unless a fast algorithm finds it disabled. -/
theorem Charger.doAlgorithm_enabled_iff (r : AlgorithmReading ρ) (s : Charger σ) :
    ((s.doAlgorithm cfg alg r).enabled = true ↔
      (s.doAlgorithm cfg alg r).data.inputCurrentLimit ≠ 0 ∧
        (s.doAlgorithm cfg alg r).data.chargingCurrentLimit ≠ 0) ↔
    ((s.chooseAlgorithm cfg alg r).1 = false → s.enabled = true) := by
  have henabled : (s.chooseAlgorithm cfg alg r).2.enabled = s.enabled := by
    obtain ⟨_, _, _, _, _, _, _, heq, -⟩ := s.chooseAlgorithm_selects cfg alg r
    rw [heq]
    rfl
  cases hchosen : (s.chooseAlgorithm cfg alg r).1 with
  | true =>
    rw [doAlgorithm_basic cfg alg hchosen]
    simp [programBasic, enable, onRegs]
  | false =>
    have hlimits := limits_of_chooseAlgorithm cfg alg hchosen
    rw [doAlgorithm_fast cfg alg hchosen]
    simp [henabled, hlimits]

end Algorithm

section Status

variable (cfg : ChargerConfig) (alg : ChgAlg σ ρ)

theorem Charger.beforeStatus_canCharging (r : PassReading ρ) (s : Charger σ) :
    (s.beforeStatus cfg alg r).canCharging = (s.plugsIn r || s.canCharging) ∧
      (s.beforeStatus cfg alg r).enabled = s.enabled := by
  unfold beforeStatus checkDynamicMivr isChargerOn plugsIn
  by_cases htype : r.type = .unknown
  · rw [if_pos htype]
    repeat' split
    all_goals simp [htype, clearLog, onRegs, plugOut, onAlg]
  · rw [if_neg htype]
    by_cases hold : s.chrType = .unknown
    · have hold' : s.clearLog.chrType = .unknown := hold
      dsimp only
      rw [if_pos hold']
      repeat' split
      all_goals simp [htype, hold, plugIn, onRegs, onAlg, clearLog, plugOut]
    · have hold' : ¬s.clearLog.chrType = .unknown := hold
      dsimp only
      rw [if_neg hold']
      by_cases hcable : s.cableOutCnt > 0
      · have hcable' : s.clearLog.cableOutCnt > 0 := hcable
        rw [if_pos hcable']
        split <;> simp [htype, hcable, plugIn, onRegs, onAlg, clearLog, plugOut]
      · have hcable' : ¬s.clearLog.cableOutCnt > 0 := hcable
        rw [if_neg hcable']
        have hzero : s.cableOutCnt = 0 := by omega
        split <;> simp [hold, hzero, onRegs, clearLog]

theorem Charger.checkStatus_enabled {temp : ℤ} {r : StatusReading ρ} {s : Charger σ}
    (h : (s.checkStatus cfg alg temp r).canCharging = true) :
    (s.checkStatus cfg alg temp r).enabled = (s.enabled || !s.canCharging) := by
  obtain ⟨_, _, _, _, heq⟩ := s.decideCharging_eq cfg temp r
  unfold checkStatus at h ⊢
  by_cases htype : r.type = .unknown
  · rw [if_pos htype] at h ⊢
    simp [h]
  · rw [if_neg htype] at h ⊢
    dsimp only at h ⊢
    rw [h, heq]
    cases hcan : s.canCharging with
    | true => simp
    | false => simp [enableCharging, enable]

theorem Charger.beforeAlgorithm_enabled {r : PassReading ρ} {s : Charger σ}
    (h : (s.beforeAlgorithm cfg alg r).canCharging = true) :
    (s.beforeAlgorithm cfg alg r).enabled = true ↔
      s.enabled = true ∨ (s.canCharging = false ∧ s.plugsIn r = false) := by
  obtain ⟨hcan, henabled⟩ := s.beforeStatus_canCharging cfg alg r
  unfold beforeAlgorithm at h ⊢
  obtain ⟨_, htop⟩ := topOffMode_eq cfg r
    ((s.beforeStatus cfg alg r).checkStatus cfg alg r.batteryTemp r.status)
  rw [htop] at h ⊢
  rw [checkStatus_enabled cfg alg h, hcan, henabled]
  cases s.enabled <;> cases s.canCharging <;> cases s.plugsIn r <;> simp

end Status

section Runs

variable (cfg : ChargerConfig) (alg : ChgAlg σ ρ)

/-- A pass leaves basic charging to a fast charging algorithm. -/
def Charger.takesFastPath (r : PassReading ρ) (s : Charger σ) : Bool :=
  s.charges cfg alg r && !((s.beforeAlgorithm cfg alg r).chooseAlgorithm cfg alg r.algorithm).1

/-- At the end of a pass that charges, the charger is enabled exactly if both limits are not
zero. -/
def EnableGood (s : Charger σ) : ChargerEvent ρ → Prop
  | .pass r => s.charges cfg alg r = true →
      ((s.pass cfg alg r).enabled = true ↔
        (s.pass cfg alg r).data.inputCurrentLimit ≠ 0 ∧
          (s.pass cfg alg r).data.chargingCurrentLimit ≠ 0)
  | _ => True

/-- The condition on an event: if a pass takes the fast path, the charger was enabled before it, or
charging was not allowed before it and no charger was plugged in since. -/
def EnableOk (s : Charger σ) : ChargerEvent ρ → Prop
  | .pass r => s.takesFastPath cfg alg r = true →
      s.enabled = true ∨ (s.canCharging = false ∧ s.plugsIn r = false)
  | _ => True

/-- A step enables as it should exactly under its condition. -/
theorem enableGood_iff (s : Charger σ) (e : ChargerEvent ρ) :
    EnableGood cfg alg s e ↔ EnableOk cfg alg s e := by
  cases e with
  | pass r =>
    unfold EnableGood EnableOk takesFastPath Charger.pass
    by_cases hcharges : s.charges cfg alg r = true
    · have hcan : (s.beforeAlgorithm cfg alg r).canCharging = true := by
        unfold charges at hcharges
        rw [Bool.and_eq_true] at hcharges
        exact hcharges.2
      simp only [hcharges, if_true, true_imp_iff, Bool.true_and, Bool.not_eq_true']
      rw [doAlgorithm_enabled_iff, beforeAlgorithm_enabled cfg alg hcan]
    · simp [hcharges]
  | powerChanged online | eoc r | safetyTimeout | vbusOvp stat => exact Iff.rfl

/-- In every run of the driver, the charger is enabled at the end of each pass that charges exactly
if both limits are not zero, precisely when every pass that takes the fast path finds the charger
enabled, or charging not allowed and no new charger. -/
theorem enableGood_iff_runOk (init : Charger σ) (es : List (ChargerEvent ρ)) :
    (∀ pre e post, es = pre ++ e :: post →
      EnableGood cfg alg (pre.foldl (Charger.step cfg alg) init) e) ↔
      RunOk (Charger.step cfg alg) (EnableOk cfg alg) init es := by
  rw [← runOk_iff_forall_split]
  exact runOk_congr (fun _ => True) (fun s e _ => enableGood_iff cfg alg s e)
    (fun _ _ _ _ => trivial) trivial es

end Runs

/-- A wall charger, while the thermal drivers allow no current, and then without a limit. -/
def thermalStop : List (ChargerEvent PdReading) :=
  [.pass ((ordinaryPass .usbDcp 25 (drawnInFull fiveVoltCap)).withThermalLimit 0),
    .pass (ordinaryPass .usbDcp 25 (drawnInFull fiveVoltCap))]

/-- The thermal drivers stop charging and then allow it. The next pass takes the fast path, and the
charger stays disabled. -/
theorem not_enableGood_thermalStop :
    ¬∀ pre e post, thermalStop = pre ++ e :: post →
      EnableGood defaultChargerConfig (pdAlg defaultPdConfig)
        (pre.foldl (Charger.step defaultChargerConfig (pdAlg defaultPdConfig))
          (initialCharger initialPd.pd)) e := by
  intro hall
  have hlast := hall (thermalStop.take 1) _ [] rfl
  have hcharges : Charger.charges defaultChargerConfig (pdAlg defaultPdConfig)
      (ordinaryPass .usbDcp 25 (drawnInFull fiveVoltCap))
      ((thermalStop.take 1).foldl (Charger.step defaultChargerConfig (pdAlg defaultPdConfig))
        (initialCharger initialPd.pd)) = true := by
    decide +kernel
  have hdiffers : (thermalStop.foldl (Charger.step defaultChargerConfig (pdAlg defaultPdConfig))
      (initialCharger initialPd.pd)).enabled = false ∧
      (thermalStop.foldl (Charger.step defaultChargerConfig (pdAlg defaultPdConfig))
        (initialCharger initialPd.pd)).data.inputCurrentLimit ≠ 0 ∧
      (thermalStop.foldl (Charger.step defaultChargerConfig (pdAlg defaultPdConfig))
        (initialCharger initialPd.pd)).data.chargingCurrentLimit ≠ 0 := by
    decide +kernel
  have henabled := (hlast hcharges).mpr hdiffers.2
  exact Bool.false_ne_true (hdiffers.1.symm.trans henabled)

end Mt8169.Power
