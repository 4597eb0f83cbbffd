import Mt8169.Power.Charger

/-!
# What the charging algorithm does

`select_charging_current_limit` goes through many cases, but changes little besides the limits: it
selects the voltage, tells the algorithm the limits, and once checks the charger and detects the
power of the adapter. Each part has a lemma that says what it keeps. The rest of `do_algorithm` only
drives the devices.
-/

namespace Mt8169.Power

open MachineInt Charger

variable {σ ρ : Type}

/-- Only limits on currents are changed. -/
def Charger.LimitsOnly (s s' : Charger σ) : Prop :=
  ∃ data setting recovery,
    s' = { s with data := data, setting := setting, vbusRecoveryFromUvlo := recovery } ∧
      setting.cv = s.setting.cv

theorem Charger.LimitsOnly.trans {s s' s'' : Charger σ} (h : s.LimitsOnly s')
    (h' : s'.LimitsOnly s'') : s.LimitsOnly s'' := by
  obtain ⟨_, _, _, rfl, hcv⟩ := h
  obtain ⟨data, setting, recovery, rfl, hcv'⟩ := h'
  exact ⟨data, setting, recovery, rfl, hcv'.trans hcv⟩

section Parts

variable (cfg : ChargerConfig) (r : SelectReading ρ)

theorem Charger.specialLimits_only {s s' : Charger σ} (h : s.specialLimits cfg r = some s') :
    s.LimitsOnly s' := by
  unfold specialLimits at h
  repeat' split at h
  all_goals first
    | (obtain rfl := Option.some.inj h; exact ⟨_, _, _, rfl, rfl⟩)
    | cases h

variable (s : Charger σ)

theorem Charger.typeLimits_eq : ∃ data, (s.typeLimits cfg r).2 = { s with data := data } := by
  unfold typeLimits
  dsimp only
  repeat' split
  all_goals exact ⟨_, rfl⟩

theorem Charger.basicLimits_eq : ∃ data, s.basicLimits cfg r = { s with data := data } := by
  unfold basicLimits
  dsimp only
  repeat' split
  all_goals exact ⟨_, rfl⟩

theorem Charger.aiclLimits_only (isBasic : Bool) (s : Charger σ) :
    s.LimitsOnly (s.aiclLimits isBasic) := by
  unfold aiclLimits
  repeat' split
  all_goals exact ⟨_, _, _, rfl, rfl⟩

theorem Charger.limitCharging_only (limit : ℤ) (s : Charger σ) :
    s.LimitsOnly (s.limitCharging limit) := by
  unfold limitCharging
  repeat' split
  all_goals exact ⟨_, _, _, rfl, rfl⟩

theorem Charger.thermalLimits_only : s.LimitsOnly (s.thermalLimits cfg r) := by
  have hjeita : s.LimitsOnly (s.jeitaLimits cfg) := by
    unfold jeitaLimits
    repeat' split
    all_goals first
      | exact s.limitCharging_only _
      | exact ⟨_, _, _, rfl, rfl⟩
  have hinput (s : Charger σ) (limit : ℤ) : s.LimitsOnly (s.limitInput limit) := by
    unfold limitInput
    repeat' split
    all_goals exact ⟨_, _, _, rfl, rfl⟩
  have hsecond (s : Charger σ) : s.LimitsOnly (s.limitSecond r) := by
    unfold limitSecond
    dsimp only
    repeat' split
    all_goals exact ⟨_, _, _, rfl, rfl⟩
  exact ((hjeita.trans (limitCharging_only _ _)).trans (hinput _ _)).trans (hsecond _)

theorem Charger.finalLimits_only (isBasic : Bool) (s : Charger σ) :
    s.LimitsOnly ((s.forceLimits r).minLimits r isBasic).2 := ⟨_, _, _, rfl, rfl⟩

end Parts

section Checks

variable (cfg : ChargerConfig) (alg : ChgAlg σ ρ) (r : SelectReading ρ) (s : Charger σ)

/-- `check_invalid_charger` finds a weak charger. -/
def foundWeak : Bool :=
  (r.indpmSupported && r.vdpm) || decide (r.vbusMv * 1000 < cfg.invchgCheckMivrUv)

/-- The verdict after `check_invalid_charger`. -/
def InvalidDet.check (d : InvalidDet) : InvalidDet :=
  if d.done then d else ⟨true, d.weak || foundWeak cfg r⟩

/-- The registers after `check_invalid_charger`. -/
def Registers.checkInvalid (done : Bool) (regs : Registers) : Registers :=
  if done then regs else regs.probe cfg.invchgCheck

theorem Charger.checkInvalidCharger_eq :
    s.checkInvalidCharger cfg r = { s with
      invalidDet := s.invalidDet.check cfg r
      regs := s.regs.checkInvalid cfg s.invalidDet.done } := by
  unfold checkInvalidCharger InvalidDet.check Registers.checkInvalid
  split
  · rfl
  · simp only [foundWeak, Bool.or_assoc]
    rfl

/-- `adapter_power_detection` programs the charger. -/
def detects (chrType : ChrType) (iusb : ℤ) : Bool :=
  cfg.powerDetectionEn && decide (iusb = 0) && r.tcpcFound &&
    decide (r.detectionRpCurr ≠ 3000 ∧ r.detectionRpCurr ≠ 1500 ∧ chrType = .usbDcp)

/-- The registers after `adapter_power_detection`. -/
def Registers.detectAdapter (chrType : ChrType) (iusb : ℤ) (regs : Registers) : Registers :=
  if detects cfg r chrType iusb then regs.detect cfg.batteryCv.new cfg.aiclTrigger else regs

theorem Charger.adapterPowerDetection_eq :
    ∃ data iusb, s.adapterPowerDetection cfg r = { s with
      data := data
      detectionIusb := iusb
      regs := s.regs.detectAdapter cfg r s.chrType s.detectionIusb } := by
  unfold adapterPowerDetection Registers.detectAdapter
  dsimp only
  by_cases hdetects : detects cfg r s.chrType s.detectionIusb = true
  · rw [if_pos hdetects]
    simp only [detects, Bool.and_eq_true, decide_eq_true_eq] at hdetects
    obtain ⟨⟨⟨hen, hiusb⟩, htcpc⟩, hrp, hrp', htype⟩ := hdetects
    rw [if_neg (by simp [hen]), if_neg (· hiusb), if_neg (by simp [htcpc]), if_neg hrp,
      if_neg hrp', if_neg (· htype)]
    repeat' split
    all_goals exact ⟨_, _, rfl⟩
  · rw [if_neg hdetects]
    iterate 6
      split
      · first
          | exact ⟨_, _, rfl⟩
          | split <;> exact ⟨_, _, rfl⟩
    exact absurd (by simp_all [detects]) hdetects

/-- The algorithm after `support_fast_charging`. -/
def algAfterSelect (setting : LimitSetting) (a : σ) : σ :=
  (alg.isAlgoReady r.algReady (alg.setCurrentLimit setting a)).2

/-- What the selection does besides the limits. -/
def Charger.Selects (s : Charger σ) (det : InvalidDet) (regs : Registers) (a : σ)
    (s' : Charger σ) : Prop :=
  ∃ iusb, { s with invalidDet := det, regs := regs, alg := a, detectionIusb := iusb }.LimitsOnly s'

/-- What the selection for a wired charger changes. -/
theorem Charger.wiredLimits_selects :
    s.Selects (s.invalidDet.check cfg r)
      ((s.regs.checkInvalid cfg s.invalidDet.done).detectAdapter cfg r s.chrType s.detectionIusb)
      (algAfterSelect alg r s.setting s.alg) (s.wiredLimits cfg alg r).2 := by
  unfold wiredLimits
  dsimp only
  generalize hs1 : (if (s.supportFastCharging alg r).1 then (s.supportFastCharging alg r).2
    else (s.supportFastCharging alg r).2.basicLimits cfg r) = s1
  obtain ⟨data, rfl⟩ : ∃ data, s1 =
      { s with data := data, alg := algAfterSelect alg r s.setting s.alg } := by
    rw [← hs1]
    split
    · exact ⟨_, rfl⟩
    · exact basicLimits_eq cfg r _
  rw [checkInvalidCharger_eq]
  obtain ⟨data', iusb, hdetect⟩ := adapterPowerDetection_eq cfg r _
  rw [hdetect]
  exact ⟨iusb, LimitsOnly.trans ⟨_, _, _, rfl, rfl⟩ (aiclLimits_only _ _)⟩

end Checks

section Selection

variable (cfg : ChargerConfig) (alg : ChgAlg σ ρ) (r : SelectReading ρ)

/-- One of the special cases of `select_charging_current_limit`. -/
def isSpecial (chrType : ChrType) : Bool :=
  r.usbUnlimited || r.waterDetected || decide (r.bootmode = 1 ∨ r.bootmode = 5) ||
    (r.atmEnabled && decide (chrType = .usb ∨ chrType = .usbCdp))

theorem Charger.specialLimits_eq_none_iff (s : Charger σ) :
    s.specialLimits cfg r = none ↔ isSpecial r s.chrType = false := by
  unfold specialLimits isSpecial
  repeat' split
  all_goals simp_all

/-- A wired charger is looked at. -/
def looksAtCharger (chrType : ChrType) : Bool := !isSpecial r chrType && !r.wpcOnline

/-- The settings for the algorithm during the selection: the new voltage and the old limits. -/
def Charger.settingAtSelect (s : Charger σ) : LimitSetting :=
  { s.setting with cv := s.selectedCv cfg r.aging }

/-- What `select_charging_current_limit` does besides the limits. -/
theorem Charger.selectChargingCurrentLimit_selects (s : Charger σ) :
    if looksAtCharger r s.chrType then
      (s.selectCv cfg r.aging).Selects (s.invalidDet.check cfg r)
        ((s.regs.checkInvalid cfg s.invalidDet.done).detectAdapter cfg r s.chrType s.detectionIusb)
        (algAfterSelect alg r (s.settingAtSelect cfg r) s.alg)
        (s.selectChargingCurrentLimit cfg alg r).2
    else
      (s.selectCv cfg r.aging).Selects s.invalidDet s.regs s.alg
        (s.selectChargingCurrentLimit cfg alg r).2 := by
  have hspecial := (s.selectCv cfg r.aging).specialLimits_eq_none_iff cfg r
  unfold selectChargingCurrentLimit looksAtCharger
  dsimp only
  cases hlimits : (s.selectCv cfg r.aging).specialLimits cfg r with
  | some s' =>
    have hyes : isSpecial r s.chrType = true := by
      apply Bool.of_not_eq_false
      intro hno
      rw [hspecial.mpr hno] at hlimits
      cases hlimits
    simp only [hyes, Bool.not_true, Bool.false_and, Bool.false_eq_true, if_false]
    exact ⟨s.detectionIusb, (specialLimits_only cfg r hlimits).trans (finalLimits_only r true _)⟩
  | none =>
    have hno : isSpecial r s.chrType = false := hspecial.mp hlimits
    obtain ⟨data, htyped⟩ := (s.selectCv cfg r.aging).typeLimits_eq cfg r
    have hlast (t : Charger σ) (isBasic : Bool) :=
      (t.thermalLimits_only cfg r).trans (finalLimits_only r isBasic _)
    simp only [hno, Bool.not_false, Bool.true_and]
    cases r.wpcOnline with
    | true => exact ⟨s.detectionIusb, LimitsOnly.trans ⟨data, _, _, htyped, rfl⟩ (hlast _ _)⟩
    | false =>
      obtain ⟨iusb, hwired⟩ := wiredLimits_selects cfg alg r
        ((s.selectCv cfg r.aging).typeLimits cfg r).2
      have hselects := hwired.trans (hlast _
        (((s.selectCv cfg r.aging).typeLimits cfg r).2.wiredLimits cfg alg r).1)
      rw [htyped] at hselects ⊢
      exact ⟨iusb, hselects⟩

end Selection

/-- Only the fast charging algorithm and the registers are changed. -/
def Charger.AlgOnly (s s' : Charger σ) : Prop := ∃ a regs, s' = { s with alg := a, regs := regs }

section Choice

variable (cfg : ChargerConfig) (alg : ChgAlg σ ρ) {r : AlgorithmReading ρ} {s : Charger σ}

theorem Charger.fastAlgorithm_only (r : AlgorithmReading ρ) (s : Charger σ) :
    s.AlgOnly (s.fastAlgorithm alg r).2 := by
  unfold fastAlgorithm
  dsimp only
  repeat' split
  all_goals exact ⟨_, _, rfl⟩

/-- A fast algorithm runs only with limits that are not zero. -/
theorem Charger.limits_of_fastAlgorithm (h : (s.fastAlgorithm alg r).1 = false) :
    s.data.inputCurrentLimit ≠ 0 ∧ s.data.chargingCurrentLimit ≠ 0 := by
  unfold fastAlgorithm at h
  cases hno : s.noHighVoltage r with
  | true =>
    rw [hno, if_pos rfl] at h
    cases h
  | false =>
    unfold noHighVoltage at hno
    simp only [decide_eq_false_iff_not, not_or] at hno
    exact ⟨hno.2.2, hno.2.1⟩

theorem Charger.chooseAlgorithm_only (r : AlgorithmReading ρ) (s : Charger σ) :
    (s.selectChargingCurrentLimit cfg alg r.select).2.AlgOnly (s.chooseAlgorithm cfg alg r).2 := by
  unfold chooseAlgorithm stopHighVoltage
  dsimp only
  repeat' split
  · exact ⟨_, _, rfl⟩
  · exact ⟨_, _, rfl⟩
  · exact fastAlgorithm_only alg r _

theorem Charger.chooseAlgorithm_selects (r : AlgorithmReading ρ) (s : Charger σ) :
    ∃ det regs a,
      (s.selectCv cfg r.select.aging).Selects det regs a (s.chooseAlgorithm cfg alg r).2 := by
  have hselects := s.selectChargingCurrentLimit_selects cfg alg r.select
  obtain ⟨a, regs, heq⟩ := s.chooseAlgorithm_only cfg alg r
  rw [heq]
  split at hselects
  all_goals
    obtain ⟨iusb, data, setting, recovery, heq, hcv⟩ := hselects
    rw [heq]
    exact ⟨_, regs, a, iusb, data, setting, recovery, rfl, hcv⟩

/-- The choice of one leaves limits that are not zero. -/
theorem Charger.limits_of_chooseAlgorithm (h : (s.chooseAlgorithm cfg alg r).1 = false) :
    (s.chooseAlgorithm cfg alg r).2.data.inputCurrentLimit ≠ 0 ∧
      (s.chooseAlgorithm cfg alg r).2.data.chargingCurrentLimit ≠ 0 := by
  unfold chooseAlgorithm at h ⊢
  dsimp only at h ⊢
  split at h
  · cases h
  · rename_i hselected
    have hlimits := limits_of_fastAlgorithm alg h
    obtain ⟨_, _, heq⟩ := fastAlgorithm_only alg r (s.selectChargingCurrentLimit cfg alg r.select).2
    rw [if_neg hselected, heq]
    exact hlimits

theorem Charger.doAlgorithm_basic (h : (s.chooseAlgorithm cfg alg r).1 = true) :
    s.doAlgorithm cfg alg r =
      { (s.chooseAlgorithm cfg alg r).2 with isChgDone := r.chgDone }.programBasic := by
  unfold doAlgorithm
  dsimp only
  rw [if_pos h]

theorem Charger.doAlgorithm_fast (h : (s.chooseAlgorithm cfg alg r).1 = false) :
    s.doAlgorithm cfg alg r =
      { (s.chooseAlgorithm cfg alg r).2 with isChgDone := r.chgDone } := by
  unfold doAlgorithm
  dsimp only
  rw [if_neg (by rw [h]; exact Bool.false_ne_true)]

end Choice

section Status

variable (cfg : ChargerConfig)

theorem Charger.checkTemp_eq (temp : ℤ) (aging : ℕ) (s : Charger σ) :
    ∃ swJeita batTemp, (s.checkTemp cfg temp aging).2 =
      { s with swJeita := swJeita, batTemp := batTemp } := by
  unfold checkTemp
  split <;> exact ⟨_, _, rfl⟩

theorem Charger.checkVbus_eq (r : StatusReading ρ) (s : Charger σ) :
    ∃ vbusState recovery, (s.checkVbus cfg r).2 =
      { s with vbusState := vbusState, vbusRecoveryFromUvlo := recovery } := by
  unfold checkVbus
  split <;> exact ⟨_, _, rfl⟩

theorem Charger.decideCharging_eq (temp : ℤ) (r : StatusReading ρ) (s : Charger σ) :
    ∃ swJeita batTemp vbusState recovery, (s.decideCharging cfg temp r).2 = { s with
      swJeita := swJeita, batTemp := batTemp, vbusState := vbusState
      vbusRecoveryFromUvlo := recovery } := by
  obtain ⟨swJeita, batTemp, htemp⟩ := s.checkTemp_eq cfg temp r.aging
  obtain ⟨vbusState, recovery, hvbus⟩ := (s.checkTemp cfg temp r.aging).2.checkVbus_eq cfg r
  rw [htemp] at hvbus
  unfold decideCharging
  dsimp only
  rw [htemp, hvbus]
  repeat' split
  all_goals exact ⟨_, _, _, _, rfl⟩

theorem Charger.topOffMode_eq (r : PassReading ρ) (s : Charger σ) :
    ∃ cv, s.topOffMode cfg r = { s with customChargingCv := cv } := by
  unfold topOffMode
  repeat' split
  all_goals exact ⟨_, rfl⟩

end Status

end Mt8169.Power
