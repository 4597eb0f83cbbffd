import Mt8169.Lib.MachineInt
import Mt8169.Power.ChargerClass

/-!
# The charger driver

A thread of `mtk_charger.c` makes a pass from time to time: it looks whether a charger was plugged
in or out, checks whether the battery may be charged, and hands over to the charging algorithm of
`mtk_basic_charger.c`. That one selects the current limits and programs the primary charger, or lets
a fast charging algorithm do it. The definitions follow these two files. What the driver reads or is
told is given with each pass, and the fast charging algorithm is a parameter.
-/

namespace Mt8169.Power

open MachineInt

variable {σ ρ : Type}

/-- The types of `get_charger_type`. -/
inductive ChrType where
  | unknown | usb | usbCdp | usbDcp | usbFloat | wireless | wireless5w | wireless10w | other
  deriving DecidableEq, Repr

/-- `enum sw_jeita_state_enum`. -/
inductive JeitaState where
  | belowT0 | t0ToT1 | t1ToT2 | t2ToT3 | t3ToT4 | aboveT4
  deriving DecidableEq, Repr

/-- `enum bat_temp_state_enum`. -/
inductive BatTempState where
  | low | normal | high
  deriving DecidableEq, Repr

/-- The states of `mtk_chg_check_vbus`. -/
inductive VbusState where
  | normal | ovp | uvlo
  deriving DecidableEq, Repr

/-- A voltage that depends on the ageing of the battery. -/
structure AgingCv where
  new : ℕ
  aging1 : ℕ
  aging2 : ℕ

/-- The voltage for what `get_use_aging_zcv` returns. -/
def AgingCv.get (cv : AgingCv) (aging : ℕ) : ℕ :=
  if aging = 1 then cv.aging1 else if aging = 2 then cv.aging2 else cv.new

/-- The input current and the charging current for a type of charger. -/
structure CurrentPair where
  input : ℤ
  charging : ℤ

/-- The device tree settings of the driver. -/
structure ChargerConfig where
  enableSwJeita : Bool
  /-- `CONFIG_USBIF_COMPLIANCE`. -/
  usbifCompliance : Bool
  enableBatEocProtect : Bool
  enableDynamicMivr : Bool
  /-- Two chargers in series. -/
  dualChargers : Bool
  batteryCv : AgingCv
  topOffModeCv : AgingCv
  -- the temperatures of the JEITA zones, and what belongs to them
  tempT4Thres : ℤ
  tempT4ThresMinusXDegree : ℤ
  tempT3Thres : ℤ
  tempT3ThresMinusXDegree : ℤ
  tempT2Thres : ℤ
  tempT2ThresPlusXDegree : ℤ
  tempT1Thres : ℤ
  tempT1ThresPlusXDegree : ℤ
  tempT0Thres : ℤ
  tempT0ThresPlusXDegree : ℤ
  jeitaTempAboveT4Cv : AgingCv
  jeitaTempT3ToT4Cv : AgingCv
  jeitaTempT1ToT2Cv : AgingCv
  jeitaTempT0ToT1Cv : AgingCv
  jeitaTempBelowT0Cv : AgingCv
  tempT0ToT1ChargerCurrent : ℤ
  tempT3ToT4ChargerCurrent : ℤ
  -- the temperatures without JEITA zones
  enableMinChargeTemp : Bool
  minChargeTemp : ℤ
  minChargeTempPlusXDegree : ℤ
  maxChargeTemp : ℤ
  maxChargeTempMinusXDegree : ℤ
  vbusUvloVoltage : ℤ
  -- the currents of the types of chargers
  usbChargerCurrent : ℤ
  chargingHostChargerCurrent : ℤ
  acCharger : CurrentPair
  nonStdAcChargerCurrent : ℤ
  wireless5wCharger : CurrentPair
  wireless10wCharger : CurrentPair
  wirelessDefaultCharger : CurrentPair
  maxDmivrChargerCurrent : ℤ
  -- the detection of invalid chargers
  invchgCheckMivrUv : ℤ
  invchgCheck : CurrentPair
  -- the detection of the adapter power
  powerDetectionEn : Bool
  aiclTrigger : CurrentPair
  adapter12wAiclMin : ℤ
  adapter9wAiclMin : ℤ
  adapter15wIusbLim : ℤ
  adapter12wIusbLim : ℤ
  adapter9wIusbLim : ℤ
  adapter7p5wIusbLim : ℤ
  adapter5wIusbLim : ℤ

/-- The settings without a device tree, but with JEITA zones. -/
def defaultChargerConfig : ChargerConfig where
  enableSwJeita := true
  usbifCompliance := false
  enableBatEocProtect := false
  enableDynamicMivr := false
  dualChargers := false
  batteryCv := ⟨4400000, 4300000, 4000000⟩
  topOffModeCv := ⟨4200000, 4200000, 0⟩
  tempT4Thres := 50
  tempT4ThresMinusXDegree := 47
  tempT3Thres := 45
  tempT3ThresMinusXDegree := 39
  tempT2Thres := 10
  tempT2ThresPlusXDegree := 16
  tempT1Thres := 0
  tempT1ThresPlusXDegree := 6
  tempT0Thres := 0
  tempT0ThresPlusXDegree := 0
  jeitaTempAboveT4Cv := ⟨4240000, 4240000, 4240000⟩
  jeitaTempT3ToT4Cv := ⟨4240000, 4240000, 4240000⟩
  jeitaTempT1ToT2Cv := ⟨4240000, 4240000, 4240000⟩
  jeitaTempT0ToT1Cv := ⟨4040000, 4040000, 4040000⟩
  jeitaTempBelowT0Cv := ⟨4040000, 4040000, 4040000⟩
  tempT0ToT1ChargerCurrent := 350000
  tempT3ToT4ChargerCurrent := 2000000
  enableMinChargeTemp := false
  minChargeTemp := 0
  minChargeTempPlusXDegree := 6
  maxChargeTemp := 50
  maxChargeTempMinusXDegree := 47
  vbusUvloVoltage := 4300000
  usbChargerCurrent := 500000
  chargingHostChargerCurrent := 650000
  acCharger := ⟨3200000, 2050000⟩
  nonStdAcChargerCurrent := 500000
  wireless5wCharger := ⟨1000000, 1000000⟩
  wireless10wCharger := ⟨1800000, 1800000⟩
  wirelessDefaultCharger := ⟨500000, 500000⟩
  maxDmivrChargerCurrent := 1800000
  invchgCheckMivrUv := 4500000
  invchgCheck := ⟨300000, 1000000⟩
  powerDetectionEn := false
  aiclTrigger := ⟨0, 0⟩
  adapter12wAiclMin := 0
  adapter9wAiclMin := 0
  adapter15wIusbLim := 0
  adapter12wIusbLim := 0
  adapter9wIusbLim := 0
  adapter7p5wIusbLim := 0
  adapter5wIusbLim := 0

/-- `struct sw_jeita_data`. -/
structure SwJeita where
  sm : JeitaState
  charging : Bool
  cv : ℕ
  deriving DecidableEq, Repr

/-- The verdict of `check_invalid_charger`. -/
structure InvalidDet where
  done : Bool
  weak : Bool
  deriving DecidableEq, Repr

/-- The limits of `struct charger_data`, for both chargers. -/
structure ChargerData where
  inputCurrentLimit : ℤ
  chargingCurrentLimit : ℤ
  inputCurrentLimitByAicl : ℤ
  inputCurrentLimit2 : ℤ
  chargingCurrentLimit2 : ℤ
  deriving DecidableEq, Repr

/-- `struct mtk_charger`. -/
structure Charger (σ : Type) where
  chrType : ChrType
  canCharging : Bool
  safetyTimeout : Bool
  vbusovStat : Bool
  cableOutCnt : ℕ
  /-- The static variable of `bat_eoc_protect_handle_plug_state`. -/
  plugStatus : Bool
  invalidDet : InvalidDet
  swJeita : SwJeita
  batTemp : BatTempState
  vbusState : VbusState
  vbusRecoveryFromUvlo : Bool
  /-- The voltage of the top off mode, `none` for -1. -/
  customChargingCv : Option ℕ
  isChgDone : Bool
  /-- The input current for the detected adapter, 0 before the detection. -/
  detectionIusb : ℤ
  data : ChargerData
  setting : LimitSetting
  /-- The last `charger_dev_enable` of the primary charger. -/
  enabled : Bool
  /-- The registers of the primary charger, with the commands of the current pass. -/
  regs : Registers
  /-- The fast charging algorithm. -/
  alg : σ

/-- The driver after `mtk_charger_probe`, with a charger that is enabled. -/
def initialCharger (alg : σ) : Charger σ where
  chrType := .unknown
  canCharging := false
  safetyTimeout := false
  vbusovStat := false
  cableOutCnt := 0
  plugStatus := false
  invalidDet := ⟨false, false⟩
  swJeita := ⟨.t2ToT3, false, 0⟩
  batTemp := .normal
  vbusState := .normal
  vbusRecoveryFromUvlo := false
  customChargingCv := none
  isChgDone := false
  detectionIusb := 0
  data := ⟨500000, 0, -1, 500000, 0⟩
  setting := ⟨0, 0, 0, 0, 0⟩
  enabled := true
  regs := ⟨500000, 500000, 4350000, []⟩
  alg := alg

/-- What `select_charging_current_limit` reads. -/
structure SelectReading (ρ : Type) where
  aging : ℕ
  usbUnlimited : Bool
  waterDetected : Bool
  bootmode : ℕ
  atmEnabled : Bool
  thermalInputCurrentLimit : ℤ
  thermalChargingCurrentLimit : ℤ
  thermalInputPowerLimit : ℤ
  thermalInputCurrentLimit2 : ℤ
  thermalChargingCurrentLimit2 : ℤ
  forceInputCurrentLimit : ℤ
  forceChargingCurrent : ℤ
  wpcOnline : Bool
  algReady : ρ
  /-- What `charger_dev_run_aicl` stores, if it stores anything. -/
  aicl : Option ℤ
  -- the Type-C port
  tcpcFound : Bool
  remoteRpCurr : ℤ
  rpLevel : ℤ
  pdTypecOnlySnk : Bool
  -- the check for an invalid charger
  indpmSupported : Bool
  vdpm : Bool
  vbusMv : ℤ
  -- the detection of the adapter power
  detectionRpCurr : ℤ
  detectionAicl : Option ℤ
  minChargingCurrent : Option ℕ
  minInputCurrent : Option ℕ

/-- What `do_algorithm` reads. -/
structure AlgorithmReading (ρ : Type) where
  chgDone : Bool
  select : SelectReading ρ
  enableHvCharging : Bool
  stop : ρ
  notify : ρ
  algReady : ρ
  start : ρ

/-- What `charger_check_status` reads. -/
structure StatusReading (ρ : Type) where
  type : ChrType
  bcmFlag : Bool
  aging : ℕ
  wpcOnline : Bool
  vbusMv : ℤ
  maxChargerVoltage : ℤ
  batteryIdStatus : Bool
  cmdDischarging : Bool
  batEocProtect : Bool
  dpmDisableCharging : Bool
  stop : ρ

/-- What a pass reads. -/
structure PassReading (ρ : Type) where
  batteryTemp : ℤ
  type : ChrType
  plugOut : ρ
  plugIn : ρ
  /-- The answer to `check_dynamic_mivr`. -/
  mivrReady : ρ
  status : StatusReading ρ
  topOffAging : ℕ
  topOffModeEnable : Bool
  uisoc : ℤ
  disableCharger : Bool
  algorithm : AlgorithmReading ρ

/-- An operation of the fast charging algorithm that can program the primary charger. -/
def Charger.onAlg (f : σ × Registers → σ × Registers) (s : Charger σ) : Charger σ :=
  { s with alg := (f (s.alg, s.regs)).1, regs := (f (s.alg, s.regs)).2 }

/-- A command to the primary charger. -/
def Charger.onRegs (f : Registers → Registers) (s : Charger σ) : Charger σ :=
  { s with regs := f s.regs }

/-- `charger_dev_enable`. -/
def Charger.enable (en : Bool) (s : Charger σ) : Charger σ := { s with enabled := en }

section Voltage

variable (cfg : ChargerConfig)

/-- The voltage of `select_cv`. -/
def Charger.selectedCv (aging : ℕ) (s : Charger σ) : ℕ :=
  let cv :=
    if cfg.enableSwJeita = true ∧ s.swJeita.cv ≠ 0 then s.swJeita.cv else cfg.batteryCv.get aging
  match s.customChargingCv with
  | some custom => if custom < cv then custom else cv
  | none => cv

/-- `select_cv`. -/
def Charger.selectCv (aging : ℕ) (s : Charger σ) : Charger σ :=
  { s with setting := { s.setting with cv := s.selectedCv cfg aging } }

/-- The zone for a battery temperature, and whether it allows charging. A zone is left only if the
temperature is well beyond its bound. -/
def jeitaZone (temp : ℤ) (sm : JeitaState) : JeitaState × Bool :=
  if temp ≥ cfg.tempT4Thres then (.aboveT4, false)
  else if temp > cfg.tempT3Thres then
    if sm = .aboveT4 ∧ temp ≥ cfg.tempT4ThresMinusXDegree then (sm, false) else (.t3ToT4, true)
  else if temp ≥ cfg.tempT2Thres then
    if (sm = .t3ToT4 ∧ temp ≥ cfg.tempT3ThresMinusXDegree) ∨
        (sm = .t1ToT2 ∧ temp ≤ cfg.tempT2ThresPlusXDegree) then (sm, true)
    else (.t2ToT3, true)
  else if temp ≥ cfg.tempT1Thres then
    if (sm = .t0ToT1 ∨ sm = .belowT0) ∧ temp ≤ cfg.tempT1ThresPlusXDegree then
      (sm, decide (sm ≠ .belowT0))
    else (.t1ToT2, true)
  else if temp ≥ cfg.tempT0Thres then
    if sm = .belowT0 ∧ temp ≤ cfg.tempT0ThresPlusXDegree then (sm, false) else (.t0ToT1, true)
  else (.belowT0, false)

/-- The voltage of a zone. In the normal zone it is 0. -/
def jeitaCv (aging : ℕ) : JeitaState → ℕ
  | .aboveT4 => cfg.jeitaTempAboveT4Cv.get aging
  | .t3ToT4 => cfg.jeitaTempT3ToT4Cv.get aging
  | .t2ToT3 => 0
  | .t1ToT2 => cfg.jeitaTempT1ToT2Cv.get aging
  | .t0ToT1 => cfg.jeitaTempT0ToT1Cv.get aging
  | .belowT0 => cfg.jeitaTempBelowT0Cv.get aging

/-- `do_sw_jeita_state_machine`. -/
def SwJeita.step (temp : ℤ) (aging : ℕ) (j : SwJeita) : SwJeita :=
  let zone := jeitaZone cfg temp j.sm
  { sm := zone.1, charging := zone.2, cv := jeitaCv cfg aging zone.1 }

end Voltage

section Limits

variable (cfg : ChargerConfig) (alg : ChgAlg σ ρ) (r : SelectReading ρ)

/-- The limits on the currents of the primary charger. -/
def Charger.setLimits (input charging : ℤ) (s : Charger σ) : Charger σ :=
  { s with data := { s.data with
    inputCurrentLimit := input, chargingCurrentLimit := charging } }

variable (s : Charger σ)

/-- The special cases of `select_charging_current_limit`. -/
def Charger.specialLimits : Option (Charger σ) :=
  if r.usbUnlimited then some (s.setLimits cfg.acCharger.input cfg.acCharger.charging)
  else if r.waterDetected then some (s.setLimits cfg.usbChargerCurrent cfg.usbChargerCurrent)
  else if r.bootmode = 1 ∨ r.bootmode = 5 then
    some (s.setLimits 200000 s.data.chargingCurrentLimit)
  else if r.atmEnabled = true ∧ (s.chrType = .usb ∨ s.chrType = .usbCdp) then
    some (s.setLimits 100000 s.data.chargingCurrentLimit)
  else none

/-- A wireless charger is limited to an input power. -/
def wirelessInput (pair : CurrentPair) (volts : ℤ) : ℤ :=
  let iusb := (s32 (r.thermalInputPowerLimit * 1000)).tdiv volts
  if r.thermalInputPowerLimit ≠ -1 ∧ iusb < pair.input then iusb else pair.input

/-- The limits for the type of the charger. The result says whether the type is charged in the basic
way. -/
def Charger.typeLimits : Bool × Charger σ :=
  match s.chrType with
  | .usb => (true, s.setLimits cfg.usbChargerCurrent cfg.usbChargerCurrent)
  | .usbCdp => (true, s.setLimits cfg.chargingHostChargerCurrent cfg.chargingHostChargerCurrent)
  | .usbDcp =>
    let s := s.setLimits cfg.acCharger.input cfg.acCharger.charging
    (false, if cfg.dualChargers then
        { s with data := { s.data with
          inputCurrentLimit2 := cfg.acCharger.input, chargingCurrentLimit2 := 2000000 } }
      else s)
  | .usbFloat => (true, s.setLimits cfg.nonStdAcChargerCurrent cfg.nonStdAcChargerCurrent)
  | .wireless5w =>
    (false, s.setLimits (wirelessInput r cfg.wireless5wCharger 5) cfg.wireless5wCharger.charging)
  | .wireless10w =>
    (false, s.setLimits (wirelessInput r cfg.wireless10wCharger 9) cfg.wireless10wCharger.charging)
  | .wireless =>
    (false, s.setLimits (wirelessInput r cfg.wirelessDefaultCharger 5)
      cfg.wirelessDefaultCharger.charging)
  | .unknown | .other => (false, s)

/-- `support_fast_charging`. -/
def Charger.supportFastCharging : Bool × Charger σ :=
  let ready := alg.isAlgoReady r.algReady (alg.setCurrentLimit s.setting s.alg)
  (decide (ready.1 = .ready ∨ ready.1 = .running), { s with alg := ready.2 })

/-- `is_typec_adapter`. -/
def Charger.isTypecAdapter : Bool :=
  r.tcpcFound &&
    ((cfg.powerDetectionEn && decide (r.remoteRpCurr = 3000 ∨ r.remoteRpCurr = 1500)) ||
      (r.pdTypecOnlySnk && decide (r.rpLevel ≠ 500 ∧ s.chrType ≠ .usb ∧ s.chrType ≠ .usbCdp)))

/-- The currents of a Type-C adapter. -/
def typecPair : CurrentPair :=
  if r.remoteRpCurr = 3000 then ⟨3000000, cfg.acCharger.charging⟩
  else if r.remoteRpCurr = 1500 then ⟨1500000, cfg.acCharger.charging⟩
  else ⟨500000, 500000⟩

/-- The AICL result, bounded for the dynamic MIVR. -/
def ChargerData.storeAicl (result : Option ℤ) (d : ChargerData) : ChargerData :=
  { d with inputCurrentLimitByAicl := result.getD d.inputCurrentLimitByAicl }

/-- AICL and the Type-C adapter, without fast charging. -/
def Charger.basicLimits : Charger σ :=
  let data := s.data.storeAicl r.aicl
  let data :=
    if cfg.enableDynamicMivr = true ∧ data.inputCurrentLimitByAicl > cfg.maxDmivrChargerCurrent then
      { data with inputCurrentLimitByAicl := cfg.maxDmivrChargerCurrent }
    else data
  let s := { s with data }
  if s.isTypecAdapter cfg r then
    s.setLimits (min (typecPair cfg r).input s.data.inputCurrentLimit)
      (min (typecPair cfg r).charging s.data.chargingCurrentLimit)
  else s

/-- Other currents are programmed for a moment, and then the old ones again. -/
def Registers.probe (pair : CurrentPair) (r : Registers) : Registers :=
  (((r.setInputCurrent pair.input).setChargingCurrent pair.charging).setChargingCurrent
    r.chargingCurrent).setInputCurrent r.inputCurrent

/-- `check_invalid_charger`. -/
def Charger.checkInvalidCharger : Charger σ :=
  if s.invalidDet.done then s
  else
    let weak := s.invalidDet.weak || (r.indpmSupported && r.vdpm) ||
      decide (r.vbusMv * 1000 < cfg.invchgCheckMivrUv)
    { s.onRegs (Registers.probe cfg.invchgCheck) with invalidDet := ⟨true, weak⟩ }

/-- The registers in `adapter_power_detection_by_ocp`: the voltage of the battery and higher
currents, and then the old values again. -/
def Registers.detect (cv : ℕ) (pair : CurrentPair) (r : Registers) : Registers :=
  (((((r.setConstantVoltage cv).setInputCurrent pair.input).setChargingCurrent
    pair.charging).setConstantVoltage r.constantVoltage).setInputCurrent
    r.inputCurrent).setChargingCurrent r.chargingCurrent

/-- `adapter_power_detection_by_ocp`. -/
def Charger.adapterPowerDetectionByOcp : Charger σ :=
  { s.onRegs (Registers.detect cfg.batteryCv.new cfg.aiclTrigger) with
    data := s.data.storeAicl r.detectionAicl }

/-- The input current for a detected adapter. -/
def Charger.setAdapter (input iusb : ℤ) (s : Charger σ) : Charger σ :=
  { s with data := { s.data with inputCurrentLimit := input }, detectionIusb := iusb }

/-- `adapter_power_detection`. -/
def Charger.adapterPowerDetection : Charger σ :=
  if cfg.powerDetectionEn = false then s
  else if s.detectionIusb ≠ 0 then
    if r.thermalInputCurrentLimit ≠ -1 ∧ r.thermalInputCurrentLimit < s.detectionIusb then s
    else { s with data := { s.data with inputCurrentLimit := s.detectionIusb } }
  else if r.tcpcFound = false then s
  else if r.detectionRpCurr = 3000 then s.setAdapter 3000000 cfg.adapter15wIusbLim
  else if r.detectionRpCurr = 1500 then s.setAdapter 1500000 cfg.adapter7p5wIusbLim
  else if s.chrType ≠ .usbDcp then s
  else
    let s := s.adapterPowerDetectionByOcp cfg r
    let aicl := s.data.inputCurrentLimitByAicl
    if aicl < 0 then s.setAdapter cfg.adapter12wIusbLim cfg.adapter12wIusbLim
    else if aicl > cfg.adapter12wAiclMin then
      s.setAdapter cfg.adapter12wIusbLim cfg.adapter12wIusbLim
    else if aicl > cfg.adapter9wAiclMin then s.setAdapter cfg.adapter9wIusbLim cfg.adapter9wIusbLim
    else s.setAdapter cfg.adapter5wIusbLim cfg.adapter5wIusbLim

/-- The AICL result limits the input current of basic charging. -/
def Charger.aiclLimits (isBasic : Bool) (s : Charger σ) : Charger σ :=
  if isBasic = true ∧ s.data.inputCurrentLimitByAicl ≠ -1 then
    if s.vbusRecoveryFromUvlo then { s with vbusRecoveryFromUvlo := false }
    else s.setLimits (min s.data.inputCurrentLimitByAicl s.data.inputCurrentLimit)
      s.data.chargingCurrentLimit
  else s

/-- The part of `select_charging_current_limit` for a wired charger. -/
def Charger.wiredLimits : Bool × Charger σ :=
  let fast := s.supportFastCharging alg r
  let s := if fast.1 then fast.2 else fast.2.basicLimits cfg r
  let s := (s.checkInvalidCharger cfg r).adapterPowerDetection cfg r
  (!fast.1, s.aiclLimits (!fast.1))

/-- A limit on the charging current of the primary charger, which is handed to the algorithm if it
is a lower one. -/
def Charger.limitCharging (limit : ℤ) (s : Charger σ) : Charger σ :=
  if limit ≠ -1 then
    if limit < s.data.chargingCurrentLimit then
      { s with
        data := { s.data with chargingCurrentLimit := limit }
        setting := { s.setting with chargingCurrentLimit1 := limit } }
    else s
  else { s with setting := { s.setting with chargingCurrentLimit1 := -1 } }

/-- A limit on the input current of the primary charger. -/
def Charger.limitInput (limit : ℤ) (s : Charger σ) : Charger σ :=
  if limit ≠ -1 then
    if limit < s.data.inputCurrentLimit then
      { s with
        data := { s.data with inputCurrentLimit := limit }
        setting := { s.setting with inputCurrentLimit1 := limit } }
    else s
  else { s with setting := { s.setting with inputCurrentLimit1 := -1 } }

/-- The limits of the second charger. -/
def Charger.limitSecond : Charger σ :=
  let s :=
    if r.thermalChargingCurrentLimit2 ≠ -1 then
      if r.thermalChargingCurrentLimit2 < s.data.chargingCurrentLimit2 then
        { s with
          data := { s.data with chargingCurrentLimit2 := r.thermalChargingCurrentLimit2 }
          setting := { s.setting with chargingCurrentLimit2 := r.thermalChargingCurrentLimit2 } }
      else s
    else { s with setting := { s.setting with chargingCurrentLimit2 := -1 } }
  if r.thermalInputCurrentLimit2 ≠ -1 then
    if r.thermalInputCurrentLimit2 < s.data.inputCurrentLimit2 then
      { s with
        data := { s.data with inputCurrentLimit2 := r.thermalInputCurrentLimit2 }
        setting := { s.setting with inputCurrentLimit2 := r.thermalInputCurrentLimit2 } }
    else s
  else { s with setting := { s.setting with inputCurrentLimit2 := -1 } }

/-- The limit of the JEITA zone. -/
def Charger.jeitaLimits : Charger σ :=
  if cfg.enableSwJeita = true ∧ ¬(cfg.usbifCompliance = true ∧ s.chrType = .usb) then
    match s.swJeita.sm with
    | .t0ToT1 => s.limitCharging cfg.tempT0ToT1ChargerCurrent
    | .t3ToT4 => s.limitCharging cfg.tempT3ToT4ChargerCurrent
    | _ => s
  else s

/-- The limits of the JEITA zone and of the thermal drivers. -/
def Charger.thermalLimits : Charger σ :=
  (((s.jeitaLimits cfg).limitCharging r.thermalChargingCurrentLimit).limitInput
    r.thermalInputCurrentLimit).limitSecond r

/-- The limits that are forced. They are the ones that the algorithm gets. -/
def Charger.forceLimits : Charger σ :=
  { s with
    data := { s.data with
      inputCurrentLimit :=
        if r.forceInputCurrentLimit ≠ -1 then r.forceInputCurrentLimit
        else s.data.inputCurrentLimit
      chargingCurrentLimit :=
        if r.forceChargingCurrent ≠ -1 then r.forceChargingCurrent
        else s.data.chargingCurrentLimit }
    setting := { s.setting with
      inputCurrentLimit1 := r.forceInputCurrentLimit
      inputCurrentLimit2 := r.forceInputCurrentLimit
      chargingCurrentLimit1 := r.forceChargingCurrent
      chargingCurrentLimit2 := r.forceChargingCurrent } }

/-- A current below the least one that the charger supports is zero. The comparison is unsigned. -/
def belowMin (least : Option ℕ) (current : ℤ) : Bool :=
  match least with
  | some least => decide (u32 current < least)
  | none => false

/-- The last part of `select_charging_current_limit`. -/
def Charger.minLimits (isBasic : Bool) (s : Charger σ) : Bool × Charger σ :=
  let noCharging := belowMin r.minChargingCurrent s.data.chargingCurrentLimit
  let noInput := belowMin r.minInputCurrent s.data.inputCurrentLimit
  (isBasic || noCharging || noInput,
    s.setLimits (if noInput then 0 else s.data.inputCurrentLimit)
      (if noCharging then 0 else s.data.chargingCurrentLimit))

/-- `select_charging_current_limit`. The result says whether the battery is charged in the basic
way. -/
def Charger.selectChargingCurrentLimit : Bool × Charger σ :=
  let s := s.selectCv cfg r.aging
  match s.specialLimits cfg r with
  | some s => (s.forceLimits r).minLimits r true
  | none =>
    let typed := s.typeLimits cfg r
    let wired := if r.wpcOnline then typed else typed.2.wiredLimits cfg alg r
    ((wired.2.thermalLimits cfg r).forceLimits r).minLimits r wired.1

end Limits

section Charging

variable (cfg : ChargerConfig) (alg : ChgAlg σ ρ)

variable (r : AlgorithmReading ρ) (s : Charger σ)

/-- Charging with a high voltage is not wanted, or a current is zero. -/
def Charger.noHighVoltage : Bool :=
  decide (r.enableHvCharging = false ∨ s.data.chargingCurrentLimit = 0 ∨
    s.data.inputCurrentLimit = 0)

/-- The loop of `do_algorithm` with fast charging. -/
def Charger.fastAlgorithm : Bool × Charger σ :=
  if s.noHighVoltage r then
    (true, if alg.maxVbus > 5000 then s.onAlg (alg.stopAlgo r.stop) else s)
  else
    let s :=
      if r.chgDone ≠ s.isChgDone then
        s.onAlg (alg.notifierCall (if r.chgDone then .full else .recharge) r.notify)
      else s
    let ready := alg.isAlgoReady r.algReady (alg.setCurrentLimit s.setting s.alg)
    let s := { s with alg := ready.2 }
    if ready.1 = .ready ∨ ready.1 = .running then (false, s.onAlg (alg.startAlgo r.start))
    else (true, s)

/-- The loop of `do_algorithm` without fast charging. -/
def Charger.stopHighVoltage : Charger σ :=
  if s.noHighVoltage r = true ∧ alg.maxVbus > 5000 ∧ alg.isAlgoRunning s.alg = true then
    s.onAlg (alg.stopAlgo r.stop)
  else s

/-- Program the primary charger for basic charging. -/
def Charger.programBasic : Charger σ :=
  (s.onRegs fun regs => ((regs.setInputCurrent s.data.inputCurrentLimit).setChargingCurrent
    s.data.chargingCurrentLimit).setConstantVoltage s.setting.cv).enable
    (decide (s.data.inputCurrentLimit ≠ 0 ∧ s.data.chargingCurrentLimit ≠ 0))

/-- `do_algorithm` up to the programming. The result says whether basic charging is left. -/
def Charger.chooseAlgorithm : Bool × Charger σ :=
  let selected := s.selectChargingCurrentLimit cfg alg r.select
  if selected.1 then (true, selected.2.stopHighVoltage alg r) else selected.2.fastAlgorithm alg r

/-- `do_algorithm`. -/
def Charger.doAlgorithm : Charger σ :=
  let chosen := s.chooseAlgorithm cfg alg r
  let s := { chosen.2 with isChgDone := r.chgDone }
  if chosen.1 then s.programBasic else s

/-- `enable_charging`. -/
def Charger.enableCharging (stop : ρ) (en : Bool) (s : Charger σ) : Charger σ :=
  if en then s.enable true else (s.onAlg (alg.stopAlgo stop)).enable false

end Charging

section Status

variable (cfg : ChargerConfig) (alg : ChgAlg σ ρ)

variable (temp : ℤ) (r : StatusReading ρ) (s : Charger σ)

/-- `mtk_chg_check_vbus`. -/
def Charger.checkVbus : Bool × Charger σ :=
  if s.invalidDet.weak then (true, s)
  else
    let state :=
      if r.vbusMv * 1000 > r.maxChargerVoltage ∧ r.wpcOnline = false then VbusState.ovp
      else if r.vbusMv * 1000 < cfg.vbusUvloVoltage ∧ s.chrType ≠ .unknown then .uvlo
      else .normal
    (decide (state = .normal), { s with
      vbusState := state
      vbusRecoveryFromUvlo :=
        if s.vbusState ≠ state ∧ s.vbusState = .uvlo then true else s.vbusRecoveryFromUvlo })

/-- The check of the temperature without JEITA zones. -/
def batTempStep (sm : BatTempState) : BatTempState × Bool :=
  let high (sm : BatTempState) : BatTempState × Bool :=
    if temp ≥ cfg.maxChargeTemp then (.high, false)
    else if sm = .high then
      if temp < cfg.maxChargeTempMinusXDegree then (.normal, true) else (sm, false)
    else (sm, true)
  if cfg.enableMinChargeTemp then
    if temp < cfg.minChargeTemp then (.low, false)
    else if sm = .low then
      if temp ≥ cfg.minChargeTempPlusXDegree then high .normal else (sm, false)
    else high sm
  else high sm

/-- The check of the temperature. -/
def Charger.checkTemp (aging : ℕ) (s : Charger σ) : Bool × Charger σ :=
  if cfg.enableSwJeita then
    let swJeita := s.swJeita.step cfg temp aging
    (swJeita.charging, { s with swJeita })
  else
    let batTemp := batTempStep cfg temp s.batTemp
    (batTemp.2, { s with batTemp := batTemp.1 })

/-- The flags that forbid charging, without the verdict on the charger. -/
def Charger.flagsAllow : Bool :=
  !r.cmdDischarging && !s.safetyTimeout && !s.vbusovStat &&
    !(cfg.enableBatEocProtect && (r.batEocProtect || r.dpmDisableCharging))

/-- What `charger_check_status` decides. -/
def Charger.decideCharging : Bool × Charger σ :=
  if r.bcmFlag then (false, s)
  else
    let tempOk := s.checkTemp cfg temp r.aging
    if tempOk.1 = false then (false, tempOk.2)
    else
      let vbusOk := tempOk.2.checkVbus cfg r
      if vbusOk.1 = false then (false, vbusOk.2)
      else if r.batteryIdStatus = false then (false, vbusOk.2)
      else (vbusOk.2.flagsAllow cfg r && !vbusOk.2.invalidDet.weak, vbusOk.2)

/-- The voltage is programmed when charging is stopped. -/
def Charger.programCv (aging : ℕ) (s : Charger σ) : Charger σ :=
  let s := s.selectCv cfg aging
  s.onRegs (Registers.setConstantVoltage s.setting.cv)

/-- `charger_check_status`. -/
def Charger.checkStatus : Charger σ :=
  if r.type = .unknown then s
  else
    let decided := s.decideCharging cfg temp r
    let s :=
      if decided.1 ≠ decided.2.canCharging then decided.2.enableCharging alg r.stop decided.1
      else decided.2
    let s := if decided.1 = false then s.programCv cfg r.aging else s
    { s with canCharging := decided.1 }

end Status

section Pass

variable (cfg : ChargerConfig) (alg : ChgAlg σ ρ)

/-- `mtk_charger_plug_out`. -/
def Charger.plugOut (r : ρ) (s : Charger σ) : Charger σ :=
  ({ s with
    chrType := .unknown
    detectionIusb := 0
    data := { s.data with inputCurrentLimitByAicl := -1, inputCurrentLimit := 500000 } }.onAlg
      (alg.notifierCall .plugOut r)).onRegs (Registers.setInputCurrent 500000)

/-- `mtk_charger_plug_in`. -/
def Charger.plugIn (r : ρ) (type : ChrType) (s : Charger σ) : Charger σ :=
  ({ s with
    chrType := type, canCharging := true, safetyTimeout := false, vbusovStat := false }.onAlg
      (alg.notifierCall .plugIn r)).onRegs (Registers.setInputCurrent s.data.inputCurrentLimit)

variable (r : PassReading ρ) (s : Charger σ)

/-- `mtk_is_charger_on`. A charger is on if its type is known. -/
def Charger.isChargerOn : Charger σ :=
  if r.type = .unknown then
    if s.chrType ≠ .unknown then { s.plugOut alg r.plugOut with cableOutCnt := 0 } else s
  else
    let s := if s.chrType = .unknown then s.plugIn alg r.plugIn r.type
      else { s with chrType := r.type }
    if s.cableOutCnt > 0 then
      { (s.plugOut alg r.plugOut).plugIn alg r.plugIn r.type with cableOutCnt := 0 }
    else s

/-- A pass finds that a charger was plugged in. -/
def Charger.plugsIn : Bool :=
  decide (r.type ≠ .unknown ∧ (s.chrType = .unknown ∨ s.cableOutCnt > 0))

/-- `check_dynamic_mivr`, which asks the algorithm whether it is ready. -/
def Charger.checkDynamicMivr (r : ρ) (s : Charger σ) : Charger σ :=
  if cfg.enableDynamicMivr then { s with alg := (alg.isAlgoReady r s.alg).2 } else s

/-- `charger_top_off_mode`. -/
def Charger.topOffMode : Charger σ :=
  if cfg.topOffModeCv.get r.topOffAging = 0 then s
  else if r.topOffModeEnable = true ∧ r.uisoc < 100 then s
  else { s with customChargingCv :=
    if r.topOffModeEnable then some (cfg.topOffModeCv.get r.topOffAging) else none }

/-- The log starts anew with each pass. -/
def Charger.clearLog : Charger σ := s.onRegs fun regs => { regs with log := [] }

/-- The state in which the status is checked. -/
def Charger.beforeStatus : Charger σ :=
  (s.clearLog.isChargerOn alg r).checkDynamicMivr cfg alg r.mivrReady

/-- The state in which the charging algorithm is called. -/
def Charger.beforeAlgorithm : Charger σ :=
  ((s.beforeStatus cfg alg r).checkStatus cfg alg r.batteryTemp r.status).topOffMode cfg r

/-- The charging algorithm is called in a pass. -/
def Charger.charges : Bool :=
  !r.disableCharger && decide (r.type ≠ .unknown) && (s.beforeAlgorithm cfg alg r).canCharging

/-- One pass of `charger_routine_thread`. -/
def Charger.pass : Charger σ :=
  if s.charges cfg alg r then (s.beforeAlgorithm cfg alg r).doAlgorithm cfg alg r.algorithm
  else s.beforeAlgorithm cfg alg r

/-- `reset_invalid_charger_state`. -/
def Charger.resetInvalidChargerState : Charger σ :=
  { s with invalidDet := ⟨false, false⟩ }

/-- `bat_eoc_protect_handle_plug_state`. -/
def Charger.batEocProtectHandlePlugState (plugged : Bool) (s : Charger σ) : Charger σ :=
  if cfg.enableBatEocProtect = false then s
  else if s.plugStatus = plugged then s
  else { s.resetInvalidChargerState with plugStatus := plugged }

/-- What happens to the driver. -/
inductive ChargerEvent (ρ : Type) where
  | pass (r : PassReading ρ)
  /-- `mtk_charger_external_power_changed`. -/
  | powerChanged (online : Bool)
  -- `charger_dev_event`
  | eoc (r : ρ)
  | safetyTimeout
  | vbusOvp (stat : Bool)

/-- One event. -/
def Charger.step : ChargerEvent ρ → Charger σ
  | .pass r => s.pass cfg alg r
  | .powerChanged online => s.batEocProtectHandlePlugState cfg online
  | .eoc r => s.onAlg (alg.notifierCall .full r)
  | .safetyTimeout => { s with safetyTimeout := true }
  | .vbusOvp stat => { s with vbusovStat := stat }

end Pass

/-- Nothing limits the currents. -/
def ordinarySelect (p : ρ) : SelectReading ρ where
  aging := 0
  usbUnlimited := false
  waterDetected := false
  bootmode := 0
  atmEnabled := false
  thermalInputCurrentLimit := -1
  thermalChargingCurrentLimit := -1
  thermalInputPowerLimit := -1
  thermalInputCurrentLimit2 := -1
  thermalChargingCurrentLimit2 := -1
  forceInputCurrentLimit := -1
  forceChargingCurrent := -1
  wpcOnline := false
  algReady := p
  aicl := none
  tcpcFound := true
  remoteRpCurr := 0
  rpLevel := 500
  pdTypecOnlySnk := false
  indpmSupported := true
  vdpm := false
  vbusMv := 5000
  detectionRpCurr := 0
  detectionAicl := none
  minChargingCurrent := some 500000
  minInputCurrent := some 100000

/-- The battery is charged. -/
def ordinaryAlgorithm (p : ρ) : AlgorithmReading ρ where
  chgDone := false
  select := ordinarySelect p
  enableHvCharging := true
  stop := p
  notify := p
  algReady := p
  start := p

/-- The status allows charging. -/
def ordinaryStatus (type : ChrType) (p : ρ) : StatusReading ρ where
  type := type
  bcmFlag := false
  aging := 0
  wpcOnline := false
  vbusMv := 5000
  maxChargerVoltage := 6500000
  batteryIdStatus := true
  cmdDischarging := false
  batEocProtect := false
  dpmDisableCharging := false
  stop := p

/-- A pass with a charger of a given type, at a battery temperature. -/
def ordinaryPass (type : ChrType) (temp : ℤ) (p : ρ) : PassReading ρ where
  batteryTemp := temp
  type := type
  plugOut := p
  plugIn := p
  mivrReady := p
  status := ordinaryStatus type p
  topOffAging := 0
  topOffModeEnable := false
  uisoc := 50
  disableCharger := false
  algorithm := ordinaryAlgorithm p

/-- A pass with a thermal limit on the charging current. -/
def PassReading.withThermalLimit (limit : ℤ) (r : PassReading ρ) : PassReading ρ :=
  { r with algorithm := { r.algorithm with
    select := { r.algorithm.select with thermalChargingCurrentLimit := limit } } }

end Mt8169.Power
