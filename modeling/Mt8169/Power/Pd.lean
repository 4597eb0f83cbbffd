import Mt8169.Lib.MachineInt
import Mt8169.Power.ChargerClass

/-!
# The power delivery algorithm

The algorithm reads the capability table of a power delivery adapter, requests one of its profiles
and programs the primary charger for it. It keeps indices into the table: of the profile in use, the
one to reset to, and the next ones upwards and downwards. The definitions follow `mtk_pd.c`.
-/

namespace Mt8169.Power

open MachineInt

/-- A profile of a capability table. -/
structure PdProfile where
  minMv : ℤ
  maxMv : ℤ
  ma : ℤ
  maxwatt : ℤ
  deriving DecidableEq, Repr

/-- `struct pd_power_cap`. Only the first `nr` profiles belong to the table. -/
structure PdPowerCap where
  selectedCapIdx : ℕ
  nr : ℕ
  profile : ℤ → PdProfile

/-- `PD_CAP_MAX_NR`. -/
def pdCapMaxNr : ℤ := 10

/-- `PD_FAIL_CURRENT`. -/
def pdFailCurrent : ℤ := 500000

/-- `PD_VBUS_IR_DROP_THRESHOLD`. -/
def pdVbusIrDropThreshold : ℕ := 1200

/-- `enum pd_state_enum`. -/
inductive PdState where
  | hwUninit | hwFail | hwReady | taNotSupport | run | tuning | postcc
  deriving DecidableEq, Repr

/-- The states in which the algorithm charges. -/
def PdState.running : PdState → Bool
  | .run | .tuning | .postcc => true
  | _ => false

/-- The device tree settings of the algorithm. -/
structure PdConfig where
  /-- Two chargers in series. -/
  dualChargers : Bool
  vbusL : ℤ
  vbusH : ℤ
  vsysWatt : ℤ
  ibusErr : ℤ
  slaveMivrDiff : ℤ
  pdStopBatterySoc : ℤ
  scInputCurrent : ℤ
  scChargerCurrent : ℤ
  dcsInputCurrent : ℤ
  dcsChg1ChargerCurrent : ℤ
  dcsChg2ChargerCurrent : ℤ

/-- The settings of one charger without a device tree. -/
def defaultPdConfig : PdConfig where
  dualChargers := false
  vbusL := 5000
  vbusH := 10000
  vsysWatt := 5000000
  ibusErr := 14
  slaveMivrDiff := 100000
  pdStopBatterySoc := 80
  scInputCurrent := 3000000
  scChargerCurrent := 3000000
  dcsInputCurrent := 3200000
  dcsChg1ChargerCurrent := 1500000
  dcsChg2ChargerCurrent := 1500000

/-- A profile that was requested from the adapter, with the size of the table at that time. -/
structure PdRequest where
  idx : ℤ
  nr : ℕ
  deriving DecidableEq, Repr

/-- `struct mtk_pd`, with the requests that were made. -/
structure MtkPd where
  state : PdState
  cv : ℕ
  inputCurrentLimit1 : ℤ
  inputCurrentLimit2 : ℤ
  chargingCurrentLimit1 : ℤ
  chargingCurrentLimit2 : ℤ
  inputCurrent1 : ℤ
  chargingCurrent1 : ℤ
  chargingCurrent2 : ℤ
  cap : PdPowerCap
  pdIdx : ℤ
  pdResetIdx : ℤ
  pdBoostIdx : ℤ
  pdBuckIdx : ℤ
  requests : List PdRequest

/-- What `pd_hal_is_pd_adapter_ready` answers. -/
inductive AdapterType where
  | ready | notSupport | checking
  deriving DecidableEq, Repr

/-- A reading of the adapter: whether it is ready, and its table. -/
structure AdapterReading where
  type : AdapterType
  cap : PdPowerCap

/-- What is read while a profile is set up. Voltages of `MIVR` are in microvolts. -/
structure SetupReading where
  mivr1 : ℕ
  /-- The second chip is enabled. -/
  chip2Enabled : Bool
  mivr2 : ℕ
  /-- `pd_hal_set_adapter_cap` returns zero. -/
  capAccepted : Bool

/-- What is read while the algorithm runs. -/
structure PdReading where
  /-- The adapter before the algorithm starts to run. -/
  adapter : AdapterType
  uisoc : ℤ
  table : AdapterReading
  ibus : Option ℤ
  mivrState1 : Bool
  mivr1 : ℕ
  chip2Enabled : Bool
  mivrState2 : Bool
  mivr2 : ℕ
  vbus : ℤ
  /-- The table when the profile is reset. -/
  resetTable : AdapterReading
  resetSetup : SetupReading
  setup : SetupReading
  minChargingCurrent1 : Option ℤ
  minInputCurrent1 : Option ℤ
  minChargingCurrent2 : Option ℤ
  /-- The second charger is enabled, and its current. -/
  charger2Enabled : Bool
  ichg2 : ℤ

/-- The algorithm and the registers of the primary charger. -/
structure PdBus where
  pd : MtkPd
  regs : Registers

/-- The chargers that the algorithm programs. -/
inductive ChgIdx where
  | chg1 | chg2
  deriving DecidableEq, Repr

/-- `pd_hal_set_input_current`. The primary charger is programmed in any case, and a second time if
it is the one that is meant. -/
def Registers.pdHalSetInputCurrent (chg : ChgIdx) (uA : ℤ) (r : Registers) : Registers :=
  let r := r.setInputCurrent uA
  if chg = .chg1 then r.setInputCurrent uA else r

variable (chg : ChgIdx) (uA : ℤ) (r : Registers) {p : ChargerCmd → Prop}

/-- `pd_hal_set_charging_current`, in the same way. -/
def Registers.pdHalSetChargingCurrent : Registers :=
  let r := r.setChargingCurrent uA
  if chg = .chg1 then r.setChargingCurrent uA else r

@[simp]
theorem Registers.all_pdHalSetInputCurrent :
    (r.pdHalSetInputCurrent chg uA).All p ↔ r.All p ∧ p (.inputCurrent (u32 uA)) := by
  unfold pdHalSetInputCurrent
  dsimp only
  split <;> simp

@[simp]
theorem Registers.all_pdHalSetChargingCurrent :
    (r.pdHalSetChargingCurrent chg uA).All p ↔ r.All p ∧ p (.chargingCurrent (u32 uA)) := by
  unfold pdHalSetChargingCurrent
  dsimp only
  split <;> simp

section Table

variable (cfg : PdConfig)

/-- The table after the adapter was read. The index -1 is kept in eight bits. -/
def PdPowerCap.read (r : AdapterReading) (cap : PdPowerCap) : PdPowerCap :=
  if r.type = .ready then r.cap else { cap with nr := 0, selectedCapIdx := 255 }

/-- `__mtk_pdc_init_table`. -/
def MtkPd.initTable (r : AdapterReading) (pd : MtkPd) : MtkPd :=
  { pd with cap := pd.cap.read r }

variable (cap : PdPowerCap) (selected : ℤ)

/-- The last profile of the table whose voltage is the lower bound. -/
def resetIdxOf : ℤ :=
  (List.range cap.nr).foldl (fun (idx : ℤ) (i : ℕ) =>
    if (cap.profile i).minMv < cfg.vbusL ∨ (cap.profile i).maxMv < cfg.vbusL ∨
      (cap.profile i).minMv > cfg.vbusL ∨ (cap.profile i).maxMv > cfg.vbusL then idx
    else i) 0

/-- The index to reset to is looked up once. -/
def resetIdx (idx : ℤ) : ℤ := if idx = -1 then resetIdxOf cfg cap else idx

/-- `__mtk_pdc_get_reset_idx`. -/
def MtkPd.getResetIdx (pd : MtkPd) : MtkPd :=
  { pd with pdResetIdx := resetIdx cfg pd.cap pd.pdResetIdx }

/-- The voltages of a profile are within the bounds. -/
def PdProfile.inBounds (p : PdProfile) : Bool :=
  decide (cfg.vbusL ≤ p.minMv ∧ cfg.vbusL ≤ p.maxMv ∧ p.minMv ≤ cfg.vbusH ∧ p.maxMv ≤ cfg.vbusH)

/-- The loops of `__mtk_pdc_get_idx`. `better` compares the powers of two profiles. -/
def nextIdx (better : ℤ → ℤ → Bool) (cap : PdPowerCap) (selected : ℤ) : ℤ :=
  (List.range cap.nr).foldl (fun (idx : ℤ) (i : ℕ) =>
    if (cap.profile i).inBounds cfg then
      if idx = selected then
        if better (cap.profile i).maxwatt (cap.profile idx).maxwatt then i else idx
      else if better (cap.profile idx).maxwatt (cap.profile i).maxwatt ∧
          better (cap.profile i).maxwatt (cap.profile selected).maxwatt then i
      else idx
    else idx) selected

/-- The next profile upwards. -/
def boostIdxOf : ℤ :=
  nextIdx cfg (fun a b => decide (a > b)) cap selected

/-- The next profile downwards. -/
def buckIdxOf : ℤ :=
  nextIdx cfg (fun a b => decide (a < b)) cap selected

/-- `__mtk_pdc_get_idx`. -/
def MtkPd.getIdx (pd : MtkPd) : MtkPd :=
  if selected < 0 then { pd with pdBoostIdx := 0, pdBuckIdx := 0 }
  else { pd with
    pdBoostIdx := boostIdxOf cfg pd.cap selected
    pdBuckIdx := buckIdxOf cfg pd.cap selected }

end Table

section Profiles

variable (cfg : PdConfig)

variable (r : SetupReading) (cap : PdPowerCap)

/-- The profile that is in use is set up again because a charger works far below its voltage. The
subtractions are unsigned. -/
def forceUpdate (p : PdProfile) : Bool :=
  decide (u32 (p.maxMv - (r.mivr1 / 1000 : ℕ)) > pdVbusIrDropThreshold) ||
    (cfg.dualChargers && r.chip2Enabled &&
      decide (u32 (p.maxMv - (r.mivr2 / 1000 : ℕ)) >
        u32 ((pdVbusIrDropThreshold : ℤ) - cfg.slaveMivrDiff.tdiv 1000)))

/-- `pd_hal_set_adapter_cap`, as far as the algorithm is concerned. -/
def MtkPd.addRequest (q : PdRequest) (pd : MtkPd) : MtkPd :=
  { pd with requests := pd.requests ++ [q] }

/-- The part of `__mtk_pdc_setup` that requests a profile. The input current is lowered before the
request, and raised after it. -/
def PdBus.request (idx : ℤ) (b : PdBus) : PdBus :=
  let p := b.pd.cap.profile idx
  let oldmA := u32 b.regs.inputCurrent / 1000
  let regs :=
    if oldmA > u32 p.ma then b.regs.pdHalSetInputCurrent .chg1 (p.ma * 1000) else b.regs
  let regs :=
    if r.capAccepted then
      if oldmA < u32 p.ma then regs.pdHalSetInputCurrent .chg1 (p.ma * 1000) else regs
    else if oldmA > u32 p.ma then regs.pdHalSetInputCurrent .chg1 (oldmA * 1000) else regs
  { pd := (b.pd.addRequest ⟨idx, b.pd.cap.nr⟩).getIdx cfg idx, regs }

/-- A profile is requested when it is not the one in use, or when an update is forced. -/
def asks (pdIdx idx : ℤ) : Bool :=
  decide (pdIdx ≠ idx) || forceUpdate cfg r (cap.profile idx)

/-- `__mtk_pdc_setup`. -/
def PdBus.setup (idx : ℤ) (b : PdBus) : PdBus :=
  let b := if asks cfg r b.pd.cap b.pd.pdIdx idx then b.request cfg r idx else b
  { b with pd := { b.pd with pdIdx := idx } }

/-- `mtk_pdc_reset`. -/
def PdBus.pdcReset (table : AdapterReading) (r : SetupReading) (b : PdBus) : PdBus :=
  let pd := (b.pd.initTable table).getResetIdx cfg
  { b with pd }.setup cfg r pd.pdResetIdx

/-- A charger is in its input voltage loop and far below its voltage. The comparisons are
unsigned. -/
def vbusDropped (r : PdReading) : Bool :=
  (r.mivrState1 && decide (u32 r.vbus < u32 ((r.mivr1 / 1000 : ℕ) - 500))) ||
    (cfg.dualChargers && r.chip2Enabled && r.mivrState2 &&
      decide (u32 r.vbus < u32 ((r.mivr2 / 1000 : ℕ) - 500)))

/-- The profile that the adapter says is in use. -/
def PdPowerCap.selectedIdx : ℤ :=
  if (cap.selectedCapIdx : ℤ) ≥ pdCapMaxNr then 0 else cap.selectedCapIdx

/-- The power that is drawn, from the profile in use. The powers are unsigned. -/
def PdPowerCap.nowMaxWatt (ibus : ℤ) : ℕ :=
  let ibus := if ibus.tdiv 1000 = 0 then 1000 else ibus.tdiv 1000
  u32 ((cap.profile cap.selectedIdx).maxMv * ibus)

/-- The profile in use is drawn in full, or a charger is in its input voltage loop. -/
def boosts (r : PdReading) (ibus : ℤ) (cap : PdPowerCap) : Bool :=
  let p := cap.profile cap.selectedIdx
  let pdMaxWatt := u32 (p.maxMv * (p.ma.tdiv 100 * (100 - cfg.ibusErr) - 100))
  decide (cap.nowMaxWatt ibus ≥ pdMaxWatt) || r.mivrState1 ||
    (cfg.dualChargers && r.chip2Enabled && r.mivrState2)

/-- The next profile downwards is enough. -/
def bucks (ibus : ℤ) (cap : PdPowerCap) (buckIdx : ℤ) : Bool :=
  let p := cap.profile buckIdx
  let pdMinWatt := u32 ((p.maxMv * p.ma).tdiv 100 * (100 - cfg.ibusErr) - cfg.vsysWatt)
  let pdMinWatt := if pdMinWatt ≤ 5000000 then 5000000 else pdMinWatt
  decide (cap.nowMaxWatt ibus ≤ pdMinWatt)

/-- The next profile. -/
def MtkPd.newIdx (r : PdReading) (ibus : ℤ) (pd : MtkPd) : ℤ :=
  if boosts cfg r ibus pd.cap then pd.pdBoostIdx
  else if bucks cfg ibus pd.cap pd.pdBuckIdx then pd.pdBuckIdx
  else pd.cap.selectedIdx

/-- `__mtk_pdc_get_setting`: the new profile, if there is one. -/
def PdBus.getSetting (r : PdReading) (b : PdBus) : Option ℤ × PdBus :=
  let pd := (b.pd.initTable r.table).getResetIdx cfg
  let b := { b with pd }
  if pd.cap.nr = 0 then (none, b)
  else match r.ibus with
    | none => (none, b)
    | some ibus =>
      if vbusDropped cfg r then
        let b := b.pdcReset cfg r.resetTable r.resetSetup
        (some b.pd.pdResetIdx, b)
      else (some (pd.newIdx cfg r ibus), b)

end Profiles

section Charging

variable (cfg : PdConfig)

/-- A current that is below the least one that a charger supports is zero. -/
def atLeastMin (min : Option ℤ) (limit current : ℤ) : ℤ :=
  match min with
  | some least => if limit < least then 0 else current
  | none => current

/-- A current with a limit on it. -/
def limitedCurrent (min : Option ℤ) (limit own : ℤ) : ℤ :=
  if limit ≠ -1 ∧ limit < own then atLeastMin min limit limit else own

variable (r : PdReading) (b : PdBus)

/-- Program the primary charger. -/
def PdBus.program : PdBus :=
  { b with regs := ((b.regs.pdHalSetChargingCurrent .chg1
    b.pd.chargingCurrent1).pdHalSetInputCurrent .chg1
    b.pd.inputCurrent1).setConstantVoltage b.pd.cv }

/-- Program the second charger. The primary charger is programmed with the same currents first. -/
def PdBus.programSecond : PdBus :=
  { b with regs := (b.regs.pdHalSetInputCurrent .chg2
    b.pd.chargingCurrent2).pdHalSetChargingCurrent .chg2 b.pd.chargingCurrent2 }

/-- `pd_sc_set_charger`. A limit on the charging current that is not below the own current leaves
the current as it was. -/
def PdBus.scSetCharger : PdBus :=
  let pd := b.pd
  if pd.inputCurrentLimit1 = 0 ∨ pd.chargingCurrentLimit1 = 0 then b
  else
    let chargingCurrent1 :=
      if pd.chargingCurrentLimit1 ≠ -1 then
        let current :=
          if pd.chargingCurrentLimit1 < cfg.scChargerCurrent then pd.chargingCurrentLimit1
          else pd.chargingCurrent1
        atLeastMin r.minChargingCurrent1 pd.chargingCurrentLimit1 current
      else cfg.scChargerCurrent
    let inputCurrent1 := limitedCurrent r.minInputCurrent1 pd.inputCurrentLimit1 cfg.scInputCurrent
    let b := { b with pd := { pd with chargingCurrent1, inputCurrent1 } }
    if inputCurrent1 = 0 ∨ chargingCurrent1 = 0 then b else b.program

/-- `pd_dcs_set_charger`, as far as the primary charger is concerned. -/
def PdBus.dcsSetCharger : PdBus :=
  let pd := b.pd
  if pd.inputCurrentLimit1 = 0 ∨ pd.chargingCurrentLimit1 = 0 ∨ pd.chargingCurrentLimit2 = 0 then b
  else
    let inputCurrent1 := limitedCurrent r.minInputCurrent1 pd.inputCurrentLimit1 cfg.dcsInputCurrent
    let chargingCurrent1 :=
      limitedCurrent r.minChargingCurrent1 pd.chargingCurrentLimit1 cfg.dcsChg1ChargerCurrent
    let own := if pd.state = .run then cfg.dcsChg2ChargerCurrent else pd.chargingCurrent2
    let chargingCurrent2 := limitedCurrent r.minChargingCurrent2 pd.chargingCurrentLimit2 own
    let b := { b with pd := { pd with inputCurrent1, chargingCurrent1, chargingCurrent2 } }
    if inputCurrent1 = 0 ∨ chargingCurrent1 = 0 ∨ chargingCurrent2 = 0 then b
    else match pd.state with
      | .run => b.programSecond.program
      | .tuning | .postcc => b.program
      | _ => b

/-- The input current is limited to that of a profile. -/
def MtkPd.limitInput (idx : ℤ) (pd : MtkPd) : MtkPd :=
  let cur := s32 ((pd.cap.profile idx).ma * 1000)
  { pd with
    inputCurrentLimit1 :=
      if pd.inputCurrentLimit1 ≠ -1 ∧ pd.inputCurrentLimit1 < cur then pd.inputCurrentLimit1
      else cur }

/-- The limits without a profile. -/
def MtkPd.failLimits (pd : MtkPd) : MtkPd :=
  { pd with inputCurrentLimit1 := pdFailCurrent, chargingCurrentLimit1 := pdFailCurrent }

/-- The part of `__pd_run` that sets the profile up. -/
def PdBus.applySetting : Option ℤ × PdBus → PdBus
  | (some idx, b) =>
    if idx ≠ -1 then { b with pd := b.pd.limitInput idx }.setup cfg r.setup idx
    else { b with pd := b.pd.failLimits }
  | (none, b) => { b with pd := b.pd.failLimits }

/-- `pd_sc_set_charger` or `pd_dcs_set_charger`. -/
def PdBus.setCharger : PdBus :=
  if cfg.dualChargers then b.dcsSetCharger cfg r else b.scSetCharger cfg r

/-- `__pd_run`. -/
def PdBus.pdRun : PdBus :=
  (PdBus.applySetting cfg r (b.getSetting cfg r)).setCharger cfg r

/-- No limit is set, and the battery is not nearly full. -/
def MtkPd.unlimited (uisoc : ℤ) (pd : MtkPd) : Bool :=
  decide (pd.inputCurrentLimit1 = -1 ∧ pd.chargingCurrentLimit1 = -1 ∧
    pd.inputCurrentLimit2 = -1 ∧ pd.chargingCurrentLimit2 = -1 ∧ uisoc < cfg.pdStopBatterySoc)

/-- The state with another step of the algorithm. -/
def MtkPd.withState (state : PdState) (pd : MtkPd) : MtkPd := { pd with state }

/-- `_pd_start_algo`. -/
def PdBus.startAlgo : PdBus :=
  match b.pd.state with
  | .hwUninit | .hwFail | .taNotSupport => b
  | .hwReady =>
    match r.adapter with
    | .notSupport => { b with pd := b.pd.withState .taNotSupport }
    | .checking => b
    | .ready =>
      if b.pd.unlimited cfg r.uisoc then { b with pd := b.pd.withState .run }.pdRun cfg r else b
  | .run | .tuning | .postcc => b.pdRun cfg r

/-- `_pd_stop_algo`. -/
def PdBus.stopAlgo : PdBus :=
  if b.pd.state.running then
    let b := b.pdcReset cfg r.resetTable r.resetSetup
    let regs := ((b.regs.pdHalSetChargingCurrent .chg1 pdFailCurrent).pdHalSetInputCurrent .chg1
      pdFailCurrent).setConstantVoltage b.pd.cv
    { pd := b.pd.withState .hwReady, regs }
  else b

/-- `_pd_is_algo_ready`. -/
def MtkPd.isAlgoReady (pd : MtkPd) : AlgState × MtkPd :=
  match pd.state with
  | .hwUninit | .hwFail => (.initFail, pd)
  | .hwReady =>
    match r.adapter with
    | .ready => (if pd.unlimited cfg r.uisoc then .ready else .notReady, pd)
    | .notSupport => (.taNotSupport, pd.withState .taNotSupport)
    | .checking => (.taChecking, pd)
  | .taNotSupport => (.taNotSupport, pd)
  | .run | .tuning | .postcc => (.running, pd)

/-- The second charger is tuned down. -/
def PdBus.tuneSecond (ichg2 : ℤ) (b : PdBus) : PdBus :=
  let chargingCurrent2 :=
    if b.pd.chargingCurrent2 ≥ 500000 then s32 (ichg2 - 500000) else b.pd.chargingCurrent2
  { pd := { b.pd with state := .tuning, chargingCurrent2 }
    regs := b.regs.pdHalSetChargingCurrent .chg2 chargingCurrent2 }

/-- `pd_full_evt`. -/
def PdBus.fullEvt : PdBus :=
  if b.pd.state.running then
    if cfg.dualChargers then
      if r.charger2Enabled = false ∨ r.chip2Enabled = false then
        { b with pd := b.pd.withState .hwReady }
      else if s32 (r.ichg2 - 500000) ≤ r.minChargingCurrent2.getD 100000 then
        { b with pd := b.pd.withState .postcc }
      else b.tuneSecond r.ichg2
    else if b.pd.state = .run then { b with pd := b.pd.withState .hwReady }
    else b
  else b

/-- `pd_plugout_reset`. The indices are only reset while the algorithm charges. -/
def MtkPd.plugoutReset (pd : MtkPd) : MtkPd :=
  if pd.state.running then
    { pd with state := .hwReady, pdIdx := -1, pdResetIdx := -1, pdBoostIdx := 0, pdBuckIdx := 0 }
  else if pd.state = .taNotSupport then pd.withState .hwReady
  else pd

/-- `_pd_set_setting`. -/
def MtkPd.setSetting (setting : LimitSetting) (pd : MtkPd) : MtkPd :=
  { pd with
    cv := setting.cv
    inputCurrentLimit1 := setting.inputCurrentLimit1
    chargingCurrentLimit1 := setting.chargingCurrentLimit1
    inputCurrentLimit2 := setting.inputCurrentLimit2
    chargingCurrentLimit2 := setting.chargingCurrentLimit2 }

/-- `_pd_notifier_call`. -/
def PdBus.notifierCall (event : AlgEvent) (r : PdReading) (b : PdBus) : PdBus :=
  match event with
  | .plugOut => { b with pd := b.pd.plugoutReset }
  | .full => b.fullEvt cfg r
  | .plugIn | .recharge => b

/-- `pd_alg_ops`. -/
def pdAlg : ChgAlg MtkPd PdReading where
  setCurrentLimit := MtkPd.setSetting
  isAlgoReady := MtkPd.isAlgoReady cfg
  isAlgoRunning := fun pd => pd.state.running
  maxVbus := 10000
  startAlgo := fun r b => let b := PdBus.startAlgo cfg r ⟨b.1, b.2⟩; (b.pd, b.regs)
  stopAlgo := fun r b => let b := PdBus.stopAlgo cfg r ⟨b.1, b.2⟩; (b.pd, b.regs)
  notifierCall := fun event r b =>
    let b := PdBus.notifierCall cfg event r ⟨b.1, b.2⟩; (b.pd, b.regs)

end Charging

section Kept

variable {cfg : PdConfig} {T : PdPowerCap → Prop} {I : PdBus → Prop} {b : PdBus} {r : PdReading}

/-- Two states of the algorithm have the same table, voltage, charging current and limits. -/
structure MtkPd.SameCharge (pd pd' : MtkPd) : Prop where
  cap : pd'.cap = pd.cap
  cv : pd'.cv = pd.cv
  chargingCurrent1 : pd'.chargingCurrent1 = pd.chargingCurrent1
  inputLimit1 : pd'.inputCurrentLimit1 = pd.inputCurrentLimit1
  chargingLimit1 : pd'.chargingCurrentLimit1 = pd.chargingCurrentLimit1
  chargingLimit2 : pd'.chargingCurrentLimit2 = pd.chargingCurrentLimit2

/-- What is kept until the charger is programmed, if the tables that are read have `T`. -/
structure PdKept (cfg : PdConfig) (T : PdPowerCap → Prop) (I : PdBus → Prop) : Prop where
  pd : ∀ {pd pd' regs}, I ⟨pd, regs⟩ → pd.SameCharge pd' → I ⟨pd', regs⟩
  read : ∀ {b} {r : AdapterReading}, I b → T r.cap → I { b with pd := b.pd.initTable r }
  request : ∀ {b} r idx, I b → I { b with regs := (b.request cfg r idx).regs }
  limit : ∀ {b} idx, I b → I { b with pd := b.pd.limitInput idx }
  fail : ∀ {b}, I b → I { b with pd := b.pd.failLimits }

section

variable (hI : PdKept cfg T I)
include hI

/-- A setup keeps the invariant. -/
theorem PdKept.setup (r : SetupReading) (idx : ℤ) (h : I b) :
    I (b.setup cfg r idx) := by
  have hsame (pd : MtkPd) : pd.SameCharge { pd.getIdx cfg idx with pdIdx := idx } := by
    unfold MtkPd.getIdx
    split <;> exact ⟨rfl, rfl, rfl, rfl, rfl, rfl⟩
  unfold PdBus.setup
  split
  · exact hI.pd (hI.request r idx h) { hsame (b.pd.addRequest ⟨idx, b.pd.cap.nr⟩) with }
  · exact hI.pd h ⟨rfl, rfl, rfl, rfl, rfl, rfl⟩

theorem PdKept.pdcReset (table : AdapterReading) (htable : T table.cap)
    (r : SetupReading) (h : I b) : I (b.pdcReset cfg table r) :=
  hI.setup r _ (hI.pd (hI.read h htable) ⟨rfl, rfl, rfl, rfl, rfl, rfl⟩)

theorem PdKept.applySetting (htable : T r.table.cap)
    (hreset : T r.resetTable.cap) (h : I b) :
    I (PdBus.applySetting cfg r (b.getSetting cfg r)) := by
  have hread : I { b with pd := (b.pd.initTable r.table).getResetIdx cfg } :=
    hI.pd (hI.read h htable) ⟨rfl, rfl, rfl, rfl, rfl, rfl⟩
  have hsetting : I (b.getSetting cfg r).2 := by
    unfold PdBus.getSetting
    dsimp only
    repeat' split
    · exact hread
    · exact hread
    · exact hI.pdcReset _ hreset _ hread
    · exact hread
  unfold PdBus.applySetting
  split
  · rename_i idx _ heq
    rw [heq] at hsetting
    split
    · exact hI.setup _ _ (hI.limit idx hsetting)
    · exact hI.fail hsetting
  · rename_i heq
    rw [heq] at hsetting
    exact hI.fail hsetting

/-- A start keeps it, and ends with the programming. -/
theorem PdKept.startAlgo {J : PdBus → Prop} (hJ : ∀ {b}, I b → J b)
    (hprogram : ∀ {b}, I b → J (b.setCharger cfg r)) (htable : T r.table.cap)
    (hreset : T r.resetTable.cap) (h : I b) : J (b.startAlgo cfg r) := by
  unfold PdBus.startAlgo PdBus.pdRun
  repeat' split
  all_goals first
    | exact hJ h
    | exact hJ (hI.pd h ⟨rfl, rfl, rfl, rfl, rfl, rfl⟩)
    | exact hprogram (hI.applySetting htable hreset h)
    | exact hprogram (hI.applySetting htable hreset (hI.pd h ⟨rfl, rfl, rfl, rfl, rfl, rfl⟩))

theorem PdKept.notifierCall (event : AlgEvent)
    (htune : cfg.dualChargers = true → I (b.tuneSecond r.ichg2)) (h : I b) :
    I (b.notifierCall cfg event r) := by
  unfold PdBus.notifierCall PdBus.fullEvt MtkPd.plugoutReset
  repeat' split
  all_goals first
    | exact h
    | exact hI.pd h ⟨rfl, rfl, rfl, rfl, rfl, rfl⟩
    | exact htune ‹_›

end

/-- `_pd_is_algo_ready` changes the state only. -/
theorem MtkPd.isAlgoReady_eq (cfg : PdConfig) (r : PdReading) (pd : MtkPd) :
    ∃ state, (pd.isAlgoReady cfg r).2 = pd.withState state ∧ state.running = pd.state.running := by
  unfold isAlgoReady
  repeat' split
  all_goals first
    | exact ⟨pd.state, rfl, rfl⟩
    | exact ⟨.taNotSupport, rfl, by simp [*, PdState.running]⟩

end Kept

/-- A profile of five or nine volts with three amperes. -/
def threeAmps (mv : ℤ) : PdProfile :=
  { minMv := mv, maxMv := mv, ma := 3000, maxwatt := mv * 3000 }

/-- An adapter with five volts only. -/
def fiveVoltCap : PdPowerCap where
  selectedCapIdx := 0
  nr := 1
  profile i := if i = 0 then threeAmps 5000 else ⟨0, 0, 0, 0⟩

/-- An adapter with five and nine volts. -/
def nineVoltCap : PdPowerCap where
  selectedCapIdx := 0
  nr := 2
  profile i := if i = 0 then threeAmps 5000 else if i = 1 then threeAmps 9000 else ⟨0, 0, 0, 0⟩

/-- The profile of an adapter is drawn in full. -/
def drawnInFull (cap : PdPowerCap) : PdReading where
  adapter := .ready
  uisoc := 50
  table := ⟨.ready, cap⟩
  ibus := some 2900000
  mivrState1 := false
  mivr1 := 4600000
  chip2Enabled := false
  mivrState2 := false
  mivr2 := 0
  vbus := 5000
  resetTable := ⟨.ready, cap⟩
  resetSetup := ⟨4600000, false, 0, true⟩
  setup := ⟨4600000, false, 0, true⟩
  minChargingCurrent1 := none
  minInputCurrent1 := none
  minChargingCurrent2 := none
  charger2Enabled := false
  ichg2 := 0

/-- The algorithm after its start. -/
def initialPd : PdBus where
  pd :=
    { state := .hwReady, cv := 4350000, inputCurrentLimit1 := -1, inputCurrentLimit2 := -1,
      chargingCurrentLimit1 := -1, chargingCurrentLimit2 := -1, inputCurrent1 := 0,
      chargingCurrent1 := 0, chargingCurrent2 := 0, cap := ⟨0, 0, fun _ => ⟨0, 0, 0, 0⟩⟩,
      pdIdx := -1, pdResetIdx := -1, pdBoostIdx := 0, pdBuckIdx := 0, requests := [] }
  regs :=
    { inputCurrent := 500000, chargingCurrent := 500000, constantVoltage := 4350000, log := [] }

end Mt8169.Power
