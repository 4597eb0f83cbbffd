import Mathlib.Tactic.SplitIfs
import Mt8169.Lib.Runs
import Mt8169.Power.Selection
import Mt8169.Power.Pd

/-!
# The currents of a pass

The thermal drivers and the JEITA zone bound the currents of the primary charger. `do_algorithm`
programs them for basic charging, for the check of the charger, for the detection of the adapter's
power, and through the power delivery algorithm. Basic charging takes its currents from
`select_charging_current_limit`, which has the bounds in them. The others have their own: the limits
that the algorithm is given are overwritten by the forced ones, which are mostly none. A negative
current is a large one in the registers.
-/

namespace Mt8169.Power

open MachineInt Runs

/-- Upper bounds on the currents of the primary charger. -/
structure CurrentBounds where
  charging : List ℤ
  input : List ℤ
  deriving DecidableEq

namespace CurrentBounds

variable (b : CurrentBounds)

/-- A charging current is within the bounds. -/
def Charging (uA : ℤ) : Prop := ∀ bound ∈ b.charging, uA ≤ bound
  deriving Decidable

/-- An input current is within the bounds. -/
def Input (uA : ℤ) : Prop := ∀ bound ∈ b.input, uA ≤ bound
  deriving Decidable

variable {b} {uA : ℤ}

theorem Input.of_le {uA uA' : ℤ} (h : b.Input uA') (hle : uA ≤ uA') : b.Input uA := by
  intro bound hmem
  exact Int.le_trans hle (h bound hmem)

/-- A current within bounds stays there when it is programmed, unless it is negative. -/
theorem programmed_le {bounds : List ℤ} (h : ∀ bound ∈ bounds, uA ≤ bound)
    (hnonneg : bounds ≠ [] → 0 ≤ uA) : ∀ bound ∈ bounds, (u32 uA : ℤ) ≤ bound := by
  intro bound hmem
  exact Int.le_trans (u32_le (hnonneg (List.ne_nil_of_mem hmem))) (h bound hmem)

variable (b)

/-- A command programs no current above the bounds. -/
def Allows : ChargerCmd → Prop
  | .chargingCurrent uA => b.Charging uA
  | .inputCurrent uA => b.Input uA
  | .constantVoltage _ => True

@[simp]
theorem allows_chargingCurrent : b.Allows (.chargingCurrent uA) ↔ b.Charging uA := Iff.rfl

@[simp]
theorem allows_inputCurrent : b.Allows (.inputCurrent uA) ↔ b.Input uA := Iff.rfl

@[simp]
theorem allows_constantVoltage {uV : ℕ} : b.Allows (.constantVoltage uV) := trivial

/-- Both currents of a pair are within the bounds when they are programmed. -/
def Pair (pair : CurrentPair) : Prop :=
  b.Input (u32 pair.input) ∧ b.Charging (u32 pair.charging)
  deriving Decidable

/-- Both currents of the registers are within the bounds when they are programmed again. -/
def Regs (regs : Registers) : Prop :=
  b.Input (u32 regs.inputCurrent) ∧ b.Charging (u32 regs.chargingCurrent)
  deriving Decidable

end CurrentBounds

variable {uA : ℤ} {cfg : ChargerConfig} {sm : JeitaState}

/-- The bound of a limit. The limit -1 is none. -/
def boundOf (limit : ℤ) : List ℤ := if limit = -1 then [] else [limit]

theorem forall_mem_boundOf {limit : ℤ} :
    (∀ bound ∈ boundOf limit, uA ≤ bound) ↔ (limit ≠ -1 → uA ≤ limit) := by
  unfold boundOf
  split <;> simp_all

/-- The limit of a JEITA zone on the charging current. -/
def zoneLimit (cfg : ChargerConfig) : JeitaState → ℤ
  | .t0ToT1 => cfg.tempT0ToT1ChargerCurrent
  | .t3ToT4 => cfg.tempT3ToT4ChargerCurrent
  | _ => -1

/-- The bounds of the thermal drivers and of a JEITA zone. -/
def boundsOf {ρ : Type} (cfg : ChargerConfig) (r : SelectReading ρ) (sm : JeitaState) :
    CurrentBounds where
  charging := boundOf r.thermalChargingCurrentLimit ++ boundOf (zoneLimit cfg sm)
  input := boundOf r.thermalInputCurrentLimit

theorem boundsOf_charging {ρ : Type} {r : SelectReading ρ} :
    (boundsOf cfg r sm).Charging uA ↔
      (r.thermalChargingCurrentLimit ≠ -1 → uA ≤ r.thermalChargingCurrentLimit) ∧
        (zoneLimit cfg sm ≠ -1 → uA ≤ zoneLimit cfg sm) := by
  rw [← forall_mem_boundOf, ← forall_mem_boundOf, ← List.forall_mem_append]
  rfl

theorem boundsOf_input {ρ : Type} {r : SelectReading ρ} :
    (boundsOf cfg r sm).Input uA ↔
      (r.thermalInputCurrentLimit ≠ -1 → uA ≤ r.thermalInputCurrentLimit) :=
  forall_mem_boundOf

/-- The commands so far are within the bounds, and the input current that the algorithm may go back
to is. The algorithm reads it as an unsigned number. -/
structure CurrentBounds.Bus (b : CurrentBounds) (regs : Registers) : Prop where
  log : regs.All b.Allows
  input : b.Input (u32 regs.inputCurrent)

/-- The current of each profile is within the bounds. -/
def CurrentBounds.Table (b : CurrentBounds) (cap : PdPowerCap) : Prop :=
  ∀ idx, b.Input (u32 ((cap.profile idx).ma * 1000))

/-- The own currents of the algorithm are within the bounds. With one charger, it may go back to a
charging current that it had before. -/
def CurrentBounds.Own (b : CurrentBounds) (cfg : PdConfig) (pd : MtkPd) : Prop :=
  if cfg.dualChargers then
    b.Input (u32 cfg.dcsInputCurrent) ∧ b.Charging (u32 cfg.dcsChg1ChargerCurrent) ∧
      b.Input (u32 cfg.dcsChg2ChargerCurrent) ∧ b.Charging (u32 cfg.dcsChg2ChargerCurrent)
  else
    b.Input (u32 cfg.scInputCurrent) ∧ b.Charging (u32 cfg.scChargerCurrent) ∧
      b.Charging (u32 pd.chargingCurrent1)

/-- The limits that the algorithm has are none, or within the bounds. It sets no limit for the
second charger. -/
structure CurrentBounds.Limits (b : CurrentBounds) (pd : MtkPd) : Prop where
  input1 : pd.inputCurrentLimit1 = -1 ∨ b.Input (u32 pd.inputCurrentLimit1)
  charging1 : pd.chargingCurrentLimit1 = -1 ∨ b.Charging (u32 pd.chargingCurrentLimit1)
  charging2 : pd.chargingCurrentLimit2 = -1

/-- The current that the algorithm programs without a profile is within the bounds. -/
def CurrentBounds.Fail (b : CurrentBounds) : Prop :=
  b.Input (u32 pdFailCurrent) ∧ b.Charging (u32 pdFailCurrent)
  deriving Decidable

section Pd

variable (cfg : PdConfig) {b : CurrentBounds} {p : PdBus} {r : PdReading} {regs : Registers}
  {least : Option ℤ}

theorem CurrentBounds.Bus.setInput (h : b.Bus regs) (hin : b.Input (u32 uA)) :
    b.Bus (regs.pdHalSetInputCurrent .chg1 uA) where
  log := (Registers.all_pdHalSetInputCurrent .chg1 uA regs).mpr ⟨h.log, hin⟩
  input := by
    change b.Input (u32 (u32 uA))
    rw [u32_u32]
    exact hin

/-- A current in whole milliamperes is programmed as it is. -/
theorem u32_milliamps (z : ℤ) :
    u32 ((u32 z / 1000 : ℕ) * 1000) = u32 z / 1000 * 1000 :=
  u32_natCast (Nat.lt_of_le_of_lt (Nat.div_mul_le_self _ _) (u32_lt z))

theorem CurrentBounds.Bus.oldCurrent (h : b.Bus regs) :
    b.Input (u32 ((u32 regs.inputCurrent / 1000 : ℕ) * 1000)) := by
  rw [u32_milliamps]
  exact h.input.of_le (Int.ofNat_le.mpr (Nat.div_mul_le_self _ _))

/-- What the algorithm keeps while it sets a profile up. -/
structure CurrentBounds.Pd (b : CurrentBounds) (cfg : PdConfig) (p : PdBus) : Prop where
  bus : b.Bus p.regs
  table : b.Table p.pd.cap
  own : b.Own cfg p.pd

theorem CurrentBounds.Own.congr {pd pd' : MtkPd} (h : b.Own cfg pd)
    (hcurrent : pd'.chargingCurrent1 = pd.chargingCurrent1) : b.Own cfg pd' := by
  unfold CurrentBounds.Own at h ⊢
  rw [hcurrent]
  exact h

/-- A request keeps the input current in bounds. -/
theorem PdBus.request_bus (r : SetupReading) (idx : ℤ) (h : b.Bus p.regs)
    (htable : b.Table p.pd.cap) : b.Bus (p.request cfg r idx).regs := by
  have hma := htable idx
  have hlow := h.setInput hma
  unfold request
  dsimp only
  repeat' split
  all_goals first
    | exact h
    | exact hlow
    | exact hlow.setInput hma
    | exact hlow.setInput h.oldCurrent

theorem CurrentBounds.Table.read {cap : PdPowerCap} (h : b.Table cap) {r : AdapterReading}
    (hr : b.Table r.cap) : b.Table (cap.read r) := by
  unfold PdPowerCap.read
  split
  · exact hr
  · exact h

/-- The parts of an algorithm call keep the state within the bounds. -/
theorem keptPd : PdKept cfg b.Table (b.Pd cfg) where
  pd h hsame := ⟨h.bus, hsame.cap ▸ h.table, h.own.congr cfg hsame.chargingCurrent1⟩
  read h hr := ⟨h.bus, h.table.read hr, h.own⟩
  request r idx h := ⟨PdBus.request_bus cfg r idx h.bus h.table, h.table, h.own⟩
  limit _ h := ⟨h.bus, h.table, h.own⟩
  fail h := ⟨h.bus, h.table, h.own⟩

theorem CurrentBounds.Limits.limitInput {pd : MtkPd} (h : b.Limits pd) (htable : b.Table pd.cap)
    (idx : ℤ) : b.Limits (pd.limitInput idx) where
  input1 := by
    unfold MtkPd.limitInput
    dsimp only
    split
    · exact h.input1
    · rw [u32_s32]
      exact Or.inr (htable idx)
  charging1 := h.charging1
  charging2 := h.charging2

/-- With limits that are within the bounds, the algorithm sets others that are. -/
theorem keptLimits (hfail : b.Fail) : PdKept cfg b.Table fun p => b.Pd cfg p ∧ b.Limits p.pd where
  pd h hsame := by
    refine ⟨(keptPd cfg).pd h.1 hsame, ?_, ?_, ?_⟩
    · rw [hsame.inputLimit1]
      exact h.2.input1
    · rw [hsame.chargingLimit1]
      exact h.2.charging1
    · rw [hsame.chargingLimit2]
      exact h.2.charging2
  read h hr := ⟨(keptPd cfg).read h.1 hr, h.2.input1, h.2.charging1, h.2.charging2⟩
  request r idx h := ⟨(keptPd cfg).request r idx h.1, h.2⟩
  limit idx h := ⟨(keptPd cfg).limit idx h.1, h.2.limitInput h.1.table idx⟩
  fail h := ⟨(keptPd cfg).fail h.1, Or.inr hfail.1, Or.inr hfail.2, h.2.charging2⟩

/-- The tables that are read have currents within the bounds. -/
def CurrentBounds.Reading (b : CurrentBounds) (r : PdReading) : Prop :=
  b.Table r.table.cap ∧ b.Table r.resetTable.cap

theorem atLeastMin_eq_of_ne_zero {limit current : ℤ}
    (h : atLeastMin least limit current ≠ 0) : atLeastMin least limit current = current := by
  cases least with
  | none => rfl
  | some least =>
    unfold atLeastMin at h ⊢
    dsimp only at h ⊢
    split_ifs at h ⊢
    · exact absurd rfl h
    · rfl

/-- A current with a limit is the own one or the limit. -/
theorem limitedCurrent_cases {Q : ℤ → Prop} {limit own : ℤ} (hown : Q own)
    (hlimit : limit = -1 ∨ Q limit) (h : limitedCurrent least limit own ≠ 0) :
    Q (limitedCurrent least limit own) := by
  unfold limitedCurrent at h ⊢
  split_ifs at h ⊢ with hlt
  · rw [atLeastMin_eq_of_ne_zero h]
    exact hlimit.resolve_left hlt.1
  · exact hown

theorem limitedCurrent_none (least : Option ℤ) (own : ℤ) : limitedCurrent least (-1) own = own :=
  if_neg fun h => h.1 rfl

/-- The charging current of `pd_sc_set_charger`. -/
def MtkPd.scCharging (r : PdReading) (pd : MtkPd) : ℤ :=
  if pd.chargingCurrentLimit1 ≠ -1 then
    atLeastMin r.minChargingCurrent1 pd.chargingCurrentLimit1
      (if pd.chargingCurrentLimit1 < cfg.scChargerCurrent then pd.chargingCurrentLimit1
      else pd.chargingCurrent1)
  else cfg.scChargerCurrent

/-- The algorithm with the currents of `pd_sc_set_charger`. -/
def PdBus.scCurrents (r : PdReading) (p : PdBus) : PdBus :=
  { p with pd :=
    { p.pd with
      chargingCurrent1 := p.pd.scCharging cfg r
      inputCurrent1 :=
        limitedCurrent r.minInputCurrent1 p.pd.inputCurrentLimit1 cfg.scInputCurrent } }

theorem PdBus.scSetCharger_eq (r : PdReading) (p : PdBus) :
    p.scSetCharger cfg r =
      if p.pd.inputCurrentLimit1 = 0 ∨ p.pd.chargingCurrentLimit1 = 0 then p
      else
        let p := p.scCurrents cfg r
        if p.pd.inputCurrent1 = 0 ∨ p.pd.chargingCurrent1 = 0 then p else p.program := rfl

/-- The charging current of a single charger is in bounds. -/
theorem MtkPd.scCharging_within {pd : MtkPd} (hlimits : b.Limits pd)
    (hown : b.Charging (u32 cfg.scChargerCurrent)) (hold : b.Charging (u32 pd.chargingCurrent1))
    (hne : pd.scCharging cfg r ≠ 0) : b.Charging (u32 (pd.scCharging cfg r)) := by
  unfold scCharging at hne ⊢
  by_cases hlimit : pd.chargingCurrentLimit1 ≠ -1
  · rw [if_pos hlimit] at hne ⊢
    rw [atLeastMin_eq_of_ne_zero hne]
    split_ifs
    · exact hlimits.charging1.resolve_left hlimit
    · exact hold
  · rw [if_neg hlimit]
    exact hown

theorem PdBus.program_currents (h : p.regs.All b.Allows) (hin : b.Input (u32 p.pd.inputCurrent1))
    (hch : b.Charging (u32 p.pd.chargingCurrent1)) : p.program.regs.All b.Allows := by
  simp [program, h, hin, hch]

theorem PdBus.programSecond_currents (h : p.regs.All b.Allows)
    (hin : b.Input (u32 p.pd.chargingCurrent2)) (hch : b.Charging (u32 p.pd.chargingCurrent2)) :
    p.programSecond.regs.All b.Allows := by
  simp [programSecond, h, hin, hch]

theorem PdBus.scSetCharger_currents (r : PdReading) (h : p.regs.All b.Allows)
    (hlimits : b.Limits p.pd) (hin : b.Input (u32 cfg.scInputCurrent))
    (hch : b.Charging (u32 cfg.scChargerCurrent)) (hold : b.Charging (u32 p.pd.chargingCurrent1)) :
    (p.scSetCharger cfg r).regs.All b.Allows := by
  rw [scSetCharger_eq]
  dsimp only
  split_ifs with _ hne
  · exact h
  · exact h
  · rw [not_or] at hne
    apply program_currents
    · exact h
    · exact limitedCurrent_cases (Q := fun uA => b.Input (u32 uA)) hin hlimits.input1 hne.1
    · exact MtkPd.scCharging_within cfg hlimits hch hold hne.2

theorem PdBus.dcsSetCharger_currents (r : PdReading) (h : p.regs.All b.Allows)
    (hlimits : b.Limits p.pd) (hin : b.Input (u32 cfg.dcsInputCurrent))
    (hch : b.Charging (u32 cfg.dcsChg1ChargerCurrent))
    (hin2 : b.Input (u32 cfg.dcsChg2ChargerCurrent))
    (hch2 : b.Charging (u32 cfg.dcsChg2ChargerCurrent)) :
    (p.dcsSetCharger cfg r).regs.All b.Allows := by
  have hown : p.pd.state = .run → (if p.pd.state = .run then cfg.dcsChg2ChargerCurrent
      else p.pd.chargingCurrent2) = cfg.dcsChg2ChargerCurrent := fun hrun => if_pos hrun
  unfold dcsSetCharger
  dsimp only
  generalize (if p.pd.state = .run then cfg.dcsChg2ChargerCurrent
    else p.pd.chargingCurrent2) = own at *
  split
  · exact h
  · split
    · exact h
    · rename_i hne
      rw [not_or, not_or] at hne
      have hinput := limitedCurrent_cases (Q := fun uA => b.Input (u32 uA)) hin hlimits.input1 hne.1
      have hcharging := limitedCurrent_cases (Q := fun uA => b.Charging (u32 uA)) hch
        hlimits.charging1 hne.2.1
      rw [hlimits.charging2, limitedCurrent_none] at hne ⊢
      split
      · rename_i hrun
        rw [hown hrun]
        exact program_currents (programSecond_currents h hin2 hch2) hinput hcharging
      · exact program_currents h hinput hcharging
      · exact program_currents h hinput hcharging
      · exact h

/-- A start programs currents in bounds. -/
theorem PdBus.startAlgo_currents (hr : b.Reading r) (hfail : b.Fail) (h : b.Pd cfg p)
    (hlimits : b.Limits p.pd) : (p.startAlgo cfg r).regs.All b.Allows := by
  refine (keptLimits cfg hfail).startAlgo (J := fun p => p.regs.All b.Allows)
    (fun h => h.1.bus.log) ?_ hr.1 hr.2 ⟨h, hlimits⟩
  rintro p ⟨hset, hlimits⟩
  have hown := hset.own
  unfold setCharger
  unfold CurrentBounds.Own at hown
  split_ifs at hown ⊢
  · exact dcsSetCharger_currents cfg r hset.bus.log hlimits hown.1 hown.2.1 hown.2.2.1 hown.2.2.2
  · exact scSetCharger_currents cfg r hset.bus.log hlimits hown.1 hown.2.1 hown.2.2

/-- A stop programs currents in bounds. -/
theorem PdBus.stopAlgo_currents (hr : b.Reading r) (h : b.Pd cfg p) (hfail : b.Fail) :
    (p.stopAlgo cfg r).regs.All b.Allows := by
  have hreset := (keptPd cfg).pdcReset _ hr.2 r.resetSetup h
  unfold stopAlgo
  split
  · simp [hreset.bus.log, hfail.1, hfail.2]
  · exact h.bus.log

/-- The currents that the second charger is tuned down to are programmed into the primary one. -/
def CurrentBounds.Tuned (b : CurrentBounds) (cfg : PdConfig) (r : PdReading) (pd : MtkPd) : Prop :=
  cfg.dualChargers = true →
    b.Charging (u32 (r.ichg2 - 500000)) ∧ b.Charging (u32 pd.chargingCurrent2)

/-- A notification keeps the currents in bounds. -/
theorem PdBus.notifierCall_currents (event : AlgEvent) (h : b.Pd cfg p) (hr : b.Tuned cfg r p.pd) :
    b.Pd cfg (p.notifierCall cfg event r) := by
  refine (keptPd cfg).notifierCall event (fun hdual => ⟨⟨?_, h.bus.input⟩, h.table, h.own⟩) h
  obtain ⟨hnew, hold⟩ := hr hdual
  unfold tuneSecond
  rw [Registers.all_pdHalSetChargingCurrent]
  refine ⟨h.bus.log, ?_⟩
  rw [CurrentBounds.allows_chargingCurrent]
  split
  · rw [u32_s32]
    exact hnew
  · exact hold

end Pd

section Select

variable {σ ρ : Type} (cfg : ChargerConfig) {b : CurrentBounds} {r : SelectReading ρ}
  {s : Charger σ}

/-- The probe for an invalid charger programs currents in bounds. -/
theorem Registers.checkInvalid_currents {done : Bool} (h : regs.All b.Allows)
    (hprobe : done = false → b.Pair cfg.invchgCheck ∧ b.Regs regs) :
    (regs.checkInvalid cfg done).All b.Allows := by
  unfold checkInvalid probe
  cases done with
  | true => exact h
  | false =>
    obtain ⟨hpair, hregs⟩ := hprobe rfl
    simp [h, hpair.1, hpair.2, hregs.1, hregs.2]

theorem Registers.checkInvalid_regs (done : Bool) (regs : Registers) :
    u32 (regs.checkInvalid cfg done).inputCurrent = u32 regs.inputCurrent ∧
      u32 (regs.checkInvalid cfg done).chargingCurrent = u32 regs.chargingCurrent := by
  unfold checkInvalid
  split
  · exact ⟨rfl, rfl⟩
  · exact ⟨u32_u32 _, u32_u32 _⟩

theorem Registers.detectAdapter_currents {chrType : ChrType} {iusb : ℤ} (h : regs.All b.Allows)
    (hdetect : detects cfg r chrType iusb = true → b.Pair cfg.aiclTrigger ∧ b.Regs regs) :
    (regs.detectAdapter cfg r chrType iusb).All b.Allows := by
  unfold detectAdapter detect
  split_ifs with hyes
  · obtain ⟨hpair, hregs⟩ := hdetect hyes
    simp [h, hpair.1, hpair.2, hregs.1, hregs.2]
  · exact h

theorem Registers.detectAdapter_inputCurrent (r : SelectReading ρ) (chrType : ChrType) (iusb : ℤ)
    (regs : Registers) :
    u32 (regs.detectAdapter cfg r chrType iusb).inputCurrent = u32 regs.inputCurrent := by
  unfold detectAdapter
  split
  · exact u32_u32 _
  · rfl

section Nonneg

/-- The currents of the settings for a type of charger. -/
def typePair : ChrType → Option CurrentPair
  | .usb => some ⟨cfg.usbChargerCurrent, cfg.usbChargerCurrent⟩
  | .usbCdp => some ⟨cfg.chargingHostChargerCurrent, cfg.chargingHostChargerCurrent⟩
  | .usbDcp => some cfg.acCharger
  | .usbFloat => some ⟨cfg.nonStdAcChargerCurrent, cfg.nonStdAcChargerCurrent⟩
  | .wireless5w => some cfg.wireless5wCharger
  | .wireless10w => some cfg.wireless10wCharger
  | .wireless => some cfg.wirelessDefaultCharger
  | .unknown | .other => none

/-- No current that is read or set for an adapter is negative: that of a detected adapter, and the
AICL results, where -1 is none. -/
structure AdapterNonneg (r : SelectReading ρ) (s : Charger σ) : Prop where
  detection : cfg.powerDetectionEn = true → 0 ≤ s.detectionIusb ∧ 0 ≤ cfg.adapter12wIusbLim ∧
    0 ≤ cfg.adapter9wIusbLim ∧ 0 ≤ cfg.adapter5wIusbLim
  dmivr : cfg.enableDynamicMivr = true → -1 ≤ cfg.maxDmivrChargerCurrent
  old : -1 ≤ s.data.inputCurrentLimitByAicl
  aicl : -1 ≤ r.aicl.getD (-1)
  detectionAicl : -1 ≤ r.detectionAicl.getD (-1)

/-- No input current that the selection works with is negative: that for the type of the charger, or
the old one for an unknown type, the one of the input power, and those for the adapter. -/
structure InputNonneg (r : SelectReading ρ) (s : Charger σ) : Prop where
  type : 0 ≤ (typePair cfg s.chrType).elim s.data.inputCurrentLimit CurrentPair.input
  power : r.thermalInputPowerLimit = -1 ∨ 0 ≤ s32 (r.thermalInputPowerLimit * 1000)
  adapter : r.wpcOnline = false → AdapterNonneg cfg r s

/-- No charging current that the selection works with is negative. A Type-C adapter is charged with
the current of a wall charger. -/
structure ChargingNonneg (r : SelectReading ρ) (s : Charger σ) : Prop where
  type : 0 ≤ (typePair cfg s.chrType).elim s.data.chargingCurrentLimit CurrentPair.charging
  ac : r.wpcOnline = false → 0 ≤ cfg.acCharger.charging

variable {cfg}

/-- The input of a wireless charger is not negative. -/
theorem wirelessInput_nonneg {pair : CurrentPair} {volts : ℤ} (hvolts : 0 ≤ volts)
    (hpair : 0 ≤ pair.input)
    (hpower : r.thermalInputPowerLimit = -1 ∨ 0 ≤ s32 (r.thermalInputPowerLimit * 1000)) :
    0 ≤ wirelessInput r pair volts := by
  unfold wirelessInput
  dsimp only
  split_ifs with hlower
  · exact Int.tdiv_nonneg (hpower.resolve_left hlower.1) hvolts
  · exact hpair

theorem Charger.typeLimits_input_nonneg (h : InputNonneg cfg r s) :
    0 ≤ (s.typeLimits cfg r).2.data.inputCurrentLimit := by
  have htype := h.type
  unfold typeLimits
  cases hchr : s.chrType with
  | usbDcp =>
    rw [hchr] at htype
    dsimp only
    split <;> exact htype
  | wireless5w | wireless10w | wireless =>
    rw [hchr] at htype
    exact wirelessInput_nonneg (by decide) htype h.power
  | _ =>
    rw [hchr] at htype
    exact htype

theorem Charger.typeLimits_adapter (h : AdapterNonneg cfg r s) :
    AdapterNonneg cfg r (s.typeLimits cfg r).2 := by
  obtain ⟨hdetection, hdmivr, hold, haicl, hdetectionAicl⟩ := h
  unfold typeLimits
  dsimp only
  repeat' split
  all_goals exact ⟨hdetection, hdmivr, hold, haicl, hdetectionAicl⟩

theorem Charger.typeLimits_charging_nonneg (h : ChargingNonneg cfg r s) :
    0 ≤ (s.typeLimits cfg r).2.data.chargingCurrentLimit := by
  have htype := h.type
  unfold typeLimits
  cases hchr : s.chrType with
  | usbDcp =>
    rw [hchr] at htype
    dsimp only
    split <;> exact htype
  | _ =>
    rw [hchr] at htype
    exact htype

theorem getD_ge_neg_one {result : Option ℤ} {old : ℤ} (h : -1 ≤ result.getD (-1))
    (hold : -1 ≤ old) : -1 ≤ result.getD old := by
  cases result with
  | none => exact hold
  | some uA => exact h

theorem typecPair_nonneg (hac : 0 ≤ cfg.acCharger.charging) (r : SelectReading ρ) :
    0 ≤ (typecPair cfg r).charging := by
  unfold typecPair
  split_ifs <;> simp [hac]

theorem Charger.basicLimits_input_nonneg (h : AdapterNonneg cfg r s)
    (hlimit : 0 ≤ s.data.inputCurrentLimit) :
    0 ≤ (s.basicLimits cfg r).data.inputCurrentLimit ∧
      -1 ≤ (s.basicLimits cfg r).data.inputCurrentLimitByAicl := by
  have haicl := getD_ge_neg_one h.aicl h.old
  have htypec : 0 ≤ (typecPair cfg r).input := by
    unfold typecPair
    split_ifs <;> simp
  unfold basicLimits setLimits ChargerData.storeAicl
  dsimp only
  split_ifs with hdmivr
  · exact ⟨Int.le_min.mpr ⟨htypec, hlimit⟩, h.dmivr hdmivr.1⟩
  · exact ⟨hlimit, h.dmivr hdmivr.1⟩
  · exact ⟨Int.le_min.mpr ⟨htypec, hlimit⟩, haicl⟩
  · exact ⟨hlimit, haicl⟩

theorem Charger.basicLimits_charging_nonneg (hac : 0 ≤ cfg.acCharger.charging)
    (hlimit : 0 ≤ s.data.chargingCurrentLimit) :
    0 ≤ (s.basicLimits cfg r).data.chargingCurrentLimit := by
  have htypec := typecPair_nonneg hac r
  unfold basicLimits setLimits ChargerData.storeAicl
  dsimp only
  split_ifs
  · exact Int.le_min.mpr ⟨htypec, hlimit⟩
  · exact hlimit
  · exact Int.le_min.mpr ⟨htypec, hlimit⟩
  · exact hlimit

theorem Charger.adapterPowerDetection_input_nonneg (h : AdapterNonneg cfg r s)
    (hlimit : 0 ≤ s.data.inputCurrentLimit) :
    0 ≤ (s.adapterPowerDetection cfg r).data.inputCurrentLimit ∧
      -1 ≤ (s.adapterPowerDetection cfg r).data.inputCurrentLimitByAicl := by
  have haicl := getD_ge_neg_one h.detectionAicl h.old
  unfold adapterPowerDetection
  dsimp only
  by_cases hen : cfg.powerDetectionEn = false
  · rw [if_pos hen]
    exact ⟨hlimit, h.old⟩
  · obtain ⟨hiusb, h12, h9, h5⟩ := h.detection (Bool.of_not_eq_false hen)
    rw [if_neg hen]
    repeat' split
    · exact ⟨hlimit, h.old⟩
    · exact ⟨hiusb, h.old⟩
    · exact ⟨hlimit, h.old⟩
    · exact ⟨Int.natCast_nonneg 3000000, h.old⟩
    · exact ⟨Int.natCast_nonneg 1500000, h.old⟩
    · exact ⟨hlimit, h.old⟩
    · exact ⟨h12, haicl⟩
    · exact ⟨h12, haicl⟩
    · exact ⟨h9, haicl⟩
    · exact ⟨h5, haicl⟩

theorem Charger.adapterPowerDetection_charging (cfg : ChargerConfig) (r : SelectReading ρ)
    (s : Charger σ) : (s.adapterPowerDetection cfg r).data.chargingCurrentLimit =
      s.data.chargingCurrentLimit := by
  unfold adapterPowerDetection
  dsimp only
  repeat' split
  all_goals rfl

theorem Charger.aiclLimits_input_nonneg (isBasic : Bool) (hlimit : 0 ≤ s.data.inputCurrentLimit)
    (haicl : -1 ≤ s.data.inputCurrentLimitByAicl) :
    0 ≤ (s.aiclLimits isBasic).data.inputCurrentLimit := by
  unfold aiclLimits
  split_ifs with hsome
  · exact hlimit
  · exact Int.le_min.mpr ⟨by have := hsome.2; omega, hlimit⟩
  · exact hlimit

theorem Charger.aiclLimits_charging (isBasic : Bool) (s : Charger σ) :
    (s.aiclLimits isBasic).data.chargingCurrentLimit = s.data.chargingCurrentLimit := by
  unfold aiclLimits
  split_ifs <;> rfl

theorem Charger.wiredLimits_input_nonneg (alg : ChgAlg σ ρ) (h : AdapterNonneg cfg r s)
    (hlimit : 0 ≤ s.data.inputCurrentLimit) :
    0 ≤ (s.wiredLimits cfg alg r).2.data.inputCurrentLimit := by
  unfold wiredLimits
  dsimp only
  rw [checkInvalidCharger_eq]
  generalize hbasic : (if (s.supportFastCharging alg r).1 then (s.supportFastCharging alg r).2
    else (s.supportFastCharging alg r).2.basicLimits cfg r) = s1
  have hs1 : 0 ≤ s1.data.inputCurrentLimit ∧ -1 ≤ s1.data.inputCurrentLimitByAicl ∧
      s1.detectionIusb = s.detectionIusb := by
    rw [← hbasic]
    split
    · exact ⟨hlimit, h.old, rfl⟩
    · obtain ⟨_, heq⟩ := basicLimits_eq cfg r (s.supportFastCharging alg r).2
      have hnonneg := (s.supportFastCharging alg r).2.basicLimits_input_nonneg
        ⟨h.detection, h.dmivr, h.old, h.aicl, h.detectionAicl⟩ hlimit
      exact ⟨hnonneg.1, hnonneg.2, by rw [heq]; rfl⟩
  have hadapter : AdapterNonneg cfg r { s1 with
      invalidDet := s1.invalidDet.check cfg r
      regs := s1.regs.checkInvalid cfg s1.invalidDet.done } := by
    refine ⟨?_, h.dmivr, hs1.2.1, h.aicl, h.detectionAicl⟩
    rw [hs1.2.2]
    exact h.detection
  obtain ⟨hinput, haicl⟩ := adapterPowerDetection_input_nonneg hadapter hs1.1
  exact aiclLimits_input_nonneg _ hinput haicl

theorem Charger.wiredLimits_charging_nonneg (alg : ChgAlg σ ρ) (hac : 0 ≤ cfg.acCharger.charging)
    (hlimit : 0 ≤ s.data.chargingCurrentLimit) :
    0 ≤ (s.wiredLimits cfg alg r).2.data.chargingCurrentLimit := by
  unfold wiredLimits
  dsimp only
  rw [aiclLimits_charging, adapterPowerDetection_charging, checkInvalidCharger_eq]
  dsimp only
  split
  · exact hlimit
  · exact basicLimits_charging_nonneg hac hlimit

variable (cfg)

/-- The selection before the limits of the JEITA zone and of the thermal drivers. -/
def Charger.ownLimits (alg : ChgAlg σ ρ) (r : SelectReading ρ) (s : Charger σ) : Charger σ :=
  let typed := ((s.selectCv cfg r.aging).typeLimits cfg r).2
  if r.wpcOnline then typed else (typed.wiredLimits cfg alg r).2

theorem Charger.ownLimits_frame (alg : ChgAlg σ ρ) (r : SelectReading ρ) (s : Charger σ) :
    (s.ownLimits cfg alg r).swJeita = s.swJeita ∧ (s.ownLimits cfg alg r).chrType = s.chrType := by
  obtain ⟨_, htype⟩ := (s.selectCv cfg r.aging).typeLimits_eq cfg r
  unfold ownLimits
  dsimp only
  split
  · rw [htype]
    exact ⟨rfl, rfl⟩
  · obtain ⟨_, _, _, _, hwired, -⟩ :=
      wiredLimits_selects cfg alg r ((s.selectCv cfg r.aging).typeLimits cfg r).2
    rw [hwired, htype]
    exact ⟨rfl, rfl⟩

variable {cfg}

/-- The limits before the thermal ones are not negative. -/
theorem Charger.ownLimits_input_nonneg (alg : ChgAlg σ ρ) (h : InputNonneg cfg r s) :
    0 ≤ (s.ownLimits cfg alg r).data.inputCurrentLimit := by
  have htyped : 0 ≤ ((s.selectCv cfg r.aging).typeLimits cfg r).2.data.inputCurrentLimit :=
    typeLimits_input_nonneg ⟨h.type, h.power, fun hwired => { h.adapter hwired with }⟩
  unfold ownLimits
  dsimp only
  split
  · exact htyped
  · have hadapter : AdapterNonneg cfg r (s.selectCv cfg r.aging) :=
      { h.adapter (Bool.of_not_eq_true ‹_›) with }
    exact wiredLimits_input_nonneg alg (typeLimits_adapter hadapter) htyped

theorem Charger.ownLimits_charging_nonneg (alg : ChgAlg σ ρ) (h : ChargingNonneg cfg r s) :
    0 ≤ (s.ownLimits cfg alg r).data.chargingCurrentLimit := by
  have htyped : 0 ≤ ((s.selectCv cfg r.aging).typeLimits cfg r).2.data.chargingCurrentLimit :=
    typeLimits_charging_nonneg ⟨h.type, h.ac⟩
  unfold ownLimits
  dsimp only
  split
  · exact htyped
  · exact wiredLimits_charging_nonneg alg (h.ac (Bool.of_not_eq_true ‹_›)) htyped

end Nonneg

theorem Charger.limitCharging_le (limit : ℤ) (s : Charger σ) :
    (s.limitCharging limit).data.chargingCurrentLimit ≤ s.data.chargingCurrentLimit ∧
      (limit ≠ -1 → (s.limitCharging limit).data.chargingCurrentLimit ≤ limit) ∧
      (s.limitCharging limit).data.inputCurrentLimit = s.data.inputCurrentLimit := by
  unfold limitCharging
  split_ifs with hsome hlt
  · exact ⟨Int.le_of_lt hlt, fun _ => Int.le_refl limit, rfl⟩
  · exact ⟨Int.le_refl _, fun _ => Int.not_lt.mp hlt, rfl⟩
  · exact ⟨Int.le_refl _, fun h => absurd h hsome, rfl⟩

theorem Charger.limitInput_le (limit : ℤ) (s : Charger σ) :
    (limit ≠ -1 → (s.limitInput limit).data.inputCurrentLimit ≤ limit) ∧
      (s.limitInput limit).data.chargingCurrentLimit = s.data.chargingCurrentLimit := by
  unfold limitInput
  split_ifs with hsome hlt
  · exact ⟨fun _ => Int.le_refl limit, rfl⟩
  · exact ⟨fun _ => Int.not_lt.mp hlt, rfl⟩
  · exact ⟨fun h => absurd h hsome, rfl⟩

theorem Charger.limitSecond_data (r : SelectReading ρ) (s : Charger σ) :
    (s.limitSecond r).data.inputCurrentLimit = s.data.inputCurrentLimit ∧
      (s.limitSecond r).data.chargingCurrentLimit = s.data.chargingCurrentLimit := by
  unfold limitSecond
  dsimp only
  repeat' split
  all_goals exact ⟨rfl, rfl⟩

/-- The zone of the battery is taken into account: it has no limit, or the software JEITA is enabled
and the charger is not a USB host under the compliance test. -/
def zoneApplies (sm : JeitaState) (chrType : ChrType) : Bool :=
  decide (zoneLimit cfg sm = -1 ∨
    (cfg.enableSwJeita = true ∧ ¬(cfg.usbifCompliance = true ∧ chrType = .usb)))

theorem Charger.jeitaLimits_le (hzone : zoneApplies cfg s.swJeita.sm s.chrType = true) :
    zoneLimit cfg s.swJeita.sm ≠ -1 →
      (s.jeitaLimits cfg).data.chargingCurrentLimit ≤ zoneLimit cfg s.swJeita.sm := by
  intro hlimit
  unfold zoneApplies at hzone
  have hen := (of_decide_eq_true hzone).resolve_left hlimit
  unfold jeitaLimits
  rw [if_pos hen]
  cases hsm : s.swJeita.sm with
  | t0ToT1 =>
    rw [hsm] at hlimit
    exact (s.limitCharging_le cfg.tempT0ToT1ChargerCurrent).2.1 hlimit
  | t3ToT4 =>
    rw [hsm] at hlimit
    exact (s.limitCharging_le cfg.tempT3ToT4ChargerCurrent).2.1 hlimit
  | _ => exact absurd (by rw [hsm]; rfl) hlimit

/-- After the thermal limits, both currents are in bounds. -/
theorem Charger.thermalLimits_within (r : SelectReading ρ)
    (hzone : zoneApplies cfg s.swJeita.sm s.chrType = true) :
    (boundsOf cfg r s.swJeita.sm).Charging (s.thermalLimits cfg r).data.chargingCurrentLimit ∧
      (boundsOf cfg r s.swJeita.sm).Input (s.thermalLimits cfg r).data.inputCurrentLimit := by
  obtain ⟨hle, hcharging, -⟩ :=
    (s.jeitaLimits cfg).limitCharging_le r.thermalChargingCurrentLimit
  obtain ⟨hinput, hkeep⟩ := ((s.jeitaLimits cfg).limitCharging
    r.thermalChargingCurrentLimit).limitInput_le r.thermalInputCurrentLimit
  obtain ⟨hsecondIn, hsecondCh⟩ := limitSecond_data r (((s.jeitaLimits cfg).limitCharging
    r.thermalChargingCurrentLimit).limitInput r.thermalInputCurrentLimit)
  unfold thermalLimits
  rw [hsecondIn, hsecondCh, hkeep]
  constructor
  · apply boundsOf_charging.mpr
    refine ⟨hcharging, ?_⟩
    intro hlimit
    exact Int.le_trans hle (s.jeitaLimits_le cfg hzone hlimit)
  · exact boundsOf_input.mpr hinput

theorem Charger.limitCharging_nonneg {limit : ℤ} (hlimit : limit ≠ -1 → 0 ≤ limit)
    (h : 0 ≤ s.data.chargingCurrentLimit) :
    0 ≤ (s.limitCharging limit).data.chargingCurrentLimit := by
  unfold limitCharging
  split_ifs with hsome
  · exact hlimit hsome
  · exact h
  · exact h

theorem Charger.jeitaLimits_nonneg
    (hzone : zoneLimit cfg s.swJeita.sm ≠ -1 → 0 ≤ zoneLimit cfg s.swJeita.sm)
    (h : 0 ≤ s.data.chargingCurrentLimit) :
    0 ≤ (s.jeitaLimits cfg).data.chargingCurrentLimit := by
  unfold jeitaLimits
  split
  · cases hsm : s.swJeita.sm with
    | t0ToT1 | t3ToT4 =>
      rw [hsm] at hzone
      exact limitCharging_nonneg hzone h
    | _ => exact h
  · exact h

theorem Charger.thermalLimits_charging_nonneg (r : SelectReading ρ)
    (hzero : (boundsOf cfg r s.swJeita.sm).Charging 0) (h : 0 ≤ s.data.chargingCurrentLimit) :
    0 ≤ (s.thermalLimits cfg r).data.chargingCurrentLimit := by
  obtain ⟨hthermal, hzone⟩ := boundsOf_charging.mp hzero
  unfold thermalLimits
  rw [(limitSecond_data r _).2, (limitInput_le _ _).2]
  exact limitCharging_nonneg hthermal (jeitaLimits_nonneg cfg hzone h)

theorem Charger.thermalLimits_input_nonneg (r : SelectReading ρ)
    (hzero : (boundsOf cfg r s.swJeita.sm).Input 0) (h : 0 ≤ s.data.inputCurrentLimit) :
    0 ≤ (s.thermalLimits cfg r).data.inputCurrentLimit := by
  have hjeita : (s.jeitaLimits cfg).data.inputCurrentLimit = s.data.inputCurrentLimit := by
    unfold jeitaLimits
    repeat' split
    · exact (s.limitCharging_le _).2.2
    · exact (s.limitCharging_le _).2.2
    · rfl
    · rfl
  unfold thermalLimits
  rw [(limitSecond_data r _).1]
  unfold limitInput
  split_ifs with hsome
  · exact boundsOf_input.mp hzero hsome
  · rw [(limitCharging_le _ _).2.2, hjeita]
    exact h
  · change 0 ≤ ((s.jeitaLimits cfg).limitCharging _).data.inputCurrentLimit
    rw [(limitCharging_le _ _).2.2, hjeita]
    exact h

/-- The minimum of the charger only sets a limit to zero. -/
theorem Charger.minLimits_within (r : SelectReading ρ) (isBasic : Bool) (hch0 : b.Charging 0)
    (hin0 : b.Input 0) (hch : b.Charging (u32 s.data.chargingCurrentLimit))
    (hin : b.Input (u32 s.data.inputCurrentLimit)) :
    b.Charging (u32 (s.minLimits r isBasic).2.data.chargingCurrentLimit) ∧
      b.Input (u32 (s.minLimits r isBasic).2.data.inputCurrentLimit) := by
  unfold minLimits setLimits
  dsimp only
  constructor
  · split
    · exact hch0
    · exact hch
  · split
    · exact hin0
    · exact hin

/-- No limit is forced. -/
def notForced (r : SelectReading ρ) : Bool :=
  decide (r.forceInputCurrentLimit = -1 ∧ r.forceChargingCurrent = -1)

theorem Charger.forceLimits_data (hforce : notForced r = true) (s : Charger σ) :
    (s.forceLimits r).data = s.data := by
  obtain ⟨hin, hch⟩ := of_decide_eq_true hforce
  unfold forceLimits
  simp [hin, hch]

theorem Charger.selectChargingCurrentLimit_data (alg : ChgAlg σ ρ)
    (hspecial : isSpecial r s.chrType = false) (hforce : notForced r = true) :
    (s.selectChargingCurrentLimit cfg alg r).2.data =
      (((s.ownLimits cfg alg r).thermalLimits cfg r).minLimits r true).2.data := by
  have hnone := ((s.selectCv cfg r.aging).specialLimits_eq_none_iff cfg r).mpr hspecial
  unfold selectChargingCurrentLimit ownLimits
  dsimp only
  rw [hnone]
  unfold minLimits setLimits
  dsimp only
  rw [forceLimits_data hforce]
  split <;> rfl

/-- The selected limits are in bounds. -/
theorem Charger.selectChargingCurrentLimit_within (alg : ChgAlg σ ρ)
    (hspecial : isSpecial r s.chrType = false) (hforce : notForced r = true)
    (hzone : zoneApplies cfg s.swJeita.sm s.chrType = true)
    (hch0 : (boundsOf cfg r s.swJeita.sm).Charging 0)
    (hin0 : (boundsOf cfg r s.swJeita.sm).Input 0)
    (hch : (boundsOf cfg r s.swJeita.sm).charging ≠ [] → ChargingNonneg cfg r s)
    (hin : (boundsOf cfg r s.swJeita.sm).input ≠ [] → InputNonneg cfg r s) :
    (boundsOf cfg r s.swJeita.sm).Charging
        (u32 (s.selectChargingCurrentLimit cfg alg r).2.data.chargingCurrentLimit) ∧
      (boundsOf cfg r s.swJeita.sm).Input
        (u32 (s.selectChargingCurrentLimit cfg alg r).2.data.inputCurrentLimit) := by
  rw [selectChargingCurrentLimit_data cfg alg hspecial hforce]
  obtain ⟨hjeita, hchr⟩ := s.ownLimits_frame cfg alg r
  have hthermal := (s.ownLimits cfg alg r).thermalLimits_within cfg r (by
    rw [hjeita, hchr]
    exact hzone)
  have hcharging := thermalLimits_charging_nonneg (s := s.ownLimits cfg alg r) cfg r
  have hinput := thermalLimits_input_nonneg (s := s.ownLimits cfg alg r) cfg r
  rw [hjeita] at hthermal hcharging hinput
  apply minLimits_within r true hch0 hin0
  · apply CurrentBounds.programmed_le hthermal.1
    intro hbound
    exact hcharging hch0 (ownLimits_charging_nonneg alg (hch hbound))
  · apply CurrentBounds.programmed_le hthermal.2
    intro hbound
    exact hinput hin0 (ownLimits_input_nonneg alg (hin hbound))

end Select

section Algorithm

variable (cfg : ChargerConfig) (pcfg : PdConfig) (b : CurrentBounds)
  {r : AlgorithmReading PdReading} {s : Charger MtkPd}

/-- The currents of the check of the charger and of the detection of the adapter are within the
bounds, and so are the ones that are restored. -/
def ProbesWithin (r : SelectReading PdReading) (s : Charger MtkPd) : Prop :=
  looksAtCharger r s.chrType = true →
    (s.invalidDet.done = false → b.Pair cfg.invchgCheck ∧ b.Regs s.regs) ∧
    (detects cfg r s.chrType s.detectionIusb = true → b.Pair cfg.aiclTrigger ∧ b.Regs s.regs)
  deriving Decidable

/-- The currents that the algorithm has of its own, or gets from the adapter, are within the
bounds. -/
structure PdWithin (r : AlgorithmReading PdReading) (s : Charger MtkPd) : Prop where
  /-- The input current that it may go back to. -/
  old : b.Input (u32 s.regs.inputCurrent)
  table : b.Table s.alg.cap
  own : b.Own pcfg s.alg
  tuned : b.Tuned pcfg r.notify s.alg
  start : b.Reading r.start
  stop : b.Reading r.stop
  fail : b.Fail

/-- The algorithm is running, or fast charging is selected. -/
def Charger.drivesPd (r : AlgorithmReading PdReading) (s : Charger MtkPd) : Bool :=
  s.alg.state.running || !(s.selectChargingCurrentLimit cfg (pdAlg pcfg) r.select).1

theorem MtkPd.isAlgoReady_currents (r : PdReading) (pd : MtkPd) :
    (pd.isAlgoReady pcfg r).2.state.running = pd.state.running ∧
      (pd.isAlgoReady pcfg r).2.cap = pd.cap ∧
      (pd.isAlgoReady pcfg r).2.chargingCurrent1 = pd.chargingCurrent1 ∧
      (pd.isAlgoReady pcfg r).2.chargingCurrent2 = pd.chargingCurrent2 := by
  obtain ⟨state, heq, hrunning⟩ := pd.isAlgoReady_eq pcfg r
  rw [heq]
  exact ⟨hrunning, rfl, rfl, rfl⟩

variable {b}

/-- A selection programs currents in bounds. -/
theorem Charger.select_currents {r : SelectReading PdReading} (hlog : s.regs.All b.Allows)
    (hprobes : ProbesWithin cfg b r s) :
    let s' := (s.selectChargingCurrentLimit cfg (pdAlg pcfg) r).2
    s'.regs.All b.Allows ∧ u32 s'.regs.inputCurrent = u32 s.regs.inputCurrent ∧
      s'.alg.state.running = s.alg.state.running ∧ s'.alg.cap = s.alg.cap ∧
      s'.alg.chargingCurrent1 = s.alg.chargingCurrent1 ∧
      s'.alg.chargingCurrent2 = s.alg.chargingCurrent2 := by
  have hselects := s.selectChargingCurrentLimit_selects cfg (pdAlg pcfg) r
  dsimp only
  cases hlooks : looksAtCharger r s.chrType with
  | true =>
    rw [hlooks, if_pos rfl] at hselects
    obtain ⟨_, _, _, _, heq, -⟩ := hselects
    obtain ⟨hdone, hdetect⟩ := hprobes hlooks
    obtain ⟨hin, hch⟩ := s.regs.checkInvalid_regs cfg s.invalidDet.done
    rw [heq]
    refine ⟨?_, (Registers.detectAdapter_inputCurrent cfg r _ _ _).trans hin,
      MtkPd.isAlgoReady_currents pcfg r.algReady _⟩
    apply Registers.detectAdapter_currents
    · exact Registers.checkInvalid_currents cfg hlog hdone
    · unfold CurrentBounds.Regs
      rw [hin, hch]
      exact hdetect
  | false =>
    rw [hlooks, if_neg Bool.false_ne_true] at hselects
    obtain ⟨_, _, _, _, heq, -⟩ := hselects
    rw [heq]
    exact ⟨hlog, rfl, rfl, rfl, rfl, rfl⟩

theorem PdWithin.pd {s' : Charger MtkPd} (h : PdWithin pcfg b r s) (hlog : s'.regs.All b.Allows)
    (hregs : u32 s'.regs.inputCurrent = u32 s.regs.inputCurrent) (hcap : s'.alg.cap = s.alg.cap)
    (hcurrent : s'.alg.chargingCurrent1 = s.alg.chargingCurrent1) :
    b.Pd pcfg ⟨s'.alg, s'.regs⟩ := by
  exact ⟨⟨hlog, hregs ▸ h.old⟩, hcap ▸ h.table, h.own.congr pcfg hcurrent⟩

/-- Stopping the algorithms programs currents in bounds. -/
theorem Charger.stopHighVoltage_currents (hlog : s.regs.All b.Allows)
    (hpd : s.alg.state.running = true →
      b.Pd pcfg ⟨s.alg, s.regs⟩ ∧ b.Reading r.stop ∧ b.Fail) :
    (s.stopHighVoltage (pdAlg pcfg) r).regs.All b.Allows := by
  unfold stopHighVoltage
  split_ifs with hstop
  · obtain ⟨hpd, hread, hfail⟩ := hpd hstop.2.2
    exact PdBus.stopAlgo_currents pcfg hread hpd hfail
  · exact hlog

/-- The algorithm is given no limit for the currents that it programs. -/
def LimitSetting.Unlimited (setting : LimitSetting) : Prop :=
  setting.inputCurrentLimit1 = -1 ∧ setting.chargingCurrentLimit1 = -1 ∧
    setting.chargingCurrentLimit2 = -1

/-- The limits that the algorithm is given are the forced ones. -/
theorem Charger.selectChargingCurrentLimit_unlimited {r : SelectReading PdReading}
    (hforce : notForced r = true) (s : Charger MtkPd) :
    (s.selectChargingCurrentLimit cfg (pdAlg pcfg) r).2.setting.Unlimited := by
  obtain ⟨hin, hch⟩ := of_decide_eq_true hforce
  unfold selectChargingCurrentLimit
  dsimp only
  split <;> exact ⟨hin, hch, hch⟩

theorem Charger.fastAlgorithm_currents (hpd : b.Pd pcfg ⟨s.alg, s.regs⟩)
    (hsetting : s.setting.Unlimited) (htuned : b.Tuned pcfg r.notify s.alg)
    (hstart : b.Reading r.start) (hstop : b.Reading r.stop) (hfail : b.Fail) :
    (s.fastAlgorithm (pdAlg pcfg) r).2.regs.All b.Allows := by
  unfold fastAlgorithm
  dsimp only
  split
  · split
    · exact PdBus.stopAlgo_currents pcfg hstop hpd hfail
    · exact hpd.bus.log
  · generalize hs1 : (if r.chgDone ≠ s.isChgDone then s.onAlg ((pdAlg pcfg).notifierCall
      (if r.chgDone then .full else .recharge) r.notify) else s) = s1
    have hnotify : b.Pd pcfg ⟨s1.alg, s1.regs⟩ := by
      rw [← hs1]
      split
      · exact PdBus.notifierCall_currents pcfg _ hpd htuned
      · exact hpd
    split
    · obtain ⟨state, heq, -⟩ := (s1.alg.setSetting s1.setting).isAlgoReady_eq pcfg r.algReady
      have hunlimited : s1.setting.Unlimited := by
        rw [← hs1]
        split <;> exact hsetting
      change (PdBus.startAlgo pcfg r.start
        ⟨((s1.alg.setSetting s1.setting).isAlgoReady pcfg r.algReady).2, s1.regs⟩).regs.All b.Allows
      rw [heq]
      apply PdBus.startAlgo_currents pcfg hstart hfail
      · exact ⟨hnotify.bus, hnotify.table, hnotify.own⟩
      · exact ⟨Or.inl hunlimited.1, Or.inl hunlimited.2.1, hunlimited.2.2⟩
    · exact hnotify.bus.log

/-- The condition for `do_algorithm` to stay within the bounds. -/
structure AlgorithmCurrentsOk (r : AlgorithmReading PdReading) (s : Charger MtkPd) : Prop where
  /-- No bound is negative. -/
  charging_zero : (boundsOf cfg r.select s.swJeita.sm).Charging 0
  input_zero : (boundsOf cfg r.select s.swJeita.sm).Input 0
  zone : zoneApplies cfg s.swJeita.sm s.chrType = true
  /-- Without a negative current, the selected currents are programmed as they are. -/
  charging_nonneg : (boundsOf cfg r.select s.swJeita.sm).charging ≠ [] →
    ChargingNonneg cfg r.select s
  input_nonneg : (boundsOf cfg r.select s.swJeita.sm).input ≠ [] → InputNonneg cfg r.select s
  probes : ProbesWithin cfg (boundsOf cfg r.select s.swJeita.sm) r.select s
  pd : s.drivesPd cfg pcfg r = true →
    PdWithin pcfg (boundsOf cfg r.select s.swJeita.sm) r s

theorem Charger.chooseAlgorithm_currents (hforce : notForced r.select = true)
    (hlog : s.regs.All b.Allows)
    (hprobes : ProbesWithin cfg b r.select s)
    (hpd : s.drivesPd cfg pcfg r = true → PdWithin pcfg b r s) :
    (s.chooseAlgorithm cfg (pdAlg pcfg) r).2.regs.All b.Allows := by
  obtain ⟨hsel, hregs, hrun, hcap, hcurrent, hcurrent2⟩ :=
    select_currents cfg pcfg hlog hprobes
  unfold drivesPd at hpd
  unfold chooseAlgorithm
  dsimp only
  split_ifs with hfast
  · apply stopHighVoltage_currents pcfg hsel
    intro hrunning
    have hwithin := hpd (by rw [← hrun, hrunning]; rfl)
    exact ⟨hwithin.pd pcfg hsel hregs hcap hcurrent, hwithin.stop, hwithin.fail⟩
  · have hwithin := hpd (by simp [hfast])
    apply fastAlgorithm_currents pcfg (hwithin.pd pcfg hsel hregs hcap hcurrent)
      (selectChargingCurrentLimit_unlimited cfg pcfg hforce s)
    · unfold CurrentBounds.Tuned
      rw [hcurrent2]
      exact hwithin.tuned
    · exact hwithin.start
    · exact hwithin.stop
    · exact hwithin.fail

/-- Outside of the special cases and without forced limits, `do_algorithm` stays within the bounds
if the condition holds. -/
theorem Charger.doAlgorithm_currents (hspecial : isSpecial r.select s.chrType = false)
    (hforce : notForced r.select = true) (hok : AlgorithmCurrentsOk cfg pcfg r s)
    (hlog : s.regs.All (boundsOf cfg r.select s.swJeita.sm).Allows) :
    (s.doAlgorithm cfg (pdAlg pcfg) r).regs.All (boundsOf cfg r.select s.swJeita.sm).Allows := by
  have hchoose := chooseAlgorithm_currents cfg pcfg hforce hlog hok.probes hok.pd
  have hlimits := s.selectChargingCurrentLimit_within cfg (pdAlg pcfg) hspecial hforce hok.zone
    hok.charging_zero hok.input_zero hok.charging_nonneg hok.input_nonneg
  obtain ⟨_, _, heq⟩ := s.chooseAlgorithm_only cfg (pdAlg pcfg) r
  have hdata : (s.chooseAlgorithm cfg (pdAlg pcfg) r).2.data =
      (s.selectChargingCurrentLimit cfg (pdAlg pcfg) r.select).2.data := by rw [heq]
  rw [← hdata] at hlimits
  cases hchosen : (s.chooseAlgorithm cfg (pdAlg pcfg) r).1 with
  | true =>
    rw [doAlgorithm_basic cfg (pdAlg pcfg) hchosen]
    simp [programBasic, enable, onRegs, hchoose, hlimits]
  | false =>
    rw [doAlgorithm_fast cfg (pdAlg pcfg) hchosen]
    exact hchoose

end Algorithm

section Runs

variable (cfg : ChargerConfig) (pcfg : PdConfig)

/-- The state in which `do_algorithm` is called, with a new log. -/
def Charger.atAlgorithm (r : PassReading PdReading) (s : Charger MtkPd) : Charger MtkPd :=
  (s.beforeAlgorithm cfg (pdAlg pcfg) r).clearLog

/-- `do_algorithm` is called outside of the special cases and without forced limits. -/
def Charger.isBounded (r : PassReading PdReading) (s : Charger MtkPd) : Bool :=
  s.charges cfg (pdAlg pcfg) r &&
    !isSpecial r.algorithm.select (s.atAlgorithm cfg pcfg r).chrType &&
    notForced r.algorithm.select

/-- All currents that `do_algorithm` programs in a pass are within the limits of the thermal drivers
and of the JEITA zone. -/
def CurrentsGood (s : Charger MtkPd) : ChargerEvent PdReading → Prop
  | .pass r => s.isBounded cfg pcfg r = true →
      ((s.atAlgorithm cfg pcfg r).doAlgorithm cfg (pdAlg pcfg) r.algorithm).regs.All
        (boundsOf cfg r.algorithm.select (s.atAlgorithm cfg pcfg r).swJeita.sm).Allows
  | _ => True

/-- The condition on an event. -/
def CurrentsOk (s : Charger MtkPd) : ChargerEvent PdReading → Prop
  | .pass r => s.isBounded cfg pcfg r = true →
      AlgorithmCurrentsOk cfg pcfg r.algorithm (s.atAlgorithm cfg pcfg r)
  | _ => True

/-- Every event under its condition programs currents in bounds. -/
theorem currentsGood_of_currentsOk {s : Charger MtkPd} {e : ChargerEvent PdReading}
    (h : CurrentsOk cfg pcfg s e) : CurrentsGood cfg pcfg s e := by
  cases e with
  | pass r =>
    intro hbounded
    have hok := h hbounded
    unfold Charger.isBounded at hbounded
    simp only [Bool.and_eq_true, Bool.not_eq_true'] at hbounded
    apply Charger.doAlgorithm_currents cfg pcfg hbounded.1.2 hbounded.2 hok
    intro c hmem
    cases hmem
  | _ => trivial

/-- If every pass of a run meets the condition, all currents of the run are within the limits. -/
theorem currentsGood_of_runOk {es : List (ChargerEvent PdReading)} {init : Charger MtkPd}
    (hok : RunOk (Charger.step cfg (pdAlg pcfg)) (CurrentsOk cfg pcfg) init es) :
    ∀ pre e post, es = pre ++ e :: post →
      CurrentsGood cfg pcfg (pre.foldl (Charger.step cfg (pdAlg pcfg)) init) e := by
  intro pre e post hes
  apply currentsGood_of_currentsOk
  exact runOk_iff_forall_split.mp hok pre e post hes

end Runs

/-- A pass with a wall charger and a thermal limit of one ampere. -/
def limitedPass (p : PdReading) : PassReading PdReading :=
  (ordinaryPass .usbDcp 25 p).withThermalLimit 1000000

/-- A pass with a power delivery adapter, five and nine volts, and thermal limits above three
amperes. -/
def generousPass : PassReading PdReading :=
  let r := ordinaryPass .usbDcp 25 (drawnInFull nineVoltCap)
  { r with algorithm := { r.algorithm with
    select := { r.algorithm.select with
      thermalChargingCurrentLimit := 3200000, thermalInputCurrentLimit := 3200000 } } }

/-- The bounds of this pass. -/
def generousBounds : CurrentBounds := ⟨[3200000], [3200000]⟩

theorem table_nineVoltCap : generousBounds.Table nineVoltCap := by
  intro idx
  unfold nineVoltCap
  dsimp only
  split_ifs <;> decide

/-- What the pass needs of the state before it. -/
theorem algorithmCurrentsOk_generousPass {s : Charger MtkPd} (hsm : s.swJeita.sm = .t2ToT3)
    (htype : s.chrType = .usbDcp) (hregs : generousBounds.Regs s.regs)
    (haicl : -1 ≤ s.data.inputCurrentLimitByAicl) (htable : generousBounds.Table s.alg.cap)
    (hold : generousBounds.Charging (u32 s.alg.chargingCurrent1)) :
    AlgorithmCurrentsOk defaultChargerConfig defaultPdConfig generousPass.algorithm s := by
  have hbounds : boundsOf defaultChargerConfig generousPass.algorithm.select s.swJeita.sm =
      generousBounds := by
    rw [hsm]
    decide
  refine ⟨?_, ?_, ?_, ?_, ?_, ?_, ?_⟩
  · rw [hbounds]
    decide
  · rw [hbounds]
    decide
  · rw [hsm, htype]
    decide
  · intro _
    refine ⟨?_, fun _ => by decide⟩
    rw [htype]
    exact (by decide : (0 : ℤ) ≤ defaultChargerConfig.acCharger.charging)
  · intro _
    refine ⟨?_, by decide, fun _ => ⟨nofun, by decide, haicl, by decide, by decide⟩⟩
    rw [htype]
    exact (by decide : (0 : ℤ) ≤ defaultChargerConfig.acCharger.input)
  · rw [hbounds]
    exact fun _ => ⟨fun _ => ⟨by decide, hregs⟩, fun _ => ⟨by decide, hregs⟩⟩
  · rw [hbounds]
    exact fun _ => ⟨hregs.1, htable, ⟨by decide, by decide, hold⟩, nofun,
      ⟨table_nineVoltCap, table_nineVoltCap⟩, ⟨table_nineVoltCap, table_nineVoltCap⟩, by decide⟩

/-- A power delivery adapter is charged with three amperes, within higher thermal limits. -/
theorem currentsGood_generous :
    RunOk (Charger.step defaultChargerConfig (pdAlg defaultPdConfig))
        (CurrentsOk defaultChargerConfig defaultPdConfig) (initialCharger initialPd.pd)
        [.pass generousPass, .pass generousPass] ∧
      .chargingCurrent 3000000 ∈ (([.pass generousPass, .pass generousPass].foldl
        (Charger.step defaultChargerConfig (pdAlg defaultPdConfig))
        (initialCharger initialPd.pd))).regs.log ∧
      ∀ pre e post, [.pass generousPass, .pass generousPass] = pre ++ e :: post →
        CurrentsGood defaultChargerConfig defaultPdConfig
          (pre.foldl (Charger.step defaultChargerConfig (pdAlg defaultPdConfig))
            (initialCharger initialPd.pd)) e := by
  have htable : generousBounds.Table initialPd.pd.cap := by
    intro _
    change generousBounds.Input (u32 (0 * 1000))
    decide
  have hok : RunOk (Charger.step defaultChargerConfig (pdAlg defaultPdConfig))
      (CurrentsOk defaultChargerConfig defaultPdConfig) (initialCharger initialPd.pd)
      [.pass generousPass, .pass generousPass] := by
    refine ⟨fun _ => ?_, fun _ => ?_, trivial⟩
    all_goals
      exact algorithmCurrentsOk_generousPass (by decide +kernel) (by decide +kernel)
        (by decide +kernel) (by decide +kernel) htable (by decide +kernel)
  exact ⟨hok, by decide +kernel, currentsGood_of_runOk defaultChargerConfig defaultPdConfig hok⟩

/-- A power delivery adapter is charged with the full current of the algorithm, although there is a
thermal limit: it is overwritten by the forced limits before the algorithm gets it. -/
theorem not_currentsGood_pdCharger :
    ¬∀ pre e post, [.pass (limitedPass (drawnInFull nineVoltCap)),
      .pass (limitedPass (drawnInFull nineVoltCap))] = pre ++ e :: post →
      CurrentsGood defaultChargerConfig defaultPdConfig
        (pre.foldl (Charger.step defaultChargerConfig (pdAlg defaultPdConfig))
          (initialCharger initialPd.pd)) e := by
  intro hall
  have hpass := hall [.pass (limitedPass (drawnInFull nineVoltCap))]
    (.pass (limitedPass (drawnInFull nineVoltCap))) [] rfl (by decide +kernel)
  have hallowed := hpass (.chargingCurrent 3000000) (by decide +kernel)
  rw [CurrentBounds.allows_chargingCurrent, boundsOf_charging] at hallowed
  exact absurd (hallowed.1 (by decide)) (by decide)

end Mt8169.Power
