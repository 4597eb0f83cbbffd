import Mathlib.Algebra.Order.Group.Int
import Mt8169.Power.Currents

/-!
# The choices of the power delivery algorithm

The next profiles upwards and downwards are the right ones. A negative power is a large one in the
choice between them. A request that fails is not undone in full. The charging current with one
charger depends on the earlier ones.
-/

namespace Mt8169.Power

open MachineInt Runs List

variable (cfg : PdConfig) (r : PdReading) (ibus : ℤ) (cap : PdPowerCap) (selected : ℤ)

section Next

variable (better : ℤ → ℤ → Bool)

/-- The power of a profile within the bounds is better than that of the selected one. -/
def Candidate (i : ℕ) : Prop :=
  (cap.profile i).inBounds cfg = true ∧
    better (cap.profile i).maxwatt (cap.profile selected).maxwatt = true

/-- The index is that of the least good candidate among the first profiles, or the selected one
without a candidate. -/
def IsNext (n : ℕ) (idx : ℤ) : Prop :=
  (idx = selected ∧ ∀ i < n, ¬Candidate cfg cap selected better i) ∨
    ∃ i < n, idx = i ∧ Candidate cfg cap selected better i ∧
      ∀ j < n, Candidate cfg cap selected better j →
        better (cap.profile i).maxwatt (cap.profile j).maxwatt = false

variable {cap selected better}

/-- The next index has the next power. -/
theorem nextIdx_isNext (hirrefl : ∀ a, better a a = false)
    (htrans : ∀ a b c, better a b = true → better b c = true → better a c = true) :
    IsNext cfg cap selected better cap.nr (nextIdx cfg better cap selected) := by
  unfold nextIdx
  -- the invariant of the loop: the index is the next one among the profiles so far
  generalize cap.nr = n
  induction n with
  | zero => exact Or.inl ⟨rfl, by simp⟩
  | succ n ih =>
    rw [range_succ, foldl_append, foldl_cons, foldl_nil]
    generalize (range n).foldl _ selected = idx at ih
    unfold IsNext Candidate at ih ⊢
    grind

end Next

/-- The entries of `__mtk_pdc_get_idx` have the least power above that of the selected profile and
the greatest one below it. -/
theorem getIdx_isNext (pd : MtkPd) (hselected : 0 ≤ selected) :
    IsNext cfg pd.cap selected (fun a b => decide (a > b)) pd.cap.nr
        (pd.getIdx cfg selected).pdBoostIdx ∧
      IsNext cfg pd.cap selected (fun a b => decide (a < b)) pd.cap.nr
        (pd.getIdx cfg selected).pdBuckIdx := by
  unfold MtkPd.getIdx
  rw [if_neg (by omega)]
  constructor <;> apply nextIdx_isNext <;>
    simp only [decide_eq_true_eq, decide_eq_false_iff_not] <;> omega

/-- Two profiles of five and nine volts. -/
theorem getIdx_isNext_nineVolts : (0 : ℤ) ≤ 0 ∧
    IsNext defaultPdConfig nineVoltCap 0 (fun a b => decide (a > b)) 2 1 ∧
    IsNext defaultPdConfig nineVoltCap 0 (fun a b => decide (a < b)) 2 0 :=
  ⟨by decide, getIdx_isNext defaultPdConfig 0 { initialPd.pd with cap := nineVoltCap } (by decide)⟩

/-- A step upwards can be taken back: the next profile downwards has the power before. -/
theorem buck_of_boost {i : ℕ} (hi : i < cap.nr) (hin : (cap.profile i).inBounds cfg)
    (hne : boostIdxOf cfg cap i ≠ i) :
    (cap.profile (buckIdxOf cfg cap (boostIdxOf cfg cap i))).maxwatt =
      (cap.profile i).maxwatt := by
  have hup : IsNext cfg cap i (fun a b => decide (a > b)) cap.nr (boostIdxOf cfg cap i) :=
    nextIdx_isNext cfg (by simp) (by grind)
  generalize boostIdxOf cfg cap i = j at hne hup ⊢
  have hdown : IsNext cfg cap j (fun a b => decide (a < b)) cap.nr (buckIdxOf cfg cap j) :=
    nextIdx_isNext cfg (by simp) (by grind)
  unfold IsNext Candidate at hup hdown
  -- a power in between would be the next one
  grind

theorem buck_of_boost_nineVolts :
    (nineVoltCap.profile (buckIdxOf defaultPdConfig nineVoltCap 1)).maxwatt =
      (nineVoltCap.profile 0).maxwatt :=
  buck_of_boost _ _ (i := 0) (by decide) (by decide) (by decide)

/-- What `__mtk_pdc_get_setting` can choose. -/
inductive Choice where
  | boost | buck | keep
  deriving DecidableEq

/-- The profile of a choice. -/
def MtkPd.entry (pd : MtkPd) : Choice → ℤ
  | .boost => pd.pdBoostIdx
  | .buck => pd.pdBuckIdx
  | .keep => pd.cap.selectedIdx

/-- The choice of the code. -/
def choice (pd : MtkPd) : Choice :=
  if boosts cfg r ibus pd.cap then .boost else if bucks cfg ibus pd.cap pd.pdBuckIdx then .buck
  else .keep

/-- A charger is in its input voltage loop. -/
def mivrFlag : Bool := r.mivrState1 || (cfg.dualChargers && r.chip2Enabled && r.mivrState2)

/-- The present power. -/
def presentPower : ℤ :=
  (cap.profile cap.selectedIdx).maxMv * (if ibus.tdiv 1000 = 0 then 1000 else ibus.tdiv 1000)

/-- The power from which on the profile in use is drawn in full. -/
def fullPower : ℤ :=
  let p := cap.profile cap.selectedIdx
  p.maxMv * (p.ma.tdiv 100 * (100 - cfg.ibusErr) - 100)

/-- The power for which the next profile downwards is enough. -/
def buckPower (buckIdx : ℤ) : ℤ :=
  let p := cap.profile buckIdx
  (p.maxMv * p.ma).tdiv 100 * (100 - cfg.ibusErr) - cfg.vsysWatt

/-- The choice with the powers as integers. -/
def wantedChoice (pd : MtkPd) : Choice :=
  if fullPower cfg pd.cap ≤ presentPower ibus pd.cap ∨ mivrFlag cfg r = true then .boost
  else if presentPower ibus pd.cap ≤ max 5000000 (buckPower cfg pd.cap pd.pdBuckIdx) then .buck
  else .keep

/-- A value fits a signed integer. -/
def Fits (x : ℤ) : Prop := -2 ^ 31 ≤ x ∧ x < 2 ^ 31
  deriving Decidable

/-- The signs of the powers are such that the unsigned comparisons are right. -/
def SignsOk (now full buck : ℤ) : Prop :=
  (now < 0 ↔ full < 0) ∧
    (full ≤ now ∨ 0 ≤ now ∧ (0 ≤ buck ∨ now ≤ 5000000) ∨ now < 0 ∧ buck < 0 ∧ now ≤ buck)
  deriving Decidable

theorem u32_of_fits {x : ℤ} (h : Fits x) : (u32 x : ℤ) = if x < 0 then x + 2 ^ 32 else x := by
  unfold Fits at h
  unfold u32
  split <;> omega

/-- The entry of the code is that of its choice, and the choice is the wanted one exactly if a
charger is in its input voltage loop or the signs of the powers are right. -/
theorem getSetting_choice_iff {b : PdBus} {pd : MtkPd}
    (hpd : (b.pd.initTable r.table).getResetIdx cfg = pd) (hnr : pd.cap.nr ≠ 0)
    (hibus : r.ibus = some ibus) (hreset : vbusDropped cfg r = false)
    (hnow : Fits (presentPower ibus pd.cap)) (hfull : Fits (fullPower cfg pd.cap))
    (hbuck : Fits (buckPower cfg pd.cap pd.pdBuckIdx)) :
    (b.getSetting cfg r).1 = some (pd.entry (choice cfg r ibus pd)) ∧
      (choice cfg r ibus pd = wantedChoice cfg r ibus pd ↔
        mivrFlag cfg r = true ∨ SignsOk (presentPower ibus pd.cap) (fullPower cfg pd.cap)
          (buckPower cfg pd.cap pd.pdBuckIdx)) := by
  constructor
  · unfold PdBus.getSetting choice
    simp only [hpd, hnr, hibus, hreset, if_false, Bool.false_eq_true, MtkPd.newIdx]
    split_ifs <;> rfl
  · have hnow' := u32_of_fits hnow
    have hfull' := u32_of_fits hfull
    have hbuck' := u32_of_fits hbuck
    have hboosts : boosts cfg r ibus pd.cap = true ↔
        u32 (fullPower cfg pd.cap) ≤ u32 (presentPower ibus pd.cap) ∨ mivrFlag cfg r = true := by
      unfold boosts mivrFlag
      rw [Bool.or_assoc, Bool.or_eq_true, decide_eq_true_eq]
      rfl
    have hbucks : bucks cfg ibus pd.cap pd.pdBuckIdx = true ↔
        u32 (presentPower ibus pd.cap) ≤ 5000000 ∨
          u32 (presentPower ibus pd.cap) ≤ u32 (buckPower cfg pd.cap pd.pdBuckIdx) := by
      unfold bucks
      rw [decide_eq_true_eq, ← buckPower, PdPowerCap.nowMaxWatt, ← presentPower]
      split <;> omega
    unfold choice wantedChoice SignsOk
    simp only [hboosts, hbucks, le_max_iff]
    rcases hflag : mivrFlag cfg r with _ | _
    · unfold Fits at hnow hfull hbuck
      simp only [Bool.false_eq_true, or_false, false_or]
      split_ifs at * <;> simp only [false_iff, true_iff] <;> omega
    · simp

/-- An adapter with five volts and less than one ampere, and with nine volts, which are in use. -/
def weakBuckCap : PdPowerCap where
  selectedCapIdx := 1
  nr := 2
  profile i := if i = 0 then ⟨5000, 5000, 900, 4500000⟩ else threeAmps 9000

/-- Three amperes of nine volts are drawn in part. -/
def drawnInPart : PdReading := { drawnInFull weakBuckCap with ibus := some 1500000 }

/-- The algorithm with the nine volts set up. -/
def nineVoltPd : MtkPd :=
  { initialPd.pd with cap := weakBuckCap, pdIdx := 1, pdResetIdx := 0, pdBoostIdx := 1 }

/-- The only profile is kept. -/
theorem getSetting_choice_fiveVolts :
    Fits (presentPower 2900000 fiveVoltCap) ∧ Fits (fullPower defaultPdConfig fiveVoltCap) ∧
    Fits (buckPower defaultPdConfig fiveVoltCap 0) ∧
    choice defaultPdConfig (drawnInFull fiveVoltCap) 2900000
        { nineVoltPd with cap := fiveVoltCap, pdBoostIdx := 0 } =
      wantedChoice defaultPdConfig (drawnInFull fiveVoltCap) 2900000
        { nineVoltPd with cap := fiveVoltCap, pdBoostIdx := 0 } :=
  ⟨by decide, by decide, by decide,
    (getSetting_choice_iff (b := { initialPd with pd := { nineVoltPd with pdBoostIdx := 0 } })
      _ _ _ rfl (by decide) rfl (by decide) (by decide) (by decide) (by decide)).2.mpr (by decide)⟩

/-- Five volts with less than one ampere do not give the power of the system, and the difference is
a large unsigned number: thirteen watts are to be drawn from this profile. -/
theorem not_getSetting_choice :
    choice defaultPdConfig drawnInPart 1500000 nineVoltPd = .buck ∧
    wantedChoice defaultPdConfig drawnInPart 1500000 nineVoltPd = .keep ∧
    (PdBus.getSetting defaultPdConfig drawnInPart { initialPd with pd := nineVoltPd }).1 =
      some 0 := by
  decide

/-- The state that `__mtk_pdc_setup` changes: the algorithm with the registers of the primary
charger, its `MIVR`, and whether the protection against high voltages is enabled. -/
structure SetupBus where
  bus : PdBus
  mivr : ℕ
  vbusOvp : Bool

/-- `__mtk_pdc_setup` with all of its state. `MIVR` is the lowest voltage during the request. -/
def SetupBus.setup (minChargerVoltage : ℕ) (r : SetupReading) (idx : ℤ) (s : SetupBus) : SetupBus :=
  let r := { r with mivr1 := s.mivr }
  let bus := s.bus.setup cfg r idx
  if asks cfg r s.bus.pd.cap s.bus.pd.pdIdx idx then
    let maxMv := (s.bus.pd.cap.profile idx).maxMv
    let lowest := minChargerVoltage / 1000
    let wanted := u32 (maxMv - pdVbusIrDropThreshold)
    { bus
      mivr := if r.capAccepted then (if wanted > lowest then wanted else lowest) * 1000 else s.mivr
      vbusOvp := decide (maxMv ≤ 5000) }
  else { s with bus }

/-- The state from before a call. -/
def Restored (s s' : SetupBus) : Prop :=
  s'.bus.regs.inputCurrent = s.bus.regs.inputCurrent ∧ s'.mivr = s.mivr ∧
    s'.vbusOvp = s.vbusOvp ∧ s'.bus.pd.pdIdx = s.bus.pd.pdIdx

/-- A failed request is undone exactly if the profile was the one in use, the protection already
was as this profile needs it, and the input current was not above that of the profile or a multiple
of a milliampere. -/
theorem setup_restored_iff (minChargerVoltage : ℕ) {r : SetupReading} {idx : ℤ} {s : SetupBus}
    (hasks : asks cfg { r with mivr1 := s.mivr } s.bus.pd.cap s.bus.pd.pdIdx idx = true)
    (hfails : r.capAccepted = false) :
    Restored s (s.setup cfg minChargerVoltage r idx) ↔
      s.bus.pd.pdIdx = idx ∧
      s.vbusOvp = decide ((s.bus.pd.cap.profile idx).maxMv ≤ 5000) ∧
      (u32 s.bus.regs.inputCurrent / 1000 ≤ u32 (s.bus.pd.cap.profile idx).ma ∨
        (u32 s.bus.regs.inputCurrent / 1000 : ℕ) * 1000 = s.bus.regs.inputCurrent) := by
  obtain ⟨mivr1, chip2Enabled, mivr2, capAccepted⟩ := r
  obtain rfl : capAccepted = false := hfails
  unfold Restored SetupBus.setup PdBus.setup PdBus.request
  simp only [if_pos hasks, Bool.false_eq_true, if_false]
  by_cases hma : u32 s.bus.regs.inputCurrent / 1000 ≤ u32 (s.bus.pd.cap.profile idx).ma
  · rw [if_neg (by omega), if_neg (by omega)]
    grind
  · rw [if_pos (by omega)]
    simp only [Registers.pdHalSetInputCurrent, Registers.setInputCurrent, if_true, u32_milliamps]
    grind

/-- A charger with an input current, five volts in use, before the nine volts are requested. -/
def fiveVoltSetup (inputCurrent pdIdx : ℤ) : SetupBus where
  bus :=
    { pd := { initialPd.pd with cap := nineVoltCap, pdIdx },
      regs := { initialPd.regs with inputCurrent } }
  mivr := 4600000
  vbusOvp := true

/-- The input voltage limit is restored. -/
theorem setup_restored_again :
    asks defaultPdConfig ⟨3000000, false, 0, false⟩ nineVoltCap 0 0 = true ∧
    Restored { fiveVoltSetup 500000 0 with mivr := 3000000 }
      (SetupBus.setup defaultPdConfig 4600000 ⟨0, false, 0, false⟩ 0
        { fiveVoltSetup 500000 0 with mivr := 3000000 }) :=
  ⟨by decide, (setup_restored_iff _ _ (by decide) rfl).mpr (by decide)⟩

/-- The nine volts are refused: their profile is taken to be in use, and the protection is off. -/
theorem not_setup_restored :
    ¬Restored (fiveVoltSetup 500000 0)
      (SetupBus.setup defaultPdConfig 4600000 ⟨0, false, 0, false⟩ 1 (fiveVoltSetup 500000 0)) := by
  unfold Restored
  decide

/-- The calls of which the algorithm for one charger consists. -/
inductive PdCall where
  | setSetting (setting : LimitSetting)
  | setCharger (r : PdReading)

/-- A call. -/
def PdBus.call (b : PdBus) : PdCall → PdBus
  | .setSetting setting => { b with pd := b.pd.setSetting setting }
  | .setCharger r => b.scSetCharger cfg r

/-- `pd_sc_set_charger` returns zero. -/
def PdBus.ScReturnsZero (b : PdBus) : Prop :=
  b.pd.inputCurrentLimit1 ≠ 0 ∧ b.pd.chargingCurrentLimit1 ≠ 0 ∧
    (b.scSetCharger cfg r).pd.inputCurrent1 ≠ 0 ∧ (b.scSetCharger cfg r).pd.chargingCurrent1 ≠ 0

/-- The configured current with a limit. -/
def ownWithin (limit own : ℤ) : ℤ := if limit ≠ -1 then min limit own else own

/-- What a call has to do: a `pd_sc_set_charger` that returns zero programs the configured currents
within the limits, as unsigned numbers, and has the currents of `pd_dcs_set_charger` for the same
configuration. -/
def CallGood (b : PdBus) : PdCall → Prop
  | .setSetting _ => True
  | .setCharger r => b.ScReturnsZero cfg r →
    (b.scSetCharger cfg r).regs.chargingCurrent =
      u32 (ownWithin b.pd.chargingCurrentLimit1 cfg.scChargerCurrent) ∧
    (b.scSetCharger cfg r).regs.inputCurrent =
      u32 (ownWithin b.pd.inputCurrentLimit1 cfg.scInputCurrent) ∧
    (cfg.dcsChg1ChargerCurrent = cfg.scChargerCurrent → cfg.dcsInputCurrent = cfg.scInputCurrent →
      b.pd.chargingCurrentLimit2 ≠ 0 →
      (b.scSetCharger cfg r).pd.chargingCurrent1 = (b.dcsSetCharger cfg r).pd.chargingCurrent1 ∧
      (b.scSetCharger cfg r).pd.inputCurrent1 = (b.dcsSetCharger cfg r).pd.inputCurrent1)

/-- The limit on the charging current is below the configured one, or the current that the earlier
calls left is the configured one. -/
def CallOk (b : PdBus) : PdCall → Prop
  | .setSetting _ => True
  | .setCharger _ =>
    b.pd.chargingCurrentLimit1 = -1 ∨ b.pd.chargingCurrentLimit1 < cfg.scChargerCurrent ∨
    b.pd.chargingCurrent1 = cfg.scChargerCurrent

variable {b : PdBus}

theorem scSetCharger_eq_program (h : b.ScReturnsZero cfg r) :
    b.scSetCharger cfg r = (b.scCurrents cfg r).program := by
  obtain ⟨hinput, hcharging, hinput', hcharging'⟩ := h
  have heq := b.scSetCharger_eq cfg r
  rw [if_neg (not_or.mpr ⟨hinput, hcharging⟩)] at heq
  dsimp only at heq
  split_ifs at heq with hzero
  · rw [heq] at hinput' hcharging'
    exact absurd hzero (not_or.mpr ⟨hinput', hcharging'⟩)
  · exact heq

theorem dcsSetCharger_currents (hinput : b.pd.inputCurrentLimit1 ≠ 0)
    (hcharging : b.pd.chargingCurrentLimit1 ≠ 0) (hsecond : b.pd.chargingCurrentLimit2 ≠ 0) :
    (b.dcsSetCharger cfg r).pd.inputCurrent1 =
        limitedCurrent r.minInputCurrent1 b.pd.inputCurrentLimit1 cfg.dcsInputCurrent ∧
      (b.dcsSetCharger cfg r).pd.chargingCurrent1 = limitedCurrent r.minChargingCurrent1
        b.pd.chargingCurrentLimit1 cfg.dcsChg1ChargerCurrent := by
  unfold PdBus.dcsSetCharger
  rw [if_neg (by simp [hinput, hcharging, hsecond])]
  dsimp only
  generalize limitedCurrent r.minChargingCurrent2 _ _ = second
  split
  · exact ⟨rfl, rfl⟩
  · split <;> exact ⟨rfl, rfl⟩

theorem limitedCurrent_eq_ownWithin {least : Option ℤ} {limit own : ℤ}
    (h : limitedCurrent least limit own ≠ 0) :
    limitedCurrent least limit own = ownWithin limit own := by
  unfold limitedCurrent ownWithin at *
  grind [→ atLeastMin_eq_of_ne_zero]

/-- A call under its condition programs what it should. -/
theorem callGood_of_callOk {c : PdCall} (hok : CallOk cfg b c) : CallGood cfg b c := by
  rcases c with setting | r
  · trivial
  intro hreturns
  have hprogram := scSetCharger_eq_program cfg r hreturns
  obtain ⟨hinput, hcharging, hinput', hcharging'⟩ := hreturns
  rw [hprogram] at hinput' hcharging' ⊢
  have hown : b.pd.scCharging cfg r = limitedCurrent
      r.minChargingCurrent1 b.pd.chargingCurrentLimit1 cfg.scChargerCurrent := by
    change b.pd.scCharging cfg r ≠ 0 at hcharging'
    unfold CallOk at hok
    unfold MtkPd.scCharging limitedCurrent at *
    grind [→ atLeastMin_eq_of_ne_zero]
  have hwithin := hown.trans (limitedCurrent_eq_ownWithin (hown ▸ hcharging'))
  have hwithin' := limitedCurrent_eq_ownWithin hinput'
  refine ⟨?_, ?_, fun hsame hsame' hsecond => ?_⟩
  · rw [← hwithin]
    rfl
  · rw [← hwithin']
    rfl
  obtain ⟨hdcsInput, hdcsCharging⟩ := dcsSetCharger_currents cfg r hinput hcharging hsecond
  rw [hdcsInput, hdcsCharging, hsame, hsame']
  exact ⟨hown, rfl⟩

/-- In every sequence of calls whose steps meet the condition `pd_sc_set_charger` has no memory. -/
theorem run_callGood {calls : List PdCall} (hok : RunOk (PdBus.call cfg) (CallOk cfg) b calls) :
    ∀ pre c post, calls = pre ++ c :: post → CallGood cfg (pre.foldl (PdBus.call cfg) b) c :=
  runOk_iff_forall_split.mp (hok.good (fun _ => True) (fun _ _ _ => callGood_of_callOk cfg)
    (fun _ _ _ _ => trivial) trivial)

/-- Limits on the charging current only. -/
def chargingLimit (uA : ℤ) : PdCall := .setSetting ⟨4350000, -1, -1, uA, -1⟩

/-- A limit of one ampere, and the charger is programmed. -/
def oneAmpere : List PdCall := [chargingLimit 1000000, .setCharger (drawnInFull fiveVoltCap)]

/-- A run at one ampere. -/
theorem run_callGood_oneAmpere :
    RunOk (PdBus.call defaultPdConfig) (CallOk defaultPdConfig) initialPd oneAmpere ∧
    ∀ pre c post, oneAmpere = pre ++ c :: post →
      CallGood defaultPdConfig (pre.foldl (PdBus.call defaultPdConfig) initialPd) c :=
  have hok := ⟨trivial, Or.inr (Or.inl (by decide)), trivial⟩
  ⟨hok, run_callGood defaultPdConfig hok⟩

/-- Then the limit is 3.5 amperes: three amperes are configured, and one ampere is programmed. -/
theorem not_callGood_raised :
    ¬CallGood defaultPdConfig
      ((oneAmpere ++ [chargingLimit 3500000]).foldl (PdBus.call defaultPdConfig) initialPd)
      (.setCharger (drawnInFull fiveVoltCap)) := by
  intro hgood
  have hsame := (hgood ⟨by decide, by decide, by decide, by decide⟩).1
  exact absurd hsame (by decide)

end Mt8169.Power
