import Mt8169.Lib.Runs
import Mt8169.Power.Selection
import Mt8169.Power.Pd

/-!
# The voltage in a JEITA zone

A JEITA zone has a voltage above which the battery should not be charged. The voltage of the primary
charger is programmed by the status check, by basic charging, by the power delivery algorithm and in
the detection of an adapter's power. Here it is said in which passes all of them stay within the
voltage of the zone.
-/

namespace Mt8169.Power

open MachineInt Runs MtkPd PdBus Charger Registers

/-- A command programs no voltage above a bound. -/
def ChargerCmd.CvWithin (bound : ℕ) : ChargerCmd → Prop
  | .constantVoltage uV => uV ≤ bound
  | .inputCurrent _ | .chargingCurrent _ => True

@[simp]
theorem ChargerCmd.cvWithin_constantVoltage {bound uV : ℕ} :
    (ChargerCmd.constantVoltage uV).CvWithin bound ↔ uV ≤ bound := Iff.rfl

@[simp]
theorem ChargerCmd.cvWithin_inputCurrent {bound : ℕ} {uA : ℤ} :
    (ChargerCmd.inputCurrent uA).CvWithin bound := trivial

@[simp]
theorem ChargerCmd.cvWithin_chargingCurrent {bound : ℕ} {uA : ℤ} :
    (ChargerCmd.chargingCurrent uA).CvWithin bound := trivial

/-- All voltages that were programmed are within a bound. -/
abbrev Registers.CvsWithin (bound : ℕ) (regs : Registers) : Prop :=
  regs.All (ChargerCmd.CvWithin bound)

namespace Registers

variable {bound : ℕ}

theorem cvsWithin_checkInvalid (cfg : ChargerConfig) (done : Bool) (regs : Registers) :
    (regs.checkInvalid cfg done).CvsWithin bound ↔ regs.CvsWithin bound := by
  unfold checkInvalid probe
  split <;> simp

@[simp]
theorem checkInvalid_constantVoltage (cfg : ChargerConfig) (done : Bool) (regs : Registers) :
    (regs.checkInvalid cfg done).constantVoltage = regs.constantVoltage := by
  unfold checkInvalid
  split <;> rfl

end Registers

section Pd

variable (cfg : PdConfig) (bound : ℕ) {b : PdBus}

/-- An operation of the algorithm programs no voltage and keeps the one to program. -/
structure PdBus.KeepsCv (b b' : PdBus) : Prop where
  cv : b'.pd.cv = b.pd.cv
  within : b'.regs.CvsWithin bound ↔ b.regs.CvsWithin bound

/-- The parts of the PD algorithm program no voltage. -/
theorem keptCv (b : PdBus) : PdKept cfg (fun _ => True) (b.KeepsCv bound) where
  pd h hsame := ⟨hsame.cv.trans h.cv, h.within⟩
  read h _ := ⟨h.cv, h.within⟩
  request r idx h := by
    refine ⟨h.cv, Iff.trans ?_ h.within⟩
    unfold request
    dsimp only
    repeat' split
    all_goals simp
  limit _ h := ⟨h.cv, h.within⟩
  fail h := ⟨h.cv, h.within⟩

variable (r : PdReading)

section

variable (hcv : b.pd.cv ≤ bound)
include hcv

theorem PdBus.program_within :
    b.program.regs.CvsWithin bound ↔ b.regs.CvsWithin bound := by
  simp [program, hcv]

theorem PdBus.scSetCharger_within :
    (b.scSetCharger cfg r).regs.CvsWithin bound ↔ b.regs.CvsWithin bound := by
  unfold scSetCharger
  dsimp only
  repeat' split
  all_goals first
    | exact Iff.rfl
    | exact program_within bound hcv

theorem PdBus.dcsSetCharger_within :
    (b.dcsSetCharger cfg r).regs.CvsWithin bound ↔ b.regs.CvsWithin bound := by
  unfold dcsSetCharger
  dsimp only
  generalize limitedCurrent r.minInputCurrent1 _ _ = input1
  generalize limitedCurrent r.minChargingCurrent1 _ _ = charging1
  generalize limitedCurrent r.minChargingCurrent2 _ _ = charging2
  repeat' split
  · exact Iff.rfl
  · exact Iff.rfl
  · simp [program, programSecond, hcv]
  · exact program_within bound hcv
  · exact program_within bound hcv
  · exact Iff.rfl

theorem PdBus.startAlgo_within :
    (b.startAlgo cfg r).regs.CvsWithin bound ↔ b.regs.CvsWithin bound := by
  refine (keptCv cfg bound b).startAlgo
    (J := fun b' => b'.regs.CvsWithin bound ↔ b.regs.CvsWithin bound) KeepsCv.within ?_ trivial
    trivial ⟨rfl, Iff.rfl⟩
  intro b' hkeeps
  have hcv' : b'.pd.cv ≤ bound := by
    rw [hkeeps.cv]
    exact hcv
  rw [← hkeeps.within]
  unfold setCharger
  split
  · exact dcsSetCharger_within cfg bound r hcv'
  · exact scSetCharger_within cfg bound r hcv'

end

/-- A stop programs the voltage kept by a running algorithm. -/
theorem PdBus.stopAlgo_within (b : PdBus) :
    (b.stopAlgo cfg r).regs.CvsWithin bound ↔
      b.regs.CvsWithin bound ∧ (b.pd.state.running = true → b.pd.cv ≤ bound) := by
  have hreset := (keptCv cfg bound b).pdcReset r.resetTable trivial r.resetSetup
    ⟨rfl, Iff.rfl⟩
  unfold stopAlgo
  cases b.pd.state.running with
  | false => simp
  | true =>
    rw [if_pos rfl]
    simp [hreset.within, hreset.cv]

theorem PdBus.notifierCall_keepsCv (event : AlgEvent) (r : PdReading) (b : PdBus) :
    b.KeepsCv bound (b.notifierCall cfg event r) := by
  refine (keptCv cfg bound b).notifierCall event (fun _ => ⟨rfl, ?_⟩) ⟨rfl, Iff.rfl⟩
  simp [tuneSecond]

theorem MtkPd.isAlgoReady_cv (pd : MtkPd) : (pd.isAlgoReady cfg r).2.cv = pd.cv := by
  obtain ⟨state, heq, -⟩ := pd.isAlgoReady_eq cfg r
  rw [heq]
  rfl

end Pd

section Algorithm

variable (cfg : ChargerConfig) (pcfg : PdConfig) (bound : ℕ) {s : Charger MtkPd}

/-- The selected voltage is at most that of the JEITA zone. -/
theorem Charger.selectedCv_le {σ : Type} {s : Charger σ} (hjeita : cfg.enableSwJeita = true)
    (hcv : s.swJeita.cv ≠ 0) (aging : ℕ) : s.selectedCv cfg aging ≤ s.swJeita.cv := by
  unfold selectedCv
  dsimp only
  rw [if_pos ⟨hjeita, hcv⟩]
  split
  · split
    · omega
    · exact Nat.le_refl _
  · exact Nat.le_refl _

/-- The detection of an adapter programs the voltage of a new battery. -/
theorem Registers.cvsWithin_detectAdapter {ρ : Type} (r : SelectReading ρ) (chrType : ChrType)
    (iusb : ℤ) (regs : Registers) :
    (regs.detectAdapter cfg r chrType iusb).CvsWithin bound ↔
      regs.CvsWithin bound ∧ (detects cfg r chrType iusb = true →
        cfg.batteryCv.new ≤ bound ∧ regs.constantVoltage ≤ bound) := by
  unfold detectAdapter
  cases detects cfg r chrType iusb with
  | false => simp
  | true => simp [detect, and_assoc]

theorem pdAlg_maxVbus : (pdAlg pcfg).maxVbus > 5000 := by
  change (10000 : ℤ) > 5000
  decide

variable (r : AlgorithmReading PdReading)

theorem Charger.stopHighVoltage_within (s : Charger MtkPd) :
    (s.stopHighVoltage (pdAlg pcfg) r).regs.CvsWithin bound ↔ s.regs.CvsWithin bound ∧
      (s.noHighVoltage r = true ∧ s.alg.state.running = true → s.alg.cv ≤ bound) := by
  have hstop := stopAlgo_within pcfg bound r.stop ⟨s.alg, s.regs⟩
  unfold stopHighVoltage
  by_cases hno : s.noHighVoltage r = true ∧ s.alg.state.running = true
  · rw [if_pos ⟨hno.1, pdAlg_maxVbus pcfg, hno.2⟩]
    simp only [hno, and_self, forall_const] at hstop ⊢
    exact hstop
  · rw [if_neg (fun h => hno ⟨h.1, h.2.2⟩)]
    simp [hno]

/-- An algorithm call programs a further voltage only if it stops. -/
theorem Charger.fastAlgorithm_within (hcv : s.setting.cv ≤ bound) :
    (s.fastAlgorithm (pdAlg pcfg) r).2.regs.CvsWithin bound ↔ s.regs.CvsWithin bound ∧
      (s.noHighVoltage r = true ∧ s.alg.state.running = true → s.alg.cv ≤ bound) := by
  unfold fastAlgorithm
  dsimp only
  cases hno : s.noHighVoltage r with
  | true =>
    rw [if_pos rfl, if_pos (pdAlg_maxVbus pcfg)]
    simp only [true_and]
    exact stopAlgo_within pcfg bound r.stop ⟨s.alg, s.regs⟩
  | false =>
    simp only [Bool.false_eq_true, if_false, false_and, false_imp_iff, and_true]
    generalize hs1 : (if r.chgDone ≠ s.isChgDone then s.onAlg ((pdAlg pcfg).notifierCall
      (if r.chgDone then .full else .recharge) r.notify) else s) = s1
    have hnotify : (s1.regs.CvsWithin bound ↔ s.regs.CvsWithin bound) ∧ s1.setting = s.setting := by
      rw [← hs1]
      split
      · exact ⟨(notifierCall_keepsCv pcfg bound _ r.notify ⟨s.alg, s.regs⟩).within, rfl⟩
      · exact ⟨Iff.rfl, rfl⟩
    rw [← hnotify.1]
    split
    · have hcv' : ((pdAlg pcfg).isAlgoReady r.algReady
          ((pdAlg pcfg).setCurrentLimit s1.setting s1.alg)).2.cv ≤ bound := by
        rw [← hnotify.2] at hcv
        have hready := isAlgoReady_cv pcfg r.algReady (s1.alg.setSetting s1.setting)
        exact Nat.le_trans (Nat.le_of_eq hready) hcv
      exact startAlgo_within pcfg bound r.start
        (b := ⟨((pdAlg pcfg).isAlgoReady r.algReady
          ((pdAlg pcfg).setCurrentLimit s1.setting s1.alg)).2, s1.regs⟩) hcv'
    · exact Iff.rfl

theorem Charger.select_within {r : SelectReading PdReading}
    (hcv : s.selectedCv cfg r.aging ≤ bound) :
    let s' := (s.selectChargingCurrentLimit cfg (pdAlg pcfg) r).2
    (looksAtCharger r s.chrType = true → s'.alg.cv ≤ bound ∧
      (s'.regs.CvsWithin bound ↔ s.regs.CvsWithin bound ∧
        (detects cfg r s.chrType s.detectionIusb = true →
          cfg.batteryCv.new ≤ bound ∧ s.regs.constantVoltage ≤ bound))) ∧
    (looksAtCharger r s.chrType = false → s'.alg = s.alg ∧ s'.regs = s.regs) := by
  have hselects := s.selectChargingCurrentLimit_selects cfg (pdAlg pcfg) r
  dsimp only
  cases hlooks : looksAtCharger r s.chrType with
  | true =>
    rw [hlooks, if_pos rfl] at hselects
    obtain ⟨_, _, _, _, heq, -⟩ := hselects
    rw [heq]
    refine ⟨fun _ => ⟨?_, ?_⟩, nofun⟩
    · exact Nat.le_trans (Nat.le_of_eq (isAlgoReady_cv pcfg r.algReady _)) hcv
    · rw [cvsWithin_detectAdapter, cvsWithin_checkInvalid, checkInvalid_constantVoltage]
  | false =>
    rw [hlooks, if_neg Bool.false_ne_true] at hselects
    obtain ⟨_, _, _, _, heq, -⟩ := hselects
    exact ⟨nofun, fun _ => by simp [heq, selectCv]⟩

/-- The condition for `do_algorithm` to stay within a bound: the detection of the adapter does not
run, or the voltages it programs are within the bound. If the charger is not looked at, the
algorithm is not stopped with an old voltage above the bound. -/
def AlgorithmCvOk (s : Charger MtkPd) : Prop :=
  if looksAtCharger r.select s.chrType then
    detects cfg r.select s.chrType s.detectionIusb = true →
      cfg.batteryCv.new ≤ bound ∧ s.regs.constantVoltage ≤ bound
  else
    (s.selectChargingCurrentLimit cfg (pdAlg pcfg) r.select).2.noHighVoltage r = true ∧
      s.alg.state.running = true → s.alg.cv ≤ bound
  deriving Decidable

/-- `do_algorithm` stays within a bound on the selected voltage exactly if the condition holds. -/
theorem Charger.doAlgorithm_within {r : AlgorithmReading PdReading}
    (hcv : s.selectedCv cfg r.select.aging ≤ bound) :
    (s.doAlgorithm cfg (pdAlg pcfg) r).regs.CvsWithin bound ↔
      s.regs.CvsWithin bound ∧ AlgorithmCvOk cfg pcfg bound r s := by
  obtain ⟨hlook, hnolook⟩ := select_within cfg pcfg bound hcv
  obtain ⟨_, _, hchosen⟩ := s.chooseAlgorithm_only cfg (pdAlg pcfg) r
  have hsetting : (s.selectChargingCurrentLimit cfg (pdAlg pcfg) r.select).2.setting.cv ≤
      bound := by
    obtain ⟨_, _, _, _, _, _, _, heq, hselected⟩ := s.chooseAlgorithm_selects cfg (pdAlg pcfg) r
    have hsame := congrArg (fun s => s.setting.cv) (hchosen.symm.trans heq)
    exact Nat.le_trans (Nat.le_of_eq (hsame.trans hselected)) hcv
  have hchoose : (s.chooseAlgorithm cfg (pdAlg pcfg) r).2.regs.CvsWithin bound ↔
      (s.selectChargingCurrentLimit cfg (pdAlg pcfg) r.select).2.regs.CvsWithin bound ∧
      ((s.selectChargingCurrentLimit cfg (pdAlg pcfg) r.select).2.noHighVoltage r = true ∧
        (s.selectChargingCurrentLimit cfg (pdAlg pcfg) r.select).2.alg.state.running = true →
        (s.selectChargingCurrentLimit cfg (pdAlg pcfg) r.select).2.alg.cv ≤ bound) := by
    unfold chooseAlgorithm
    dsimp only
    split
    · exact stopHighVoltage_within pcfg bound r _
    · exact fastAlgorithm_within pcfg bound r hsetting
  have hdo : (s.doAlgorithm cfg (pdAlg pcfg) r).regs.CvsWithin bound ↔
      (s.chooseAlgorithm cfg (pdAlg pcfg) r).2.regs.CvsWithin bound := by
    have hcv' : (s.chooseAlgorithm cfg (pdAlg pcfg) r).2.setting.cv ≤ bound := by
      rw [hchosen]
      exact hsetting
    cases hchosen : (s.chooseAlgorithm cfg (pdAlg pcfg) r).1 with
    | true =>
      rw [doAlgorithm_basic cfg (pdAlg pcfg) hchosen]
      simp [programBasic, enable, onRegs, hcv']
    | false => rw [doAlgorithm_fast cfg (pdAlg pcfg) hchosen]
  rw [hdo, hchoose]
  unfold AlgorithmCvOk
  cases hlooks : looksAtCharger r.select s.chrType with
  | true =>
    obtain ⟨hnew, hregs⟩ := hlook hlooks
    rw [hregs, if_pos rfl]
    exact and_iff_left fun _ => hnew
  | false =>
    obtain ⟨halg, hregs⟩ := hnolook hlooks
    rw [halg, hregs, if_neg Bool.false_ne_true]

end Algorithm

section Status

variable (cfg : ChargerConfig) (pcfg : PdConfig) (bound : ℕ)

/-- No voltage is programmed, and the one of the algorithm is kept. -/
abbrev Charger.KeepsCv (s s' : Charger MtkPd) : Prop :=
  (PdBus.mk s.alg s.regs).KeepsCv bound ⟨s'.alg, s'.regs⟩

theorem Charger.plugOut_keepsCv (r : PdReading) (s : Charger MtkPd) :
    s.KeepsCv bound (s.plugOut (pdAlg pcfg) r) := by
  obtain ⟨hcv, hwithin⟩ := notifierCall_keepsCv pcfg bound .plugOut r ⟨s.alg, s.regs⟩
  refine ⟨hcv, ?_⟩
  simp only [plugOut, onRegs, all_setInputCurrent, ChargerCmd.cvWithin_inputCurrent, and_true]
  exact hwithin

theorem Charger.plugIn_keepsCv (r : PdReading) (type : ChrType) (s : Charger MtkPd) :
    s.KeepsCv bound (s.plugIn (pdAlg pcfg) r type) := by
  refine ⟨rfl, ?_⟩
  simp only [plugIn, onRegs, all_setInputCurrent, ChargerCmd.cvWithin_inputCurrent, and_true]
  rfl

theorem Charger.isChargerOn_keepsCv (r : PassReading PdReading) (s : Charger MtkPd) :
    s.KeepsCv bound (s.isChargerOn (pdAlg pcfg) r) := by
  have hset : s.KeepsCv bound (if s.chrType = .unknown then
      s.plugIn (pdAlg pcfg) r.plugIn r.type else { s with chrType := r.type }) := by
    split
    · exact s.plugIn_keepsCv pcfg bound r.plugIn r.type
    · exact ⟨rfl, Iff.rfl⟩
  unfold isChargerOn
  split
  · split
    · exact s.plugOut_keepsCv pcfg bound r.plugOut
    · exact ⟨rfl, Iff.rfl⟩
  · generalize (if s.chrType = .unknown then
      s.plugIn (pdAlg pcfg) r.plugIn r.type else { s with chrType := r.type }) = s1 at hset
    dsimp only
    split
    · obtain ⟨hcv, hwithin⟩ := s1.plugOut_keepsCv pcfg bound r.plugOut
      obtain ⟨hcv', hwithin'⟩ := plugIn_keepsCv pcfg bound r.plugIn r.type
        (s1.plugOut (pdAlg pcfg) r.plugOut)
      exact ⟨hcv'.trans (hcv.trans hset.cv), hwithin'.trans (hwithin.trans hset.within)⟩
    · exact hset

theorem Charger.beforeStatus_cv (r : PassReading PdReading) (s : Charger MtkPd) :
    (s.beforeStatus cfg (pdAlg pcfg) r).regs.CvsWithin bound ∧
      (s.beforeStatus cfg (pdAlg pcfg) r).alg.cv = s.alg.cv := by
  obtain ⟨hcv, hwithin⟩ := s.clearLog.isChargerOn_keepsCv pcfg bound r
  have hclear := hwithin.mpr fun uV hmem => by cases hmem
  unfold beforeStatus checkDynamicMivr
  split
  · exact ⟨hclear, (isAlgoReady_cv pcfg r.mivrReady _).trans hcv⟩
  · exact ⟨hclear, hcv⟩

/-- The status check stops charging. -/
def Charger.stopsCharging {ρ σ : Type} (temp : ℤ) (r : StatusReading ρ) (s : Charger σ) : Bool :=
  decide (r.type ≠ .unknown) && !(s.decideCharging cfg temp r).1 && s.canCharging

/-- The status check programs a further voltage only if it stops the algorithm. -/
theorem Charger.checkStatus_within (temp : ℤ) (r : StatusReading PdReading) (s : Charger MtkPd)
    (hcv : r.type ≠ .unknown → (s.decideCharging cfg temp r).2.selectedCv cfg r.aging ≤ bound) :
    (s.checkStatus cfg (pdAlg pcfg) temp r).regs.CvsWithin bound ↔ s.regs.CvsWithin bound ∧
      (s.stopsCharging cfg temp r = true ∧ s.alg.state.running = true → s.alg.cv ≤ bound) := by
  obtain ⟨_, _, _, _, heq⟩ := s.decideCharging_eq cfg temp r
  have hframe : (s.decideCharging cfg temp r).2.regs = s.regs ∧
      (s.decideCharging cfg temp r).2.alg = s.alg ∧
      (s.decideCharging cfg temp r).2.canCharging = s.canCharging := by
    rw [heq]
    exact ⟨rfl, rfl, rfl⟩
  unfold checkStatus stopsCharging
  by_cases htype : r.type = .unknown
  · rw [if_pos htype]
    simp [htype]
  · rw [if_neg htype]
    have hstop := stopAlgo_within pcfg bound r.stop
      ⟨(s.decideCharging cfg temp r).2.alg, (s.decideCharging cfg temp r).2.regs⟩
    have hselected := hcv htype
    simp only [htype, ne_eq, not_false_eq_true, decide_true, Bool.true_and]
    rw [← hframe.1, ← hframe.2.1, ← hframe.2.2]
    generalize s.decideCharging cfg temp r = decided at *
    cases hcharge : decided.1 with
    | true =>
      simp only [Bool.true_eq_false, if_false, Bool.not_true, Bool.false_and, Bool.false_eq_true,
        false_and, false_imp_iff, and_true]
      split <;> exact Iff.rfl
    | false =>
      cases hcan : decided.2.canCharging with
      | false =>
        simp [programCv, onRegs, selectCv, hselected]
      | true =>
        have hafter : (decided.2.enableCharging (pdAlg pcfg) r.stop false).selectedCv cfg r.aging ≤
            bound := hselected
        simp only [Bool.false_eq_true, not_false_eq_true, if_true, Bool.not_false,
          Bool.true_and, true_and]
        unfold programCv onRegs selectCv
        dsimp only
        simp only [all_setConstantVoltage, ChargerCmd.cvWithin_constantVoltage, hafter, and_true]
        exact hstop

theorem Charger.checkStatus_swJeita {σ ρ : Type} (alg : ChgAlg σ ρ) (temp : ℤ)
    {r : StatusReading ρ} (htype : r.type ≠ .unknown) (s : Charger σ) :
    (s.checkStatus cfg alg temp r).swJeita = (s.decideCharging cfg temp r).2.swJeita := by
  have henable (s : Charger σ) (en : Bool) :
      (s.enableCharging alg r.stop en).swJeita = s.swJeita := by
    unfold enableCharging
    split <;> rfl
  unfold checkStatus
  rw [if_neg htype]
  generalize s.decideCharging cfg temp r = decided
  dsimp only
  repeat' split
  · exact henable _ _
  · rfl
  · exact henable _ _
  · rfl

end Status

section Runs

variable (cfg : ChargerConfig) (pcfg : PdConfig)

theorem Charger.doAlgorithm_swJeita {σ ρ : Type} (alg : ChgAlg σ ρ) (r : AlgorithmReading ρ)
    (s : Charger σ) : (s.doAlgorithm cfg alg r).swJeita = s.swJeita := by
  have hframe : (s.chooseAlgorithm cfg alg r).2.swJeita = s.swJeita := by
    obtain ⟨_, _, _, _, _, _, _, heq, -⟩ := s.chooseAlgorithm_selects cfg alg r
    rw [heq]
    rfl
  cases hchosen : (s.chooseAlgorithm cfg alg r).1 with
  | true =>
    rw [doAlgorithm_basic cfg alg hchosen]
    exact hframe
  | false =>
    rw [doAlgorithm_fast cfg alg hchosen]
    exact hframe

/-- In a zone with a voltage, a pass programs no voltage above it. -/
def CvGood (s : Charger MtkPd) : ChargerEvent PdReading → Prop
  | .pass r => (s.pass cfg (pdAlg pcfg) r).swJeita.cv ≠ 0 →
      (s.pass cfg (pdAlg pcfg) r).regs.CvsWithin (s.pass cfg (pdAlg pcfg) r).swJeita.cv
  | _ => True

/-- The condition on a pass with a voltage of the zone. If the status check stops an algorithm that
runs, the voltage that the algorithm was given is not above the one of the zone, and the condition
on the charging algorithm holds. -/
def PassCvOk (zoneCv : ℕ) (r : PassReading PdReading) (s : Charger MtkPd) : Prop :=
  ((s.beforeStatus cfg (pdAlg pcfg) r).stopsCharging cfg r.batteryTemp r.status = true ∧
    (s.beforeStatus cfg (pdAlg pcfg) r).alg.state.running = true → s.alg.cv ≤ zoneCv) ∧
  (s.charges cfg (pdAlg pcfg) r = true →
    AlgorithmCvOk cfg pcfg zoneCv r.algorithm (s.beforeAlgorithm cfg (pdAlg pcfg) r))
  deriving Decidable

/-- The condition on an event. -/
def CvOk (s : Charger MtkPd) : ChargerEvent PdReading → Prop
  | .pass r => (s.beforeAlgorithm cfg (pdAlg pcfg) r).swJeita.cv ≠ 0 →
      PassCvOk cfg pcfg (s.beforeAlgorithm cfg (pdAlg pcfg) r).swJeita.cv r s
  | _ => True

instance (s : Charger MtkPd) : ∀ e, Decidable (CvOk cfg pcfg s e)
  | .pass _ => inferInstanceAs (Decidable (_ → _))
  | .powerChanged _ | .eoc _ | .safetyTimeout | .vbusOvp _ => .isTrue trivial

/-- A pass stays within the voltage of the zone exactly if `PassCvOk` holds. -/
theorem Charger.pass_within {r : PassReading PdReading} {zone : ℕ}
    (hjeita : cfg.enableSwJeita = true)
    (hzone : (s.beforeAlgorithm cfg (pdAlg pcfg) r).swJeita.cv = zone) (hcv : zone ≠ 0) :
    (s.pass cfg (pdAlg pcfg) r).regs.CvsWithin zone ↔ PassCvOk cfg pcfg zone r s := by
  have hselected := selectedCv_le cfg hjeita (hzone.symm ▸ hcv) r.algorithm.select.aging
  rw [hzone] at hselected
  obtain ⟨hclear, hpd⟩ := s.beforeStatus_cv cfg pcfg zone r
  obtain ⟨_, htop⟩ := topOffMode_eq cfg r ((s.beforeStatus cfg (pdAlg pcfg) r).checkStatus cfg
    (pdAlg pcfg) r.batteryTemp r.status)
  -- the voltage of the zone bounds the one that the status check selects
  have hstatus := checkStatus_within cfg pcfg zone r.batteryTemp r.status
    (s.beforeStatus cfg (pdAlg pcfg) r) (by
      intro htype
      rw [beforeAlgorithm, htop] at hzone
      have hdecided := (congrArg SwJeita.cv
        (checkStatus_swJeita cfg (pdAlg pcfg) r.batteryTemp htype _)).symm.trans hzone
      rw [← hdecided] at hcv ⊢
      exact selectedCv_le cfg hjeita hcv r.status.aging)
  rw [and_iff_right hclear, hpd] at hstatus
  have hbefore : (s.beforeAlgorithm cfg (pdAlg pcfg) r).regs =
      ((s.beforeStatus cfg (pdAlg pcfg) r).checkStatus cfg (pdAlg pcfg) r.batteryTemp
        r.status).regs := by rw [beforeAlgorithm, htop]
  unfold pass PassCvOk
  cases hcharges : s.charges cfg (pdAlg pcfg) r with
  | true =>
    rw [if_pos rfl, doAlgorithm_within cfg pcfg _ hselected, hbefore, hstatus]
    simp only [true_imp_iff]
  | false =>
    rw [if_neg Bool.false_ne_true, hbefore, hstatus]
    simp

/-- In every run with JEITA zones, all voltages that are programmed stay within the one of the zone
exactly if every pass meets its condition. -/
theorem cvGood_iff_runOk (hjeita : cfg.enableSwJeita = true) (init : Charger MtkPd)
    (es : List (ChargerEvent PdReading)) :
    (∀ pre e post, es = pre ++ e :: post →
      CvGood cfg pcfg (pre.foldl (Charger.step cfg (pdAlg pcfg)) init) e) ↔
      RunOk (Charger.step cfg (pdAlg pcfg)) (CvOk cfg pcfg) init es := by
  rw [← runOk_iff_forall_split]
  apply runOk_congr (fun _ => True)
  · intro s e _
    cases e with
    | pass r =>
      have hzone : (s.pass cfg (pdAlg pcfg) r).swJeita =
          (s.beforeAlgorithm cfg (pdAlg pcfg) r).swJeita := by
        unfold Charger.pass
        split
        · exact Charger.doAlgorithm_swJeita cfg (pdAlg pcfg) r.algorithm _
        · rfl
      unfold CvGood CvOk
      dsimp only
      rw [hzone]
      apply imp_congr_right
      intro hcv
      exact Charger.pass_within cfg pcfg hjeita rfl hcv
    | powerChanged online | eoc r | safetyTimeout | vbusOvp stat => exact Iff.rfl
  · exact fun _ _ _ _ => trivial
  · trivial

end Runs

/-- A pass with a wall charger and a warm battery. -/
def warmPass : ChargerEvent PdReading :=
  .pass (ordinaryPass .usbDcp 46 (drawnInFull fiveVoltCap))

/-- Without a detection of the adapter power, a warm battery is charged within the voltage of its
zone. -/
theorem cvGood_warm :
    defaultChargerConfig.enableSwJeita = true ∧
      ∀ pre e post, [warmPass, warmPass, warmPass] = pre ++ e :: post →
        CvGood defaultChargerConfig defaultPdConfig
          (pre.foldl (Charger.step defaultChargerConfig (pdAlg defaultPdConfig))
            (initialCharger initialPd.pd)) e :=
  ⟨rfl, (cvGood_iff_runOk defaultChargerConfig defaultPdConfig rfl _ _).mpr (by decide +kernel)⟩

/-- The settings with a detection of the adapter power. -/
def detectionConfig : ChargerConfig :=
  { defaultChargerConfig with
    powerDetectionEn := true
    aiclTrigger := ⟨3000000, 3000000⟩
    adapter12wAiclMin := 2200000
    adapter9wAiclMin := 1700000
    adapter15wIusbLim := 3000000
    adapter12wIusbLim := 2400000
    adapter9wIusbLim := 1800000
    adapter7p5wIusbLim := 1500000
    adapter5wIusbLim := 1000000 }

/-- While the adapter power is detected, the voltage of the battery is programmed, although the zone
of a warm battery has a lower one. -/
theorem not_cvGood_warm :
    ¬∀ pre e post, [warmPass] = pre ++ e :: post →
      CvGood detectionConfig defaultPdConfig
        (pre.foldl (Charger.step detectionConfig (pdAlg defaultPdConfig))
          (initialCharger initialPd.pd)) e := by
  intro hall
  obtain ⟨s, hs⟩ : ∃ s, s = (initialCharger initialPd.pd).step detectionConfig
    (pdAlg defaultPdConfig) warmPass := ⟨_, rfl⟩
  have hpass : s.swJeita.cv ≠ 0 → s.regs.CvsWithin s.swJeita.cv := hs ▸ hall [] warmPass [] rfl
  have hzone : s.swJeita.cv = 4240000 := by rw [hs]; decide +kernel
  have hmem : ChargerCmd.constantVoltage 4400000 ∈ s.regs.log := by rw [hs]; decide +kernel
  have hle : 4400000 ≤ s.swJeita.cv := hpass (by rw [hzone]; decide) _ hmem
  rw [hzone] at hle
  exact absurd hle (by decide)

end Mt8169.Power
