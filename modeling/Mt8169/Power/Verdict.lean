import Mt8169.Lib.Runs
import Mt8169.Power.Selection
import Mt8169.Power.Pd

/-!
# The verdict on a charger

`check_invalid_charger` looks at a charger once and keeps its verdict. A weak charger is refused in
the status check. The verdict is only reset by `mtk_charger_external_power_changed`, and only if the
protection at the end of charging is enabled. This file says when a verdict is about the charger
that is plugged in.
-/

namespace Mt8169.Power

open Runs Charger Bool

variable {σ ρ : Type}

section Pass

variable (cfg : ChargerConfig) (alg : ChgAlg σ ρ)

/-- The status check of a pass comes to the verdict on the charger. -/
def Charger.reachesVerdict (r : PassReading ρ) (s : Charger σ) : Bool :=
  decide (r.status.type ≠ .unknown) && !r.status.bcmFlag &&
    ((s.beforeStatus cfg alg r).checkTemp cfg r.batteryTemp r.status.aging).1 &&
    r.status.batteryIdStatus

variable (r : PassReading ρ) (s : Charger σ)

/-- A pass refuses charging because of a weak charger. -/
def Charger.refusesWeak : Bool :=
  s.reachesVerdict cfg alg r && s.invalidDet.weak

/-- `check_invalid_charger` sets the verdict to weak in a pass. -/
def Charger.setsWeak : Bool :=
  s.charges cfg alg r && looksAtCharger r.algorithm.select (s.beforeAlgorithm cfg alg r).chrType &&
    !s.invalidDet.done && foundWeak cfg r.algorithm.select

theorem Charger.beforeStatus_invalidDet : (s.beforeStatus cfg alg r).invalidDet = s.invalidDet := by
  unfold beforeStatus checkDynamicMivr isChargerOn
  dsimp only
  repeat' split
  all_goals rfl

theorem Charger.checkStatus_invalidDet (temp : ℤ) (r : StatusReading ρ) (s : Charger σ) :
    (s.checkStatus cfg alg temp r).invalidDet = s.invalidDet := by
  have hframe : (s.decideCharging cfg temp r).2.invalidDet = s.invalidDet := by
    obtain ⟨_, _, _, _, heq⟩ := s.decideCharging_eq cfg temp r
    rw [heq]
  have henable (s : Charger σ) (en : Bool) :
      (s.enableCharging alg r.stop en).invalidDet = s.invalidDet := by
    unfold enableCharging
    split <;> rfl
  unfold checkStatus
  split
  · rfl
  · generalize s.decideCharging cfg temp r = decided at hframe
    dsimp only
    rw [← hframe]
    repeat' split
    · exact henable _ _
    · rfl
    · exact henable _ _
    · rfl

theorem Charger.beforeAlgorithm_invalidDet :
    (s.beforeAlgorithm cfg alg r).invalidDet = s.invalidDet := by
  obtain ⟨_, htop⟩ := topOffMode_eq cfg r
    ((s.beforeStatus cfg alg r).checkStatus cfg alg r.batteryTemp r.status)
  rw [beforeAlgorithm, htop, checkStatus_invalidDet, beforeStatus_invalidDet]

/-- The verdict after `do_algorithm`. -/
theorem Charger.doAlgorithm_invalidDet (r : AlgorithmReading ρ) (s : Charger σ) :
    (s.doAlgorithm cfg alg r).invalidDet =
      if looksAtCharger r.select s.chrType then s.invalidDet.check cfg r.select
      else s.invalidDet := by
  have hselects := s.selectChargingCurrentLimit_selects cfg alg r.select
  obtain ⟨_, _, heq⟩ := s.chooseAlgorithm_only cfg alg r
  have hchoose : (s.chooseAlgorithm cfg alg r).2.invalidDet =
      if looksAtCharger r.select s.chrType then s.invalidDet.check cfg r.select
      else s.invalidDet := by
    rw [heq]
    split at hselects
    all_goals
      rename_i hlooks
      obtain ⟨_, _, _, _, hselect, -⟩ := hselects
      rw [hselect]
      simp [hlooks]
  rw [← hchoose]
  cases hchosen : (s.chooseAlgorithm cfg alg r).1 with
  | true =>
    rw [doAlgorithm_basic cfg alg hchosen]
    rfl
  | false => rw [doAlgorithm_fast cfg alg hchosen]

/-- A pass sets the flag at most, and never clears it. -/
theorem Charger.pass_weak :
    (s.pass cfg alg r).invalidDet.weak = (s.invalidDet.weak || s.setsWeak cfg alg r) := by
  unfold pass setsWeak
  by_cases hcharges : s.charges cfg alg r = true
  · rw [if_pos hcharges, doAlgorithm_invalidDet, beforeAlgorithm_invalidDet, hcharges]
    split
    · rename_i hlooks
      rw [hlooks]
      unfold InvalidDet.check
      cases s.invalidDet.done <;> simp
    · rename_i hlooks
      simp [hlooks]
  · rw [if_neg hcharges, beforeAlgorithm_invalidDet]
    simp [hcharges]

/-- A pass that finds the charger weak does not charge. -/
theorem Charger.canCharging_of_refusesWeak {r : PassReading ρ} {s : Charger σ}
    (h : s.refusesWeak cfg alg r = true) : (s.beforeAlgorithm cfg alg r).canCharging = false := by
  unfold refusesWeak reachesVerdict at h
  simp only [and_eq_true, decide_eq_true_eq, not_eq_true'] at h
  obtain ⟨⟨⟨⟨htype, hbcm⟩, htemp⟩, hid⟩, hweak⟩ := h
  have hdet : ((s.beforeStatus cfg alg r).checkTemp cfg r.batteryTemp r.status.aging).2.invalidDet =
      s.invalidDet := by
    obtain ⟨_, _, heq⟩ := checkTemp_eq cfg r.batteryTemp r.status.aging (s.beforeStatus cfg alg r)
    rw [heq, beforeStatus_invalidDet]
  -- a weak charger passes the check of the voltage, and then the verdict counts
  have hdecided : ((s.beforeStatus cfg alg r).decideCharging cfg r.batteryTemp r.status).1 =
      false := by
    unfold decideCharging checkVbus
    simp [hbcm, htemp, hdet, hweak, hid]
  obtain ⟨_, htop⟩ := topOffMode_eq cfg r
    ((s.beforeStatus cfg alg r).checkStatus cfg alg r.batteryTemp r.status)
  rw [beforeAlgorithm, htop, checkStatus, if_neg htype]
  exact hdecided

end Pass

section Runs

variable (cfg : ChargerConfig) (alg : ChgAlg σ ρ)

variable (p : Charger σ × Bool)

/-- The driver, and whether `check_invalid_charger` found a weak charger since the last plug in. -/
def verdictStep (e : ChargerEvent ρ) : Charger σ × Bool :=
  (p.1.step cfg alg e,
    match e with
    | .pass r => (p.2 && !p.1.plugsIn r) || p.1.setsWeak cfg alg r
    | _ => p.2)

/-- If a pass refuses charging because of a weak charger, the charger was found to be weak since it
was plugged in. -/
def VerdictGood : ChargerEvent ρ → Prop
  | .pass r => p.1.refusesWeak cfg alg r = true → p.2 = true ∧ p.1.plugsIn r = false
  | _ => True

/-- The condition on an event: a pass that finds a charger plugged in finds no old verdict. -/
def VerdictOk : ChargerEvent ρ → Prop
  | .pass r => p.1.plugsIn r = true → p.1.invalidDet.weak = false
  | _ => True

instance (p : Charger σ × Bool) : ∀ e : ChargerEvent ρ, Decidable (VerdictOk p e)
  | .pass _ => inferInstanceAs (Decidable (_ → _))
  | .powerChanged _ | .eoc _ | .safetyTimeout | .vbusOvp _ => .isTrue trivial

/-- A weak verdict was found since the last plug in. -/
def VerdictInv : Prop := p.1.invalidDet.weak = true → p.2 = true

variable {p : Charger σ × Bool} {e : ChargerEvent ρ}

/-- Every step under its condition keeps the invariant. -/
theorem verdictStep_inv (hinv : VerdictInv p)
    (hok : VerdictOk p e) : VerdictInv (verdictStep cfg alg p e) := by
  unfold VerdictInv verdictStep
  cases e with
  | pass r =>
    have hweak := p.1.pass_weak cfg alg r
    unfold step
    dsimp only
    rw [hweak]
    intro h
    rw [or_eq_true] at h ⊢
    rcases h with hold | hnew
    · left
      have hnot : p.1.plugsIn r = false := by
        cases hplug : p.1.plugsIn r with
        | false => rfl
        | true => exact absurd (hold.symm.trans (hok hplug)) (by decide)
      rw [hinv hold, hnot]
      rfl
    · exact Or.inr hnew
  | powerChanged online =>
    unfold step batEocProtectHandlePlugState
    dsimp only
    split
    · exact hinv
    · split
      · exact hinv
      · intro h
        cases h
  | eoc r | safetyTimeout | vbusOvp stat => exact hinv

/-- And it does not refuse a charger for another one's fault. -/
theorem verdictGood_of_ok (hinv : VerdictInv p)
    (hok : VerdictOk p e) : VerdictGood cfg alg p e := by
  cases e with
  | pass r =>
    intro hrefuses
    unfold refusesWeak at hrefuses
    rw [and_eq_true] at hrefuses
    refine ⟨hinv hrefuses.2, ?_⟩
    cases hplug : p.1.plugsIn r with
    | false => rfl
    | true => exact absurd (hrefuses.2.symm.trans (hok hplug)) (by decide)
  | powerChanged online | eoc r | safetyTimeout | vbusOvp stat => trivial

/-- In every run in which each pass that finds a charger plugged in finds no old verdict, charging
is only refused because of a weak charger if that charger was found to be weak since it was plugged
in. A pass that does not meet the condition is wrong as soon as its status check comes to the
verdict. A refused pass leaves `can_charging` false. -/
theorem verdictGood_of_runOk {init : Charger σ} (hinit : init.invalidDet.weak = false)
    (es : List (ChargerEvent ρ)) :
    (RunOk (verdictStep cfg alg) VerdictOk (init, false) es →
      ∀ pre e post, es = pre ++ e :: post →
        VerdictGood cfg alg (pre.foldl (verdictStep cfg alg) (init, false)) e) ∧
    (∀ (p : Charger σ × Bool) (r : PassReading ρ), ¬VerdictOk p (.pass r) →
      p.1.reachesVerdict cfg alg r = true → ¬VerdictGood cfg alg p (.pass r)) ∧
    ∀ (s : Charger σ) (r : PassReading ρ), s.refusesWeak cfg alg r = true →
      (s.beforeAlgorithm cfg alg r).canCharging = false := by
  refine ⟨?_, ?_, fun s r => canCharging_of_refusesWeak cfg alg⟩
  · intro hrun
    have hstart : VerdictInv (init, false) := by
      intro h
      exact absurd (h.symm.trans hinit) (by decide)
    rw [← runOk_iff_forall_split]
    exact hrun.good VerdictInv (fun p e h hok => verdictGood_of_ok cfg alg h hok)
      (fun p e h hok => verdictStep_inv cfg alg h hok) hstart
  · intro p r hno hreaches hgood
    unfold VerdictOk at hno
    simp only [Classical.not_imp, not_eq_false] at hno
    obtain ⟨hplug, hweak⟩ := hno
    have hrefuses : p.1.refusesWeak cfg alg r = true := by
      unfold Charger.refusesWeak
      rw [hreaches, hweak]
      rfl
    exact absurd (hplug.symm.trans (hgood hrefuses).2) (by decide)

end Runs

/-- A pass in which the voltage of the charger breaks down under load. -/
def weakPass : PassReading PdReading :=
  let r := ordinaryPass .usbDcp 25 (drawnInFull fiveVoltCap)
  { r with algorithm := { r.algorithm with select := { r.algorithm.select with vbusMv := 4400 } } }

/-- A pass with a charger. -/
def chargerPass : PassReading PdReading := ordinaryPass .usbDcp 25 (drawnInFull fiveVoltCap)

/-- A pass without a charger. -/
def emptyPass : PassReading PdReading := ordinaryPass .unknown 25 (drawnInFull fiveVoltCap)

/-- The settings with the protection at the end of charging. -/
def protectedConfig : ChargerConfig := { defaultChargerConfig with enableBatEocProtect := true }

/-- A weak charger is refused, unplugged, and replaced by another one, which the driver is told of
in time. -/
def replacedInTime : List (ChargerEvent PdReading) :=
  [.powerChanged true, .pass weakPass, .pass chargerPass, .powerChanged false, .pass emptyPass,
    .powerChanged true, .pass chargerPass]

/-- With the protection, and if the driver is told in time, the second charger is not refused. -/
theorem verdictGood_replacedInTime :
    (initialCharger initialPd.pd).invalidDet.weak = false ∧
      ∀ pre e post, replacedInTime = pre ++ e :: post →
        VerdictGood protectedConfig (pdAlg defaultPdConfig)
          (pre.foldl (verdictStep protectedConfig (pdAlg defaultPdConfig))
            (initialCharger initialPd.pd, false)) e :=
  ⟨rfl, (verdictGood_of_runOk protectedConfig (pdAlg defaultPdConfig) rfl replacedInTime).1
    (by decide +kernel)⟩

/-- A weak charger is unplugged and replaced by another one. -/
def replaced : List (ChargerEvent PdReading) :=
  [.powerChanged true, .pass weakPass, .powerChanged false, .pass emptyPass, .powerChanged true,
    .pass chargerPass]

/-- Without the protection, the second charger is refused because the first one was weak. -/
theorem not_verdictGood_replaced :
    ¬∀ pre e post, replaced = pre ++ e :: post →
      VerdictGood defaultChargerConfig (pdAlg defaultPdConfig)
        (pre.foldl (verdictStep defaultChargerConfig (pdAlg defaultPdConfig))
          (initialCharger initialPd.pd, false)) e := by
  intro hall
  have hlast := hall (replaced.take 5) (.pass chargerPass) [] rfl
  have hstate : Charger.refusesWeak defaultChargerConfig (pdAlg defaultPdConfig) chargerPass
      ((replaced.take 5).foldl (verdictStep defaultChargerConfig (pdAlg defaultPdConfig))
        (initialCharger initialPd.pd, false)).1 = true ∧
      Charger.plugsIn chargerPass
        ((replaced.take 5).foldl (verdictStep defaultChargerConfig (pdAlg defaultPdConfig))
          (initialCharger initialPd.pd, false)).1 = true := by
    decide +kernel
  exact absurd (hstate.2.symm.trans (hlast hstate.1).2) (by decide)

end Mt8169.Power
