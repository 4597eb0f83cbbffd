import Mt8169.Battery.Profile
import Mt8169.Lib.Runs

/-!
# The displayed state of charge

The interrupts of the fuel gauge move the displayed state of charge, `ui_soc`, in hundredths of a
percent. It follows the coulomb counter up and down, and the time while the battery runs empty. The
gaps for the next interrupt are computed with `ui_soc` itself as a divisor. The definitions follow
the handlers of `mtk_battery_algo.c` and `do_fg_algo`.
-/

namespace Mt8169.Battery

open WeakestPre Runs Algo

/-- What the algorithm reads during an interrupt. `coulomb n` is reading `n` of the coulomb counter.
-/
structure GaugeReading where
  coulomb : ℕ → ℤ
  /-- `force_get_tbat`. -/
  tbat : ℤ
  /-- `GAUGE_PROP_PTIM_RESIST`. -/
  rac : ℤ
  /-- `get_charger_exist`. -/
  chargerExist : Bool
  /-- `get_shutdown_cond` is 1. -/
  shutdownCond : Bool

/-- `CAR_MIN_GAP`. -/
def carMinGap : ℤ := 15

section Handlers

variable (cfg : CustomData)

/-- The usable capacity of `fgr_update_quse`. The customer factor for the aging is not implemented.
-/
def Algo.quse (s : Algo) : ℤ :=
  if cfg.agingSel = 1 then (s.qmaxT0maTb1 * 0).tdiv 10000
  else (s.qmaxT0maTb1 * s.agingFactor).tdiv 10000

/-- `fgr_update_quse` for the table `temperature_tb1`. -/
def fgrUpdateQuse : AlgoProg Unit := modify fun s => { s with quseTb1 := s.quse cfg }

/-- The three bounds that a gap of `ui_soc` is held to. -/
def clampGap (quse uiSoc gap : ℤ) : ℤ :=
  let gap := if gap < quse.tdiv 1000 then quse.tdiv 1000 else gap
  let gap := if uiSoc ≤ 100 then quse.tdiv 200 else gap
  if gap < carMinGap then carMinGap else gap

theorem carMinGap_le_clampGap (quse uiSoc gap : ℤ) : carMinGap ≤ clampGap quse uiSoc gap := by
  unfold clampGap
  dsimp only
  generalize (if uiSoc ≤ 100 then _ else _ : ℤ) = g
  split_ifs <;> omega

theorem clampGap_of_le {uiSoc : ℤ} (hle : uiSoc ≤ 100) (quse gap : ℤ) :
    clampGap quse uiSoc gap = max (quse.tdiv 200) carMinGap := by
  unfold clampGap
  simp only [if_pos hle]
  split_ifs <;> omega

/-- `fgr_update_uisoc_threshold`, with the coulomb counter that it reads. -/
def fgrUpdateUisocThreshold (car : ℤ) : AlgoProg Unit := do
  modify fun s => { s with car := car }
  fgrUpdateQuse cfg
  modify fun s => { s with htGap := clampGap s.quseTb1 s.uiSoc (s.quseTb1.tdiv 100) }
  let s ← get
  let dRemain := (s.soc * s.quseTb1).tdiv 10000
  let gap ← cdiv (dRemain * cfg.diffSocSetting) s.uiSoc
  modify fun s => { s with ltGap := clampGap s.quseTb1 s.uiSoc gap }

/-- The algorithm with the gaps for its state of charge. -/
def Algo.withGaps (car : ℤ) (s : Algo) : Algo :=
  { s with
    car := car
    quseTb1 := s.quse cfg
    htGap := clampGap (s.quse cfg) s.uiSoc ((s.quse cfg).tdiv 100)
    ltGap := clampGap (s.quse cfg) s.uiSoc
      (((s.soc * s.quse cfg).tdiv 10000 * cfg.diffSocSetting).tdiv s.uiSoc) }

section Gaps

variable (s : Algo) (car : ℤ)

@[simp]
theorem withGaps_uiSoc : (s.withGaps cfg car).uiSoc = s.uiSoc := rfl

@[simp]
theorem withGaps_soc : (s.withGaps cfg car).soc = s.soc := rfl

theorem carMinGap_le_htGap : carMinGap ≤ (s.withGaps cfg car).htGap :=
  carMinGap_le_clampGap _ _ _

theorem carMinGap_le_ltGap : carMinGap ≤ (s.withGaps cfg car).ltGap :=
  carMinGap_le_clampGap _ _ _

end Gaps

variable (htCar : ℤ) (chargerExist : Bool) (car gap ltCar : ℤ) (Q : Unit → Algo → Prop) (s : Algo)

/-- The thresholds are updated unless the displayed charge is zero. -/
theorem wp_fgrUpdateUisocThreshold :
    wp (fgrUpdateUisocThreshold cfg car) Q s ↔ s.uiSoc ≠ 0 ∧ Q () (s.withGaps cfg car) := by
  simp only [fgrUpdateUisocThreshold, fgrUpdateQuse, wp_bind, wp_modify, wp_get, wp_cdiv]
  rfl

/-- `fgr_update_uisoc_ht`. -/
def fgrUpdateUisocHt : AlgoProg Unit := do
  fgrUpdateUisocThreshold cfg car
  modify fun s => { s with uisocIntHtGap := s.htGap }

/-- `fgr_update_uisoc_lt`. -/
def fgrUpdateUisocLt : AlgoProg Unit := do
  fgrUpdateUisocThreshold cfg car
  modify fun s => { s with uisocIntLtGap := s.ltGap }

/-- Both gaps are handed over. -/
def Algo.withIntGaps : Algo :=
  let t := { s.withGaps cfg htCar with uisocIntHtGap := (s.withGaps cfg htCar).htGap }
  { t.withGaps cfg ltCar with uisocIntLtGap := (t.withGaps cfg ltCar).ltGap }

theorem wp_fgrUpdateUisocGaps :
    wp (do fgrUpdateUisocHt cfg htCar; fgrUpdateUisocLt cfg ltCar) Q s ↔
      s.uiSoc ≠ 0 ∧ Q () (s.withIntGaps cfg htCar ltCar) := by
  simp only [fgrUpdateUisocHt, fgrUpdateUisocLt, wp_bind, wp_modify, wp_fgrUpdateUisocThreshold]
  constructor
  · rintro ⟨hne, -, hQ⟩
    exact ⟨hne, hQ⟩
  · rintro ⟨hne, hQ⟩
    exact ⟨hne, hne, hQ⟩

/-- `fgr_update_c_dod` and `fgr_set_soc_by_vc_mode` follow the coulomb counter. -/
def fgrUpdateCDod : AlgoProg Unit := do
  modify fun s => { s with car := car }
  fgrUpdateQuse cfg
  let s ← get
  let dod ← ocvToDodC cfg s.fgCD0Ocv
  modify fun s => { s with fgCD0Dod := dod, fgCD0Soc := 10000 - dod }
  let s ← get
  let drawn ← cdiv (s.car * 10000) s.quseTb1
  modify fun s => { s with fgCDod := s.fgCD0Dod - drawn }
  modify fun s => { s with fgCSoc := 10000 - s.fgCDod }

/-- `fgr_set_soc_by_vc_mode`. -/
def fgrSetSocByVcMode : AlgoProg Unit := modify fun s => { s with soc := s.fgCSoc }

/-- `fgr_update_fg_bat_int1_threshold`. -/
def fgrUpdateFgBatInt1Threshold : AlgoProg Unit := modify fun s =>
  let gap := (s.quseTb1 * cfg.diffSocSetting).tdiv 10000
  { s with fgBatInt1Gap := if gap < carMinGap then carMinGap else gap }

/-- `fgr_bat_int1_handler`, with the coulomb counter that it reads. -/
def fgrBatInt1Handler : AlgoProg Unit := do
  fgrUpdateCDod cfg car
  fgrUpdateFgBatInt1Threshold cfg
  modify fun s => { s with coulombIntGap := s.fgBatInt1Gap }
  fgrSetSocByVcMode

/-- The algorithm with the depth of discharge for a value of the coulomb counter. -/
def Algo.withDod : Algo :=
  let dod := dodAt cfg s.profile s.fgCD0Ocv
  let fgCDod := dod - (car * 10000).tdiv (s.quse cfg)
  { s with
    car := car
    quseTb1 := s.quse cfg
    fgCD0Dod := dod
    fgCD0Soc := 10000 - dod
    fgCDod := fgCDod
    fgCSoc := 10000 - fgCDod }

/-- The depth of discharge is updated unless the capacity is zero. -/
theorem wp_fgrUpdateCDod :
    wp (fgrUpdateCDod cfg car) Q s ↔ s.quse cfg ≠ 0 ∧ Q () (s.withDod cfg car) := by
  simp only [fgrUpdateCDod, fgrUpdateQuse, wp_bind, wp_modify, wp_get, wp_ocvToDodC, wp_cdiv]
  rfl

/-- The algorithm after the first coulomb handler. -/
def Algo.afterInt1 : Algo :=
  let t := s.withDod cfg car
  let gap := (t.quseTb1 * cfg.diffSocSetting).tdiv 10000
  let gap := if gap < carMinGap then carMinGap else gap
  { t with fgBatInt1Gap := gap, coulombIntGap := gap, soc := t.fgCSoc }

theorem wp_fgrBatInt1Handler :
    wp (fgrBatInt1Handler cfg car) Q s ↔ s.quse cfg ≠ 0 ∧ Q () (s.afterInt1 cfg car) := by
  rw [fgrBatInt1Handler, wp_bind, wp_fgrUpdateCDod]
  rfl

/-- The distance of the coulomb counter from its value at the last change. -/
def Algo.deltaCar (car : ℤ) : ℤ := (s.prevCarBat0 - car).natAbs

variable (uiSoc : ℤ) (coulomb : ℕ → ℤ)

/-- The displayed state of charge after a gap upwards. -/
def raiseUiSoc (gap : ℤ) : ℤ :=
  let uiSoc :=
    if uiSoc ≥ 10000 then 10000 else if uiSoc + gap ≥ 10000 then 10000 else uiSoc + gap
  if uiSoc ≥ 10000 then 10000 else uiSoc

/-- The displayed state of charge after a gap downwards. Without a charger it stops at one
percent. -/
def lowerUiSoc (gap : ℤ) : ℤ :=
  if chargerExist then uiSoc - gap
  else if uiSoc ≤ 100 then if uiSoc = 0 then 0 else 100
  else
    let uiSoc := if uiSoc - gap < 100 then 100 else uiSoc - gap
    if uiSoc < 100 then 100 else uiSoc

/-- The new displayed state of charge, with the coulomb counter it belongs to if there was a
gap. -/
def Algo.moveUi (car uiSoc : ℤ) (s : Algo) : Algo :=
  { s with prevCarBat0 := if gap > 0 then car else s.prevCarBat0, uiSoc := uiSoc }

/-- `fgr_bat_int2_h_handler`, with the coulomb counter that it reads. -/
def fgrBatInt2HHandler : AlgoProg Unit := do
  let s ← get
  let delta := s.deltaCar (coulomb 0)
  fgrUpdateUisocThreshold cfg (coulomb 1)
  let s ← get
  let gap ← cdiv (delta * 100) s.htGap
  let gap := if gap > 100 then 100 else gap
  modify fun s => s.moveUi gap (coulomb 0) (raiseUiSoc s.uiSoc gap)
  fgrUpdateUisocHt cfg (coulomb 2)
  fgrUpdateUisocLt cfg (coulomb 3)

/-- The gap downwards, which is scaled while more charge is displayed than there is. -/
def scaledGapLt (delta : ℤ) : AlgoProg ℤ := do
  let s ← get
  if s.uiSoc > s.soc ∧ s.soc ≥ 100 then do
    let gap ← cdiv (delta * 100) s.ltGap
    cdiv (gap * s.uiSoc) s.soc
  else cdiv (delta * 100) s.ltGap

/-- A gap downwards is at most one percent. -/
def boundGapLt : ℤ :=
  let gap := if gap > 100 then 100 else gap
  if gap < 0 then 0 else gap

/-- `fgr_bat_int2_l_handler`, with the coulomb counter that it reads. -/
def fgrBatInt2LHandler : AlgoProg Unit := do
  let s ← get
  let delta := s.deltaCar (coulomb 0)
  fgrUpdateUisocThreshold cfg (coulomb 1)
  let gap ← scaledGapLt delta
  let gap := boundGapLt gap
  modify fun s => s.moveUi gap (coulomb 0) (lowerUiSoc chargerExist s.uiSoc gap)
  fgrUpdateUisocHt cfg (coulomb 2)
  fgrUpdateUisocLt cfg (coulomb 3)

/-- `fgr_bat_int2_handler`, with the coulomb counter that it and the handler it calls read. -/
def fgrBatInt2Handler : AlgoProg Unit := do
  let s ← get
  if coulomb 0 > s.prevCarBat0 then fgrBatInt2HHandler cfg fun n => coulomb (n + 1)
  else if coulomb 0 < s.prevCarBat0 then
    fgrBatInt2LHandler cfg chargerExist fun n => coulomb (n + 1)
  else pure ()

/-- The value that `uisoc_set` gives to the driver. -/
def shownUiSoc : ℤ := ((if uiSoc < 0 then 0 else uiSoc) + 50).tdiv 100

/-- The state of charge that is kept by the gauge. -/
def keptSoc (soc : ℤ) : ℤ := if soc ≤ 100 then 100 else if soc ≥ 10000 then 10000 else soc

/-- Hand the states of charge over to the driver and to the gauge. -/
def Algo.handOver : Algo :=
  if s.dodInitDone then
    { s with
      kernelSoc := (s.soc + 50).tdiv 100
      kernelUiSoc := shownUiSoc s.uiSoc
      rtcUiSoc := (s.uiSoc + 50).tdiv 100
      con0Soc := keptSoc s.soc }
  else s

/-- `fgr_error_calibration2`, with `get_shutdown_cond`. -/
def Algo.errorCalibration2 (shutdownCond : Bool) (s : Algo) : Algo :=
  if shutdownCond then s else { s with lowTrackingEnable := false }

/-- `fgr_int_end_flow`, with the coulomb counter that it reads and `get_shutdown_cond`. -/
def fgrIntEndFlow (shutdownCond : Bool) : AlgoProg Unit := modify fun s =>
  { s with car := car }.handOver.errorCalibration2 shutdownCond

/-- One percent less while the battery runs empty, down to zero. -/
def Algo.tracked : Algo :=
  if s.lowTrackingEnable = true ∧ chargerExist = false then
    if s.uiSoc - 100 ≤ 0 then { s with uiSoc := 0, lowTrackingEnable := false }
    else { s with uiSoc := s.uiSoc - 100 }
  else s

/-- `fgr_time_handler`. -/
def fgrTimeHandler : AlgoProg Unit := modify (Algo.tracked chargerExist)

/-- `fgr_shutdown_int_handler`. The measured current `get_imix_r` is always zero, so that the
counter is not reset. -/
def fgrShutdownIntHandler : AlgoProg Unit := modify fun s => { s with lowTrackingEnable := true }

/-- `fgr_dlpt_sd_handler`. -/
def fgrDlptSdHandler : AlgoProg Unit := do
  modify fun s => { s with kernelUiSoc := 0, lowTrackingEnable := false }
  modify fun s => { s with kernelUiSoc := shownUiSoc s.uiSoc }

/-- `fgr_vbat2_h_int_handler`. -/
def fgrVbat2HIntHandler : AlgoProg Unit := modify fun s =>
  { s with fgVbat2Lt := cfg.vbat2DetVoltage1 }

/-- `fgr_vbat2_l_int_handler`. The shutdown condition it sets is a matter of the shutdown
controller. -/
def fgrVbat2LIntHandler : AlgoProg Unit := modify fun s =>
  let low := s.fgVbat2Lt = cfg.vbat2DetVoltage1
  { s with
    fgVbat2Lt := if low then cfg.vbat2DetVoltage2 else s.fgVbat2Lt
    fgVbat2Ht := if low then cfg.vbat2DetVoltage3 else s.fgVbat2Ht }

/-- `fgr_temp_c_int_handler`. -/
def fgrTempCIntHandler (r : GaugeReading) : AlgoProg Unit := do
  fgrConstructTableByTemp cfg r.tbat
  fgrConstructVboot cfg r.rac
  fgrUpdateCDod cfg (r.coulomb 0)
  fgrSetSocByVcMode

end Handlers

/-- The interrupts of the fuel gauge. -/
inductive FgInterrupt where
  | batTmpCHt | batTmpCLt | batInt1Ht | batInt1Lt | batInt2Ht | batInt2Lt | fgTime | shutdown
  | dlptSd | vbat2H | vbat2L | other
  deriving DecidableEq, Repr

/-- `do_fg_algo`. -/
def doFgAlgo (cfg : CustomData) (r : GaugeReading) : FgInterrupt → AlgoProg Unit
  | .batTmpCHt | .batTmpCLt => do
    fgrTempCIntHandler cfg r
    fgrIntEndFlow (r.coulomb 1) r.shutdownCond
  | .batInt1Ht | .batInt1Lt => do
    fgrBatInt1Handler cfg (r.coulomb 0)
    fgrBatInt2Handler cfg r.chargerExist fun n => r.coulomb (n + 1)
    fgrIntEndFlow (r.coulomb 6) r.shutdownCond
  | .batInt2Ht => do
    fgrBatInt2HHandler cfg r.coulomb
    fgrBatInt1Handler cfg (r.coulomb 4)
    fgrIntEndFlow (r.coulomb 5) r.shutdownCond
  | .batInt2Lt => do
    fgrBatInt2LHandler cfg r.chargerExist r.coulomb
    fgrBatInt1Handler cfg (r.coulomb 4)
    fgrIntEndFlow (r.coulomb 5) r.shutdownCond
  | .fgTime => do
    fgrTimeHandler r.chargerExist
    fgrIntEndFlow (r.coulomb 0) r.shutdownCond
  | .shutdown => do
    fgrShutdownIntHandler
    fgrIntEndFlow (r.coulomb 0) r.shutdownCond
  | .dlptSd => do
    fgrDlptSdHandler
    fgrIntEndFlow (r.coulomb 0) r.shutdownCond
  | .vbat2H => do
    fgrVbat2HIntHandler cfg
    fgrIntEndFlow (r.coulomb 0) r.shutdownCond
  | .vbat2L => do
    fgrVbat2LIntHandler cfg
    fgrIntEndFlow (r.coulomb 0) r.shutdownCond
  | .other => pure ()

section Step

variable (cfg : CustomData) {uiSoc gap : ℤ}

/-- The displayed state of charge is between zero and a hundred percent. -/
def Algo.InRange (s : Algo) : Prop := 0 ≤ s.uiSoc ∧ s.uiSoc ≤ 10000

/-- The displayed state of charge is not zero, and with a charger it is above one percent or the
coulomb counter went down by less than the charge it stands for. -/
def DropOk (s : Algo) (chargerExist : Bool) (car : ℤ) : Prop :=
  s.uiSoc ≠ 0 ∧ (chargerExist = true →
    100 < s.uiSoc ∨ s.deltaCar car * 100 < s.uiSoc * max ((s.quse cfg).tdiv 200) carMinGap)
  deriving Decidable

/-- The divisors of the temperature interrupt are not zero: the tables around the temperature differ
in theirs, the boot voltage can be determined, and there is a usable capacity. -/
def RebuildOk (s : Algo) (r : GaugeReading) : Prop :=
  let t := { s with lastTemp := r.tbat }
  cfg.Encloses r.tbat ∧ VbootOk cfg r.rac (t.constructed cfg) ∧
    ((t.constructed cfg).booted cfg r.rac).quse cfg ≠ 0
  deriving Decidable

/-- The condition on an interrupt. -/
def InterruptOk (s : Algo) (r : GaugeReading) : FgInterrupt → Prop
  | .batTmpCHt | .batTmpCLt => RebuildOk cfg s r
  | .batInt1Ht | .batInt1Lt =>
    (s.prevCarBat0 < r.coulomb 1 → s.uiSoc ≠ 0) ∧
      (r.coulomb 1 < s.prevCarBat0 → DropOk cfg s r.chargerExist (r.coulomb 2))
  | .batInt2Ht => s.uiSoc ≠ 0
  | .batInt2Lt => DropOk cfg s r.chargerExist (r.coulomb 0)
  | _ => True

instance (s : Algo) (r : GaugeReading) : ∀ i, Decidable (InterruptOk cfg s r i)
  | .batTmpCHt | .batTmpCLt => inferInstanceAs (Decidable (RebuildOk cfg s r))
  | .batInt1Ht | .batInt1Lt => inferInstanceAs (Decidable ((_ → _) ∧ (_ → _)))
  | .batInt2Ht => inferInstanceAs (Decidable (s.uiSoc ≠ 0))
  | .batInt2Lt => inferInstanceAs (Decidable (DropOk cfg s r.chargerExist (r.coulomb 0)))
  | .fgTime | .shutdown | .dlptSd | .vbat2H | .vbat2L | .other => .isTrue trivial

theorem raiseUiSoc_bounds (hpos : 0 < uiSoc) (hgap : 0 ≤ gap) :
    0 < raiseUiSoc uiSoc gap ∧ raiseUiSoc uiSoc gap ≤ 10000 := by
  unfold raiseUiSoc
  dsimp only
  split_ifs <;> omega

theorem lowerUiSoc_le (hle : uiSoc ≤ 10000) (hgap : 0 ≤ gap) (chargerExist : Bool) :
    lowerUiSoc chargerExist uiSoc gap ≤ 10000 := by
  unfold lowerUiSoc
  dsimp only
  split_ifs <;> omega

/-- Only with a charger may the displayed charge fall to zero, by a gap as large. -/
theorem lowerUiSoc_pos_iff (hpos : 0 < uiSoc) (chargerExist : Bool) :
    0 < lowerUiSoc chargerExist uiSoc gap ↔ (chargerExist = true → gap < uiSoc) := by
  unfold lowerUiSoc
  cases chargerExist with
  | true => simp only [if_true, Int.sub_pos, forall_const]
  | false =>
    simp only [Bool.false_eq_true, if_false, false_imp_iff, iff_true]
    split_ifs <;> omega

/-- A condition holds in the range with a usable capacity, and not below the range. -/
structure Decides (cfg : CustomData) (Q : Unit → Algo → Prop) : Prop where
  good : ∀ s, s.InRange → s.quse cfg ≠ 0 → Q () s
  bad : ∀ s, s.uiSoc < 0 → ¬Q () s

variable {cfg} {s : Algo} {Q : Unit → Algo → Prop}

/-- A move of the displayed charge that stays positive is fine. -/
theorem wp_moveUi (hQ : Decides cfg Q) (hquse : s.quse cfg ≠ 0) (f : Algo → ℤ)
    (hle : f s ≤ 10000) (gap car htCar ltCar : ℤ) :
    wp (do
      modify fun s => s.moveUi gap car (f s)
      fgrUpdateUisocHt cfg htCar
      fgrUpdateUisocLt cfg ltCar) Q s ↔ 0 < f s := by
  rw [wp_bind, wp_modify, wp_fgrUpdateUisocGaps]
  constructor
  · rintro ⟨hne : f s ≠ 0, hpost⟩
    by_contra hneg
    exact hQ.bad _ (show f s < 0 by omega) hpost
  · intro hpos
    exact ⟨Int.ne_of_gt hpos, hQ.good _ ⟨Int.le_of_lt hpos, hle⟩ hquse⟩

/-- A rise of the displayed charge goes wrong only from zero. -/
theorem wp_fgrBatInt2HHandler (hQ : Decides cfg Q) (hrange : s.InRange) (hquse : s.quse cfg ≠ 0)
    (coulomb : ℕ → ℤ) :
    wp (fgrBatInt2HHandler cfg coulomb) Q s ↔ s.uiSoc ≠ 0 := by
  rw [fgrBatInt2HHandler, wp_read, wp_bind, wp_fgrUpdateUisocThreshold]
  refine and_iff_left_of_imp fun hne => ?_
  have hmin := carMinGap_le_htGap cfg s (coulomb 1)
  have hpos : 0 < s.uiSoc := by
    have := hrange.1
    omega
  rw [wp_read, wp_bind, wp_cdiv]
  generalize hlong : (s.withGaps cfg (coulomb 1)).htGap = long at hmin ⊢
  unfold carMinGap at hmin
  refine ⟨by omega, ?_⟩
  have hgap : 0 ≤ (s.deltaCar (coulomb 0) * 100).tdiv long := by
    apply Int.tdiv_nonneg
    · unfold deltaCar
      omega
    · omega
  generalize (s.deltaCar (coulomb 0) * 100).tdiv long = gap at hgap ⊢
  have hcut : 0 ≤ (if gap > 100 then 100 else gap) := by split_ifs <;> omega
  have hraise := raiseUiSoc_bounds hpos hcut
  exact (wp_moveUi (s := s.withGaps cfg (coulomb 1)) hQ hquse (fun s => raiseUiSoc s.uiSoc _)
    hraise.2 _ _ _ _).mpr hraise.1

/-- The value of the gap downwards. -/
def Algo.gapLt (delta : ℤ) (s : Algo) : ℤ :=
  if s.uiSoc > s.soc ∧ s.soc ≥ 100 then ((delta * 100).tdiv s.ltGap * s.uiSoc).tdiv s.soc
  else (delta * 100).tdiv s.ltGap

theorem wp_scaledGapLt {delta : ℤ} (hgap : carMinGap ≤ s.ltGap) (Q : ℤ → Algo → Prop) :
    wp (scaledGapLt delta) Q s ↔ Q (s.gapLt delta) s := by
  have hne : s.ltGap ≠ 0 := by
    unfold carMinGap at hgap
    omega
  unfold scaledGapLt gapLt
  rw [wp_read]
  by_cases hsoc : s.uiSoc > s.soc ∧ s.soc ≥ 100
  · have hsocne : s.soc ≠ 0 := by omega
    rw [if_pos hsoc, if_pos hsoc, wp_bind, wp_cdiv, wp_cdiv]
    exact ⟨fun h => h.2.2, fun hQ => ⟨hne, hsocne, hQ⟩⟩
  · rw [if_neg hsoc, if_neg hsoc, wp_cdiv]
    exact and_iff_right hne

theorem boundGapLt_lt_iff (cfg : CustomData) (hpos : 0 < s.uiSoc) (hle : s.uiSoc ≤ 100)
    (car car' : ℤ) :
    boundGapLt ((s.withGaps cfg car).gapLt (s.deltaCar car')) < s.uiSoc ↔
      s.deltaCar car' * 100 < s.uiSoc * max ((s.quse cfg).tdiv 200) carMinGap := by
  have hgap : (s.withGaps cfg car).gapLt (s.deltaCar car') =
      (s.deltaCar car' * 100).tdiv (max ((s.quse cfg).tdiv 200) carMinGap) := by
    have hnot : ¬((s.withGaps cfg car).uiSoc > (s.withGaps cfg car).soc ∧
        (s.withGaps cfg car).soc ≥ 100) := by
      rw [withGaps_uiSoc, withGaps_soc]
      omega
    rw [gapLt, if_neg hnot]
    exact congrArg _ (clampGap_of_le hle _ _)
  have hnonneg : 0 ≤ s.deltaCar car' * 100 := by
    unfold deltaCar
    omega
  have hlong : 0 < max ((s.quse cfg).tdiv 200) carMinGap := by
    unfold carMinGap
    omega
  rw [hgap, Int.tdiv_eq_ediv_of_nonneg hnonneg]
  generalize max ((s.quse cfg).tdiv 200) carMinGap = long at hlong ⊢
  have hbound : boundGapLt (s.deltaCar car' * 100 / long) < s.uiSoc ↔
      s.deltaCar car' * 100 / long < s.uiSoc := by
    have := Int.ediv_nonneg hnonneg (Int.le_of_lt hlong)
    unfold boundGapLt
    dsimp only
    split_ifs <;> omega
  rw [hbound, Int.ediv_lt_iff_lt_mul hlong]

theorem boundGapLt_nonneg (gap : ℤ) : 0 ≤ boundGapLt gap := by
  unfold boundGapLt
  dsimp only
  split_ifs <;> omega

theorem boundGapLt_le (gap : ℤ) : boundGapLt gap ≤ 100 := by
  unfold boundGapLt
  dsimp only
  split_ifs <;> omega

theorem wp_fgrBatInt2LHandler (hQ : Decides cfg Q) (hrange : s.InRange) (hquse : s.quse cfg ≠ 0)
    (chargerExist : Bool) (coulomb : ℕ → ℤ) :
    wp (fgrBatInt2LHandler cfg chargerExist coulomb) Q s ↔
      DropOk cfg s chargerExist (coulomb 0) := by
  rw [fgrBatInt2LHandler, wp_read, wp_bind, wp_fgrUpdateUisocThreshold]
  refine and_congr_right fun hne => ?_
  have hpos : 0 < s.uiSoc := by
    have := hrange.1
    omega
  rw [wp_bind, wp_scaledGapLt (carMinGap_le_ltGap cfg s (coulomb 1))]
  have hiff := fun hle => boundGapLt_lt_iff cfg hpos hle (coulomb 1) (coulomb 0)
  have hle := boundGapLt_le ((s.withGaps cfg (coulomb 1)).gapLt (s.deltaCar (coulomb 0)))
  have hnonneg := boundGapLt_nonneg ((s.withGaps cfg (coulomb 1)).gapLt (s.deltaCar (coulomb 0)))
  generalize boundGapLt ((s.withGaps cfg (coulomb 1)).gapLt (s.deltaCar (coulomb 0))) = gap at *
  refine (wp_moveUi (s := s.withGaps cfg (coulomb 1)) hQ hquse
    (fun s => lowerUiSoc chargerExist s.uiSoc gap) (lowerUiSoc_le hrange.2 hnonneg _)
    _ _ _ _).trans ((lowerUiSoc_pos_iff hpos _).trans ?_)
  refine forall_congr' fun _ => ?_
  by_cases hone : 100 < s.uiSoc
  · exact iff_of_true (by omega) (Or.inl hone)
  · rw [hiff (by omega), or_iff_right hone]

/-- What the other handlers keep: the displayed state of charge, its coulomb counter, and the usable
capacity. -/
structure SameUi (cfg : CustomData) (s s' : Algo) : Prop where
  uiSoc : s'.uiSoc = s.uiSoc
  prevCarBat0 : s'.prevCarBat0 = s.prevCarBat0
  quse : s'.quse cfg = s.quse cfg

theorem SameUi.trans {t u : Algo} (h : SameUi cfg s t) (h' : SameUi cfg t u) : SameUi cfg s u where
  uiSoc := h'.uiSoc.trans h.uiSoc
  prevCarBat0 := h'.prevCarBat0.trans h.prevCarBat0
  quse := h'.quse.trans h.quse

theorem SameUi.inRange {t : Algo} (h : SameUi cfg s t) : t.InRange ↔ s.InRange := by
  rw [InRange, InRange, h.uiSoc]

theorem sameUi_afterInt1 (cfg : CustomData) (s : Algo) (car : ℤ) :
    SameUi cfg s (s.afterInt1 cfg car) := ⟨rfl, rfl, rfl⟩

theorem sameUi_handOver : SameUi cfg s s.handOver := by
  unfold handOver
  split_ifs <;> exact ⟨rfl, rfl, rfl⟩

theorem sameUi_errorCalibration2 (shutdownCond : Bool) :
    SameUi cfg s (s.errorCalibration2 shutdownCond) := by
  unfold errorCalibration2
  split_ifs <;> exact ⟨rfl, rfl, rfl⟩

theorem Decides.of_sameUi {P : Unit → Algo → Prop} (h : Decides cfg Q)
    (hP : ∀ s, ∃ s', SameUi cfg s s' ∧ (s.quse cfg ≠ 0 → Q () s' → P () s) ∧ (P () s → Q () s')) :
    Decides cfg P where
  good := by
    intro s hrange hquse
    obtain ⟨s', hsame, hmpr, -⟩ := hP s
    exact hmpr hquse (h.good s' (hsame.inRange.mpr hrange) (hsame.quse ▸ hquse))
  bad := by
    intro s hneg hs
    obtain ⟨s', hsame, -, hmp⟩ := hP s
    exact h.bad s' (hsame.uiSoc ▸ hneg) (hmp hs)

theorem Decides.intEndFlow (h : Decides cfg Q) (car : ℤ) (shutdownCond : Bool) :
    Decides cfg fun _ s => wp (fgrIntEndFlow car shutdownCond) Q s := by
  refine h.of_sameUi fun s => ⟨_, ?_, fun _ => (wp_modify _ _ _).mpr, (wp_modify _ _ _).mp⟩
  have hcar : SameUi cfg s { s with car := car } := ⟨rfl, rfl, rfl⟩
  exact (hcar.trans sameUi_handOver).trans (sameUi_errorCalibration2 shutdownCond)

theorem Decides.int1 (h : Decides cfg Q) (car : ℤ) :
    Decides cfg fun _ s => wp (fgrBatInt1Handler cfg car) Q s := by
  refine h.of_sameUi fun s => ⟨_, sameUi_afterInt1 cfg s car, ?_⟩
  rw [wp_fgrBatInt1Handler]
  exact ⟨And.intro, And.right⟩

theorem constructed_uiSoc (cfg : CustomData) (s : Algo) : (s.constructed cfg).uiSoc = s.uiSoc := by
  unfold constructed
  split_ifs <;> rfl

theorem aged_uiSoc (s : Algo) : s.aged.uiSoc = s.uiSoc := by
  unfold aged
  split_ifs <;> rfl

theorem booted_uiSoc (cfg : CustomData) (rac : ℤ) (s : Algo) :
    (s.booted cfg rac).uiSoc = s.uiSoc := by
  unfold booted
  split_ifs
  · rw [aged_uiSoc]
    rfl
  · dsimp only
    rw [aged_uiSoc]
    rfl
  · rw [aged_uiSoc]

theorem tracked_inRange (hrange : s.InRange) (chargerExist : Bool) :
    (s.tracked chargerExist).InRange := by
  unfold InRange at *
  unfold tracked
  split_ifs
  · dsimp only
    omega
  · dsimp only
    omega
  · exact hrange

theorem tracked_quse (chargerExist : Bool) : (s.tracked chargerExist).quse cfg = s.quse cfg := by
  unfold tracked
  split_ifs <;> rfl

section Cases

variable (hQ : Decides cfg Q)
include hQ

/-- A new temperature needs tables that enclose it, and a capacity. -/
theorem wp_tempC (hrange : s.InRange) (r : GaugeReading) (car : ℤ) :
    wp (do fgrTempCIntHandler cfg r; fgrIntEndFlow car r.shutdownCond) Q s ↔
      RebuildOk cfg s r := by
  simp only [fgrTempCIntHandler, fgrConstructTableByTemp, fgrSetSocByVcMode, wp_bind, wp_modify,
    wp_fgrConstructBatteryProfile, wp_fgrConstructVboot, wp_fgrUpdateCDod]
  unfold RebuildOk
  refine and_congr_right fun _ => and_congr_right fun _ => and_iff_left_of_imp fun hquse => ?_
  have hui : (({ s with lastTemp := r.tbat }.constructed cfg).booted cfg r.rac).uiSoc =
      s.uiSoc := by
    rw [booted_uiSoc, constructed_uiSoc]
  generalize ({ s with lastTemp := r.tbat }.constructed cfg).booted cfg r.rac = t at hui hquse ⊢
  apply (hQ.intEndFlow _ _).good
  · unfold InRange withDod
    dsimp only
    rw [hui]
    exact hrange
  · exact hquse

theorem wp_plain {f : Algo → Algo} (hrange : (f s).InRange) (hquse : (f s).quse cfg ≠ 0) (car : ℤ)
    (shutdownCond : Bool) : wp (do modify f; fgrIntEndFlow car shutdownCond) Q s := by
  rw [wp_bind, wp_modify]
  exact (hQ.intEndFlow _ _).good _ hrange hquse

variable (hrange : s.InRange) (hquse : s.quse cfg ≠ 0) (r : GaugeReading)
include hrange hquse r

theorem wp_int1 : wp (doFgAlgo cfg r .batInt1Ht) Q s ↔ InterruptOk cfg s r .batInt1Ht := by
  have hsame := sameUi_afterInt1 cfg s (r.coulomb 0)
  have hrange' := hsame.inRange.mpr hrange
  have hquse' : (s.afterInt1 cfg (r.coulomb 0)).quse cfg ≠ 0 := hsame.quse ▸ hquse
  have hend := hQ.intEndFlow (r.coulomb 6) r.shutdownCond
  rw [doFgAlgo, wp_bind, wp_fgrBatInt1Handler, and_iff_right hquse, wp_bind]
  unfold fgrBatInt2Handler InterruptOk
  rw [wp_read, hsame.prevCarBat0]
  by_cases hup : r.coulomb 1 > s.prevCarBat0
  · have hdown : ¬r.coulomb 1 < s.prevCarBat0 := by omega
    rw [if_pos hup, wp_fgrBatInt2HHandler hend hrange' hquse', hsame.uiSoc]
    exact ⟨fun hne => ⟨fun _ => hne, fun h => absurd h hdown⟩, fun h => h.1 hup⟩
  · rw [if_neg hup]
    by_cases hdown : r.coulomb 1 < s.prevCarBat0
    · rw [if_pos hdown, wp_fgrBatInt2LHandler hend hrange' hquse']
      have hdrop : DropOk cfg (s.afterInt1 cfg (r.coulomb 0)) r.chargerExist (r.coulomb 2) ↔
          DropOk cfg s r.chargerExist (r.coulomb 2) := by
        unfold DropOk deltaCar
        rw [hsame.uiSoc, hsame.prevCarBat0, hsame.quse]
      exact ⟨fun h => ⟨fun h' => absurd h' hup, fun _ => hdrop.mp h⟩,
        fun h => hdrop.mpr (h.2 hdown)⟩
    · rw [if_neg hdown, wp_pure]
      exact ⟨fun _ => ⟨fun h => absurd h hup, fun h => absurd h hdown⟩,
        fun _ => hend.good _ hrange' hquse'⟩

/-- Each interrupt is handled without a fault exactly under its condition. -/
theorem wp_doFgAlgo (i : FgInterrupt) : wp (doFgAlgo cfg r i) Q s ↔ InterruptOk cfg s r i := by
  have hint1 := (hQ.intEndFlow (r.coulomb 5) r.shutdownCond).int1 (r.coulomb 4)
  cases i with
  | batTmpCHt | batTmpCLt => exact wp_tempC hQ hrange r _
  | batInt1Ht | batInt1Lt => exact wp_int1 hQ hrange hquse r
  | batInt2Ht =>
    simp only [doFgAlgo, wp_bind]
    exact wp_fgrBatInt2HHandler hint1 hrange hquse _
  | batInt2Lt =>
    simp only [doFgAlgo, wp_bind]
    exact wp_fgrBatInt2LHandler hint1 hrange hquse _ _
  | fgTime =>
    refine iff_of_true ?_ trivial
    apply wp_plain hQ
    · exact tracked_inRange hrange _
    · rw [tracked_quse]
      exact hquse
  | shutdown => exact iff_of_true (wp_plain hQ hrange hquse _ _) trivial
  | dlptSd =>
    rw [doFgAlgo, fgrDlptSdHandler, wp_bind, wp_bind, wp_modify, wp_modify]
    exact iff_of_true ((hQ.intEndFlow _ _).good _ hrange hquse) trivial
  | vbat2H | vbat2L => exact iff_of_true (wp_plain hQ hrange hquse _ _) trivial
  | other => exact iff_of_true (hQ.good s hrange hquse) trivial

end Cases

end Step

variable (cfg : CustomData)

/-- One interrupt with what is read during it. After a fault nothing happens any more. -/
def algoStep (x : Except AlgoFault Algo) (e : FgInterrupt × GaugeReading) :
    Except AlgoFault Algo := do
  let s ← x
  let result ← doFgAlgo cfg e.2 e.1 s
  pure result.2

/-- There was no fault, and the displayed state of charge is in the range. -/
def UiSocOk : Except AlgoFault Algo → Prop
  | .ok s => s.InRange
  | .error _ => False

/-- There was no fault, and the next interrupt meets the condition. -/
def StepOk (x : Except AlgoFault Algo) (e : FgInterrupt × GaugeReading) : Prop :=
  match x with
  | .ok s => InterruptOk cfg s e.2 e.1
  | .error _ => False

instance (cfg : CustomData) (x : Except AlgoFault Algo) (e : FgInterrupt × GaugeReading) :
    Decidable (StepOk cfg x e) :=
  match x with
  | .ok s => inferInstanceAs (Decidable (InterruptOk cfg s e.2 e.1))
  | .error _ => .isFalse id

/-- There was no fault, the displayed state of charge is in the range, and there is a usable
capacity. -/
def Sound : Except AlgoFault Algo → Prop
  | .ok s => s.InRange ∧ s.quse cfg ≠ 0
  | .error _ => False

theorem algoStep_ok (s : Algo) (e : FgInterrupt × GaugeReading) (P : Except AlgoFault Algo → Prop)
    (hP : ∀ f, ¬P (.error f)) :
    P (algoStep cfg (.ok s) e) ↔ wp (doFgAlgo cfg e.2 e.1) (fun _ s' => P (.ok s')) s := by
  unfold algoStep wp
  simp only [bind, Except.bind]
  cases doFgAlgo cfg e.2 e.1 s with
  | error f => simp [hP f]
  | ok result => rfl

variable {x : Except AlgoFault Algo} {cfg : CustomData}

/-- A step keeps the displayed charge in its range exactly under its condition. -/
theorem Sound.uiSocOk_step (hsound : Sound cfg x)
    (e : FgInterrupt × GaugeReading) : UiSocOk (algoStep cfg x e) ↔ StepOk cfg x e := by
  cases x with
  | error f => exact absurd hsound id
  | ok s =>
    rw [algoStep_ok cfg s e UiSocOk fun _ => id]
    exact wp_doFgAlgo ⟨fun s' hrange _ => hrange, fun s' hneg hrange => absurd hrange.1 (by omega)⟩
      hsound.1 hsound.2 e.2 e.1

/-- A step that meets its condition keeps the state sound. -/
theorem Sound.step (hsound : Sound cfg x)
    {e : FgInterrupt × GaugeReading} (hok : StepOk cfg x e) : Sound cfg (algoStep cfg x e) := by
  cases x with
  | error f => exact absurd hsound id
  | ok s =>
    rw [algoStep_ok cfg s e (Sound cfg) fun _ => id]
    refine (wp_doFgAlgo ⟨?_, ?_⟩ hsound.1 hsound.2 e.2 e.1).mpr hok
    · exact fun s' hrange hquse => ⟨hrange, hquse⟩
    · intro s' hneg hs'
      exact absurd hs'.1.1 (by omega)

/-- A table whose voltage falls by 10 mV from row to row. -/
def sampleTable (temperature : ℤ) : FuelGaugeTable where
  temperature := temperature
  qMax := 4000
  qMaxHCurrent := 3900
  pmicMinVol := 33500
  ponIboot := 4000
  size := 100
  fgProfile := fun i => ⟨500 * i, (42000 - 100 * i).toNat, 1000, 1000, 0⟩

/-- Two tables, for 25 and for 0 degrees. -/
def sampleData : CustomData where
  fgProfile0 := sampleTable 25
  fgProfiles := [sampleTable 0]
  agingSel := 0
  qmaxSel := 1
  ibootSel := 0
  shutdownSystemIboot := 0
  rFgValue := 50
  fgMeterResistance := 0
  diffSocSetting := 50
  vbat2DetVoltage1 := 34500
  vbat2DetVoltage2 := 32500
  vbat2DetVoltage3 := 36000

/-- The algorithm at one percent of charge. -/
def onePercent : Algo where
  profile := (sampleTable 25).fgProfile
  lastTemp := 25
  tTableC := 25
  qmaxT0maHTb1 := 40000
  qmaxTNmaHTb1 := 39000
  qmaxT0maTb1 := 40000
  vboot := 0
  vbootC := 0
  qmaxTAging := 0
  agingFactor := 10000
  dcRatio := 100
  quseTb1 := 40000
  car := 0
  fgCD0Ocv := 34000
  fgCD0Dod := 0
  fgCD0Soc := 0
  fgCDod := 0
  fgCSoc := 0
  soc := 100
  uiSoc := 100
  fgBatInt1Gap := 15
  prevCarBat0 := 0
  htGap := 15
  ltGap := 15
  lowTrackingEnable := false
  fgVbat2Lt := 34500
  fgVbat2Ht := 36000
  dodInitDone := true
  uisocIntHtGap := 15
  uisocIntLtGap := 15
  coulombIntGap := 15
  kernelSoc := 1
  kernelUiSoc := 1
  rtcUiSoc := 1
  con0Soc := 100

/-- A reading of the coulomb counter, with a shutdown condition or without. -/
def carReading (car : ℤ) (chargerExist shutdownCond : Bool) : GaugeReading where
  coulomb := fun _ => car
  tbat := 20
  rac := 100
  chargerExist := chargerExist
  shutdownCond := shutdownCond

/-- The voltage is low, so that the display is tracked down to zero. Then a charger is plugged in,
and the coulomb counter reaches its upper threshold. -/
def emptyRun : List (FgInterrupt × GaugeReading) :=
  [(.shutdown, carReading 0 false true), (.fgTime, carReading 0 false true),
    (.batInt2Ht, carReading 200 true false)]

/-- The run ends with a division by zero in `fgr_update_uisoc_threshold`. -/
theorem not_uiSocOk_emptyRun : onePercent.InRange ∧ 0 < onePercent.quse sampleData ∧
    ¬∀ pre, pre <+: emptyRun →
      UiSocOk (pre.foldl (algoStep sampleData) (.ok onePercent)) := by
  refine ⟨⟨by decide, by decide⟩, by decide, fun hall => ?_⟩
  exact hall emptyRun List.prefix_rfl

-- With a charger the display also falls below zero.
example : (algoStep sampleData (.ok { onePercent with uiSoc := 50 })
    (.batInt2Lt, carReading (-400) true false)).map Algo.uiSoc = .ok (-50) := rfl

/-- In every run of interrupts from a displayed state of charge in the range and with a usable
capacity, no division by zero is executed and the displayed state of charge stays in the range, if
and only if every interrupt meets the condition on it. -/
theorem uiSocOk_iff_runOk (cfg : CustomData) (s : Algo) (hrange : s.InRange)
    (hquse : 0 < s.quse cfg) (es : List (FgInterrupt × GaugeReading)) :
    (∀ pre, pre <+: es → UiSocOk (pre.foldl (algoStep cfg) (.ok s))) ↔
      RunOk (algoStep cfg) (StepOk cfg) (.ok s) es := by
  have hgood : ∀ x, Sound cfg x → UiSocOk x := by
    intro x hsound
    cases x with
    | error f => exact hsound
    | ok s' => exact hsound.1
  apply forall_prefix_iff_runOk hgood
  · exact fun x e hsound => hsound.uiSocOk_step e
  · exact fun x e hsound hok => hsound.step hok
  · exact ⟨hrange, Int.ne_of_gt hquse⟩

/-- A charger is plugged in at one percent, and the battery gets warmer. -/
def chargedRun : List (FgInterrupt × GaugeReading) :=
  [(.batInt2Ht, carReading 200 true false), (.batTmpCHt, carReading 210 true false),
    (.batInt1Lt, carReading 150 true false)]

/-- The equivalence at a run that meets the condition. -/
theorem uiSocOk_chargedRun :
    RunOk (algoStep sampleData) (StepOk sampleData) (.ok onePercent) chargedRun ∧
      ∀ pre, pre <+: chargedRun → UiSocOk (pre.foldl (algoStep sampleData) (.ok onePercent)) := by
  have hok : RunOk (algoStep sampleData) (StepOk sampleData) (.ok onePercent) chargedRun := by
    decide +kernel
  refine ⟨hok, ?_⟩
  exact (uiSocOk_iff_runOk sampleData onePercent ⟨by decide, by decide⟩ (by decide) chargedRun).mpr
    hok

end Mt8169.Battery
