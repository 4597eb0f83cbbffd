import Mt8169.Lib.MachineInt
import Mt8169.Lib.Runs
import Mathlib.Data.List.FinRange

/-!
# The shutdown controller

Four conditions can make the battery driver power the system off: the state of charge is zero, the
displayed one is one percent, the voltage is low, or the power throttling asks for it.
`set_shutdown_cond` sets a condition and `shutdown_event_handler` polls it, and says in how many
seconds to run again. The definitions follow `mtk_battery.c`.
-/

namespace Mt8169.Battery

open MachineInt Runs

variable {polling : ℤ} {r : Reading} {s : ShutdownController}

/-- The shutdown conditions. -/
inductive ShutdownCond where
  | overheat | socZeroPercent | uisocOnePercent | lowBatVolt | dlptShutdown | lowBatteryTemp
  deriving DecidableEq, Repr

/-- `AVGVBAT_ARRAY_SIZE`. -/
def avgvbatArraySize : ℕ := 30

/-- `SHUTDOWN_TIME`. -/
def shutdownTime : ℤ := 40

/-- `BAT_VOLTAGE_LOW_BOUND`. -/
def batVoltageLowBound : ℤ := 3400

/-- `LOW_TMP_BAT_VOLTAGE_LOW_BOUND`. -/
def lowTmpBatVoltageLowBound : ℤ := 3350

/-- `LOW_TEMP_THRESHOLD`. -/
def lowTempThreshold : ℤ := 5

/-- `VBAT2_DET_VOLTAGE1`. -/
def vbat2DetVoltage1 : ℤ := 34500

/-- `struct shutdown_controller` and `struct shutdown_condition`, the static variables of
`shutdown_event_handler` and the fields of `struct mtk_battery` it reads. Times are in nanoseconds.
`alarm` is the alarm that is started, and `poweredOff` says that `kernel_power_off` was called. -/
structure ShutdownController where
  isOverheat : Bool
  isSocZeroPercent : Bool
  isUisocOnePercent : Bool
  isUnderShutdownVoltage : Bool
  isDlptShutdown : Bool
  preTime : ShutdownCond → ℤ
  avgvbat : ℤ
  lowbatteryshutdown : Bool
  batdata : Fin avgvbatArraySize → ℤ
  batidx : Fin avgvbatArraySize
  shutdownCondFlag : ℤ
  timeout : Bool
  alarm : Option ℤ
  uiZeroTimeFlag : Bool
  downToLowBat : Bool
  uiSoc : ℤ
  soc : ℤ
  disableGM30 : Bool
  poweredOff : Bool

/-- A shutdown condition is set. -/
def ShutdownController.pending (s : ShutdownController) : Bool :=
  s.isSocZeroPercent || s.isUisocOnePercent || s.isDlptShutdown || s.isUnderShutdownVoltage

/-- What the hardware and the kernel show: the time since boot, the battery's current, voltage
and temperature, and whether the system only charges. -/
structure Reading where
  now : ℤ
  current : ℤ
  vbat : ℤ
  tbat : ℤ
  kpoc : Bool

/-- The state with the time of a condition noted. -/
def ShutdownController.setPreTime (s : ShutdownController) (cond : ShutdownCond) (time : ℤ) :
    ShutdownController :=
  { s with preTime := Function.update s.preTime cond time }

/-- The whole seconds since the time noted for a condition. -/
def ShutdownController.seconds (s : ShutdownController) (now : ℤ) (cond : ShutdownCond) : ℤ :=
  (now - s.preTime cond) / 10 ^ 9

/-- `wake_up_power_misc`. -/
def wakeUpPowerMisc (s : ShutdownController) : ShutdownController := { s with timeout := true }

/-- The `switch` of `set_shutdown_cond`. -/
def setCond (cond : ShutdownCond) (r : Reading) (s : ShutdownController) : ShutdownController :=
  let charging : Bool := 0 ≤ r.current
  match cond with
  | .overheat => { s with isOverheat := true, poweredOff := true }
  | .socZeroPercent =>
    if !s.isSocZeroPercent && !r.kpoc && !charging then
      { s with isSocZeroPercent := true }.setPreTime .socZeroPercent r.now
    else s
  | .uisocOnePercent =>
    if !s.isUisocOnePercent && !r.kpoc && !charging then
      { s with isUisocOnePercent := true }.setPreTime .uisocOnePercent r.now
    else s
  | .lowBatVolt =>
    if !s.isUnderShutdownVoltage && !r.kpoc then
      { s with
        isUnderShutdownVoltage := true
        batdata := fun _ => vbat2DetVoltage1.tdiv 10
        batidx := ⟨0, by decide⟩ }
    else s
  | .dlptShutdown =>
    if !s.isDlptShutdown then
      { s with isDlptShutdown := true }.setPreTime .dlptShutdown r.now
    else s
  | .lowBatteryTemp => { s with poweredOff := true }

/-- `set_shutdown_cond`. -/
def setShutdownCond (cond : ShutdownCond) (r : Reading) (s : ShutdownController) :
    ShutdownController :=
  if s.shutdownCondFlag = 1 then s
  else if s.shutdownCondFlag = 2 ∧ cond ≠ .lowBatVolt then s
  else if s.shutdownCondFlag = 3 ∧ cond ≠ .dlptShutdown then s
  else wakeUpPowerMisc (setCond cond r s)

/-- `disable_shutdown_cond`. -/
def disableShutdownCond (cond : ShutdownCond) (s : ShutdownController) : ShutdownController :=
  match cond with
  | .lowBatVolt => { s with isUnderShutdownVoltage := false, lowbatteryshutdown := false }
  | _ => s

/-- `next_waketime`. -/
def nextWaketime (polling : ℤ) : ℤ := if polling ≤ 0 then 0 else 10

/-- Where `shutdown_event_handler` stands: it has returned, possibly with a power-off, or it goes
on. -/
inductive Handling where
  | ret (s : ShutdownController) (powerOff : Bool) (wake : ℤ)
  | next (s : ShutdownController) (polling : ℤ)

/-- Go on with the next part of the handler, unless it has returned. -/
def Handling.andThen (h : Handling) (f : ShutdownController → ℤ → Handling) : Handling :=
  match h with
  | .ret s powerOff wake => .ret s powerOff wake
  | .next s polling => f s polling

/-- `shutdown_event_handler`: the state of charge is zero. -/
def checkSocZero (r : Reading) (s : ShutdownController) (polling : ℤ) : Handling :=
  if s.isSocZeroPercent then
    if s.uiSoc = 0 then
      if shutdownTime ≤ s.seconds r.now .socZeroPercent then
        .ret s true (nextWaketime (polling + 1))
      else .next s (polling + 1)
    else if 0 < s.soc then .next { s with isSocZeroPercent := false } polling
    -- ui_soc is not zero, check it after 10s
    else .next s (polling + 1)
  else .next s polling

/-- `shutdown_event_handler`: the displayed state of charge is one percent. -/
def checkUisocOne (r : Reading) (s : ShutdownController) (polling : ℤ) : Handling :=
  if s.isUisocOnePercent then
    if s.uiSoc = 0 then
      if shutdownTime ≤ s.seconds r.now .uisocOnePercent then .ret s true (nextWaketime polling)
      else .next s (polling + 1)
    else if 0 < r.current ∧ 0 < s.soc then
      .ret { s with isUisocOnePercent := false } false (nextWaketime 0)
    -- ui_soc is not zero, check it after 10s
    else .next s (polling + 1)
  else .next s polling

/-- `shutdown_event_handler`: the power throttling asks for a shutdown. -/
def checkDlpt (r : Reading) (s : ShutdownController) (polling : ℤ) : Handling :=
  if s.isDlptShutdown then
    if shutdownTime ≤ s.seconds r.now .dlptShutdown then
      .ret s false (nextWaketime (polling + 1))
    else .next s (polling + 1)
  else .next s polling

/-- The average of the last voltages, with the new one noted. -/
def noteVbat (vbat : ℤ) (s : ShutdownController) : ShutdownController :=
  let batdata := Function.update s.batdata s.batidx vbat
  { s with
    batdata := batdata
    avgvbat := ((List.finRange avgvbatArraySize).foldl (fun sum i => s32 (sum + batdata i)) 0).tdiv
      avgvbatArraySize }

/-- The place for the next voltage. -/
def nextBatidx (i : Fin avgvbatArraySize) : Fin avgvbatArraySize :=
  if h : i.val + 1 < avgvbatArraySize then ⟨i.val + 1, h⟩ else ⟨0, by decide⟩

/-- The flags of `shutdown_event_handler` for a low average voltage. In the cold the voltage may
be lower. -/
def noteLowBat (r : Reading) (s : ShutdownController) : ShutdownController :=
  { s with
    lowbatteryshutdown := true
    downToLowBat := s.downToLowBat || decide (lowTempThreshold ≤ r.tbat) ||
      decide (s.avgvbat ≤ lowTmpBatVoltageLowBound) }

/-- `shutdown_event_handler`: the battery voltage is low. -/
def checkUnderVoltage (r : Reading) (s : ShutdownController) (polling : ℤ) : Handling :=
  if s.isUnderShutdownVoltage then
    let s := noteVbat r.vbat s
    if s.avgvbat < batVoltageLowBound then
      let s := noteLowBat r s
      let s := if s.uiSoc = 0 ∧ s.uiZeroTimeFlag = false then
          { s with uiZeroTimeFlag := true }.setPreTime .lowBatVolt r.now
        else s
      if s.uiSoc = 0 ∧ shutdownTime ≤ s.seconds r.now .lowBatVolt then
        .ret s true (nextWaketime (polling + 1))
      else .next { s with batidx := nextBatidx s.batidx } (polling + 2)
    else
      -- greater than 3.4v, clear status
      let s := { s with
        downToLowBat := false
        uiZeroTimeFlag := false
        lowbatteryshutdown := false }.setPreTime .lowBatVolt 0
      .next { s with batidx := nextBatidx s.batidx } (polling + 2)
  else .next s polling

/-- `shutdown_event_handler`: the state it leaves, whether it asks for a power-off, and the seconds
after which it wants to run again. -/
def shutdownEventHandler (r : Reading) (s : ShutdownController) :
    ShutdownController × Bool × ℤ :=
  match (((checkSocZero r s 0).andThen (checkUisocOne r)).andThen (checkDlpt r)).andThen
    (checkUnderVoltage r) with
  | .ret s powerOff wake => (s, powerOff, wake)
  | .next s polling => (s, false, nextWaketime polling)

/-- `power_misc_handler`. -/
def powerMiscHandler (r : Reading) (s : ShutdownController) : ShutdownController :=
  let (s, powerOff, secs) := shutdownEventHandler r s
  let s := { s with poweredOff := s.poweredOff || powerOff }
  if secs ≠ 0 ∧ s.disableGM30 = false then { s with alarm := some (r.now + secs * 10 ^ 9) } else s

/-- A run of the handler that does not ask for a power-off asks to run again while a condition
is set. -/
def Polls (r : Reading) (s : ShutdownController) : Prop :=
  (shutdownEventHandler r s).2.1 = false → (shutdownEventHandler r s).1.pending = true →
    (shutdownEventHandler r s).2.2 ≠ 0

/-- The handler does not give up the one percent condition for a charged battery while the voltage
is low or the power throttling asks for a shutdown. -/
def PollOk (r : Reading) (s : ShutdownController) : Prop :=
  ¬(s.isUisocOnePercent = true ∧ s.uiSoc ≠ 0 ∧ 0 < r.current ∧ 0 < s.soc ∧
    (s.isDlptShutdown = true ∨ s.isUnderShutdownVoltage = true))

theorem nextWaketime_ne_zero (h : 0 < polling) : nextWaketime polling ≠ 0 := by
  unfold nextWaketime
  rw [if_neg (by omega)]
  decide

/-- What holds between the parts of the handler: if it has returned, it asks to run again as it
should, and otherwise the state and the count satisfy `Q`. -/
def Handling.Sat (h : Handling) (Q : ShutdownController → ℤ → Prop) : Prop :=
  match h with
  | .ret s powerOff wake => powerOff = false → s.pending = true → wake ≠ 0
  | .next s polling => Q s polling

/-- The rule for two parts of the handler in a row. -/
theorem Handling.Sat.andThen {h : Handling} {f : ShutdownController → ℤ → Handling}
    {Q R : ShutdownController → ℤ → Prop} (hh : h.Sat Q)
    (hf : ∀ s polling, Q s polling → (f s polling).Sat R) : (h.andThen f).Sat R := by
  cases h with
  | ret s powerOff wake => exact hh
  | next s polling => exact hf s polling hh

/-- The check of an empty battery leaves a positive polling time while it is pending. -/
theorem checkSocZero_sat (hok : PollOk r s) :
    (checkSocZero r s 0).Sat fun s polling => PollOk r s ∧ 0 ≤ polling ∧
      (s.isSocZeroPercent = true → 0 < polling) ∧
      (s.uiSoc ≠ 0 → 0 < s.soc → s.isSocZeroPercent = false) := by
  unfold checkSocZero
  split_ifs with hset hui htime hsoc
  · exact fun hoff => absurd hoff (by decide)
  · exact ⟨hok, by decide, fun _ => by decide, fun hne => absurd hui hne⟩
  · exact ⟨hok, by decide, fun h => absurd h Bool.false_ne_true, fun _ _ => rfl⟩
  · exact ⟨hok, by decide, fun _ => by decide, fun _ hpos => absurd hpos hsoc⟩
  · have hclear : s.isSocZeroPercent = false := by simpa using hset
    exact ⟨hok, by decide, fun h => absurd h hset, fun _ _ => hclear⟩

theorem checkUisocOne_sat
    (h : PollOk r s ∧ 0 ≤ polling ∧ (s.isSocZeroPercent = true → 0 < polling) ∧
      (s.uiSoc ≠ 0 → 0 < s.soc → s.isSocZeroPercent = false)) :
    (checkUisocOne r s polling).Sat fun s polling => 0 ≤ polling ∧
      (s.isSocZeroPercent = true ∨ s.isUisocOnePercent = true → 0 < polling) := by
  obtain ⟨hok, hpos, hseen, hclear⟩ := h
  unfold checkUisocOne
  split_ifs with hset hui htime hcharging
  · exact fun hoff => absurd hoff (by decide)
  · exact ⟨by omega, fun _ => by omega⟩
  · rintro - hpending
    have hothers : ¬(s.isDlptShutdown = true ∨ s.isUnderShutdownVoltage = true) := fun hset' =>
      hok ⟨hset, hui, hcharging.1, hcharging.2, hset'⟩
    rw [not_or, Bool.not_eq_true, Bool.not_eq_true] at hothers
    simp [ShutdownController.pending, hclear hui hcharging.2, hothers] at hpending
  · exact ⟨by omega, fun _ => by omega⟩
  · exact ⟨hpos, fun hor => hseen (hor.resolve_right hset)⟩

theorem checkDlpt_sat (r : Reading)
    (h : 0 ≤ polling ∧ (s.isSocZeroPercent = true ∨ s.isUisocOnePercent = true → 0 < polling)) :
    (checkDlpt r s polling).Sat fun s polling => 0 ≤ polling ∧
      (s.isSocZeroPercent = true ∨ s.isUisocOnePercent = true ∨ s.isDlptShutdown = true →
        0 < polling) := by
  obtain ⟨hpos, hseen⟩ := h
  unfold checkDlpt
  split_ifs with hset htime
  · exact fun _ _ => nextWaketime_ne_zero (by omega)
  · exact ⟨by omega, fun _ => by omega⟩
  · refine ⟨hpos, ?_⟩
    rintro (hsoc | hui | hdlpt)
    · exact hseen (Or.inl hsoc)
    · exact hseen (Or.inr hui)
    · exact absurd hdlpt hset

/-- At the end, whatever is pending is polled. -/
theorem checkUnderVoltage_sat (r : Reading)
    (h : 0 ≤ polling ∧ (s.isSocZeroPercent = true ∨ s.isUisocOnePercent = true ∨
      s.isDlptShutdown = true → 0 < polling)) :
    (checkUnderVoltage r s polling).Sat fun s polling => s.pending = true → 0 < polling := by
  obtain ⟨hpos, hseen⟩ := h
  unfold checkUnderVoltage
  dsimp only
  by_cases hset : s.isUnderShutdownVoltage = true
  · rw [if_pos hset]
    have htwo : 0 < polling + 2 := by omega
    generalize noteVbat r.vbat s = s1
    generalize noteLowBat r s1 = s2
    by_cases hlow : s1.avgvbat < batVoltageLowBound
    · rw [if_pos hlow]
      generalize (if s2.uiSoc = 0 ∧ s2.uiZeroTimeFlag = false then _ else s2) = s3
      split_ifs
      · exact fun hoff => absurd hoff (by decide)
      · exact fun _ => htwo
    · rw [if_neg hlow]
      exact fun _ => htwo
  · rw [if_neg hset]
    intro hpending
    simp only [ShutdownController.pending, Bool.or_eq_true, or_assoc] at hpending
    rcases hpending with hsoc | hui | hdlpt | hunder
    · exact hseen (Or.inl hsoc)
    · exact hseen (Or.inr (Or.inl hui))
    · exact hseen (Or.inr (Or.inr hdlpt))
    · exact absurd hunder hset

/-- Under the condition, the handler polls what is pending. -/
theorem polls_of_pollOk (hok : PollOk r s) : Polls r s := by
  have hsat := (((checkSocZero_sat hok).andThen fun _ _ => checkUisocOne_sat).andThen
    fun _ _ => checkDlpt_sat r).andThen fun _ _ => checkUnderVoltage_sat r
  unfold Polls shutdownEventHandler
  cases hend : (((checkSocZero r s 0).andThen (checkUisocOne r)).andThen (checkDlpt r)).andThen
      (checkUnderVoltage r) with
  | ret s' powerOff wake =>
    rw [hend] at hsat
    exact hsat
  | next s' polling =>
    rw [hend] at hsat
    exact fun _ hpending => nextWaketime_ne_zero (hsat hpending)

/-- Without it, the handler stops polling. -/
theorem handler_of_not_pollOk (hnot : ¬PollOk r s) :
    shutdownEventHandler r s =
      ({ s with isSocZeroPercent := false, isUisocOnePercent := false }, false, 0) := by
  obtain ⟨hset, hui, hcurrent, hsoc, -⟩ := not_not.mp hnot
  have hfirst : checkSocZero r s 0 = .next { s with isSocZeroPercent := false } 0 := by
    unfold checkSocZero
    rw [if_neg hui, if_pos hsoc]
    split_ifs with hzero
    · rfl
    · have hclear : s.isSocZeroPercent = false := by simpa using hzero
      exact congrArg (Handling.next · 0) (by rw [← hclear])
  have hsecond : checkUisocOne r { s with isSocZeroPercent := false } 0 =
      .ret { s with isSocZeroPercent := false, isUisocOnePercent := false } false 0 := by
    unfold checkUisocOne
    rw [if_pos hset, if_neg hui, if_pos ⟨hcurrent, hsoc⟩]
    rfl
  unfold shutdownEventHandler
  rw [hfirst, Handling.andThen, hsecond]
  rfl

/-- In every state and for all readings, a run of the handler without a power-off asks to run again
while a condition is set, if and only if it does not give up the one percent condition while a later
condition is set. -/
theorem polls_iff_pollOk (r : Reading) (s : ShutdownController) : Polls r s ↔ PollOk r s := by
  constructor
  · intro hpolls
    by_contra hnot
    have hset := (not_not.mp hnot).2.2.2.2
    unfold Polls at hpolls
    rw [handler_of_not_pollOk hnot] at hpolls
    refine hpolls rfl ?_ rfl
    rcases hset with hdlpt | hunder
    · simp [ShutdownController.pending, hdlpt]
    · simp [ShutdownController.pending, hunder]
  · exact polls_of_pollOk

/-- A controller with the one percent condition and a request of the power throttling. -/
def chargedAtOnePercent : ShutdownController where
  isOverheat := false
  isSocZeroPercent := false
  isUisocOnePercent := true
  isUnderShutdownVoltage := false
  isDlptShutdown := true
  preTime := fun _ => 0
  avgvbat := 0
  lowbatteryshutdown := false
  batdata := fun _ => 0
  batidx := ⟨0, by decide⟩
  shutdownCondFlag := 0
  timeout := false
  alarm := none
  uiZeroTimeFlag := false
  downToLowBat := false
  uiSoc := 1
  soc := 1
  disableGM30 := false
  poweredOff := false

/-- The charger is plugged in, and the battery is charged. -/
def chargingReading : Reading where
  now := 10 ^ 9
  current := 100
  vbat := 3500
  tbat := 25
  kpoc := false

/-- The handler returns the wake time zero while the power throttling waits for a shutdown. -/
theorem not_polls_chargedAtOnePercent : ¬Polls chargingReading chargedAtOnePercent := by
  unfold Polls
  decide +kernel

/-- What can happen to the controller: a condition is set or disabled, the thread runs the handler,
the alarm fires, and the state of charge or the flag for tests changes. -/
inductive ShutdownEvent where
  | set (cond : ShutdownCond) (r : Reading)
  | disable (cond : ShutdownCond)
  | handle (r : Reading)
  | alarm
  | soc (uiSoc soc : ℤ)
  | condFlag (flag : ℤ)

/-- One step of the controller. -/
def shutdownStep (s : ShutdownController) : ShutdownEvent → ShutdownController
  | .set cond r => setShutdownCond cond r s
  | .disable cond => disableShutdownCond cond s
  | .handle r => if s.timeout then powerMiscHandler r { s with timeout := false } else s
  | .alarm => if s.alarm.isSome then wakeUpPowerMisc { s with alarm := none } else s
  | .soc uiSoc soc => { s with uiSoc := uiSoc, soc := soc }
  | .condFlag flag => { s with shutdownCondFlag := flag }

/-- The handler meets the condition for polling when it runs. -/
def StepPolls (s : ShutdownController) : ShutdownEvent → Prop
  | .handle r => PollOk r s
  | _ => True

/-- A set condition will be polled, unless the system is powered off or its fuel gauge is
disabled. -/
def Polled (s : ShutdownController) : Prop :=
  s.pending = true → s.disableGM30 = false → s.poweredOff = false →
    s.timeout = true ∨ s.alarm.isSome = true

theorem Polled.setShutdownCond (h : Polled s) (cond : ShutdownCond) (r : Reading) :
    Polled (setShutdownCond cond r s) := by
  unfold Battery.setShutdownCond
  split_ifs
  · exact h
  · exact h
  · exact h
  · exact fun _ _ _ => Or.inl rfl

theorem Polled.disableShutdownCond (h : Polled s) (cond : ShutdownCond) :
    Polled (disableShutdownCond cond s) := by
  cases cond with
  | lowBatVolt =>
    rintro hpending
    refine h ?_
    simp only [Battery.disableShutdownCond, ShutdownController.pending, Bool.or_eq_true]
      at hpending ⊢
    tauto
  | overheat | socZeroPercent | uisocOnePercent | dlptShutdown | lowBatteryTemp => exact h

/-- The handler keeps the pending conditions polled. -/
theorem polled_powerMiscHandler (hok : PollOk r s) : Polled (powerMiscHandler r s) := by
  have hpolls := polls_of_pollOk hok
  unfold Polls at hpolls
  unfold powerMiscHandler
  generalize shutdownEventHandler r s = handled at hpolls ⊢
  obtain ⟨s', powerOff, secs⟩ := handled
  dsimp only at hpolls ⊢
  intro hpending henabled hon
  right
  by_cases hsecs : secs ≠ 0 ∧ s'.disableGM30 = false
  · rw [if_pos hsecs]
    rfl
  · rw [if_neg hsecs] at hpending henabled hon
    have hoff : powerOff = false := (Bool.or_eq_false_iff.mp hon).2
    exact absurd ⟨hpolls hoff hpending, henabled⟩ hsecs

/-- In every run whose handler meets its condition, a set condition will be polled. -/
theorem polled_of_reaches {s0 : ShutdownController} (hstart : Polled s0)
    (hreach : Reaches shutdownStep StepPolls s0 s) : Polled s := by
  refine hreach.invariant hstart fun s e h hok => ?_
  cases e with
  | set cond r => exact h.setShutdownCond cond r
  | disable cond => exact h.disableShutdownCond cond
  | handle r =>
    unfold shutdownStep
    dsimp only
    split_ifs
    · exact polled_powerMiscHandler hok
    · exact h
  | alarm =>
    unfold shutdownStep
    dsimp only
    split_ifs
    · exact fun _ _ _ => Or.inl rfl
    · exact h
  | soc uiSoc soc | condFlag flag => exact h

/-- A condition that is set while the battery charges is polled. -/
theorem polled_throttled :
    Polled ([.set .dlptShutdown chargingReading, .handle chargingReading].foldl shutdownStep
      { chargedAtOnePercent with isUisocOnePercent := false, isDlptShutdown := false }) :=
  polled_of_reaches (fun h => absurd h (by decide))
    (Reaches.start.foldl ⟨trivial, fun h => absurd h.1 (by decide), trivial⟩)

end Mt8169.Battery
