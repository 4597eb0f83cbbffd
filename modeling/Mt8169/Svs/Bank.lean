import Mathlib.Algebra.Ring.Int.Defs
import Mathlib.Algebra.Ring.Nat

/-!
# Banks of the voltage scaling driver

A bank of `mtk-svs.c` holds a voltage for every operating point of its device, in units of
`volt_step` above `volt_base`. `svs_adjust_pm_opp_volts` adds offsets to these and clamps them
between the minimum of the bank and the signed-off voltages, all in unsigned 32-bit words.
-/

namespace Mt8169.Svs

open List

/-- `enum svsb_phase`. -/
inductive SvsbPhase where
  | error | init01 | init02 | mon
  deriving DecidableEq, Repr

/-- The field `type` of a bank: one of the two banks of a device, or its only one. -/
inductive BankType where
  | high | low | oneLine
  deriving DecidableEq, Repr

/-- `struct svs_bank`. The signed fields are words too, which is how C adds them to unsigned
ones. A regulator and a device are given by a number. -/
structure SvsBank where
  phase : SvsbPhase
  suspended : Bool := false
  type : BankType := .oneLine
  modeSupport : BitVec 32 := 0
  intSt : BitVec 32 := 0
  buck : ℕ := 0
  pdReq : Bool := false
  pdDev : ℕ := 0
  oppDev : ℕ := 0
  turnPt : ℕ := 0
  oppCount : ℕ
  oppFreqs : ℕ → BitVec 32 := fun _ => 0
  oppVolts : ℕ → BitVec 32
  volts : ℕ → BitVec 32
  voltOffset : BitVec 32 := 0
  voltStep : BitVec 32
  voltBase : BitVec 32
  voltFlags : BitVec 32 := 0
  vboot : BitVec 32 := 0
  vmax : BitVec 32 := 0
  vmin : BitVec 32
  temp : BitVec 32 := 0
  tempUpperBound : BitVec 32 := 0
  tempLowerBound : BitVec 32 := 0
  tzoneHighTemp : BitVec 32 := 0
  tzoneHighTempOffset : BitVec 32 := 0
  tzoneLowTemp : BitVec 32 := 0
  tzoneLowTempOffset : BitVec 32 := 0
  coreSel : BitVec 32 := 0
  bdes : BitVec 32 := 0
  mdes : BitVec 32 := 0
  mtdes : BitVec 32 := 0
  bts : BitVec 32 := 0
  mts : BitVec 32 := 0
  dcbdet : BitVec 32 := 0
  dcmdet : BitVec 32 := 0
  dthi : BitVec 32 := 0
  dtlo : BitVec 32 := 0
  detWindow : BitVec 32 := 0
  detMax : BitVec 32 := 0
  ageConfig : BitVec 32 := 0
  ageVoffsetIn : BitVec 32 := 0
  agem : BitVec 32 := 0
  dcConfig : BitVec 32 := 0
  dcVoffsetIn : BitVec 32 := 0
  dvtFixed : BitVec 32 := 0
  vco : BitVec 32 := 0
  chkShift : BitVec 32 := 0
  ctl0 : BitVec 32 := 0

variable (x y : BitVec 32)

/-- `max` on unsigned words. -/
def umax : BitVec 32 := if x < y then y else x

/-- `min` on unsigned words. -/
def umin : BitVec 32 := if x < y then x else y

theorem toNat_umax : (umax x y).toNat = max x.toNat y.toNat := by
  unfold umax
  split <;> bv_omega

theorem toNat_umin : (umin x y).toNat = min x.toNat y.toNat := by
  unfold umin
  split <;> bv_omega

/-- `svs_bank_volt_to_opp_volt`. -/
def svsBankVoltToOppVolt (svsbVolt svsbVoltStep svsbVoltBase : BitVec 32) : BitVec 32 :=
  svsbVolt * svsbVoltStep + svsbVoltBase

/-- The error codes of the driver. -/
def ePerm : ℤ := 1
def eInval : ℤ := 22
def eBusy : ℤ := 16
def eNoMem : ℤ := 12

/-- What `svs_get_bank_zone_temperature` returns, and the temperature that it stores. -/
structure ZoneReading where
  ret : ℤ
  tzoneTemp : BitVec 32

/-- A call of `dev_pm_opp_adjust_voltage` for an operating point, which sets its voltage and the
range around it. -/
structure OppVoltage where
  index : ℕ
  freq : BitVec 32
  uVolt : BitVec 32
  uVoltMin : BitVec 32
  uVoltMax : BitVec 32

/-- What a call of `svs_adjust_pm_opp_volts` leaves: the value it returns, the phase of the bank
and the voltages that were set. -/
structure Adjusted where
  ret : ℤ
  phase : SvsbPhase
  sets : List OppVoltage

namespace SvsBank

variable (b : SvsBank)

/-- The operating points of the bank in a phase without thermal effect. -/
def oppRange : List ℕ :=
  match b.type with
  | .high => range b.turnPt
  | .low => range' b.turnPt (b.oppCount - b.turnPt)
  | .oneLine => range b.oppCount

/-- The thermal effect in units of the bank. The temperature is an `int` and the thresholds are
unsigned, so that it is compared as an unsigned word. -/
def tempOffset (tzoneTemp : BitVec 32) : BitVec 32 :=
  if b.tzoneHighTemp ≤ tzoneTemp then b.tzoneHighTempOffset
  else if tzoneTemp ≤ b.tzoneLowTemp then b.tzoneLowTempOffset
  else 0

/-- The voltage of an operating point in units of the bank, with an offset for the thermal effect,
and not below the minimum. -/
def svsbVolt (tempOffset : BitVec 32) (i : ℕ) : BitVec 32 :=
  umax (b.volts i + b.voltOffset + tempOffset) b.vmin

/-- The voltage of an operating point before it is compared with the signed-off one. Only the
phases that provide voltages have one. -/
def oppVolt (tempOffset : BitVec 32) (i : ℕ) : Option (BitVec 32) :=
  match b.phase with
  | .mon => some (svsBankVoltToOppVolt (b.svsbVolt tempOffset i) b.voltStep b.voltBase)
  | .init02 => some (svsBankVoltToOppVolt (b.svsbVolt 0 i) b.voltStep b.voltBase)
  | .error => some (b.oppVolts i)
  | .init01 => none

/-- The call that sets an operating point to a voltage, which is first compared with the signed-off
one. -/
def oppCall (oppVolt : BitVec 32) (i : ℕ) : OppVoltage :=
  { index := i
    freq := b.oppFreqs i
    uVolt := umin oppVolt (b.oppVolts i)
    uVoltMin := umin oppVolt (b.oppVolts i)
    uVoltMax := b.oppVolts i }

/-- The loop of `svs_adjust_pm_opp_volts` over the operating points, with the results of
`dev_pm_opp_adjust_voltage`. It ends at the first one that fails. -/
def setOppVolts (tempOffset : BitVec 32) (answer : ℕ → ℤ) : List ℕ → ℤ → ℤ × List OppVoltage
  | [], ret => (ret, [])
  | i :: is, _ =>
    match b.oppVolt tempOffset i with
    | none => (-eInval, [])
    | some volt =>
      if answer i ≠ 0 then (answer i, [])
      else
        let rest := setOppVolts tempOffset answer is (answer i)
        (rest.1, b.oppCall volt i :: rest.2)

/-- `svs_adjust_pm_opp_volts`. In the monitor phase all operating points are set, and a zone that
cannot be read puts the bank into the error phase. -/
def svsAdjustPmOppVolts (forceUpdate : Bool) (zone : ZoneReading) (answer : ℕ → ℤ) : Adjusted :=
  if b.suspended && !forceUpdate then ⟨-ePerm, b.phase, []⟩
  else if b.phase = .mon then
    if b.tempUpperBound < b.temp ∧ b.temp < b.tempLowerBound then ⟨-eInval, b.phase, []⟩
    else
      let b' := if zone.ret ≠ 0 then { b with phase := .error } else b
      let set := b'.setOppVolts (b.tempOffset zone.tzoneTemp) answer (range b.oppCount)
        zone.ret
      ⟨set.1, b'.phase, set.2⟩
  else
    let set := b.setOppVolts 0 answer b.oppRange (-ePerm)
    ⟨set.1, b.phase, set.2⟩

variable {b} {tempOffset : BitVec 32}

/-- Every call is for a point of the loop, with its computed voltage. -/
theorem mem_setOppVolts {answer : ℕ → ℤ} {is : List ℕ} {ret : ℤ}
    {c : OppVoltage} (hmem : c ∈ (b.setOppVolts tempOffset answer is ret).2) :
    ∃ i volt, i ∈ is ∧ b.oppVolt tempOffset i = some volt ∧ c = b.oppCall volt i := by
  induction is generalizing ret with
  | nil => exact absurd hmem not_mem_nil
  | cons i is ih =>
    unfold setOppVolts at hmem
    split at hmem
    · exact absurd hmem not_mem_nil
    · rename_i volt hvolt
      split at hmem
      · exact absurd hmem not_mem_nil
      · rcases mem_cons.mp hmem with rfl | hrest
        · exact ⟨i, volt, mem_cons_self, hvolt, rfl⟩
        · obtain ⟨j, volt', hj, hrest'⟩ := ih hrest
          exact ⟨j, volt', mem_cons_of_mem i hj, hrest'⟩

/-- Without an error, every point of the loop gets its call. -/
theorem oppCall_mem_setOppVolts {volt : ℕ → BitVec 32} {is : List ℕ}
    {ret : ℤ} (hvolt : ∀ i ∈ is, b.oppVolt tempOffset i = some (volt i)) {i : ℕ} (hi : i ∈ is) :
    b.oppCall (volt i) i ∈ (b.setOppVolts tempOffset (fun _ => 0) is ret).2 := by
  induction is generalizing ret with
  | nil => exact absurd hi not_mem_nil
  | cons j is ih =>
    unfold setOppVolts
    rw [hvolt j mem_cons_self]
    rcases mem_cons.mp hi with rfl | hrest
    · exact mem_cons_self
    · exact mem_cons_of_mem _ (ih (fun k hk => hvolt k (mem_cons_of_mem j hk)) hrest)

end SvsBank

end Mt8169.Svs
