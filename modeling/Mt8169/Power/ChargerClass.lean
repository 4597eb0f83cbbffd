import Mt8169.Lib.MachineInt

/-!
# Chargers and fast charging algorithms

The charger driver programs the primary charger through `charger_class.c` and hands the charging
over to fast charging algorithms through `mtk_charger_algorithm_class.c`. The commands to the
primary charger are kept in a log, and its registers hold the values programmed last. The class
takes voltages and currents as unsigned numbers, and the callers compute currents as signed ones. A
current of -1 stands for no current.
-/

namespace Mt8169.Power

open MachineInt

/-- A command that programs the primary charger. -/
inductive ChargerCmd where
  | inputCurrent (uA : ℤ)
  | chargingCurrent (uA : ℤ)
  | constantVoltage (uV : ℕ)
  deriving DecidableEq, Repr

/-- The registers of the primary charger, with the commands that it was given. -/
structure Registers where
  inputCurrent : ℤ
  chargingCurrent : ℤ
  constantVoltage : ℕ
  log : List ChargerCmd
  deriving DecidableEq, Repr

namespace Registers

/-- `charger_dev_set_input_current`. -/
def setInputCurrent (uA : ℤ) (r : Registers) : Registers :=
  { r with inputCurrent := u32 uA, log := r.log ++ [.inputCurrent (u32 uA)] }

/-- `charger_dev_set_charging_current`. -/
def setChargingCurrent (uA : ℤ) (r : Registers) : Registers :=
  { r with chargingCurrent := u32 uA, log := r.log ++ [.chargingCurrent (u32 uA)] }

/-- `charger_dev_set_constant_voltage`. -/
def setConstantVoltage (uV : ℕ) (r : Registers) : Registers :=
  { r with constantVoltage := uV, log := r.log ++ [.constantVoltage uV] }

/-- All commands in the log have a property. -/
def All (p : ChargerCmd → Prop) (r : Registers) : Prop := ∀ c ∈ r.log, p c

variable {p : ChargerCmd → Prop}

theorem forall_mem_log_append {log : List ChargerCmd} {c : ChargerCmd} :
    (∀ d ∈ log ++ [c], p d) ↔ (∀ d ∈ log, p d) ∧ p c := by
  rw [List.forall_mem_append, List.forall_mem_singleton]

@[simp]
theorem all_setInputCurrent (uA : ℤ) (r : Registers) :
    (r.setInputCurrent uA).All p ↔ r.All p ∧ p (.inputCurrent (u32 uA)) :=
  forall_mem_log_append

@[simp]
theorem all_setChargingCurrent (uA : ℤ) (r : Registers) :
    (r.setChargingCurrent uA).All p ↔ r.All p ∧ p (.chargingCurrent (u32 uA)) :=
  forall_mem_log_append

@[simp]
theorem all_setConstantVoltage (uV : ℕ) (r : Registers) :
    (r.setConstantVoltage uV).All p ↔ r.All p ∧ p (.constantVoltage uV) :=
  forall_mem_log_append

end Registers

/-- `struct chg_limit_setting`. -/
structure LimitSetting where
  cv : ℕ
  inputCurrentLimit1 : ℤ
  inputCurrentLimit2 : ℤ
  chargingCurrentLimit1 : ℤ
  chargingCurrentLimit2 : ℤ
  deriving DecidableEq, Repr

/-- `enum chg_alg_state`. -/
inductive AlgState where
  | initFail | taChecking | taNotSupport | notReady | ready | running | done
  deriving DecidableEq, Repr

/-- The events that an algorithm is notified of. -/
inductive AlgEvent where
  | plugIn | plugOut | full | recharge
  deriving DecidableEq, Repr

/-- `struct chg_alg_ops`: a fast charging algorithm with states `σ` and readings `ρ`. It can program
the primary charger when it is started, stopped or notified, but it cannot enable it. -/
structure ChgAlg (σ ρ : Type) where
  setCurrentLimit : LimitSetting → σ → σ
  isAlgoReady : ρ → σ → AlgState × σ
  isAlgoRunning : σ → Bool
  /-- The property `ALG_MAX_VBUS`. -/
  maxVbus : ℤ
  startAlgo : ρ → σ × Registers → σ × Registers
  stopAlgo : ρ → σ × Registers → σ × Registers
  notifierCall : AlgEvent → ρ → σ × Registers → σ × Registers

end Mt8169.Power
