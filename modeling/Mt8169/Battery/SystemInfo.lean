import Mt8169.Battery.Uisoc
import Mathlib.Tactic.Ring

/-!
# What the gauge keeps in the PMIC

Two 16-bit registers of the PMIC survive a shutdown. `fgauge_set_info` of the MT6357 gauge writes a
property into its field, `fgauge_get_info` reads it back. The shutdown value of the coulomb counter
is kept as magnitude and sign, but only negative values are read back: for the others the variable
of the caller is left as it is. `fgr_dod_init` starts from the state of charge that is kept, after
the table of the battery has converted it into a voltage and back.
-/

namespace Mt8169.Battery

open MachineInt

/-- The properties of the gauge that the registers hold. -/
inductive InfoProp where
  | twoSecReboot | plChargingStatus | moniterPlchgStatus | batPlugStatus | isNvramFailMode
  | monitorSoffValidtime | con0Soc | shutdownCar
  deriving DecidableEq, Repr

/-- The lowest bit of a field. -/
def InfoProp.shift : InfoProp → ℕ
  | twoSecReboot => 0
  | plChargingStatus => 1
  | moniterPlchgStatus => 2
  | batPlugStatus => 3
  | isNvramFailMode => 4
  | monitorSoffValidtime => 5
  | con0Soc => 9
  | shutdownCar => 7

/-- The bits of a field. -/
def InfoProp.mask (p : InfoProp) : BitVec 16 :=
  match p with
  | con0Soc => 0x7f <<< p.shift
  | shutdownCar => 0x1ff <<< p.shift
  | _ => 1 <<< p.shift

namespace SystemInfo

variable (r : SystemInfo) (p : InfoProp) (value : ℤ)

end SystemInfo

section Table

variable (cfg : CustomData) (p : Profile)

end Table

namespace SystemInfo

variable (r : SystemInfo) (p : InfoProp) (value : ℤ)

end SystemInfo

section Table

variable {cfg : CustomData} {p : Profile} {e : ℤ}

end Table

section UpdateBits

variable (reg mask : BitVec 16) (val : ℤ)

end UpdateBits

namespace SystemInfo

section Soc

variable (soc : ℤ)

end Soc

end SystemInfo

end Mt8169.Battery
