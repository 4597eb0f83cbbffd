import Mt8169.Lib.MachineInt
import Mathlib.Data.List.Nodup

/-!
# The virtual sensor governor

A pass of `virtual_sensor_throttle` walks the bindings of a thermal zone and moves every cooling
device bound to the first trip. Its variable `target` is never reset, so what it held for one device
is where the next one starts from. The pass is compared with the state that the bindings of a
device, its state and its limit ask for on their own.
-/

namespace Mt8169.Thermal

open MachineInt List Function

/-- A trip of the platform data: both fields are unsigned in the source. -/
structure Trip where
  temp : ℕ
  hyst : ℕ

/-- A `thermal_instance`: the binding of a cooling device to a trip of the zone. -/
structure Binding where
  cooler : ℕ
  trip : ℕ
deriving DecidableEq

/-- A zone with its bindings, in the order in which they were made. The thermal core refuses a
binding to a trip that the zone does not have and a binding made twice. -/
structure Zone where
  temperature : ℤ
  trips : ℕ → Trip
  numTrips : ℕ
  maxState : ℕ → ℕ
  instances : List Binding
  trip_lt : ∀ i ∈ instances, i.trip < numTrips
  nodup : instances.Nodup

/-- What a pass changes: the state of every device, its flag `updated`, and the target of every
binding, where `none` stands for `THERMAL_NO_TARGET`. -/
structure Devices where
  state : ℕ → ℕ
  updated : ℕ → Bool
  target : Binding → Option ℕ

namespace Zone

variable {z : Zone} {i : Binding} {is : List Binding} {c : ℕ} {target : Binding → Option ℕ}
  {p : ℕ × Devices}

/-- `virtual_sensor_thermal_get_trip_temp`: the temperature becomes an `int`. -/
def getTripTemp (z : Zone) (trip : ℕ) : ℤ :=
  s32 (z.trips trip).temp

/-- The list `thermal_instances` of a cooling device. -/
def cdevInstances (z : Zone) (c : ℕ) : List Binding :=
  z.instances.filter (·.cooler = c)

/-- The inner loop of the pass over the bindings of one device, on `target`. -/
def scan (z : Zone) (c target : ℕ) : ℕ :=
  (z.cdevInstances c).foldl (fun target i =>
    if z.numTrips ≤ i.trip then target
    else if z.getTripTemp i.trip ≤ z.temperature then i.trip + 1 else target) target

/-- The hysteresis test. The hysteresis is unsigned, so that the subtraction and the comparison
are made on unsigned values. -/
def CoolsDown (z : Zone) (cur : ℕ) : Prop :=
  u64 z.temperature ≤ u64 (z.getTripTemp (cur - 1) - (z.trips (cur - 1)).hyst)
  deriving Decidable

/-- Setting the target of a binding and asking for an update of its device. -/
def request (i : Binding) (target : ℕ) (d : Devices) : Devices :=
  { d with
    target := update d.target i (some target)
    updated := update d.updated i.cooler false }

/-- One more than the highest trip a device is bound to whose temperature is reached. -/
def highest (z : Zone) (c : ℕ) : ℕ :=
  (((z.cdevInstances c).filter (fun i => z.getTripTemp i.trip ≤ z.temperature)).map
    (·.trip + 1)).foldr max 0

/-- The state that the temperature asks for. -/
def wanted (z : Zone) (c : ℕ) : ℕ := min (z.maxState c) (z.highest c)

/-- The temperature is at or below that of the trip of a state, less the hysteresis. -/
def Cooled (z : Zone) (cur : ℕ) : Prop :=
  z.temperature ≤ z.getTripTemp (cur - 1) - (z.trips (cur - 1)).hyst
  deriving Decidable

/-- Where a device has to go from a state: up to what is wanted, down to it once the zone has
cooled down, and nowhere otherwise. -/
def due (z : Zone) (c cur : ℕ) : ℕ :=
  if cur < z.wanted c then z.wanted c
  else if z.wanted c < cur ∧ z.Cooled cur then z.wanted c
  else cur

/-- The target the pass computes for a device, from what `target` held before. -/
def aim (z : Zone) (target c : ℕ) : ℕ := min (z.maxState c) (z.scan c target)

/-- The state a device is left in. -/
def left (z : Zone) (target c cur : ℕ) : ℕ :=
  if cur < z.aim target c then z.aim target c
  else if z.aim target c < cur ∧ z.CoolsDown cur then z.aim target c
  else cur

/-- The pass brings a device from a state to where it is due: its target is the one that is wanted
and, where this is below the state, the unsigned test says whether the zone has cooled down; or
neither of the two moves the device. -/
def Agrees (z : Zone) (target c cur : ℕ) : Prop :=
  (z.aim target c = z.wanted c ∧ (z.wanted c < cur → (z.CoolsDown cur ↔ z.Cooled cur))) ∨
    ((z.aim target c ≤ cur ∧ (z.aim target c < cur → ¬ z.CoolsDown cur)) ∧
      z.wanted c ≤ cur ∧ (z.wanted c < cur → ¬ z.Cooled cur))

end Zone

end Mt8169.Thermal
