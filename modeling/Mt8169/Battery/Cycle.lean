import Mt8169.Lib.Runs
import Mathlib.Algebra.Order.Group.Int

/-!
# The battery cycle count

`fg_sw_bat_cycle_accu` adds up what the battery discharges between two readings of the coulomb
counter, and wakes the fuel gauge up when the sum reaches a threshold. It then starts from zero, so
that the charge above the threshold is not counted.
-/

namespace Mt8169.Battery

open Runs

/-- The fields of `struct mtk_battery` for the cycle count, with the number of wake-ups for
`FG_INTR_BAT_CYCLE` and the sum of all decreases between readings. -/
structure CycleCount where
  batCycleCar : ℤ
  batCycleNcar : ℤ
  wakeups : ℤ
  discharged : ℤ
  deriving DecidableEq, Repr

/-- A reading of the coulomb counter, which `reset_set` makes before it resets the counter. -/
inductive CycleEvent where
  | reading (fgCoulomb : ℤ)
  | reset (fgCoulomb : ℤ)

namespace CycleCount

variable (thr : ℤ) (g : CycleCount)

/-- What is discharged up to a reading. -/
def decrease (fgCoulomb : ℤ) : ℤ := max 0 (g.batCycleCar - fgCoulomb)

/-- `fg_sw_bat_cycle_accu`, for the version of the gauge that has no cycle interrupt. -/
def fgSwBatCycleAccu (fgCoulomb : ℤ) : CycleCount :=
  let diffCar := fgCoulomb - g.batCycleCar
  let ncar := if diffCar > 0 then g.batCycleNcar else g.batCycleNcar + diffCar.natAbs
  let wakes := thr > 0 ∧ ncar ≥ thr
  { batCycleCar := fgCoulomb
    batCycleNcar := if wakes then 0 else ncar
    wakeups := if wakes then g.wakeups + 1 else g.wakeups
    discharged := g.discharged + g.decrease fgCoulomb }

/-- `fg_sw_bat_cycle_accu` and `reset_set`. -/
def step : CycleEvent → CycleCount
  | .reading fgCoulomb => g.fgSwBatCycleAccu thr fgCoulomb
  | .reset fgCoulomb => { g.fgSwBatCycleAccu thr fgCoulomb with batCycleCar := 0 }

/-- The start of the count at a reading. -/
def start (fgCoulomb : ℤ) : CycleCount := ⟨fgCoulomb, 0, 0, 0⟩

/-- What is discharged in a step. -/
def stepDecrease : CycleEvent → ℤ
  | .reading fgCoulomb | .reset fgCoulomb => g.decrease fgCoulomb

/-- A wake-up for each full threshold of what is discharged. -/
def Counted : Prop :=
  g.wakeups * thr ≤ g.discharged ∧ g.discharged < (g.wakeups + 1) * thr

/-- All that is discharged is in the wake-ups and in the count. -/
structure Exact : Prop where
  sum : g.discharged = g.wakeups * thr + g.batCycleNcar
  nonneg : 0 ≤ g.batCycleNcar
  lt : g.batCycleNcar < thr

variable {thr g}

/-- A reading that does not run over the threshold is counted exactly. -/
theorem Exact.accu (h : Exact thr g) {c : ℤ} (hok : g.batCycleNcar + g.decrease c ≤ thr) :
    Exact thr (g.fgSwBatCycleAccu thr c) := by
  obtain ⟨hsum, hnonneg, hlt⟩ := h
  have hncar : (if c - g.batCycleCar > 0 then g.batCycleNcar
      else g.batCycleNcar + (c - g.batCycleCar).natAbs) = g.batCycleNcar + g.decrease c := by
    unfold decrease
    split <;> omega
  have hdecrease : 0 ≤ g.decrease c := Int.le_max_left _ _
  unfold fgSwBatCycleAccu
  dsimp only
  rw [hncar]
  clear hncar
  -- a sum that reaches the threshold is equal to it
  split <;> constructor <;> dsimp only <;> grind

/-- If no step takes the count above the threshold, the wake-ups count all that is discharged. -/
theorem counted_of_reaches (hthr : 0 < thr) {c : ℤ}
    (hrun : Reaches (step thr) (fun g e => g.batCycleNcar + g.stepDecrease e ≤ thr) (start c) g) :
    g.Counted thr := by
  have hstart : Exact thr (start c) := ⟨by simp [start], Int.le_refl 0, hthr⟩
  obtain ⟨hsum, hnonneg, hlt⟩ : Exact thr g := by
    refine hrun.invariant hstart fun g e hg hok => ?_
    cases e with
    | reading c => exact hg.accu hok
    | reset c => exact { hg.accu hok with }
  rw [Counted, Int.add_mul]
  omega

theorem counted_exact : (0 : ℤ) < 10 ∧
    (((start 0).step 10 (.reading (-4))).step 10 (.reset (-10))).Counted 10 :=
  ⟨by decide, counted_of_reaches (by decide)
    ((Reaches.start.next (e := CycleEvent.reading (-4)) (by decide)).next (by decide))⟩

/-- Seven steps that discharge 6 each are counted as three times the threshold 10. -/
theorem not_counted_steps :
    let es := [-6, -12, -18, -24, -30, -36, -42].map CycleEvent.reading
    RunOk (step 10) (fun g e => g.stepDecrease e ≤ 10) (start 0) es ∧
      ¬(es.foldl (step 10) (start 0)).Counted 10 := by
  unfold Counted
  decide

end CycleCount

end Mt8169.Battery
