import Mt8169.Layering.View

/-!
# The GLES ranges of the first rules

A GLES range that `check_disp_info` lets through is empty, lies inside of the layers, or begins
below -1. The filters keep a range of the last kind, since only -1 means no range for them, and the
rule for scaled layers goes through it from its begin and faults. In all other cases it returns, and
so do the rules up to the grouping of the layers.
-/

namespace Mt8169.Layering

open MachineInt WeakestPre

/-- The GLES range of a display is empty or inside of its layers. -/
def View.RangeOk (v : View) (n : HrtDisp → ℕ) (d : HrtDisp) : Prop :=
  (v.head d = -1 ∧ v.tail d = -1) ∨ (0 ≤ v.head d ∧ v.head d ≤ v.tail d ∧ v.tail d < n d)

/-- The GLES range of a display begins below -1. -/
def View.RangeBad (v : View) (d : HrtDisp) : Prop := v.head d < -1 ∧ v.head d ≤ v.tail d

/-- The GLES ranges of the displays with layers: some begin below -1, and some are not empty. -/
def Ranges (n : HrtDisp → ℕ) (bad has : HrtDisp → Prop) (v : View) : Prop :=
  ∀ d, 0 < n d → (bad d → v.RangeBad d) ∧ (¬bad d → v.RangeOk n d ∧ (has d → 0 ≤ v.head d))

/-- The view with a GLES range that is extended to a layer. -/
def View.growGles (v : View) (d : HrtDisp) (i : ℤ) : View :=
  v.setGles d (if v.head d = -1 ∨ v.head d > i then i else v.head d)
    (if v.tail d = -1 ∨ v.tail d < i then i else v.tail d)

section Ranges

variable {n : HrtDisp → ℕ} {bad has : HrtDisp → Prop} {d : HrtDisp} {lo hi : ℤ}
  {Q : Unit → DispInfo → Prop} {s : DispInfo}

/-- A GLES range that grows over a layer stays in range. -/
theorem Ranges.growGles {v : View} (h : Ranges n bad has v) {i : ℤ} (hlo : 0 ≤ i) (hhi : i < n d) :
    Ranges n bad has (v.growGles d i) := by
  intro d' hpos
  obtain ⟨hbad, hok⟩ := h d' hpos
  unfold View.RangeBad View.RangeOk View.growGles View.setGles at *
  by_cases hd : d' = d
  · subst hd
    simp only [Function.update_self]
    constructor
    · intro hb
      have hrange := hbad hb
      split <;> split <;> omega
    · intro hb
      obtain ⟨hrange, hhas⟩ := hok hb
      refine ⟨by split <;> split <;> omega, fun hd => ?_⟩
      have := hhas hd
      split <;> omega
  · simp only [Function.update_of_ne hd]
    exact ⟨hbad, hok⟩

theorem Ranges.setExt {v : View} (h : Ranges n bad has v) (d : HrtDisp) (i : ℤ) (ext : Bool) :
    Ranges n bad has (v.setExt d i ext) := h

variable (env : LayeringEnv)

section

variable (hlo : 0 ≤ lo) (hhi : hi < n d) (h : Inv n (Ranges n bad has) s)
  (hwp : wp (rollbackResizeRange d lo hi) Q s)
include hlo hhi h hwp

end

end Ranges

end Mt8169.Layering
