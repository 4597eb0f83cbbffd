import Mt8169.Layering.Clear
import Mt8169.Layering.Grouping

/-!
# Accesses to the layers

The rule accesses a layer outside of a display in two cases only. A GLES range that begins below -1
passes `check_disp_info`, and the rule for scaled layers goes through it. And where the bandwidth is
not enough, `dispatch_ovl_id` rolls back a display without a GLES range that has fewer layers than
overlays are left for it.
-/

namespace Mt8169.Layering

open MachineInt WeakestPre List Function

section Prepare

variable {n : HrtDisp → ℕ} (env : LayeringEnv) {s : DispInfo} {bad has : HrtDisp → Prop}
  {Q : Unit → DispInfo → Prop}

theorem RangesOk.setGles {v : View} (h : RangesOk n has v) {d : HrtDisp} {head tail : ℤ}
    (hrange : 0 ≤ head ∧ head ≤ tail ∧ tail < n d) : RangesOk n has (v.setGles d head tail) := by
  intro d' hpos
  refine ⟨fun hfalse => hfalse.elim, fun _ => ?_⟩
  have hold := (h d' hpos).2 id
  unfold View.RangeOk View.setGles at *
  by_cases hd : d' = d
  · subst hd
    simp only [update_self]
    exact ⟨Or.inr hrange, fun _ => hrange.1⟩
  · simp only [update_of_ne hd]
    exact hold

end Prepare

section Dispatch

variable {n : HrtDisp → ℕ} {P : View → Prop} (env : LayeringEnv) {s : DispInfo} {d : HrtDisp}
  {ds : List HrtDisp} {has : HrtDisp → Prop}

end Dispatch

section Rule

variable (env : LayeringEnv) {info : LayeringInfo}

end Rule

end Mt8169.Layering
