import Mt8169.Lib.MachineInt
import Mt8169.Lib.Runs
import Mathlib.Order.MinMax

/-!
# Release fences and their timelines

`mtk_fence.c` gives every layer of a session a counter of the fences handed out, `fence_idx`, a
counter of those released, `timeline_idx`, and a sync timeline whose value makes them signal.
`mtk_release_fence` advances the timeline by the distance from `timeline_idx`,
`mtk_release_present_fence` by the distance from the value, and only the first records what it
released. The two agree exactly as long as they are not mixed on a timeline and no counter has gone
half way round.
-/

namespace Mt8169.Fence

open MachineInt Runs

/-- `struct mtk_fence_info` with the value of its `timeline`. A buffer of `buf_list` is given by
its index `idx`. -/
structure FenceInfo where
  fenceIdx : ℕ
  timelineIdx : ℕ
  value : ℕ
  bufList : List ℕ
deriving DecidableEq

namespace FenceInfo

variable (l : FenceInfo)

/-- The first critical section of `mtk_fence_prepare_buf`. The new `fence_idx` is handed out. -/
def takeIdx : FenceInfo := { l with fenceIdx := u32 (l.fenceIdx + 1) }

/-- The second critical section of `mtk_fence_prepare_buf`. -/
def link (idx : ℕ) : FenceInfo := { l with bufList := l.bufList ++ [idx] }

/-- `mtk_fence_prepare_buf`. -/
def fencePrepareBuf : FenceInfo := l.takeIdx.link l.takeIdx.fenceIdx

/-- `num_fence` of `mtk_release_fence`. -/
def numFence (fence : ℕ) : ℤ := s32 (fence - l.timelineIdx)

/-- `mtk_release_fence`. -/
def releaseFence (fence : ℕ) : FenceInfo :=
  if 0 < l.numFence fence then
    { l with
      value := u32 (l.value + l.numFence fence)
      timelineIdx := fence
      bufList := l.bufList.filter (fence < ·) }
  else l

/-- The buffers whose handles `mtk_release_fence` frees. -/
def freedBy (fence : ℕ) : List ℕ :=
  if 0 < l.numFence fence then l.bufList.filter (· ≤ fence) else []

/-- `fence_increment` of `mtk_release_present_fence`. -/
def fenceIncrement (fenceIdx : ℕ) : ℤ := s32 (fenceIdx - l.value)

/-- `mtk_release_present_fence`. -/
def releasePresentFence (fenceIdx : ℕ) : FenceInfo :=
  if 0 < l.fenceIncrement fenceIdx then
    { l with value := u32 (l.value + l.fenceIncrement fenceIdx) }
  else l

end FenceInfo

/-- The calls on a session. -/
inductive Call
  | fencePrepareBuf (layer : ℕ)
  | releaseFence (layer : ℕ) (fence : BitVec 32)
  | releaseLayerFence (layer : ℕ)
  | releasePresentFence (fenceIdx : BitVec 32)
  | releaseSessionFence

/-- What a call does to one timeline. -/
inductive Action
  | none
  | prepare
  | release (fence : ℕ)
  | present (fenceIdx : ℕ)

/-- A timeline with the indices released on it so far. -/
structure Timeline extends FenceInfo where
  released : List ℕ

/-- The timelines of a session: one for each of the `n` layers, one for the output, the present
timeline and one for the output interface. -/
abbrev Session (n : ℕ) : Type := Fin (n + 3) → Timeline

/-- What `_get_session_sync_info` sets up. -/
def Session.init (n : ℕ) : Session n := fun _ => ⟨⟨0, 0, 0, []⟩, []⟩

/-- `MTK_TIMELINE_PRIMARY_PRESENT_TIMELINE_ID`. -/
def presentTimelineId (n : ℕ) : ℕ := n + 1

/-- What a call does to the timeline `i`. A layer outside the session is refused.
`mtk_release_layer_fence` releases up to the last index, and the session call does so on every
timeline. -/
def Call.action {n : ℕ} (i : Fin (n + 3)) (t : Timeline) : Call → Action
  | .fencePrepareBuf layer => if layer = i then .prepare else .none
  | .releaseFence layer fence => if layer = i then .release fence.toNat else .none
  | .releaseLayerFence layer => if layer = i then .release t.fenceIdx else .none
  | .releasePresentFence fenceIdx =>
    if presentTimelineId n = i then .present fenceIdx.toNat else .none
  | .releaseSessionFence => .release t.fenceIdx

namespace Timeline

variable (t : Timeline)

/-- A timeline after an action. -/
def act : Action → Timeline
  | .none => t
  | .prepare => { t with toFenceInfo := t.fencePrepareBuf }
  | .release fence => ⟨t.releaseFence fence, fence :: t.released⟩
  | .present fenceIdx => ⟨t.releasePresentFence fenceIdx, fenceIdx :: t.released⟩

/-- The largest index released so far. -/
def largest : ℕ := t.released.foldr max 0

/-- The value is the largest index released, and a fence is signalled exactly if some release had
its index or a larger one. -/
structure Right : Prop where
  value : t.value = t.largest
  signalled (v : ℕ) : 0 < v → (v ≤ t.value ↔ ∃ x ∈ t.released, v ≤ x)

/-- The index that an action releases has been handed out. -/
def Within : Action → Prop
  | .release fence => fence ≤ t.fenceIdx
  | .present fenceIdx => fenceIdx ≤ t.fenceIdx
  | _ => True

/-- The condition on an action. A release that advances `timeline_idx` finds the value there, and
the two distances have the signs of the differences. -/
def Agrees : Action → Prop
  | .release fence =>
    if 0 < t.numFence fence then t.value = t.timelineIdx ∧ t.timelineIdx < fence
    else fence ≤ t.value
  | .present fenceIdx =>
    if 0 < t.fenceIncrement fenceIdx then t.value < fenceIdx else fenceIdx ≤ t.value
  | _ => True

instance : (a : Action) → Decidable (t.Within a)
  | .none | .prepare => .isTrue trivial
  | .release fence | .present fence => inferInstanceAs (Decidable (fence ≤ t.fenceIdx))

/-- The counters are unsigned 32-bit values and the value is right. -/
structure Inv : Prop where
  fenceIdx : t.fenceIdx < 2 ^ 32
  timelineIdx : t.timelineIdx < 2 ^ 32
  value : t.value < 2 ^ 32
  right : t.value = t.largest

variable {t}

theorem le_largest_iff {v : ℕ} (hv : 0 < v) : v ≤ t.largest ↔ ∃ x ∈ t.released, v ≤ x := by
  rw [largest]
  induction t.released with
  | nil =>
    simp
    omega
  | cons x xs ih => simp [ih]

/-- The timeline is right if its value is the largest index released. -/
theorem right_iff : t.Right ↔ t.value = t.largest := by
  refine ⟨Right.value, fun hvalue => ⟨hvalue, ?_⟩⟩
  intro v hv
  rw [hvalue, le_largest_iff hv]

theorem u32_add_s32 {v x : ℕ} (hx : x < 2 ^ 32) : u32 (v + s32 (x - v)) = x := by
  unfold u32 s32
  omega

/-- A release sets the value exactly if the counter has the same value. -/
theorem value_release_iff {v i x : ℕ} (hv : v < 2 ^ 32) (hi : i < 2 ^ 32) (hx : x < 2 ^ 32)
    (hnum : 0 < s32 (x - i)) : u32 (v + s32 (x - i)) = max x v ↔ v = i ∧ i < x := by
  unfold u32 s32 at *
  omega

/-- An action keeps the timeline right exactly if value and counter agree. -/
theorem Inv.act_iff (h : t.Inv) {a : Action}
    (ha : ∀ x, a = .release x ∨ a = .present x → x < 2 ^ 32) :
    (t.act a).value = (t.act a).largest ↔ t.Agrees a := by
  have hright := h.right
  cases a with
  | none | prepare => exact iff_of_true hright trivial
  | release x =>
    have hx := ha x (.inl rfl)
    have hlargest : (t.act (.release x)).largest = max x t.value := by rw [hright]; rfl
    rw [hlargest]
    simp only [act, FenceInfo.releaseFence, Agrees]
    split
    case isTrue hnum => exact value_release_iff h.value h.timelineIdx hx hnum
    case isFalse hnum => exact eq_comm.trans max_eq_right_iff
  | present x =>
    have hx := ha x (.inr rfl)
    have hlargest : (t.act (.present x)).largest = max x t.value := by rw [hright]; rfl
    rw [hlargest]
    simp only [act, FenceInfo.releasePresentFence, Agrees]
    split
    case isTrue hinc =>
      have hne : x ≠ t.value := by
        intro heq
        simp [FenceInfo.fenceIncrement, heq, s32] at hinc
      rw [FenceInfo.fenceIncrement, u32_add_s32 hx, eq_comm, max_eq_left_iff]
      exact ⟨fun hle => lt_of_le_of_ne hle hne.symm, le_of_lt⟩
    case isFalse hinc => exact eq_comm.trans max_eq_right_iff

theorem Inv.act (h : t.Inv) {a : Action} (ha : ∀ x, a = .release x ∨ a = .present x → x < 2 ^ 32)
    (hagrees : t.Agrees a) : (t.act a).Inv := by
  have hright := (h.act_iff ha).mpr hagrees
  cases a with
  | none => exact h
  | prepare =>
    refine ⟨?_, h.timelineIdx, h.value, hright⟩
    simp only [Timeline.act, FenceInfo.fencePrepareBuf, FenceInfo.link, FenceInfo.takeIdx]
    exact u32_lt _
  | release x =>
    refine ⟨?_, ?_, ?_, hright⟩ <;> simp only [Timeline.act, FenceInfo.releaseFence] <;> split
    · exact h.fenceIdx
    · exact h.fenceIdx
    · exact ha x (.inl rfl)
    · exact h.timelineIdx
    · exact u32_lt _
    · exact h.value
  | present x =>
    refine ⟨?_, ?_, ?_, hright⟩ <;> simp only [Timeline.act, FenceInfo.releasePresentFence] <;>
      split
    · exact h.fenceIdx
    · exact h.fenceIdx
    · exact h.timelineIdx
    · exact h.timelineIdx
    · exact u32_lt _
    · exact h.value

end Timeline

variable {n : ℕ}

/-- A call acts on every timeline. -/
def Session.step (s : Session n) (c : Call) : Session n := fun i => (s i).act (c.action i (s i))

/-- A call meets the condition on every timeline it acts on. -/
def Session.Agrees (s : Session n) (c : Call) : Prop := ∀ i, (s i).Agrees (c.action i (s i))

/-- A call releases no index that has not been handed out. -/
def Session.Within (s : Session n) (c : Call) : Prop := ∀ i, (s i).Within (c.action i (s i))

instance (s : Session n) (c : Call) : Decidable (s.Within c) :=
  Nat.decidableForallFin fun i => (s i).Within (c.action i (s i))

theorem Call.index_lt {i : Fin (n + 3)} {t : Timeline} (h : t.Inv) (c : Call) (x : ℕ)
    (hx : c.action i t = .release x ∨ c.action i t = .present x) : x < 2 ^ 32 := by
  have hfence := h.fenceIdx
  cases c <;> simp only [Call.action] at hx <;> (try split at hx) <;> simp at hx <;> omega

/-- After every call of a sequence the value of each timeline is the largest index released on it,
exactly if every call meets the condition. -/
theorem forall_right_iff_runOk (n : ℕ) (calls : List Call) :
    (∀ pre, pre <+: calls → ∀ i, (pre.foldl Session.step (Session.init n) i).Right) ↔
      RunOk Session.step Session.Agrees (Session.init n) calls := by
  have hgood (s : Session n) (h : ∀ i, (s i).Inv) (i : Fin (n + 3)) : (s i).Right :=
    Timeline.right_iff.mpr (h i).right
  refine forall_prefix_iff_runOk hgood ?_ ?_ ?_ calls
  · intro s c h
    refine forall_congr' fun i => ?_
    rw [Timeline.right_iff]
    exact (h i).act_iff (c.index_lt (h i))
  · intro s c h hagrees i
    exact (h i).act (c.index_lt (h i)) (hagrees i)
  · intro i
    exact ⟨Nat.two_pow_pos 32, Nat.two_pow_pos 32, Nat.two_pow_pos 32, rfl⟩

/-- A present fence is handed out and released, and then the session's fences. The distance from
`timeline_idx`, which the present fence did not move, is added once more. -/
def presentThenSession : List Call :=
  [.fencePrepareBuf (presentTimelineId 4), .releasePresentFence 1, .releaseSessionFence]

/-- The present fence and the session release one timeline. -/
theorem not_forall_right_presentThenSession :
    RunOk Session.step Session.Within (Session.init 4) presentThenSession ∧
      (presentThenSession.foldl Session.step (Session.init 4) 5).value = 2 ∧
      (presentThenSession.foldl Session.step (Session.init 4) 5).released = [1, 1] ∧
      ¬(presentThenSession.foldl Session.step (Session.init 4) 5).Right := by
  have hvalue : (presentThenSession.foldl Session.step (Session.init 4) 5).value = 2 := by decide
  refine ⟨?_, hvalue, rfl, ?_⟩
  · decide
  · intro hright
    have := hright.value
    rw [hvalue] at this
    revert this
    decide

end Mt8169.Fence
