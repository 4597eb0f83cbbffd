import Mt8169.Fence.Timeline
import Mathlib.Data.List.Nodup
import Mathlib.Data.List.Perm.Basic

/-!
# Buffers that wait for their fences

`mtk_fence_prepare_buf` hands out an index in one critical section and puts the buffer on `buf_list`
in a later one. A release of the index in between moves `timeline_idx` past it and finds no buffer,
so the buffer stays on the list and its handle is not freed.
-/

namespace Mt8169.Fence

open MachineInt Runs List

/-- One layer and the calls in progress on it, of any number of threads, with the freed buffers and
the released indices. A call of `mtk_fence_prepare_buf` between its critical sections is given by
the index it took, a release call by its index. -/
structure Layer where
  info : FenceInfo
  preparing : List ℕ
  releasing : List ℕ
  freed : List ℕ
  released : List ℕ
deriving DecidableEq

/-- The critical sections of `sync_lock`. `call` starts `mtk_release_fence`, and `read` is the first
section of `mtk_release_layer_fence`. -/
inductive Section
  | take
  | link (idx : ℕ)
  | call (fence : BitVec 32)
  | read
  | release (fence : ℕ)

namespace Layer

def init : Layer := ⟨⟨0, 0, 0, []⟩, [], [], [], []⟩

/-- One critical section. A section that no call is about to enter does nothing. -/
def step (s : Layer) : Section → Layer
  | .take => { s with info := s.info.takeIdx, preparing := s.info.takeIdx.fenceIdx :: s.preparing }
  | .link idx =>
    if idx ∈ s.preparing then
      { s with info := s.info.link idx, preparing := s.preparing.erase idx }
    else s
  | .call fence => { s with releasing := fence.toNat :: s.releasing }
  | .read => { s with releasing := s.info.fenceIdx :: s.releasing }
  | .release fence =>
    if fence ∈ s.releasing then
      { s with
        info := s.info.releaseFence fence
        releasing := s.releasing.erase fence
        freed := s.info.freedBy fence ++ s.freed
        released := fence :: s.released }
    else s

variable (s : Layer)

/-- With no call in progress all listed buffers are above `timeline_idx`. No handle is freed twice,
and once an index is released, the handles of all buffers up to it have been freed. -/
structure Clean : Prop where
  listed : s.preparing = [] → s.releasing = [] → ∀ i ∈ s.info.bufList, s.info.timelineIdx < i
  once (i : ℕ) : s.freed.count i ≤ 1
  freed : ∀ x ∈ s.released, ∀ i, 0 < i → i ≤ s.info.fenceIdx → i ≤ x → s.freed.count i = 1

/-- The condition on a step. `fence_idx` does not wrap around, and a release that advances
`timeline_idx` releases an index handed out while no call is about to link a buffer up to it. -/
def Orderly : Section → Prop
  | .take => s.info.fenceIdx + 1 < 2 ^ 32
  | .release fence =>
    if 0 < s.info.numFence fence then
      s.info.timelineIdx < fence ∧ fence ≤ s.info.fenceIdx ∧ ∀ idx ∈ s.preparing, fence < idx
    else fence ≤ s.info.timelineIdx
  | _ => True

instance : (e : Section) → Decidable (s.Orderly e)
  | .take => inferInstanceAs (Decidable (_ < _))
  | .release fence =>
    inferInstanceAs (Decidable (if 0 < s.info.numFence fence then
      s.info.timelineIdx < fence ∧ fence ≤ s.info.fenceIdx ∧ ∀ idx ∈ s.preparing, fence < idx
    else fence ≤ s.info.timelineIdx))
  | .link _ | .call _ | .read => .isTrue trivial

/-- The indices handed out are those that wait, all above `timeline_idx`, and those freed, all up
to it. -/
structure Waits (f t : ℕ) (W F R : List ℕ) : Prop where
  all : (W ++ F).Perm (range' 1 f)
  timeline_le : t ≤ f
  waiting : ∀ i ∈ W, t < i
  freed : ∀ i ∈ F, i ≤ t
  released : ∀ x ∈ R, x ≤ t

namespace Waits

variable {f t x : ℕ} {W W' F R : List ℕ} (h : Waits f t W F R)
include h

theorem perm (hperm : W'.Perm W) : Waits f t W' F R :=
  { h with
    all := (hperm.append_right F).trans h.all
    waiting := fun i hi => h.waiting i (hperm.subset hi) }

theorem take : Waits (f + 1) t ((f + 1) :: W) F R := by
  refine ⟨?_, Nat.le_succ_of_le h.timeline_le, ?_, h.freed, h.released⟩
  · rw [range'_concat, Nat.one_mul, Nat.add_comm 1 f]
    exact (h.all.cons _).trans (perm_append_singleton _ _).symm
  · rintro i (_ | ⟨_, hi⟩)
    · exact Nat.lt_succ_of_le h.timeline_le
    · exact h.waiting i hi

theorem advance (hlt : t < x) (hle : x ≤ f) :
    Waits f x (W.filter (x < ·)) (W.filter (· ≤ x) ++ F) (x :: R) := by
  refine ⟨?_, hle, ?_, ?_, ?_⟩
  · have hsplit : W.filter (· ≤ x) = W.filter fun i => !decide (x < i) :=
      filter_congr fun i _ => by simp only [← decide_not, not_lt]
    rw [hsplit, ← append_assoc]
    exact ((filter_append_perm _ W).append_right F).trans h.all
  · exact fun i hi => of_decide_eq_true (mem_filter.mp hi).2
  · intro i hi
    rcases mem_append.mp hi with hi | hi
    · exact of_decide_eq_true (mem_filter.mp hi).2
    · exact (h.freed i hi).trans hlt.le
  · rintro y (_ | ⟨_, hy⟩)
    · exact le_rfl
    · exact (h.released y hy).trans hlt.le

end Waits

/-- The buffers that wait are those listed and those about to be linked. -/
def Inv : Prop :=
  Waits s.info.fenceIdx s.info.timelineIdx (s.info.bufList ++ s.preparing) s.freed s.released

variable {s}

theorem Inv.clean (h : s.Inv) : s.Clean := by
  have hnodup : s.freed.Nodup := (h.all.nodup_iff.mpr nodup_range').of_append_right
  refine ⟨fun _ _ i hi => h.waiting i (mem_append_left _ hi),
    nodup_iff_count_le_one.mp hnodup, ?_⟩
  intro x hx i hpos hi hle
  have hcovered := h.all.mem_iff.mpr (mem_range'_1.mpr ⟨hpos, by omega⟩)
  refine count_eq_one_of_mem hnodup ((mem_append.mp hcovered).resolve_left fun hmem => ?_)
  exact absurd (hle.trans (h.released x hx)) (not_le.mpr (h.waiting i hmem))

/-- A release in order keeps the invariant. -/
theorem Inv.release (h : s.Inv) {fence : ℕ} (hok : s.Orderly (.release fence)) :
    (s.step (.release fence)).Inv := by
  rw [Orderly] at hok
  rw [step]
  split
  case isFalse => exact h
  case isTrue =>
    simp only [Inv, FenceInfo.releaseFence, FenceInfo.freedBy]
    split at hok
    case isTrue hnum =>
      obtain ⟨hlt, hle, hpreparing⟩ := hok
      have hnew := Waits.advance h hlt hle
      have hkeep : s.preparing.filter (fence < ·) = s.preparing := by
        rw [filter_eq_self]
        exact fun i hi => decide_eq_true (hpreparing i hi)
      have hfree : s.preparing.filter (· ≤ fence) = [] := by
        rw [filter_eq_nil_iff]
        exact fun i hi => by simpa using hpreparing i hi
      rw [filter_append, filter_append, hkeep, hfree, append_nil] at hnew
      simpa only [hnum, if_true] using hnew
    case isFalse hnum =>
      simp only [hnum, if_false, nil_append]
      refine { h with released := ?_ }
      rintro x (_ | ⟨_, hx⟩)
      · exact hok
      · exact h.released x hx

/-- Every section in order keeps it. -/
theorem Inv.step (h : s.Inv) {e : Section} (hok : s.Orderly e) : (s.step e).Inv := by
  cases e with
  | take =>
    have hnext : s.info.takeIdx.fenceIdx = s.info.fenceIdx + 1 := u32_add hok
    have hnew := (Waits.take h).perm perm_middle
    rw [← hnext] at hnew
    exact hnew
  | link idx =>
    rw [Layer.step]
    split
    case isTrue hmem =>
      refine Waits.perm h ?_
      rw [FenceInfo.link, append_assoc]
      exact (perm_cons_erase hmem).symm.append_left _
    case isFalse => exact h
  | call fence | read => exact h
  | release fence => exact h.release hok

/-- In every run of orderly steps, with any number of calls in progress at a time, the layer is
clean in every state reached. -/
theorem clean_of_reaches (h : Reaches step Orderly init s) : s.Clean := by
  have hinit : init.Inv := by
    refine ⟨.refl _, le_rfl, ?_, ?_, ?_⟩ <;> simp [init]
  exact (h.invariant hinit fun _ _ hinv hok => hinv.step hok).clean

/-- The buffer is linked before its index is released. -/
def linkedInTime : List Section := [.take, .link 1, .read, .release 1]

/-- A buffer that is linked before its release is freed once. -/
theorem clean_linkedInTime : RunOk step Orderly init linkedInTime ∧
    (linkedInTime.foldl step init).freed = [1] ∧ (linkedInTime.foldl step init).Clean := by
  have hrun : RunOk step Orderly init linkedInTime := by decide
  exact ⟨hrun, by decide, clean_of_reaches (Reaches.start.foldl hrun)⟩

/-- The index is released before the buffer is linked. -/
def linkedLate : List Section := [.take, .read, .release 1, .link 1]

/-- With no call in progress the buffer is listed below `timeline_idx`, and its handle has not been
freed. -/
theorem not_clean_linkedLate :
    linkedLate.foldl step init = ⟨⟨1, 1, 1, [1]⟩, [], [], [], [1]⟩ ∧
      ¬(linkedLate.foldl step init).Clean := by
  have hend : linkedLate.foldl step init = ⟨⟨1, 1, 1, [1]⟩, [], [], [], [1]⟩ := by decide
  refine ⟨hend, fun hclean => ?_⟩
  rw [hend] at hclean
  exact absurd (hclean.listed rfl rfl 1 (by decide)) (by decide)

end Layer

end Mt8169.Fence
