import Mt8169.Cmdq.Thread

/-!
# Packets of a GCE thread in memory

Where the addresses lie that the thread code computes for a packet: the base and the last command
word are inside the ranges in which the packet counts as running, the end address is not, and all
are in the pages of the packet's buffers.
-/

namespace Mt8169.Cmdq

open MachineInt List

/-- The address lies in one of the pages allocated for the packet's buffers. -/
def ThreadPkt.InPages (pa : ℕ) (pkt : ThreadPkt) : Prop :=
  ∃ base ∈ pkt.bufs, base ≤ pa ∧ pa < base + cmdqBufAllocSize

/-- Two pages do not overlap. -/
def PagesApart (a b : ℕ) : Prop := a + cmdqBufAllocSize ≤ b ∨ b + cmdqBufAllocSize ≤ a
  deriving Decidable

/-- The pages of two packets do not overlap. -/
def ThreadPkt.Apart (p q : ThreadPkt) : Prop := ∀ a ∈ p.bufs, ∀ b ∈ q.bufs, PagesApart a b

/-- A packet as clients submit it: its buffers are separate pages below 4 GiB, the last one holds a
command, and there is more than one command. -/
structure PktWf (shift : ℕ) (pkt : ThreadPkt) (paBase : ℕ) : Prop where
  base : pkt.bufs.head? = some paBase
  below : ∀ pa ∈ pkt.bufs, pa + cmdqBufAllocSize ≤ 2 ^ 32
  aligned : 2 ^ shift ∣ paBase
  apart : pkt.bufs.Pairwise PagesApart
  avail_le : pkt.availBufSize ≤ cmdqCmdBufferSize - cmdqInstSize
  long : paBase + cmdqInstSize ≠ pkt.endPa

variable {pa : ℕ} {p q : ThreadPkt}

theorem ThreadPkt.Apart.not_inPages (h : p.Apart q) (hp : p.InPages pa) : ¬q.InPages pa := by
  rintro ⟨b, hb, hblo, hbhi⟩
  obtain ⟨a, ha, halo, hahi⟩ := hp
  rcases h a ha b hb with hab | hba <;> omega

theorem ThreadPkt.Apart.symm (h : p.Apart q) : q.Apart p :=
  fun b hb a ha => (h a ha b hb).symm

theorem currentVaRanges_concat (avail : ℕ) (front : List ℕ) (last : ℕ) :
    currentVaRanges avail (front ++ [last]) =
      front.map (fun pa : ℕ => (pa, u32 (pa + cmdqCmdBufferSize))) ++
        [(last, u32 (last + appendOffset avail))] := by
  induction front with
  | nil => rfl
  | cons pa front ih =>
    cases front with
    | nil => rfl
    | cons pa' front => exact congrArg ((pa, u32 (pa + cmdqCmdBufferSize)) :: ·) ih

namespace PktWf

variable {shift paBase : ℕ} {pkt : ThreadPkt} (hwf : PktWf shift pkt paBase)
include hwf

theorem base_mem : paBase ∈ pkt.bufs := mem_of_head? hwf.base

/-- The packet is running in its full buffers and up to the end in the last one. -/
theorem isCurrentRun_iff : ∃ front last, pkt.bufs = front ++ [last] ∧
    last + cmdqInstSize ≤ pkt.endPa ∧ pkt.endPa ≤ last + cmdqCmdBufferSize ∧
    ∀ pa, pkt.isCurrentRun pa = true ↔
      (∃ base ∈ front, base ≤ pa ∧ pa < base + cmdqCmdBufferSize) ∨
        last ≤ pa ∧ pa < pkt.endPa := by
  obtain ⟨front, last, hbufs⟩ :=
    (eq_nil_or_concat' pkt.bufs).resolve_left (ne_nil_of_mem hwf.base_mem)
  have havail := hwf.avail_le
  have hoff := appendOffset_eq (havail.trans (Nat.sub_le _ _))
  have hend : pkt.endPa = last + appendOffset pkt.availBufSize := by
    simp [ThreadPkt.endPa, hbufs]
  have hbelow : ∀ base ∈ front ++ [last], base + cmdqCmdBufferSize < 2 ^ 32 := fun base hbase => by
    have := hwf.below base (hbufs ▸ hbase)
    rw [cmdqCmdBufferSize_eq]
    unfold cmdqBufAllocSize at this
    omega
  have hlo : cmdqInstSize ≤ appendOffset pkt.availBufSize := by
    rw [hoff]
    rw [cmdqCmdBufferSize_eq] at *
    unfold cmdqInstSize at *
    omega
  have hhi : appendOffset pkt.availBufSize ≤ cmdqCmdBufferSize := by
    rw [hoff]
    omega
  refine ⟨front, last, hbufs, by omega, by omega, fun pa => ?_⟩
  have hlast := hbelow last (by simp)
  rw [ThreadPkt.isCurrentRun, hbufs, currentVaRanges_concat, any_append, Bool.or_eq_true, hend,
    u32_add (by omega)]
  refine or_congr ?_ (by simp)
  simp only [any_map, any_eq_true, Function.comp_apply, Bool.and_eq_true, decide_eq_true_eq]
  refine exists_congr fun base => and_congr_right fun hbase => ?_
  rw [u32_add (hbelow base (mem_append_left _ hbase))]

/-- A current address is in the pages of the packet. -/
theorem inPages_of_isCurrentRun (h : pkt.isCurrentRun pa = true) : pkt.InPages pa := by
  obtain ⟨front, last, hbufs, -, hhi, hiff⟩ := hwf.isCurrentRun_iff
  rw [cmdqCmdBufferSize_eq] at hiff hhi
  unfold ThreadPkt.InPages cmdqBufAllocSize
  rw [hbufs]
  rcases (hiff pa).mp h with ⟨base, hbase, hlo, hlt⟩ | ⟨hlo, hlt⟩
  · exact ⟨base, mem_append_left _ hbase, hlo, by omega⟩
  · exact ⟨last, by simp, hlo, by omega⟩

theorem isCurrentRun_base : pkt.isCurrentRun paBase = true := by
  obtain ⟨front, last, hbufs, hlo, -, hiff⟩ := hwf.isCurrentRun_iff
  have hbase := hwf.base_mem
  unfold cmdqInstSize at hlo
  rw [hbufs, mem_append, mem_singleton] at hbase
  rw [hiff, cmdqCmdBufferSize_eq]
  refine hbase.imp (fun hfront => ⟨paBase, hfront, le_rfl, by omega⟩) ?_
  rintro rfl
  exact ⟨le_rfl, by omega⟩

theorem isCurrentRun_lastWordPa : pkt.isCurrentRun pkt.lastWordPa = true := by
  obtain ⟨front, last, -, hlo, -, hiff⟩ := hwf.isCurrentRun_iff
  refine (hiff _).mpr (Or.inr ?_)
  unfold ThreadPkt.lastWordPa
  unfold cmdqInstSize at *
  omega

theorem lastWordPa_add : pkt.lastWordPa + cmdqInstSize = pkt.endPa := by
  obtain ⟨front, last, -, hlo, -⟩ := hwf.isCurrentRun_iff
  unfold ThreadPkt.lastWordPa
  omega

/-- The end of a packet is not in it. -/
theorem not_isCurrentRun_endPa : pkt.isCurrentRun pkt.endPa = false := by
  obtain ⟨front, last, hbufs, hlo, hhi, hiff⟩ := hwf.isCurrentRun_iff
  have hapart := hwf.apart
  rw [hbufs] at hapart
  by_contra hrun
  rcases (hiff _).mp (by simpa using hrun) with ⟨base, hbase, hle, hlt⟩ | ⟨-, hlt⟩
  · have hsep := (pairwise_append.mp hapart).2.2 base hbase last (mem_singleton_self _)
    unfold PagesApart cmdqBufAllocSize at hsep
    rw [cmdqCmdBufferSize_eq] at hhi hlt
    omega
  · exact absurd hlt (lt_irrefl _)

theorem inPages_endPa : pkt.InPages pkt.endPa := by
  obtain ⟨front, last, hbufs, hlo, hhi, -⟩ := hwf.isCurrentRun_iff
  refine ⟨last, by simp [hbufs], by omega, ?_⟩
  unfold cmdqBufAllocSize
  rw [cmdqCmdBufferSize_eq] at hhi
  omega

theorem u32_of_inPages (h : pkt.InPages pa) : u32 pa = pa := by
  obtain ⟨base, hmem, -, hhi⟩ := h
  have hbelow := hwf.below base hmem
  exact u32_natCast (by omega)

theorem jumpTarget_base : jumpTarget shift (linkJump shift paBase) = some paBase := by
  have hbelow := hwf.below paBase hwf.base_mem
  refine jumpTarget_linkJump hwf.aligned ?_
  calc paBase < 2 ^ 32 := by unfold cmdqBufAllocSize at hbelow; omega
    _ ≤ 2 ^ (32 + shift) := Nat.pow_le_pow_right (by omega) (by omega)

end PktWf

end Mt8169.Cmdq
