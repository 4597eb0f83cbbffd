import Mt8169.Mdp.Emit

/-!
# Where instructions end up in a packet

A buffer takes 480 words. An instruction that fills the last of them moves to the next buffer as
soon as another one follows, and a link jump takes its place. So instruction `n` of a packet ends up
at the word `n + n / 479`, and the recorder corrects the positions it keeps for that.
-/

namespace Mt8169.Mdp

open Cmdq MachineInt CmdqRec List

/-- The word at which the instruction `n` ends up when another one follows. -/
def placeOf (n : ℕ) : ℕ := n + n / 479

theorem placeOf_lt {m n : ℕ} (hmn : m < n) : placeOf m < placeOf n := by
  unfold placeOf
  omega

theorem placeOf_le {m n : ℕ} (hmn : m ≤ n) : placeOf m ≤ placeOf n := by
  unfold placeOf
  omega

theorem placeOf_mod_ne (n : ℕ) : placeOf n % 480 ≠ 479 := by
  unfold placeOf
  omega

theorem placeOf_succ (n : ℕ) :
    placeOf (n + 1) = if (n + 1) % 479 = 0 then placeOf n + 2 else placeOf n + 1 := by
  unfold placeOf
  split <;> omega

/-- A packet whose buffers but the last one are full, and whose last one has a word besides
the instruction that moved there. -/
structure Filled (h : CmdqRec) : Prop where
  room : h.slots.length ≤ 480 * h.nbuf
  fill : 480 * (h.nbuf - 1) < h.slots.length ∨ h.slots.length = 0 ∧ h.nbuf ≤ 1

/-- The number of instructions of a packet, link jumps not counted. -/
def CmdqRec.instrCount (h : CmdqRec) : ℕ := h.slots.length - (h.nbuf - 1)

theorem CmdqRec.full_iff (h : CmdqRec) :
    h.cmdBufSize % cmdqCmdBufferSize = 0 ↔ h.slots.length % 480 = 0 := by
  simp only [cmdBufSize, cmdqCmdBufferSize_eq, cmdqInstSize]
  omega

section Filled

variable {h : CmdqRec} (hf : Filled h)
include hf

theorem Filled.nbuf_le : h.nbuf ≤ h.instrCount / 479 + 1 := by
  obtain ⟨hroom, hfill⟩ := hf
  unfold instrCount
  omega

theorem Filled.placeOf_pred :
    placeOf (h.instrCount - 1) =
      if h.slots.length % 480 = 0 then h.slots.length else h.slots.length - 1 := by
  obtain ⟨hroom, hfill⟩ := hf
  unfold instrCount at *
  unfold placeOf
  split <;> omega

theorem Filled.placeOf_instrCount (hpos : 0 < h.instrCount) :
    placeOf h.instrCount =
      if (h.slots.length + 1) % 480 = 0 ∨ h.slots.length % 480 = 0 then h.slots.length + 1
      else h.slots.length := by
  obtain ⟨hroom, hfill⟩ := hf
  unfold instrCount at *
  unfold placeOf
  split <;> omega

theorem Filled.instrCount_eq_zero : h.instrCount = 0 ↔ h.slots.length = 0 := by
  obtain ⟨hroom, hfill⟩ := hf
  unfold instrCount
  omega

variable (hfits : cmdqCmdBufferSize * h.nbuf < 2 ^ 32)
include hfits

theorem Filled.u32_cmdBufSize : u32 h.cmdBufSize = cmdqInstSize * h.slots.length := by
  have hroom := hf.room
  refine u32_natCast ?_
  simp only [cmdqCmdBufferSize_eq, cmdqInstSize, cmdBufSize] at *
  omega

theorem Filled.jumpIdx (_ : 0 < h.instrCount) : h.jumpIdx = placeOf (h.instrCount - 1) := by
  have hroom := hf.room
  have hcnt : h.cmdqTaskGetInstCnt = h.slots.length := by
    simp only [CmdqRec.cmdqTaskGetInstCnt, CmdqRec.cmdBufSize, cmdqInstSize, cmdqCmdBufferSize,
      cmdqBufAllocSize, u32] at *
    omega
  simp only [CmdqRec.jumpIdx, h.full_iff, hcnt, hf.placeOf_pred]
  split
  · rfl
  · simp only [cmdqCmdBufferSize_eq, u32] at *
    omega

theorem Filled.nextPos (_ : 0 < h.instrCount) :
    h.nextPos = cmdqInstSize * (placeOf (h.instrCount - 1) + 1) := by
  have hroom := hf.room
  simp only [CmdqRec.nextPos, h.full_iff, hf.u32_cmdBufSize hfits, hf.placeOf_pred]
  split
  · simp only [cmdqCmdBufferSize_eq, cmdqInstSize, CmdqRec.cmdBufSize, u32] at *
    omega
  · rw [Nat.sub_add_cancel (by omega)]

theorem Filled.boundary_iff :
    (u32 ((cmdqInstSize * h.slots.length : ℕ) + cmdqInstSize) % cmdqCmdBufferSize = 0 ∨
      cmdqInstSize * h.slots.length % cmdqCmdBufferSize = 0) ↔
    ((h.slots.length + 1) % 480 = 0 ∨ h.slots.length % 480 = 0) := by
  have hroom := hf.room
  have hlt : cmdqInstSize * h.slots.length + cmdqInstSize < 2 ^ 32 := by
    simp only [cmdqCmdBufferSize_eq, cmdqInstSize] at *
    omega
  rw [u32_add hlt]
  simp only [cmdqCmdBufferSize_eq, cmdqInstSize]
  omega

theorem Filled.checkLogicPos :
    cmdqOpCheckLogicPos (u32 h.cmdBufSize) =
      cmdqInstSize * if h.instrCount = 0 then 1 else placeOf h.instrCount := by
  have hroom := hf.room
  have hnext : u32 ((cmdqInstSize * h.slots.length : ℕ) + cmdqInstSize) =
      cmdqInstSize * (h.slots.length + 1) := by
    rw [u32_add]
    · rfl
    · simp only [cmdqCmdBufferSize_eq, cmdqInstSize] at *
      omega
  simp only [cmdqOpCheckLogicPos, hf.u32_cmdBufSize hfits, hf.boundary_iff hfits]
  rw [hnext]
  by_cases hzero : h.instrCount = 0
  · have hlen := hf.instrCount_eq_zero.mp hzero
    rw [if_pos hzero, if_pos (by omega), hlen]
  · rw [if_neg hzero, hf.placeOf_instrCount (by omega), mul_ite]

end Filled

section Append

variable {env : RecEnv} {h : CmdqRec} {n : ℕ} {instrs : List Slot}

theorem CmdqRec.append_of_lt (env : RecEnv) (hlt : h.slots.length < 480 * h.nbuf) (slot : Slot) :
    h.append env slot = { h with slots := h.slots ++ [slot] } := by
  have havail : h.availBufSize ≠ 0 := by
    simp only [availBufSize, bufSize, cmdBufSize, cmdqCmdBufferSize_eq, cmdqInstSize]
    omega
  rw [append, cmdqTaskCheckAvailable, if_neg havail]

theorem CmdqRec.append_of_full (env : RecEnv) (hfull : h.slots.length = 480 * h.nbuf)
    (slot : Slot) :
    h.append env slot =
      { h with
        nbuf := h.nbuf + 1
        slots := match h.slots.getLast? with
          | none => h.slots ++ [slot]
          | some last => h.slots.dropLast ++ [env.linkSlot h.nbuf, last, slot] } := by
  have havail : h.availBufSize = 0 := by
    simp only [availBufSize, bufSize, cmdBufSize, cmdqCmdBufferSize_eq, cmdqInstSize]
    omega
  rw [append, cmdqTaskCheckAvailable, if_pos havail, addCmdBuffer]
  cases h.slots.getLast? with
  | none => rfl
  | some last => simp

theorem CmdqRec.append_frame (env : RecEnv) (h : CmdqRec) (slot : Slot) :
    ∃ slots nbuf, h.append env slot = { h with slots := slots, nbuf := nbuf } := by
  unfold append cmdqTaskCheckAvailable addCmdBuffer
  split
  · split <;> exact ⟨_, _, rfl⟩
  · exact ⟨_, _, rfl⟩

/-- From the instruction `n` on, the packet consists of the instructions `instrs`. -/
structure Holds (env : RecEnv) (h : CmdqRec) (n : ℕ) (instrs : List Slot) : Prop where
  filled : Filled h
  count : h.instrCount = n + instrs.length
  instr : ∀ j, j + 1 < instrs.length → h.slots[placeOf (n + j)]? = instrs[j]?
  last : instrs ≠ [] → h.slots.getLast? = instrs.getLast?
  moved : instrs ≠ [] → 2 ≤ h.nbuf → 480 * (h.nbuf - 1) + 2 ≤ h.slots.length
  link : ∀ i, placeOf n < 480 * i → i < h.nbuf → h.slots[480 * i - 1]? = some (env.linkSlot i)

/-- A packet holds what it is filled with. -/
theorem Filled.holds (env : RecEnv) (hf : Filled h) : Holds env h h.instrCount [] := by
  refine ⟨hf, rfl, fun j hj => absurd hj (Nat.not_lt_zero _), fun hne => absurd rfl hne,
    fun hne => absurd rfl hne, ?_⟩
  intro i hi hnbuf
  obtain ⟨hroom, hfill⟩ := hf
  unfold instrCount placeOf at hi
  omega

section

variable (hh : Holds env h n instrs)
include hh

theorem Holds.getElem {j : ℕ} (hj : j < instrs.length)
    (hplace : j + 1 < instrs.length ∨ h.slots.length < 480 * h.nbuf) :
    h.slots[placeOf (n + j)]? = instrs[j]? := by
  by_cases hnext : j + 1 < instrs.length
  · exact hh.instr j hnext
  · have hcount := hh.count
    have hne : h.slots.length % 480 ≠ 0 := by
      have hfill := hh.filled.fill
      unfold instrCount at hcount
      omega
    have hlen : j = instrs.length - 1 := by omega
    have hlast : n + j = h.instrCount - 1 := by omega
    rw [hlast, hh.filled.placeOf_pred, if_neg hne, hlen, ← getLast?_eq_getElem?,
      ← getLast?_eq_getElem?]
    refine hh.last ?_
    rintro rfl
    exact absurd hj (Nat.not_lt_zero j)

theorem Holds.placeOf_lt_length {j : ℕ} (hj : j < instrs.length)
    (hplace : j + 1 < instrs.length ∨ h.slots.length < 480 * h.nbuf) :
    placeOf (n + j) < h.slots.length := by
  have hget := hh.getElem hj hplace
  rw [List.getElem?_eq_getElem hj] at hget
  exact (List.getElem?_eq_some_iff.mp hget).1

theorem Holds.append_of_lt (hlt : h.slots.length < 480 * h.nbuf)
    (slot : Slot) : Holds env { h with slots := h.slots ++ [slot] } n (instrs ++ [slot]) := by
  have hfill := hh.filled.fill
  have hcount := hh.count
  unfold instrCount at hcount
  refine ⟨⟨?_, ?_⟩, ?_, ?_, ?_, ?_, ?_⟩
  · simp only [length_append, length_singleton]
    omega
  · simp only [length_append, length_singleton]
    omega
  · simp only [instrCount, length_append, length_singleton]
    omega
  · intro j hj
    simp only [length_append, length_singleton] at hj
    have hj' : j < instrs.length := by omega
    rw [getElem?_append_left hj', ← hh.getElem hj' (Or.inr hlt)]
    exact getElem?_append_left (hh.placeOf_lt_length hj' (Or.inr hlt))
  · simp
  · intro _ (hnbuf : 2 ≤ h.nbuf)
    simp only [length_append, length_singleton]
    omega
  · intro i hi (hnbuf : i < h.nbuf)
    rw [← hh.link i hi hnbuf]
    exact getElem?_append_left (by omega)

theorem Holds.append_of_full (hfull : h.slots.length = 480 * h.nbuf)
    {last : Slot} (hlast : h.slots.getLast? = some last) (slot : Slot) :
    Holds env { h with
      nbuf := h.nbuf + 1
      slots := h.slots.dropLast ++ [env.linkSlot h.nbuf, last, slot] } n (instrs ++ [slot]) := by
  have hcount := hh.count
  unfold instrCount at hcount
  have hpos : 0 < h.nbuf := by
    rcases Nat.eq_zero_or_pos h.nbuf with hzero | hpos
    · have hnil : h.slots = [] := eq_nil_of_length_eq_zero (by omega)
      simp [hnil] at hlast
    · exact hpos
  -- words in front of the last one stay where they are
  have hkeep : ∀ i, i + 1 < h.slots.length →
      (h.slots.dropLast ++ [env.linkSlot h.nbuf, last, slot])[i]? = h.slots[i]? := by
    intro i hi
    rw [getElem?_append_left (by rw [length_dropLast]; omega), getElem?_dropLast, if_pos (by omega)]
  have hnew : ∀ j,
      (h.slots.dropLast ++ [env.linkSlot h.nbuf, last, slot])[h.slots.length - 1 + j]? =
      [env.linkSlot h.nbuf, last, slot][j]? := by
    intro j
    rw [getElem?_append_right (by rw [length_dropLast]; omega), length_dropLast,
      Nat.add_sub_cancel_left]
  refine ⟨⟨?_, ?_⟩, ?_, ?_, ?_, ?_, ?_⟩
  · simp only [length_append, length_dropLast, length_cons, length_nil]
    omega
  · simp only [length_append, length_dropLast, length_cons, length_nil]
    omega
  · simp only [instrCount, length_append, length_dropLast, length_cons, length_nil]
    omega
  · intro j hj
    simp only [length_append, length_singleton] at hj
    have hj' : j < instrs.length := by omega
    rw [getElem?_append_left hj']
    by_cases hnext : j + 1 < instrs.length
    · rw [← hh.instr j hnext]
      refine hkeep _ ?_
      unfold placeOf
      omega
    · have hplace : placeOf (n + j) = h.slots.length - 1 + 1 := by
        unfold placeOf
        omega
      have hlen : j = instrs.length - 1 := by omega
      rw [hplace, hnew 1, hlen, ← getLast?_eq_getElem?,
        ← hh.last (ne_nil_of_length_pos (by omega)), hlast]
      rfl
  · simp
  · intro _ _
    simp only [length_append, length_dropLast, length_cons, length_nil]
    omega
  · intro i hi hnbuf
    rcases Nat.lt_succ_iff_lt_or_eq.mp hnbuf with hnbuf | rfl
    · rw [← hh.link i hi hnbuf]
      exact hkeep _ (by omega)
    · rw [← hfull]
      exact hnew 0

theorem Holds.append (slot : Slot) : Holds env (h.append env slot) n (instrs ++ [slot]) := by
  rcases Nat.lt_or_eq_of_le hh.filled.room with hlt | hfull
  · rw [CmdqRec.append_of_lt env hlt]
    exact hh.append_of_lt hlt slot
  · rw [CmdqRec.append_of_full env hfull]
    cases hlast : h.slots.getLast? with
    | some last => exact hh.append_of_full hfull hlast slot
    | none =>
      -- the first instruction of all
      have hnil : h.slots = [] := getLast?_eq_none_iff.mp hlast
      have hnbuf : h.nbuf = 0 := by
        rw [hnil, length_nil] at hfull
        omega
      have hcount := hh.count
      rw [CmdqRec.instrCount, hnil, length_nil, Nat.zero_sub] at hcount
      have hempty : instrs = [] := eq_nil_of_length_eq_zero (by omega)
      rw [hnil, hempty]
      refine ⟨⟨?_, ?_⟩, ?_, ?_, ?_, ?_, ?_⟩ <;> simp [CmdqRec.instrCount, hnbuf]
      · omega
      · intro i hi hzero
        omega

/-- An instruction that is held may be changed at its place. -/
theorem Holds.setSlot {j : ℕ} (hj : j + 1 < instrs.length)
    (slot : Slot) : Holds env (h.setSlot (placeOf (n + j)) slot) n (instrs.set j slot) := by
  have hcount := hh.count
  unfold CmdqRec.instrCount at hcount
  refine ⟨⟨?_, ?_⟩, ?_, ?_, ?_, ?_, ?_⟩
  · rw [CmdqRec.setSlot, length_set]
    exact hh.filled.room
  · rw [CmdqRec.setSlot, length_set]
    exact hh.filled.fill
  · rw [CmdqRec.instrCount, CmdqRec.setSlot, length_set, length_set]
    exact hcount
  · intro i hi
    rw [length_set] at hi
    have hplace := hh.placeOf_lt_length (show i < instrs.length by omega) (Or.inl hi)
    rw [CmdqRec.setSlot, getElem?_set, getElem?_set, hh.instr i hi]
    by_cases hij : j = i
    · subst hij
      rw [if_pos rfl, if_pos rfl, if_pos hplace, if_pos (show j < instrs.length by omega)]
    · have hne : placeOf (n + j) ≠ placeOf (n + i) := by
        unfold placeOf
        omega
      rw [if_neg hne, if_neg hij]
  · intro _
    have hne : placeOf (n + j) ≠ h.slots.length - 1 := by
      have hmod := placeOf_mod_ne (n + j)
      have hlt := placeOf_lt (show n + j < h.instrCount - 1 by rw [hh.count]; omega)
      rw [hh.filled.placeOf_pred] at hlt
      split at hlt <;> omega
    have hlast := hh.last (ne_nil_of_length_pos (by omega))
    rw [getLast?_eq_getElem?, getLast?_eq_getElem?] at hlast ⊢
    rw [CmdqRec.setSlot, length_set, length_set, getElem?_set_ne hne,
      getElem?_set_ne (show j ≠ instrs.length - 1 by omega)]
    exact hlast
  · intro _
    rw [CmdqRec.setSlot, length_set]
    exact hh.moved (ne_nil_of_length_pos (by omega))
  · intro i hi hnbuf
    have hne := placeOf_mod_ne (n + j)
    rw [CmdqRec.setSlot, getElem?_set, if_neg (by omega)]
    exact hh.link i hi hnbuf

end

end Append

end Mt8169.Mdp
