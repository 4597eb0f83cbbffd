import Mathlib.Data.Nat.Notation

/-!
# The register values of a finished task

`cmdq_mdp_wait` clears a buffer of its caller and stores in it the registers that the task has read
back. Each of the two callers allocates the buffer. Here the words that are written are compared
with the sizes that are allocated.
-/

namespace Mt8169.Mdp

open List

/-- `CMDQ_MAX_DUMP_REG_COUNT` -/
def cmdqMaxDumpRegCount : ℕ := 4096

/-- `struct cmdqRegValueStruct` in the kernel: the number of values, and the size in bytes of the
buffer for them. -/
structure CmdqRegValue where
  count : ℕ
  size : ℕ

/-- The registers that a task has read back: `reg_count` and `reg_values` of its handle. -/
structure ReadBack where
  regCount : ℕ
  regValues : ℕ → ℕ

/-- The callers of `cmdq_mdp_wait` that pass a buffer. -/
inductive WaitCaller where
  | processCommandRequest
  | asyncJobWaitAndClose
  deriving DecidableEq, Repr

/-- The buffer that a caller allocates. `cmdq_driver_ioctl_async_job_wait_and_close` adds the size
of a value where the other one multiplies by it. -/
def WaitCaller.results (regCount : ℕ) : WaitCaller → CmdqRegValue
  | processCommandRequest => ⟨regCount, regCount * 4⟩
  | asyncJobWaitAndClose => ⟨regCount, regCount + 4⟩

/-- The words of the buffer that `cmdq_mdp_wait` writes, and what it writes to them. There are none
if the task has got no thread in time. -/
def cmdqMdpWait (dispatched : Bool) (task : ReadBack) (results : CmdqRegValue) : List (ℕ × ℕ) :=
  if dispatched ∧ results.count ≠ 0 ∧ results.count ≤ cmdqMaxDumpRegCount then
    (range results.count).map (·, 0) ++
      (range (min results.count task.regCount)).map fun i => (i, task.regValues i)
  else []

/-- All words that are written are in the buffer. -/
def WaitCaller.InBuffer (caller : WaitCaller) (regCount : ℕ) (task : ReadBack) : Prop :=
  ∀ dispatched, ∀ w ∈ cmdqMdpWait dispatched task (caller.results regCount),
    4 * (w.1 + 1) ≤ (caller.results regCount).size

/-- The first part of the words are all words up to the count, the others are some of them. -/
theorem forall_mem_cmdqMdpWait_iff {results : CmdqRegValue}
    (hcount : results.count ≤ cmdqMaxDumpRegCount) (task : ReadBack) (P : ℕ → Prop) :
    (∀ dispatched, ∀ w ∈ cmdqMdpWait dispatched task results, P w.1) ↔
      ∀ i < results.count, P i := by
  constructor
  · intro hall i hi
    refine hall true (i, 0) ?_
    rw [cmdqMdpWait, if_pos ⟨rfl, by omega, hcount⟩]
    exact mem_append_left _ (mem_map_of_mem (mem_range.mpr hi))
  · intro hall dispatched w hw
    unfold cmdqMdpWait at hw
    split at hw
    · rcases mem_append.mp hw with hw | hw
      all_goals
        obtain ⟨i, hi, rfl⟩ := mem_map.mp hw
        have hi := mem_range.mp hi
        exact hall i (by omega)
    · cases hw

/-- The words are in the buffer exactly if the caller is the one that multiplies, or there is at
most one register. -/
theorem inBuffer_iff (caller : WaitCaller) {regCount : ℕ} (hcount : regCount ≤ cmdqMaxDumpRegCount)
    (task : ReadBack) :
    caller.InBuffer regCount task ↔ caller = .processCommandRequest ∨ regCount ≤ 1 := by
  have hall : caller.InBuffer regCount task ↔
      ∀ i < regCount, 4 * (i + 1) ≤ (caller.results regCount).size := by
    have hsame : (caller.results regCount).count = regCount := by cases caller <;> rfl
    have hmem := forall_mem_cmdqMdpWait_iff (hsame.symm ▸ hcount) task fun i =>
      4 * (i + 1) ≤ (caller.results regCount).size
    rwa [hsame] at hmem
  rw [hall]
  cases caller with
  | processCommandRequest =>
    refine iff_of_true (fun i hi => ?_) (Or.inl rfl)
    simp only [WaitCaller.results]
    omega
  | asyncJobWaitAndClose =>
    simp only [WaitCaller.results, reduceCtorEq, false_or]
    constructor
    · intro hin
      have hlast := hin (regCount - 1)
      omega
    · intro hone i hi
      omega

/-- One register that was read back. -/
def oneRegister : ReadBack := ⟨1, fun _ => 7⟩

theorem inBuffer_oneRegister :
    oneRegister.regCount ≤ cmdqMaxDumpRegCount ∧
      WaitCaller.asyncJobWaitAndClose.InBuffer oneRegister.regCount oneRegister :=
  ⟨by decide, (inBuffer_iff _ (by decide) oneRegister).mpr (Or.inr (by decide))⟩

/-- Two registers take eight bytes, and the buffer has six. -/
theorem not_inBuffer_twoRegisters :
    ¬WaitCaller.asyncJobWaitAndClose.InBuffer 2 ⟨2, fun _ => 7⟩ := by
  intro hall
  have hsecond := hall true (1, 7) (by decide)
  revert hsecond
  decide

end Mt8169.Mdp
