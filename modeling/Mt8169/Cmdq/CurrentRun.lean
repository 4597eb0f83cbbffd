import Mt8169.Cmdq.ThreadMemory

/-!
# Which packet the engine is in

`cmdq_task_is_current_run` looks for an address in the command buffers of a packet. The end of a
buffer is kept in 32 bits, so no address is found in a buffer that ends at 4 GiB or above, and the
interrupt handler takes the packet for one that is done.
-/

namespace Mt8169.Cmdq

open MachineInt List

/-- The commands of the buffers of a packet, as address ranges. -/
def commandRanges (avail : ℕ) : List ℕ → List (ℕ × ℕ)
  | [] => []
  | [pa] => [(pa, pa + (cmdqCmdBufferSize - avail))]
  | pa :: bufs => (pa, pa + cmdqCmdBufferSize) :: commandRanges avail bufs

/-- The address is one of the commands of a packet. -/
def ThreadPkt.Contains (pkt : ThreadPkt) (pa : ℕ) : Prop :=
  ∃ r ∈ commandRanges pkt.availBufSize pkt.bufs, r.1 ≤ pa ∧ pa < r.2

/-- The commands of a packet end below 4 GiB. -/
def ThreadPkt.EndsBelow (pkt : ThreadPkt) : Prop :=
  ∀ r ∈ commandRanges pkt.availBufSize pkt.bufs, r.1 < r.2 → r.2 < 2 ^ 32

variable {avail : ℕ} {bufs : List ℕ} {pkt : ThreadPkt}

theorem currentVaRanges_eq (havail : avail ≤ cmdqCmdBufferSize) (bufs : List ℕ) :
    currentVaRanges avail bufs = (commandRanges avail bufs).map fun r => (r.1, u32 r.2) := by
  induction bufs with
  | nil => rfl
  | cons pa bufs ih =>
    cases bufs with
    | nil => simp [currentVaRanges, commandRanges, appendOffset_eq havail]
    | cons pa' bufs => exact congrArg ((pa, u32 (pa + cmdqCmdBufferSize)) :: ·) ih

theorem map_fst_commandRanges (avail : ℕ) (bufs : List ℕ) :
    (commandRanges avail bufs).map Prod.fst = bufs := by
  induction bufs with
  | nil => rfl
  | cons pa bufs ih =>
    cases bufs with
    | nil => rfl
    | cons pa' bufs => exact congrArg (pa :: ·) ih

theorem snd_le_of_mem_commandRanges {r : ℕ × ℕ} (hr : r ∈ commandRanges avail bufs) :
    r.2 ≤ r.1 + cmdqCmdBufferSize := by
  induction bufs with
  | nil => cases hr
  | cons pa bufs ih =>
    cases bufs with
    | nil =>
      obtain rfl := mem_singleton.mp hr
      exact Nat.add_le_add_left (Nat.sub_le _ _) _
    | cons pa' bufs =>
      rcases mem_cons.mp hr with rfl | hr
      · exact le_refl _
      · exact ih hr

theorem ThreadPkt.isCurrentRun_iff (havail : pkt.availBufSize ≤ cmdqCmdBufferSize) (pa : ℕ) :
    pkt.isCurrentRun pa = true ↔
      ∃ r ∈ commandRanges pkt.availBufSize pkt.bufs, r.1 ≤ pa ∧ pa < u32 r.2 := by
  simp [ThreadPkt.isCurrentRun, currentVaRanges_eq havail]

/-- The test is exact if and only if no buffer ends at 4 GiB. -/
theorem ThreadPkt.isCurrentRun_iff_contains
    (hapart : pkt.bufs.Pairwise PagesApart) (havail : pkt.availBufSize ≤ cmdqCmdBufferSize) :
    (∀ pa, pkt.isCurrentRun pa = true ↔ pkt.Contains pa) ↔ pkt.EndsBelow := by
  simp only [isCurrentRun_iff havail]
  constructor
  · intro h r hr hlt
    by_contra hge
    obtain ⟨r', hr', hlo, hhi⟩ := (h (r.2 - 1)).mpr ⟨r, hr, by omega, by omega⟩
    have hbelow := u32_lt r'.2
    by_cases hsame : r = r'
    · subst hsame
      omega
    · -- the last command would lie in two buffers
      rw [← map_fst_commandRanges pkt.availBufSize pkt.bufs, pairwise_map] at hapart
      have : Std.Symm fun r r' : ℕ × ℕ => PagesApart r.1 r'.1 := ⟨fun _ _ h => h.symm⟩
      have hsep := hapart.forall hr hr' hsame
      have hle := snd_le_of_mem_commandRanges hr
      simp only [PagesApart, cmdqBufAllocSize, cmdqCmdBufferSize_eq] at *
      omega
  · intro h pa
    refine exists_congr fun r => and_congr_right fun hr => and_congr_right fun hlo => ?_
    by_cases hlt : r.1 < r.2
    · rw [u32_natCast (h r hr hlt)]
    · have hcut : u32 r.2 ≤ r.2 := u32_add_le r.2 0
      omega

/-- The tasks that the loop of `cmdq_thread_irq_handler` completes with status 0. -/
def completed (pc : ℕ) (err : Bool) (tasks : List Task) : List Task :=
  let (done, _, failed) := irqLoop pc err tasks
  if failed then done.dropLast else done

/-- The handler completes the tasks before the current one, and this one at its end. -/
theorem completed_cons (pc : ℕ) (err : Bool) (task : Task) (tasks : List Task) :
    completed pc err (task :: tasks) =
      if task.pkt.isCurrentRun pc then
        if pc + cmdqInstSize = task.pkt.endPa then [task] else []
      else task :: completed pc err tasks := by
  have hlast : (irqLoop pc err tasks).2.2 = true → (irqLoop pc err tasks).1 ≠ [] := by
    induction tasks with
    | nil => simp [irqLoop]
    | cons task tasks ih =>
      simp only [irqLoop]
      split_ifs <;> simp
  unfold completed
  rw [irqLoop]
  by_cases hrun : task.pkt.isCurrentRun pc = true
  · rw [if_pos hrun, if_pos hrun]
    by_cases hend : pc + cmdqInstSize = task.pkt.endPa
    · rw [if_pos hend, if_pos hend]
      rfl
    · rw [if_neg hend, if_neg hend]
      cases err <;> rfl
  · rw [if_neg hrun, if_neg hrun]
    cases hfail : (irqLoop pc err tasks).2.2 with
    | false => simp [hfail]
    | true => simp [hfail, dropLast_cons_of_ne_nil (hlast hfail)]

/-- Nothing behind the current task is completed. -/
theorem completed_before {pc k : ℕ} {tasks : List Task} {task : Task} (err : Bool)
    (htask : tasks[k]? = some task) (hrun : task.pkt.isCurrentRun pc = true) :
    completed pc err tasks <+: tasks ∧ ((completed pc err tasks).length ≤ k ∨
      (completed pc err tasks).length = k + 1 ∧ pc + cmdqInstSize = task.pkt.endPa) := by
  induction tasks generalizing k with
  | nil => cases htask
  | cons first tasks ih =>
    rw [completed_cons]
    cases k with
    | zero =>
      obtain rfl : first = task := by simpa using htask
      rw [if_pos hrun]
      split_ifs with hend
      · exact ⟨by simp, Or.inr ⟨rfl, hend⟩⟩
      · exact ⟨ nil_prefix, Or.inl (le_refl 0)⟩
    | succ k =>
      obtain ⟨hpre, hlen⟩ := ih htask
      split_ifs
      · exact ⟨by simp, Or.inl (by simp)⟩
      · exact ⟨ nil_prefix, Or.inl (Nat.zero_le _)⟩
      · refine ⟨cons_prefix_cons.mpr ⟨rfl, hpre⟩, ?_⟩
        simpa using hlen

/-- `cmdq_task_is_current_run` finds exactly the commands of a packet exactly if they end below 4
GiB. If the engine is in such a packet, the interrupt handler completes with status 0 only the tasks
before it, and its own one only at the last command. -/
theorem isCurrentRun_exact_iff (pkt : ThreadPkt) (hapart : pkt.bufs.Pairwise PagesApart)
    (havail : pkt.availBufSize ≤ cmdqCmdBufferSize) :
    ((∀ pa, pkt.isCurrentRun pa = true ↔ pkt.Contains pa) ↔ pkt.EndsBelow) ∧
      (pkt.EndsBelow → ∀ (s : Thread) (err : Bool) (k : ℕ) (task : Task),
        s.taskBusyList[k]? = some task → task.pkt = pkt → pkt.Contains s.pc →
          completed s.pc err s.taskBusyList <+: s.taskBusyList ∧
          ((completed s.pc err s.taskBusyList).length ≤ k ∨
            (completed s.pc err s.taskBusyList).length = k + 1 ∧
              s.pc + cmdqInstSize = pkt.endPa)) := by
  have hiff := ThreadPkt.isCurrentRun_iff_contains hapart havail
  refine ⟨hiff, ?_⟩
  rintro hbelow s err k task htask rfl hin
  exact completed_before err htask ((hiff.mpr hbelow s.pc).mpr hin)

/-- A packet with one buffer and two commands. -/
def twoCommands (pa : ℕ) : ThreadPkt := ⟨0, [pa], 3824, 0, false, true⟩

/-- A packet of two commands at the start of the second page. -/
theorem isCurrentRun_exact_twoCommands :
    (twoCommands 4096).bufs.Pairwise PagesApart ∧
      ∀ pa, (twoCommands 4096).isCurrentRun pa = true ↔ (twoCommands 4096).Contains pa := by
  have hapart : (twoCommands 4096).bufs.Pairwise PagesApart := List.pairwise_singleton _ _
  refine ⟨hapart, (isCurrentRun_exact_iff _ hapart (by decide)).1.mpr ?_⟩
  unfold ThreadPkt.EndsBelow
  decide

/-- The engine is at the first command of a packet at 4 GiB, and the packet is taken for one that is
done. -/
theorem not_isCurrentRun_exact_twoCommands :
    (twoCommands (2 ^ 32)).Contains (2 ^ 32) ∧
      (twoCommands (2 ^ 32)).isCurrentRun (2 ^ 32) = false ∧
      (completed (2 ^ 32) false [⟨0, 0, 2 ^ 32, twoCommands (2 ^ 32)⟩]).length = 1 ∧
      2 ^ 32 + cmdqInstSize ≠ (twoCommands (2 ^ 32)).endPa := by
  refine ⟨⟨_, List.mem_singleton_self _, by decide, by decide⟩, ?_, ?_, ?_⟩ <;> decide

end Mt8169.Cmdq
