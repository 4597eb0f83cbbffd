import Mt8169.Cmdq.Thread
import Mt8169.Lib.Runs

/-!
# Completion callbacks of a GCE thread

Tasks are completed from six places. All of them call back in the locked section in which they take
the task off the list, so a task that has left the list has been called back exactly once, also when
its memory is used for a later task by then.
-/

namespace Mt8169.Cmdq

open Runs List

variable {task : Task} {s s' : Thread}

/-- What the history of a thread says about its list: tasks are numbered in order of allocation, the
list holds some of them, and a task whose packet does not loop is either on the list, once, or has
been called back, once. -/
structure CallbackInv (s : Thread) : Prop where
  serials : s.allocated.map (·.serial) = range s.allocated.length
  listed : ∀ task ∈ s.taskBusyList, ∃ task' ∈ s.allocated, task'.unaged = task.unaged
  called_lt : ∀ k ∈ s.called, k < s.allocated.length
  count : ∀ task ∈ s.allocated, task.pkt.loop = false → task.pkt.cb = true →
    s.called.count task.serial + (s.taskBusyList.map (·.serial)).count task.serial = 1

theorem eq_of_unaged {task' : Task} (h : task'.unaged = task.unaged) :
    task'.serial = task.serial ∧ task'.pkt.loop = task.pkt.loop ∧ task'.pkt.cb = task.pkt.cb := by
  show task'.unaged.serial = task.unaged.serial ∧ task'.unaged.pkt.loop = task.unaged.pkt.loop ∧
    task'.unaged.pkt.cb = task.unaged.pkt.cb
  rw [h]
  exact ⟨rfl, rfl, rfl⟩

section

variable (h : CallbackInv s)
include h

theorem CallbackInv.unaged_of_serial {listed : Task}
    (htask : task ∈ s.allocated) (hlisted : listed ∈ s.taskBusyList)
    (hserial : task.serial = listed.serial) : task.unaged = listed.unaged := by
  obtain ⟨task', htask', hsame⟩ := h.listed listed hlisted
  have hnodup : (s.allocated.map (·.serial)).Nodup := h.serials ▸ nodup_range
  have heq := inj_on_of_nodup_map hnodup htask htask'
    (hserial.trans (eq_of_unaged hsame).1.symm)
  rw [heq, hsame]

theorem CallbackInv.serial_lt {listed : Task} (hlisted : listed ∈ s.taskBusyList) :
    listed.serial < s.allocated.length := by
  obtain ⟨task', htask', hsame⟩ := h.listed listed hlisted
  have hrange : task'.serial ∈ s.allocated.map (·.serial) := mem_map_of_mem htask'
  rwa [h.serials, mem_range, (eq_of_unaged hsame).1] at hrange

/-- Tasks that leave the list are called back once. -/
theorem CallbackInv.retire {done : List Task}
    (hlist : s.taskBusyList.Perm (done ++ s'.taskBusyList))
    (hcalled : s'.called = s.called ++ (done.filter (·.pkt.cb)).map (·.serial))
    (hallocated : s'.allocated = s.allocated) : CallbackInv s' := by
  have hmem : ∀ task ∈ done, task ∈ s.taskBusyList := fun task htask =>
    hlist.mem_iff.mpr (mem_append_left _ htask)
  refine ⟨hallocated ▸ h.serials, fun task htask => ?_, fun k hk => ?_, ?_⟩
  · rw [hallocated]
    exact h.listed task (hlist.mem_iff.mpr (mem_append_right _ htask))
  · rw [hallocated]
    rw [hcalled, mem_append] at hk
    rcases hk with hold | hnew
    · exact h.called_lt k hold
    · obtain ⟨task, htask, rfl⟩ := mem_map.mp hnew
      exact h.serial_lt (hmem task (mem_filter.mp htask).1)
  · intro task htask hloop hcb
    rw [hallocated] at htask
    have hold := h.count task htask hloop hcb
    -- all tasks of this number that are taken off are called back
    have hnew : ((done.filter (·.pkt.cb)).map (·.serial)).count task.serial =
        (done.map (·.serial)).count task.serial := by
      have hall : ∀ listed ∈ done, listed.serial = task.serial → listed.pkt.cb = true := by
        intro listed hlisted hserial
        have hsame := h.unaged_of_serial htask (hmem listed hlisted) hserial.symm
        rw [← hcb, (eq_of_unaged hsame).2.2]
      rw [List.count, countP_map, countP_map, countP_filter]
      refine countP_congr fun listed hlisted => ?_
      simpa using hall listed hlisted
    rw [(hlist.map _).count_eq, map_append, count_append] at hold
    rw [hcalled, count_append, hnew, Nat.add_assoc]
    exact hold

theorem CallbackInv.congr (hlist : s'.taskBusyList = s.taskBusyList)
    (hcalled : s'.called = s.called) (hallocated : s'.allocated = s.allocated) : CallbackInv s' :=
  @retire s s' h [] (by simp [hlist]) (by simp [hcalled]) hallocated

theorem CallbackInv.loop (hmem : task ∈ s.taskBusyList)
    (hloop : task.pkt.loop = true) : CallbackInv (taskCallbacks [task] s) := by
  refine ⟨h.serials, h.listed, ?_, ?_⟩
  · intro k hk
    rcases mem_append.mp hk with hold | hnew
    · exact h.called_lt k hold
    · obtain ⟨listed, hlisted, rfl⟩ := mem_map.mp hnew
      obtain rfl : listed = task := by simpa using (mem_filter.mp hlisted).1
      exact h.serial_lt hmem
  · intro other hother hnoloop hcb
    have hne : other.serial ≠ task.serial := by
      intro hserial
      have hpkt := h.unaged_of_serial hother hmem hserial
      have hflag : other.pkt.loop = task.pkt.loop := (eq_of_unaged hpkt).2.1
      rw [hnoloop, hloop] at hflag
      cases hflag
    have hnone : (([task].filter (·.pkt.cb)).map (·.serial)).count other.serial = 0 := by
      refine count_eq_zero_of_not_mem fun hcount => hne ?_
      obtain ⟨listed, hlisted, hserial⟩ := mem_map.mp hcount
      obtain rfl : listed = task := by simpa using (mem_filter.mp hlisted).1
      exact hserial.symm
    show (s.called ++ _).count other.serial + _ = 1
    rw [count_append, hnone]
    exact h.count other hother hnoloop hcb

/-- A new task is on the list and not called back. -/
theorem CallbackInv.enter {currPa : ℕ} {before passed : List Task}
    (hentered : Entered currPa s s' task before passed) : CallbackInv s' := by
  have hserial := hentered.serial
  have hperm : (s'.taskBusyList.map (·.serial)).Perm
      (task.serial :: s.taskBusyList.map (·.serial)) := by
    rw [hentered.list', hentered.list, map_append, map_append, map_cons, map_map]
    exact perm_middle
  constructor
  · rw [hentered.allocated, map_append, h.serials, length_append, length_singleton, range_succ]
    simp [hserial]
  · intro listed hlisted
    rw [hentered.allocated]
    rcases hentered.mem_cases hlisted with rfl | ⟨old, hold, -, hcase⟩
    · exact ⟨listed, by simp, rfl⟩
    · obtain ⟨task', htask', hsame⟩ := h.listed old hold
      refine ⟨task', mem_append_left _ htask', hsame.trans ?_⟩
      rcases hcase with ⟨-, rfl⟩ | ⟨-, rfl⟩ <;> rfl
  · intro k hk
    rw [hentered.called] at hk
    rw [hentered.allocated, length_append]
    exact Nat.lt_add_right _ (h.called_lt k hk)
  · intro other hother hloop hcb
    rw [hentered.allocated, mem_append] at hother
    rw [hentered.called, hperm.count_eq]
    rcases hother with hmem | hmem
    · have hrange : other.serial ∈ s.allocated.map (·.serial) := mem_map_of_mem hmem
      rw [h.serials, mem_range] at hrange
      rw [count_cons_of_ne (by omega)]
      exact h.count other hmem hloop hcb
    · obtain rfl : other = task := by simpa using hmem
      have hnone : s.called.count other.serial = 0 := by
        refine count_eq_zero_of_not_mem fun hk => ?_
        have hlt := h.called_lt _ hk
        omega
      have hnew : (s.taskBusyList.map (·.serial)).count other.serial = 0 := by
        refine count_eq_zero_of_not_mem fun hk => ?_
        obtain ⟨listed, hlisted, heq⟩ := mem_map.mp hk
        have hlt := h.serial_lt hlisted
        omega
      rw [hnone, count_cons_self, hnew]

theorem CallbackInv.exec (shift : ℕ) (ptr : Option ℕ) (pkt : ThreadPkt)
    (lastWord : ℕ) : CallbackInv (cmdqTaskExec shift ptr pkt lastWord s) := by
  rcases cmdqTaskExec_entered shift ptr pkt lastWord s with
    hsame | ⟨task, before, passed, -, hentered⟩
  · rw [hsame]
    exact h
  · exact h.enter hentered

end

/-- The events of a thread keep the callbacks right. -/
theorem keptBy_callbackInv : KeptBy CallbackInv CallbackInv where
  congr h hlist _ _ := h.congr hlist
  pending h hlist _ := h.congr hlist
  loop := CallbackInv.loop
  takeOff h _ hlist := h.retire hlist rfl rfl
  listed h _ := h
  off h _ := h.congr rfl rfl rfl

/-- In every run, the completion callback of a task whose packet does not loop has been
called exactly once if the task has left the list, and not at all while it is on it. -/
theorem called_once_of_reaches (shift : ℕ) (mem : ℕ → ℕ) {s : Thread}
    (hrun : Reaches (threadStep shift) (fun _ _ => True) (Thread.init mem) s) :
    ∀ task ∈ s.allocated, task.pkt.loop = false → task.pkt.cb = true →
      s.called.count task.serial ≤ 1 ∧
      (task.serial ∉ s.taskBusyList.map (·.serial) → s.called.count task.serial = 1) := by
  have hinv : CallbackInv s := by
    refine hrun.invariant ⟨rfl, by simp [Thread.init], by simp [Thread.init],
      by simp [Thread.init]⟩ fun s e h _ => ?_
    refine keptBy_callbackInv.step h shift e (h.exec shift) fun _ _ => ?_
    apply keptBy_callbackInv.restart
    exact h.congr rfl rfl rfl
  intro task htask hloop hcb
  have hcount := hinv.count task htask hloop hcb
  refine ⟨by omega, fun hgone => ?_⟩
  rw [count_eq_zero_of_not_mem hgone] at hcount
  exact hcount

/-- The stop calls back for the task, the timeout work does not do so again. -/
theorem called_once_stoppedInTimeout :
    (stoppedInTimeout.foldl (threadStep 3) (Thread.init fun _ => 0)).taskBusyList = [] ∧
      (stoppedInTimeout.foldl (threadStep 3) (Thread.init fun _ => 0)).called.count 0 = 1 := by
  have hrun : RunOk (threadStep 3) (fun _ _ => True) (Thread.init fun _ => 0) stoppedInTimeout := by
    simp [RunOk, stoppedInTimeout]
  have honce := called_once_of_reaches 3 _ (Reaches.start.foldl hrun)
    { ptr := 1, serial := 0, paBase := 0x1000, pkt := smallPkt 7 0x1000 }
    (mem_singleton.mpr rfl)
    rfl rfl
  exact ⟨rfl, honce.2 (by decide)⟩

end Mt8169.Cmdq
