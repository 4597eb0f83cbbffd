import Mt8169.Lib.MachineInt
import Mt8169.Lib.Runs
import Mathlib.Data.List.FinRange

/-!
# Dispatching MDP tasks

MDP tasks wait in one list for a GCE thread. Each engine that a task uses belongs to at most one
thread at a time, so that the tasks of an engine run one after another. A pass over the list
dispatches the tasks that find a thread; a task that is finished gives its engines back. The
definitions follow `mdp_common.c` and `cmdq_helper_ext.c`. A pass holds the lock of the list, but
takes the lock of the threads anew for each task: tasks may finish and other clients may take or
return threads between any two tasks of a pass.
-/

namespace Mt8169.Mdp

open MachineInt List Function

/-- `CMDQ_MAX_ENGINE_COUNT`. -/
def cmdqMaxEngineCount : ℕ := 64

/-- `enum CMDQ_ENG_ENUM`. -/
abbrev EngineId := Fin cmdqMaxEngineCount

/-- `struct EngineStruct`. `CMDQ_INVALID_THREAD` is `none`. -/
structure Engine where
  userCount : ℤ
  currOwner : Option ℕ

/-- `struct mdp_thread`. -/
structure MdpThread where
  taskCount : ℕ
  engineFlag : BitVec 64
  acquired : Bool
  allowDispatch : Bool
  secure : Bool

/-- `struct cmdq_core_thread`. -/
structure CoreThread where
  used : Bool
  acquire : ℕ
  scenario : ℤ

/-- `struct cmdqRecStruct` as the dispatcher uses it. `serial` numbers the submissions and is
not part of the source. -/
structure Handle where
  serial : ℕ
  engineFlag : BitVec 64
  priority : ℕ
  scenario : ℤ
  isSecure : Bool
  secData : Bool
  thread : Option ℕ
  deriving DecidableEq, Repr

/-- `struct mdp_context` and the thread table of `cmdq_ctx`. `cursor` is the pass in progress,
with its `secure_run` and the place it has come to in the waiting list, `running` are the
tasks that are dispatched and not finished, and `submitted` counts the submissions. -/
structure MdpContext where
  tasksWait : List Handle
  thread : ℕ → MdpThread
  engine : EngineId → Engine
  core : ℕ → CoreThread
  cursor : Option (Bool × ℕ)
  running : List Handle
  submitted : ℕ

/-- The configuration: `CMDQ_SECURE_PATH_SUPPORT` and `cmdq_dev_get_thread_count`. -/
structure MdpConfig where
  securePathSupport : Bool
  threadCount : ℕ

/-- `CMDQ_THREAD_SEC_MDP`. -/
def cmdqThreadSecMdp : ℕ := 10

/-- `CMDQ_MAX_TASK_IN_SECURE_THREAD`. -/
def cmdqMaxTaskInSecureThread : ℕ := 3

variable (cfg : MdpConfig) (engineFlag : BitVec 64) (core : ℕ → CoreThread) (h : Handle)
  (ctx : MdpContext) (t : ℕ) (e : EngineId)

/-- The threads from `CMDQ_DYNAMIC_THREAD_ID_START`. -/
def MdpConfig.dynamicThreads : List ℕ :=
  (range cfg.threadCount).drop (if cfg.securePathSupport then 11 else 8)

/-- The threads from `MDP_THREAD_START`. -/
def MdpConfig.mdpThreads : List ℕ :=
  (range cfg.threadCount).drop (if cfg.securePathSupport then 10 else 8)

/-- The context after `cmdq_mdp_reset_engine_struct` and `cmdq_mdp_reset_thread_struct`. -/
def MdpContext.init : MdpContext where
  tasksWait := []
  thread := fun t =>
    { taskCount := 0
      engineFlag := 0
      acquired := false
      allowDispatch := true
      secure := cfg.securePathSupport && decide (8 ≤ t ∧ t < 11) }
  engine := fun _ => { userCount := 0, currOwner := none }
  core := core
  cursor := none
  running := []
  submitted := 0

/-- The task uses an engine. -/
def Handle.uses : Bool := h.engineFlag.getLsbD e

/-- Two tasks use a common engine. -/
def Handle.Shares (h' : Handle) : Prop := ∃ e, h.uses e ∧ h'.uses e
  deriving Decidable

/-- The bit of an engine. -/
def engineBit : BitVec 64 := 1#64 <<< e.val

/-- The context with another entry for an engine. -/
def MdpContext.setEngine (engine : Engine) : MdpContext :=
  { ctx with engine := update ctx.engine e engine }

/-- The context with another entry for a thread. -/
def MdpContext.setThread (thread : MdpThread) : MdpContext :=
  { ctx with thread := update ctx.thread t thread }

/-- One round of `cmdq_mdp_get_engine_flag_for_enable_clock`. -/
def claimEngine (ctx : MdpContext) (e : EngineId) : MdpContext :=
  if engineFlag.getLsbD e then
    let engine := ctx.engine e
    if engine.userCount ≤ 0 then
      let thread := ctx.thread t
      (ctx.setThread t { thread with engineFlag := thread.engineFlag ||| engineBit e }).setEngine e
        { userCount := engine.userCount + 1, currOwner := some t }
    else ctx.setEngine e { engine with userCount := engine.userCount + 1 }
  else ctx

/-- `cmdq_mdp_get_engine_flag_for_enable_clock`. -/
def cmdqMdpGetEngineFlagForEnableClock (ctx : MdpContext) : MdpContext :=
  (finRange cmdqMaxEngineCount).foldl (claimEngine engineFlag t) ctx

/-- Take an engine out of the flags of its owner. -/
def MdpContext.dropFlag (owner : Option ℕ) (e : EngineId) : MdpContext :=
  match owner with
  | none => ctx
  | some t =>
    let thread := ctx.thread t
    ctx.setThread t { thread with engineFlag := thread.engineFlag &&& ~~~engineBit e }

/-- One round of `cmdq_mdp_get_not_used_engine`. -/
def releaseEngine : MdpContext :=
  if engineFlag.getLsbD e then
    let engine := ctx.engine e
    if engine.userCount - 1 ≤ 0 then
      (ctx.dropFlag engine.currOwner e).setEngine e
        { userCount := engine.userCount - 1, currOwner := none }
    else ctx.setEngine e { engine with userCount := engine.userCount - 1 }
  else ctx

/-- `cmdq_mdp_get_not_used_engine`. -/
def cmdqMdpGetNotUsedEngine : MdpContext :=
  (finRange cmdqMaxEngineCount).foldl (releaseEngine engineFlag) ctx

/-- `cmdq_core_acquire_thread`: the thread it finds. -/
def cmdqCoreAcquireThread (scenario : ℤ) (exclusive : Bool) : Option ℕ :=
  cfg.dynamicThreads.find? fun idx =>
    !(core idx).used && !((core idx).acquire ≠ 0 && (core idx).scenario ≠ scenario) &&
      !(exclusive && (core idx).acquire ≠ 0)

/-- What `cmdq_core_acquire_thread` notes for the thread it finds. -/
def acquireCore (idx : ℕ) (scenario : ℤ) : ℕ → CoreThread :=
  update core idx
    { core idx with acquire := u32 ((core idx).acquire + 1), scenario := scenario }

/-- `cmdq_core_release_thread`. -/
def cmdqCoreReleaseThread (idx : ℕ) : ℕ → CoreThread :=
  update core idx { core idx with acquire := u32 ((core idx).acquire - 1) }

/-- `cmdq_mdp_check_engine_waiting_unlock` fails: an engine of the task is busy on the other
side of the secure path. -/
def cmdqMdpCheckEngineWaitingUnlock (h : Handle) : Bool :=
  cfg.mdpThreads.any fun i =>
    (ctx.thread i).engineFlag &&& h.engineFlag ≠ 0 && (ctx.thread i).taskCount ≠ 0 &&
      h.isSecure ≠ (ctx.thread i).secure

/-- The loop of `cmdq_mdp_check_engine_conflict`: whether the engines have different owners, and
their owner. -/
def checkEngineConflictLoop (engine : EngineId → Engine) (engineFlag : BitVec 64) :
    List EngineId → Option ℕ → Bool × Option ℕ
  | [], thread => (false, thread)
  | i :: is, thread =>
    if engineFlag.getLsbD i then
      match (engine i).currOwner, thread with
      | none, thread => checkEngineConflictLoop engine engineFlag is thread
      | some owner, none => checkEngineConflictLoop engine engineFlag is (some owner)
      | some owner, some thread =>
        if thread ≠ owner then (true, none)
        else checkEngineConflictLoop engine engineFlag is (some thread)
    else checkEngineConflictLoop engine engineFlag is thread

/-- `cmdq_mdp_check_engine_conflict` without a preferred thread. -/
def cmdqMdpCheckEngineConflict (h : Handle) : Bool × Option ℕ :=
  checkEngineConflictLoop ctx.engine h.engineFlag (finRange cmdqMaxEngineCount) none

/-- A thread that MDP has acquired and does not use. -/
def MdpThread.idle (thread : MdpThread) : Bool :=
  thread.acquired && thread.engineFlag = 0 && thread.taskCount = 0 && thread.allowDispatch

/-- The end of `cmdq_mdp_find_free_thread`, for a task whose engines are free. -/
def findUnusedThread (h : Handle) : Option ℕ × MdpContext :=
  match cfg.mdpThreads.find? fun i => (ctx.thread i).idle with
  | some t => (some t, ctx.setThread t { ctx.thread t with allowDispatch := false })
  | none =>
    match cmdqCoreAcquireThread cfg ctx.core h.scenario true with
    | some t =>
      (some t,
        { ctx.setThread t { ctx.thread t with acquired := true, allowDispatch := false } with
          core := acquireCore ctx.core t h.scenario })
    | none =>
      if h.engineFlag = 0 then
        -- for engine flag empty, assign acquired thread
        ((cfg.mdpThreads.filter fun i => (ctx.thread i).acquired).getLast?, ctx)
      else (none, ctx)

/-- `cmdq_mdp_find_free_thread`. -/
def cmdqMdpFindFreeThread (h : Handle) : Option ℕ × MdpContext :=
  if cfg.securePathSupport && cmdqMdpCheckEngineWaitingUnlock cfg ctx h then (none, ctx)
  else if cfg.securePathSupport && h.isSecure then
    if cmdqMaxTaskInSecureThread ≤ (ctx.thread cmdqThreadSecMdp).taskCount then (none, ctx)
    else (some cmdqThreadSecMdp, ctx)
  else match cmdqMdpCheckEngineConflict ctx h with
    | (true, _) => (none, ctx)
    | (false, some t) => (some t, ctx)
    | (false, none) => findUnusedThread cfg ctx h

/-- `cmdq_mdp_lock_thread` for a task on thread `t`. -/
def cmdqMdpLockThread (ctx : MdpContext) : MdpContext :=
  let ctx := cmdqMdpGetEngineFlagForEnableClock h.engineFlag t ctx
  let thread := ctx.thread t
  ctx.setThread t
    { thread with
      allowDispatch := true
      taskCount := u32 (thread.taskCount + 1)
      secure := if cfg.securePathSupport then h.secData && h.isSecure else thread.secure }

/-- `cmdq_mdp_unlock_thread` for a task on thread `t`. -/
def cmdqMdpUnlockThread (ctx : MdpContext) : MdpContext :=
  let ctx := cmdqMdpGetNotUsedEngine h.engineFlag ctx
  let thread := ctx.thread t
  let thread := { thread with taskCount := u32 (thread.taskCount - 1) }
  -- if no task on thread, release to cmdq core
  if thread.taskCount = 0 && !h.isSecure then
    { ctx.setThread t { thread with acquired := false } with
      core := cmdqCoreReleaseThread ctx.core t }
  else ctx.setThread t thread

/-- Where `cmdq_mdp_flush_async_impl` puts a task: behind all tasks up to the first one of a
lower priority. -/
def insertByPriority (h : Handle) : List Handle → List Handle
  | [] => [h]
  | entry :: entries =>
    if entry.priority < h.priority then h :: entry :: entries
    else entry :: insertByPriority h entries

/-- One round of the loop of `cmdq_mdp_consume_handle`. -/
def consumeTurn : MdpContext :=
  match ctx.cursor with
  | none => ctx
  | some (secureRun, i) =>
    match ctx.tasksWait[i]? with
    | none => { ctx with cursor := none }
    | some h =>
      if secureRun ≠ h.isSecure then { ctx with cursor := none }
      else match cmdqMdpFindFreeThread cfg ctx h with
        | (none, ctx) => { ctx with cursor := some (secureRun, i + 1) }
        | (some t, ctx) =>
          let ctx := cmdqMdpLockThread cfg h t ctx
          { ctx with
            tasksWait := ctx.tasksWait.eraseIdx i
            running := ctx.running ++ [{ h with thread := some t }] }

/-- What can happen to the dispatcher: a task is submitted, a pass starts or goes on by one
task, a task is finished, and other clients change the table of GCE threads. -/
inductive MdpEvent where
  | submit (engineFlag : BitVec 64) (priority : ℕ) (scenario : ℤ) (isSecure secData : Bool)
  | consume
  | turn
  | done (i : ℕ)
  | others (core : ℕ → CoreThread)

/-- One step of the dispatcher. A task that is submitted during a pass waits for the lock. -/
def mdpStep : MdpEvent → MdpContext
  | .submit engineFlag priority scenario isSecure secData =>
    match ctx.cursor with
    | some _ => ctx
    | none =>
      let h : Handle :=
        { serial := ctx.submitted, engineFlag, priority, scenario, isSecure, secData,
          thread := none }
      { ctx with
        tasksWait := insertByPriority h ctx.tasksWait
        submitted := ctx.submitted + 1 }
  | .consume =>
    match ctx.cursor, ctx.tasksWait with
    | none, h :: _ => { ctx with cursor := some (h.isSecure, 0) }
    | _, _ => ctx
  | .turn => consumeTurn cfg ctx
  | .done i =>
    match ctx.running[i]? with
    | none => ctx
    | some h =>
      match h.thread with
      | none => ctx
      | some t =>
        let ctx := cmdqMdpUnlockThread h t ctx
        { ctx with running := ctx.running.eraseIdx i }
  | .others core => { ctx with core := core }

@[simp] theorem getLsbD_engineBit (e' : EngineId) : (engineBit e).getLsbD e' = decide (e = e') := by
  have he : e.val < 64 := e.isLt
  rw [engineBit, BitVec.getLsbD_shiftLeft, BitVec.getLsbD_one, Bool.eq_iff_iff]
  simp only [Bool.and_eq_true, decide_eq_true_eq, Bool.not_eq_true', decide_eq_false_iff_not,
    Fin.ext_iff]
  omega

/-- The parts of the context that the books of engines and threads do not belong to. -/
structure SameTasks (ctx ctx' : MdpContext) : Prop where
  tasksWait : ctx'.tasksWait = ctx.tasksWait
  cursor : ctx'.cursor = ctx.cursor
  running : ctx'.running = ctx.running
  submitted : ctx'.submitted = ctx.submitted

theorem SameTasks.trans {ctx1 ctx2 ctx3 : MdpContext} (h : SameTasks ctx1 ctx2)
    (h' : SameTasks ctx2 ctx3) : SameTasks ctx1 ctx3 :=
  ⟨h'.tasksWait.trans h.tasksWait, h'.cursor.trans h.cursor, h'.running.trans h.running,
    h'.submitted.trans h.submitted⟩

theorem SameTasks.foldl {α : Type} {f : MdpContext → α → MdpContext}
    (hf : ∀ ctx a, SameTasks ctx (f ctx a)) (as : List α) (ctx : MdpContext) :
    SameTasks ctx (as.foldl f ctx) := by
  induction as generalizing ctx with
  | nil => exact ⟨rfl, rfl, rfl, rfl⟩
  | cons a as ih => exact (hf ctx a).trans (ih _)

theorem claimEngine_sameTasks (ctx : MdpContext) (e : EngineId) :
    SameTasks ctx (claimEngine engineFlag t ctx e) := by
  unfold claimEngine
  dsimp only
  split_ifs <;> exact ⟨rfl, rfl, rfl, rfl⟩

theorem releaseEngine_sameTasks : SameTasks ctx (releaseEngine engineFlag ctx e) := by
  unfold releaseEngine MdpContext.dropFlag
  dsimp only
  split_ifs
  · cases (ctx.engine e).currOwner <;> exact ⟨rfl, rfl, rfl, rfl⟩
  · exact ⟨rfl, rfl, rfl, rfl⟩
  · exact ⟨rfl, rfl, rfl, rfl⟩

theorem cmdqMdpLockThread_sameTasks (ctx : MdpContext) :
    SameTasks ctx (cmdqMdpLockThread cfg h t ctx) :=
  (SameTasks.foldl (claimEngine_sameTasks h.engineFlag t)
    (finRange cmdqMaxEngineCount) ctx).trans ⟨rfl, rfl, rfl, rfl⟩

theorem cmdqMdpUnlockThread_sameTasks (ctx : MdpContext) :
    SameTasks ctx (cmdqMdpUnlockThread h t ctx) := by
  refine (SameTasks.foldl (releaseEngine_sameTasks h.engineFlag)
    (finRange cmdqMaxEngineCount) ctx).trans ?_
  unfold cmdqMdpUnlockThread cmdqMdpGetNotUsedEngine
  dsimp only
  split_ifs <;> exact ⟨rfl, rfl, rfl, rfl⟩

theorem cmdqMdpFindFreeThread_sameTasks (h : Handle) :
    SameTasks ctx (cmdqMdpFindFreeThread cfg ctx h).2 := by
  unfold cmdqMdpFindFreeThread findUnusedThread
  repeat' split
  all_goals exact ⟨rfl, rfl, rfl, rfl⟩

/-- Thread `t` owns an engine of the task. -/
def MdpContext.OwnsFor (h : Handle) (t : ℕ) : Prop :=
  ∃ e, h.uses e ∧ (ctx.engine e).currOwner = some t

/-- What the search for the owners of the engines returns. -/
theorem checkEngineConflictLoop_spec (engine : EngineId → Engine) (engineFlag : BitVec 64)
    (is : List EngineId) (thread : Option ℕ) :
    match checkEngineConflictLoop engine engineFlag is thread with
    | (true, _) => ∃ t t', t ≠ t' ∧
        (thread = some t ∨ ∃ i ∈ is, engineFlag.getLsbD i ∧ (engine i).currOwner = some t) ∧
        (thread = some t' ∨ ∃ i ∈ is, engineFlag.getLsbD i ∧ (engine i).currOwner = some t')
    | (false, found) => ∀ t, found = some t ↔
        thread = some t ∨ ∃ i ∈ is, engineFlag.getLsbD i ∧ (engine i).currOwner = some t := by
  induction is generalizing thread with
  | nil => simp [checkEngineConflictLoop]
  | cons i is ih =>
    unfold checkEngineConflictLoop
    by_cases hflag : engineFlag.getLsbD i
    · rw [if_pos hflag]
      cases howner : (engine i).currOwner with
      | none => simpa [hflag, howner] using ih thread
      | some owner =>
        cases thread with
        | none => simpa [hflag, howner] using ih (some owner)
        | some thread =>
          by_cases heq : thread = owner
          · subst heq
            have hspec := ih (some thread)
            dsimp only
            rw [if_neg (not_not.mpr rfl)]
            simp only [exists_mem_cons_iff, hflag, howner, true_and]
            simpa only [← or_assoc, or_self] using hspec
          · dsimp only
            rw [if_pos heq]
            exact ⟨thread, owner, heq, Or.inl rfl,
              Or.inr ⟨i, mem_cons_self, hflag, howner⟩⟩
    · rw [if_neg hflag]
      simpa [hflag] using ih thread

/-- There is a conflict exactly if two threads own engines of the task. -/
theorem cmdqMdpCheckEngineConflict_iff (h : Handle) :
    (cmdqMdpCheckEngineConflict ctx h).1 = true ↔
      ∃ t t', t ≠ t' ∧ ctx.OwnsFor h t ∧ ctx.OwnsFor h t' := by
  have hspec := checkEngineConflictLoop_spec ctx.engine h.engineFlag
    (finRange cmdqMaxEngineCount) none
  unfold cmdqMdpCheckEngineConflict MdpContext.OwnsFor Handle.uses
  generalize checkEngineConflictLoop ctx.engine h.engineFlag
    (finRange cmdqMaxEngineCount) none = found at hspec ⊢
  obtain ⟨conflict | conflict, thread⟩ := found
  · simp only [reduceCtorEq, mem_finRange, true_and, false_or] at hspec
    simp only [Bool.false_eq_true, false_iff, ← hspec]
    rintro ⟨t, t', hne, ht, ht'⟩
    exact hne (Option.some.inj (ht.symm.trans ht'))
  · simpa using hspec

theorem cmdqMdpCheckEngineConflict_owner {ctx : MdpContext} {h : Handle} {thread : Option ℕ}
    (hfound : cmdqMdpCheckEngineConflict ctx h = (false, thread)) (t : ℕ) :
    thread = some t ↔ ctx.OwnsFor h t := by
  have hspec := checkEngineConflictLoop_spec ctx.engine h.engineFlag
    (finRange cmdqMaxEngineCount) none
  unfold cmdqMdpCheckEngineConflict at hfound
  rw [hfound] at hspec
  simpa [MdpContext.OwnsFor, Handle.uses] using hspec t

/-- What a turn of the pass can do. -/
theorem consumeTurn_cases :
    consumeTurn cfg ctx = ctx ∨
    consumeTurn cfg ctx = { ctx with cursor := none } ∨
    ∃ secureRun i h, ctx.cursor = some (secureRun, i) ∧ ctx.tasksWait[i]? = some h ∧
      secureRun = h.isSecure ∧
      (((cmdqMdpFindFreeThread cfg ctx h).1 = none ∧ consumeTurn cfg ctx =
          { (cmdqMdpFindFreeThread cfg ctx h).2 with cursor := some (secureRun, i + 1) }) ∨
        ∃ t, (cmdqMdpFindFreeThread cfg ctx h).1 = some t ∧ consumeTurn cfg ctx =
          { cmdqMdpLockThread cfg h t (cmdqMdpFindFreeThread cfg ctx h).2 with
            tasksWait := ctx.tasksWait.eraseIdx i
            running := ctx.running ++ [{ h with thread := some t }] }) := by
  unfold consumeTurn
  cases hcursor : ctx.cursor with
  | none => exact Or.inl rfl
  | some cursor =>
    obtain ⟨secureRun, i⟩ := cursor
    right
    dsimp only
    cases hwait : ctx.tasksWait[i]? with
    | none => exact Or.inl rfl
    | some h =>
      dsimp only
      by_cases hsecure : secureRun = h.isSecure
      · right
        refine ⟨secureRun, i, h, rfl, hwait, hsecure, ?_⟩
        rw [if_neg (not_not.mpr hsecure)]
        have hsame := cmdqMdpFindFreeThread_sameTasks cfg ctx h
        generalize cmdqMdpFindFreeThread cfg ctx h = found at hsame ⊢
        obtain ⟨t | t, ctx'⟩ := found
        · exact Or.inl ⟨rfl, rfl⟩
        · right
          have hlock := hsame.trans (cmdqMdpLockThread_sameTasks cfg h t ctx')
          refine ⟨t, rfl, ?_⟩
          dsimp only
          rw [hlock.tasksWait, hlock.running]
      · rw [if_pos hsecure]
        exact Or.inl rfl

end Mt8169.Mdp
