import Mt8169.Mdp.Ownership
import Mathlib.Data.List.Induction

/-!
# The order of dispatch

A pass goes on to later tasks when it has passed over one that finds no thread. So a later task can
be dispatched before an earlier one that needs the same engine: a task blocked by two owners, or by
the lack of a thread, does not block those behind it that find the owner of their engines.
-/

namespace Mt8169.Mdp

open Runs List

variable {h : Handle} {ctx : MdpContext} {cfg : MdpConfig} {i n : ℕ}

/-- There is no thread for a task whose engines are free: none that MDP has left over, none that
the core can hand out and, for a task without engines, none that MDP has acquired. -/
structure NoThread (cfg : MdpConfig) (ctx : MdpContext) (h : Handle) : Prop where
  idle : ∀ t ∈ cfg.mdpThreads, (ctx.thread t).idle = false
  core : ∀ t ∈ cfg.dynamicThreads, (ctx.core t).used = true ∨ (ctx.core t).acquire ≠ 0
  acquired : h.engineFlag = 0 → ∀ t ∈ cfg.mdpThreads, (ctx.thread t).acquired = false

/-- A task has to wait: an engine of it is busy on the other side of the secure path, or the
secure thread is full, or its engines have two owners, or none of them is owned and there is
no thread. -/
def Blocked (cfg : MdpConfig) (ctx : MdpContext) (h : Handle) : Prop :=
  cfg.securePathSupport = true ∧ cmdqMdpCheckEngineWaitingUnlock cfg ctx h = true ∨
  if cfg.securePathSupport && h.isSecure then
    cmdqMaxTaskInSecureThread ≤ (ctx.thread cmdqThreadSecMdp).taskCount
  else
    (∃ t t', t ≠ t' ∧ ctx.OwnsFor h t ∧ ctx.OwnsFor h t') ∨
      (∀ t, ¬ctx.OwnsFor h t) ∧ NoThread cfg ctx h

theorem cmdqCoreAcquireThread_eq_none (cfg : MdpConfig) (core : ℕ → CoreThread) (scenario : ℤ) :
    cmdqCoreAcquireThread cfg core scenario true = none ↔
      ∀ t ∈ cfg.dynamicThreads, (core t).used = true ∨ (core t).acquire ≠ 0 := by
  unfold cmdqCoreAcquireThread
  rw [find?_eq_none]
  refine forall₂_congr fun t _ => ?_
  by_cases hacquire : (core t).acquire = 0 <;> simp [hacquire]

/-- No thread is found exactly if none is free. -/
theorem findUnusedThread_eq_none (cfg : MdpConfig) (ctx : MdpContext) (h : Handle) :
    (findUnusedThread cfg ctx h).1 = none ↔ NoThread cfg ctx h := by
  unfold findUnusedThread
  cases hidle : cfg.mdpThreads.find? fun i => (ctx.thread i).idle with
  | some t =>
    simp only [reduceCtorEq, false_iff]
    intro hnone
    have hmem := mem_of_find?_eq_some hidle
    have hfalse := hnone.idle t hmem
    rw [find?_some hidle] at hfalse
    cases hfalse
  | none =>
    have hallBusy : ∀ t ∈ cfg.mdpThreads, (ctx.thread t).idle = false := by
      simpa using find?_eq_none.mp hidle
    dsimp only
    cases hcore : cmdqCoreAcquireThread cfg ctx.core h.scenario true with
    | some t =>
      simp only [reduceCtorEq, false_iff]
      intro hnone
      rw [(cmdqCoreAcquireThread_eq_none cfg ctx.core h.scenario).mpr hnone.core] at hcore
      cases hcore
    | none =>
      have hall := (cmdqCoreAcquireThread_eq_none cfg ctx.core h.scenario).mp hcore
      dsimp only
      split_ifs with hflag
      · rw [getLast?_eq_none_iff, filter_eq_nil_iff]
        constructor
        · intro hnone
          exact ⟨hallBusy, hall, fun _ t ht => by simpa using hnone t ht⟩
        · intro hnone t ht
          simp [hnone.acquired hflag t ht]
      · exact iff_of_true rfl ⟨hallBusy, hall, fun hzero => absurd hzero hflag⟩

/-- A task is held back exactly if it is blocked. -/
theorem cmdqMdpFindFreeThread_eq_none (cfg : MdpConfig) (ctx : MdpContext) (h : Handle) :
    (cmdqMdpFindFreeThread cfg ctx h).1 = none ↔ Blocked cfg ctx h := by
  unfold cmdqMdpFindFreeThread Blocked
  by_cases hwaiting : (cfg.securePathSupport && cmdqMdpCheckEngineWaitingUnlock cfg ctx h) = true
  · rw [if_pos hwaiting]
    exact iff_of_true rfl (Or.inl (by simpa using hwaiting))
  · have hnot : ¬(cfg.securePathSupport = true ∧
        cmdqMdpCheckEngineWaitingUnlock cfg ctx h = true) := by
      simpa using hwaiting
    rw [if_neg hwaiting, or_iff_right hnot]
    by_cases hsecure : (cfg.securePathSupport && h.isSecure) = true
    · rw [if_pos hsecure, if_pos hsecure]
      split_ifs with hfull <;> simp [hfull]
    · rw [if_neg hsecure, if_neg hsecure, ← cmdqMdpCheckEngineConflict_iff,
        ← findUnusedThread_eq_none]
      cases hconflict : cmdqMdpCheckEngineConflict ctx h with
      | mk conflict thread =>
        cases conflict with
        | true => simp
        | false =>
          have howner := cmdqMdpCheckEngineConflict_owner hconflict
          cases thread with
          | none => simp [← howner]
          | some t =>
            have hown : ctx.OwnsFor h t := (howner t).mp rfl
            simp only [reduceCtorEq, Bool.false_eq_true, false_or, false_iff, not_and]
            exact fun hnone => absurd hown (hnone t)

/-- The waiting list is sorted by priority, and by submission among tasks of equal priority. -/
structure WaitSorted (ctx : MdpContext) : Prop where
  sorted : ctx.tasksWait.Pairwise fun h h' =>
    h'.priority < h.priority ∨ h.priority = h'.priority ∧ h.serial < h'.serial
  lt : ∀ h ∈ ctx.tasksWait, h.serial < ctx.submitted

/-- The insertion keeps the order. -/
theorem insertByPriority_sorted {entries : List Handle} (hsorted : entries.Pairwise fun h h' =>
      h'.priority < h.priority ∨ h.priority = h'.priority ∧ h.serial < h'.serial)
    (hlt : ∀ h' ∈ entries, h'.serial < h.serial) :
    (insertByPriority h entries).Pairwise fun h h' =>
      h'.priority < h.priority ∨ h.priority = h'.priority ∧ h.serial < h'.serial := by
  induction entries with
  | nil => simp [insertByPriority]
  | cons entry entries ih =>
    obtain ⟨hfirst, hrest⟩ := pairwise_cons.mp hsorted
    unfold insertByPriority
    split_ifs with hlow
    · refine pairwise_cons.mpr ⟨fun h' hh' => ?_, hsorted⟩
      rcases mem_cons.mp hh' with rfl | hmem
      · exact Or.inl hlow
      · rcases hfirst h' hmem with hlower | ⟨heq, -⟩
        · exact Or.inl (hlower.trans hlow)
        · exact Or.inl (heq ▸ hlow)
    · refine pairwise_cons.mpr ⟨fun h' hh' => ?_, ih hrest fun h' hh' =>
        hlt h' (mem_cons_of_mem _ hh')⟩
      rcases mem_insertByPriority.mp hh' with rfl | hmem
      · have hserial := hlt entry mem_cons_self
        omega
      · exact hfirst h' hmem

theorem consumeTurn_sublist (cfg : MdpConfig) (ctx : MdpContext) :
    (consumeTurn cfg ctx).tasksWait.Sublist ctx.tasksWait ∧
      (consumeTurn cfg ctx).submitted = ctx.submitted := by
  rcases consumeTurn_cases cfg ctx with hsame | hend |
    ⟨secureRun, i, h, -, -, -, ⟨-, hskip⟩ | ⟨t, -, hdispatch⟩⟩
  · rw [hsame]
    exact ⟨List.Sublist.refl _, rfl⟩
  · rw [hend]
    exact ⟨List.Sublist.refl _, rfl⟩
  · have htasks := cmdqMdpFindFreeThread_sameTasks cfg ctx h
    rw [hskip]
    exact ⟨htasks.tasksWait ▸ List.Sublist.refl _, htasks.submitted⟩
  · have htasks := (cmdqMdpFindFreeThread_sameTasks cfg ctx h).trans
      (cmdqMdpLockThread_sameTasks cfg h t _)
    rw [hdispatch]
    exact ⟨eraseIdx_sublist .., htasks.submitted⟩

theorem WaitSorted.sublist {ctx' : MdpContext} (hctx : WaitSorted ctx)
    (hsub : ctx'.tasksWait.Sublist ctx.tasksWait) (hsubmitted : ctx'.submitted = ctx.submitted) :
    WaitSorted ctx' := by
  constructor
  · exact hctx.sorted.sublist hsub
  · intro h hh
    rw [hsubmitted]
    exact hctx.lt h (hsub.subset hh)

/-- No other event takes a task off the list. -/
theorem mdpStep_tasksWait (cfg : MdpConfig) (ctx : MdpContext) {e : MdpEvent} (he : e ≠ .turn) :
    ((mdpStep cfg ctx e).tasksWait = ctx.tasksWait ∧
      (mdpStep cfg ctx e).submitted = ctx.submitted) ∨
    ∃ h, h.serial = ctx.submitted ∧
      (mdpStep cfg ctx e).tasksWait = insertByPriority h ctx.tasksWait ∧
      (mdpStep cfg ctx e).submitted = ctx.submitted + 1 := by
  cases e with
  | submit engineFlag priority scenario isSecure secData =>
    unfold mdpStep
    cases ctx.cursor with
    | some cursor => exact Or.inl ⟨rfl, rfl⟩
    | none => exact Or.inr ⟨_, rfl, rfl, rfl⟩
  | consume =>
    left
    unfold mdpStep
    dsimp only
    split <;> exact ⟨rfl, rfl⟩
  | turn => exact absurd rfl he
  | done i =>
    left
    unfold mdpStep
    dsimp only
    cases ctx.running[i]? with
    | none => exact ⟨rfl, rfl⟩
    | some h =>
      dsimp only
      cases h.thread with
      | none => exact ⟨rfl, rfl⟩
      | some t =>
        have htasks := cmdqMdpUnlockThread_sameTasks h t ctx
        exact ⟨htasks.tasksWait, htasks.submitted⟩
  | others core => exact Or.inl ⟨rfl, rfl⟩

/-- Every step keeps the list sorted. -/
theorem WaitSorted.step (hctx : WaitSorted ctx) (cfg : MdpConfig) (e : MdpEvent) :
    WaitSorted (mdpStep cfg ctx e) := by
  by_cases he : e = .turn
  · subst he
    obtain ⟨hsub, hsubmitted⟩ := consumeTurn_sublist cfg ctx
    exact hctx.sublist hsub hsubmitted
  · rcases mdpStep_tasksWait cfg ctx he with ⟨hwait, hsubmitted⟩ | ⟨h, hserial, hwait, hsubmitted⟩
    · exact hctx.sublist (hwait ▸ List.Sublist.refl _) hsubmitted
    · constructor
      · rw [hwait]
        exact insertByPriority_sorted hctx.sorted fun h' hh' => hserial ▸ hctx.lt h' hh'
      · intro h' hh'
        rw [hwait] at hh'
        rw [hsubmitted]
        rcases mem_insertByPriority.mp hh' with rfl | hold
        · omega
        · exact Nat.lt_succ_of_lt (hctx.lt h' hold)

theorem WaitSorted.nodup (hctx : WaitSorted ctx) : ctx.tasksWait.Nodup := by
  refine hctx.sorted.imp fun hbefore heq => ?_
  subst heq
  omega

/-- A step dispatches in order: when a task leaves the waiting list, no task that stays and
shares an engine with it was ahead of it, or has its priority and was submitted before it. -/
structure InOrder (ctx ctx' : MdpContext) : Prop where
  ahead : ∀ before h after, ctx.tasksWait = before ++ h :: after → h ∉ ctx'.tasksWait →
    ∀ h' ∈ before, h' ∈ ctx'.tasksWait → ¬h.Shares h'
  submission : ∀ h ∈ ctx.tasksWait, h ∉ ctx'.tasksWait → ∀ h' ∈ ctx'.tasksWait,
    h'.priority = h.priority → h'.serial < h.serial → ¬h.Shares h'

/-- When a pass comes to a task that shares an engine with a task it has passed over, the task is
blocked. -/
def TurnOk (cfg : MdpConfig) (ctx : MdpContext) : MdpEvent → Prop
  | .turn => ∀ i h, ctx.cursor = some (h.isSecure, i) → ctx.tasksWait[i]? = some h →
    (∃ h' ∈ ctx.tasksWait.take i, h.Shares h') → Blocked cfg ctx h
  | _ => True

/-- A task leaves the list at its turn, and not while it is blocked. -/
theorem consumeTurn_leaves (hmem : h ∈ ctx.tasksWait)
    (hleft : h ∉ (consumeTurn cfg ctx).tasksWait) :
    ∃ i, ctx.cursor = some (h.isSecure, i) ∧ ctx.tasksWait[i]? = some h ∧
      ¬Blocked cfg ctx h := by
  rcases consumeTurn_cases cfg ctx with hsame | hend |
    ⟨secureRun, i, h0, hcursor, hwait, rfl, ⟨-, hskip⟩ | ⟨t, hfound, hdispatch⟩⟩
  · rw [hsame] at hleft
    exact absurd hmem hleft
  · rw [hend] at hleft
    exact absurd hmem hleft
  · have htasks := cmdqMdpFindFreeThread_sameTasks cfg ctx h0
    rw [hskip] at hleft
    exact absurd (htasks.tasksWait ▸ hmem) hleft
  · rw [hdispatch] at hleft
    have heq : h = h0 := by
      obtain ⟨j, hj⟩ := mem_iff_getElem?.mp hmem
      by_contra hne
      have hij : j ≠ i := by
        rintro rfl
        exact hne (Option.some.inj (hj.symm.trans hwait))
      exact hleft (mem_eraseIdx_iff_getElem?.mpr ⟨j, hij, hj⟩)
    subst heq
    refine ⟨i, hcursor, hwait, fun hblocked => ?_⟩
    rw [(cmdqMdpFindFreeThread_eq_none cfg ctx h).mpr hblocked] at hfound
    cases hfound

/-- A task that is not blocked leaves at its turn. -/
theorem consumeTurn_dispatches (hcursor : ctx.cursor = some (h.isSecure, i))
    (hwait : ctx.tasksWait[i]? = some h) (hfree : ¬Blocked cfg ctx h) :
    (consumeTurn cfg ctx).tasksWait = ctx.tasksWait.eraseIdx i := by
  obtain ⟨t, ht⟩ := Option.ne_none_iff_exists'.mp
    (mt (cmdqMdpFindFreeThread_eq_none cfg ctx h).mp hfree)
  have htasks := (cmdqMdpFindFreeThread_sameTasks cfg ctx h).trans
    (cmdqMdpLockThread_sameTasks cfg h t _)
  unfold consumeTurn
  rw [hcursor]
  dsimp only
  rw [hwait]
  dsimp only
  rw [if_neg (not_not.mpr rfl)]
  generalize cmdqMdpFindFreeThread cfg ctx h = found at ht htasks ⊢
  obtain ⟨thread, ctx'⟩ := found
  dsimp only at ht
  subst ht
  exact congrArg (·.eraseIdx i) htasks.tasksWait

section

variable (hctx : WaitSorted ctx)
include hctx

theorem WaitSorted.take_eq {before after : List Handle}
    (hsplit : ctx.tasksWait = before ++ h :: after) (hi : ctx.tasksWait[i]? = some h) :
    ctx.tasksWait.take i = before := by
  have hnodup := hctx.nodup
  have hlt : before.length < ctx.tasksWait.length := by
    rw [hsplit]
    simp
  have hget : ctx.tasksWait[before.length]? = some h := by
    rw [hsplit]
    simp
  have hidx : before.length = i := (getElem?_inj hlt hnodup).mp (hget.trans hi.symm)
  rw [← hidx, hsplit]
  simp

theorem WaitSorted.mem_take {h' : Handle} (hi : ctx.tasksWait[i]? = some h)
    (hmem : h' ∈ ctx.tasksWait) (hpriority : h'.priority = h.priority)
    (hserial : h'.serial < h.serial) : h' ∈ ctx.tasksWait.take i := by
  obtain ⟨j, hj⟩ := mem_iff_getElem?.mp hmem
  obtain ⟨hilt, hget⟩ := List.getElem?_eq_some_iff.mp hi
  obtain ⟨hjlt, hget'⟩ := List.getElem?_eq_some_iff.mp hj
  have hji : j < i := by
    by_contra hle
    rcases Nat.lt_or_eq_of_le (not_lt.mp hle) with hlt | rfl
    · have hbefore := pairwise_iff_getElem.mp hctx.sorted i j hilt hjlt hlt
      rw [hget, hget'] at hbefore
      omega
    · rw [hget] at hget'
      subst hget'
      exact Nat.lt_irrefl _ hserial
  exact mem_take_iff_getElem.mpr ⟨j, by omega, hget'⟩

/-- A turn under its condition dispatches in order. -/
theorem WaitSorted.inOrder_of_turnOk (hok : TurnOk cfg ctx .turn) :
    InOrder ctx (consumeTurn cfg ctx) := by
  constructor
  · intro before h after hsplit hleft h' hh' _ hshares
    have hmem : h ∈ ctx.tasksWait := by
      rw [hsplit]
      simp
    obtain ⟨i, hcursor, hi, hfree⟩ := consumeTurn_leaves hmem hleft
    refine hfree (hok i h hcursor hi ⟨h', ?_, hshares⟩)
    rw [hctx.take_eq hsplit hi]
    exact hh'
  · intro h hmem hleft h' hh' hpriority hserial hshares
    obtain ⟨i, hcursor, hi, hfree⟩ := consumeTurn_leaves hmem hleft
    have hmem' := (consumeTurn_sublist cfg ctx).1.subset hh'
    exact hfree (hok i h hcursor hi ⟨h', hctx.mem_take hi hmem' hpriority hserial, hshares⟩)

/-- A turn that dispatches in order meets it. -/
theorem WaitSorted.turnOk_of_inOrder
    (horder : InOrder ctx (consumeTurn cfg ctx)) : TurnOk cfg ctx .turn := by
  rintro i h hcursor hi ⟨h', hh', hshares⟩
  by_contra hfree
  have hwait := consumeTurn_dispatches hcursor hi hfree
  obtain ⟨hlt, hget⟩ := List.getElem?_eq_some_iff.mp hi
  have hsplit : ctx.tasksWait = ctx.tasksWait.take i ++ h :: ctx.tasksWait.drop (i + 1) := by
    rw [← hget, ← drop_eq_getElem_cons hlt, take_append_drop]
  rw [eraseIdx_eq_take_drop_succ] at hwait
  have hleft : h ∉ (consumeTurn cfg ctx).tasksWait := by
    have hnodup := hctx.nodup
    rw [hsplit, nodup_middle] at hnodup
    rw [hwait]
    exact (nodup_cons.mp hnodup).1
  have hstays : h' ∈ (consumeTurn cfg ctx).tasksWait := by
    rw [hwait]
    exact mem_append_left _ hh'
  exact horder.ahead _ h _ hsplit hleft h' hh' hstays hshares

end

/-- In every state reached, a step dispatches in order exactly if a task that it would move past
a waiting task with a common engine is blocked itself. -/
theorem inOrder_iff_turnOk (cfg : MdpConfig) (core : ℕ → CoreThread) {ctx : MdpContext}
    (hreach : Reaches (mdpStep cfg) (fun _ _ => True) (MdpContext.init cfg core) ctx)
    (e : MdpEvent) : InOrder ctx (mdpStep cfg ctx e) ↔ TurnOk cfg ctx e := by
  have hctx : WaitSorted ctx :=
    hreach.invariant ⟨List.Pairwise.nil, by simp [MdpContext.init]⟩
      fun _ e hinv _ => hinv.step cfg e
  by_cases he : e = .turn
  · subst he
    exact ⟨hctx.turnOk_of_inOrder, hctx.inOrder_of_turnOk⟩
  · have hkept : ctx.tasksWait ⊆ (mdpStep cfg ctx e).tasksWait := by
      intro h hh
      rcases mdpStep_tasksWait cfg ctx he with ⟨hwait, -⟩ | ⟨new, -, hwait, -⟩
      · exact hwait ▸ hh
      · rw [hwait]
        exact mem_insertByPriority.mpr (Or.inr hh)
    refine iff_of_true ⟨?_, ?_⟩ (by cases e <;> first | exact trivial | exact absurd rfl he)
    · intro before h after hsplit hleft
      exact absurd (hkept (by rw [hsplit]; simp)) hleft
    · intro h hh hleft
      exact absurd (hkept hh) hleft

/-- A task with engine 0 and a task with engine 1 run on two threads. A task with both engines
has to wait, and then a task with engine 0 is submitted. -/
def overtakingRun : List MdpEvent :=
  [.submit 0b01 0 0 false false, .submit 0b10 0 0 false false, .consume, .turn, .turn, .turn,
    .submit 0b11 0 0 false false, .submit 0b01 0 0 false false, .consume, .turn]

/-- The waiting task with both engines. -/
def bothEngines : Handle where
  serial := 2
  engineFlag := 0b11
  priority := 0
  scenario := 0
  isSecure := false
  secData := false
  thread := none

/-- The task behind it. -/
def firstEngine : Handle := { bothEngines with serial := 3, engineFlag := 0b01 }

theorem overtakingRun_tasksWait :
    (overtakingRun.foldl (mdpStep plainConfig) (MdpContext.init plainConfig unusedCore)).tasksWait =
      [bothEngines, firstEngine] ∧
    (mdpStep plainConfig (overtakingRun.foldl (mdpStep plainConfig)
      (MdpContext.init plainConfig unusedCore)) .turn).tasksWait = [bothEngines] := by
  constructor <;> decide +kernel

/-- The task with engine 0 is dispatched while the task with both engines, of the same
priority and submitted before it, still waits. -/
theorem not_inOrder_overtakingRun :
    Reaches (mdpStep plainConfig) (fun _ _ => True) (MdpContext.init plainConfig unusedCore)
      (overtakingRun.foldl (mdpStep plainConfig) (MdpContext.init plainConfig unusedCore)) ∧
    ¬InOrder
      (overtakingRun.foldl (mdpStep plainConfig) (MdpContext.init plainConfig unusedCore))
      (mdpStep plainConfig (overtakingRun.foldl (mdpStep plainConfig)
        (MdpContext.init plainConfig unusedCore)) .turn) := by
  obtain ⟨hbefore, hafter⟩ := overtakingRun_tasksWait
  constructor
  · exact Reaches.start.foldl (by decide +kernel)
  · intro horder
    have hnot := horder.submission firstEngine (by rw [hbefore]; decide) (by rw [hafter]; decide)
      bothEngines (by rw [hafter]; decide) rfl (by decide)
    exact hnot (by decide +kernel)

/-- Here the task that is submitted last needs both engines, too. -/
def blockedRun : List MdpEvent :=
  [.submit 0b01 0 0 false false, .submit 0b10 0 0 false false, .consume, .turn, .turn, .turn,
    .submit 0b11 0 0 false false, .submit 0b11 0 0 false false, .consume, .turn]

/-- The pass has left the first of the two tasks waiting and comes to the second one, which is
blocked itself and does not overtake it. -/
theorem inOrder_blockedRun :
    (blockedRun.foldl (mdpStep plainConfig) (MdpContext.init plainConfig unusedCore)).tasksWait =
      [bothEngines, { bothEngines with serial := 3 }] ∧
    (blockedRun.foldl (mdpStep plainConfig) (MdpContext.init plainConfig unusedCore)).cursor =
      some (false, 1) ∧
    InOrder (blockedRun.foldl (mdpStep plainConfig) (MdpContext.init plainConfig unusedCore))
      (mdpStep plainConfig (blockedRun.foldl (mdpStep plainConfig)
        (MdpContext.init plainConfig unusedCore)) .turn) := by
  have hwait : (blockedRun.foldl (mdpStep plainConfig)
      (MdpContext.init plainConfig unusedCore)).tasksWait =
        [bothEngines, { bothEngines with serial := 3 }] := by decide +kernel
  have hcursor : (blockedRun.foldl (mdpStep plainConfig)
      (MdpContext.init plainConfig unusedCore)).cursor = some (false, 1) := by decide +kernel
  refine ⟨hwait, hcursor, (inOrder_iff_turnOk plainConfig unusedCore
    (Reaches.start.foldl (by decide +kernel)) .turn).mpr ?_⟩
  rintro i h hcursor' hh -
  obtain rfl : 1 = i := (Prod.mk.inj (Option.some.inj (hcursor.symm.trans hcursor'))).2
  rw [hwait] at hh
  obtain rfl := Option.some.inj hh
  -- thread 8 owns engine 0, and thread 9 owns engine 1
  exact Or.inr (Or.inl ⟨8, 9, by decide, ⟨⟨0, by decide⟩, by decide +kernel⟩,
    ⟨⟨1, by decide⟩, by decide +kernel⟩⟩)

/-- The tasks that wait or run and at most `n` finished ones are the submissions, each once. -/
def Accounted (ctx : MdpContext) (n : ℕ) : Prop :=
  ∃ finished : List ℕ, finished.length ≤ n ∧
    (ctx.tasksWait ++ ctx.running).map (·.serial) ++ finished ~ range ctx.submitted

/-- A task ends. -/
def MdpEvent.isDone : MdpEvent → Bool
  | .done _ => true
  | _ => false

/-- A turn moves tasks from the waiting to the running ones. -/
theorem Accounted.turn (hctx : Accounted ctx n) : Accounted (consumeTurn cfg ctx) n := by
  obtain ⟨finished, hle, hperm⟩ := hctx
  refine ⟨finished, hle, ?_⟩
  rcases consumeTurn_cases cfg ctx with hsame | hend |
    ⟨_, i, h, -, hi, -, ⟨-, hskip⟩ | ⟨t, -, hdispatch⟩⟩
  · rwa [hsame]
  · rwa [hend]
  · have htasks := cmdqMdpFindFreeThread_sameTasks cfg ctx h
    rwa [hskip, htasks.tasksWait, htasks.running, htasks.submitted]
  · have htasks := (cmdqMdpFindFreeThread_sameTasks cfg ctx h).trans
      (cmdqMdpLockThread_sameTasks cfg h t _)
    rw [hdispatch, htasks.submitted]
    refine .trans (.append_right _ ?_) hperm
    simp only [← append_assoc, map_append]
    exact (perm_append_singleton ..).trans
      (((cons_eraseIdx_perm hi).map (·.serial)).append_right _)

/-- Every step accounts for all tasks. -/
theorem Accounted.step (hctx : Accounted ctx n) (e : MdpEvent) :
    Accounted (mdpStep cfg ctx e) (n + [e].countP (·.isDone)) := by
  obtain ⟨finished, hle, hperm⟩ := id hctx
  cases e with
  | submit =>
    unfold mdpStep
    cases ctx.cursor with
    | some => exact hctx
    | none =>
      refine ⟨finished, hle, ?_⟩
      rw [range_succ]
      refine .trans ?_ ((hperm.cons _).trans (perm_append_singleton ..).symm)
      exact (((insertByPriority_perm _).append_right _).map _).append_right _
  | consume =>
    unfold mdpStep
    dsimp only
    split <;> exact hctx
  | turn => exact hctx.turn
  | done i =>
    unfold mdpStep
    dsimp only
    cases hi : ctx.running[i]? with
    | none => exact ⟨finished, by omega, hperm⟩
    | some h =>
      dsimp only
      cases h.thread with
      | none => exact ⟨finished, by omega, hperm⟩
      | some t =>
        have htasks := cmdqMdpUnlockThread_sameTasks h t ctx
        refine ⟨h.serial :: finished, Nat.succ_le_succ hle, ?_⟩
        dsimp only
        rw [htasks.tasksWait, htasks.running, htasks.submitted]
        have htask := ((cons_eraseIdx_perm hi).append_left ctx.tasksWait).map (·.serial)
        refine .trans ?_ hperm
        exact perm_middle.trans (((perm_middle.symm.map _).trans htask).append_right finished)
  | others => exact hctx

/-- No submission is lost or dispatched twice. -/
theorem submissions_accounted (core : ℕ → CoreThread) (es : List MdpEvent) :
    Accounted (es.foldl (mdpStep cfg) (MdpContext.init cfg core)) (es.countP (·.isDone)) := by
  induction es using List.reverseRecOn with
  | nil => exact ⟨[], le_rfl, .refl _⟩
  | append_singleton es e ih =>
    rw [foldl_concat, countP_append]
    exact ih.step e

end Mt8169.Mdp
