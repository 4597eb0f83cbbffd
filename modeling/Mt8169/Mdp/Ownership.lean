import Mt8169.Mdp.Dispatch
import Mathlib.Data.List.Perm.Basic

/-!
# Who owns an MDP engine

Ownership is kept in three places: a count of users and an owner for each engine, and a set of
engines for each thread. They agree in every state, because a task goes to the thread that owns one
of its engines, or to one of its own choice if none is owned, and takes all its engines at once.
-/

namespace Mt8169.Mdp

open MachineInt Runs MdpContext List Option

variable {ctx ctx' : MdpContext} {t : ℕ} {cfg : MdpConfig} {h : Handle}
  {g : ℕ → Engine → Bool → Bool} {f : Engine → Engine}

/-- An engine after a task on thread `t` has taken it. -/
def Engine.claimed (engine : Engine) (t : ℕ) : Engine :=
  { userCount := engine.userCount + 1
    currOwner := if engine.userCount ≤ 0 then some t else engine.currOwner }

/-- An engine after a task has returned it. -/
def Engine.released (engine : Engine) : Engine :=
  { userCount := engine.userCount - 1
    currOwner := if engine.userCount - 1 ≤ 0 then none else engine.currOwner }

/-- The flags of the threads contain an engine. -/
def MdpContext.flagged (ctx : MdpContext) (t : ℕ) (e : EngineId) : Bool :=
  (ctx.thread t).engineFlag.getLsbD e

/-- Some engines are changed by `f`, and their flags by `g`. -/
structure Changes (f : Engine → Engine) (g : ℕ → Engine → Bool → Bool) (some : EngineId → Bool)
    (ctx ctx' : MdpContext) : Prop where
  engine : ∀ e, ctx'.engine e = if some e then f (ctx.engine e) else ctx.engine e
  flagged : ∀ t e, ctx'.flagged t e =
    if some e then g t (ctx.engine e) (ctx.flagged t e) else ctx.flagged t e

/-- A task on thread `t` takes engines. -/
abbrev Claims (t : ℕ) : (EngineId → Bool) → MdpContext → MdpContext → Prop :=
  Changes (·.claimed t) fun t' engine flag => flag || decide (t' = t ∧ engine.userCount ≤ 0)

/-- A task returns engines. -/
abbrev Releases : (EngineId → Bool) → MdpContext → MdpContext → Prop :=
  Changes Engine.released fun t' engine flag =>
    flag && !decide (engine.userCount - 1 ≤ 0 ∧ engine.currOwner = some t')

/-- A loop over engines changes each of them once. -/
theorem Changes.foldl {step : MdpContext → EngineId → MdpContext} (flag : EngineId → Bool)
    (hstep : ∀ ctx e, Changes f g (fun e' => decide (e' = e) && flag e) ctx (step ctx e))
    {es : List EngineId} (hes : es.Nodup) (ctx : MdpContext) :
    Changes f g (fun e => decide (e ∈ es) && flag e) ctx (es.foldl step ctx) := by
  induction es generalizing ctx with
  | nil => constructor <;> simp
  | cons e0 es ih =>
    obtain ⟨hnotMem, hnodup⟩ := nodup_cons.mp hes
    have hfirst := hstep ctx e0
    have hrest := ih hnodup (step ctx e0)
    -- the later rounds do not see the engine of the first one
    constructor
    · intro e
      rw [foldl_cons, hrest.engine, hfirst.engine]
      by_cases heq : e = e0
      · subst heq
        simp [hnotMem]
      · simp [heq]
    · intro t e
      rw [foldl_cons, hrest.flagged, hfirst.flagged, hfirst.engine]
      by_cases heq : e = e0
      · subst heq
        simp [hnotMem]
      · simp [heq]

variable (engineFlag : BitVec 64)

theorem claimEngine_claims (t : ℕ) (ctx : MdpContext) (e : EngineId) :
    Claims t (fun e' => decide (e' = e) && engineFlag.getLsbD e) ctx
      (claimEngine engineFlag t ctx e) := by
  unfold claimEngine
  dsimp only
  constructor
  · intro e'
    split_ifs with hflag hcount <;> by_cases heq : e' = e <;>
      simp_all [setEngine, setThread, Engine.claimed]
  · intro t' e'
    unfold flagged
    by_cases hflag : engineFlag.getLsbD e
    · by_cases heq : e' = e
      · subst heq
        by_cases hcount : (ctx.engine e').userCount ≤ 0 <;> by_cases ht : t' = t <;>
          simp [setEngine, setThread, hflag, hcount, ht]
      · by_cases hcount : (ctx.engine e).userCount ≤ 0 <;> by_cases ht : t' = t <;>
          simp [setEngine, setThread, hflag, hcount, ht, heq, Ne.symm heq]
    · simp [hflag]

theorem releaseEngine_releases (ctx : MdpContext) (e : EngineId) :
    Releases (fun e' => decide (e' = e) && engineFlag.getLsbD e) ctx
      (releaseEngine engineFlag ctx e) := by
  have hdrop : ∀ owner, (ctx.dropFlag owner e).engine = ctx.engine := by
    intro owner
    cases owner <;> rfl
  have hflagged (owner : Option ℕ) (t' : ℕ) (e' : EngineId) : (ctx.dropFlag owner e).flagged t' e' =
      (ctx.flagged t' e' && !decide (e' = e ∧ owner = some t')) := by
    unfold flagged dropFlag setThread
    cases owner with
    | none => simp
    | some t =>
      have hlt : e'.val < 64 := e'.isLt
      by_cases ht : t' = t
      · subst ht
        dsimp only
        rw [Function.update_self, BitVec.getLsbD_and, BitVec.getLsbD_not, getLsbD_engineBit]
        simp [hlt, eq_comm]
      · simp [ht, Ne.symm ht]
  have hset (ctx : MdpContext) (engine : Engine) (t' : ℕ) (e' : EngineId) :
      (ctx.setEngine e engine).flagged t' e' = ctx.flagged t' e' := rfl
  unfold releaseEngine
  dsimp only
  constructor
  · intro e'
    split_ifs with hflag hcount <;> by_cases heq : e' = e <;>
      simp_all [setEngine, Engine.released]
  · intro t' e'
    by_cases hflag : engineFlag.getLsbD e
    · by_cases hcount : (ctx.engine e).userCount - 1 ≤ 0 <;> by_cases heq : e' = e <;>
        simp [hflag, hcount, hset, hflagged, heq]
    · simp [hflag]

theorem setThread_flagged {thread : MdpThread}
    (hflag : thread.engineFlag = (ctx.thread t).engineFlag) (t' : ℕ) (e : EngineId) :
    (ctx.setThread t thread).flagged t' e = ctx.flagged t' e := by
  unfold flagged setThread
  by_cases ht : t' = t
  · subst ht
    simp [hflag]
  · simp [ht]

/-- The books of the engines and the flags of the threads are the same. -/
structure SameBooks (ctx ctx' : MdpContext) : Prop where
  engine : ctx'.engine = ctx.engine
  flagged : ∀ t e, ctx'.flagged t e = ctx.flagged t e

theorem cmdqMdpFindFreeThread_sameBooks (cfg : MdpConfig) (ctx : MdpContext) (h : Handle) :
    SameBooks ctx (cmdqMdpFindFreeThread cfg ctx h).2 := by
  have hunused : SameBooks ctx (findUnusedThread cfg ctx h).2 := by
    unfold findUnusedThread
    split
    · exact ⟨rfl, setThread_flagged rfl⟩
    · split
      · exact ⟨rfl, setThread_flagged rfl⟩
      · split_ifs <;> exact ⟨rfl, fun _ _ => rfl⟩
  unfold cmdqMdpFindFreeThread
  split_ifs
  all_goals first
    | exact ⟨rfl, fun _ _ => rfl⟩
    | split <;> first | exact hunused | exact ⟨rfl, fun _ _ => rfl⟩

theorem Changes.congr {some : EngineId → Bool} {ctx'' : MdpContext} (h : Changes f g some ctx ctx')
    (hsame : SameBooks ctx' ctx'') : Changes f g some ctx ctx'' where
  engine e := by rw [hsame.engine, h.engine]
  flagged t e := by rw [hsame.flagged, h.flagged]

/-- A lock claims the engines of its task. -/
theorem cmdqMdpLockThread_claims (cfg : MdpConfig) (h : Handle) (t : ℕ) (ctx : MdpContext) :
    Claims t h.uses ctx (cmdqMdpLockThread cfg h t ctx) := by
  have hall := Changes.foldl h.uses (claimEngine_claims h.engineFlag t)
    (nodup_finRange cmdqMaxEngineCount) ctx
  simp only [mem_finRange, decide_true, Bool.true_and] at hall
  exact hall.congr ⟨rfl, setThread_flagged rfl⟩

/-- An unlock releases them. -/
theorem cmdqMdpUnlockThread_releases (h : Handle) (t : ℕ) (ctx : MdpContext) :
    Releases h.uses ctx (cmdqMdpUnlockThread h t ctx) := by
  have hall := Changes.foldl h.uses (releaseEngine_releases h.engineFlag)
    (nodup_finRange cmdqMaxEngineCount) ctx
  simp only [mem_finRange, decide_true, Bool.true_and] at hall
  unfold cmdqMdpUnlockThread
  dsimp only
  split <;> exact hall.congr ⟨rfl, setThread_flagged rfl⟩

/-- The books of an engine agree with the running tasks that use it: it counts them, has an owner
while there are any, is in the flags of its owner only, and they are on its owner's thread. -/
structure OwnedBy (cfg : MdpConfig) (engine : Engine) (flagged : ℕ → Bool)
    (users : List Handle) : Prop where
  count : engine.userCount = users.length
  owner : engine.currOwner = none ↔ users = []
  bound : ∀ t, engine.currOwner = some t → t < cfg.threadCount
  flag : ∀ t, flagged t = true ↔ engine.currOwner = some t
  holds : ∀ h ∈ users, h.thread = engine.currOwner

/-- The three places agree with the running tasks. -/
structure Owned (cfg : MdpConfig) (ctx : MdpContext) : Prop where
  engines : ∀ e, OwnedBy cfg (ctx.engine e) (ctx.flagged · e) (ctx.running.filter (·.uses e))
  nonSecure : ∀ h ∈ ctx.tasksWait, h.isSecure = false

section

variable {engine : Engine} {flagged : ℕ → Bool} {users users' : List Handle} {user : Handle}
  (hengine : OwnedBy cfg engine flagged users)
include hengine

/-- A claim adds a user to an engine that is free, or owned by the thread. -/
theorem OwnedBy.claimed (hown : ∀ t', engine.currOwner = some t' → t' = t)
    (hlt : t < cfg.threadCount) (huser : user.thread = some t) :
    OwnedBy cfg (engine.claimed t)
      (fun t' => flagged t' || decide (t' = t ∧ engine.userCount ≤ 0)) (users ++ [user]) := by
  have hcount := hengine.count
  cases users with
  | nil =>
    have hnone := hengine.owner.mpr rfl
    have hclaimed : engine.claimed t = ⟨1, some t⟩ := by simp [Engine.claimed, hcount]
    rw [hclaimed]
    refine ⟨rfl, by simp, fun t' ht' => some.inj ht' ▸ hlt, fun t' => ?_, by simp [huser]⟩
    simp [hengine.flag, hnone, hcount, @eq_comm _ t']
  | cons first rest =>
    have hpos : ¬engine.userCount ≤ 0 := by
      rw [hcount, length_cons]
      omega
    have howner : engine.currOwner = some t := by
      cases hold : engine.currOwner with
      | none => cases hengine.owner.mp hold
      | some t' => rw [hown t' hold]
    have hclaimed : engine.claimed t = ⟨engine.userCount + 1, some t⟩ := by
      simp [Engine.claimed, hpos, howner]
    rw [hclaimed]
    refine ⟨by simp [hcount], by simp, fun t' ht' => some.inj ht' ▸ hlt, fun t' => ?_,
      fun h hh => ?_⟩
    · simpa [hpos, howner] using hengine.flag t'
    · rcases mem_append.mp hh with hold | hnew
      · rw [hengine.holds h hold, howner]
      · rw [mem_singleton.mp hnew, huser]

theorem OwnedBy.perm (hperm : users.Perm users') : OwnedBy cfg engine flagged users' where
  count := hperm.length_eq ▸ hengine.count
  owner := hengine.owner.trans ⟨fun hnil => (hnil ▸ hperm).nil_eq.symm,
    fun hnil => (hnil ▸ hperm).eq_nil⟩
  bound := hengine.bound
  flag := hengine.flag
  holds h hh := hengine.holds h (hperm.mem_iff.mpr hh)

/-- A release takes a user off an engine, and the owner with the last one. -/
theorem OwnedBy.released (hperm : users.Perm (user :: users')) :
    OwnedBy cfg engine.released
      (fun t' => flagged t' && !decide (engine.userCount - 1 ≤ 0 ∧ engine.currOwner = some t'))
      users' := by
  have hcount : engine.userCount - 1 = users'.length := by
    rw [hengine.count, hperm.length_eq, length_cons]
    omega
  cases users' with
  | nil =>
    have hreleased : engine.released = ⟨0, none⟩ := by simp [Engine.released, hcount]
    rw [hreleased]
    refine ⟨rfl, by simp, nofun, fun t' => ?_, by simp⟩
    simp [hcount, hengine.flag]
  | cons first rest =>
    have hpos : ¬engine.userCount - 1 ≤ 0 := by
      rw [hcount, length_cons]
      omega
    have hreleased : engine.released = ⟨engine.userCount - 1, engine.currOwner⟩ := by
      simp only [Engine.released, if_neg hpos]
    rw [hreleased]
    refine ⟨hcount, ?_, hengine.bound, fun t' => ?_, fun h hh => ?_⟩
    · rw [hengine.owner]
      exact iff_of_false (fun hnil => by simp [hnil] at hperm) (cons_ne_nil _ _)
    · simpa [hpos] using hengine.flag t'
    · exact hengine.holds h (hperm.mem_iff.mpr (mem_cons_of_mem _ hh))

end

theorem lt_of_mem_drop_range {n k : ℕ} (h : t ∈ (range n).drop k) : t < n :=
  mem_range.mp (mem_of_mem_drop h)

theorem findUnusedThread_lt (hfound : (findUnusedThread cfg ctx h).1 = some t) :
    t < cfg.threadCount := by
  unfold findUnusedThread at hfound
  split at hfound
  · next hidle =>
    cases hfound
    exact lt_of_mem_drop_range (mem_of_find?_eq_some hidle)
  · split at hfound
    · next hcore =>
      cases hfound
      exact lt_of_mem_drop_range (mem_of_find?_eq_some hcore)
    · split_ifs at hfound
      exact lt_of_mem_drop_range (mem_filter.mp (mem_of_getLast? hfound)).1

/-- The thread found is the only owner of engines of the task. -/
theorem Owned.findFreeThread (hctx : Owned cfg ctx) (hsecure : h.isSecure = false)
    (hfound : (cmdqMdpFindFreeThread cfg ctx h).1 = some t) :
    (∀ t', ctx.OwnsFor h t' → t' = t) ∧ t < cfg.threadCount := by
  unfold cmdqMdpFindFreeThread at hfound
  simp only [hsecure, Bool.and_false, Bool.false_eq_true, if_false] at hfound
  split_ifs at hfound
  cases hconflict : cmdqMdpCheckEngineConflict ctx h with
  | mk conflict thread =>
    rw [hconflict] at hfound
    cases conflict with
    | true => cases hfound
    | false =>
      have howner := cmdqMdpCheckEngineConflict_owner hconflict
      cases thread with
      | none =>
        refine ⟨fun t' hown => ?_, findUnusedThread_lt hfound⟩
        exact absurd ((howner t').mpr hown) (by simp)
      | some thread =>
        obtain rfl : thread = t := some.inj hfound
        obtain ⟨e, -, he⟩ := (howner thread).mp rfl
        exact ⟨fun t' hown => (some.inj ((howner t').mpr hown)).symm,
          (hctx.engines e).bound thread he⟩

/-- A dispatch keeps the ownership right. -/
theorem Owned.dispatch (hctx : Owned cfg ctx) (hown : ∀ t', ctx.OwnsFor h t' → t' = t)
    (hlt : t < cfg.threadCount) (hclaims : Claims t h.uses ctx ctx')
    (hrunning : ctx'.running = ctx.running ++ [{ h with thread := some t }])
    (hwait : ∀ h' ∈ ctx'.tasksWait, h'.isSecure = false) : Owned cfg ctx' := by
  refine ⟨fun e => ?_, hwait⟩
  simp only [hclaims.engine, hclaims.flagged, hrunning, filter_append]
  by_cases huses : h.uses e
  · have hnew : [{ h with thread := some t }].filter (·.uses e) = [{ h with thread := some t }] :=
      filter_cons_of_pos huses
    simp only [if_pos huses, hnew]
    exact (hctx.engines e).claimed (fun t' hold => hown t' ⟨e, huses, hold⟩) hlt rfl
  · have hnew : [{ h with thread := some t }].filter (·.uses e) = [] :=
      filter_cons_of_neg huses
    simp only [if_neg huses, hnew, append_nil]
    exact hctx.engines e

theorem cons_eraseIdx_perm {tasks : List Handle} {i : ℕ} (hi : tasks[i]? = some h) :
    h :: tasks.eraseIdx i ~ tasks := by
  obtain ⟨hlt, rfl⟩ := List.getElem?_eq_some_iff.mp hi
  exact getElem_cons_eraseIdx_perm hlt

theorem Owned.finish (hctx : Owned cfg ctx) {i : ℕ} (hi : ctx.running[i]? = some h)
    (hreleases : Releases h.uses ctx ctx') (hrunning : ctx'.running = ctx.running.eraseIdx i)
    (hwait : ctx'.tasksWait = ctx.tasksWait) : Owned cfg ctx' := by
  have hperm := (cons_eraseIdx_perm hi).symm
  refine ⟨fun e => ?_, hwait ▸ hctx.nonSecure⟩
  have husers := hperm.filter fun h => h.uses e
  simp only [hreleases.engine, hreleases.flagged, hrunning]
  by_cases huses : h.uses e
  · rw [filter_cons, if_pos huses] at husers
    simp only [if_pos huses]
    exact (hctx.engines e).released husers
  · rw [filter_cons, if_neg huses] at husers
    simp only [if_neg huses]
    exact (hctx.engines e).perm husers

theorem insertByPriority_perm (entries : List Handle) :
    insertByPriority h entries ~ h :: entries := by
  induction entries with
  | nil => exact .refl _
  | cons entry entries ih =>
    unfold insertByPriority
    split_ifs
    · exact .refl _
    · exact (ih.cons entry).trans (.swap ..)

theorem mem_insertByPriority {h' : Handle} {entries : List Handle} :
    h' ∈ insertByPriority h entries ↔ h' = h ∨ h' ∈ entries :=
  (insertByPriority_perm entries).mem_iff.trans mem_cons

/-- The submitted tasks are not secure. -/
def NonSecure (_ : MdpContext) : MdpEvent → Prop
  | .submit _ _ _ isSecure _ => isSecure = false
  | _ => True

instance (ctx : MdpContext) (e : MdpEvent) : Decidable (NonSecure ctx e) := by
  cases e <;> unfold NonSecure <;> infer_instance

theorem Owned.congr (hctx : Owned cfg ctx) (hbooks : SameBooks ctx ctx')
    (hrunning : ctx'.running = ctx.running) (hwait : ∀ h ∈ ctx'.tasksWait, h.isSecure = false) :
    Owned cfg ctx' := by
  refine ⟨fun e => ?_, hwait⟩
  simp only [hbooks.engine, hbooks.flagged, hrunning]
  exact hctx.engines e

theorem Owned.turn (hctx : Owned cfg ctx) : Owned cfg (consumeTurn cfg ctx) := by
  rcases consumeTurn_cases cfg ctx with hsame | hend |
    ⟨secureRun, i, h, -, hwait, -, ⟨-, hskip⟩ | ⟨t, hfound, hdispatch⟩⟩
  · rw [hsame]
    exact hctx
  · rw [hend]
    exact hctx.congr ⟨rfl, fun _ _ => rfl⟩ rfl hctx.nonSecure
  · have hfind := cmdqMdpFindFreeThread_sameBooks cfg ctx h
    have htasks := cmdqMdpFindFreeThread_sameTasks cfg ctx h
    rw [hskip]
    refine hctx.congr { hfind with } htasks.running ?_
    intro h' hh'
    exact hctx.nonSecure h' (htasks.tasksWait ▸ hh')
  · have hsecure := hctx.nonSecure h (mem_of_getElem? hwait)
    obtain ⟨hown, hlt⟩ := hctx.findFreeThread hsecure hfound
    have hfind := cmdqMdpFindFreeThread_sameBooks cfg ctx h
    obtain ⟨hengine, hflags⟩ :=
      cmdqMdpLockThread_claims cfg h t (cmdqMdpFindFreeThread cfg ctx h).2
    simp only [hfind.engine, hfind.flagged] at hengine hflags
    rw [hdispatch]
    refine hctx.dispatch hown hlt ⟨hengine, hflags⟩ rfl fun h' hh' => ?_
    exact hctx.nonSecure h' (mem_of_mem_eraseIdx hh')

/-- Every step without secure tasks keeps the ownership right. -/
theorem Owned.step (hctx : Owned cfg ctx) {e : MdpEvent} (he : NonSecure ctx e) :
    Owned cfg (mdpStep cfg ctx e) := by
  cases e with
  | submit engineFlag priority scenario isSecure secData =>
    unfold mdpStep
    cases ctx.cursor with
    | some cursor => exact hctx
    | none =>
      refine hctx.congr ⟨rfl, fun _ _ => rfl⟩ rfl fun h hh => ?_
      rcases mem_insertByPriority.mp hh with rfl | hold
      · exact he
      · exact hctx.nonSecure h hold
  | consume =>
    unfold mdpStep
    dsimp only
    split
    · exact hctx.congr ⟨rfl, fun _ _ => rfl⟩ rfl hctx.nonSecure
    · exact hctx
  | turn => exact hctx.turn
  | done i =>
    unfold mdpStep
    dsimp only
    cases hi : ctx.running[i]? with
    | none => exact hctx
    | some h =>
      dsimp only
      cases h.thread with
      | none => exact hctx
      | some t =>
        have htasks := cmdqMdpUnlockThread_sameTasks h t ctx
        have hreleases := cmdqMdpUnlockThread_releases h t ctx
        exact hctx.finish hi (hreleases.congr ⟨rfl, fun _ _ => rfl⟩) (by rw [← htasks.running])
          htasks.tasksWait
  | others core => exact hctx.congr ⟨rfl, fun _ _ => rfl⟩ rfl hctx.nonSecure

theorem Owned.init (cfg : MdpConfig) (core : ℕ → CoreThread) :
    Owned cfg (MdpContext.init cfg core) := by
  refine ⟨fun e => ?_, by simp [MdpContext.init]⟩
  constructor <;> simp [MdpContext.init, MdpContext.flagged]

/-- In every state that is reached by tasks which are not secure, each engine counts the running
tasks that use it, it has one of the threads as its owner exactly while there are any, the
flags of a thread are the engines it owns, and running tasks that share an engine are on the
same thread. -/
theorem engines_owned_of_reaches (cfg : MdpConfig) (core : ℕ → CoreThread) {ctx : MdpContext}
    (hreach : Reaches (mdpStep cfg) NonSecure (MdpContext.init cfg core) ctx) :
    (∀ e, (ctx.engine e).userCount = (ctx.running.countP (·.uses e) : ℤ)) ∧
    (∀ e, (∃ t < cfg.threadCount, (ctx.engine e).currOwner = some t) ↔
      0 < (ctx.engine e).userCount) ∧
    (∀ t (e : EngineId), (ctx.thread t).engineFlag.getLsbD e = true ↔
      (ctx.engine e).currOwner = some t) ∧
    ∀ h ∈ ctx.running, ∀ h' ∈ ctx.running, h.Shares h' →
      h.thread ≠ none ∧ h.thread = h'.thread := by
  have hctx : Owned cfg ctx :=
    hreach.invariant (Owned.init cfg core) fun _ _ hinv hok => hinv.step hok
  refine ⟨fun e => ?_, fun e => ?_, fun t e => (hctx.engines e).flag t, ?_⟩
  · rw [(hctx.engines e).count, countP_eq_length_filter]
  · rw [(hctx.engines e).count, Int.natCast_pos, length_pos_iff, ne_eq,
      ← (hctx.engines e).owner]
    constructor
    · rintro ⟨t, -, ht⟩
      simp [ht]
    · intro hne
      obtain ⟨t, ht⟩ := ne_none_iff_exists'.mp hne
      exact ⟨t, (hctx.engines e).bound t ht, ht⟩
  · rintro h hh h' hh' ⟨e, huses, huses'⟩
    have hholds : ∀ h ∈ ctx.running, h.uses e → h.thread = (ctx.engine e).currOwner :=
      fun h hh huses => (hctx.engines e).holds h (mem_filter.mpr ⟨hh, huses⟩)
    rw [hholds h hh huses, hholds h' hh' huses', ne_eq, (hctx.engines e).owner,
      filter_eq_nil_iff]
    exact ⟨fun hnone => hnone h hh huses, rfl⟩

/-- Two tasks that share engine 1 are dispatched, and the first one finishes. -/
def sharedEngineRun : List MdpEvent :=
  [.submit 0b011 0 0 false false, .submit 0b110 0 0 false false, .consume, .turn, .turn, .turn,
    .done 0]

/-- Twenty-four threads and no secure path. -/
def plainConfig : MdpConfig := { securePathSupport := false, threadCount := 24 }

/-- No GCE thread is in use. -/
def unusedCore (_ : ℕ) : CoreThread := { used := false, acquire := 0, scenario := 0 }

/-- After the run the second task is left, with its two engines on the thread of the first. -/
theorem engines_owned_sharedEngineRun :
    (((sharedEngineRun.foldl (mdpStep plainConfig)
      (MdpContext.init plainConfig unusedCore)).engine ⟨1, by decide⟩).currOwner = some 8) ∧
    ∀ e, ((sharedEngineRun.foldl (mdpStep plainConfig)
      (MdpContext.init plainConfig unusedCore)).engine e).userCount =
        ((sharedEngineRun.foldl (mdpStep plainConfig)
          (MdpContext.init plainConfig unusedCore)).running.countP (·.uses e) : ℤ) := by
  constructor
  · decide +kernel
  · exact (engines_owned_of_reaches plainConfig unusedCore
      (Reaches.start.foldl (by decide +kernel))).1

end Mt8169.Mdp
