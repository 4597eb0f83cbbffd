import Mt8169.Svs.Phase
import Mathlib.Data.List.Count

/-!
# The first initialisation of the banks

`svs_init01` switches on the power of its banks one after the other, fixes their operating points,
and waits for the interrupts of all. A failure goes to a loop that undoes this for all banks with
the mode INIT01, also for those not switched on, and not for those that have lost the mode by an
error interrupt.
-/

namespace Mt8169.Svs

open List

/-- An operating point of a device, by its frequency. -/
abbrev Opp := ℕ × BitVec 32

/-- What `svs_init01` changes: the result, the modes and flags of the banks, the enable counts of
the regulators, the usage counts and the disable depths of the runtime power management of the
devices, and the operating points that are available. The last two fields record the banks for
which `pm_runtime_get_sync` has been called, and the operating points that have been disabled. -/
structure Init01State where
  ret : ℤ
  modeSupport : ℕ → BitVec 32
  enablePmRuntimeEver : ℕ → Bool
  enableCount : ℕ → ℕ
  usageCount : ℕ → ℤ
  disableDepth : ℕ → ℕ
  available : Opp → Bool
  synced : List ℕ
  disabled : List Opp

/-- The results of the calls of `svs_init01`, for each bank: `kzalloc`, `regulator_enable`,
`pm_runtime_get_sync`, `dev_pm_opp_adjust_voltage` for each operating point,
`regulator_get_voltage` and `wait_for_completion_timeout`, with the banks that have an error
interrupt during this wait. -/
structure Init01Answers where
  kzalloc : Bool
  regulatorEnable : ℕ → ℤ
  getSync : ℕ → ℤ
  adjust : ℕ → ℕ → ℤ
  buckVolt : ℕ → BitVec 32
  completed : ℕ → Bool
  errors : ℕ → List ℕ

/-- The bank supports the mode INIT01. -/
def Init01State.HasInit01 (s : Init01State) (idx : ℕ) : Prop := s.modeSupport idx &&& 0x2 ≠ 0
  deriving Decidable

namespace SvsPlatform

variable (p : SvsPlatform) (a : Init01Answers)

variable (idx : ℕ) (s : Init01State)

/-- The bank is one that `svs_init01` has to switch on. -/
def Needs (idx : ℕ) : Prop := s.HasInit01 idx ∧ (p.banks idx).pdReq = true
  deriving Decidable

/-- The operating points of a bank. -/
def opps : List Opp :=
  (range (p.banks idx).oppCount).map fun i => ((p.banks idx).oppDev, (p.banks idx).oppFreqs i)

/-- The power of a bank. An error stands for the jump to the end of the function. -/
def powerOn : Except Init01State Init01State :=
  let b := p.banks idx
  if a.regulatorEnable idx ≠ 0 then .error { s with ret := a.regulatorEnable idx }
  else
    let s := { s with
      enableCount := Function.update s.enableCount b.buck (s.enableCount b.buck + 1) }
    let s :=
      if s.disableDepth b.pdDev ≠ 0 then
        { s with
          disableDepth := Function.update s.disableDepth b.pdDev (s.disableDepth b.pdDev - 1)
          enablePmRuntimeEver := Function.update s.enablePmRuntimeEver idx true }
      else s
    let s := { s with
      usageCount := Function.update s.usageCount b.pdDev (s.usageCount b.pdDev + 1)
      ret := a.getSync idx
      synced := s.synced ++ [idx] }
    if a.getSync idx < 0 then .error s else .ok s

/-- The loop over the operating points of a bank: the first one that runs at the boot voltage gets
this voltage, and all others are disabled. -/
def fixOpps (idx : ℕ) : List ℕ → Bool → Init01State → Except Init01State Init01State
  | [], _, s => .ok s
  | i :: is, searchDone, s =>
    let b := p.banks idx
    if !searchDone &&
        b.oppVolts i ≤ svsBankVoltToOppVolt b.vboot b.voltStep b.voltBase then
      if a.adjust idx i ≠ 0 then .error { s with ret := a.adjust idx i }
      else fixOpps idx is true { s with ret := 0 }
    else
      fixOpps idx is searchDone { s with
        available := Function.update s.available (b.oppDev, b.oppFreqs i) false
        disabled := s.disabled ++ [(b.oppDev, b.oppFreqs i)] }

/-- One bank of the first loop. -/
def acquireBank : Except Init01State Init01State :=
  if s.HasInit01 idx then do
    let s ← if (p.banks idx).pdReq then p.powerOn a idx s else .ok s
    p.fixOpps a idx (range (p.banks idx).oppCount) false s
  else .ok s

/-- The first loop. -/
def acquire : List ℕ → Init01State → Except Init01State Init01State
  | [], s => .ok s
  | idx :: is, s => do
    let s ← p.acquireBank a idx s
    acquire is s

/-- One bank of the second loop. An error interrupt takes the mode of its bank, and
`svs_error_isr_handler` does not complete the wait. -/
def awaitBank : Except Init01State Init01State :=
  let b := p.banks idx
  if s.HasInit01 idx then
    if a.buckVolt idx ≠ svsBankVoltToOppVolt b.vboot b.voltStep b.voltBase then
      .error { s with ret := -ePerm }
    else
      let s := { s with
        modeSupport := fun k => if k ∈ a.errors idx then 0 else s.modeSupport k }
      if a.completed idx then .ok s else .error { s with ret := -eBusy }
  else .ok s

/-- The second loop. -/
def await : List ℕ → Init01State → Except Init01State Init01State
  | [], s => .ok s
  | idx :: is, s => do
    let s ← p.awaitBank a idx s
    await is s

/-- One bank of the loop at the end. An unbalanced `regulator_disable` fails and leaves the count
at zero. -/
def finishBank : Init01State :=
  let b := p.banks idx
  if s.HasInit01 idx then
    let s := { s with available := fun o => if o ∈ p.opps idx then true else s.available o }
    if b.pdReq then
      let s := { s with
        usageCount := Function.update s.usageCount b.pdDev (s.usageCount b.pdDev - 1) }
      let s :=
        if s.enablePmRuntimeEver idx then
          { s with
            disableDepth := Function.update s.disableDepth b.pdDev (s.disableDepth b.pdDev + 1)
            enablePmRuntimeEver := Function.update s.enablePmRuntimeEver idx false }
        else s
      { s with enableCount := Function.update s.enableCount b.buck (s.enableCount b.buck - 1) }
    else s
  else s

/-- The loop at the end. -/
def finish (is : List ℕ) (s : Init01State) : Init01State :=
  is.foldl (fun s idx => p.finishBank idx s) s

/-- The state in which a loop ends, with or without a jump. -/
def stateOf : Except Init01State Init01State → Init01State
  | .ok s => s
  | .error s => s

/-- `svs_init01`. The records start empty. -/
def svsInit01 : Init01State :=
  let s := { s with ret := 0, synced := [], disabled := [] }
  if a.kzalloc then
    let is := range p.bankNum
    p.finish is (stateOf do
      let s ← p.acquire a is s
      p.await a is s)
  else { s with ret := -eNoMem }

/-- What the loops have done to a state so far. The banks with a call of `pm_runtime_get_sync` are
switched on, and then the banks of a list are switched off. The flags are the ones before the loop
at the end. -/
structure Counted (p : SvsPlatform) (s t : Init01State) (flags : ℕ → Bool) (off : List ℕ) :
    Prop where
  lost : ∀ idx, t.modeSupport idx = s.modeSupport idx ∨ t.modeSupport idx = 0
  enable : ∀ k, t.enableCount k = s.enableCount k +
    t.synced.countP (fun idx => (p.banks idx).buck = k) -
      (off.filter fun idx => (p.banks idx).pdReq).countP fun idx => (p.banks idx).buck = k
  usage : ∀ d, t.usageCount d = s.usageCount d +
    t.synced.countP (fun idx => (p.banks idx).pdDev = d) -
      (off.filter fun idx => (p.banks idx).pdReq).countP fun idx => (p.banks idx).pdDev = d
  depth : ∀ d, t.disableDepth d +
    t.synced.countP (fun idx => flags idx && decide ((p.banks idx).pdDev = d)) =
      s.disableDepth d + (off.filter fun idx => (p.banks idx).pdReq).countP
        fun idx => flags idx && decide ((p.banks idx).pdDev = d)
  clear : ∀ idx < p.bankNum, idx ∉ t.synced → flags idx = false
  ever : ∀ idx ∉ off, t.enablePmRuntimeEver idx = flags idx
  opps : ∀ o ∈ t.disabled, t.available o = true ↔ ∃ idx ∈ off, o ∈ p.opps idx

section Loops

variable {p} {a} {s t : Init01State} {is on off : List ℕ} {flags : ℕ → Bool} {idx : ℕ}

theorem hasInit01_congr (hmode : t.modeSupport = s.modeSupport) (idx : ℕ) :
    t.HasInit01 idx ↔ s.HasInit01 idx := by
  unfold Init01State.HasInit01
  rw [hmode]

theorem needs_congr (hmode : t.modeSupport = s.modeSupport) (idx : ℕ) :
    p.Needs t idx ↔ p.Needs s idx :=
  and_congr_left' (hasInit01_congr hmode idx)

/-- A part of the first loop switches on the banks of a list, or fails before its end. -/
def Leads (p : SvsPlatform) (s : Init01State) (on : List ℕ) :
    Except Init01State Init01State → Prop
  | .ok t => Counted p s t t.enablePmRuntimeEver [] ∧ t.modeSupport = s.modeSupport ∧
      t.synced = on
  | .error t => Counted p s t t.enablePmRuntimeEver [] ∧ t.modeSupport = s.modeSupport ∧
      t.synced <+: on

/-- The rule for two parts of the first loop in a row. -/
theorem Leads.bind {x : Except Init01State Init01State}
    {f : Init01State → Except Init01State Init01State} {on' : List ℕ} (hx : Leads p s on x)
    (hf : ∀ t, Leads p s on (.ok t) → Leads p s (on ++ on') (f t)) :
    Leads p s (on ++ on') (x >>= f) := by
  cases x with
  | error t => exact ⟨hx.1, hx.2.1, hx.2.2.trans (prefix_append on on')⟩
  | ok t => exact hf t hx

/-- Switching a bank on adds it to the banks counted. -/
theorem Leads.powerOn (h : Leads p s on (.ok t)) (hidx : idx < p.bankNum) (hnew : idx ∉ on) :
    Leads p s (on ++ [idx]) (p.powerOn a idx t) := by
  obtain ⟨hcounted, hmode, rfl⟩ := h
  obtain ⟨hlost, henable, husage, hdepth, hclear, -, hopps⟩ := id hcounted
  simp only [filter_nil, countP_nil] at henable husage hdepth
  have hkept (d : ℕ) : t.synced.countP (fun k =>
      Function.update t.enablePmRuntimeEver idx true k && decide ((p.banks k).pdDev = d)) =
      t.synced.countP fun k => t.enablePmRuntimeEver k && decide ((p.banks k).pdDev = d) :=
    countP_congr fun k hk => by rw [Function.update_of_ne (ne_of_mem_of_not_mem hk hnew)]
  have hleads (t' : Init01State) (ht' : Leads p s (t.synced ++ [idx]) (.ok t')) (c : Prop)
      [Decidable c] : Leads p s (t.synced ++ [idx]) (if c then .error t' else .ok t') := by
    split
    · exact ⟨ht'.1, ht'.2.1, ht'.2.2 ▸ prefix_rfl⟩
    · exact ht'
  unfold SvsPlatform.powerOn
  dsimp only
  split
  · exact ⟨{ hcounted with }, hmode, prefix_append _ _⟩
  · apply hleads
    split
    all_goals
      refine ⟨⟨hlost, ?_, ?_, ?_, ?_, fun _ _ => rfl, hopps⟩, hmode, rfl⟩
      all_goals
        intros
        simp only [countP_append, countP_singleton, filter_nil, countP_nil, hkept]
        grind [Function.update_apply]

theorem Leads.fixOpps {searchDone : Bool} (h : Leads p s on (.ok t)) :
    Leads p s on (p.fixOpps a idx is searchDone t) := by
  induction is generalizing t searchDone with
  | nil => exact h
  | cons i is ih =>
    obtain ⟨hcounted, hmode, hon⟩ := h
    unfold SvsPlatform.fixOpps
    dsimp only
    split
    · split
      · exact ⟨{ hcounted with }, hmode, hon ▸ prefix_rfl⟩
      · exact ih ⟨{ hcounted with }, hmode, hon⟩
    · refine ih ⟨{ hcounted with opps := fun o ho => ?_ }, hmode, hon⟩
      have hold := hcounted.opps o
      grind

theorem Leads.acquireBank (h : Leads p s on (.ok t)) (hidx : idx < p.bankNum) (hnew : idx ∉ on) :
    Leads p s (on ++ [idx].filter fun idx => p.Needs s idx) (p.acquireBank a idx t) := by
  have hneeds : p.Needs s idx ↔ t.HasInit01 idx ∧ (p.banks idx).pdReq = true :=
    (needs_congr h.2.1 idx).symm
  have hfilter : ([idx].filter fun idx => p.Needs s idx) =
      if t.HasInit01 idx ∧ (p.banks idx).pdReq = true then [idx] else [] := by
    simp [filter_cons, hneeds]
  unfold SvsPlatform.acquireBank
  rw [hfilter]
  by_cases hmode : t.HasInit01 idx
  · simp only [hmode, true_and, if_true]
    cases (p.banks idx).pdReq with
    | false =>
      change Leads p s (on ++ []) (p.fixOpps a idx _ false t)
      rw [append_nil]
      exact h.fixOpps
    | true =>
      change Leads p s (on ++ [idx]) (p.powerOn a idx t >>= p.fixOpps a idx _ false)
      rw [← append_nil (on ++ [idx])]
      refine (h.powerOn hidx hnew).bind fun t ht => ?_
      rw [append_nil]
      exact ht.fixOpps
  · simpa [hmode] using h

/-- The first loop counts the banks that need INIT01. -/
theorem Leads.acquire (h : Leads p s on (.ok t)) (hlt : ∀ idx ∈ is, idx < p.bankNum)
    (hnodup : is.Nodup) (hnew : ∀ idx ∈ is, idx ∉ on) :
    Leads p s (on ++ is.filter fun idx => p.Needs s idx) (p.acquire a is t) := by
  induction is generalizing t on with
  | nil =>
    rw [filter_nil, append_nil]
    exact h
  | cons idx is ih =>
    obtain ⟨hlt, hlt'⟩ := forall_mem_cons.mp hlt
    obtain ⟨hnew, hnew'⟩ := forall_mem_cons.mp hnew
    obtain ⟨hnot, hnodup⟩ := nodup_cons.mp hnodup
    rw [← singleton_append, filter_append, ← append_assoc]
    refine (h.acquireBank hlt hnew).bind fun t ht => ih ht hlt' hnodup ?_
    grind

/-- What every bank of the second loop keeps is kept by the loop. -/
theorem await_induction {motive : Init01State → Prop}
    (hbank : ∀ idx t, motive t → motive (stateOf (p.awaitBank a idx t))) (is : List ℕ)
    (h : motive t) : motive (stateOf (p.await a is t)) := by
  induction is generalizing t with
  | nil => exact h
  | cons idx is ih =>
    have hnext := hbank idx t h
    unfold SvsPlatform.await
    cases hstep : p.awaitBank a idx t with
    | error t' =>
      rw [hstep] at hnext
      exact hnext
    | ok t' =>
      rw [hstep] at hnext
      exact ih hnext

/-- The second loop changes no count. -/
theorem Counted.await (is : List ℕ) (h : Counted p s t flags []) :
    Counted p s (stateOf (p.await a is t)) flags [] := by
  refine await_induction (motive := (Counted p s · flags [])) (fun idx t h => ?_) is h
  unfold awaitBank
  dsimp only
  split
  · split
    · exact { h with }
    · have hlost (k : ℕ) : (if k ∈ a.errors idx then 0 else t.modeSupport k) =
          s.modeSupport k ∨ (if k ∈ a.errors idx then 0 else t.modeSupport k) = 0 := by
        split
        · exact Or.inr rfl
        · exact h.lost k
      split <;> exact { h with lost := hlost, }
  · exact h

/-- The second loop keeps the records. -/
theorem await_kept (is : List ℕ) (t : Init01State) :
    (stateOf (p.await a is t)).synced = t.synced ∧
      (stateOf (p.await a is t)).disabled = t.disabled := by
  refine await_induction (motive := fun t' => t'.synced = t.synced ∧ t'.disabled = t.disabled)
    (fun idx t' h => ?_) is ⟨rfl, rfl⟩
  unfold awaitBank
  dsimp only
  split
  · split
    · exact h
    · split <;> exact h
  · exact h

/-- The loop at the end keeps the modes and the records. -/
theorem finish_kept (is : List ℕ) (t : Init01State) :
    (p.finish is t).modeSupport = t.modeSupport ∧ (p.finish is t).synced = t.synced ∧
      (p.finish is t).disabled = t.disabled := by
  have hbank (idx : ℕ) (t : Init01State) : (p.finishBank idx t).modeSupport = t.modeSupport ∧
      (p.finishBank idx t).synced = t.synced ∧ (p.finishBank idx t).disabled = t.disabled := by
    unfold SvsPlatform.finishBank
    dsimp only
    split
    · split
      · split <;> exact ⟨rfl, rfl, rfl⟩
      · exact ⟨rfl, rfl, rfl⟩
    · exact ⟨rfl, rfl, rfl⟩
  induction is generalizing t with
  | nil => exact ⟨rfl, rfl, rfl⟩
  | cons idx is ih =>
    obtain ⟨hmode, hsynced, hdisabled⟩ := hbank idx t
    rw [← hmode, ← hsynced, ← hdisabled]
    exact ih (p.finishBank idx t)

theorem Counted.finishBank (h : Counted p s t flags off) (hnew : idx ∉ off) :
    Counted p s (p.finishBank idx t) flags (off ++ [idx].filter fun idx => t.HasInit01 idx) := by
  unfold SvsPlatform.finishBank
  dsimp only
  by_cases hmode : t.HasInit01 idx
  · obtain ⟨hlost, henable, husage, hdepth, hclear, hever, hopps⟩ := h
    rw [if_pos hmode, filter_cons_of_pos (by simpa using hmode), filter_nil]
    cases hreq : (p.banks idx).pdReq with
    | false =>
      refine ⟨hlost, ?_, ?_, ?_, hclear, ?_, ?_⟩
      all_goals grind
    | true =>
      have hcount (q : ℕ → Bool) :
          ((off ++ [idx]).filter fun idx => (p.banks idx).pdReq).countP q =
            (off.filter fun idx => (p.banks idx).pdReq).countP q + if q idx then 1 else 0 := by
        grind
      have husage' (d : ℕ) :
          Function.update t.usageCount (p.banks idx).pdDev (t.usageCount (p.banks idx).pdDev - 1)
            d = s.usageCount d + t.synced.countP (fun idx => (p.banks idx).pdDev = d) -
              ((off ++ [idx]).filter fun idx => (p.banks idx).pdReq).countP
                fun idx => (p.banks idx).pdDev = d := by
        rw [hcount, Function.update_apply]
        grind
      cases hflag : t.enablePmRuntimeEver idx with
      | false | true =>
        refine ⟨hlost, ?_, husage', ?_, hclear, ?_, ?_⟩
        all_goals
          simp only [hcount]
          grind [Function.update_apply]
  · rw [if_neg hmode, filter_cons_of_neg (by simpa using hmode), filter_nil, append_nil]
    exact h

/-- The last loop counts back the banks still in INIT01. -/
theorem Counted.finish (h : Counted p s t flags off) (hnodup : is.Nodup)
    (hnew : ∀ idx ∈ is, idx ∉ off) :
    Counted p s (p.finish is t) flags (off ++ is.filter fun idx => t.HasInit01 idx) := by
  induction is generalizing t off with
  | nil =>
    rw [filter_nil, append_nil]
    exact h
  | cons idx is ih =>
    obtain ⟨hnew, hnew'⟩ := forall_mem_cons.mp hnew
    obtain ⟨hnot, hnodup⟩ := nodup_cons.mp hnodup
    have hmode : (p.finishBank idx t).modeSupport = t.modeSupport := (finish_kept [idx] t).1
    have hrest := ih (h.finishBank hnew) hnodup (by grind)
    simp only [hasInit01_congr hmode, append_assoc, ← filter_append, singleton_append] at hrest
    exact hrest

end Loops

/-- On return, the counts of all banks are the ones before the call, the runtime power management
of their devices is enabled if it was, and the operating points that the call disabled are
available. -/
structure Balanced (p : SvsPlatform) (s s' : Init01State) : Prop where
  regulator : ∀ idx < p.bankNum,
    s'.enableCount (p.banks idx).buck = s.enableCount (p.banks idx).buck
  usage : ∀ idx < p.bankNum, s'.usageCount (p.banks idx).pdDev = s.usageCount (p.banks idx).pdDev
  runtime : ∀ idx < p.bankNum,
    s'.disableDepth (p.banks idx).pdDev = 0 ↔ s.disableDepth (p.banks idx).pdDev = 0
  opps : ∀ o ∈ s'.disabled, s'.available o = true

/-- The call has switched on all banks that need it, none of them has lost the mode at its end, and
every disabled operating point is one of a bank that has the mode. -/
structure KeptAtEnd (p : SvsPlatform) (s s' : Init01State) : Prop where
  synced : ∀ idx < p.bankNum, p.Needs s idx → idx ∈ s'.synced
  kept : ∀ idx < p.bankNum, p.Needs s idx → s'.HasInit01 idx
  opps : ∀ o ∈ s'.disabled, ∃ idx < p.bankNum, s'.HasInit01 idx ∧ o ∈ p.opps idx

section Balance

variable {p} {a} {s : Init01State}

theorem countP_lt_countP {α : Type*} {q r : α → Bool} {l : List α} (hsub : ∀ x, q x → r x) {x : α}
    (hx : x ∈ l) (hr : r x = true) (hq : q x = false) : l.countP q < l.countP r := by
  obtain ⟨before, after, rfl⟩ := append_of_mem hx
  have hbefore := countP_mono_left (l := before) fun x _ => hsub x
  have hafter := countP_mono_left (l := after) fun x _ => hsub x
  simp only [countP_append, countP_cons, hr, hq, if_true]
  grind

theorem mem_of_countP_eq {on l : List ℕ} (hinitial : on <+: l) {idx : ℕ} (hidx : idx ∈ l)
    (hcount : on.countP (fun k => (p.banks k).pdDev = (p.banks idx).pdDev) =
      l.countP fun k => (p.banks k).pdDev = (p.banks idx).pdDev) : idx ∈ on := by
  obtain ⟨rest, rfl⟩ := hinitial
  rcases mem_append.mp hidx with hon | hrest
  · exact hon
  · have hpos : 0 < rest.countP fun k => (p.banks k).pdDev = (p.banks idx).pdDev :=
      countP_pos_iff.mpr ⟨idx, hrest, by simp⟩
    rw [countP_append] at hcount
    omega

/-- The banks of a platform that need to be switched on, or off. -/
def needing (p : SvsPlatform) (s : Init01State) : List ℕ :=
  (range p.bankNum).filter fun idx => p.Needs s idx

theorem mem_needing {idx : ℕ} : idx ∈ p.needing s ↔ idx < p.bankNum ∧ p.Needs s idx := by
  simp [needing]

theorem filter_pdReq :
    (((range p.bankNum).filter fun idx => s.HasInit01 idx).filter fun idx => (p.banks idx).pdReq) =
      p.needing s := by
  rw [filter_filter]
  refine filter_congr fun idx _ => ?_
  rw [Bool.eq_iff_iff]
  simp only [Bool.and_eq_true, decide_eq_true_eq]
  exact and_comm

/-- What the three loops do together. The first one goes through all banks, or no bank has lost the
mode. -/
structure Ended (p : SvsPlatform) (s f : Init01State) (flags : ℕ → Bool) : Prop where
  counted : Counted p s f flags ((range p.bankNum).filter fun idx => f.HasInit01 idx)
  reached : f.synced <+: p.needing s
  all : f.modeSupport = s.modeSupport ∨ f.synced = p.needing s

/-- What holds at the end of every call. -/
theorem ended_svsInit01 (hkzalloc : a.kzalloc = true)
    (hclear : ∀ idx < p.bankNum, s.enablePmRuntimeEver idx = false) :
    ∃ flags, Ended p s (p.svsInit01 a s) flags := by
  have hinit : Leads p s [] (.ok { s with ret := 0, synced := [], disabled := [] }) :=
    ⟨⟨fun _ => Or.inl rfl, by simp, by simp, by simp, fun idx hidx _ => hclear idx hidx,
      fun _ _ => rfl, by simp⟩, rfl, rfl⟩
  have hnodup : (range p.bankNum).Nodup := nodup_range
  have hacquire := hinit.acquire (a := a) (by simp) hnodup (by simp)
  unfold svsInit01
  rw [if_pos hkzalloc]
  dsimp only
  have hfinish {t : Init01State} {flags : ℕ → Bool} (h : Counted p s t flags [])
      (hreached : t.synced <+: p.needing s)
      (hall : t.modeSupport = s.modeSupport ∨ t.synced = p.needing s) :
      ∃ flags, Ended p s (p.finish (range p.bankNum) t) flags := by
    have hcounted := h.finish hnodup (by simp)
    obtain ⟨hmode, hsynced, -⟩ := p.finish_kept (range p.bankNum) t
    simp only [← hasInit01_congr hmode] at hcounted
    rw [← hsynced] at hreached hall
    rw [← hmode] at hall
    exact ⟨flags, hcounted, hreached, hall⟩
  cases hresult : p.acquire a (range p.bankNum)
      { s with ret := 0, synced := [], disabled := [] } with
  | error t =>
    rw [hresult] at hacquire
    exact hfinish hacquire.1 hacquire.2.2 (Or.inl hacquire.2.1)
  | ok t =>
    rw [hresult] at hacquire
    have hsynced := (await_kept (p := p) (a := a) (range p.bankNum) t).1.trans hacquire.2.2
    exact hfinish (hacquire.1.await _) (hsynced ▸ prefix_rfl) (Or.inr hsynced)

variable {f : Init01State} {flags : ℕ → Bool} (h : Ended p s f flags)
include h

theorem Ended.needs {idx : ℕ} (hneeds : p.Needs f idx) : p.Needs s idx := by
  refine ⟨?_, hneeds.2⟩
  have hmode := hneeds.1
  unfold Init01State.HasInit01 at hmode ⊢
  rcases h.counted.lost idx with heq | hzero
  · rwa [heq] at hmode
  · exact absurd (by rw [hzero]; rfl) hmode

theorem Ended.opps : ∀ o ∈ f.disabled,
    f.available o = true ↔ ∃ idx < p.bankNum, f.HasInit01 idx ∧ o ∈ p.opps idx := by
  simpa [and_assoc] using h.counted.opps

/-- A call that keeps what it has taken is balanced. -/
theorem Ended.balanced (hkept : p.KeptAtEnd s f) : p.Balanced s f := by
  have hoff : p.needing f = p.needing s := by
    refine filter_congr fun idx hidx => ?_
    have hidx' := mem_range.mp hidx
    rw [decide_eq_decide]
    exact ⟨h.needs, fun hneeds => ⟨hkept.kept idx hidx' hneeds, hneeds.2⟩⟩
  have hon : f.synced = p.needing s := by
    obtain ⟨rest, hrest⟩ := h.reached
    rcases rest with _ | ⟨idx, rest⟩
    · rw [← hrest, append_nil]
    · -- the first bank that was not switched on would be twice among those that need it
      have hnodup : (p.needing s).Nodup := nodup_range.filter _
      obtain ⟨hlt, hneeds⟩ := mem_needing.mp (show idx ∈ p.needing s by simp [← hrest])
      have hin := hkept.synced idx hlt hneeds
      rw [← hrest] at hnodup
      exact absurd rfl ((nodup_append.mp hnodup).2.2 idx hin idx mem_cons_self)
  have hcounted := h.counted
  constructor
  · intro idx _
    rw [hcounted.enable, filter_pdReq, hoff, hon]
    omega
  · intro idx _
    rw [hcounted.usage, filter_pdReq, hoff, hon]
    omega
  · intro idx _
    have hdepth := hcounted.depth (p.banks idx).pdDev
    rw [filter_pdReq, hoff, hon] at hdepth
    omega
  · intro o ho
    rw [h.opps o ho]
    exact hkept.opps o ho

/-- Only such a call is balanced. -/
theorem Ended.keptAtEnd (hbalanced : p.Balanced s f) : p.KeptAtEnd s f := by
  have hcount (idx : ℕ) (hidx : idx < p.bankNum) :
      f.synced.countP (fun k => (p.banks k).pdDev = (p.banks idx).pdDev) =
        (p.needing f).countP fun k => (p.banks k).pdDev = (p.banks idx).pdDev := by
    have husage := h.counted.usage (p.banks idx).pdDev
    rw [hbalanced.usage idx hidx, filter_pdReq] at husage
    omega
  refine ⟨?_, ?_, fun o ho => (h.opps o ho).mp (hbalanced.opps o ho)⟩
  · intro idx hidx hneeds
    have hmem := mem_needing.mpr ⟨hidx, hneeds⟩
    rcases h.all with hmode | hon
    · have hsame : p.needing f = p.needing s := by simp only [needing, needs_congr hmode]
      exact mem_of_countP_eq h.reached hmem (by rw [hcount idx hidx, hsame])
    · rwa [hon]
  · intro idx hidx hneeds
    rcases h.all with hmode | hon
    · exact (hasInit01_congr hmode idx).mpr hneeds.1
    · by_contra hlost
      have hless : (p.needing f).countP (fun k => (p.banks k).pdDev = (p.banks idx).pdDev) <
          (p.needing s).countP fun k => (p.banks k).pdDev = (p.banks idx).pdDev := by
        simp only [needing, countP_filter]
        refine countP_lt_countP ?_ (mem_range.mpr hidx) (by simpa using hneeds) ?_
        · intro k hk
          simp only [Bool.and_eq_true, decide_eq_true_eq] at hk ⊢
          exact ⟨hk.1, h.needs hk.2⟩
        · simpa using fun hneeds' : p.Needs f idx => hlost hneeds'.1
      have hequal := hcount idx hidx
      rw [hon] at hequal
      omega

end Balance

section Answers

variable (s : Init01State)

/-- The operating point of a bank runs at the boot voltage. -/
def atBoot (idx i : ℕ) : Bool :=
  let b := p.banks idx
  b.oppVolts i ≤ svsBankVoltToOppVolt b.vboot b.voltStep b.voltBase

/-- The operating points of a bank without the first one that runs at the boot voltage. -/
def otherOpps (idx : ℕ) : List Opp :=
  ((range (p.banks idx).oppCount).eraseP (p.atBoot idx)).map fun i =>
    ((p.banks idx).oppDev, (p.banks idx).oppFreqs i)

/-- The calls for the power of a bank succeed. -/
def Powers (idx : ℕ) : Prop := a.regulatorEnable idx = 0 ∧ 0 ≤ a.getSync idx
  deriving Decidable

/-- The calls of the first loop for a bank succeed. -/
def Acquires (idx : ℕ) : Prop :=
  ((p.banks idx).pdReq = true → Powers a idx) ∧
    ∀ i ∈ (range (p.banks idx).oppCount).find? (p.atBoot idx), a.adjust idx i = 0
  deriving Decidable

/-- The banks that are waited for in the second loop, given the banks that have lost the mode. -/
def waits (lost : List ℕ) : List ℕ → List ℕ
  | [] => []
  | idx :: is =>
    let b := p.banks idx
    if s.HasInit01 idx ∧ idx ∉ lost then
      if a.buckVolt idx ≠ svsBankVoltToOppVolt b.vboot b.voltStep b.voltBase then []
      else idx :: if a.completed idx then waits (lost ++ a.errors idx) is else []
    else waits lost is

/-- The banks with an error interrupt while a bank is waited for, which happens only after the first
loop has succeeded for all banks. -/
def lost : List ℕ :=
  if ∀ idx < p.bankNum, s.HasInit01 idx → p.Acquires a idx then
    (p.waits a s [] (range p.bankNum)).flatMap a.errors
  else []

/-- No call fails before the last bank that needs it is switched on, none of these banks has an
error interrupt, and for a bank that has one, the operating points that were disabled are also those
of a bank that has none. -/
structure AllKept : Prop where
  on : ∀ idx < p.bankNum, p.Needs s idx →
    a.regulatorEnable idx = 0 ∧ ∀ j < idx, s.HasInit01 j → p.Acquires a j
  kept : ∀ idx < p.bankNum, p.Needs s idx → idx ∉ p.lost a s
  opps : ∀ idx < p.bankNum, s.HasInit01 idx → idx ∈ p.lost a s → ∀ o ∈ p.otherOpps idx,
    ∃ k < p.bankNum, s.HasInit01 k ∧ k ∉ p.lost a s ∧ o ∈ p.opps k

variable {p} {a} {s} {t : Init01State} {idx : ℕ} {is : List ℕ}

/-- What a part of the first loop comes to, by the answers: whether it succeeds, the banks with a
call of `pm_runtime_get_sync` in both cases, and the operating points that it disables. -/
def Comes (t : Init01State) (good : Prop) (on failed : List ℕ) (opps : List Opp) :
    Except Init01State Init01State → Prop
  | .ok t' => good ∧ t'.modeSupport = t.modeSupport ∧ t'.synced = t.synced ++ on ∧
      t'.disabled = t.disabled ++ opps
  | .error t' => ¬good ∧ t'.modeSupport = t.modeSupport ∧ t'.synced = t.synced ++ failed ∧
      t'.disabled ⊆ t.disabled ++ opps

theorem otherOpps_subset (idx : ℕ) : p.otherOpps idx ⊆ p.opps idx :=
  map_subset _ eraseP_subset

/-- The outcome of switching a bank on. -/
theorem comes_powerOn : Comes t (Powers a idx) [idx]
    (if a.regulatorEnable idx = 0 then [idx] else []) [] (p.powerOn a idx t) := by
  unfold powerOn
  dsimp only
  by_cases hreg : a.regulatorEnable idx = 0
  · rw [if_neg (not_not.mpr hreg), if_pos hreg]
    by_cases hsync : a.getSync idx < 0
    · rw [if_pos hsync]
      refine ⟨fun h => absurd h.2 (by omega), ?_⟩
      split <;> simp
    · rw [if_neg hsync]
      refine ⟨⟨hreg, by omega⟩, ?_⟩
      split <;> simp
  · rw [if_pos hreg, if_neg hreg]
    exact ⟨fun h => hreg h.1, rfl, by simp, by simp⟩

theorem Comes.after {t' : Init01State} {x : Except Init01State Init01State} {good : Prop}
    {on failed : List ℕ} {opps' : List Opp} (opps : List Opp) (h : Comes t' good on failed opps' x)
    (hmode : t'.modeSupport = t.modeSupport) (hsynced : t'.synced = t.synced)
    (hdisabled : t'.disabled = t.disabled ++ opps) : Comes t good on failed (opps ++ opps') x := by
  cases x with
  | error t'' | ok t'' =>
    unfold Comes at h ⊢
    rwa [hmode, hsynced, hdisabled, append_assoc] at h

/-- The outcome of two parts in a row. -/
theorem Comes.bind {x : Except Init01State Init01State}
    {f : Init01State → Except Init01State Init01State} {good good' : Prop}
    {on on' failed failed' result : List ℕ} {opps opps' : List Opp}
    (hx : Comes t good on failed opps x) (hf : ∀ t', Comes t' good' on' failed' opps' (f t'))
    (hfirst : ¬good → result = failed) (hsecond : good → result = on ++ failed') :
    Comes t (good ∧ good') (on ++ on') result (opps ++ opps') (x >>= f) := by
  cases x with
  | error t' =>
    obtain ⟨hgood, hmode, hsynced, hdisabled⟩ := hx
    refine ⟨fun h => hgood h.1, hmode, by rw [hsynced, hfirst hgood], fun o ho => ?_⟩
    rw [← append_assoc]
    exact mem_append_left _ (hdisabled ho)
  | ok t' =>
    obtain ⟨hgood, hmode, hsynced, hdisabled⟩ := hx
    have hrest := hf t'
    change Comes t _ _ _ _ (f t')
    cases hfx : f t' with
    | error t'' | ok t'' =>
      rw [hfx] at hrest
      obtain ⟨hgood', hmode', hsynced', hdisabled'⟩ := hrest
      rw [hsynced, append_assoc] at hsynced'
      rw [hdisabled, append_assoc] at hdisabled'
      first
        | exact ⟨⟨hgood, hgood'⟩, hmode'.trans hmode, hsynced', hdisabled'⟩
        | exact ⟨fun h => hgood' h.2, hmode'.trans hmode, by rw [hsynced', hsecond hgood],
            hdisabled'⟩

/-- The outcome of the loop over the operating points. -/
theorem comes_fixOpps (searchDone : Bool) (t : Init01State) :
    Comes t (searchDone = true ∨ ∀ i ∈ is.find? (p.atBoot idx), a.adjust idx i = 0) [] []
      ((if searchDone then is else is.eraseP (p.atBoot idx)).map fun i =>
        ((p.banks idx).oppDev, (p.banks idx).oppFreqs i)) (p.fixOpps a idx is searchDone t) := by
  induction is generalizing t searchDone with
  | nil => cases searchDone <;> simp [fixOpps, Comes]
  | cons i is ih =>
    have hboot : decide ((p.banks idx).oppVolts i ≤ svsBankVoltToOppVolt (p.banks idx).vboot
        (p.banks idx).voltStep (p.banks idx).voltBase) = p.atBoot idx i := rfl
    unfold fixOpps
    dsimp only
    rw [hboot]
    have hdisable (searchDone : Bool) := Comes.after (t := t)
      [((p.banks idx).oppDev, (p.banks idx).oppFreqs i)] (ih searchDone { t with
        available := Function.update t.available
          ((p.banks idx).oppDev, (p.banks idx).oppFreqs i) false
        disabled := t.disabled ++ [((p.banks idx).oppDev, (p.banks idx).oppFreqs i)] })
      rfl rfl rfl
    cases searchDone with
    | true => simpa using hdisable true
    | false =>
      cases hat : p.atBoot idx i with
      | false => simpa [hat] using hdisable false
      | true =>
        by_cases hadjust : a.adjust idx i = 0
        · have := Comes.after (t := t) [] (ih true { t with ret := 0 }) rfl rfl (by simp)
          simpa [hat, hadjust] using this
        · simp [hat, hadjust, Comes]

/-- The outcome of a round of the first loop. -/
theorem comes_acquireBank (hmode : t.HasInit01 idx) :
    Comes t (p.Acquires a idx) (if (p.banks idx).pdReq then [idx] else [])
      (if (p.banks idx).pdReq ∧ a.regulatorEnable idx = 0 then [idx] else []) (p.otherOpps idx)
      (p.acquireBank a idx t) := by
  have hopps (t : Init01State) : Comes t _ _ _ _
      (p.fixOpps a idx (range (p.banks idx).oppCount) false t) := comes_fixOpps false t
  simp only [Bool.false_eq_true, false_or, if_false] at hopps
  unfold acquireBank Acquires
  rw [if_pos hmode]
  cases hreq : (p.banks idx).pdReq with
  | false =>
    simp only [Bool.false_eq_true, false_implies, true_and, false_and, if_false]
    exact hopps t
  | true =>
    simp only [true_implies, true_and, if_true]
    exact comes_powerOn.bind hopps (fun _ => rfl) (fun h => by rw [if_pos h.1, append_nil])

/-- Where the first loop ends: behind all banks, or at the first one with a call that fails. -/
def Stops (p : SvsPlatform) (a : Init01Answers) (s : Init01State) (is : List ℕ) (t : Init01State) :
    Except Init01State Init01State → Prop
  | .ok t' => (∀ idx ∈ is, s.HasInit01 idx → p.Acquires a idx) ∧
      t'.modeSupport = s.modeSupport ∧ t'.synced = t.synced ++ is.filter (p.Needs s ·) ∧
      t'.disabled = t.disabled ++ (is.filter (s.HasInit01 ·)).flatMap p.otherOpps
  | .error t' => t'.modeSupport = s.modeSupport ∧
      t'.disabled ⊆ t.disabled ++ (is.filter (s.HasInit01 ·)).flatMap p.otherOpps ∧
      ∃ before idx after, is = before ++ idx :: after ∧ s.HasInit01 idx ∧ ¬p.Acquires a idx ∧
        (∀ j ∈ before, s.HasInit01 j → p.Acquires a j) ∧
        t'.synced = t.synced ++ (before.filter (p.Needs s ·) ++
          if (p.banks idx).pdReq ∧ a.regulatorEnable idx = 0 then [idx] else [])

/-- A bank that is passed stands before the others. -/
theorem Stops.cons {x : Except Init01State Init01State} {t' : Init01State}
    (h : Stops p a s is t' x) (hgood : s.HasInit01 idx → p.Acquires a idx)
    (hsynced : t'.synced = t.synced ++ [idx].filter (p.Needs s ·))
    (hdisabled : t'.disabled = t.disabled ++
      ([idx].filter (s.HasInit01 ·)).flatMap p.otherOpps) : Stops p a s (idx :: is) t x := by
  have hneeds (is : List ℕ) : (idx :: is).filter (p.Needs s ·) =
      [idx].filter (p.Needs s ·) ++ is.filter (p.Needs s ·) := filter_append [idx] is
  have hopps : ((idx :: is).filter (s.HasInit01 ·)).flatMap p.otherOpps =
      ([idx].filter (s.HasInit01 ·)).flatMap p.otherOpps ++
        (is.filter (s.HasInit01 ·)).flatMap p.otherOpps := by
    rw [← flatMap_append, ← filter_append]
    rfl
  cases x with
  | ok t'' =>
    obtain ⟨hall, hmode, hsynced', hdisabled'⟩ := h
    refine ⟨forall_mem_cons.mpr ⟨hgood, hall⟩, hmode, ?_, ?_⟩
    · rw [hsynced', hsynced, hneeds is, append_assoc]
    · rw [hdisabled', hdisabled, hopps, append_assoc]
  | error t'' =>
    obtain ⟨hmode, hsub, before, failed, after, rfl, hinit, hfails, hbefore, hsynced'⟩ := h
    refine ⟨hmode, ?_, idx :: before, failed, after, rfl, hinit, hfails,
      forall_mem_cons.mpr ⟨hgood, hbefore⟩, ?_⟩
    · rw [hopps, ← append_assoc, ← hdisabled]
      exact hsub
    · rw [hsynced', hsynced, hneeds before]
      simp only [append_assoc]

/-- The first loop stops at the first bank that fails. -/
theorem stops_acquire (is : List ℕ) (hmode : t.modeSupport = s.modeSupport) :
    Stops p a s is t (p.acquire a is t) := by
  induction is generalizing t with
  | nil => simpa [acquire, Stops] using hmode
  | cons idx is ih =>
    unfold acquire
    by_cases hinit : s.HasInit01 idx
    · have hbank := comes_acquireBank (p := p) (a := a) ((hasInit01_congr hmode idx).mpr hinit)
      cases hacquire : p.acquireBank a idx t with
      | error t' =>
        rw [hacquire] at hbank
        obtain ⟨hgood, hmode', hsynced, hdisabled⟩ := hbank
        refine ⟨hmode'.trans hmode, fun o ho => ?_, [], idx, is, rfl, hinit, hgood, by simp,
          by simpa using hsynced⟩
        have := hdisabled ho
        simp only [filter_cons, hinit, decide_true, if_true, flatMap_cons, mem_append] at this ⊢
        tauto
      | ok t' =>
        rw [hacquire] at hbank
        obtain ⟨hgood, hmode', hsynced, hdisabled⟩ := hbank
        refine (ih (hmode'.trans hmode)).cons (fun _ => hgood) ?_ ?_
        · cases hreq : (p.banks idx).pdReq <;> simp [hsynced, Needs, hinit, hreq]
        · simp [hdisabled, hinit]
    · have hskip : p.acquireBank a idx t = .ok t := by
        rw [acquireBank, if_neg fun h => hinit ((hasInit01_congr hmode idx).mp h)]
      rw [hskip]
      exact (ih hmode).cons (fun h => absurd h hinit) (by simp [Needs, hinit]) (by simp [hinit])

/-- A bank has the mode after the second loop if it had no error interrupt in a wait. -/
theorem hasInit01_await {lost : List ℕ} (hmode : ∀ k, t.HasInit01 k ↔ s.HasInit01 k ∧ k ∉ lost)
    (k : ℕ) : (stateOf (p.await a is t)).HasInit01 k ↔
      s.HasInit01 k ∧ k ∉ lost ∧ k ∉ (p.waits a s lost is).flatMap a.errors := by
  induction is generalizing t lost with
  | nil => simpa [SvsPlatform.await, waits, stateOf] using hmode k
  | cons idx is ih =>
    unfold SvsPlatform.await awaitBank waits
    dsimp only
    by_cases hidx : t.HasInit01 idx
    · rw [if_pos hidx, if_pos ((hmode idx).mp hidx)]
      split
      · refine (hmode k).trans ?_
        simp
      · -- the interrupts during this wait take the modes of their banks
        have hmode' (t' : Init01State) (ht' : t'.modeSupport =
            fun k => if k ∈ a.errors idx then 0 else t.modeSupport k) (k : ℕ) :
            t'.HasInit01 k ↔ s.HasInit01 k ∧ k ∉ lost ++ a.errors idx := by
          have hk := hmode k
          unfold Init01State.HasInit01 at hk ⊢
          rw [ht', mem_append, not_or, ← and_assoc, ← hk]
          by_cases herr : k ∈ a.errors idx <;> simp [herr]
        cases a.completed idx with
        | true =>
          rw [if_pos rfl, if_pos rfl]
          refine (ih (hmode' _ rfl)).trans ?_
          simp [and_assoc]
        | false =>
          rw [if_neg Bool.false_ne_true, if_neg Bool.false_ne_true]
          refine (hmode' _ rfl k).trans ?_
          simp
    · rw [if_neg hidx, if_neg (mt (hmode idx).mpr hidx)]
      exact ih hmode

variable {f : Init01State}

/-- The first loop stops at a bank: no bank loses the mode, and those behind it are not on. -/
theorem keptAtEnd_iff_of_error (hstops : Stops p a s (range p.bankNum)
      { s with ret := 0, synced := [], disabled := [] } (.error t))
    (hmode : f.modeSupport = t.modeSupport) (hsynced : f.synced = t.synced)
    (hdisabled : f.disabled = t.disabled) : p.KeptAtEnd s f ↔ p.AllKept a s := by
  obtain ⟨hmode', hsub, before, failed, after, hrange, hinit, hfails, hbefore, hon⟩ := hstops
  have hsorted : (before ++ failed :: after).Pairwise (· < ·) := hrange ▸ pairwise_lt_range
  rw [pairwise_append, pairwise_cons] at hsorted
  obtain ⟨-, ⟨hafter, -⟩, hbelow⟩ := hsorted
  have hmem (k : ℕ) : k < p.bankNum ↔ k ∈ before ∨ k = failed ∨ k ∈ after := by
    rw [← mem_range, hrange, mem_append, mem_cons]
  have hlost : p.lost a s = [] := by
    refine if_neg fun hall => hfails (hall failed ?_ hinit)
    exact (hmem failed).mpr (.inr (.inl rfl))
  have hhas (k : ℕ) : f.HasInit01 k ↔ s.HasInit01 k := hasInit01_congr (hmode.trans hmode') k
  have hpower {k : ℕ} (hk : p.Needs s k) (hacq : p.Acquires a k) : a.regulatorEnable k = 0 :=
    (hacq.1 hk.2).1
  rw [nil_append] at hon
  constructor
  · intro h
    refine ⟨fun idx hlt hneeds => ?_, by simp [hlost], by simp [hlost]⟩
    have hin := h.synced idx hlt hneeds
    rw [hsynced, hon, mem_append, mem_filter] at hin
    rcases hin with ⟨hin, -⟩ | hin
    · refine ⟨hpower hneeds (hbefore idx hin hneeds.1), fun j hj => hbefore j ?_⟩
      grind
    · split at hin
      case isTrue hreg =>
        obtain rfl := mem_singleton.mp hin
        refine ⟨hreg.2, fun j hj => hbefore j ?_⟩
        grind
      case isFalse => simp at hin
  · intro h
    refine ⟨fun idx hlt hneeds => ?_, fun idx _ hneeds => (hhas idx).mpr hneeds.1, ?_⟩
    · obtain ⟨hreg, hearlier⟩ := h.on idx hlt hneeds
      rw [hsynced, hon, mem_append, mem_filter]
      rcases (hmem idx).mp hlt with hin | rfl | hin
      · exact .inl ⟨hin, by simpa using hneeds⟩
      · exact .inr (by simp [hneeds.2, hreg])
      · exact absurd (hearlier failed (hafter idx hin) hinit) hfails
    · intro o ho
      rw [hdisabled] at ho
      have hother : ∃ idx, (idx < p.bankNum ∧ s.HasInit01 idx) ∧ o ∈ p.otherOpps idx := by
        simpa using hsub ho
      obtain ⟨idx, hidx, ho⟩ := hother
      exact ⟨idx, hidx.1, (hhas idx).mpr hidx.2, otherOpps_subset idx ho⟩

/-- The first loop succeeds: all banks are on, and the interrupts of the second one are decisive. -/
theorem keptAtEnd_iff_of_ok (hstops : Stops p a s (range p.bankNum)
      { s with ret := 0, synced := [], disabled := [] } (.ok t))
    (hmode : ∀ k, f.HasInit01 k ↔
      s.HasInit01 k ∧ k ∉ (p.waits a s [] (range p.bankNum)).flatMap a.errors)
    (hsynced : f.synced = t.synced) (hdisabled : f.disabled = t.disabled) :
    p.KeptAtEnd s f ↔ p.AllKept a s := by
  obtain ⟨hall, -, hon, hopps⟩ := hstops
  simp only [mem_range] at hall
  have hlost : p.lost a s = (p.waits a s [] (range p.bankNum)).flatMap a.errors := if_pos hall
  have hmem (o : Opp) : o ∈ f.disabled ↔
      ∃ idx, (idx < p.bankNum ∧ s.HasInit01 idx) ∧ o ∈ p.otherOpps idx := by
    rw [hdisabled, hopps]
    simp
  rw [← hlost] at hmode
  constructor
  · intro h
    refine ⟨fun idx hlt hneeds => ⟨((hall idx hlt hneeds.1).1 hneeds.2).1,
      fun j hj hinit => hall j (Nat.lt_trans hj hlt) hinit⟩, fun idx hlt hneeds =>
        ((hmode idx).mp (h.kept idx hlt hneeds)).2, fun idx hlt hinit _ o ho => ?_⟩
    obtain ⟨k, hk, hhas, hin⟩ := h.opps o ((hmem o).mpr ⟨idx, ⟨hlt, hinit⟩, ho⟩)
    exact ⟨k, hk, ((hmode k).mp hhas).1, ((hmode k).mp hhas).2, hin⟩
  · intro h
    refine ⟨fun idx hlt hneeds => ?_, fun idx hlt hneeds =>
      (hmode idx).mpr ⟨hneeds.1, h.kept idx hlt hneeds⟩, fun o ho => ?_⟩
    · rw [hsynced, hon]
      simpa using ⟨hlt, hneeds⟩
    · obtain ⟨idx, ⟨hlt, hinit⟩, ho⟩ := (hmem o).mp ho
      by_cases hin : idx ∈ p.lost a s
      · obtain ⟨k, hk, hhas, hnot, hko⟩ := h.opps idx hlt hinit hin o ho
        exact ⟨k, hk, (hmode k).mpr ⟨hhas, hnot⟩, hko⟩
      · exact ⟨idx, hlt, (hmode idx).mpr ⟨hinit, hin⟩, otherOpps_subset idx ho⟩

/-- What is kept at the end, in terms of the answers to the calls. -/
theorem keptAtEnd_iff (hkzalloc : a.kzalloc = true) :
    p.KeptAtEnd s (p.svsInit01 a s) ↔ p.AllKept a s := by
  have hstops := stops_acquire (p := p) (a := a) (s := s)
    (t := { s with ret := 0, synced := [], disabled := [] }) (range p.bankNum) rfl
  unfold svsInit01
  rw [if_pos hkzalloc]
  dsimp only
  cases hresult : p.acquire a (range p.bankNum)
      { s with ret := 0, synced := [], disabled := [] } with
  | error t =>
    rw [hresult] at hstops
    obtain ⟨hmode, hsynced, hdisabled⟩ := p.finish_kept (range p.bankNum) t
    exact keptAtEnd_iff_of_error hstops hmode hsynced hdisabled
  | ok t =>
    rw [hresult] at hstops
    change p.KeptAtEnd s (p.finish _ (stateOf (p.await a (range p.bankNum) t))) ↔ _
    obtain ⟨hmode, hsynced, hdisabled⟩ := p.finish_kept (range p.bankNum)
      (stateOf (p.await a (range p.bankNum) t))
    obtain ⟨hsynced', hdisabled'⟩ := await_kept (p := p) (a := a) (range p.bankNum) t
    refine keptAtEnd_iff_of_ok hstops (fun k => ?_) (hsynced.trans hsynced')
      (hdisabled.trans hdisabled')
    have hbefore (k : ℕ) : t.HasInit01 k ↔ s.HasInit01 k ∧ k ∉ [] := by
      simpa using hasInit01_congr hstops.2.1 k
    rw [hasInit01_congr hmode, hasInit01_await hbefore]
    simp

end Answers

/-- The call is balanced exactly if it fails to allocate memory, or the answers of its calls keep
all banks and operating points. -/
theorem svsInit01_balanced_iff (p : SvsPlatform) (a : Init01Answers) (s : Init01State)
    (hclear : ∀ idx < p.bankNum, s.enablePmRuntimeEver idx = false) :
    p.Balanced s (p.svsInit01 a s) ↔ a.kzalloc = false ∨ p.AllKept a s := by
  cases hkzalloc : a.kzalloc with
  | false =>
    refine iff_of_true ?_ (Or.inl rfl)
    unfold svsInit01
    rw [hkzalloc, if_neg Bool.false_ne_true]
    exact ⟨fun _ _ => rfl, fun _ _ => rfl, fun _ _ => Iff.rfl, by simp⟩
  | true =>
    obtain ⟨flags, hended⟩ := ended_svsInit01 hkzalloc hclear
    have hkept : p.KeptAtEnd s (p.svsInit01 a s) ↔ p.AllKept a s := keptAtEnd_iff hkzalloc
    refine ⟨fun hbalanced => Or.inr (hkept.mp (hended.keptAtEnd hbalanced)), fun hor => ?_⟩
    exact hended.balanced (hkept.mpr (hor.resolve_left (by simp)))

/-- Two banks with a regulator and a power domain of their own, and one operating point. -/
def poweredPlatform : SvsPlatform where
  bankNum := 2
  banks := fun idx =>
    { phase := .error, pdReq := true, buck := idx, pdDev := idx, oppDev := idx, oppCount := 1,
      oppVolts := fun _ => 1000000, volts := fun _ => 0, vboot := 0x40, voltStep := 6250,
      voltBase := 400000, vmin := 0x20 }

/-- Nothing is switched on, and the power management of all devices is disabled. -/
def offState : Init01State where
  ret := 0
  modeSupport := fun _ => 0x2
  enablePmRuntimeEver := fun _ => false
  enableCount := fun _ => 0
  usageCount := fun _ => 0
  disableDepth := fun _ => 1
  available := fun _ => true
  synced := []
  disabled := []

/-- The regulator of one bank refuses, and all other calls succeed. -/
def refusingAnswers (refused : Option ℕ) : Init01Answers where
  kzalloc := true
  regulatorEnable := fun idx => if some idx = refused then -1 else 0
  getSync := fun _ => 0
  adjust := fun _ _ => 0
  buckVolt := fun _ => 800000
  completed := fun _ => true
  errors := fun _ => []

/-- A call without a failure is balanced. -/
theorem svsInit01_balanced_noFailure :
    (∀ idx < poweredPlatform.bankNum, offState.enablePmRuntimeEver idx = false) ∧
      poweredPlatform.Balanced offState
        (poweredPlatform.svsInit01 (refusingAnswers none) offState) := by
  have hclear : ∀ idx < poweredPlatform.bankNum, offState.enablePmRuntimeEver idx = false :=
    fun _ _ => rfl
  have hlost : poweredPlatform.lost (refusingAnswers none) offState = [] := by decide +kernel
  exact ⟨hclear, (svsInit01_balanced_iff poweredPlatform (refusingAnswers none) offState
    hclear).mpr (Or.inr ⟨by decide +kernel, by simp [hlost], by simp [hlost]⟩)⟩

/-- If the regulator of the first bank refuses, the usage counts of both devices are one less than
before. -/
theorem svsInit01_not_balanced_refused :
    (∀ idx < poweredPlatform.bankNum, offState.enablePmRuntimeEver idx = false) ∧
      (∀ idx < 2, (poweredPlatform.svsInit01 (refusingAnswers (some 0)) offState).usageCount
        (poweredPlatform.banks idx).pdDev = -1) ∧
      ¬ poweredPlatform.Balanced offState
        (poweredPlatform.svsInit01 (refusingAnswers (some 0)) offState) := by
  have hless : ∀ idx < 2,
      (poweredPlatform.svsInit01 (refusingAnswers (some 0)) offState).usageCount
        (poweredPlatform.banks idx).pdDev = -1 := by
    decide +kernel
  refine ⟨fun _ _ => rfl, hless, fun hbalanced => ?_⟩
  have husage := hbalanced.usage 0 (by decide)
  rw [hless 0 (by decide)] at husage
  exact absurd husage (by decide)

end SvsPlatform

end Mt8169.Svs
