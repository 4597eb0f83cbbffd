import Mt8169.Lib.MachineInt
import Mt8169.Lib.Runs
import Mathlib.Tactic.Basic

/-!
# The region manager of trusted memory

Powering a region on takes its memory from the SSMR feature, opens a session with the peer and
grants the memory to it; powering it off goes the other way. Each of the three can fail, and so can
the unwinding. The model follows the region, the feature and the session through every pattern of
failures.
-/

namespace Mt8169.TrustedMem

open MachineInt Runs

/-- `enum REGMGR_REGION_STATE` -/
inductive RegionState
  | off
  | on
deriving DecidableEq

/-- `enum ssmr_state` -/
inductive SsmrState
  | disabled
  | oningWait
  | oning
  | on
  | offing
  | off
deriving DecidableEq

/-- The results of `enum TMEM_RETURN_CODE` that the region manager sees. -/
inductive Result
  | ok
  | ssmrOfflineFailed
  | ssmrOnlineFailed
  | invalidAddrOrSize
  | sessionIsNotReady
  | sessionIsAlreadyOpen
  | sessionIsAlreadyClose
  | openSessionFailed
  | closeSessionFailed
  | memAddFailed
  | memRemoveFailed
  | regionPowerOnFailed
  | regionPowerOffFailed
deriving DecidableEq

/-- A trusted memory device: its region manager, its SSMR feature and its peer session. The field
`granted` is not in the source: it says whether the peer holds the memory, by the grants and
reclaims that succeeded. -/
structure Device where
  state : RegionState
  onlineAccCount : ℕ
  busy : Bool
  ssmr : SsmrState
  opened : Bool
  memPaStart : ℕ
  memSize : ℕ
  memSizeRuntime : ℕ
  granted : Bool
  keepAlive : Bool

/-- What the operations below the region manager answer, should they be called: the address and
size that the feature gives, or nothing, and whether each of the others succeeds. -/
structure Answers where
  offline : Option (ℕ × ℕ)
  online : Bool
  sessionOpen : Bool
  sessionClose : Bool
  memoryGrant : Bool
  memoryReclaim : Bool

namespace Device

variable (d : Device) (a : Answers)

/-- `_ssmr_offline_internal`: the address and size, if it succeeds. -/
def ssmrOffline : Option (ℕ × ℕ) × Device :=
  if d.ssmr ≠ .on then (none, d)
  else
    match a.offline with
    | none => (none, { d with ssmr := .on })
    | some mem => (some mem, { d with ssmr := .off })

/-- `_ssmr_online_internal`: the feature is on again even if giving the memory back fails. -/
def ssmrOnline : Bool × Device :=
  if d.ssmr ≠ .off then (false, d) else (a.online, { d with ssmr := .on })

/-- `tmem_ssmr_get`: the size is cut to 32 bits. -/
def tmemSsmrGet : Except Result (ℕ × ℕ) × Device :=
  match d.ssmrOffline a with
  | (none, d) => (.error .ssmrOfflineFailed, d)
  | (some (pa, size), d) =>
    if pa = 0 ∨ u32 size = 0 then (.error .invalidAddrOrSize, d) else (.ok (pa, u32 size), d)

/-- `tmem_ssmr_put` -/
def tmemSsmrPut : Result × Device :=
  match d.ssmrOnline a with
  | (false, d) => (.ssmrOnlineFailed, d)
  | (true, d) => (.ok, d)

/-- `peer_mgr_session_open_locked` -/
def sessionOpen (d : Device) (a : Answers) : Result × Device :=
  if d.opened then (.sessionIsAlreadyOpen, d)
  else if a.sessionOpen then (.ok, { d with opened := true })
  else (.openSessionFailed, d)

/-- `peer_mgr_session_close_locked` -/
def sessionClose (d : Device) (a : Answers) : Result × Device :=
  if ¬ d.opened then (.sessionIsAlreadyClose, d)
  else if d.keepAlive then (.ok, d)
  else if a.sessionClose then (.ok, { d with opened := false })
  else (.closeSessionFailed, d)

/-- `peer_mgr_mem_add_locked` -/
def memAdd (pa size : ℕ) (a : Answers) : Result × Device :=
  if ¬ d.opened then (.sessionIsNotReady, d)
  else if a.memoryGrant then
    (.ok, { d with memPaStart := pa, memSize := size, memSizeRuntime := size, granted := true })
  else (.memAddFailed, d)

/-- `peer_mgr_mem_remove_locked` -/
def memRemove : Result × Device :=
  if ¬ d.opened then (.sessionIsNotReady, d)
  else if a.memoryReclaim then
    (.ok, { d with memPaStart := 0, memSize := 0, granted := false })
  else (.memRemoveFailed, d)

/-- The labels of `trusted_mem_region_poweron` from `err_open_mtee_failed` on. -/
def openFailed : Device := (d.tmemSsmrPut a).2

/-- The labels from `err_add_mem_failed` on. -/
def addMemFailed : Device := (d.sessionClose a).2.openFailed a

/-- `trusted_mem_region_poweron` -/
def poweron : Result × Device :=
  match d.tmemSsmrGet a with
  | (.error ret, d) => (ret, d)
  | (.ok (pa, size), d) =>
    match d.sessionOpen a with
    | (ret, d) =>
      if ret ≠ .ok ∧ ret ≠ .sessionIsAlreadyOpen then (ret, d.openFailed a)
      else
        match d.memAdd pa size a with
        | (ret, d) => if ret ≠ .ok then (ret, d.addMemFailed a) else (.ok, d)

/-- `trusted_mem_region_poweroff` -/
def poweroff : Result × Device :=
  match d.memRemove a with
  | (ret, d) =>
    if ret ≠ .ok then (ret, d)
    else
      match d.sessionClose a with
      | (ret, d) =>
        if ret ≠ .ok ∧ ret ≠ .sessionIsAlreadyClose then (ret, d)
        else d.tmemSsmrPut a

/-- `set_region_state` -/
def setRegionState (state : RegionState) : Device :=
  { d with
    state := state
    onlineAccCount := if state = .on then d.onlineAccCount + 1 else d.onlineAccCount }

/-- `regmgr_try_on` -/
def tryOn : Result × Device :=
  if d.state = .on then (.ok, d)
  else
    match d.poweron a with
    | (ret, d) =>
      if ret ≠ .ok then (.regionPowerOnFailed, d)
      else (.ok, { d with busy := true }.setRegionState .on)

/-- `regmgr_try_off` -/
def tryOff : Result × Device :=
  if d.state ≠ .on then (.ok, d)
  else
    match d.poweroff a with
    | (ret, d) =>
      if ret ≠ .ok then (.regionPowerOffFailed, d)
      else (.ok, { d with busy := false }.setRegionState .off)

/-- What happens to the region: `regmgr_online`, and `regmgr_defer_off_handler` with the reference
count it finds. -/
inductive Event
  | online (a : Answers)
  | deferOff (validRefCount : ℕ) (a : Answers)

def step : Event → Device
  | .online a => (d.tryOn a).2
  | .deferOff count a => if count = 0 then (d.tryOff a).2 else d

/-- The region is on exactly when its feature is off and the peer holds the memory. -/
def Consistent : Prop := d.state = .on ↔ d.ssmr = .off ∧ d.granted = true
  deriving Decidable

/-- A power-on that fails leaves the feature and the session as they were. -/
def Restores : Event → Prop
  | .online a => d.state = .off → (d.poweron a).1 ≠ .ok →
      (d.poweron a).2.ssmr = d.ssmr ∧ (d.poweron a).2.opened = d.opened
  | .deferOff .. => True

/-- An operation ends in a consistent state and undoes a failed power-on. -/
def Sound (e : Event) : Prop := (d.step e).Consistent ∧ d.Restores e

/-- The region is on with a session and the memory granted, or off with the memory back. -/
def Settled : Prop :=
  (d.state = .on ∧ d.ssmr = .off ∧ d.granted = true ∧ d.opened = true) ∨
    (d.state = .off ∧ d.ssmr = .on ∧ d.granted = false)

/-- The session is left open by the unwinding of a power-on whose grant failed. -/
def StaysOpen : Prop := d.keepAlive = true ∨ a.sessionClose = false
  deriving Decidable

/-- The failures of a power-on that the unwinding makes good: the feature gives nothing, or it
gives usable memory and the session does not open, or the memory is granted, or the session is
left by the unwinding as it was. -/
def Recovers : Prop :=
  match a.offline with
  | none => True
  | some (pa, size) =>
    ¬ (pa = 0 ∨ u32 size = 0) ∧
      ((d.opened = false ∧ a.sessionOpen = false) ∨ a.memoryGrant = true ∨
        (d.opened = true ↔ d.StaysOpen a))

/-- The failures of a power-off that leave the region as it was: those of the reclaim. -/
def TurnsOff : Prop :=
  a.memoryReclaim = true → (d.keepAlive = true ∨ a.sessionClose = true) ∧ a.online = true

/-- The condition on an operation. -/
def Fine : Event → Prop
  | .online a => d.state = .off → d.Recovers a
  | .deferOff count a => count = 0 → d.state = .on → d.TurnsOff a

variable {d : Device}

/-- The outcomes of a power-on while the feature has the memory. -/
theorem poweron_eq (hon : d.ssmr = .on) (a : Answers) :
    d.poweron a =
      match a.offline with
      | none => (.ssmrOfflineFailed, d)
      | some (pa, size) =>
        if pa = 0 ∨ u32 size = 0 then (.invalidAddrOrSize, { d with ssmr := .off })
        else if d.opened = false ∧ a.sessionOpen = false then (.openSessionFailed, d)
        else if a.memoryGrant then
          (.ok, { d with
            ssmr := .off, opened := true, memPaStart := pa, memSize := u32 size,
            memSizeRuntime := u32 size, granted := true })
        else (.memAddFailed, { d with opened := decide (d.StaysOpen a) }) := by
  obtain ⟨state, acc, busy, ssmr, opened, mpa, msize, mrun, granted, keep⟩ := d
  obtain ⟨offline, online, sessionOpen, sessionClose, grant, reclaim⟩ := a
  subst hon
  rcases offline with - | ⟨pa, size⟩
  · rfl
  · by_cases hinvalid : pa = 0 ∨ u32 size = 0
    · simp [poweron, tmemSsmrGet, ssmrOffline, hinvalid]
    · have hget : tmemSsmrGet ⟨state, acc, busy, .on, opened, mpa, msize, mrun, granted, keep⟩
          ⟨some (pa, size), online, sessionOpen, sessionClose, grant, reclaim⟩ =
          (.ok (pa, u32 size),
            ⟨state, acc, busy, .off, opened, mpa, msize, mrun, granted, keep⟩) := by
        simp [tmemSsmrGet, ssmrOffline, hinvalid]
      simp only [poweron, hget, if_neg hinvalid]
      cases opened <;> cases sessionOpen <;> cases grant <;> cases online <;>
        cases sessionClose <;> cases keep <;> rfl

/-- The outcomes of a power-off with the session open and the memory with the peer. -/
theorem poweroff_eq (hoff : d.ssmr = .off) (hopened : d.opened = true) (a : Answers) :
    d.poweroff a =
      if a.memoryReclaim = false then (.memRemoveFailed, d)
      else if d.keepAlive = true ∨ a.sessionClose = true then
        (if a.online then .ok else .ssmrOnlineFailed,
          { d with
            memPaStart := 0, memSize := 0, granted := false, opened := d.keepAlive
            ssmr := .on })
      else (.closeSessionFailed, { d with memPaStart := 0, memSize := 0, granted := false }) := by
  obtain ⟨state, acc, busy, ssmr, opened, mpa, msize, mrun, granted, keep⟩ := d
  obtain ⟨offline, online, sessionOpen, sessionClose, grant, reclaim⟩ := a
  subst hoff hopened
  cases reclaim <;> cases keep <;> cases sessionClose <;> cases online <;> rfl

theorem Settled.consistent (h : d.Settled) : d.Consistent := by
  unfold Consistent
  rcases h with ⟨hstate, hssmr, hgranted, -⟩ | ⟨hstate, hssmr, hgranted⟩
  all_goals simp [hstate, hssmr, hgranted]

theorem step_online_of_off {a : Answers} (h : d.state = .off) :
    d.step (.online a) =
      if (d.poweron a).1 ≠ .ok then (d.poweron a).2
      else { (d.poweron a).2 with busy := true }.setRegionState .on := by
  have hne : ¬ d.state = .on := by simp [h]
  change (d.tryOn a).2 = _
  unfold tryOn
  rw [if_neg hne]
  rcases d.poweron a with ⟨ret, d'⟩
  by_cases hret : ret = .ok <;> simp [hret]

theorem step_deferOff_of_on {a : Answers} (h : d.state = .on) :
    d.step (.deferOff 0 a) =
      if (d.poweroff a).1 ≠ .ok then (d.poweroff a).2
      else { (d.poweroff a).2 with busy := false }.setRegionState .off := by
  have hne : ¬ d.state ≠ .on := by simp [h]
  change (d.tryOff a).2 = _
  unfold tryOff
  rw [if_neg hne]
  rcases d.poweroff a with ⟨ret, d'⟩
  by_cases hret : ret = .ok <;> simp [hret]

/-- From a settled region that is off, `regmgr_online` is sound exactly when the power-on
recovers, and then it settles the region. -/
theorem sound_online_iff (hstate : d.state = .off) (hssmr : d.ssmr = .on)
    (hgranted : d.granted = false) (a : Answers) :
    (d.Sound (.online a) ↔ d.Recovers a) ∧ (d.Recovers a → (d.step (.online a)).Settled) := by
  have hsame : d.Settled := .inr ⟨hstate, hssmr, hgranted⟩
  unfold Sound Restores Recovers
  dsimp only
  rw [step_online_of_off hstate, poweron_eq hssmr]
  cases hoff : a.offline with
  | none => simp [hsame, hsame.consistent]
  | some mem =>
    obtain ⟨pa, size⟩ := mem
    by_cases hvalid : pa = 0 ∨ u32 size = 0
    · -- The feature stays off, and nothing else has changed.
      simp [hvalid, hstate, hssmr]
    · by_cases hopen : d.opened = false ∧ a.sessionOpen = false
      · simp [hvalid, hopen, hsame, hsame.consistent]
      · cases hgrant : a.memoryGrant with
        | true => simp [hvalid, hopen, Settled, Consistent, setRegionState]
        | false =>
          have hiff : (decide (d.StaysOpen a) = d.opened) ↔ (d.opened = true ↔ d.StaysOpen a) := by
            by_cases hstay : d.StaysOpen a <;> cases d.opened <;> simp [hstay]
          simp [hvalid, hopen, hiff, hstate, hssmr, hgranted, Settled, Consistent]

/-- The deferred power-off is sound exactly if every call of it succeeds. -/
theorem sound_deferOff_iff (hstate : d.state = .on) (hssmr : d.ssmr = .off)
    (hgranted : d.granted = true) (hopened : d.opened = true) (a : Answers) :
    (d.Sound (.deferOff 0 a) ↔ d.TurnsOff a) ∧
      (d.TurnsOff a → (d.step (.deferOff 0 a)).Settled) := by
  have hsame : d.Settled := .inl ⟨hstate, hssmr, hgranted, hopened⟩
  unfold Sound Restores TurnsOff
  rw [step_deferOff_of_on hstate, poweroff_eq hssmr hopened]
  cases hreclaim : a.memoryReclaim with
  | false => simp [hsame, hsame.consistent]
  | true =>
    by_cases hclose : d.keepAlive = true ∨ a.sessionClose = true
    · cases honline : a.online <;>
        simp [hclose, hstate, Settled, Consistent, setRegionState]
    · simp [hclose, hstate, Consistent]

/-- An event is sound exactly if it is fine, and then the device settles. -/
theorem sound_iff_fine (h : d.Settled) (e : Event) :
    (d.Sound e ↔ d.Fine e) ∧ (d.Fine e → (d.step e).Settled) := by
  rcases h with ⟨hstate, hssmr, hgranted, hopened⟩ | ⟨hstate, hssmr, hgranted⟩
  · have hsame : d.Settled := .inl ⟨hstate, hssmr, hgranted, hopened⟩
    cases e with
    | online a =>
      have hstep : d.step (.online a) = d := by simp [step, tryOn, hstate]
      simp [Sound, Restores, Fine, hstep, hstate, hsame, hsame.consistent]
    | deferOff count a =>
      by_cases hcount : count = 0
      · subst hcount
        simpa [Fine, hstate] using sound_deferOff_iff hstate hssmr hgranted hopened a
      · simp [Sound, Restores, Fine, step, hcount, hsame, hsame.consistent]
  · have hsame : d.Settled := .inr ⟨hstate, hssmr, hgranted⟩
    cases e with
    | online a => simpa [Fine, hstate] using sound_online_iff hstate hssmr hgranted a
    | deferOff count a =>
      have hstep : d.step (.deferOff count a) = d := by simp [step, tryOff, hstate]
      simp [Sound, Restores, Fine, hstep, hstate, hsame, hsame.consistent]

/-- A device as it is created: off, with the memory in the feature and no session. -/
def created (keepAlive : Bool) : Device := ⟨.off, 0, false, .on, false, 0, 0, 0, false, keepAlive⟩

/-- Every operation of a run is sound exactly when every operation is fine: no power-on gets memory
that cannot be used, fails to grant it while the closing of the session changes what was open
before, and no power-off fails after the memory was reclaimed. -/
theorem run_sound_iff (keepAlive : Bool) (es : List Event) :
    RunOk step Sound (created keepAlive) es ↔ RunOk step Fine (created keepAlive) es := by
  apply runOk_congr Settled
  · exact fun d e hd => (sound_iff_fine hd e).1
  · exact fun d e hd hsound => (sound_iff_fine hd e).2 ((sound_iff_fine hd e).1.mp hsound)
  · exact .inr ⟨rfl, rfl, rfl⟩

/-- A power-on for which the feature reports no size. -/
def emptyRegion : Event := .online ⟨some (0x40000000, 0), true, true, true, true, true⟩

/-- The power-on fails, and the feature stays off. -/
theorem not_run_sound_emptyRegion : ¬ RunOk step Sound (created false) [emptyRegion] := by
  rintro ⟨⟨-, hrestores⟩, -⟩
  have hssmr := (hrestores rfl (by decide)).1
  revert hssmr
  decide

end Device

end Mt8169.TrustedMem
