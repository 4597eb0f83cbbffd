import Mathlib.Data.List.Basic
import Mathlib.Algebra.BigOperators.Group.List.Basic
import Mathlib.Algebra.Ring.Nat
import Mathlib.Order.Bounds.Basic

/-!
# The path of an event in the multimedia profiler's registry

`mmprofile_get_event_name` follows the parents of an event upwards, at most 32 levels, and then
writes the names outermost first into the caller's buffer, as many levels as fit. Fit is counted
from the event itself, the opposite direction.
-/

namespace Mt8169.Mmp

open List

/-- `struct mmprofile_eventinfo_t`; `name` holds the bytes before the zero that ends it. -/
structure EventInfo where
  parentId : ℕ
  name : List UInt8
deriving DecidableEq, Repr

/-- The list `mmprofile_regtable` and `mmprofile_globals.reg_event_index`. -/
structure Registry where
  regtable : List EventInfo
  regEventIndex : ℕ

def mmpInvalidEvent : ℕ := 0

def mmpRootEvent : ℕ := 1

/-- The entry the search through the list stops at for this event. -/
def Registry.find (r : Registry) (event : ℕ) : Option EventInfo :=
  r.regtable[event - mmpRootEvent]?

/-- The upward walk: `event_info[0 .. info_cnt)` where it has found all levels, with `levels` free
places left in the array. -/
def Registry.eventInfos (r : Registry) : ℕ → ℕ → Option (List EventInfo)
  | levels, curr =>
    if curr = mmpInvalidEvent ∨ r.regEventIndex < curr then none
    else match levels with
      | 0 => some []
      | levels + 1 => do
        let info ← r.find curr
        if info.parentId = mmpRootEvent ∨ info.parentId = mmpInvalidEvent then return [info]
        return info :: (← r.eventInfos levels info.parentId)

/-- The first loop: `need_len` and `info_cnt_used`, from index `i` on. -/
def countFits (size : ℕ) : List EventInfo → (i needLen infoCntUsed : ℕ) → ℕ × ℕ
  | [], _, needLen, infoCntUsed => (needLen, infoCntUsed)
  | info :: infos, i, needLen, infoCntUsed =>
    let needLen := needLen + (info.name.length + 1)
    countFits size infos (i + 1) needLen (if needLen ≤ size then i + 1 else infoCntUsed)

/-- A write of `bytes` at `pos`, none where one of them lies outside the buffer. -/
def writeAt (buf : List UInt8) (pos : ℕ) (bytes : List UInt8) : Option (List UInt8) :=
  if pos + bytes.length ≤ buf.length then
    some (buf.take pos ++ bytes ++ buf.drop (pos + bytes.length))
  else none

def colon : UInt8 := 58

/-- One name: the zero that ends it becomes a colon unless `i = 0`. -/
def writeName (info : EventInfo) (last : Bool) (name : List UInt8) (actualLen : ℕ) :
    Option (List UInt8) := do
  let name ← writeAt name actualLen (info.name ++ [0])
  if last then return name
  writeAt name (actualLen + info.name.length) [colon]

/-- The second loop, over the entries from the last used one down to `event_info[0]`. -/
def writeNames : List EventInfo → (name : List UInt8) → (actualLen : ℕ) → Option (List UInt8 × ℕ)
  | [], name, actualLen => some (name, actualLen)
  | info :: infos, name, actualLen => do
    let name ← writeName info infos.isEmpty name actualLen
    writeNames infos name (actualLen + info.name.length + 1)

/-- `mmprofile_get_event_name`: the value it returns, the buffer and `*size`. `name` is the buffer
of `*size` bytes; none means a write outside. -/
def mmprofileGetEventName (r : Registry) (event : ℕ) (name : List UInt8) :
    Option (ℤ × List UInt8 × ℕ) :=
  match r.eventInfos 32 event with
  | none => some (-1, name, name.length)
  | some infos => do
    let (needLen, infoCntUsed) := countFits name.length infos 0 0 0
    let (name, actualLen) ← writeNames (infos.take infoCntUsed).reverse name 0
    return (actualLen, name, needLen)

/-- The joined form of some levels, given outermost first. -/
def joined (infos : List EventInfo) : List UInt8 :=
  if infos = [] then [] else [colon].intercalate (infos.map (·.name)) ++ [0]

theorem joined_cons (info : EventInfo) (infos : List EventInfo) :
    joined (info :: infos) = info.name ++ [if infos.isEmpty then 0 else colon] ++ joined infos := by
  cases infos <;> simp [joined]

@[simp] theorem length_joined (infos : List EventInfo) :
    (joined infos).length = (infos.map (·.name.length + 1)).sum := by
  induction infos with
  | nil => rfl
  | cons info infos ih =>
    rw [joined_cons, length_append, length_append, length_singleton, ih, map_cons, sum_cons]

theorem length_joined_reverse (infos : List EventInfo) :
    (joined infos.reverse).length = (joined infos).length := by
  rw [length_joined, length_joined, map_reverse, sum_reverse]

/-- A write behind the bytes that already stand at the front of a buffer. -/
theorem writeAt_front (front : List UInt8) {rest bytes : List UInt8}
    (hfits : bytes.length ≤ rest.length) :
    writeAt (front ++ rest) front.length bytes =
      some (front ++ bytes ++ rest.drop bytes.length) := by
  rw [writeAt, if_pos (by rw [length_append]; omega)]
  simp [drop_append]

theorem writeName_front (info : EventInfo) (last : Bool) (front : List UInt8) {rest : List UInt8}
    (hfits : info.name.length + 1 ≤ rest.length) :
    writeName info last (front ++ rest) front.length =
      some (front ++ (info.name ++ [if last then 0 else colon]) ++
        rest.drop (info.name.length + 1)) := by
  rw [writeName, writeAt_front front (by simpa using hfits)]
  cases last with
  | true => simp
  | false =>
    have hcolon : [colon].length ≤ ((0 : UInt8) :: rest.drop (info.name.length + 1)).length := by
      simp
    simpa using writeAt_front (front ++ info.name) hcolon

/-- The names are written one behind the other. -/
theorem writeNames_front (infos : List EventInfo) (front : List UInt8) {rest : List UInt8}
    (hfits : (joined infos).length ≤ rest.length) :
    writeNames infos (front ++ rest) front.length =
      some (front ++ joined infos ++ rest.drop (joined infos).length,
        (front ++ joined infos).length) := by
  induction infos generalizing front rest with
  | nil => simp [writeNames, joined]
  | cons info infos ih =>
    rw [joined_cons, length_append, length_append, length_singleton] at hfits
    have hlen : front.length + info.name.length + 1 =
        (front ++ (info.name ++ [if infos.isEmpty then 0 else colon])).length := by
      simp [Nat.add_assoc]
    rw [writeNames, writeName_front info _ front (by omega), Option.bind_eq_bind,
      Option.bind_some, hlen, ih _ (by rw [length_drop]; omega), drop_drop, joined_cons]
    simp [Nat.add_assoc, Nat.add_comm 1]

/-- The number of levels to use is the largest that fits among those seen so far. -/
theorem countFits_spec {size : ℕ} {path : List EventInfo} (infos : List EventInfo)
    {done : List EventInfo} {used : ℕ} (hpath : path = done ++ infos)
    (hused : IsGreatest {n | n ≤ done.length ∧ (joined (path.take n)).length ≤ size} used) :
    ∃ used', countFits size infos done.length (joined done).length used =
        ((joined path).length, used') ∧
      IsGreatest {n | n ≤ path.length ∧ (joined (path.take n)).length ≤ size} used' := by
  induction infos generalizing done used with
  | nil =>
    rw [append_nil] at hpath
    subst hpath
    exact ⟨used, rfl, hused⟩
  | cons info infos ih =>
    have hjoined : (joined done).length + (info.name.length + 1) =
        (joined (done ++ [info])).length := by simp
    have hnext : path.take (done.length + 1) = done ++ [info] := by simp [hpath, take_append]
    have hlen : (done ++ [info]).length = done.length + 1 := length_append
    rw [countFits, hjoined, ← hlen]
    refine ih (by simp [hpath]) ?_
    rw [hlen, ← hnext]
    split_ifs with hfits
    · exact ⟨⟨le_rfl, hfits⟩, fun n hn => hn.1⟩
    · refine ⟨⟨by have := hused.1.1; omega, hused.1.2⟩, fun n hn => hused.2 ⟨?_, hn.2⟩⟩
      have hne : n ≠ done.length + 1 := fun heq => hfits (heq ▸ hn.2)
      have hle := hn.1
      omega

/-- The event is one that the walk looks up. -/
def Registry.Valid (r : Registry) (event : ℕ) : Prop :=
  event ≠ mmpInvalidEvent ∧ event ≤ r.regEventIndex

/-- The event has this entry. -/
def Registry.Registered (r : Registry) (event : ℕ) (info : EventInfo) : Prop :=
  r.Valid event ∧ r.find event = some info

/-- The entry has no parent but the root. -/
def EventInfo.Outermost (info : EventInfo) : Prop :=
  info.parentId = mmpRootEvent ∨ info.parentId = mmpInvalidEvent

/-- The entry `info` belongs to the parent of `child`. -/
def Registry.ParentOf (r : Registry) (child info : EventInfo) : Prop :=
  ¬child.Outermost ∧ r.Registered child.parentId info

/-- The ancestor path of an event, cut at a number of levels: its own entry, then each time the
entry of the parent, up to an outermost one. A path that is cut goes on with a valid event. -/
structure Registry.AncestorPath (r : Registry) (levels event : ℕ) (path : List EventInfo) :
    Prop where
  first : ∃ info, path.head? = some info ∧ r.Registered event info
  links : path.IsChain r.ParentOf
  length_le : path.length ≤ levels
  last : ∀ info ∈ path.getLast?, info.Outermost ∨ path.length = levels ∧ r.Valid info.parentId

theorem Registry.not_ancestorPath_nil (r : Registry) (levels event : ℕ) :
    ¬r.AncestorPath levels event [] := fun ⟨⟨_, hhead, _⟩, _, _, _⟩ => nomatch hhead

/-- A path is one entry, or an entry and the path of its parent. -/
theorem Registry.ancestorPath_cons (r : Registry) (levels event : ℕ) (info : EventInfo)
    (rest : List EventInfo) :
    r.AncestorPath (levels + 1) event (info :: rest) ↔ r.Registered event info ∧
      (rest = [] ∧ (info.Outermost ∨ levels = 0 ∧ r.Valid info.parentId) ∨
        ¬info.Outermost ∧ r.AncestorPath levels info.parentId rest) := by
  have hfirst : (∃ info', (info :: rest).head? = some info' ∧ r.Registered event info') ↔
      r.Registered event info := by simp
  cases rest with
  | nil =>
    constructor
    · rintro ⟨hreg, -, -, hlast⟩
      exact ⟨hfirst.mp hreg, Or.inl ⟨rfl, by simpa [eq_comm] using hlast info rfl⟩⟩
    · rintro ⟨hreg, ⟨-, hlast⟩ | ⟨-, ⟨_, hnone, -⟩, -⟩⟩
      · exact ⟨hfirst.mpr hreg, .singleton _, by simp, by simpa [eq_comm] using hlast⟩
      · cases hnone
  | cons parent rest =>
    constructor
    · rintro ⟨hreg, hlinks, hlen, hlast⟩
      obtain ⟨⟨hout, hparent⟩, hlinks⟩ := isChain_cons_cons.mp hlinks
      exact ⟨hfirst.mp hreg, Or.inr ⟨hout, ⟨parent, rfl, hparent⟩, hlinks, by simpa using hlen,
        by simpa using hlast⟩⟩
    · rintro ⟨hreg, ⟨hnil, -⟩ | ⟨hout, ⟨_, hhead, hparent⟩, hlinks, hlen, hlast⟩⟩
      · cases hnil
      · obtain rfl := Option.some.inj hhead
        exact ⟨hfirst.mpr hreg, isChain_cons_cons.mpr ⟨⟨hout, hparent⟩, hlinks⟩,
          by simpa using hlen, by simpa using hlast⟩

/-- The test of the walk for an event that it does not look up. -/
theorem Registry.not_valid_iff (r : Registry) (event : ℕ) :
    ¬r.Valid event ↔ event = mmpInvalidEvent ∨ r.regEventIndex < event := by
  rw [Valid, not_and_or, not_not, not_le]

/-- The first level of the walk. -/
theorem Registry.eventInfos_succ (r : Registry) (levels event : ℕ) (path : List EventInfo) :
    r.eventInfos (levels + 1) event = some path ↔ ∃ info rest, path = info :: rest ∧
      r.Registered event info ∧ (info.Outermost ∧ rest = [] ∨
        ¬info.Outermost ∧ r.eventInfos levels info.parentId = some rest) := by
  rw [eventInfos]
  by_cases hvalid : r.Valid event
  · rw [if_neg (mt (r.not_valid_iff event).mpr (not_not.mpr hvalid))]
    cases hfind : r.find event with
    | none => simp [Registered, hfind]
    | some info =>
      rw [Option.bind_eq_bind, Option.bind_some]
      by_cases hout : info.Outermost
      · rw [if_pos (show _ ∨ _ from hout)]
        simp [Registered, hfind, hvalid, hout, eq_comm]
      · rw [if_neg (show ¬(_ ∨ _) from hout)]
        cases hrest : r.eventInfos levels info.parentId <;>
          simp [Registered, hfind, hvalid, hout, hrest, eq_comm]
  · simp [if_pos ((r.not_valid_iff event).mp hvalid), Registered, hvalid]

/-- The walk upwards finds exactly the ancestor path. -/
theorem Registry.eventInfos_eq_some_iff (r : Registry) (levels event : ℕ) (path : List EventInfo) :
    r.eventInfos (levels + 1) event = some path ↔ r.AncestorPath (levels + 1) event path := by
  induction levels generalizing event path with
  | zero =>
    have hzero (curr : ℕ) (rest : List EventInfo) :
        r.eventInfos 0 curr = some rest ↔ rest = [] ∧ r.Valid curr := by
      rw [eventInfos]
      by_cases hvalid : r.Valid curr
      · simp [if_neg (mt (r.not_valid_iff curr).mpr (not_not.mpr hvalid)), hvalid, eq_comm]
      · simp [if_pos ((r.not_valid_iff curr).mp hvalid), hvalid]
    rw [eventInfos_succ]
    simp only [hzero]
    cases path with
    | nil => simp [r.not_ancestorPath_nil]
    | cons info rest =>
      rw [ancestorPath_cons]
      have hnone : ¬r.AncestorPath 0 info.parentId rest := by
        rintro ⟨⟨_, hhead, -⟩, -, hlen, -⟩
        rw [length_eq_zero_iff.mp (Nat.le_zero.mp hlen)] at hhead
        cases hhead
      by_cases hout : info.Outermost <;> simp [hout, hnone]
  | succ levels ih =>
    rw [eventInfos_succ]
    simp only [ih]
    cases path with
    | nil => simp [r.not_ancestorPath_nil]
    | cons info rest =>
      rw [ancestorPath_cons]
      by_cases hout : info.Outermost <;> simp [hout]

/-- The call ends whatever the parents are, and no byte outside the buffer is written. If the event
has an ancestor path, cut at 32 levels, then the levels written are the longest run from the event
upwards that fits, outermost first. Otherwise nothing is written. -/
theorem mmprofileGetEventName_spec (r : Registry) (event : ℕ) (name : List UInt8) :
    (∀ path, r.AncestorPath 32 event path → ∃ used text,
      IsGreatest {n | n ≤ path.length ∧ (joined (path.take n).reverse).length ≤ name.length} used ∧
      text = joined (path.take used).reverse ∧
      mmprofileGetEventName r event name =
        some ((text.length : ℤ), text ++ name.drop text.length, (joined path.reverse).length)) ∧
    ((∀ path, ¬r.AncestorPath 32 event path) →
      mmprofileGetEventName r event name = some (-1, name, name.length)) := by
  simp only [← r.eventInfos_eq_some_iff 31]
  unfold mmprofileGetEventName
  cases r.eventInfos 32 event with
  | none => exact ⟨nofun, fun _ => rfl⟩
  | some path =>
    refine ⟨?_, fun hnone => absurd rfl (hnone path)⟩
    rintro _ ⟨⟩
    have hstart : IsGreatest {n | n ≤ 0 ∧ (joined (path.take n)).length ≤ name.length} 0 :=
      ⟨⟨le_rfl, by simp⟩, fun n hn => hn.1⟩
    obtain ⟨used, hcount, hused⟩ := countFits_spec path (nil_append path).symm hstart
    have hcount' : countFits name.length path 0 0 0 = ((joined path).length, used) := hcount
    simp only [← length_joined_reverse (path.take _)] at hused
    have hwrite : writeNames (path.take used).reverse name 0 = some (_, _) :=
      writeNames_front _ [] hused.1.2
    refine ⟨used, _, hused, rfl, ?_⟩
    simp only [hcount', hwrite]
    rw [length_joined_reverse path]
    rfl

/-- A registry in which the event 2 has the parent 3, whose parent is the root. -/
def twoLevels : Registry := ⟨[⟨1, [114]⟩, ⟨3, [97, 98]⟩, ⟨1, [99]⟩], 3⟩

/-- Both levels fit into six bytes, and the last byte is left alone. -/
theorem mmprofileGetEventName_twoLevels :
    twoLevels.AncestorPath 32 2 [⟨3, [97, 98]⟩, ⟨1, [99]⟩] ∧
    mmprofileGetEventName twoLevels 2 [0, 0, 0, 0, 0, 7] = some (5, [99, 58, 97, 98, 0, 7], 5) ∧
    ∃ text, mmprofileGetEventName twoLevels 2 [0, 0, 0, 0, 0, 7] =
      some ((text.length : ℤ), text ++ drop text.length [0, 0, 0, 0, 0, 7], 5) := by
  have hpath := (twoLevels.eventInfos_eq_some_iff 31 2 [⟨3, [97, 98]⟩, ⟨1, [99]⟩]).mp (by decide)
  have hspec := (mmprofileGetEventName_spec twoLevels 2 [0, 0, 0, 0, 0, 7]).1 _ hpath
  obtain ⟨-, text, -, -, heq⟩ := hspec
  exact ⟨hpath, by decide, text, heq⟩

end Mt8169.Mmp
