import Mt8169.Lib.Processes
import Mt8169.TrustedMem.Region

/-!
# Chunks against the deferred power-off

Any number of `tmem_core_alloc_chunk` and `tmem_core_unref_chunk` calls on one device run beside the
deferred power-off. A step is what a call or the handler does under one mutex. The lock of the
region manager is held over several steps, since powering on and off takes the lock of the session
repeatedly. The allocation of a chunk and its release are one process: what a chunk has gone through
is where its process stands. All operations of the driver succeed.
-/

namespace Mt8169.TrustedMem

open Processes Runs List

/-- Who holds the lock of the region manager. -/
inductive Holder
  | handler
  | call (i : ℕ)
deriving DecidableEq

/-- Where `regmgr_defer_off_handler` stands: before the test of the count, in
`peer_mgr_mem_remove_locked` before its test of the session and before `memory_reclaim`, in
`peer_mgr_session_close_locked`, and before giving the memory back. -/
inductive Handler
  | idle
  | test
  | ready
  | reclaim
  | closeReady
  | close
  | finish
deriving DecidableEq

/-- Where `trusted_mem_region_poweron` stands: in `peer_mgr_session_open_locked`, in
`peer_mgr_mem_add_locked`, and at its end. -/
inductive Power
  | openReady
  | open
  | addReady
  | grant
  | finish
  | fail
deriving DecidableEq

/-- Where the calls on a chunk stand. -/
inductive Chunk
  /-- `regmgr_online`, before the cancelling of the handler and before the lock. -/
  | cancel
  | online
  | onlinePower (p : Power)
  /-- `peer_mgr_chunk_alloc_locked`, before the test of the session and before `memory_alloc`. -/
  | ready
  | alloc
  /-- `regmgr_offline` after a failure. -/
  | abort
  /-- `regmgr_region_ref_inc` -/
  | ref
  | refPower (p : Power)
  /-- The chunk is with the caller. -/
  | returned
  /-- `tmem_core_unref_chunk`: the test of the region, `peer_mgr_chunk_free_locked`,
  `regmgr_region_ref_dec` and `regmgr_offline`. -/
  | unrefOn
  | unrefReady
  | unrefFree
  | unrefDec
  | unrefQueue
  | finished
deriving DecidableEq

/-- What the calls and the handler share: the region manager with its lock, the session, and
whether the handler is queued. -/
structure Shared where
  region : RegionState
  opened : Bool
  keepAlive : Bool
  validRefCount : ℕ
  lock : Option Holder
  queued : Bool
  handler : Handler

namespace Shared

/-- How a step of the power-on ends. -/
inductive PowerEnd
  | at (p : Power)
  | ok
  | failed

/-- A step of `trusted_mem_region_poweron`, under the lock of the region manager. -/
def power (s : Shared) : Power → PowerEnd × Shared
  | .openReady => (.at (if s.opened then .addReady else .open), s)
  | .open => (.at .addReady, { s with opened := true })
  | .addReady => (.at (if s.opened then .grant else .fail), s)
  | .grant => (.at .finish, s)
  | .finish => (.ok, { s with region := .on, lock := none })
  | .fail => (.failed, { s with lock := none })

/-- A step of the calls on a chunk. A call that has to wait for the lock, or for the handler to
finish, stays where it is. -/
def advance (s : Shared) (i : ℕ) : Chunk → Chunk × Shared
  | .cancel =>
    if s.handler = .idle then (.online, { s with queued := false }) else (.cancel, s)
  | .online =>
    if s.lock ≠ none then (.online, s)
    else if s.region = .on then (.ready, s)
    else (.onlinePower .openReady, { s with lock := some (.call i) })
  | .onlinePower p =>
    match s.power p with
    | (.at p, s) => (.onlinePower p, s)
    | (.ok, s) => (.ready, s)
    | (.failed, s) => (.finished, s)
  | .ready => (if s.opened then .alloc else .abort, s)
  | .alloc => (.ref, s)
  | .abort => (.finished, { s with queued := true })
  | .ref =>
    if s.lock ≠ none then (.ref, s)
    else if s.region = .on then (.returned, { s with validRefCount := s.validRefCount + 1 })
    else
      (.refPower .openReady,
        { s with validRefCount := s.validRefCount + 1, lock := some (.call i) })
  | .refPower p =>
    match s.power p with
    | (.at p, s) => (.refPower p, s)
    | (.ok, s) => (.returned, s)
    | (.failed, s) => (.returned, s)
  | .returned => (.returned, s)
  | .unrefOn =>
    if s.lock ≠ none then (.unrefOn, s)
    else (if s.region = .on then .unrefReady else .returned, s)
  | .unrefReady => (if s.opened then .unrefFree else .returned, s)
  | .unrefFree => (.unrefDec, s)
  | .unrefDec =>
    if s.lock ≠ none then (.unrefDec, s)
    else
      (.unrefQueue,
        { s with validRefCount := if s.validRefCount = 0 then 0 else s.validRefCount - 1 })
  | .unrefQueue => (.finished, { s with queued := true })
  | .finished => (.finished, s)

/-- A step of `regmgr_defer_off_handler`, which starts if it is queued. -/
def work (s : Shared) : Shared :=
  match s.handler with
  | .idle => if s.queued then { s with queued := false, handler := .test } else s
  | .test =>
    if s.lock ≠ none then s
    else if s.validRefCount = 0 ∧ s.region = .on then
      { s with lock := some .handler, handler := .ready }
    else { s with handler := .idle }
  | .ready =>
    if s.opened then { s with handler := .reclaim }
    else { s with lock := none, handler := .idle }
  | .reclaim => { s with handler := .closeReady }
  | .closeReady =>
    if s.opened ∧ ¬ s.keepAlive then { s with handler := .close }
    else { s with handler := .finish }
  | .close => { s with opened := false, handler := .finish }
  | .finish => { s with region := .off, lock := none, handler := .idle }

end Shared

/-- The device with the calls on its chunks. -/
abbrev Chunks := System Shared Chunk

namespace Chunks

variable {s : Chunks} {c : Chunk}

/-- What happens: a call of `tmem_core_alloc_chunk`, a call of `tmem_core_unref_chunk` for a chunk,
a step of the calls on a chunk, or a step of the handler. -/
inductive Event
  | allocChunk
  | unrefChunk (i : ℕ)
  | call (i : ℕ)
  | work
deriving DecidableEq

/-- A chunk is released by the caller who has it. -/
def unref (c : Chunk) : Chunk := if c = .returned then .unrefOn else c

def step (s : Chunks) : Event → Chunks
  | .allocChunk => { s with procs := s.procs ++ [.cancel] }
  | .unrefChunk i => s.move (fun shared _ c => (unref c, shared)) i
  | .call i => s.move Shared.advance i
  | .work => { s with shared := s.shared.work }

/-- A device as it is created, with no call made. -/
def created (keepAlive : Bool) : Chunks := ⟨⟨.off, false, keepAlive, 0, none, false, .idle⟩, []⟩

/-- The chunk was returned by `memory_alloc` and not yet passed to `memory_free`. -/
def Live : Chunk → Prop
  | .ref | .refPower _ | .returned | .unrefOn | .unrefReady | .unrefFree => True
  | _ => False

instance : (c : Chunk) → Decidable (Live c)
  | .ref | .refPower _ | .returned | .unrefOn | .unrefReady | .unrefFree => .isTrue trivial
  | .cancel | .online | .onlinePower _ | .ready | .alloc | .abort | .unrefDec | .unrefQueue
  | .finished => .isFalse id

/-- The event is the call of `memory_reclaim`. -/
def Reclaims (s : Chunks) (e : Event) : Prop := e = .work ∧ s.shared.handler = .reclaim
  deriving Decidable

/-- `memory_reclaim` is not called with a live chunk. -/
def Safe (s : Chunks) (e : Event) : Prop := s.Reclaims e → ∀ c ∈ s.procs, ¬ Live c
  deriving Decidable

/-- `memory_reclaim` is not called while a chunk was allocated and its reference is not yet
counted. -/
def NoneUncounted (s : Chunks) (e : Event) : Prop := s.Reclaims e → ∀ c ∈ s.procs, c ≠ .ref

/-- The references counted for a chunk. -/
def references : Chunk → ℕ
  | .refPower _ | .returned | .unrefOn | .unrefReady | .unrefFree | .unrefDec => 1
  | _ => 0

/-- The calls on a chunk are in a power-on. -/
def Powering : Chunk → Prop
  | .onlinePower _ | .refPower _ => True
  | _ => False

/-- A chunk whose calls are in a power-on holds the lock. -/
def Holds (s : Shared) (i : ℕ) (c : Chunk) : Prop := Powering c → s.lock = some (.call i)

/-- The handler in the power-off holds the lock, having found no reference. -/
structure Guarded (s : Shared) : Prop where
  lock : s.handler ≠ .idle → s.handler ≠ .test → s.lock = some .handler
  count : s.handler = .ready ∨ s.handler = .reclaim → s.validRefCount = 0

/-- The count is the number of the references, and calls in a power-on and the handler in the
power-off hold the lock. -/
structure Ordered (s : Chunks) : Prop where
  count : s.shared.validRefCount = System.total references s.procs
  calls : ∀ i c, s.procs[i]? = some c → Holds s.shared i c
  handler : Guarded s.shared

theorem power_spec (s : Shared) (p : Power) :
    (s.power p).2.validRefCount = s.validRefCount ∧ (s.power p).2.handler = s.handler ∧
      (∀ q, (s.power p).1 = .at q → (s.power p).2.lock = s.lock) ∧
      ((∀ q, (s.power p).1 ≠ .at q) → (s.power p).2.lock = none) := by
  cases p <;> simp [Shared.power]

/-- A step moves the count along with the references of the chunk. -/
theorem advance_count (s : Shared) (i : ℕ) (c : Chunk) (h : references c ≤ s.validRefCount) :
    (s.advance i c).2.validRefCount + references c =
      s.validRefCount + references (s.advance i c).1 := by
  fun_cases Shared.advance s i c <;> grind [references, power_spec]

/-- How a step of process `i` may change the lock: not at all, or from free to its own, or from its
own to free. -/
def LockStep (i : ℕ) (before after : Option Holder) : Prop :=
  after = before ∨ (before = none ∧ after = some (.call i)) ∨
    (before = some (.call i) ∧ after = none)

/-- A step takes the lock when it is free, and gives back its own. -/
theorem advance_lock {s : Shared} {i : ℕ} (h : Holds s i c) :
    LockStep i s.lock (s.advance i c).2.lock ∧ Holds (s.advance i c).2 i (s.advance i c).1 := by
  fun_cases Shared.advance s i c <;> grind [power_spec, LockStep, Holds, Powering]

theorem advance_guarded {s : Shared} {i : ℕ} (h : Holds s i c) (hguarded : Guarded s) :
    Guarded (s.advance i c).2 := by
  obtain ⟨hlock, hcount⟩ := hguarded
  constructor <;> fun_cases Shared.advance s i c <;> grind [power_spec, Holds, Powering]

theorem work_spec {s : Shared} (h : Guarded s) :
    (s.work.lock = s.lock ∨ s.lock = none ∨ s.lock = some .handler) ∧
      s.work.validRefCount = s.validRefCount ∧ Guarded s.work := by
  obtain ⟨hlock, hcount⟩ := h
  refine ⟨?_, ?_, ?_, ?_⟩ <;> fun_cases Shared.work s <;> grind

theorem unref_spec (s : Shared) (i : ℕ) (c : Chunk) :
    references (unref c) = references c ∧ (Holds s i (unref c) ↔ Holds s i c) := by
  by_cases hc : c = .returned
  · subst hc
    exact ⟨rfl, Iff.rfl⟩
  · have hsame : unref c = c := if_neg hc
    rw [hsame]
    exact ⟨rfl, Iff.rfl⟩

theorem Ordered.allocChunk (h : Ordered s) : Ordered (s.step .allocChunk) := by
  refine ⟨?_, ?_, h.handler⟩
  · exact h.count.trans (System.total_append references s.procs .cancel).symm
  · intro i c hc
    rcases Nat.lt_or_ge i s.procs.length with hi | hi
    · rw [show (s.step .allocChunk).procs[i]? = s.procs[i]? from getElem?_append_left hi] at hc
      exact h.calls i c hc
    · have hmem := mem_of_getElem? ((getElem?_append_right hi).symm.trans hc)
      obtain rfl := mem_singleton.mp hmem
      exact fun hpower => hpower.elim

theorem Ordered.unrefChunk (h : Ordered s) (i : ℕ) : Ordered (s.step (.unrefChunk i)) := by
  have hshared : (s.step (.unrefChunk i)).shared = s.shared := by
    simp only [Chunks.step, System.move]
    split <;> rfl
  refine ⟨?_, ?_, hshared ▸ h.handler⟩
  · apply System.count_move references h.count
    intro c _ _
    rw [(unref_spec s.shared i c).1]
  · apply System.forall_move h.calls
    · exact fun c hc => (unref_spec s.shared i c).2.mpr (h.calls i c hc)
    · exact fun _ j c _ _ hc => h.calls j c hc

theorem Ordered.call (h : Ordered s) (i : ℕ) : Ordered (s.step (.call i)) := by
  refine ⟨?_, ?_, ?_⟩
  · exact System.count_move references h.count (fun c _ hle => advance_count s.shared i c hle)
  · apply System.forall_move h.calls
    · exact fun c hc => (advance_lock (h.calls i c hc)).2
    · intro c j q hc hj hq hpower
      have hlock := h.calls j q hq hpower
      rcases (advance_lock (h.calls i c hc)).1 with hsame | ⟨hfree, -⟩ | ⟨hmine, -⟩
      · exact hsame.trans hlock
      · rw [hlock] at hfree
        cases hfree
      · rw [hlock] at hmine
        exact absurd (Holder.call.inj (Option.some.inj hmine)) hj
  · simp only [Chunks.step, System.move]
    cases hc : s.procs[i]? with
    | none => exact h.handler
    | some c => exact advance_guarded (h.calls i c hc) h.handler

/-- Every event keeps the order. -/
theorem Ordered.step (h : Ordered s) (e : Event) : Ordered (s.step e) := by
  cases e with
  | allocChunk => exact h.allocChunk
  | unrefChunk i => exact h.unrefChunk i
  | call i => exact h.call i
  | work =>
    obtain ⟨hlock, hcount, hhandler⟩ := work_spec h.handler
    refine ⟨hcount.trans h.count, ?_, hhandler⟩
    intro i c hc hpower
    have hmine := h.calls i c hc hpower
    rcases hlock with hsame | hfree | hheld
    · exact hsame.trans hmine
    · rw [hmine] at hfree
      cases hfree
    · rw [hmine] at hheld
      cases hheld

theorem created_ordered (keepAlive : Bool) : Ordered (created keepAlive) :=
  ⟨rfl, fun _ _ hc => by simp [created] at hc, fun h => absurd rfl h, fun _ => rfl⟩

theorem live_iff_of_references_eq_zero (h : references c = 0) : Live c ↔ c = .ref := by
  cases c <;> simp_all [Live, references]

/-- An event is safe exactly if no live chunk goes uncounted. -/
theorem safe_iff_noneUncounted (h : Ordered s) (e : Event) : s.Safe e ↔ s.NoneUncounted e := by
  apply imp_congr_right
  intro hreclaims
  have hzero : s.shared.validRefCount = 0 := h.handler.count (.inr hreclaims.2)
  apply forall₂_congr
  intro c hc
  have hle := System.weight_le_total references hc
  rw [← h.count, hzero] at hle
  rw [live_iff_of_references_eq_zero (Nat.le_zero.mp hle)]

/-- In every interleaving, `memory_reclaim` is never called with a live chunk exactly when it is
never called while a call stands between `memory_alloc` and `regmgr_region_ref_inc`. -/
theorem run_safe_iff (keepAlive : Bool) (es : List Event) :
    RunOk step Safe (created keepAlive) es ↔ RunOk step NoneUncounted (created keepAlive) es := by
  apply runOk_congr Ordered
  · exact fun s e hs => safe_iff_noneUncounted hs e
  · exact fun s e hs _ => hs.step e
  · exact created_ordered keepAlive

/-- A chunk is allocated and returned. A second call goes through `regmgr_online` and the test of
the session; the first chunk is released, which queues the handler; the second call gets its chunk
and the handler runs. -/
def lateReference : List Event :=
  [.allocChunk] ++ replicate 10 (.call 0) ++ [.allocChunk, .call 1, .call 1, .call 1] ++
    [.unrefChunk 0] ++ replicate 5 (.call 0) ++ [.call 1] ++ replicate 4 .work

/-- The memory is reclaimed with the second chunk live. -/
theorem not_run_safe_lateReference : ¬ RunOk step Safe (created false) lateReference := by
  decide

end Chunks

end Mt8169.TrustedMem
