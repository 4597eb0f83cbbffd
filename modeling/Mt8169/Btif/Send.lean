import Mathlib.Tactic.ByContra
import Mathlib.Tactic.SplitIfs
import Mt8169.Lib.Runs

/-!
# Sending through the transmit FIFO

In the single-context mode `btif_send_data` puts the buffer of its caller into a FIFO, and a worker
hands the bytes in pieces to the hardware, which may accept any part of a piece. A buffer that does
not fit is refused, but the part that fits is in the FIFO by then and is sent like any other bytes.
-/

namespace Mt8169.Btif

open List

variable {α : Type*}

/-- A FIFO with room for `size` elements. -/
structure Kfifo (α : Type*) where
  size : ℕ
  elems : List α
  length_le : elems.length ≤ size

namespace Kfifo

def empty (size : ℕ) : Kfifo α := ⟨size, [], Nat.zero_le size⟩

/-- `kfifo_avail`. -/
def avail (q : Kfifo α) : ℕ := q.size - q.elems.length

/-- As much of the buffer as fits goes in. The result is the number of elements put in. -/
def kfifoIn (q : Kfifo α) (buf : List α) : ℕ × Kfifo α :=
  (min buf.length q.avail,
    { q with
      elems := q.elems ++ buf.take (min buf.length q.avail)
      length_le := by
        have := q.length_le
        simp only [avail, length_append, length_take]
        omega })

/-- At most `n` elements are taken out. -/
def kfifoOut (q : Kfifo α) (n : ℕ) : List α × Kfifo α :=
  (q.elems.take n,
    { q with
      elems := q.elems.drop n
      length_le := by
        have := q.length_le
        rw [length_drop]
        omega })

end Kfifo

/-- The size of the buffer of the worker. -/
def localBufSize : ℕ := 384

/-- `btif_tx_worker`. -/
inductive TxWorker (α : Type*) where
  | idle
  /-- The worker has taken some bytes out of the FIFO and sent `lengSent` of them. -/
  | sending (localBuf : List α) (lengSent : ℕ)

/-- The bytes that the worker has taken out and not sent. -/
def TxWorker.held : TxWorker α → List α
  | .idle => []
  | .sending localBuf lengSent => localBuf.drop lengSent

/-- The transmit side of the device in the single-context mode. -/
structure TxPath (α : Type*) where
  txFifo : Kfifo α
  /-- The work of the worker is queued. -/
  queued : Bool
  worker : TxWorker α
  /-- The bytes that the lower layer has accepted. -/
  wire : List α
  /-- The buffers whose calls returned their full length. -/
  accepted : List (List α)

inductive TxEvent (α : Type*) where
  | send (buf : List α)
  /-- The work queue runs the worker. -/
  | work
  /-- The worker goes on. If it hands over bytes, the lower layer accepts at most `n` of them. -/
  | lower (n : ℕ)

namespace TxPath

def start (size : ℕ) : TxPath α where
  txFifo := .empty size
  queued := false
  worker := .idle
  wire := []
  accepted := []

variable (s : TxPath α)

/-- The single-context mode. The result is the return value. -/
def btifSendData (buf : List α) : ℕ × TxPath α :=
  let (length, txFifo) := s.txFifo.kfifoIn buf
  if length = buf.length then (length, { s with txFifo := txFifo, queued := true })
  else (0, { s with txFifo := txFifo })

/-- The worker fills its buffer and returns if there is nothing. -/
def refill : TxPath α :=
  let (localBuf, txFifo) := s.txFifo.kfifoOut localBufSize
  { s with txFifo := txFifo, worker := if 0 < localBuf.length then .sending localBuf 0 else .idle }

def step : TxEvent α → TxPath α
  | .send buf =>
    let (ret, s') := s.btifSendData buf
    if ret = buf.length then { s' with accepted := s.accepted ++ [buf] } else s'
  | .work =>
    match s.worker with
    | .idle =>
      if s.queued then
        let (localBuf, txFifo) := s.txFifo.kfifoOut localBufSize
        { s with queued := false, txFifo := txFifo, worker := .sending localBuf 0 }
      else s
    | .sending _ _ => s
  | .lower n =>
    match s.worker with
    | .idle => s
    | .sending localBuf lengSent =>
      if lengSent < localBuf.length then
        let sent := (localBuf.drop lengSent).take n
        { s with wire := s.wire ++ sent, worker := .sending localBuf (lengSent + sent.length) }
      else s.refill

/-- What has been handed to the hardware and what is on the way to it. -/
def stream : List α := s.wire ++ s.worker.held ++ s.txFifo.elems

/-- Nothing will happen before the next call. -/
def Resting : Prop := s.queued = false ∧ s.worker = .idle

/-- What is handed to the hardware are the accepted buffers in order and nothing else: with what is
on its way, and alone when everything is at rest. -/
structure StreamRight (s : TxPath α) : Prop where
  stream_eq : s.stream = s.accepted.flatten
  wire_eq : s.Resting → s.wire = s.accepted.flatten

/-- A call finds room for its whole buffer or no room at all. -/
def Fits : TxEvent α → Prop
  | .send buf => buf.length ≤ s.txFifo.avail ∨ s.txFifo.avail = 0
  | .work | .lower _ => True

instance (s : TxPath α) : ∀ e : TxEvent α, Decidable (s.Fits e)
  | .send buf => inferInstanceAs (Decidable (buf.length ≤ s.txFifo.avail ∨ s.txFifo.avail = 0))
  | .work | .lower _ => .isTrue trivial

/-- What is in the FIFO will be taken out. -/
def Scheduled : Prop := s.Resting → s.txFifo.elems = []

variable {s : TxPath α} {buf : List α}

theorem step_send_of_le (h : buf.length ≤ s.txFifo.avail) :
    s.step (.send buf) =
      { s with
        txFifo := (s.txFifo.kfifoIn buf).2
        queued := true
        accepted := s.accepted ++ [buf] } := by
  have hlength : (s.txFifo.kfifoIn buf).1 = buf.length := Nat.min_eq_left h
  simp only [step, btifSendData, hlength, if_true]

theorem step_send_of_lt (h : s.txFifo.avail < buf.length) :
    s.step (.send buf) = { s with txFifo := (s.txFifo.kfifoIn buf).2 } := by
  have hlength : (s.txFifo.kfifoIn buf).1 ≠ buf.length := by
    simp only [Kfifo.kfifoIn]
    omega
  have hpos : 0 ≠ buf.length := by omega
  simp only [step, btifSendData, hlength, if_false, hpos]

/-- A send that fits is appended to the stream. -/
theorem stream_send_of_le (h : buf.length ≤ s.txFifo.avail) :
    (s.step (.send buf)).stream = s.stream ++ buf := by
  rw [step_send_of_le h]
  simp [stream, Kfifo.kfifoIn, Nat.min_eq_left h]

/-- A send that does not fit loses its end. -/
theorem stream_send_of_lt (h : s.txFifo.avail < buf.length) :
    (s.step (.send buf)).stream = s.stream ++ buf.take s.txFifo.avail := by
  rw [step_send_of_lt h]
  simp [stream, Kfifo.kfifoIn, Nat.min_eq_right (Nat.le_of_lt h)]

theorem refill_worker (s : TxPath α) :
    s.refill.worker =
      if 0 < (s.txFifo.elems.take localBufSize).length
      then .sending (s.txFifo.elems.take localBufSize) 0
      else .idle := rfl

theorem stream_refill (hheld : s.worker.held = []) : s.refill.stream = s.stream := by
  have hnew : s.refill.worker.held = s.txFifo.elems.take localBufSize := by
    rw [refill_worker]
    split_ifs with hsome
    · exact drop_zero
    · exact (length_eq_zero_iff.mp (Nat.eq_zero_of_not_pos hsome)).symm
  rw [stream, hnew]
  simp [stream, hheld, refill, Kfifo.kfifoOut]

theorem elems_refill (h : s.refill.worker = .idle) : s.refill.txFifo.elems = [] := by
  rw [refill_worker] at h
  split_ifs at h with hsome
  rw [length_take] at hsome
  have hpos : 0 < localBufSize := by decide
  have hempty : s.txFifo.elems = [] := length_eq_zero_iff.mp (by omega)
  simp [refill, Kfifo.kfifoOut, hempty]

/-- No other event changes the stream. -/
theorem stream_step {e : TxEvent α} (he : ∀ buf, e ≠ .send buf) :
    (s.step e).stream = s.stream ∧ (s.step e).accepted = s.accepted := by
  cases e with
  | send buf => exact absurd rfl (he buf)
  | work =>
    cases hworker : s.worker with
    | sending localBuf lengSent => simp only [step, hworker, and_self]
    | idle =>
      simp only [step, hworker]
      split_ifs
      · simp [stream, hworker, TxWorker.held, Kfifo.kfifoOut]
      · exact ⟨rfl, rfl⟩
  | lower n =>
    cases hworker : s.worker with
    | idle => simp only [step, hworker, and_self]
    | sending localBuf lengSent =>
      simp only [step, hworker]
      split_ifs with hlt
      · refine ⟨?_, rfl⟩
        -- what the lower layer takes leaves the buffer at its front
        have hsplit := take_append_drop n (localBuf.drop lengSent)
        have hrest : localBuf.drop (lengSent + ((localBuf.drop lengSent).take n).length) =
            (localBuf.drop lengSent).drop n := by
          rw [← drop_drop, length_take]
          rcases Nat.le_total n (localBuf.drop lengSent).length with hle | hle
          · rw [Nat.min_eq_left hle]
          · rw [Nat.min_eq_right hle, drop_length, drop_eq_nil_of_le hle]
        simp only [stream, TxWorker.held, hworker, hrest, append_assoc]
        rw [← append_assoc (take n _), hsplit]
      · refine ⟨stream_refill ?_, rfl⟩
        rw [hworker]
        exact drop_eq_nil_of_le (Nat.le_of_not_lt hlt)

/-- As long as all sends fit, the worker is scheduled while there is data. -/
theorem Scheduled.step (h : s.Scheduled) {e : TxEvent α} (hfits : s.Fits e) :
    (s.step e).Scheduled := by
  cases e with
  | send buf =>
    by_cases hle : buf.length ≤ s.txFifo.avail
    · rw [step_send_of_le hle]
      exact fun hrest => absurd hrest.1 (by simp)
    · have hzero : s.txFifo.avail = 0 := hfits.resolve_left hle
      rw [step_send_of_lt (Nat.lt_of_not_le hle)]
      intro hrest
      simp [Kfifo.kfifoIn, hzero, h hrest]
  | work =>
    cases hworker : s.worker with
    | sending localBuf lengSent => simpa only [TxPath.step, hworker] using h
    | idle =>
      simp only [TxPath.step, hworker]
      split_ifs
      · exact fun hrest => nomatch hrest.2
      · exact h
  | lower n =>
    cases hworker : s.worker with
    | idle => simpa only [TxPath.step, hworker] using h
    | sending localBuf lengSent =>
      simp only [TxPath.step, hworker]
      split_ifs
      · exact fun hrest => nomatch hrest.2
      · exact fun hrest => elems_refill hrest.2

theorem Scheduled.streamRight (h : s.Scheduled) (hstream : s.stream = s.accepted.flatten) :
    s.StreamRight where
  stream_eq := hstream
  wire_eq hrest := by
    rw [← hstream, stream, hrest.2, h hrest]
    simp [TxWorker.held]

/-- A step keeps the stream right exactly if its send fits. -/
theorem streamRight_step_iff (hstream : s.stream = s.accepted.flatten) (hsched : s.Scheduled)
    (e : TxEvent α) : (s.step e).StreamRight ↔ s.Fits e := by
  constructor
  · intro hright
    cases e with
    | work | lower => trivial
    | send buf =>
      by_contra hbad
      have hlt : s.txFifo.avail < buf.length := by
        simp only [Fits] at hbad
        omega
      have hkept := hright.stream_eq
      rw [stream_send_of_lt hlt, step_send_of_lt hlt, hstream] at hkept
      have hnil : buf.take s.txFifo.avail = [] := by simpa using hkept
      have hlength := congrArg length hnil
      simp only [length_take, length_nil] at hlength
      simp only [Fits] at hbad
      omega
  · intro hfits
    apply (hsched.step hfits).streamRight
    cases e with
    | work =>
      obtain ⟨hsame, haccepted⟩ := stream_step (s := s) (e := .work) nofun
      rw [hsame, haccepted, hstream]
    | lower n =>
      obtain ⟨hsame, haccepted⟩ := stream_step (s := s) (e := .lower n) nofun
      rw [hsame, haccepted, hstream]
    | send buf =>
      by_cases hle : buf.length ≤ s.txFifo.avail
      · rw [stream_send_of_le hle, step_send_of_le hle, hstream]
        simp
      · have hzero : s.txFifo.avail = 0 := hfits.resolve_left hle
        rw [stream_send_of_lt (Nat.lt_of_not_le hle), step_send_of_lt (Nat.lt_of_not_le hle),
          hstream, hzero]
        simp

theorem start_streamRight (size : ℕ) : (start size : TxPath α).StreamRight where
  stream_eq := by simp [stream, start, TxWorker.held, Kfifo.empty]
  wire_eq _ := by simp [start]

/-- Over every sequence of calls and steps of the worker, what is handed to the hardware are the
buffers whose calls returned their full length, in order, and nothing else, exactly if every call
finds room for its whole buffer or none at all. -/
theorem streamRight_iff_fits (size : ℕ) (events : List (TxEvent α)) :
    (∀ pre, pre <+: events → (pre.foldl step (start size)).StreamRight) ↔
      Runs.RunOk step Fits (start size) events := by
  have hgood (s : TxPath α) (h : s.stream = s.accepted.flatten ∧ s.Scheduled) : s.StreamRight :=
    h.2.streamRight h.1
  have hkeep (s : TxPath α) (e : TxEvent α) (h : s.stream = s.accepted.flatten ∧ s.Scheduled)
      (hfits : s.Fits e) :
      (s.step e).stream = (s.step e).accepted.flatten ∧ (s.step e).Scheduled :=
    ⟨((streamRight_step_iff h.1 h.2 e).mpr hfits).stream_eq, h.2.step hfits⟩
  exact Runs.forall_prefix_iff_runOk hgood (fun s e h => streamRight_step_iff h.1 h.2 e) hkeep
    ⟨(start_streamRight size).stream_eq, fun _ => rfl⟩ events

/-- A FIFO of four bytes: the second call is refused, and the first byte of its buffer is sent. -/
def refusedRun : List (TxEvent ℕ) :=
  [.send [1, 2, 3], .send [4, 5], .work, .lower 4, .lower 1]

/-- The first call alone was accepted, and a byte of the second one is on the wire. -/
theorem not_streamRight_refused :
    (refusedRun.foldl step (start 4)).accepted = [[1, 2, 3]] ∧
      (refusedRun.foldl step (start 4)).wire = [1, 2, 3, 4] ∧
      ¬ (refusedRun.foldl step (start 4)).StreamRight := by
  refine ⟨by decide, by decide, fun h => ?_⟩
  have hstream := h.stream_eq
  revert hstream
  decide

end TxPath

end Mt8169.Btif
