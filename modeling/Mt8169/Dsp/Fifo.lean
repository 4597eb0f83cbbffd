import Mt8169.Dsp.Ringbuf
import Mt8169.Lib.Runs

/-!
# The ring buffer as a queue

A ring that never drops is compared with a queue: a write appends what it takes of its data, a read
returns the oldest bytes and a flush removes them. A write that does not fit is cut to four bytes
less than the free part, which is a negative length for less than four bytes.
-/

namespace Mt8169.Dsp

open CircularBuffer MachineInt Runs Ringbuf List Int

variable {α : Type*}

/-- The ring has its pointers in the buffer and holds the queue `q`. -/
structure Ringbuf.Holds (r : Ringbuf) (m : ℤ → α) (q : List α) : Prop where
  inside : r.Inside
  used : r.getUsedSize = q.length
  contents_eq : contents m r.base r.size r.rp q.length = q

namespace Ringbuf

variable {r : Ringbuf} {m : ℤ → α} {q : List α}

/-- The readable content of a ring. -/
def content (r : Ringbuf) (m : ℤ → α) : List α :=
  contents m r.base r.size r.rp r.getUsedSize.toNat

theorem Inside.holds (h : r.Inside) (m : ℤ → α) : r.Holds m (r.content m) := by
  have hused := h.getUsedSize_bounds.1
  refine ⟨h, ?_, ?_⟩
  · rw [content, length_contents]
    omega
  · rw [content, length_contents]

section

variable (h : r.Holds m q) {len : ℤ}
include h

theorem Holds.content_eq : r.content m = q := by
  rw [content, h.used, toNat_natCast, h.contents_eq]

theorem Holds.length_lt : q.length < r.size := by
  rw [← h.used]
  exact h.inside.getUsedSize_bounds.2

theorem Holds.wp_eq : r.wp = cell r.base r.size r.rp q.length := by
  rw [← h.used]
  exact h.inside.wp_eq_cell

/-- A read returns the oldest bytes. -/
theorem Holds.read_eq (hlen : 0 < len) :
    r.read m len = some (q.take (min len q.length).toNat, min len q.length) := by
  have hmin : (min len q.length).toNat ≤ q.length := by omega
  rw [h.inside.read_eq m hlen, h.used, ← take_contents hmin, h.contents_eq]

theorem Holds.moveRp {k : ℕ} (hk : k ≤ q.length) (d : ℤ) :
    ({ r with rp := cell r.base r.size r.rp k, drop := d } : Ringbuf).Holds m (q.drop k) := by
  have hsize := h.inside.size_pos
  have hrp : r.base ≤ cell r.base r.size r.rp k := base_le_cell hsize
  have hrp' : cell r.base r.size r.rp k < r.limit := by
    have hlt := @cell_lt r.base r.size r.rp k hsize
    unfold size at hlt ⊢
    omega
  refine ⟨⟨hrp, hrp', h.inside.base_le_wp, h.inside.wp_lt⟩, ?_, ?_⟩
  · have hlen := h.length_lt
    have hsum : (k : ℤ) + (q.length - k : ℕ) = q.length := by omega
    have hwp : r.wp = cell r.base r.size (cell r.base r.size r.rp k) (q.length - k : ℕ) := by
      rw [cell_cell, hsum, h.wp_eq]
    have hlt : ((q.length - k : ℕ) : ℤ) < r.size := by omega
    rw [length_drop]
    exact getUsedSize_of_wp hrp hrp' (by omega) hlt hwp
  · rw [length_drop]
    exact (drop_contents hk).symm.trans (congrArg (List.drop k) h.contents_eq)

/-- A flush takes the oldest bytes. -/
theorem Holds.flush (hlen : 0 < len) :
    (r.flush len).2 = min len q.length ∧
      (r.flush len).1.Holds m (q.drop (min len q.length).toNat) := by
  rw [h.inside.flush_eq hlen, h.used]
  refine ⟨rfl, ?_⟩
  have hmove := h.moveRp (k := (min len q.length).toNat) (by omega) r.drop
  rwa [toNat_of_nonneg (by omega)] at hmove

theorem Holds.moveWp {m' : ℤ → α} {xs : List α}
    (hstored : Stored m m' r.base r.size r.wp xs) (hroom : q.length + xs.length < r.size) :
    ({ r with wp := cell r.base r.size r.wp xs.length } : Ringbuf).Holds m' (q ++ xs) := by
  have hsize := h.inside.size_pos
  have hwp : cell r.base r.size r.wp xs.length =
      cell r.base r.size r.rp ((q ++ xs).length : ℕ) := by
    rw [h.wp_eq, cell_cell, length_append, natCast_add]
  have hused : ({ r with wp := cell r.base r.size r.wp xs.length } : Ringbuf).getUsedSize =
      (q ++ xs).length := by
    refine getUsedSize_of_wp h.inside.base_le_rp h.inside.rp_lt (by omega) ?_ hwp
    rw [length_append, natCast_add]
    exact hroom
  refine ⟨⟨h.inside.base_le_rp, h.inside.rp_lt, base_le_cell hsize, ?_⟩, hused, ?_⟩
  · have hlt := @cell_lt r.base r.size r.wp xs.length hsize
    unfold size at hlt ⊢
    dsimp only
    omega
  · rw [length_append]
    rw [h.wp_eq] at hstored
    exact (hstored.contents_append (by omega)).trans (congrArg (· ++ xs) h.contents_eq)

/-- A write with room appends its bytes. -/
theorem Holds.put {data : List α} (hlo : 0 ≤ len)
    (hdata : len ≤ data.length) (hroom : len < r.getFreeSize) :
    ∃ m', r.put m data len =
        some ({ r with wp := movePtr r.wp len r.base r.limit }, m', len) ∧
      ({ r with wp := movePtr r.wp len r.base r.limit } : Ringbuf).Holds m'
        (q ++ data.take len.toNat) := by
  have hfree := h.inside.getFreeSize_eq
  have hused := h.used
  have hlen : ((data.take len.toNat).length : ℤ) = len := by
    rw [length_take_of_le (by omega)]
    omega
  obtain ⟨m', hcopy, hstored⟩ := h.inside.copyWrite_stored m hlo hdata (by omega)
  refine ⟨m', by rw [Ringbuf.put, hcopy, Option.map_some], ?_⟩
  have hmove := h.moveWp hstored (by omega)
  have := h.inside.base_le_wp
  have := h.inside.wp_lt
  rwa [hlen, ← movePtr_eq_cell (by omega) (by omega)] at hmove

end

end Ringbuf

/-- An operation on the ring with a positive length: a write of data, a read or a flush of `len`
bytes. -/
inductive RingOp (α : Type*) where
  | write (data : List α) (hdata : data ≠ [])
  | read (len : ℤ) (hlen : 0 < len)
  | flush (len : ℤ) (hlen : 0 < len)

/-- The ring, the memory, and the queue that the operations should have led to. -/
structure Fifo (α : Type*) where
  ring : Ringbuf
  mem : ℤ → α
  queue : List α

namespace Fifo

/-- One operation on the ring and on the queue. A write that faults leaves both alone. -/
def step (s : Fifo α) : RingOp α → Fifo α
  | .write data _ =>
    match s.ring.write s.mem data with
    | none => s
    | some (r, m, n) => ⟨r, m, s.queue ++ data.take n.toNat⟩
  | .read _ _ => s
  | .flush len _ =>
    { s with ring := (s.ring.flush len).1, queue := s.queue.drop (min len s.queue.length).toNat }

/-- The ring has a buffer of `size` cells with its pointers in it, and holds the queue. -/
def Agrees (size : ℤ) (s : Fifo α) : Prop :=
  s.ring.limit = s.ring.base + size ∧ s.ring.Holds s.mem s.queue

/-- An operation acts on the ring as on the queue: a write does not fault and returns how much of
its data it has appended, a read returns the oldest bytes and a flush removes them. -/
def OpGood (size : ℤ) (s : Fifo α) (op : RingOp α) : Prop :=
  (match op with
  | .write data _ =>
    ∃ r m n, s.ring.write s.mem data = some (r, m, n) ∧ 0 ≤ n ∧ n ≤ data.length
  | .read len _ =>
    s.ring.read s.mem len = some (s.queue.take (min len s.queue.length).toNat,
      min len s.queue.length)
  | .flush len _ => (s.ring.flush len).2 = min len s.queue.length) ∧ Agrees size (s.step op)

/-- A write fits into the free part, or the free part has at least the four bytes of the
reserve. -/
def WriteFits (s : Fifo α) : RingOp α → Prop
  | .write data _ => data.length < s.ring.getFreeSize ∨ 4 ≤ s.ring.getFreeSize
  | .read _ _ => True
  | .flush _ _ => True

instance (s : Fifo α) (op : RingOp α) : Decidable (s.WriteFits op) :=
  match op with
  | .write data _ =>
    inferInstanceAs (Decidable (data.length < s.ring.getFreeSize ∨ 4 ≤ s.ring.getFreeSize))
  | .read _ _ => .isTrue trivial
  | .flush _ _ => .isTrue trivial

section Steps

variable {size : ℤ} {s : Fifo α}

theorem write_good_iff_nonneg (h : s.Agrees size) {data : List α} (hdata : data ≠ [])
    (hcut : s.ring.checkDrop data.length = (s.ring, len)) (hlen : len ≤ data.length)
    (hroom : len < s.ring.getFreeSize) : s.OpGood size (.write data hdata) ↔ 0 ≤ len := by
  obtain ⟨hlimit, hholds⟩ := h
  have hwrite : s.ring.write s.mem data = s.ring.put s.mem data len := by
    rw [write_eq s.mem hdata, hcut]
  constructor
  · rintro ⟨⟨r, m, n, hsome, -⟩, -⟩
    rcases Int.lt_or_le len 0 with hneg | hlo
    · rw [hwrite, put_of_neg s.mem data hholds.inside.wp_lt hneg] at hsome
      exact absurd hsome (by simp)
    · exact hlo
  · intro hlo
    obtain ⟨m', hput, hholds'⟩ := hholds.put hlo hlen hroom
    rw [← hwrite] at hput
    refine ⟨⟨_, m', len, hput, hlo, hlen⟩, ?_⟩
    rw [step, hput]
    exact ⟨hlimit, hholds'⟩

/-- An operation is right exactly if a write fits. -/
theorem opGood_iff (h : s.Agrees size) (hdrop : s.ring.dropunit = 0) (op : RingOp α) :
    s.OpGood size op ↔ s.WriteFits op := by
  obtain ⟨hlimit, hholds⟩ := id h
  cases op with
  | write data hdata =>
    have hlen : 0 < data.length := length_pos_iff.mpr hdata
    rcases Int.lt_or_le data.length s.ring.getFreeSize with hlt | hle
    · rw [write_good_iff_nonneg h hdata (checkDrop_of_lt hlt) (Int.le_refl _) hlt]
      exact ⟨fun _ => Or.inl hlt, fun _ => by omega⟩
    · rw [write_good_iff_nonneg h hdata (checkDrop_cut hle hdrop) (by omega) (by omega)]
      unfold WriteFits
      dsimp only
      omega
  | read len hlen => exact ⟨fun _ => trivial, fun _ => ⟨hholds.read_eq hlen, h⟩⟩
  | flush len hlen =>
    obtain ⟨hret, hholds'⟩ := hholds.flush hlen
    refine ⟨fun _ => trivial, fun _ => ⟨hret, ?_, hholds'⟩⟩
    have hflush := hholds.inside.flush_eq hlen
    rw [step, hflush]
    exact hlimit

theorem step_dropunit (s : Fifo α) (op : RingOp α) :
    (s.step op).ring.dropunit = s.ring.dropunit := by
  cases op with
  | write data hdata =>
    unfold step
    dsimp only
    split
    · rfl
    · rename_i hwrite
      exact write_dropunit hwrite
  | read len hlen => rfl
  | flush len hlen => exact flush_dropunit len

end Steps

/-- The state after the initialisation. -/
def start (r : Ringbuf) (m : ℤ → α) : Fifo α := ⟨r, m, []⟩

/-- The start is right exactly if the ring is not empty and the addresses do not wrap. -/
theorem start_agrees_iff {r0 r : Ringbuf} {buf size unit : ℤ} (hbuf : -2 ^ 31 ≤ buf)
    (hinit : r0.init buf size unit = some r) (m : ℤ → α) :
    (start r m).Agrees size ↔ 0 < size ∧ buf + size < 2 ^ 31 := by
  rw [← inside_of_init_iff hbuf hinit]
  apply and_congr_right
  intro _
  refine ⟨fun h => h.inside, fun h => ⟨h, ?_, rfl⟩⟩
  obtain rfl := eq_of_init hinit
  simp [start, getUsedSize, calcRwSize]

/-- A ring that never drops acts as a queue in a run of operations with positive lengths exactly if
its buffer has a positive size and ends at an `int32_t` offset, and every write fits or finds four
free bytes. -/
theorem run_good_iff {r0 r : Ringbuf} {buf size : ℤ} (hbuf : -2 ^ 31 ≤ buf)
    (hinit : r0.init buf size 0 = some r) (m : ℤ → α) (ops : List (RingOp α)) :
    ((start r m).Agrees size ∧ RunOk step (OpGood size) (start r m) ops) ↔
      (0 < size ∧ buf + size < 2 ^ 31) ∧ RunOk step WriteFits (start r m) ops := by
  rw [← start_agrees_iff hbuf hinit m]
  apply and_congr_right
  intro hstart
  apply runOk_congr (fun s => s.Agrees size ∧ s.ring.dropunit = 0)
  · rintro s op ⟨hagrees, hunit⟩
    exact opGood_iff hagrees hunit op
  · rintro s op ⟨-, hunit⟩ hgood
    exact ⟨hgood.2, (step_dropunit s op).trans hunit⟩
  · exact ⟨hstart, congrArg Ringbuf.dropunit (Ringbuf.eq_of_init hinit)⟩

/-- A ring structure before its initialisation. -/
def blank : Ringbuf := ⟨0, 0, 0, 0, 0, 0⟩

/-- A ring of eight bytes that is filled, read and flushed acts as a queue. -/
theorem run_good_eightBytes :
    (start ⟨32, 40, 32, 32, 0, 0⟩ fun _ => (0 : UInt8)).Agrees 8 ∧
      RunOk step (OpGood 8) (start ⟨32, 40, 32, 32, 0, 0⟩ fun _ => (0 : UInt8))
        [.write [1, 2, 3, 4, 5] (by decide), .read 3 (by decide), .flush 4 (by decide),
          .write [6, 7, 8, 9] (by decide), .read 9 (by decide)] :=
  have hinit : blank.init 32 8 0 = some ⟨32, 40, 32, 32, 0, 0⟩ := rfl
  (run_good_iff (by decide) hinit _ _).mpr (by decide)

/-- In a ring of four bytes that holds one byte, a write of three bytes is a fault. -/
theorem not_run_good_fourBytes :
    blank.init 32 4 0 = some ⟨32, 36, 32, 32, 0, 0⟩ ∧
      ¬((start ⟨32, 36, 32, 32, 0, 0⟩ fun _ => (0 : UInt8)).Agrees 4 ∧
        RunOk step (OpGood 4) (start ⟨32, 36, 32, 32, 0, 0⟩ fun _ => (0 : UInt8))
          [.write [1] (by decide), .write [2, 3, 4] (by decide)]) := by
  refine ⟨rfl, ?_⟩
  rintro ⟨-, -, ⟨⟨r, m, n, hwrite, -⟩, -⟩, -⟩
  -- The second write finds three free bytes and is cut to a length of -1.
  have hfault : (none : Option (Ringbuf × (ℤ → UInt8) × ℤ)) = some (r, m, n) := hwrite
  exact absurd hfault (by simp)

end Fifo

end Mt8169.Dsp
