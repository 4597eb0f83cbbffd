import Mt8169.Lib.CircularBuffer
import Mt8169.Lib.MachineInt

/-!
# The ring buffer of the DSP framework

The ring buffer that the kernel shares with the DSP. The definitions follow `ringbuf.c` and
`ringbuf.h` of the DSP framework, with offsets in place of pointers. The cells are of any type, so
that a cell can carry more than its byte. A negative length is a huge `size_t` for `memcpy`: such a
copy is a fault.
-/

namespace Mt8169.Dsp

open CircularBuffer MachineInt List Option Int

variable {α : Type*}

/-- `ADF_RINGBUF_MOVE_PTR`. -/
def movePtr (ptr offset base limit : ℤ) : ℤ :=
  if limit - ptr > offset then ptr + offset else ptr + offset - (limit - base)

/-- `ADF_RINGBUF_IN_RANGE`. -/
def inRange (ptr base limit : ℤ) : Bool := ptr ≥ base && ptr < limit

/-- `ADF_RINGBUF_CALC_RW_SIZE`. -/
def calcRwSize (ptrS ptrE base limit : ℤ) : ℤ :=
  if ptrS ≤ ptrE then ptrE - ptrS else limit - ptrS + (ptrE - base)

/-- `ADF_RINGBUF_CALC_WR_SIZE`. -/
def calcWrSize (ptrS ptrE base limit : ℤ) : ℤ :=
  if ptrS < ptrE then ptrE - ptrS else limit - ptrS + (ptrE - base)

/-- `adfRingbuf_t`: the offsets of the buffer and of the pointers, the number of dropped bytes and
the unit. -/
structure Ringbuf where
  base : ℤ
  limit : ℤ
  wp : ℤ
  rp : ℤ
  drop : ℤ
  dropunit : ℤ
  deriving DecidableEq, Repr

/-- `memcpy` into the buffer, from the start of `src`. -/
def memcpyIn (m : ℤ → α) (off : ℤ) (src : List α) (n : ℤ) : Option (ℤ → α) :=
  if 0 ≤ n ∧ n ≤ src.length then some (copyIn m off (src.take n.toNat)) else none

/-- `memcpy` out of the buffer. -/
def memcpyOut (m : ℤ → α) (off n : ℤ) : Option (List α) :=
  if 0 ≤ n then some ((List.range n.toNat).map fun i : ℕ => m (off + i)) else none

namespace Ringbuf

variable (r : Ringbuf) (m : ℤ → α) (len : ℤ)

/-- `adfRingbuf_checkValid` for a buffer at the offset `buf`. -/
def checkValid (buf size : ℤ) : Bool :=
  if r.base ≠ buf ∨ r.limit - r.base ≠ size then false
  else inRange r.rp r.base r.limit && inRange r.wp r.base r.limit

/-- `adfRingbuf_getUsedSize`. -/
def getUsedSize : ℤ := calcRwSize r.rp r.wp r.base r.limit

/-- `adfRingbuf_getFreeSize`. -/
def getFreeSize : ℤ := calcWrSize r.wp r.rp r.base r.limit

/-- The number of bytes that `_adfRingbuf_checkDrop` drops for a write of `len` bytes, if it does
not fit. -/
def dropLen : ℤ :=
  let n := len - r.getFreeSize + r.dropunit - 1
  n - n.tmod r.dropunit

/-- `_adfRingbuf_checkDrop`. -/
def checkDrop : Ringbuf × ℤ :=
  if len ≥ r.getFreeSize then
    if r.dropunit > 0 then
      ({ r with
        drop := s32 (r.drop + r.dropLen len)
        rp := movePtr r.rp (r.dropLen len) r.base r.limit }, len)
    else (r, r.getFreeSize - 4)
  else (r, len)

/-- The copies of `adfRingbuf_write`. -/
def copyWrite (data : List α) (len : ℤ) : Option (ℤ → α) :=
  let lenToEnd := r.limit - r.wp
  if lenToEnd ≥ len then memcpyIn m r.wp data len
  else do
    let m ← memcpyIn m r.wp data lenToEnd
    memcpyIn m r.base (data.drop lenToEnd.toNat) (len - lenToEnd)

/-- The end of `adfRingbuf_write`, with the length that `_adfRingbuf_checkDrop` has allowed. -/
def put (data : List α) (len : ℤ) : Option (Ringbuf × (ℤ → α) × ℤ) :=
  (r.copyWrite m data len).map fun m =>
    ({ r with wp := movePtr r.wp len r.base r.limit }, m, len)

/-- `adfRingbuf_write`: the ring and the memory after it, and the result. -/
def write (data : List α) : Option (Ringbuf × (ℤ → α) × ℤ) :=
  if data.length = 0 then some (r, m, 0)
  else (r.checkDrop data.length).1.put m data (r.checkDrop data.length).2

/-- The copies of `adfRingbuf_read`. -/
def copyRead : Option (List α) :=
  let lenToEnd := r.limit - r.rp
  if lenToEnd ≥ len then memcpyOut m r.rp len
  else do
    let front ← memcpyOut m r.rp lenToEnd
    let back ← memcpyOut m r.base (len - lenToEnd)
    some (front ++ back)

/-- `adfRingbuf_read`: the bytes read and the result. -/
def read : Option (List α × ℤ) :=
  if len = 0 then some ([], 0)
  else
    let remain := calcRwSize r.rp r.wp r.base r.limit
    let len := if len > remain then remain else len
    (r.copyRead m len).map fun data => (data, len)

/-- `adfRingbuf_flush`: the ring after it and the result. -/
def flush : Ringbuf × ℤ :=
  if len = 0 then (r, 0)
  else
    let remain := calcRwSize r.rp r.wp r.base r.limit
    let len := if len > remain then remain else len
    ({ r with rp := movePtr r.rp len r.base r.limit }, len)

/-- `adfRingbuf_reset`; `none` is `ADF_STATUS_NOT_SUPPORTED`. -/
def reset : Option Ringbuf :=
  if r.base = 0 ∨ r.limit = 0 then none
  else some { r with rp := r.base, wp := r.base, drop := 0 }

/-- `adfRingbuf_init` of the structure `r` for a buffer at the offset `buf`; `none` is
`ADF_STATUS_NOT_SUPPORTED`. -/
def init (buf size dropunit : ℤ) : Option Ringbuf :=
  if size = 0 ∨ size % 4 ≠ 0 then none
  else reset { r with base := buf, limit := s32 (buf + size), dropunit := dropunit }

/-- The number of cells of the buffer. -/
def size : ℤ := r.limit - r.base

theorem limit_eq : r.limit = r.base + r.size := by
  unfold size
  omega

/-- The two pointers are in the buffer. -/
structure Inside (r : Ringbuf) : Prop where
  base_le_rp : r.base ≤ r.rp
  rp_lt : r.rp < r.limit
  base_le_wp : r.base ≤ r.wp
  wp_lt : r.wp < r.limit

instance (r : Ringbuf) : Decidable r.Inside :=
  decidable_of_iff (r.base ≤ r.rp ∧ r.rp < r.limit ∧ r.base ≤ r.wp ∧ r.wp < r.limit)
    ⟨fun ⟨h1, h2, h3, h4⟩ => ⟨h1, h2, h3, h4⟩, fun ⟨h1, h2, h3, h4⟩ => ⟨h1, h2, h3, h4⟩⟩

variable {r : Ringbuf} {len buf size unit : ℤ} {data : List α}

theorem Inside.size_pos (h : r.Inside) : 0 < r.size := by
  have := h.base_le_rp
  have := h.rp_lt
  unfold size
  omega

theorem movePtr_eq_cell {ptr offset : ℤ} (hlo : r.base ≤ ptr + offset)
    (hhi : ptr + offset < r.limit + r.size) :
    movePtr ptr offset r.base r.limit = cell r.base r.size ptr offset := by
  unfold movePtr
  unfold size at hhi ⊢
  split
  · exact (cell_of_lt hlo (by omega)).symm
  · rw [cell_of_le (by omega) (by omega)]

theorem Inside.getUsedSize_bounds (h : r.Inside) : 0 ≤ r.getUsedSize ∧ r.getUsedSize < r.size := by
  obtain ⟨hrp, hrp', hwp, hwp'⟩ := h
  unfold getUsedSize calcRwSize size
  split <;> omega

theorem Inside.getFreeSize_eq (h : r.Inside) : r.getFreeSize = r.size - r.getUsedSize := by
  obtain ⟨hrp, hrp', hwp, hwp'⟩ := h
  unfold getFreeSize getUsedSize calcRwSize calcWrSize size
  split <;> split <;> omega

theorem Inside.wp_eq_cell (h : r.Inside) : r.wp = cell r.base r.size r.rp r.getUsedSize := by
  obtain ⟨hrp, hrp', hwp, hwp'⟩ := h
  unfold getUsedSize calcRwSize size
  split
  · rw [cell_of_lt (by omega) (by omega)]
    omega
  · rw [cell_of_le (by omega) (by omega)]
    omega

theorem getUsedSize_of_wp {used : ℤ} (hrp : r.base ≤ r.rp) (hrp' : r.rp < r.limit) (hlo : 0 ≤ used)
    (hhi : used < r.size) (hwp : r.wp = cell r.base r.size r.rp used) : r.getUsedSize = used := by
  have hin : r.Inside := by
    refine ⟨hrp, hrp', ?_, ?_⟩
    · rw [hwp]
      exact base_le_cell (by omega)
    · rw [hwp]
      have hlt := @cell_lt r.base r.size r.rp used (by omega)
      unfold size at hlt ⊢
      omega
  obtain ⟨husedLo, husedHi⟩ := hin.getUsedSize_bounds
  exact cell_inj (by omega) (by omega) (hin.wp_eq_cell.symm.trans hwp)

theorem copyRead_eq (m : ℤ → α) {n : ℕ} (hrp : r.base ≤ r.rp) (hrp' : r.rp ≤ r.limit)
    (hsize : n ≤ r.size) : r.copyRead m n = some (contents m r.base r.size r.rp n) := by
  unfold size at hsize ⊢
  unfold copyRead
  dsimp only
  split
  · rw [memcpyOut, if_pos (by omega), toNat_natCast, contents_eq_range hrp (by omega)]
  · obtain ⟨a, ha⟩ := eq_ofNat_of_zero_le (by omega : 0 ≤ r.limit - r.rp)
    obtain ⟨b, rfl⟩ := Nat.exists_eq_add_of_le (by omega : a ≤ n)
    have hstart : cell r.base (r.limit - r.base) r.rp a = r.base := by
      rw [cell_of_le (by omega) (by omega)]
      omega
    have hrest : ((a + b : ℕ) : ℤ) - a = b := by omega
    rw [ha, hrest, memcpyOut, if_pos (by omega), memcpyOut, if_pos (by omega), toNat_natCast,
      toNat_natCast, contents_add, hstart, contents_eq_range hrp (by omega),
      contents_eq_range (Int.le_refl _) (by omega)]
    rfl

theorem read_eq_of_le (m : ℤ → α) (hlen : 0 < len) (hrp : r.base ≤ r.rp) (hrp' : r.rp ≤ r.limit)
    (hlo : 0 ≤ r.getUsedSize) (hhi : r.getUsedSize ≤ r.size) :
    r.read m len = some (contents m r.base r.size r.rp (min len r.getUsedSize).toNat,
      min len r.getUsedSize) := by
  have hmin : (if len > r.getUsedSize then r.getUsedSize else len) = min len r.getUsedSize := by
    split <;> omega
  have hread : r.read m len = (r.copyRead m (min len r.getUsedSize)).map
      fun data => (data, min len r.getUsedSize) := by
    rw [← hmin]
    exact if_neg (by omega)
  obtain ⟨n, hn⟩ := eq_ofNat_of_zero_le (by omega : 0 ≤ min len r.getUsedSize)
  rw [hread, hn, copyRead_eq m hrp hrp' (by omega), toNat_natCast]
  rfl

/-- A read returns the bytes from the read pointer on. -/
theorem Inside.read_eq (h : r.Inside) (m : ℤ → α) (hlen : 0 < len) :
    r.read m len = some (contents m r.base r.size r.rp (min len r.getUsedSize).toNat,
      min len r.getUsedSize) := by
  obtain ⟨hlo, hhi⟩ := h.getUsedSize_bounds
  exact read_eq_of_le m hlen h.base_le_rp (Int.le_of_lt h.rp_lt) hlo (Int.le_of_lt hhi)

theorem Inside.flush_eq (h : r.Inside) (hlen : 0 < len) :
    r.flush len = ({ r with rp := cell r.base r.size r.rp (min len r.getUsedSize) },
      min len r.getUsedSize) := by
  obtain ⟨husedLo, husedHi⟩ := h.getUsedSize_bounds
  obtain ⟨hrp, hrp', hwp, hwp'⟩ := h
  have hmin : (if len > r.getUsedSize then r.getUsedSize else len) = min len r.getUsedSize := by
    split <;> omega
  rw [← movePtr_eq_cell (by omega) (by omega), ← hmin]
  exact if_neg (by omega)

/-- A write stores its bytes from the write pointer on. -/
theorem Inside.copyWrite_stored (h : r.Inside) (m : ℤ → α) (hlo : 0 ≤ len)
    (hdata : len ≤ data.length) (hsize : len ≤ r.size) :
    ∃ m', r.copyWrite m data len = some m' ∧
      Stored m m' r.base r.size r.wp (data.take len.toNat) := by
  obtain ⟨hrp, hrp', hwp, hwp'⟩ := h
  obtain ⟨n, rfl⟩ := eq_ofNat_of_zero_le hlo
  have hlen : (data.take n).length = n := length_take_of_le (by omega)
  unfold copyWrite
  rw [toNat_natCast]
  dsimp only
  split
  · refine ⟨copyIn m r.wp (data.take n), ?_, stored_copyIn hwp ?_⟩
    · rw [memcpyIn, if_pos (by omega), toNat_natCast]
    · rw [hlen]
      unfold size
      omega
  · obtain ⟨k, hk⟩ := eq_ofNat_of_zero_le (by omega : 0 ≤ r.limit - r.wp)
    have hrest : ((n : ℤ) - k).toNat = n - k := by omega
    have hstored : Stored m _ r.base r.size r.wp (data.take n) :=
      stored_copyIn_copyIn hwp (by omega) k (by unfold size; omega)
    rw [take_take, drop_take, Nat.min_eq_left (by omega)] at hstored
    refine ⟨_, ?_, hstored⟩
    rw [hk, memcpyIn, if_pos (by omega), toNat_natCast, bind_eq_bind,
      bind_some, memcpyIn, if_pos (by rw [length_drop]; omega), hrest]

theorem checkDrop_of_lt (h : len < r.getFreeSize) : r.checkDrop len = (r, len) :=
  if_neg (by omega)

/-- Without a drop unit, a write that does not fit is cut. -/
theorem checkDrop_cut (h : r.getFreeSize ≤ len) (hunit : r.dropunit = 0) :
    r.checkDrop len = (r, r.getFreeSize - 4) := by
  rw [checkDrop, if_pos h, if_neg (by omega)]

/-- With one, old bytes are dropped. -/
theorem checkDrop_drop (h : r.getFreeSize ≤ len) (hunit : 0 < r.dropunit) :
    r.checkDrop len = ({ r with
      drop := s32 (r.drop + r.dropLen len)
      rp := movePtr r.rp (r.dropLen len) r.base r.limit }, len) := by
  rw [checkDrop, if_pos h, if_pos hunit]

theorem checkDrop_dropunit (len : ℤ) : (r.checkDrop len).1.dropunit = r.dropunit := by
  unfold checkDrop
  split
  · split <;> rfl
  · rfl

/-- A write makes room and puts its bytes. -/
theorem write_eq (m : ℤ → α) (h : data ≠ []) :
    r.write m data = (r.checkDrop data.length).1.put m data (r.checkDrop data.length).2 :=
  if_neg (by simpa using h)

theorem put_of_neg (m : ℤ → α) (data : List α) (hwp : r.wp < r.limit) (hlen : len < 0) :
    r.put m data len = none := by
  rw [put, copyWrite, if_pos (by omega), memcpyIn, if_neg (by omega), map_none]

theorem write_dropunit {m m' : ℤ → α} {r' : Ringbuf} {n : ℤ}
    (h : r.write m data = some (r', m', n)) :
    r'.dropunit = r.dropunit := by
  unfold write at h
  split at h
  · obtain ⟨rfl, -⟩ := Prod.mk.inj (some.inj h)
    rfl
  · obtain ⟨m'', -, hring⟩ := map_eq_some_iff.mp h
    obtain ⟨rfl, -⟩ := Prod.mk.inj hring
    exact checkDrop_dropunit _

theorem flush_dropunit (len : ℤ) : (r.flush len).1.dropunit = r.dropunit := by
  unfold flush
  split <;> rfl

theorem eq_of_init {r0 : Ringbuf} (h : r0.init buf size unit = some r) :
    r = ⟨buf, s32 (buf + size), buf, buf, 0, unit⟩ := by
  unfold init reset at h
  split at h
  · exact absurd h (by simp)
  split at h
  · exact absurd h (by simp)
  exact (some.inj h).symm

/-- The start is inside exactly if the ring is not empty and the addresses do not wrap. -/
theorem inside_of_init_iff {r0 : Ringbuf} (hbuf : -2 ^ 31 ≤ buf)
    (h : r0.init buf size unit = some r) :
    r.limit = r.base + size ∧ r.Inside ↔ 0 < size ∧ buf + size < 2 ^ 31 := by
  obtain rfl := eq_of_init h
  dsimp only
  constructor
  · rintro ⟨hlimit, hin⟩
    have hrange := hin.rp_lt
    unfold s32 at hlimit hrange
    dsimp only at hlimit hrange
    omega
  · rintro ⟨hpos, hend⟩
    have hlimit : s32 (buf + size) = buf + size := by
      unfold s32
      omega
    rw [hlimit]
    have hlt : buf < buf + size := by omega
    exact ⟨rfl, Int.le_refl _, hlt, Int.le_refl _, hlt⟩

end Ringbuf

end Mt8169.Dsp
