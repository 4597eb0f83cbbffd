import Mt8169.Dsp.Ringbuf
import Mathlib.Data.List.TakeWhile

/-!
# The log of the DSP

The DSP writes its log into a ring buffer, which the kernel copies before it looks at it. The kernel
keeps the read pointer outside of the ring, in a 32-bit word with the offset in its lower half and
the two bytes before this offset in its upper half. The definitions follow `log.c` of the DSP
framework. Each byte of the log carries a number, which tells it from others with the same value.
-/

namespace Mt8169.Dsp

open CircularBuffer MachineInt Ringbuf List Option Int

/-- A byte of the log. -/
structure LogByte where
  id : ℕ
  byte : UInt8
  deriving DecidableEq, Repr

/-- The little-endian 16-bit value that `data` leave of the value `d` they are copied over. -/
def overlay16 (data : List LogByte) (d : ℕ) : ℕ :=
  (data[0]?.map fun c => c.byte.toNat).getD (d % 256) +
    256 * (data[1]?.map fun c => c.byte.toNat).getD (d / 256 % 256)

/-- The bytes of a C string. -/
def cString (data : List LogByte) : List LogByte := data.takeWhile fun c => c.byte != 0

namespace Ringbuf

/-- The ring with another read pointer. -/
def withRp (r : Ringbuf) (rp : ℤ) : Ringbuf := { r with rp := rp }

/-- The ring that `adfLog_reCalcHeader` and `adfLog_clearHistory` read the two bytes before an
offset from. -/
def lookBack (r : Ringbuf) (ptr : ℤ) : Ringbuf :=
  { r with rp := movePtr ptr (r.limit - r.base - 2) r.base r.limit, wp := ptr }

/-- The first part of `adfLog_reCalcHeader`: the offset of the oldest byte. -/
def oldest (r : Ringbuf) (m : ℤ → LogByte) : Option ℤ :=
  if r.wp < r.limit then do
    let (data, _) ← (r.withRp (r.wp + 1)).read m 1
    let check := (data[0]?.map fun c => c.byte).getD 0
    some (if check = 0 then r.base else r.wp + 1)
  else some r.base

/-- The second part of `adfLog_reCalcHeader`: the read pointer of the flag word is taken, unless it
is checked and the bytes before it have changed. -/
def presetRp (r : Ringbuf) (m : ℤ → LogByte) (flag : ℕ) (chkOverlap : Bool) : Option Ringbuf :=
  let rptr : ℤ := (flag % 2 ^ 16 : ℕ)
  if inRange rptr r.base r.limit then
    if !chkOverlap then some (r.withRp rptr)
    else do
      let (data, _) ← (r.lookBack rptr).read m 2
      some (if overlay16 data 0 = flag / 2 ^ 16 % 2 ^ 16 then r.withRp rptr else r)
  else some r

/-- `adfLog_reCalcHeader`, which returns the number of bytes to be read from the resulting ring. -/
def reCalcHeader (r : Ringbuf) (m : ℤ → LogByte) (flag : ℕ) (chkOverlap : Bool) :
    Option (Ringbuf × ℤ) := do
  let rp ← r.oldest m
  let r ← (r.withRp rp).presetRp m flag chkOverlap
  some (r, r.getUsedSize)

/-- The text that `adfLog_dump` and `adfLog_print` read from the recalculated ring; `none` is a
fault. The allocation of the buffer succeeds. -/
def readText (r : Ringbuf) (m : ℤ → LogByte) (remain : ℤ) : Option (List LogByte) :=
  if remain > 0 then (r.read m remain).map fun data => cString data.1 else some []

/-- `adfLog_clearHistory`: the flag word. -/
def clearHistory (r : Ringbuf) (m : ℤ → LogByte) : Option ℕ := do
  let (data, _) ← (r.lookBack r.wp).read m 2
  some (u32 r.wp % 2 ^ 16 + 2 ^ 16 * overlay16 data (u32 r.wp / 2 ^ 16))

/-- `adfLog_dump`: the bytes written to the file. -/
def dump (r : Ringbuf) (m : ℤ → LogByte) (flag : ℕ) : Option (List LogByte) := do
  let (r, remain) ← r.reCalcHeader m flag true
  r.readText m remain

end Ringbuf

variable {data : List LogByte}

theorem cString_eq_self_iff : cString data = data ↔ ∀ c ∈ data, c.byte ≠ 0 := by
  rw [cString, takeWhile_eq_self_iff]
  simp

theorem cString_eq_nil_iff : cString data = [] ↔ ∀ c, data.head? = some c → c.byte = 0 := by
  cases data with
  | nil => simp [cString]
  | cons c data => simp [cString, takeWhile_cons]

theorem head?_of_cString {c : LogByte} (h : (cString data).head? = some c) :
    data.head? = some c := by
  cases data with
  | nil => exact h
  | cons c' data =>
    rw [cString, takeWhile_cons] at h
    split at h
    · exact h
    · exact absurd h (by simp)

namespace Ringbuf

variable {r : Ringbuf} {m : ℤ → LogByte}

/-- The write pointer is in the buffer. -/
structure WpInside (r : Ringbuf) : Prop where
  base_le : r.base ≤ r.wp
  lt_limit : r.wp < r.limit

/-- The text from a place up to the write pointer. -/
def textFrom (r : Ringbuf) (m : ℤ → LogByte) (start : ℤ) : List LogByte :=
  cString (contents m r.base r.size start (r.withRp start).getUsedSize.toNat)

/-- The byte that follows the write pointer by `i` in the ring. -/
def byteAfter (r : Ringbuf) (m : ℤ → LogByte) (i : ℤ) : UInt8 :=
  (m (cell r.base r.size r.wp i)).byte

/-- The two bytes before an offset, in little-endian order. -/
def magic (r : Ringbuf) (m : ℤ → LogByte) (ptr : ℤ) : ℕ :=
  (m (cell r.base r.size ptr (r.size - 2))).byte.toNat +
    256 * (m (cell r.base r.size ptr (r.size - 1))).byte.toNat

theorem lookBack_read (m : ℤ → LogByte) {ptr : ℤ} (hlo : r.base ≤ ptr) (hhi : ptr < r.limit)
    (hsize : 3 ≤ r.size) :
    (r.lookBack ptr).read m 2 = some ([m (cell r.base r.size ptr (r.size - 2)),
      m (cell r.base r.size ptr (r.size - 1))], 2) := by
  have hrp : (r.lookBack ptr).rp = cell r.base r.size ptr (r.size - 2) := by
    unfold size at hsize
    exact movePtr_eq_cell (by omega) (by unfold size; omega)
  have hrpLo : r.base ≤ (r.lookBack ptr).rp := by
    rw [hrp]
    exact base_le_cell (by omega)
  have hrpHi : (r.lookBack ptr).rp < r.limit := by
    have hlt := @cell_lt r.base r.size ptr (r.size - 2) (by omega)
    rw [hrp]
    unfold size at hlt ⊢
    omega
  have hwp : ptr = cell r.base r.size (r.lookBack ptr).rp 2 := by
    have hround : r.size - 2 + 2 = 0 + r.size := by omega
    rw [hrp, cell_cell, hround, cell_add_size, cell_of_lt (by omega) (by unfold size; omega)]
    omega
  have hin : (r.lookBack ptr).Inside := ⟨hrpLo, hrpHi, hlo, hhi⟩
  have hused : (r.lookBack ptr).getUsedSize = 2 :=
    getUsedSize_of_wp hrpLo hrpHi (by decide) (show (2 : ℤ) < r.size by omega) hwp
  rw [hin.read_eq m (by decide), hused]
  have hcells : contents m r.base r.size (r.lookBack ptr).rp 2 =
      [m (cell r.base r.size ptr (r.size - 2)), m (cell r.base r.size ptr (r.size - 1))] := by
    have hnext : r.size - 2 + 1 = r.size - 1 := by omega
    simp [contents, range_succ, hrp, cell_cell, hnext]
  exact congrArg (fun data => some (data, (2 : ℤ))) hcells

theorem WpInside.cell_zero (h : r.WpInside) : cell r.base r.size r.wp 0 = r.wp := by
  refine CircularBuffer.cell_zero h.base_le ?_
  have hlt := h.lt_limit
  unfold size
  omega

/-- The mark that clearing the history leaves. -/
theorem WpInside.clearHistory_eq (h : r.WpInside) (m : ℤ → LogByte) (hsize : 3 ≤ r.size) :
    r.clearHistory m = some (u32 r.wp % 2 ^ 16 + 2 ^ 16 * r.magic m r.wp) := by
  rw [clearHistory, lookBack_read m h.base_le h.lt_limit hsize]
  rfl

theorem WpInside.getUsedSize_withRp (h : r.WpInside) {rp : ℤ} (hlo : r.base ≤ rp)
    (hhi : rp ≤ r.limit) : 0 ≤ (r.withRp rp).getUsedSize ∧ (r.withRp rp).getUsedSize < r.size := by
  obtain ⟨hwp, hwp'⟩ := h
  unfold getUsedSize calcRwSize withRp size
  dsimp only
  split <;> omega

theorem WpInside.withRp_read (h : r.WpInside) (m : ℤ → LogByte) {rp len : ℤ} (hlo : r.base ≤ rp)
    (hhi : rp ≤ r.limit) (hlen : 0 < len) :
    (r.withRp rp).read m len =
      some (contents m r.base r.size rp (min len (r.withRp rp).getUsedSize).toNat,
        min len (r.withRp rp).getUsedSize) := by
  obtain ⟨hused, hused'⟩ := h.getUsedSize_withRp hlo hhi
  exact read_eq_of_le m hlen hlo hhi hused (Int.le_of_lt hused')

theorem WpInside.readText_eq (h : r.WpInside) (m : ℤ → LogByte) {rp : ℤ} (hlo : r.base ≤ rp)
    (hhi : rp ≤ r.limit) :
    (r.withRp rp).readText m (r.withRp rp).getUsedSize = some (r.textFrom m rp) := by
  obtain ⟨hused, -⟩ := h.getUsedSize_withRp hlo hhi
  unfold readText textFrom
  split
  · rename_i hpos
    rw [h.withRp_read m hlo hhi hpos, Int.min_self]
    rfl
  · have hnone : (r.withRp rp).getUsedSize = 0 := by omega
    rw [hnone]
    rfl

theorem getUsedSize_next (r : Ringbuf) : (r.withRp (r.wp + 1)).getUsedSize = r.size - 1 := by
  unfold getUsedSize calcRwSize withRp size
  dsimp only
  rw [if_neg (by omega)]
  omega

theorem cell_succ (base size start i : ℤ) :
    cell base size (start + 1) i = cell base size start (i + 1) := by
  unfold cell
  congr 2
  omega

theorem WpInside.oldest_eq (h : r.WpInside) (m : ℤ → LogByte) (hsize : 2 ≤ r.size) :
    r.oldest m = some (if r.byteAfter m 1 = 0 then r.base else r.wp + 1) := by
  obtain ⟨hwp, hwp'⟩ := id h
  have hone : (min 1 (r.size - 1)).toNat = 1 := by omega
  have hcell : contents m r.base r.size (r.wp + 1) 1 = [m (cell r.base r.size r.wp 1)] := by
    simp [contents, cell_succ]
  rw [oldest, if_pos hwp', h.withRp_read m (by omega) (by omega) (by decide), r.getUsedSize_next,
    hone, hcell]
  rfl

/-- The offset of the flag word is in the buffer, and the two bytes before it are those of the flag
word. -/
def Recognised (r : Ringbuf) (m : ℤ → LogByte) (flag : ℕ) : Prop :=
  inRange (flag % 2 ^ 16 : ℕ) r.base r.limit ∧
    r.magic m (flag % 2 ^ 16 : ℕ) = flag / 2 ^ 16 % 2 ^ 16
  deriving Decidable

theorem presetRp_eq (m : ℤ → LogByte) (hsize : 3 ≤ r.size) (flag : ℕ) :
    r.presetRp m flag true =
      some (if r.Recognised m flag then r.withRp (flag % 2 ^ 16 : ℕ) else r) := by
  by_cases hin : inRange (flag % 2 ^ 16 : ℕ) r.base r.limit = true
  · have hrange : r.base ≤ (flag % 2 ^ 16 : ℕ) ∧ ((flag % 2 ^ 16 : ℕ) : ℤ) < r.limit := by
      simpa [inRange] using hin
    rw [presetRp, if_pos hin, if_neg (by decide), lookBack_read m hrange.1 hrange.2 hsize]
    by_cases hmagic : r.magic m (flag % 2 ^ 16 : ℕ) = flag / 2 ^ 16 % 2 ^ 16
    · rw [if_pos ⟨hin, hmagic⟩]
      exact congrArg some (if_pos hmagic)
    · rw [if_neg fun h : r.Recognised m flag => hmagic h.2]
      exact congrArg some (if_neg hmagic)
  · rw [presetRp, if_neg hin, if_neg fun h : r.Recognised m flag => hin h.1]

/-- The place where `adfLog_dump` starts to read. -/
def dumpStart (r : Ringbuf) (m : ℤ → LogByte) (flag : ℕ) : ℤ :=
  if r.Recognised m flag then (flag % 2 ^ 16 : ℕ)
  else if r.byteAfter m 1 = 0 then r.base else r.wp + 1

/-- The header for a dump starts where the mark says. -/
theorem WpInside.reCalcHeader_eq (h : r.WpInside) (m : ℤ → LogByte) (hsize : 3 ≤ r.size)
    (flag : ℕ) :
    r.reCalcHeader m flag true = some (r.withRp (r.dumpStart m flag),
      (r.withRp (r.dumpStart m flag)).getUsedSize) := by
  have hpreset (p : ℤ) : (r.withRp p).presetRp m flag true =
      some (if r.Recognised m flag then r.withRp (flag % 2 ^ 16 : ℕ) else r.withRp p) :=
    presetRp_eq (r := r.withRp p) m hsize flag
  rw [reCalcHeader, h.oldest_eq m (by omega), bind_eq_bind, bind_some, hpreset,
    bind_eq_bind, bind_some]
  unfold dumpStart
  by_cases hrec : r.Recognised m flag
  · rw [if_pos hrec, if_pos hrec]
  · rw [if_neg hrec, if_neg hrec]

theorem WpInside.dumpStart_bounds (h : r.WpInside) (m : ℤ → LogByte) (flag : ℕ) :
    r.base ≤ r.dumpStart m flag ∧ r.dumpStart m flag ≤ r.limit := by
  obtain ⟨hwp, hwp'⟩ := h
  unfold dumpStart
  split
  · rename_i hrec
    have hrange : r.base ≤ (flag % 2 ^ 16 : ℕ) ∧ ((flag % 2 ^ 16 : ℕ) : ℤ) < r.limit := by
      simpa [inRange] using hrec.1
    omega
  · split <;> omega

theorem WpInside.dump_eq (h : r.WpInside) (m : ℤ → LogByte) (hsize : 3 ≤ r.size) (flag : ℕ) :
    r.dump m flag = some (r.textFrom m (r.dumpStart m flag)) := by
  obtain ⟨hlo, hhi⟩ := h.dumpStart_bounds m flag
  rw [dump, h.reCalcHeader_eq m hsize flag, bind_eq_bind, bind_some]
  exact h.readText_eq m hlo hhi

end Ringbuf

/-- Between two copies the DSP has appended `xs` to the log. -/
structure Appended (r : Ringbuf) (m : ℤ → LogByte) (xs : List LogByte) (r' : Ringbuf)
    (m' : ℤ → LogByte) : Prop where
  base_eq : r'.base = r.base
  limit_eq : r'.limit = r.limit
  wp_eq : r'.wp = cell r.base r.size r.wp xs.length
  stored : Stored m m' r.base r.size r.wp xs

/-- The bytes in the buffer are told apart by their numbers. -/
def Ringbuf.Numbered (r : Ringbuf) (m : ℤ → LogByte) : Prop :=
  ∀ i < r.size.toNat, ∀ j < r.size.toNat, (m (r.base + i)).id = (m (r.base + j)).id → i = j

instance (r : Ringbuf) (m : ℤ → LogByte) : Decidable (r.Numbered m) :=
  inferInstanceAs (Decidable (∀ i < r.size.toNat, ∀ j < r.size.toNat,
    (m (r.base + i)).id = (m (r.base + j)).id → i = j))

theorem Ringbuf.Numbered.eq {r : Ringbuf} {m : ℤ → LogByte} (h : r.Numbered m) {p q : ℤ}
    (hp : r.base ≤ p) (hp' : p < r.limit) (hq : r.base ≤ q) (hq' : q < r.limit)
    (hid : (m p).id = (m q).id) : p = q := by
  obtain ⟨i, hi⟩ := eq_ofNat_of_zero_le (by omega : 0 ≤ p - r.base)
  obtain ⟨j, hj⟩ := eq_ofNat_of_zero_le (by omega : 0 ≤ q - r.base)
  have hplace : p = r.base + i := by omega
  have hplace' : q = r.base + j := by omega
  rw [hplace, hplace'] at hid
  have hsize : r.size = r.limit - r.base := rfl
  have hij := h i (by omega) j (by omega) hid
  omega

section Clear

variable {r r' : Ringbuf} {m m' : ℤ → LogByte} {xs : List LogByte}

section

variable (h : Appended r m xs r' m')
include h

theorem Appended.size_eq : r'.size = r.size := by
  unfold size
  rw [h.base_eq, h.limit_eq]

theorem Appended.wpInside (hwp : r.WpInside) : r'.WpInside := by
  have hsize : 0 < r.size := by
    obtain ⟨hlo, hhi⟩ := hwp
    unfold size
    omega
  constructor
  · rw [h.base_eq, h.wp_eq]
    exact base_le_cell hsize
  · rw [h.limit_eq, h.wp_eq]
    have hlt := @cell_lt r.base r.size r.wp xs.length hsize
    unfold size at hlt ⊢
    omega

/-- The text from the old write pointer on is what was appended. -/
theorem Appended.readFrom (hwp : r.WpInside) (hlen : xs.length < r.size) :
    r'.textFrom m' r.wp = cString xs := by
  have hused : (r'.withRp r.wp).getUsedSize = xs.length := by
    refine getUsedSize_of_wp ?_ ?_ (by omega) ?_ ?_
    · exact Int.le_trans (Int.le_of_eq h.base_eq) hwp.base_le
    · exact Int.lt_of_lt_of_le hwp.lt_limit (Int.le_of_eq h.limit_eq.symm)
    · exact Int.lt_of_lt_of_le hlen (Int.le_of_eq h.size_eq.symm)
    · have hcell : cell r'.base r'.size r.wp xs.length = cell r.base r.size r.wp xs.length := by
        rw [h.base_eq, h.size_eq]
      exact h.wp_eq.trans hcell.symm
  rw [textFrom, hused, toNat_natCast, h.base_eq, h.size_eq, h.stored.contents_self (by omega)]

theorem Appended.unchanged {i : ℤ} (hlo : xs.length ≤ i)
    (hhi : i < r.size) : m' (cell r.base r.size r.wp i) = m (cell r.base r.size r.wp i) := by
  have hcell := h.stored i.toNat (by omega)
  rwa [toNat_of_nonneg (by omega), getD_eq_default _ _ (by omega)] at hcell

/-- An append that is not too long keeps the mark. -/
theorem Appended.magic_eq (hlen : xs.length ≤ r.size - 3) : r'.magic m' r.wp = r.magic m r.wp := by
  unfold magic
  rw [h.base_eq, h.size_eq, h.unchanged (by omega) (by omega), h.unchanged (by omega) (by omega)]

end

theorem Ringbuf.magic_lt (r : Ringbuf) (m : ℤ → LogByte) (ptr : ℤ) : r.magic m ptr < 2 ^ 16 := by
  have hlow := (m (cell r.base r.size ptr (r.size - 2))).byte.toNat_lt
  have hhigh := (m (cell r.base r.size ptr (r.size - 1))).byte.toNat_lt
  unfold magic
  omega

theorem Appended.head_eq (h : Appended r m xs r' m') (hwp : r.WpInside)
    (hlen : xs.length < r.size) {x : LogByte} (hx : xs.head? = some x) : m' r.wp = x := by
  have hpos : 0 < xs.length := by
    rcases xs with _ | ⟨y, ys⟩
    · exact absurd hx (by simp)
    · simp
  have hread := h.stored.contents_self (by omega)
  have hhead := @head?_contents _ r.base r.size r.wp m' xs.length hpos
  rw [hread, hx, hwp.cell_zero] at hhead
  exact (some.inj hhead).symm

/-- A dump with the mark shows what was appended. -/
theorem Appended.dump_eq (h : Appended r m xs r' m') (hwp : r.WpInside)
    (hlen : xs.length ≤ r.size - 3) (hlo : 0 ≤ r.wp) (hhi : r.wp < 2 ^ 16) :
    r'.dump m' (u32 r.wp % 2 ^ 16 + 2 ^ 16 * r.magic m r.wp) = some (cString xs) := by
  have hoffset : (((u32 r.wp % 2 ^ 16 + 2 ^ 16 * r.magic m r.wp) % 2 ^ 16 : ℕ) : ℤ) = r.wp := by
    unfold u32
    omega
  have hmagic : (u32 r.wp % 2 ^ 16 + 2 ^ 16 * r.magic m r.wp) / 2 ^ 16 % 2 ^ 16 =
      r.magic m r.wp := by
    have := r.magic_lt m r.wp
    omega
  have hrec : r'.Recognised m' (u32 r.wp % 2 ^ 16 + 2 ^ 16 * r.magic m r.wp) := by
    unfold Recognised
    rw [hoffset, hmagic, h.magic_eq hlen, h.base_eq, h.limit_eq]
    exact ⟨by simpa [inRange] using ⟨hwp.base_le, hwp.lt_limit⟩, rfl⟩
  rw [(h.wpInside hwp).dump_eq m' (by rw [h.size_eq]; omega), dumpStart, if_pos hrec,
    hoffset, h.readFrom hwp (by omega)]

/-- A dump that has not found the old write pointer shows the appended bytes by luck only: the base
of the buffer, where it starts, was the old write pointer, or nothing has been appended and it
starts at a NUL. -/
def Lucky (r r' : Ringbuf) (m' : ℤ → LogByte) (xs : List LogByte) (flag : ℕ) : Prop :=
  ((∀ c ∈ xs, c.byte ≠ 0) ∧ r.wp = r.base ∧ ¬r'.Recognised m' flag ∧ r'.byteAfter m' 1 = 0) ∨
    xs = [] ∧
      (r'.Recognised m' flag ∧ (m' (flag % 2 ^ 16 : ℕ)).byte = 0 ∨
        ¬r'.Recognised m' flag ∧ r'.byteAfter m' 1 = 0 ∧ (m' r.base).byte = 0)

section Missed

variable {start : ℤ} (h : Appended r m xs r' m') (hwp : r.WpInside)
include h hwp

theorem Appended.head_contents (hlo : r.base ≤ start) (hhi : start < r.limit)
    (hne : start ≠ r'.wp) :
    (contents m' r'.base r'.size start (r'.withRp start).getUsedSize.toNat).head? =
      some (m' start) := by
  have hpos : 0 < (r'.withRp start).getUsedSize.toNat := by
    obtain ⟨hwp', hwp''⟩ := h.wpInside hwp
    have hlimit := h.limit_eq
    unfold getUsedSize calcRwSize withRp
    dsimp only
    split <;> omega
  have hplace : start < r'.base + r'.size := by
    have hlimit := h.limit_eq
    unfold size
    omega
  rw [head?_contents hpos, cell_zero (by have := h.base_eq; omega) hplace]

variable (hlen : xs.length ≤ r.size - 3) (hnum : r'.Numbered m')
include hlen hnum

theorem Appended.text_iff {p : ℤ} (hdata : data.head? = some (m' p)) (hlo : r.base ≤ p)
    (hhi : p < r.limit) (hne : p ≠ r.wp) :
    cString data = xs ↔ xs = [] ∧ (m' p).byte = 0 := by
  constructor
  · intro hshown
    cases hxs : xs.head? with
    | none =>
      have hnil := head?_eq_none_iff.mp hxs
      rw [hnil, cString_eq_nil_iff] at hshown
      exact ⟨hnil, hshown _ hdata⟩
    | some x =>
      -- The byte would be the one at the old write pointer.
      have hold := h.head_eq hwp (by omega) hxs
      rw [← hshown] at hxs
      have hfirst := head?_of_cString hxs
      have hbase := h.base_eq
      have hlimit := h.limit_eq
      have hplace := hwp.base_le
      have hplace' := hwp.lt_limit
      refine absurd (hnum.eq (by omega) (by omega) (by omega) (by omega) ?_) hne
      rw [hold, some.inj (hdata.symm.trans hfirst)]
  · rintro ⟨hnil, hnul⟩
    rw [hnil, cString_eq_nil_iff, hdata]
    simpa using hnul

theorem Appended.shown_iff (hlo : r.base ≤ start) (hhi : start < r.limit) (hne : start ≠ r.wp) :
    r'.textFrom m' start = xs ↔ xs = [] ∧ (m' start).byte = 0 := by
  by_cases hend : start = r'.wp
  · have hnone : (r'.withRp start).getUsedSize = 0 := by
      simp [getUsedSize, calcRwSize, withRp, hend]
    have hsome : xs ≠ [] := by
      rintro rfl
      exact hne (hend.trans (h.wp_eq.trans hwp.cell_zero))
    rw [textFrom, hnone]
    exact iff_of_false (Ne.symm hsome) fun hnil => hsome hnil.1
  · exact h.text_iff hwp hlen hnum (h.head_contents hwp hlo hhi hend) hlo hhi hne

theorem Appended.not_shown_from_next (hnext : r'.byteAfter m' 1 ≠ 0) :
    r'.textFrom m' (r'.wp + 1) ≠ xs := by
  have hsize := h.size_eq
  have hhead : (contents m' r'.base r'.size (r'.wp + 1)
      (r'.withRp (r'.wp + 1)).getUsedSize.toNat).head? =
        some (m' (cell r'.base r'.size r'.wp 1)) := by
    rw [r'.getUsedSize_next, head?_contents (by omega), cell_succ, Int.zero_add]
  have hlo := @base_le_cell r'.base r'.size r'.wp 1 (by omega)
  have hhi := @cell_lt r'.base r'.size r'.wp 1 (by omega)
  have hne : cell r'.base r'.size r'.wp 1 ≠ r.wp := by
    intro hsame
    rw [h.base_eq, hsize, h.wp_eq, cell_cell] at hsame
    have := cell_inj (by omega) (by omega) (hsame.trans hwp.cell_zero.symm)
    omega
  have hlimit : r'.base + r'.size = r.limit := by
    have := h.limit_eq
    unfold size
    omega
  have hbase := h.base_eq
  exact fun hshown =>
    hnext ((h.text_iff hwp hlen hnum hhead (by omega) (by omega) hne).mp hshown).2

/-- With another mark, a dump is right only by coincidence. -/
theorem Appended.dump_eq_iff_lucky {flag : ℕ}
    (hflag : ((flag % 2 ^ 16 : ℕ) : ℤ) ≠ r.wp) :
    r'.dump m' flag = some xs ↔ Lucky r r' m' xs flag := by
  have hbase := h.base_eq
  have hlimit := h.limit_eq
  have hwpLo := hwp.base_le
  have hwpHi := hwp.lt_limit
  rw [(h.wpInside hwp).dump_eq m' (by rw [h.size_eq]; omega), some.injEq]
  unfold Lucky
  by_cases hrec : r'.Recognised m' flag
  · -- The dump starts at the offset of the flag word.
    have hrange : r'.base ≤ (flag % 2 ^ 16 : ℕ) ∧ ((flag % 2 ^ 16 : ℕ) : ℤ) < r'.limit := by
      simpa [inRange] using hrec.1
    have hstart : r'.dumpStart m' flag = (flag % 2 ^ 16 : ℕ) := if_pos hrec
    rw [hstart]
    simp only [hrec, not_true_eq_false, false_and, and_false, true_and, or_false, false_or]
    exact h.shown_iff hwp hlen hnum (by omega) (by omega) hflag
  · simp only [hrec, not_false_eq_true, true_and, false_and, false_or]
    by_cases hnext : r'.byteAfter m' 1 = 0
    · -- The dump starts at the base of the buffer.
      have hstart : r'.dumpStart m' flag = r.base := by
        rw [dumpStart, if_neg hrec, if_pos hnext, hbase]
      rw [hstart]
      simp only [hnext, true_and, and_true]
      by_cases hsame : r.wp = r.base
      · have hshown := h.readFrom hwp (by omega)
        rw [hsame] at hshown
        rw [hshown, cString_eq_self_iff]
        constructor
        · exact fun hnul => Or.inl ⟨hnul, hsame⟩
        · rintro (⟨hnul, -⟩ | ⟨rfl, -⟩)
          · exact hnul
          · simp
      · rw [h.shown_iff hwp hlen hnum (by omega) (by omega) (Ne.symm hsame)]
        simp only [hsame, and_false, false_or]
    · -- The dump starts after the write pointer.
      have hstart : r'.dumpStart m' flag = r'.wp + 1 := by
        rw [dumpStart, if_neg hrec, if_neg hnext]
      rw [hstart]
      simp only [hnext, and_false, false_and, or_false, iff_false]
      exact h.not_shown_from_next hwp hlen hnum hnext

end Missed

/-- After a clear, the dump shows exactly the appended bytes if the write offset was at least 0 and
below 65536 and no NUL has been appended, and otherwise by luck only. -/
theorem dump_eq_appended_iff (h : Appended r m xs r' m') (hwp : r.WpInside)
    (hlen : xs.length ≤ r.size - 3) (hnum : r'.Numbered m') {flag : ℕ}
    (hflag : r.clearHistory m = some flag) :
    r'.dump m' flag = some xs ↔
      (0 ≤ r.wp ∧ r.wp < 2 ^ 16) ∧ (∀ c ∈ xs, c.byte ≠ 0) ∨
        ¬(0 ≤ r.wp ∧ r.wp < 2 ^ 16) ∧ Lucky r r' m' xs flag := by
  have hword := hwp.clearHistory_eq m (by omega)
  obtain rfl := some.inj (hflag.symm.trans hword)
  by_cases hoff : 0 ≤ r.wp ∧ r.wp < 2 ^ 16
  · rw [h.dump_eq hwp hlen hoff.1 hoff.2, some.injEq, cString_eq_self_iff]
    simp only [hoff, and_self, not_true_eq_false, true_and, false_and, or_false]
  · have hmissed : (((u32 r.wp % 2 ^ 16 + 2 ^ 16 * r.magic m r.wp) % 2 ^ 16 : ℕ) : ℤ) ≠ r.wp := by
      omega
    rw [h.dump_eq_iff_lucky hwp hlen hnum hmissed]
    simp only [hoff, not_false_eq_true, true_and, false_and, false_or]

end Clear

/-- A memory full of the letter `a`. -/
def letters : ℤ → LogByte := fun p => ⟨p.toNat, 97⟩

/-- Three bytes that are appended at the offset 36. -/
def news : List LogByte := [⟨136, 98⟩, ⟨137, 10⟩, ⟨138, 99⟩]

/-- In a ring of eight bytes, the dump after a clear shows the three bytes that were appended. -/
theorem dump_news :
    (⟨32, 40, 39, 32, 0, 0⟩ : Ringbuf).dump (copyIn letters 36 news) (36 + 2 ^ 16 * 24929) =
      some news := by
  have happ : Appended ⟨32, 40, 36, 32, 0, 0⟩ letters news ⟨32, 40, 39, 32, 0, 0⟩
      (copyIn letters 36 news) := ⟨rfl, rfl, rfl, stored_copyIn (by decide) (by decide)⟩
  exact (dump_eq_appended_iff happ ⟨by decide, by decide⟩ (by decide) (by decide) rfl).mpr
    (Or.inl (by decide))

/-- With the write offset 65536, one appended byte is shown with six old ones. -/
theorem not_dump_news_above :
    (⟨65532, 65540, 65536, 65532, 0, 0⟩ : Ringbuf).clearHistory letters = some (2 ^ 16 * 24929) ∧
      Appended ⟨65532, 65540, 65536, 65532, 0, 0⟩ letters [⟨7, 98⟩]
        ⟨65532, 65540, 65537, 65532, 0, 0⟩ (copyIn letters 65536 [⟨7, 98⟩]) ∧
      (⟨65532, 65540, 65537, 65532, 0, 0⟩ : Ringbuf).dump (copyIn letters 65536 [⟨7, 98⟩])
        (2 ^ 16 * 24929) ≠ some [⟨7, 98⟩] := by
  refine ⟨rfl, ⟨rfl, rfl, rfl, stored_copyIn (by decide) (by decide)⟩, ?_⟩
  decide

end Mt8169.Dsp
