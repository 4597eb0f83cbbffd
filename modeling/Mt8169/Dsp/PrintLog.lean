import Mt8169.Dsp.Log
import Mt8169.Lib.Runs

/-!
# Printing recent log

`adfDebug_printLog` is called periodically to print what the DSP has appended to its log. It
compares the write pointer of the copy that the last call has made with the cursor, prints from the
cursor to the write pointer of a new copy, and sets the cursor to that of the old copy. The
definitions follow `adf_debug.c` of the DSP framework. When the DSP appends between two calls and
again before the next one, the second part is printed twice.
-/

namespace Mt8169.Dsp

open CircularBuffer MachineInt Runs Ringbuf List Option Nat Int

/-- The separators of `adfLog_print`. -/
def isSeparator (c : LogByte) : Bool := c.byte == 13 || c.byte == 10

/-- The bytes of the lines that `adfLog_print` prints: `strsep` cuts the text at the separators, and
empty lines are left out. -/
def lineBytes (text : List LogByte) : List LogByte :=
  ((text.splitOnP isSeparator).filter fun line => !line.isEmpty).flatten

/-- `adfLog_print`: the ring with the read pointer it has set, and the bytes printed. -/
def Ringbuf.print (r : Ringbuf) (m : ℤ → LogByte) (flag : ℕ) : Option (Ringbuf × List LogByte) := do
  let (r, remain) ← r.reCalcHeader m flag false
  let text ← r.readText m remain
  some (r, lineBytes text)

/-- The log of the DSP and what the kernel keeps about it: the ring and the memory of the DSP, the
kernel's copies of both, and the cursor `reserved[1]`. For the statements there are all bytes
appended so far, their number at the last two calls, and what the calls have printed, the last one
first. -/
structure LogSystem where
  ring : Ringbuf
  mem : ℤ → LogByte
  copy : Ringbuf
  copyMem : ℤ → LogByte
  cursor : ℕ
  log : List UInt8
  last : ℕ
  previous : ℕ
  printed : List (List LogByte)

/-- The DSP appends bytes and moves its own read pointer, or the kernel calls `adfDebug_printLog`.
-/
inductive LogEvent where
  | append (bytes : List UInt8) (rp : ℤ)
  | printLog

/-- The bytes of the log with their numbers, from `n` on. -/
def number (n : ℕ) (bytes : List UInt8) : List LogByte := bytes.mapIdx fun i b => ⟨n + i, b⟩

namespace LogSystem

variable (s : LogSystem) (total : ℤ)

/-- The DSP appends bytes, less than the ring has cells. -/
def append (bytes : List UInt8) (rp : ℤ) : LogSystem :=
  match s.ring.copyWrite s.mem (number s.log.length bytes) bytes.length with
  | none => s
  | some m =>
    { s with
      ring := { s.ring with
        wp := movePtr s.ring.wp bytes.length s.ring.base s.ring.limit
        rp := rp }
      mem := m
      log := s.log ++ bytes }

/-- The rest of `adfDebug_printLog` with `ADF_LOG_DUMP_RECENT`, when there is something new:
`_adfDebug_logBufCheck` compares with a buffer of `total` bytes behind the ring. -/
def printNew : LogSystem :=
  let s := { s with copy := s.ring, copyMem := s.mem }
  if s.copy.checkValid 32 total then
    match s.copy.print s.copyMem s.cursor with
    | none => { s with printed := [] :: s.printed }
    | some (r, out) => { s with copy := r, printed := out :: s.printed }
  else { s with printed := [] :: s.printed }

/-- `adfDebug_printLog` with `ADF_LOG_DUMP_RECENT`, with all memory reads succeeding. -/
def printLog : LogSystem :=
  let wptr := s.copy.wp
  let s := { s with copy := s.ring, last := s.log.length, previous := s.last }
  if u32 wptr = s.cursor then { s with printed := [] :: s.printed }
  else { s.printNew total with cursor := u32 wptr }

/-- One event. -/
def step (s : LogSystem) : LogEvent → LogSystem
  | .append bytes rp => s.append bytes rp
  | .printLog => s.printLog total

/-- The state after the first call, from which on the calls are looked at. -/
def afterFirst : LogSystem :=
  { s.printLog total with last := s.log.length, previous := s.log.length, printed := [] }

end LogSystem

theorem lineBytes_eq (text : List LogByte) :
    lineBytes text = text.filter fun c => !isSeparator c := by
  unfold lineBytes
  rw [flatten_filter_not_isEmpty]
  induction text with
  | nil => rfl
  | cons c text ih =>
    rw [splitOnP_cons_eq_if_modifyHead, filter_cons, ← ih]
    by_cases hc : isSeparator c = true
    · simp [hc]
    · obtain ⟨line, lines, hlines⟩ := exists_cons_of_ne_nil
        (splitOnP_ne_nil isSeparator text)
      simp [hc, hlines]

theorem mem_lineBytes {text : List LogByte} {c : LogByte} :
    c ∈ lineBytes text ↔ c ∈ text ∧ isSeparator c = false := by
  rw [lineBytes_eq, mem_filter]
  simp

/-- The ring of the log, behind a buffer of `total` bytes with offsets below 65536. -/
structure Ringbuf.IsLog (total : ℤ) (r : Ringbuf) : Prop where
  base_eq : r.base = 32
  limit_eq : r.limit = 32 + total
  two_le : 2 ≤ total
  limit_le : 32 + total ≤ 2 ^ 16
  inside : r.Inside

namespace Ringbuf.IsLog

variable {total : ℤ} {r : Ringbuf}

section

variable (h : r.IsLog total)
include h

theorem size_eq : r.size = total := by
  unfold Ringbuf.size
  rw [h.base_eq, h.limit_eq]
  omega

theorem wpInside : r.WpInside := ⟨h.inside.base_le_wp, h.inside.wp_lt⟩

theorem checkValid : r.checkValid 32 total = true := by
  have hsize : r.limit - r.base = total := h.size_eq
  obtain ⟨hrp, hrp', hwp, hwp'⟩ := h.inside
  have hsame : ¬(r.base ≠ 32 ∨ r.limit - r.base ≠ total) := by
    rintro (hbase | hlimit)
    · exact hbase h.base_eq
    · exact hlimit hsize
  rw [Ringbuf.checkValid, if_neg hsame]
  simp [inRange, *]

/-- `adfLog_reCalcHeader` sets the read pointer to a place in the buffer or its end, and to the
cursor if this is in the buffer. -/
theorem reCalcHeader_eq (m : ℤ → LogByte) (flag : ℕ) :
    ∃ start, (r.base ≤ start ∧ start ≤ r.limit) ∧
      (r.base ≤ (flag % 2 ^ 16 : ℕ) ∧ ((flag % 2 ^ 16 : ℕ) : ℤ) < r.limit →
        start = (flag % 2 ^ 16 : ℕ)) ∧
      r.reCalcHeader m flag false = some (r.withRp start, (r.withRp start).getUsedSize) := by
  have hrange : inRange (flag % 2 ^ 16 : ℕ) r.base r.limit = true ↔
      r.base ≤ (flag % 2 ^ 16 : ℕ) ∧ ((flag % 2 ^ 16 : ℕ) : ℤ) < r.limit := by simp [inRange]
  rw [← hrange, reCalcHeader, h.wpInside.oldest_eq m (by rw [h.size_eq]; exact h.two_le),
    bind_eq_bind, bind_some]
  by_cases hin : inRange (flag % 2 ^ 16 : ℕ) r.base r.limit = true
  · have hpreset (p : ℤ) : (r.withRp p).presetRp m flag false =
        some (r.withRp (flag % 2 ^ 16 : ℕ)) := if_pos hin
    have hplace := hrange.mp hin
    refine ⟨(flag % 2 ^ 16 : ℕ), ⟨hplace.1, Int.le_of_lt hplace.2⟩, fun _ => rfl, ?_⟩
    rw [hpreset, bind_eq_bind, bind_some]
  · have hpreset (p : ℤ) : (r.withRp p).presetRp m flag false = some (r.withRp p) := if_neg hin
    obtain ⟨hwp, hwp'⟩ := h.wpInside
    refine ⟨if r.byteAfter m 1 = 0 then r.base else r.wp + 1, ?_, fun h => absurd h hin, ?_⟩
    · split <;> omega
    · rw [hpreset, bind_eq_bind, bind_some]

/-- What is printed, from the cursor if it is in the ring. -/
theorem print_eq (m : ℤ → LogByte) (flag : ℕ) :
    ∃ start, (r.base ≤ start ∧ start ≤ r.limit) ∧
      (r.base ≤ (flag % 2 ^ 16 : ℕ) ∧ ((flag % 2 ^ 16 : ℕ) : ℤ) < r.limit →
        start = (flag % 2 ^ 16 : ℕ)) ∧
      r.print m flag = some (r.withRp start, lineBytes (cString
        (contents m r.base r.size start (r.withRp start).getUsedSize.toNat))) := by
  obtain ⟨start, hplace, hcursor, hheader⟩ := h.reCalcHeader_eq m flag
  refine ⟨start, hplace, hcursor, ?_⟩
  rw [print, hheader, bind_eq_bind, bind_some]
  dsimp only
  rw [h.wpInside.readText_eq m hplace.1 hplace.2]
  rfl

end

end Ringbuf.IsLog

/-- A call has printed the byte with the number `i`. -/
def prints (i : ℕ) (out : List LogByte) : Bool := out.any fun c => c.id == i

variable {out : List LogByte}

theorem prints_eq_true {i : ℕ} : prints i out = true ↔ ∃ c ∈ out, c.id = i := by simp [prints]

namespace LogSystem

/-- The place of the byte with the number `i`. -/
def place (s : LogSystem) (i : ℕ) : ℤ :=
  cell s.ring.base s.ring.size s.ring.wp (i - s.log.length)

/-- The first number that the next call may have to read: nothing of what was there before the last
call, unless nothing has been appended since. -/
def needed (s : LogSystem) : ℕ := if s.log.length = s.last then s.previous else s.last

/-- The numbers of the log at the last two calls, and how far they are apart. -/
structure Paced (total : ℤ) (s : LogSystem) : Prop where
  previous_le : s.previous ≤ s.last
  last_le : s.last ≤ s.log.length
  gap : s.last - s.previous < total - 1
  recent : s.log.length - s.last < total - 1

/-- The buffer holds the bytes that may have to be read, and no byte with a later number. -/
structure Stocked (s : LogSystem) : Prop where
  stored : ∀ i b, s.needed ≤ i → s.log[i]? = some b → s.mem (s.place i) = ⟨i, b⟩
  numbered : ∀ p, s.ring.base ≤ p → p < s.ring.limit → (s.mem p).id < s.log.length

/-- The copy has the write pointer of the last call, and the cursor that of the call before, which
is unknown after the first call. -/
structure Pointed (first : ℕ) (s : LogSystem) : Prop where
  copy_eq : s.copy.wp = s.place s.last
  cursor_eq : (s.cursor : ℤ) = s.place s.previous ∨ s.previous = first ∧ s.last = first

/-- From the first call on, bytes have been printed at most once, those from before the last two
calls exactly once, and later ones not yet. -/
structure Shown (first : ℕ) (s : LogSystem) : Prop where
  once : ∀ i, first ≤ i → s.printed.countP (prints i) ≤ 1
  fresh : ∀ i, s.previous ≤ i → s.printed.countP (prints i) = 0
  shown : ∀ i b, first ≤ i → i < s.previous → s.log[i]? = some b →
    isSeparator ⟨i, b⟩ = false → ∃ out ∈ s.printed, (⟨i, b⟩ : LogByte) ∈ out

/-- What runs keep from the first call on. -/
structure Tracked (total : ℤ) (first : ℕ) (s : LogSystem) : Prop where
  isLog : s.ring.IsLog total
  paced : s.Paced total
  first_le : first ≤ s.previous
  noNul : ∀ i b, first ≤ i → s.log[i]? = some b → b ≠ 0
  stocked : s.Stocked
  pointed : s.Pointed first
  shown : s.Shown first

section Append

variable {total rp : ℤ} {s : LogSystem} {bytes : List UInt8}

@[simp] theorem length_number (n : ℕ) (bytes : List UInt8) :
    (number n bytes).length = bytes.length := by simp [number]

/-- An append stores numbered bytes. -/
theorem append_eq (h : s.ring.IsLog total) (hlen : bytes.length < total) (rp : ℤ) :
    ∃ m, Stored s.mem m s.ring.base s.ring.size s.ring.wp (number s.log.length bytes) ∧
      s.append bytes rp =
        { s with
          ring := { s.ring with
            wp := cell s.ring.base s.ring.size s.ring.wp bytes.length
            rp := rp }
          mem := m
          log := s.log ++ bytes } ∧
      ∀ i, (s.append bytes rp).place i = s.place i := by
  have hsize := h.size_eq
  have hdata : (bytes.length : ℤ) ≤ (number s.log.length bytes).length :=
    Int.le_of_eq (congrArg Nat.cast (length_number s.log.length bytes).symm)
  obtain ⟨m, hcopy, hstored⟩ := h.inside.copyWrite_stored s.mem (by omega) hdata (by omega)
  have hwp := h.wpInside
  rw [append, hcopy, movePtr_eq_cell (by have := hwp.base_le; omega)
    (by have := hwp.lt_limit; omega)]
  refine ⟨m, ?_, rfl, fun i => ?_⟩
  · rwa [toNat_natCast, take_of_length_le (by rw [length_number])] at hstored
  · change cell s.ring.base s.ring.size (cell s.ring.base s.ring.size s.ring.wp bytes.length)
      (i - (s.log ++ bytes).length : ℤ) = _
    rw [cell_cell, length_append, place]
    congr 1
    omega

theorem getD_number (n : ℕ) (bytes : List UInt8) {j : ℕ} {b : UInt8} (hb : bytes[j]? = some b)
    (d : LogByte) : (number n bytes).getD j d = ⟨n + j, b⟩ := by
  rw [getD_eq_getElem?_getD, number, getElem?_mapIdx, hb]
  rfl

theorem Stocked.append (h : s.Stocked) (hlog : s.ring.IsLog total) (hpace : s.Paced total)
    (hlen : s.log.length + bytes.length - s.last < total - 1) (rp : ℤ) :
    (s.append bytes rp).Stocked := by
  have hpaced := hpace.previous_le
  have hlast := hpace.last_le
  have hgap := hpace.gap
  have hsize := hlog.size_eq
  obtain ⟨m, hstored, heq, hplace⟩ := append_eq hlog (by omega : (bytes.length : ℤ) < total) rp
  constructor
  · intro i b hi hb
    rw [hplace]
    have hneeded : s.needed ≤ i ∧ (s.log.length + bytes.length - i : ℤ) < total := by
      unfold needed at hi ⊢
      rw [heq] at hi
      simp only [length_append] at hi
      split at hi <;> split <;> omega
    rw [heq] at hb ⊢
    dsimp only at hb ⊢
    rcases lt_or_ge i s.log.length with hold | hnew
    · -- An old byte is not overwritten.
      rw [getElem?_append_left hold] at hb
      rw [← h.stored i b hneeded.1 hb]
      have hcell : s.place i = cell s.ring.base s.ring.size s.ring.wp
          ((i - s.log.length + total).toNat : ℕ) := by
        unfold place
        rw [← cell_add_size]
        congr 1
        omega
      rw [hcell, hstored _ (by omega), getD_eq_default _ _ (by rw [length_number]; omega)]
    · rw [getElem?_append_right hnew] at hb
      have hj : i - s.log.length < bytes.length := (List.getElem?_eq_some_iff.mp hb).1
      have hcell : s.place i = cell s.ring.base s.ring.size s.ring.wp
          ((i - s.log.length : ℕ) : ℤ) := by
        unfold place
        congr 1
        omega
      rw [hcell, hstored _ (by omega), getD_number _ _ hb, Nat.add_sub_cancel' hnew]
  · intro p hp hp'
    rw [heq] at hp hp' ⊢
    dsimp only at hp hp' ⊢
    have hlimit : s.ring.limit = s.ring.base + s.ring.size := by
      unfold Ringbuf.size
      omega
    obtain ⟨d, hd, hd', rfl⟩ := exists_cell_eq s.ring.wp hp (hp'.trans_eq hlimit)
    obtain ⟨k, rfl⟩ := eq_ofNat_of_zero_le hd
    have hnum := h.numbered _ hp hp'
    rw [hstored k hd', length_append]
    rcases lt_or_ge k bytes.length with hk | hk
    · rw [getD_number _ _ (getElem?_eq_getElem hk)]
      dsimp only
      omega
    · rw [getD_eq_default _ _ (by rw [length_number]; exact hk)]
      omega

/-- An append keeps track of what is printed. -/
theorem Tracked.append {first : ℕ} (h : s.Tracked total first)
    (hlen : s.log.length + bytes.length - s.last < total - 1) (hnul : ∀ b ∈ bytes, b ≠ 0)
    (hrp : 32 ≤ rp) (hrp' : rp < 32 + total) : (s.append bytes rp).Tracked total first := by
  obtain ⟨hlog, hpaced, hfirst, hnoNul, hstocked, hpointed, hshown⟩ := h
  have hsize := hlog.size_eq
  have hlast := hpaced.last_le
  have hstocked' := hstocked.append hlog hpaced hlen rp
  obtain ⟨m, -, heq, hplace⟩ := append_eq hlog (by omega : (bytes.length : ℤ) < total) rp
  have hprev := hpaced.previous_le
  refine ⟨?_, ?_, ?_, ?_, hstocked', ?_, ?_⟩
  · rw [heq]
    have hwp := @base_le_cell s.ring.base s.ring.size s.ring.wp bytes.length (by omega)
    have hwp' := @cell_lt s.ring.base s.ring.size s.ring.wp bytes.length (by omega)
    have hbase := hlog.base_eq
    have hlimit := hlog.limit_eq
    exact ⟨hbase, hlimit, hlog.two_le, hlog.limit_le, by dsimp only; omega, by dsimp only; omega,
      hwp, by dsimp only; omega⟩
  · rw [heq]
    constructor
    · exact hprev
    · rw [length_append]
      exact hlast.trans (le_add_right _ _)
    · exact hpaced.gap
    · rw [length_append]
      exact hlen
  · rw [heq]
    exact hfirst
  · intro i b hi hb
    rw [heq] at hb
    rcases lt_or_ge i s.log.length with hold | hnew
    · rw [getElem?_append_left hold] at hb
      exact hnoNul i b hi hb
    · rw [getElem?_append_right hnew] at hb
      exact hnul b (mem_of_getElem? hb)
  · constructor
    · rw [hplace, heq]
      exact hpointed.copy_eq
    · rw [hplace, heq]
      exact hpointed.cursor_eq
  · rw [heq]
    refine { hshown with shown := fun i b hi hi' hb => ?_ }
    rw [getElem?_append_left (by dsimp only at hi'; omega)] at hb
    exact hshown.shown i b hi hi' hb

end Append

section Call

variable {total : ℤ} {first : ℕ} {s : LogSystem}

/-- A call may be made: the last one has left the cursor at the write pointer of the copy, or
nothing has been appended since. -/
def CallOk (s : LogSystem) : Prop := u32 s.copy.wp = s.cursor ∨ s.log.length = s.last
  deriving Decidable

theorem printLog_eq (h : s.ring.IsLog total) :
    ∃ r out, r.wp = s.ring.wp ∧
      s.printLog total = { s with
        copy := r
        copyMem := (s.printLog total).copyMem
        cursor := u32 s.copy.wp
        last := s.log.length
        previous := s.last
        printed := out :: s.printed } ∧
      (u32 s.copy.wp = s.cursor → out = []) ∧
      (u32 s.copy.wp ≠ s.cursor → ∃ r', s.ring.print s.mem s.cursor = some (r', out)) := by
  by_cases hsame : u32 s.copy.wp = s.cursor
  · have hcall : s.printLog total = { s with
        copy := s.ring
        last := s.log.length
        previous := s.last
        printed := [] :: s.printed } := if_pos hsame
    refine ⟨s.ring, [], rfl, ?_, fun _ => rfl, fun hne => absurd hsame hne⟩
    rw [hcall, hsame]
  · obtain ⟨start, -, -, hprint⟩ := h.print_eq s.mem s.cursor
    have hnew (l p : ℕ) : ({ s with copy := s.ring, last := l, previous := p } :
        LogSystem).printNew total = { s with
          copy := s.ring.withRp start
          copyMem := s.mem
          last := l
          previous := p
          printed := lineBytes (cString (contents s.mem s.ring.base s.ring.size start
            (s.ring.withRp start).getUsedSize.toNat)) :: s.printed } := by
      rw [printNew]
      dsimp only
      rw [if_pos h.checkValid, hprint]
    have hcall : s.printLog total = { ({ s with
        copy := s.ring
        last := s.log.length
        previous := s.last } : LogSystem).printNew total with cursor := u32 s.copy.wp } :=
      if_neg hsame
    refine ⟨s.ring.withRp start, _, rfl, ?_, fun heq => absurd heq hsame, fun _ => ⟨_, hprint⟩⟩
    rw [hcall, hnew]

theorem printLog_marks (s : LogSystem) (total : ℤ) :
    (s.printLog total).log = s.log ∧ (s.printLog total).last = s.log.length ∧
      (s.printLog total).previous = s.last := by
  unfold printLog
  dsimp only
  split
  · exact ⟨rfl, rfl, rfl⟩
  · unfold printNew
    dsimp only
    split
    · split <;> exact ⟨rfl, rfl, rfl⟩
    · exact ⟨rfl, rfl, rfl⟩

theorem place_bounds (h : s.ring.IsLog total) (i : ℕ) :
    32 ≤ s.place i ∧ s.place i < 32 + total := by
  have hsize := h.size_eq
  have htwo := h.two_le
  have hlo := @base_le_cell s.ring.base s.ring.size s.ring.wp (i - s.log.length) (by omega)
  have hhi := @cell_lt s.ring.base s.ring.size s.ring.wp (i - s.log.length) (by omega)
  have hbase := h.base_eq
  unfold place
  omega

theorem u32_copy (h : s.Tracked total first) : (u32 s.copy.wp : ℤ) = s.place s.last := by
  obtain ⟨hlo, hhi⟩ := place_bounds h.isLog s.last
  have hle := h.isLog.limit_le
  rw [h.pointed.copy_eq]
  unfold u32
  omega

theorem place_length (h : s.ring.IsLog total) : s.place s.log.length = s.ring.wp := by
  have hwp := h.wpInside
  unfold place
  rw [Int.sub_self]
  exact cell_zero hwp.base_le (by have := hwp.lt_limit; unfold Ringbuf.size; omega)

theorem getUsedSize_place (h : s.ring.IsLog total) {i : ℕ} (hle : i ≤ s.log.length)
    (hgap : s.log.length - i < total) :
    (s.ring.withRp (s.place i)).getUsedSize = s.log.length - i := by
  obtain ⟨hlo, hhi⟩ := place_bounds h i
  have hsize := h.size_eq
  have hlt : (s.log.length - i : ℤ) < s.ring.size := by omega
  have hwp : s.ring.wp = cell s.ring.base s.ring.size (s.place i) (s.log.length - i) := by
    rw [place, cell_cell]
    have hzero : (i - s.log.length + (s.log.length - i) : ℤ) = s.log.length - s.log.length := by
      omega
    rw [hzero]
    exact (place_length h).symm
  refine getUsedSize_of_wp ?_ ?_ (by omega) hlt hwp
  · exact Int.le_trans (Int.le_of_eq h.base_eq) hlo
  · exact Int.lt_of_lt_of_le hhi (Int.le_of_eq h.limit_eq.symm)

/-- The bytes that a call reads from the place of the call before the last one. -/
def recentText (s : LogSystem) : List LogByte :=
  contents s.mem s.ring.base s.ring.size (s.place s.previous)
    (s.ring.withRp (s.place s.previous)).getUsedSize.toNat

theorem mem_recent (h : s.Tracked total first) (hidle : s.log.length = s.last) {c : LogByte} :
    c ∈ s.recentText ↔ s.previous ≤ c.id ∧ s.log[c.id]? = some c.byte := by
  have hprev := h.paced.previous_le
  have hgap := h.paced.gap
  have hneeded : s.needed = s.previous := if_pos hidle
  have hcell (k : ℕ) : cell s.ring.base s.ring.size (s.place s.previous) k =
      s.place (s.previous + k) := by
    rw [place, cell_cell, place]
    congr 1
    omega
  rw [recentText, getUsedSize_place h.isLog (by omega) (by omega), contents, List.mem_map]
  constructor
  · rintro ⟨k, hk, rfl⟩
    have hk' := mem_range.mp hk
    have hget := getElem?_eq_getElem (by omega : s.previous + k < s.log.length)
    rw [hcell, h.stocked.stored _ _ (by omega) hget]
    exact ⟨le_add_right _ _, hget⟩
  · rintro ⟨hle, hget⟩
    have hlt := (List.getElem?_eq_some_iff.mp hget).1
    refine ⟨c.id - s.previous, mem_range.mpr (by omega), ?_⟩
    rw [hcell, Nat.add_sub_cancel' hle, h.stocked.stored _ _ (by omega) hget]

/-- A call prints the bytes between the two calls before it. -/
theorem printed_between (h : s.Tracked total first) (hok : s.CallOk)
    (hnone : u32 s.copy.wp = s.cursor → out = [])
    (hprint : u32 s.copy.wp ≠ s.cursor → ∃ r, s.ring.print s.mem s.cursor = some (r, out)) :
    (∀ c ∈ out, first ≤ c.id → s.previous ≤ c.id ∧ c.id < s.last) ∧
      ∀ i b, s.previous ≤ i → i < s.last → s.log[i]? = some b → isSeparator ⟨i, b⟩ = false →
        (⟨i, b⟩ : LogByte) ∈ out := by
  have hcopy := u32_copy h
  have hprev := h.paced.previous_le
  have hgap := h.paced.gap
  have hsize := h.isLog.size_eq
  by_cases hsame : u32 s.copy.wp = s.cursor
  · -- Nothing is printed, and nothing is missing because the last two calls were at one place.
    have hidle : s.previous = s.last := by
      rcases h.pointed.cursor_eq with hcursor | ⟨hfirst, hlast⟩
      · rw [← hsame, hcopy] at hcursor
        have := cell_inj (by omega) (by omega) hcursor
        omega
      · omega
    rw [hnone hsame]
    exact ⟨fun c hc => absurd hc not_mem_nil, fun i b hlo hhi => by omega⟩
  · have hidle : s.log.length = s.last := hok.resolve_left hsame
    obtain ⟨r, hout⟩ := hprint hsame
    obtain ⟨start, hplace, hcursor, hprint'⟩ := h.isLog.print_eq s.mem s.cursor
    obtain ⟨-, rfl⟩ := Prod.mk.inj (some.inj (hout.symm.trans hprint'))
    rcases h.pointed.cursor_eq with hprevious | ⟨hfirst, hlast⟩
    · have hbounds := place_bounds h.isLog s.previous
      have hbase := h.isLog.base_eq
      have hlimit := h.isLog.limit_eq
      have hle := h.isLog.limit_le
      have hstart : start = s.place s.previous := by
        have := hcursor (by omega)
        omega
      rw [hstart]
      have htext : cString s.recentText = s.recentText := by
        refine cString_eq_self_iff.mpr fun c hc => ?_
        obtain ⟨hlo, hget⟩ := (mem_recent h hidle).mp hc
        exact h.noNul c.id c.byte (h.first_le.trans hlo) hget
      unfold recentText at htext
      rw [htext]
      constructor
      · intro c hc _
        obtain ⟨hlo, hget⟩ := (mem_recent h hidle).mp (mem_lineBytes.mp hc).1
        exact ⟨hlo, hidle ▸ (List.getElem?_eq_some_iff.mp hget).1⟩
      · intro i b hlo hhi hget hsep
        exact mem_lineBytes.mpr ⟨(mem_recent h hidle).mpr ⟨hlo, hget⟩, hsep⟩
    · -- All bytes in the buffer are from before the first call.
      refine ⟨fun c hc hnew => ?_, fun i b hlo hhi => by omega⟩
      have hc' := ( takeWhile_prefix _).subset (mem_lineBytes.mp hc).1
      obtain ⟨k, -, rfl⟩ := List.mem_map.mp hc'
      have htwo := h.isLog.two_le
      have hcell := @cell_lt s.ring.base s.ring.size start k (by omega)
      have hcell' := @base_le_cell s.ring.base s.ring.size start k (by omega)
      have hold := h.stocked.numbered _ hcell' (by rwa [limit_eq])
      omega

theorem Shown.call (h : s.Shown first) (hprev : s.previous ≤ s.last) {s' : LogSystem}
    (hlog : s'.log = s.log) (hprevious : s'.previous = s.last)
    (hprinted : s'.printed = out :: s.printed)
    (hids : ∀ c ∈ out, first ≤ c.id → s.previous ≤ c.id ∧ c.id < s.last)
    (hcover : ∀ i b, s.previous ≤ i → i < s.last → s.log[i]? = some b →
      isSeparator ⟨i, b⟩ = false → (⟨i, b⟩ : LogByte) ∈ out) (hfirst : first ≤ s.previous) :
    s'.Shown first := by
  have hout (i : ℕ) (hi : first ≤ i) (hprints : prints i out = true) :
      s.previous ≤ i ∧ i < s.last := by
    obtain ⟨c, hc, rfl⟩ := prints_eq_true.mp hprints
    exact hids c hc hi
  constructor
  · intro i hi
    rw [hprinted, countP_cons]
    have honce := h.once i hi
    split
    · rename_i hprints
      have hfresh := h.fresh i (hout i hi hprints).1
      omega
    · omega
  · intro i hi
    rw [hprevious] at hi
    rw [hprinted, countP_cons, h.fresh i (hprev.trans hi)]
    split
    · rename_i hprints
      have := (hout i (hfirst.trans (hprev.trans hi)) hprints).2
      omega
    · rfl
  · intro i b hi hi' hget hsep
    rw [hlog] at hget
    rw [hprevious] at hi'
    rw [hprinted]
    rcases lt_or_ge i s.previous with hold | hnew
    · obtain ⟨o, ho, hmem⟩ := h.shown i b hi hold hget hsep
      exact ⟨o, mem_cons_of_mem _ ho, hmem⟩
    · exact ⟨out, mem_cons_self, hcover i b hnew hi' hget hsep⟩

theorem Tracked.printLog (h : s.Tracked total first) (hok : s.CallOk) :
    (s.printLog total).Tracked total first := by
  obtain ⟨r, out, hwp, heq, hnone, hprint⟩ := printLog_eq h.isLog
  obtain ⟨hids, hcover⟩ := printed_between h hok hnone hprint
  have hcopy := u32_copy h
  have hlast := h.paced.last_le
  have hprev := h.paced.previous_le
  have hrecent := h.paced.recent
  have htwo := h.isLog.two_le
  have hplace (i : ℕ) : (s.printLog total).place i = s.place i := by rw [heq]; rfl
  refine ⟨?_, ?_, ?_, ?_, ?_, ?_, ?_⟩
  · rw [heq]
    exact h.isLog
  · rw [heq]
    exact ⟨hlast, le_refl _, hrecent, by dsimp only; omega⟩
  · rw [heq]
    exact h.first_le.trans hprev
  · rw [heq]
    exact h.noNul
  · constructor
    · intro i b hi hget
      rw [hplace]
      rw [heq] at hi hget ⊢
      have hneeded : s.needed ≤ i := by
        unfold needed at hi ⊢
        dsimp only at hi
        rw [if_pos rfl] at hi
        split <;> omega
      exact h.stocked.stored i b hneeded hget
    · rw [heq]
      exact h.stocked.numbered
  · constructor
    · rw [hplace, heq]
      exact hwp.trans (place_length h.isLog).symm
    · rw [hplace, heq]
      exact Or.inl hcopy
  · refine h.shown.call hprev ?_ ?_ ?_ hids hcover h.first_le
    all_goals rw [heq]

end Call

/-- The DSP appends less than the cells of the buffer but one between two calls, and keeps its own
read pointer in the buffer. -/
def InDomain (total : ℤ) (s : LogSystem) : LogEvent → Prop
  | .append bytes rp =>
    s.log.length + bytes.length - s.last < total - 1 ∧ 32 ≤ rp ∧ rp < 32 + total
  | .printLog => True

/-- The DSP appends no NUL, and a call that has something to print finds that nothing has been
appended since the last one. -/
def Spaced (s : LogSystem) : LogEvent → Prop
  | .append bytes _ => ∀ b ∈ bytes, b ≠ 0
  | .printLog => s.CallOk

instance (total : ℤ) (s : LogSystem) (e : LogEvent) : Decidable (s.InDomain total e) :=
  match e with
  | .append bytes rp => inferInstanceAs (Decidable
      (s.log.length + bytes.length - s.last < total - 1 ∧ 32 ≤ rp ∧ rp < 32 + total))
  | .printLog => .isTrue trivial

instance (s : LogSystem) (e : LogEvent) : Decidable (s.Spaced e) :=
  match e with
  | .append bytes _ => inferInstanceAs (Decidable (∀ b ∈ bytes, b ≠ 0))
  | .printLog => inferInstanceAs (Decidable s.CallOk)

/-- Every step under its condition keeps track. -/
theorem Tracked.step {total : ℤ} {first : ℕ} {s : LogSystem} (h : s.Tracked total first)
    {e : LogEvent} (hdomain : s.InDomain total e) (hspaced : s.Spaced e) :
    (s.step total e).Tracked total first := by
  cases e with
  | append bytes rp => exact h.append hdomain.1 hspaced hdomain.2.1 hdomain.2.2
  | printLog => exact h.printLog hspaced

/-- After the first call, all is tracked. -/
theorem tracked_afterFirst {total : ℤ} {s : LogSystem} (hlog : s.ring.IsLog total)
    (hnumbered : ∀ p, s.ring.base ≤ p → p < s.ring.limit → (s.mem p).id < s.log.length) :
    (s.afterFirst total).Tracked total s.log.length := by
  obtain ⟨r, out, hwp, heq, -, -⟩ := printLog_eq hlog
  have htwo := hlog.two_le
  have hnone (i : ℕ) (b : UInt8) (hi : s.log.length ≤ i) : s.log[i]? ≠ some b := by
    rw [getElem?_eq_none hi]
    simp
  rw [afterFirst, heq]
  refine ⟨hlog, ⟨le_refl _, le_refl _, ?_, ?_⟩, le_refl _, ?_, ⟨?_, hnumbered⟩,
    ⟨?_, Or.inr ⟨rfl, rfl⟩⟩, ⟨fun i _ => zero_le _, fun i _ => rfl, ?_⟩⟩
  · dsimp only
    omega
  · dsimp only
    omega
  · exact fun i b hi hget => absurd hget (hnone i b hi)
  · intro i b hi hget
    rw [needed, if_pos rfl] at hi
    exact absurd hget (hnone i b hi)
  · exact hwp.trans (place_length hlog).symm
  · intro i b hi hi'
    exact absurd hi' (not_lt.mpr hi)

/-- If no NUL is appended, and whenever a call has something to print nothing has been appended
since the call before it, every byte appended after the first call is printed by at most one call,
and every such byte but the separators has been printed after two calls in a row. -/
theorem printed_once {total : ℤ} {s : LogSystem} (hlog : s.ring.IsLog total)
    (hnumbered : ∀ p, s.ring.base ≤ p → p < s.ring.limit → (s.mem p).id < s.log.length)
    (es : List LogEvent) (hdomain : RunOk (step total) (InDomain total) (s.afterFirst total) es)
    (hspaced : RunOk (step total) Spaced (s.afterFirst total) es) :
    (∀ i, s.log.length ≤ i →
      (es.foldl (step total) (s.afterFirst total)).printed.countP (prints i) ≤ 1) ∧
      ∀ pre, es = pre ++ [.printLog, .printLog] → ∀ i b, s.log.length ≤ i →
        (es.foldl (step total) (s.afterFirst total)).log[i]? = some b →
        isSeparator ⟨i, b⟩ = false →
        ∃ out ∈ (es.foldl (step total) (s.afterFirst total)).printed,
          (⟨i, b⟩ : LogByte) ∈ out := by
  have htracked : (es.foldl (step total) (s.afterFirst total)).Tracked total s.log.length := by
    apply (Reaches.start.foldl (runOk_and.mpr ⟨hdomain, hspaced⟩)).invariant
      (tracked_afterFirst hlog hnumbered)
    rintro t e htracked ⟨hin, hsp⟩
    exact htracked.step hin hsp
  refine ⟨htracked.shown.once, ?_⟩
  rintro pre rfl i b hi hget hsep
  refine htracked.shown.shown i b hi ?_ hget hsep
  -- The call before the last one has seen the whole log.
  have hlt := (List.getElem?_eq_some_iff.mp hget).1
  rw [List.foldl_append] at hlt ⊢
  obtain ⟨hlog1, hlast1, -⟩ := printLog_marks (pre.foldl (step total) (s.afterFirst total)) total
  obtain ⟨hlog2, -, hprevious2⟩ := printLog_marks
    ((pre.foldl (step total) (s.afterFirst total)).printLog total) total
  have hlen := congrArg List.length (hlog2.trans hlog1)
  have hmark := hprevious2.trans hlast1
  exact lt_of_lt_of_eq hlt (hlen.trans hmark.symm)

/-- A system with a fresh log of sixteen bytes. -/
def fresh : LogSystem where
  ring := ⟨32, 48, 32, 32, 0, 0⟩
  mem := fun _ => ⟨0, 0⟩
  copy := ⟨32, 48, 32, 32, 0, 0⟩
  copyMem := fun _ => ⟨0, 0⟩
  cursor := 32
  log := [0]
  last := 0
  previous := 0
  printed := []

/-- The DSP appends `a`, and later `b` and `c`, with two calls after each. -/
def quietRun : List LogEvent :=
  [.append [97] 32, .printLog, .printLog, .append [98, 99] 32, .printLog, .printLog]

/-- In this run the bytes `a`, `b` and `c` are printed by one call each. -/
theorem printed_once_quietRun :
    (∀ i, 1 ≤ i →
      (quietRun.foldl (step 16) (fresh.afterFirst 16)).printed.countP (prints i) ≤ 1) ∧
      ∀ pre, quietRun = pre ++ [.printLog, .printLog] → ∀ i b, 1 ≤ i →
        (quietRun.foldl (step 16) (fresh.afterFirst 16)).log[i]? = some b →
        isSeparator ⟨i, b⟩ = false →
        ∃ out ∈ (quietRun.foldl (step 16) (fresh.afterFirst 16)).printed,
          (⟨i, b⟩ : LogByte) ∈ out :=
  have hlog : fresh.ring.IsLog 16 := ⟨rfl, rfl, by decide, by decide, by decide⟩
  printed_once hlog (fun _ _ _ => Nat.zero_lt_one) quietRun (by decide +kernel) (by decide +kernel)

/-- When the DSP appends `a`, and `b` before the next call, the two calls after that both print
`b`. -/
theorem not_printed_once_fresh :
    RunOk (step 16) (InDomain 16) (fresh.afterFirst 16)
        [.append [97] 32, .printLog, .append [98] 32, .printLog, .printLog] ∧
      ([.append [97] 32, .printLog, .append [98] 32, .printLog, .printLog].foldl (step 16)
        (fresh.afterFirst 16)).printed.countP (prints 2) = 2 := by
  decide

end LogSystem

end Mt8169.Dsp
