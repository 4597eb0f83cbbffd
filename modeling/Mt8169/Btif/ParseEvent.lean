import Mathlib.Data.Nat.Notation

/-!
# Looking for an event in the receive ring

`btif_parser_wmt_evt` copies the unread bytes of the ring into a buffer and looks for a string in
it. Both cursors are advanced before the bytes are compared, so that the cursor into the string is
at its end also if only the last byte differs.
-/

namespace Mt8169.Btif

open List

/-- The receive ring, `struct _btif_buf_str_`. -/
structure Bbs where
  size : ℕ
  buf : ℕ → UInt8
  wrIdx : ℕ
  rdIdx : ℕ
  wrIdx_lt : wrIdx < size
  rdIdx_lt : rdIdx < size

namespace Bbs

variable (s : Bbs)

/-- `BBS_COUNT` -/
def count : ℕ :=
  if s.rdIdx ≤ s.wrIdx then s.wrIdx - s.rdIdx else s.size - (s.rdIdx - s.wrIdx)

/-- What `memcpy` copies from an index on. -/
def bytesAt (idx n : ℕ) : List UInt8 := (range n).map fun i => s.buf (idx + i)

/-- The bytes that are copied into `local_buf`. -/
def localBuf : List UInt8 :=
  if s.rdIdx ≤ s.wrIdx then s.bytesAt s.rdIdx s.count
  else
    let tailLen := s.size - s.rdIdx
    s.bytesAt s.rdIdx tailLen ++ s.bytesAt 0 (s.count - tailLen)

/-- The loop that compares, from a cursor into the string and one into the buffer on. It returns the
cursor `j` into the string. -/
def compareLoop : List UInt8 → List UInt8 → ℕ → ℕ
  | [], _, j => j
  | _ :: _, [], j => j
  | c :: sub, b :: buf, j => if c ≠ b then j + 1 else compareLoop sub buf (j + 1)

/-- The loop over the places of the buffer. -/
def searchLoop (sub : List UInt8) : List UInt8 → ℕ → Bool
  | [], _ => false
  | b :: buf, j =>
    let j := compareLoop (sub.drop j) (b :: buf) j
    if j = sub.length then true
    else searchLoop sub buf (if j < sub.length then 0 else j)

/-- `btif_parser_wmt_evt`, where `vmalloc` may fail. -/
def btifParserWmtEvt (vmalloc : Bool) (sub : List UInt8) : Bool :=
  if s.count < sub.length then false
  else if !vmalloc then false
  else searchLoop sub s.localBuf 0

/-- The unread bytes of the ring, in order. -/
def unread : List UInt8 :=
  (range ((s.wrIdx + s.size - s.rdIdx) % s.size)).map fun i => s.buf ((s.rdIdx + i) % s.size)

variable {s} {sub buf : List UInt8}

theorem count_eq : s.count = (s.wrIdx + s.size - s.rdIdx) % s.size := by
  have hwr := s.wrIdx_lt
  have hrd := s.rdIdx_lt
  unfold count
  split
  · rw [show s.wrIdx + s.size - s.rdIdx = s.wrIdx - s.rdIdx + s.size by omega,
      Nat.add_mod_right, Nat.mod_eq_of_lt (by omega)]
  · rw [Nat.mod_eq_of_lt (by omega)]
    omega

theorem localBuf_eq_unread : s.localBuf = s.unread := by
  have hwr := s.wrIdx_lt
  have hrd := s.rdIdx_lt
  unfold localBuf unread
  rw [← count_eq]
  unfold bytesAt count
  split
  · refine map_congr_left fun i hi => ?_
    rw [mem_range] at hi
    rw [Nat.mod_eq_of_lt (by omega)]
  · have hsplit : s.size - (s.rdIdx - s.wrIdx) = s.size - s.rdIdx + s.wrIdx := by omega
    dsimp only
    rw [hsplit, Nat.add_sub_cancel_left, range_add, map_append, map_map]
    congr 1
    · refine map_congr_left fun i hi => ?_
      rw [mem_range] at hi
      rw [Nat.mod_eq_of_lt (by omega)]
    · refine map_congr_left fun i hi => ?_
      rw [mem_range] at hi
      have hplace : s.rdIdx + (s.size - s.rdIdx + i) = i + s.size := by omega
      rw [Function.comp_apply, hplace, Nat.add_mod_right, Nat.mod_eq_of_lt (by omega), Nat.zero_add]

/-- The comparison runs to the end of the string also if the last byte differs. -/
theorem compareLoop_spec (hsub : sub ≠ []) (buf : List UInt8) (j : ℕ) :
    compareLoop sub buf j ≤ j + sub.length ∧
      (compareLoop sub buf j = j + sub.length ↔ ∃ b, sub.dropLast ++ [b] <+: buf) := by
  induction sub generalizing buf j with
  | nil => exact absurd rfl hsub
  | cons c sub ih =>
    cases buf with
    | nil => simp [compareLoop]
    | cons b buf =>
      cases sub with
      | nil => by_cases hc : c = b <;> simp [compareLoop, hc]
      | cons c' sub =>
        obtain ⟨hle, hiff⟩ := ih (by simp) buf (j + 1)
        by_cases hc : c = b
        · rw [dropLast_cons_cons]
          simp only [compareLoop, hc, ne_eq, not_true_eq_false, if_false, cons_append,
            cons_prefix_cons, true_and, ← hiff] at hle ⊢
          simp only [length_cons] at hle ⊢
          omega
        · simp [compareLoop, hc]

/-- The search finds the string with any last byte. -/
theorem searchLoop_iff (hsub : sub ≠ []) :
    searchLoop sub buf 0 = true ↔ ∃ b, sub.dropLast ++ [b] <:+: buf := by
  induction buf with
  | nil => simp [searchLoop]
  | cons b buf ih =>
    obtain ⟨hle, hiff⟩ := compareLoop_spec hsub (b :: buf) 0
    rw [Nat.zero_add] at hle hiff
    simp only [infix_cons_iff, exists_or, ← hiff, ← ih]
    rw [searchLoop, drop_zero]
    by_cases hend : compareLoop sub (b :: buf) 0 = sub.length
    · simp [hend]
    · have hlt : compareLoop sub (b :: buf) 0 < sub.length := by omega
      simp [hend, hlt]

theorem btifParserWmtEvt_iff (hsub : sub ≠ []) :
    s.btifParserWmtEvt true sub = true ↔ ∃ b, sub.dropLast ++ [b] <:+: s.unread := by
  rw [← localBuf_eq_unread]
  unfold btifParserWmtEvt
  split
  · rename_i hshort
    refine iff_of_false Bool.false_ne_true fun ⟨b, hinfix⟩ => ?_
    have hlen := hinfix.length_le
    have hpos := length_pos_iff.mpr hsub
    rw [localBuf_eq_unread, unread, ← count_eq] at hlen
    simp only [length_append, length_dropLast, length_singleton, length_map, length_range] at hlen
    omega
  · exact searchLoop_iff hsub

/-- The function finds a string exactly if the unread bytes contain it, provided that they do if
they contain the string with any other last byte. -/
theorem btifParserWmtEvt_right_iff (s : Bbs) {sub : List UInt8} (hsub : sub ≠ []) :
    (s.btifParserWmtEvt true sub = true ↔ sub <:+: s.unread) ↔
      ∀ b, sub.dropLast ++ [b] <:+: s.unread → sub <:+: s.unread := by
  rw [btifParserWmtEvt_iff hsub]
  refine ⟨fun h b hb => h.mp ⟨b, hb⟩, fun h => ⟨fun ⟨b, hb⟩ => h b hb, fun hinfix => ?_⟩⟩
  refine ⟨sub.getLast hsub, ?_⟩
  rwa [dropLast_concat_getLast]

/-- `BTIF_RX_BUFFER_SIZE`, the size that `BBS_INIT` gives the ring. -/
def btifRxBufferSize : ℕ := 1024 * 64

/-- The ring of the driver with the unread bytes 1 and 2, across the wrap. -/
def wrapped : Bbs :=
  ⟨btifRxBufferSize, fun i => if i = 65535 then 1 else 2, 1, 65535, by decide, by decide⟩

/-- The bytes 1 and 2 are found. -/
theorem btifParserWmtEvt_right_wrapped :
    [1, 2] ≠ ([] : List UInt8) ∧ wrapped.btifParserWmtEvt true [1, 2] = true := by
  refine ⟨by decide, ((btifParserWmtEvt_right_iff wrapped (by decide)).mpr ?_).mpr (by decide)⟩
  exact fun _ _ => by decide

/-- The bytes 1 and 3 are found, although they are not in the ring. -/
theorem not_btifParserWmtEvt_right :
    ¬∀ s : Bbs, s.size = btifRxBufferSize → ∀ sub ≠ [],
      (s.btifParserWmtEvt true sub = true ↔ sub <:+: s.unread) := by
  intro h
  exact absurd ((h wrapped rfl [1, 3] (by decide)).mp (by decide)) (by decide)

end Bbs

end Mt8169.Btif
