import Mathlib.Tactic.SplitIfs
import Mt8169.Btif.Receive
import Mt8169.Lib.Runs

/-!
# What the receive callback is given

The interrupt may empty the ring while the thread is between its sample of the write index and its
store of the read index. Then the callback is given bytes that were thrown away, and the store makes
bytes of the ring that were never written. And the interrupt reads the read index twice to count the
bytes: a store of the thread in between gives a count beyond the size, for which the ring is emptied
without need. In all other interleavings the callback is given the bytes in order, each once, and
all of them if there is always room.
-/

namespace Mt8169.Btif

open CircularBuffer BtifBuf BbsSystem List Nat

open CircularBuffer (cell contents)
open MachineInt (u32)
open Resumption (Prog)

variable {cfg : BbsConfig}

theorem BbsConfig.size_pos (cfg : BbsConfig) : 0 < cfg.size := Nat.two_pow_pos _

theorem BbsConfig.size_le (cfg : BbsConfig) : cfg.size ≤ 2 ^ 31 :=
  Nat.pow_le_pow_right (by decide) cfg.log_le

/-- The number of bytes from one index to another. -/
def ringCount (cfg : BbsConfig) (wrIdx rdIdx : ℕ) : ℕ := (wrIdx + cfg.size - rdIdx) % cfg.size

section Indices

variable {wr rd n : ℕ}

theorem ringCount_of_le (hwr : wr < cfg.size) (hle : rd ≤ wr) : ringCount cfg wr rd = wr - rd := by
  have hsum : wr + cfg.size - rd = (wr - rd) + cfg.size := by omega
  rw [ringCount, hsum, add_mod_right, mod_eq_of_lt (by omega)]

theorem ringCount_of_lt (hrd : rd < cfg.size) (hlt : wr < rd) :
    ringCount cfg wr rd = cfg.size - (rd - wr) := by
  rw [ringCount, mod_eq_of_lt (by omega)]
  omega

theorem ringCount_lt (cfg : BbsConfig) (wr rd : ℕ) : ringCount cfg wr rd < cfg.size :=
  mod_lt _ cfg.size_pos

section

variable (hwr : wr < cfg.size)
include hwr

section

variable (hrd : rd < cfg.size)
include hrd

theorem ringCount_eq :
    rd ≤ wr ∧ ringCount cfg wr rd = wr - rd ∨
      wr < rd ∧ ringCount cfg wr rd = cfg.size - (rd - wr) := by
  rcases Nat.lt_or_ge wr rd with hlt | hle
  · exact .inr ⟨hlt, ringCount_of_lt hrd hlt⟩
  · exact .inl ⟨hle, ringCount_of_le hwr hle⟩

theorem cell_ringCount : cell 0 cfg.size rd (ringCount cfg wr rd) = wr := by
  rcases Nat.lt_or_ge wr rd with hlt | hle
  · rw [ringCount_of_lt hrd hlt, cell_of_le (by omega) (by omega)]
    omega
  · rw [ringCount_of_le hwr hle, cell_of_lt (by omega) (by omega)]
    omega

theorem ringCount_add (hroom : ringCount cfg wr rd + n < cfg.size) :
    ringCount cfg ((wr + n) % cfg.size) rd = ringCount cfg wr rd + n := by
  have hold := ringCount_eq hwr hrd
  have hnew := ringCount_eq (mod_lt (wr + n) cfg.size_pos) hrd
  rcases Nat.lt_or_ge (wr + n) cfg.size with hin | hout
  · rw [mod_eq_of_lt hin] at hnew ⊢
    omega
  · rw [mod_eq_sub_mod hout, mod_eq_of_lt (by omega)] at hnew ⊢
    omega

theorem ringCount_sub {v : ℕ} (hv : v < cfg.size)
    (hle : ringCount cfg v rd ≤ ringCount cfg wr rd) :
    ringCount cfg wr v = ringCount cfg wr rd - ringCount cfg v rd := by
  have hall := ringCount_eq hwr hrd
  have hpart := ringCount_eq hv hrd
  have hrest := ringCount_eq hwr hv
  omega

theorem count_eq :
    (if rd ≤ wr then u32 (wr - rd) else u32 (cfg.size - u32 (rd - wr))) = ringCount cfg wr rd := by
  have hsize := cfg.size_le
  have hcount := ringCount_eq hwr hrd
  simp only [u32]
  split_ifs <;> omega

end

end

end Indices

namespace BtifBuf

/-- The bytes between the indices. -/
def live (cfg : BbsConfig) (s : BtifBuf) : List (Option ℕ) :=
  contents s.mem 0 cfg.size s.rdIdx (s.backlog cfg)

/-- The bytes in the ring that have not been passed to the callback. -/
def rest (cfg : BbsConfig) (s : BtifBuf) : List (Option ℕ) :=
  if s.resetting then [] else (s.live cfg).drop s.taken

/-- What holds at all times. -/
structure Inv (cfg : BbsConfig) (s : BtifBuf) : Prop where
  wr_lt : s.wrIdx < cfg.size
  rd_lt : s.rdIdx < cfg.size
  published_le : s.published ≤ s.handed
  mark_le : s.mark ≤ s.published
  stale : s.stale = false
  reset : s.resetting = true → s.wrIdx = 0 ∧ s.pressed = true
  taken_le : s.resetting = false → s.taken ≤ s.backlog cfg
  text : (∀ b ∈ s.rest cfg, s.isNew b = true) ∧ ∃ ids : List ℕ,
    s.delivered ++ s.rest cfg = ids.map some ∧ ids.Sublist (range s.published) ∧
      (s.pressed = false → ids = range s.published)

/-- What the interrupt may do during a round of the thread. -/
structure Grows (cfg : BbsConfig) (s s' : BtifBuf) : Prop where
  inv : s'.Inv cfg
  rdIdx : s'.rdIdx = s.rdIdx
  taken : s'.taken = s.taken
  resetting : s'.resetting = s.resetting
  backlog_le : s.backlog cfg ≤ s'.backlog cfg

/-- What the thread may do during a call of `btif_bbs_write`. -/
structure Shrinks (cfg : BbsConfig) (s s' : BtifBuf) : Prop where
  inv : s'.Inv cfg
  backlog_le : s'.backlog cfg ≤ s.backlog cfg
  same : ∃ rdIdx delivered taken stale,
    s' = { s with rdIdx := rdIdx, delivered := delivered, taken := taken, stale := stale }

variable {s s' s'' : BtifBuf} {n : ℕ}

theorem Grows.trans (h : Grows cfg s s') (h' : Grows cfg s' s'') : Grows cfg s s'' where
  inv := h'.inv
  rdIdx := h'.rdIdx.trans h.rdIdx
  taken := h'.taken.trans h.taken
  resetting := h'.resetting.trans h.resetting
  backlog_le := Nat.le_trans h.backlog_le h'.backlog_le

theorem Shrinks.trans (h : Shrinks cfg s s') (h' : Shrinks cfg s' s'') : Shrinks cfg s s'' := by
  obtain ⟨-, hle, _, _, _, _, rfl⟩ := h
  obtain ⟨hinv, hle', _, _, _, _, rfl⟩ := h'
  exact ⟨hinv, Nat.le_trans hle' hle, _, _, _, _, rfl⟩

theorem Inv.grows (h : s.Inv cfg) : Grows cfg s s := ⟨h, rfl, rfl, rfl, Nat.le_refl _⟩

theorem Inv.shrinks (h : s.Inv cfg) : Shrinks cfg s s :=
  ⟨h, Nat.le_refl _, _, _, _, _, rfl⟩

theorem backlog_eq (cfg : BbsConfig) (s : BtifBuf) :
    s.backlog cfg = ringCount cfg s.wrIdx s.rdIdx := rfl

theorem rest_eq (hreset : s.resetting = false) : s.rest cfg = (s.live cfg).drop s.taken :=
  if_neg (Bool.eq_false_iff.mp hreset)

section

variable (h : s.Inv cfg)
include h

/-- A callback for the next bytes keeps the invariant. -/
theorem Inv.rxCb (hreset : s.resetting = false) {off n : ℕ} (hle : s.taken + n ≤ s.backlog cfg)
    (hbytes : s.bytesAt off n = ((s.live cfg).drop s.taken).take n) :
    Inv cfg (s.exec cfg (.rxCb off n)).2 := by
  rw [← rest_eq hreset] at hbytes
  have hrest : (s.exec cfg (.rxCb off n)).2.rest cfg = (s.rest cfg).drop n := by
    rw [rest_eq hreset, drop_drop]
    exact rest_eq hreset
  obtain ⟨hnew, ids, htext, hids⟩ := h.text
  exact { h with
    stale := by
      simp only [exec, h.stale, Bool.false_or, any_eq_false, hbytes]
      intro b hb
      simp [hnew b (mem_of_mem_take hb)]
    taken_le := fun _ => hle
    text := by
      rw [hrest]
      refine ⟨fun b hb => hnew b (mem_of_mem_drop hb), ids, ?_, hids⟩
      simp only [exec]
      rw [hbytes, append_assoc, take_append_drop, htext] }

/-- Moving the read index behind the bytes taken keeps it. -/
theorem Inv.storeRd (hreset : s.resetting = false) {v : ℕ} (hv : v < cfg.size)
    (htaken : ringCount cfg v s.rdIdx = s.taken) :
    Inv cfg (s.exec cfg (.storeRd v)).2 ∧
      (s.exec cfg (.storeRd v)).2.backlog cfg = s.backlog cfg - s.taken := by
  have hle := h.taken_le hreset
  have hbacklog : (s.exec cfg (.storeRd v)).2.backlog cfg = s.backlog cfg - s.taken := by
    rw [← htaken] at hle ⊢
    exact ringCount_sub h.wr_lt h.rd_lt hv hle
  have hrest : (s.exec cfg (.storeRd v)).2.rest cfg = s.rest cfg := by
    rw [rest_eq hreset, live, drop_contents hle, ← hbacklog, ← htaken,
      cell_ringCount hv h.rd_lt]
    exact rest_eq hreset
  refine ⟨{ h with
    rd_lt := hv
    taken_le := fun _ => zero_le _
    text := by
      rw [hrest]
      exact h.text }, hbacklog⟩

theorem Inv.memcpy {off first n : ℕ}
    (hlive : (s.exec cfg (.memcpy off first n)).2.live cfg = s.live cfg) :
    Inv cfg (s.exec cfg (.memcpy off first n)).2 := by
  have hrest : (s.exec cfg (.memcpy off first n)).2.rest cfg = s.rest cfg := by
    unfold rest
    rw [hlive]
    rfl
  exact { h with
    text := by
      rw [hrest]
      exact h.text }

/-- Moving the write index behind stored bytes keeps it. -/
theorem Inv.storeWr (hreset : s.resetting = false) {v first n bufLen : ℕ}
    (hv : v < cfg.size) (hn : n ≤ bufLen) (hhanded : s.handed = first + bufLen)
    (hpublished : s.published ≤ first) (hfirst : s.pressed = false → s.published = first)
    (hlive : (s.exec cfg (.storeWr v n bufLen)).2.live cfg =
      s.live cfg ++ (range' first n).map some) :
    Inv cfg (s.exec cfg (.storeWr v n bufLen)).2 := by
  have htaken : s.taken ≤ (s.live cfg).length := by
    rw [live, length_contents]
    exact h.taken_le hreset
  have hrest : (s.exec cfg (.storeWr v n bufLen)).2.rest cfg =
      s.rest cfg ++ (range' first n).map some := by
    rw [rest_eq hreset, ← drop_append_of_le_length htaken, ← hlive]
    exact rest_eq hreset
  have hall : range s.handed = range first ++ range' first bufLen := by
    rw [hhanded, range_eq_range', range_eq_range', ← range'_append_1, Nat.zero_add]
  obtain ⟨hnewer, ids, htext, hsublist, hcomplete⟩ := h.text
  exact { h with
    wr_lt := hv
    published_le := Nat.le_refl _
    mark_le := Nat.le_trans h.mark_le h.published_le
    reset := fun hon => by simp [exec, hreset] at hon
    taken_le := fun _ => by
      have hlength := congrArg length hlive
      rw [live, length_contents, length_append] at hlength
      rw [hlength]
      exact le_add_right_of_le htaken
    text := by
      rw [hrest]
      refine ⟨fun b hb => ?_, ids ++ range' first n, ?_, ?_, fun hroom => ?_⟩
      · rcases mem_append.mp hb with hold | hnew
        · exact hnewer b hold
        · obtain ⟨id, hid, rfl⟩ := mem_map.mp hnew
          have hle := (mem_range'_1.mp hid).1
          exact decide_eq_true (Nat.le_trans h.mark_le (Nat.le_trans hpublished hle))
      · rw [map_append, ← htext, append_assoc]
        rfl
      · change _ <+ range s.handed
        rw [hall]
        exact (hsublist.trans (range_sublist.mpr hpublished)).append (range'_sublist_right.mpr hn)
      · simp only [exec, Bool.or_eq_false_iff, decide_eq_false_iff_not] at hroom
        obtain ⟨⟨hpressed, hfull⟩, -⟩ := hroom
        obtain rfl : n = bufLen := by omega
        rw [hcomplete hpressed, hfirst hpressed, ← hall]
        rfl }

theorem Inv.resetWr (hpressed : s.pressed = true) (hpublished : s.published = s.handed) :
    Inv cfg (s.exec cfg .resetWr).2 := by
  obtain ⟨-, ids, htext, hsublist, -⟩ := h.text
  obtain ⟨given, left, rfl, hgiven, -⟩ := map_eq_append_iff.mp htext.symm
  exact { h with
    wr_lt := cfg.size_pos
    mark_le := Nat.le_of_eq hpublished.symm
    reset := fun _ => ⟨rfl, hpressed⟩
    taken_le := nofun
    text := ⟨fun b hb => absurd hb not_mem_nil, given, (append_nil _).trans hgiven.symm,
      (sublist_append_left _ _).trans hsublist, fun hoff => by simp [exec, hpressed] at hoff⟩ }

theorem Inv.resetRd (hreset : s.resetting = true) : Inv cfg (s.exec cfg .resetRd).2 := by
  have hbacklog : (s.exec cfg .resetRd).2.backlog cfg = 0 := by
    simp [exec, backlog, (h.reset hreset).1]
  have hrest : (s.exec cfg .resetRd).2.rest cfg = s.rest cfg := by
    refine (rest_eq rfl).trans ?_
    rw [live, hbacklog, rest, if_pos hreset]
    rfl
  exact { h with
    rd_lt := cfg.size_pos
    reset := nofun
    taken_le := fun _ => zero_le _
    text := by
      rw [hrest]
      exact h.text }

end

/-- The bytes from the read index on are the oldest ones. -/
theorem bytesAt_rdIdx (hle : n ≤ s.backlog cfg) (hend : s.rdIdx + n ≤ cfg.size) :
    s.bytesAt s.rdIdx n = (s.live cfg).take n := by
  rw [live, take_contents hle, contents_eq_range (by omega) (by omega)]
  rfl

/-- After the wrap, the bytes at the start of the ring are the next ones. -/
theorem bytesAt_zero (hrd : s.rdIdx < cfg.size) (hle : cfg.size - s.rdIdx + n ≤ s.backlog cfg) :
    s.bytesAt 0 n = ((s.live cfg).drop (cfg.size - s.rdIdx)).take n := by
  have hlt : s.backlog cfg < cfg.size := ringCount_lt _ _ _
  have hcell : cell 0 cfg.size s.rdIdx ((cfg.size - s.rdIdx : ℕ) : ℤ) = 0 := by
    rw [cell_of_le (by omega) (by omega)]
    omega
  rw [live, drop_contents (by omega), take_contents (by omega),
    hcell, contents_eq_range (by omega) (by omega)]
  rfl

end BtifBuf

section Reader

variable {s0 s : BtifBuf} {k : ℕ → BbsProg} {o : BbsOp} {wr : ℕ}

/-- An operation of the thread leaves the interrupt's side of the ring alone, and only the store at
the end of a round changes the read index. -/
def ReaderGuar (cfg : BbsConfig) (s : BtifBuf) (o : BbsOp) : Prop :=
  BtifBuf.Shrinks cfg s (s.exec cfg o).2 ∧
    ((∀ v, o ≠ .storeRd v) → (s.exec cfg o).2.rdIdx = s.rdIdx)

/-- The thread can go on, if the interrupt only adds bytes. -/
def ReaderSafe (cfg : BbsConfig) (p : BbsProg) (s : BtifBuf) : Prop :=
  p.Safe (BtifBuf.exec cfg) (fun _ => BtifBuf.Grows cfg) (ReaderGuar cfg) (·.taken = 0) s

-- the rules carry along what the interrupt has done since the state `s0`
/-- The reader may read an index while the writer goes on. -/
theorem readerSafe_read (h : Grows cfg s0 s) (ho : o = .readWr ∨ o = .readRd ∨ o = .readRdAgain)
    (hk : ∀ s', Grows cfg s0 s' → ReaderSafe cfg (k (s'.exec cfg o).1) s') :
    ReaderSafe cfg (.op o k) s := by
  intro s' h'
  have hexec : (s'.exec cfg o).2 = s' := by
    rcases ho with rfl | rfl | rfl <;> rfl
  refine ⟨?_, ?_⟩
  · rw [ReaderGuar, hexec]
    exact ⟨h'.inv.shrinks, fun _ => rfl⟩
  · rw [hexec]
    exact hk s' (h.trans h')

theorem readerSafe_bbsCountCur (h : Grows cfg s0 s) (hwr : wr < cfg.size)
    (hk : ∀ s', Grows cfg s0 s' → ReaderSafe cfg (k (ringCount cfg wr s0.rdIdx)) s') :
    ReaderSafe cfg (bbsCountCur cfg wr k) s := by
  have hcount := count_eq hwr h.inv.rd_lt
  rw [h.rdIdx] at hcount
  apply readerSafe_read h (by simp)
  intro s1 h1
  simp only [exec, h1.rdIdx]
  split_ifs at hcount ⊢
  all_goals
    apply readerSafe_read h1 (by simp)
    intro s2 h2
    simp only [exec, h2.rdIdx, hcount]
    exact hk s2 h2

theorem readerSafe_rxCb {off n taken : ℕ} (htaken : s.taken = taken) (hreset : s.resetting = false)
    (hle : taken + n ≤ s.backlog cfg) (hbytes : ∀ s', Grows cfg s s' →
      s'.bytesAt off n = ((s'.live cfg).drop taken).take n)
    (hk : ∀ s', s'.Inv cfg → s'.taken = taken + n → s'.rdIdx = s.rdIdx → s'.resetting = false →
      s.backlog cfg ≤ s'.backlog cfg → ReaderSafe cfg (k 0) s') :
    ReaderSafe cfg (.op (.rxCb off n) k) s := by
  intro s1 h1
  have hreset1 : s1.resetting = false := h1.resetting.trans hreset
  have htaken1 : s1.taken = taken := h1.taken.trans htaken
  have hinv : (s1.exec cfg (.rxCb off n)).2.Inv cfg :=
    h1.inv.rxCb hreset1 (by rw [htaken1]; exact Nat.le_trans hle h1.backlog_le)
      (by rw [htaken1]; exact hbytes s1 h1)
  refine ⟨⟨⟨hinv, Nat.le_refl _, _, _, _, _, rfl⟩, fun _ => rfl⟩, ?_⟩
  apply hk _ hinv
  · simp only [exec, htaken1]
  · exact h1.rdIdx
  · exact hreset1
  · exact h1.backlog_le

theorem readerSafe_storeRd (hwr : wr < cfg.size) (hreset : s.resetting = false)
    (htaken : s.taken = ringCount cfg wr s.rdIdx) :
    ReaderSafe cfg (.op (.storeRd wr) fun _ => .done) s := by
  intro s1 h1
  obtain ⟨hinv, hbacklog⟩ := h1.inv.storeRd (h1.resetting.trans hreset) hwr
    (by rw [h1.rdIdx, h1.taken, htaken])
  refine ⟨⟨⟨hinv, ?_, _, _, _, _, rfl⟩, fun hne => absurd rfl (hne wr)⟩, rfl⟩
  rw [hbacklog]
  exact sub_le _ _

/-- The consumer of the ring is safe from every state. -/
theorem readerSafe_btifRxDataConsummer (hreset : s.resetting = false)
    (htaken : s.taken = 0) : ReaderSafe cfg (btifRxDataConsummer cfg) s := by
  intro s1 h1
  have htaken1 : s1.taken = 0 := h1.taken.trans htaken
  have hreset1 : s1.resetting = false := h1.resetting.trans hreset
  have hwr := h1.inv.wr_lt
  have hrd := h1.inv.rd_lt
  refine ⟨⟨h1.inv.shrinks, fun _ => rfl⟩, ?_⟩
  apply readerSafe_bbsCountCur h1.inv.grows hwr
  intro s2 h2
  simp only [exec]
  split_ifs with hpos
  · apply readerSafe_read h2 (by simp)
    intro s3 h3
    simp only [exec, h3.rdIdx]
    split_ifs with hle
    · -- the bytes are in one piece
      apply readerSafe_read h3 (by simp)
      intro s4 h4
      simp only [exec, h4.rdIdx]
      apply readerSafe_bbsCountCur h4 hwr
      intro s5 h5
      refine readerSafe_rxCb (h5.taken.trans htaken1) (h5.resetting.trans hreset1) ?_ ?_ ?_
      · rw [Nat.zero_add]
        exact h5.backlog_le
      · intro s6 h6
        have h6' := h5.trans h6
        rw [drop_zero, ← h6'.rdIdx]
        apply bytesAt_rdIdx
        · rw [h6'.rdIdx]
          exact h6'.backlog_le
        · rw [h6'.rdIdx, ringCount_of_le hwr hle]
          omega
      · intro s7 _ htaken7 hrd7 hreset7 _
        apply readerSafe_storeRd hwr hreset7
        rw [htaken7, hrd7, h5.rdIdx, Nat.zero_add]
    · -- the bytes go beyond the end of the ring
      have hcount := ringCount_of_lt hrd (Nat.lt_of_not_le hle)
      have hbacklog : s1.backlog cfg = cfg.size - s1.rdIdx + s1.wrIdx := by
        rw [backlog_eq, hcount]
        omega
      have hsize := cfg.size_le
      have htail : u32 (cfg.size - s1.rdIdx) = cfg.size - s1.rdIdx := by
        simp only [u32]
        omega
      have hrest : u32 (ringCount cfg s1.wrIdx s1.rdIdx - (cfg.size - s1.rdIdx : ℕ)) =
          s1.wrIdx := by
        rw [hcount]
        simp only [u32]
        omega
      apply readerSafe_read h3 (by simp)
      intro s4 h4
      simp only [exec, h4.rdIdx, htail]
      apply readerSafe_read h4 (by simp)
      intro s5 h5
      have hle5 := h5.backlog_le
      simp only [exec, h5.rdIdx]
      refine readerSafe_rxCb (h5.taken.trans htaken1) (h5.resetting.trans hreset1) (by omega) ?_ ?_
      · intro s6 h6
        have h6' := h5.trans h6
        have := h6'.backlog_le
        rw [drop_zero, ← h6'.rdIdx]
        apply bytesAt_rdIdx
        all_goals
          rw [h6'.rdIdx]
          omega
      · intro s7 hinv7 htaken7 hrd7 hreset7 hbacklog7
        rw [Nat.zero_add] at htaken7
        have hrd1 : s7.rdIdx = s1.rdIdx := hrd7.trans h5.rdIdx
        apply readerSafe_bbsCountCur hinv7.grows hwr
        intro s8 h8
        have hle8 := h8.backlog_le
        rw [hrd1, hrest]
        apply readerSafe_rxCb (h8.taken.trans htaken7) (h8.resetting.trans hreset7) (by omega)
        · intro s9 h9
          have hrd9 : s9.rdIdx = s1.rdIdx := (h8.trans h9).rdIdx.trans hrd1
          have := h9.backlog_le
          rw [← hrd9]
          apply bytesAt_zero h9.inv.rd_lt
          rw [hrd9]
          omega
        · intro s10 _ htaken10 hrd10 hreset10 _
          apply readerSafe_storeRd hwr hreset10
          rw [htaken10, hrd10, h8.rdIdx, hrd1, hcount]
          omega
  · exact h2.taken.trans htaken1

end Reader

section Writer

variable {s0 s : BtifBuf} {k : ℕ → BbsProg} {m : ℤ → Option ℕ} {first : ℕ}

/-- An operation of the interrupt adds bytes to the ring or leaves it alone, unless it is one of the
two that empty the ring. -/
def WriterGuar (cfg : BbsConfig) (s : BtifBuf) (o : BbsOp) : Prop :=
  (s.exec cfg o).2.Inv cfg ∧
    (o ≠ .resetWr → o ≠ .resetRd → BtifBuf.Grows cfg s (s.exec cfg o).2) ∧
    (s.resetting = true → o = .resetRd)

/-- The interrupt can go on, if the thread only takes bytes, and not between the two reads of the
read index. -/
def WriterSafe (cfg : BbsConfig) (p : BbsProg) (s : BtifBuf) : Prop :=
  p.Safe (BtifBuf.exec cfg)
    (fun o s s' => BtifBuf.Shrinks cfg s s' ∧ (o.isAgain = true → s'.rdIdx = s.rdIdx))
    (WriterGuar cfg)
    (fun s => s.resetting = false ∧ (s.pressed = false → s.published = s.handed)) s

theorem WriterGuar.of_grows (h : Grows cfg s (s.exec cfg o).2) (hreset : s.resetting = false) :
    WriterGuar cfg s o :=
  ⟨h.inv, fun _ _ => h, fun hon => by simp [hreset] at hon⟩

/-- The writer may read an index while the reader goes on. -/
theorem writerSafe_read (h : Shrinks cfg s0 s) (hreset : s0.resetting = false)
    (ho : o = .readWr ∨ o = .readRd ∨ o.isAgain = true)
    (hk : ∀ s', Shrinks cfg s0 s' → (o.isAgain = true → s'.rdIdx = s.rdIdx) →
      WriterSafe cfg (k (s'.exec cfg o).1) s') : WriterSafe cfg (.op o k) s := by
  rintro s' ⟨h', hagain⟩
  have hexec : (s'.exec cfg o).2 = s' := by
    rcases ho with rfl | rfl | ho
    · rfl
    · rfl
    · cases o <;> first | rfl | simp [BbsOp.isAgain] at ho
  have hall := h.trans h'
  refine ⟨.of_grows ?_ ?_, ?_⟩
  · rw [hexec]
    exact h'.inv.grows
  · obtain ⟨_, _, _, _, rfl⟩ := hall.same
    exact hreset
  · rw [hexec]
    exact hk s' hall hagain

theorem writerSafe_bbsCount (h : s.Inv cfg) (hreset : s.resetting = false)
    (hk : ∀ s', Shrinks cfg s s' → WriterSafe cfg (k (s'.backlog cfg)) s') :
    WriterSafe cfg (bbsCount cfg k) s := by
  apply writerSafe_read h.shrinks hreset (by simp)
  intro s1 h1 _
  apply writerSafe_read h1 hreset (by simp)
  intro s2 h2 _
  have hcount := count_eq h.wr_lt h2.inv.rd_lt
  obtain ⟨_, _, _, _, rfl⟩ := h1.same
  change WriterSafe cfg (if s2.rdIdx ≤ s.wrIdx then _ else _) s2
  split_ifs at hcount ⊢
  all_goals
    apply writerSafe_read h2 hreset (by simp [BbsOp.isAgain])
    intro s3 h3 hrd3
    apply writerSafe_read h3 hreset (by simp [BbsOp.isAgain])
    intro s4 h4 hrd4
    have hrd : s4.rdIdx = s2.rdIdx := (hrd4 rfl).trans (hrd3 rfl)
    have hwr : s3.wrIdx = s.wrIdx ∧ s4.wrIdx = s.wrIdx := by
      obtain ⟨_, _, _, _, rfl⟩ := h3.same
      obtain ⟨_, _, _, _, rfl⟩ := h4.same
      exact ⟨rfl, rfl⟩
    have hbacklog : s4.backlog cfg = ringCount cfg s.wrIdx s2.rdIdx := by
      rw [backlog_eq, hrd, hwr.2]
    simp only [exec, hwr.1, hrd, hcount]
    rw [← hbacklog]
    exact hk s4 h4

/-- A copy in two parts stores the bytes across the wrap. -/
theorem stored_memcpy (mem : ℤ → Option ℕ) (hwr : wr < cfg.size) (first : ℕ) (hn : n ≤ cfg.size) :
    Stored mem
      (copyIn
        (copyIn mem wr ((range' first (min (cfg.size - wr) n)).map some)) 0
        ((range' (first + min (cfg.size - wr) n) (n - min (cfg.size - wr) n)).map some))
      0 cfg.size wr ((range' first n).map some) := by
  rcases Nat.lt_or_ge n (cfg.size - wr) with hlt | hge
  · rw [Nat.min_eq_right (Nat.le_of_lt hlt), Nat.sub_self, range'_zero, map_nil]
    have hnil (m : ℤ → Option ℕ) : copyIn m 0 [] = m := by
      funext p
      simp [copyIn]
    rw [hnil]
    apply stored_copyIn (by omega)
    rw [length_map, length_range']
    omega
  · rw [Nat.min_eq_left hge]
    have hsplit : (range' first n).map some =
        (range' first (cfg.size - wr)).map some ++
          (range' (first + (cfg.size - wr)) (n - (cfg.size - wr))).map some := by
      rw [← map_append, range'_append_1]
      congr 2
      omega
    have hlen : ((range' first (cfg.size - wr)).map some).length = cfg.size - wr := by simp
    rw [hsplit]
    have hfits : (((range' first (cfg.size - wr)).map some ++ (range'
        (first + (cfg.size - wr)) (n - (cfg.size - wr))).map some).length : ℤ) ≤ cfg.size := by
      rw [← hsplit, length_map, length_range']
      omega
    have hstored := stored_copyIn_copyIn (m := mem) (Int.natCast_nonneg wr) hfits
      (cfg.size - wr) (by omega)
    rwa [take_left' hlen, drop_left' hlen] at hstored

theorem and_mask (cfg : BbsConfig) (x : ℕ) : x &&& (cfg.size - 1) = x % cfg.size :=
  and_two_pow_sub_one_eq_mod x cfg.log

theorem live_of_stored {m' : ℤ → Option ℕ} {xs : List (Option ℕ)} (h : s.Inv cfg)
    (hstored : Stored m m' 0 cfg.size s.wrIdx xs) (hroom : s.backlog cfg + xs.length ≤ cfg.size) :
    contents m' 0 cfg.size s.rdIdx (s.backlog cfg) =
      contents m 0 cfg.size s.rdIdx (s.backlog cfg) := by
  rw [← cell_ringCount h.wr_lt h.rd_lt] at hstored
  exact hstored.contents_before (by exact_mod_cast hroom)

section

variable (hreset : s.resetting = false)
include hreset

/-- A copy behind the live bytes. The memory was `m` before the copies of the call. -/
theorem writerSafe_memcpy {off n : ℕ} {xs ys : List (Option ℕ)}
    (hbefore : Stored m s.mem 0 cfg.size s.wrIdx xs)
    (hafter : Stored m (s.exec cfg (.memcpy off first n)).2.mem 0 cfg.size
      s.wrIdx ys) (hxs : s.backlog cfg + xs.length ≤ cfg.size)
    (hys : s.backlog cfg + ys.length ≤ cfg.size)
    (hk : ∀ s', Shrinks cfg (s.exec cfg (.memcpy off first n)).2 s' →
      WriterSafe cfg (k 0) s') : WriterSafe cfg (.op (.memcpy off first n) k) s := by
  rintro s1 ⟨h1, -⟩
  obtain ⟨hinv1, hle, _, _, _, _, rfl⟩ := h1
  have hold := live_of_stored hinv1 hbefore (by omega)
  have hnew := live_of_stored hinv1 hafter (by omega)
  have hinv := hinv1.memcpy (hnew.trans hold.symm)
  exact ⟨.of_grows ⟨hinv, rfl, rfl, rfl, Nat.le_refl _⟩ hreset, hk _ ⟨hinv, hle, _, _, _, _, rfl⟩⟩

section

variable {n bufLen : ℕ} (hroom : s.backlog cfg + n < cfg.size) (hn : n ≤ bufLen)
  (hhanded : s.handed = first + bufLen) (hpublished : s.published ≤ first)
  (hfirst : s.pressed = false → s.published = first)
include hroom hn hhanded hpublished hfirst

theorem writerSafe_storeWr (hwr : s.wrIdx = wr)
    (hstored : Stored m s.mem 0 cfg.size s.wrIdx ((range' first n).map some))
    (hk : ∀ s', s'.Inv cfg → s'.resetting = false → s'.published = s'.handed →
      (cfg.maxPdingDataSize ≤ s'.backlog cfg → s'.pressed = true) → WriterSafe cfg (k 0) s') :
    WriterSafe cfg (.op (.storeWr ((wr + n) % cfg.size) n bufLen) k) s := by
  subst hwr
  rintro s1 ⟨h1, -⟩
  obtain ⟨hinv1, hle, rd, del, tk, st, heq⟩ := h1
  have hstored1 : Stored m s1.mem 0 cfg.size s1.wrIdx ((range' first n).map some) := by
    rw [heq]
    exact hstored
  have hroom1 : s1.backlog cfg + n < cfg.size := by omega
  have hbacklog : (s1.exec cfg (.storeWr ((s1.wrIdx + n) % cfg.size) n bufLen)).2.backlog cfg =
      s1.backlog cfg + n := by
    rw [backlog_eq] at hroom1
    exact ringCount_add hinv1.wr_lt hinv1.rd_lt hroom1
  have hlive : (s1.exec cfg (.storeWr ((s1.wrIdx + n) % cfg.size) n bufLen)).2.live cfg =
      s1.live cfg ++ (range' first n).map some := by
    have hlen : ((range' first n).map some).length = n := by simp
    have hold := live_of_stored hinv1 hstored1 (by omega)
    rw [← cell_ringCount hinv1.wr_lt hinv1.rd_lt] at hstored1
    have hall := hstored1.contents_append (by
      rw [hlen, ← backlog_eq]
      omega)
    rw [hlen] at hall
    rw [live, hbacklog, live, hold]
    exact hall
  have hgrown := Nat.le_trans (le_add_right _ _) (Nat.le_of_eq hbacklog.symm)
  subst heq
  have hinv := hinv1.storeWr hreset (mod_lt _ cfg.size_pos) hn hhanded hpublished hfirst hlive
  refine ⟨.of_grows ⟨hinv, rfl, rfl, rfl, hgrown⟩ hreset, ?_⟩
  apply hk _ hinv hreset rfl
  intro hfull
  exact (congrArg _ (decide_eq_true hfull)).trans (Bool.or_true _)

theorem writerSafe_btifBbsWrDirect {k : BbsProg}
    (hk : ∀ s', s'.Inv cfg → s'.resetting = false → s'.published = s'.handed →
      (cfg.maxPdingDataSize ≤ s'.backlog cfg → s'.pressed = true) → WriterSafe cfg k s') :
    WriterSafe cfg (btifBbsWrDirect cfg first n bufLen k) s := by
  rintro s1 ⟨⟨hinv1, hle1, _, _, _, _, rfl⟩, -⟩
  refine ⟨.of_grows hinv1.grows hreset, ?_⟩
  have hwr : s.wrIdx < cfg.size := hinv1.wr_lt
  have hsum : u32 (s.wrIdx + n) = s.wrIdx + n := by
    have := cfg.size_le
    simp only [u32]
    omega
  simp only [exec, and_mask, mod_eq_of_lt hwr, hsum]
  have hnone : Stored s.mem s.mem 0 cfg.size s.wrIdx [] := fun i _ => by simp
  have htail : Stored s.mem
      (copyIn s.mem s.wrIdx ((range' first (min (cfg.size - s.wrIdx) n)).map some)) 0 cfg.size
      s.wrIdx ((range' first (min (cfg.size - s.wrIdx) n)).map some) := by
    apply stored_copyIn (Int.natCast_nonneg _)
    rw [length_map, length_range']
    omega
  have hboth := stored_memcpy s.mem hwr first (n := n) (by omega)
  generalize hl : min (cfg.size - s.wrIdx) n = l at htail hboth ⊢
  have hlen (a b : ℕ) : ((range' a b).map some).length = b := by simp
  refine writerSafe_memcpy (by exact hreset) (by exact hnone) (by exact htail) ?_ ?_ ?_
  · rw [length_nil]
    omega
  · rw [hlen]
    omega
  rintro s2 ⟨-, hle2, _, _, _, _, rfl⟩
  replace hle2 := Nat.le_trans hle2 hle1
  refine writerSafe_memcpy (by exact hreset) (by exact htail) (by exact hboth) ?_ ?_ ?_
  · rw [hlen]
    omega
  · rw [hlen]
    omega
  rintro s3 ⟨-, hle3, _, _, _, _, rfl⟩
  replace hle3 := Nat.le_trans hle3 hle2
  apply writerSafe_storeWr
  · exact hreset
  · omega
  · exact hn
  · exact hhanded
  · exact hpublished
  · exact hfirst
  · rfl
  · exact hboth
  · exact hk

end

theorem writerSafe_refuse : WriterSafe cfg (.op .refuse fun _ => .done) s := by
  rintro s1 ⟨⟨hinv1, -, rd, delivered, taken, stale, heq⟩, -⟩
  have hinv : (s1.exec cfg .refuse).2.Inv cfg :=
    { hinv1 with
      reset := fun hon => ⟨(hinv1.reset hon).1, rfl⟩
      text := by
        obtain ⟨hnew, ids, htext, hsublist, -⟩ := hinv1.text
        exact ⟨hnew, ids, htext, hsublist, nofun⟩ }
  subst heq
  exact ⟨.of_grows ⟨hinv, rfl, rfl, rfl, Nat.le_refl _⟩ hreset, hreset, nofun⟩

end

theorem writerSafe_limit (h : s.Inv cfg) (hreset : s.resetting = false)
    (hpublished : s.published = s.handed)
    (hpressed : cfg.maxPdingDataSize ≤ s.backlog cfg → s.pressed = true) :
    WriterSafe cfg (bbsCount cfg fun count =>
      if cfg.maxPdingDataSize ≤ count then .op .resetWr fun _ => .op .resetRd fun _ => .done
      else .done) s := by
  apply writerSafe_bbsCount h hreset
  rintro s1 ⟨-, hle, _, _, _, _, rfl⟩
  split_ifs with hmax
  · have hpressed1 := hpressed (Nat.le_trans hmax hle)
    rintro s2 ⟨⟨hinv2, -, _, _, _, _, rfl⟩, -⟩
    refine ⟨⟨hinv2.resetWr hpressed1 hpublished, fun hne => absurd rfl hne,
      fun hon => by simp [hreset] at hon⟩, ?_⟩
    rintro s3 ⟨⟨hinv3, -, _, _, _, _, rfl⟩, -⟩
    refine ⟨⟨hinv3.resetRd rfl, fun _ hne => absurd rfl hne, fun _ => rfl⟩, rfl, fun hoff => ?_⟩
    simp [exec, hpressed1] at hoff
  · exact ⟨hreset, fun _ => hpublished⟩

/-- A call of `btif_bbs_write`. -/
theorem writerSafe_btifBbsWrite (hreset : s.resetting = false)
    (hpublished : s.pressed = false → s.published = s.handed) (bufLen : ℕ) :
    WriterSafe cfg (btifBbsWrite cfg bufLen) s := by
  rintro s1 ⟨⟨h1, -, rd, delivered, taken, stale, heq⟩, -⟩
  have hinv1 : (s1.exec cfg (.enter bufLen)).2.Inv cfg :=
    { h1 with published_le := le_add_right_of_le h1.published_le }
  subst heq
  refine ⟨.of_grows ⟨hinv1, rfl, rfl, rfl, Nat.le_refl _⟩ hreset, ?_⟩
  apply writerSafe_bbsCount hinv1 hreset
  intro s2 h2
  have hlt : s2.backlog cfg < cfg.size := ringCount_lt _ _ _
  have hava : u32 (u32 (cfg.size - s2.backlog cfg) - 1) = cfg.size - s2.backlog cfg - 1 := by
    have := cfg.size_le
    simp only [u32]
    omega
  simp only [hava]
  obtain ⟨-, -, _, _, _, _, rfl⟩ := h2
  split_ifs with hfull
  · exact writerSafe_refuse hreset
  · apply writerSafe_btifBbsWrDirect
    · exact hreset
    · omega
    · exact Nat.min_le_left _ _
    · rfl
    · exact h1.published_le
    · exact hpublished
    · intro s3 hinv3 hreset3 hpublished3 hpressed3
      exact writerSafe_limit hinv3 hreset3 hpublished3 hpressed3

end Writer

namespace BbsSystem

variable {w : BbsSystem}

/-- The two keep apart: the ring is emptied between two rounds of the thread only, no round begins
between the two stores that empty it, and none ends between the two reads of the read index by which
the interrupt counts. -/
def Apart (cfg : BbsConfig) (w : BbsSystem) : BbsEvent → Prop
  | .write bufLen =>
    ∀ o ∈ (w.writing cfg bufLen).head?, o.isReset = true → w.reader.isDone = true
  | .read =>
    (w.reader.isDone = true → ∀ o ∈ w.writer.head?, o ≠ .resetRd) ∧
      ∀ o ∈ (w.reading cfg).head?, o.isStoreRd = true →
        ∀ o' ∈ w.writer.head?, o'.isAgain = false

instance (cfg : BbsConfig) (w : BbsSystem) : ∀ e : BbsEvent, Decidable (w.Apart cfg e)
  | .write bufLen => inferInstanceAs (Decidable (∀ o ∈ (w.writing cfg bufLen).head?, _ → _))
  | .read => inferInstanceAs (Decidable (_ ∧ ∀ o ∈ (w.reading cfg).head?, _ → _))

/-- The callback is given what it should be given. -/
structure Right (w : BbsSystem) : Prop where
  /-- Bytes handed to `btif_bbs_write`, in their order and each at most once. -/
  inOrder : w.bbs.delivered.Sublist ((range w.bbs.handed).map some)
  /-- Each of them was written since the ring was emptied last. -/
  fresh : w.bbs.stale = false
  /-- If there has been room for all bytes and never too many, all have been passed on when the ring
  is empty. -/
  complete : w.bbs.pressed = false → w.writer.isDone = true → w.reader.isDone = true →
    w.bbs.rdIdx = w.bbs.wrIdx → w.bbs.delivered = (range w.bbs.handed).map some

/-- What all runs keep in which the two keep apart. -/
structure Kept (cfg : BbsConfig) (w : BbsSystem) : Prop where
  inv : w.bbs.Inv cfg
  writer : WriterSafe cfg w.writer w.bbs
  reader : ReaderSafe cfg w.reader w.bbs

theorem Kept.writing (h : w.Kept cfg) (bufLen : ℕ) :
    WriterSafe cfg (w.writing cfg bufLen) w.bbs := by
  rw [BbsSystem.writing]
  split_ifs with hdone
  · obtain ⟨hreset, hpublished⟩ := Prog.Safe.done_post h.writer hdone
    exact writerSafe_btifBbsWrite hreset hpublished bufLen
  · exact h.writer

theorem Kept.not_resetting (h : w.Kept cfg) (hne : ∀ o ∈ w.writer.head?, o ≠ .resetRd) :
    w.bbs.resetting = false := by
  have hsafe := h.writer
  cases hwriter : w.writer with
  | done =>
    rw [hwriter] at hsafe
    exact hsafe.1
  | op o k =>
    have ho : o ∈ w.writer.head? := by rw [hwriter]; rfl
    have hguar := Prog.Safe.head_guar h.writer ho ⟨h.inv.shrinks, fun _ => rfl⟩
    cases hon : w.bbs.resetting with
    | false => rfl
    | true => exact absurd (hguar.2.2 hon) (hne o ho)

theorem Kept.reading (h : w.Kept cfg)
    (hstart : w.reader.isDone = true → ∀ o ∈ w.writer.head?, o ≠ .resetRd) :
    ReaderSafe cfg (w.reading cfg) w.bbs := by
  rw [BbsSystem.reading]
  split_ifs with hdone
  · have htaken := Prog.Safe.done_post h.reader hdone
    exact readerSafe_btifRxDataConsummer (h.not_resetting (hstart hdone)) htaken
  · exact h.reader

theorem run_snd {p : BbsProg} {s : BtifBuf} (ho : o ∈ p.head?) :
    (p.run (exec cfg) s).2 = (s.exec cfg o).2 := by
  cases p with
  | done => cases ho
  | op o' k =>
    obtain rfl := Option.some.inj ho
    rfl

theorem exists_head {p q : BbsProg} (h : q.isDone = false) :
    ∃ o, o ∈ (if p.isDone then q else p).head? := by
  cases p with
  | done =>
    cases q with
    | done => simp [Prog.isDone] at h
    | op o k => exact ⟨o, rfl⟩
  | op o k => exact ⟨o, rfl⟩

/-- A step of the writer keeps the state. -/
theorem Kept.step_write (h : w.Kept cfg) {bufLen : ℕ} (hapart : w.Apart cfg (.write bufLen)) :
    (w.step cfg (.write bufLen)).Kept cfg := by
  have hsafe := h.writing bufLen
  have hrefl : BtifBuf.Shrinks cfg w.bbs w.bbs := h.inv.shrinks
  obtain ⟨o, ho⟩ : ∃ o, o ∈ (w.writing cfg bufLen).head? := exists_head rfl
  obtain ⟨hinv, hgrows, -⟩ := Prog.Safe.head_guar hsafe ho ⟨hrefl, fun _ => rfl⟩
  have hgrow (hreset : o.isReset ≠ true) :=
    hgrows (fun heq => hreset (heq ▸ rfl)) (fun heq => hreset (heq ▸ rfl))
  have hrun : (w.step cfg (.write bufLen)).bbs = (w.bbs.exec cfg o).2 := run_snd ho
  refine ⟨hrun ▸ hinv, Prog.Safe.run hsafe fun _ _ => ⟨hrefl, fun _ => rfl⟩, ?_⟩
  rw [hrun]
  apply Prog.Safe.stable h.reader fun _ _ _ _ => BtifBuf.Grows.trans
  · intro _ htaken
    by_cases hreset : o.isReset = true
    · cases o <;> first | exact htaken | rfl | simp [BbsOp.isReset] at hreset
    · exact (hgrow hreset).taken.trans htaken
  · intro o' ho'
    have hbusy : w.reader.isDone ≠ true := by
      cases hreader : w.reader with
      | done => simp [hreader, Prog.head?] at ho'
      | op => simp [Prog.isDone]
    exact hgrow fun hon => hbusy (hapart o ho hon)

/-- A step of the reader keeps the state. -/
theorem Kept.step_read (h : w.Kept cfg) (hapart : w.Apart cfg .read) :
    (w.step cfg .read).Kept cfg := by
  have hsafe := h.reading hapart.1
  obtain ⟨o, ho⟩ : ∃ o, o ∈ (w.reading cfg).head? := exists_head rfl
  obtain ⟨hshrinks, hrd⟩ := Prog.Safe.head_guar hsafe ho h.inv.grows
  have hrun : (w.step cfg .read).bbs = (w.bbs.exec cfg o).2 := run_snd ho
  refine ⟨hrun ▸ hshrinks.inv, ?_, Prog.Safe.run hsafe fun _ _ => h.inv.grows⟩
  rw [hrun]
  apply Prog.Safe.stable h.writer
  · rintro o' s1 s2 s3 ⟨h1, hrd1⟩ ⟨h2, hrd2⟩
    exact ⟨h1.trans h2, fun hagain => (hrd2 hagain).trans (hrd1 hagain)⟩
  · obtain ⟨_, _, _, _, heq⟩ := hshrinks.same
    rw [heq]
    exact fun _ hdone => hdone
  · intro o' ho'
    refine ⟨hshrinks, fun hagain => hrd ?_⟩
    rintro v rfl
    simp [hapart.2 _ ho rfl o' ho'] at hagain

theorem start_kept (cfg : BbsConfig) : start.Kept cfg := by
  have hbacklog : start.bbs.backlog cfg = 0 := by
    simp [start, BtifBuf.start, BtifBuf.backlog]
  have hrest : start.bbs.rest cfg = [] := by
    rw [rest_eq rfl, BtifBuf.live, hbacklog]
    rfl
  exact {
    inv := {
      wr_lt := cfg.size_pos
      rd_lt := cfg.size_pos
      published_le := Nat.le_refl _
      mark_le := Nat.le_refl _
      stale := rfl
      reset := nofun
      taken_le := fun _ => zero_le _
      text := by
        rw [hrest]
        exact ⟨nofun, [], rfl, List.Sublist.refl _, fun _ => rfl⟩ }
    writer := ⟨rfl, fun _ => rfl⟩
    reader := rfl }

/-- What is delivered in a kept state is right. -/
theorem Kept.right (h : w.Kept cfg) : w.Right where
  inOrder := by
    obtain ⟨-, ids, htext, hsublist, -⟩ := h.inv.text
    have hids := (hsublist.trans (range_sublist.mpr h.inv.published_le)).map some
    rw [← htext] at hids
    exact (sublist_append_left _ _).trans hids
  fresh := h.inv.stale
  complete hpressed hwriter hreader hempty := by
    obtain ⟨hreset, hpublished⟩ := Prog.Safe.done_post h.writer hwriter
    obtain ⟨-, ids, htext, -, hall⟩ := h.inv.text
    have hbacklog : w.bbs.backlog cfg = 0 := by
      rw [backlog_eq, ringCount_of_le h.inv.wr_lt (Nat.le_of_eq hempty), hempty, Nat.sub_self]
    rwa [rest_eq hreset, live, hbacklog, contents_zero, drop_nil, append_nil, hall hpressed,
      hpublished hpressed] at htext

/-- In every interleaving in which the two keep apart, the callback is given the bytes handed to
`btif_bbs_write` in order, each at most once and none from before the last emptying, and all of them
if there has always been room. -/
theorem delivered_right (cfg : BbsConfig) (events : List BbsEvent)
    (h : Runs.RunOk (step cfg) (Apart cfg) start events) :
    (events.foldl (step cfg) start).Right := by
  have hkept : (events.foldl (step cfg) start).Kept cfg := by
    apply (Runs.Reaches.start.foldl h).invariant (start_kept cfg)
    intro w e hkept hapart
    cases e with
    | write bufLen => exact hkept.step_write hapart
    | read => exact hkept.step_read hapart
  exact hkept.right

/-- A ring of eight bytes that is emptied when there are `limit` bytes in it. -/
def smallRing (limit : ℕ) : BbsConfig := ⟨3, by decide, limit⟩

/-- Two calls, each followed by a round of the thread. The second one goes over the end of the
ring. -/
def wrapRun : List BbsEvent :=
  replicate 13 (.write 5) ++ replicate 9 .read ++ replicate 13 (.write 4) ++
    replicate 11 .read

/-- Nine bytes go through a ring of eight. -/
theorem delivered_right_wrapRun :
    Runs.RunOk (step (smallRing 6)) (Apart (smallRing 6)) start wrapRun ∧
      (wrapRun.foldl (step (smallRing 6)) start).bbs.delivered = (range 9).map some ∧
      (wrapRun.foldl (step (smallRing 6)) start).Right :=
  ⟨by decide +kernel, by decide +kernel, delivered_right _ _ (by decide +kernel)⟩

/-- The ring is emptied while the thread is in a round. -/
def staleRun : List BbsEvent :=
  replicate 13 (.write 3) ++ [.read] ++ replicate 15 (.write 2) ++
    replicate 8 .read

/-- The thread stores the read index between the two reads of the interrupt, which empties the ring
although there are five bytes in it at most. -/
def tornRun : List BbsEvent :=
  replicate 13 (.write 5) ++ replicate 9 .read ++ replicate 13 (.write 3) ++
    replicate 10 .read ++ replicate 11 (.write 1) ++ [.read] ++
    replicate 4 (.write 1)

/-- Bytes are passed on that were thrown away before, and a byte is lost although there has always
been room. -/
theorem not_delivered_right :
    ¬ (staleRun.foldl (step (smallRing 4)) start).Right ∧
      ¬ (tornRun.foldl (step (smallRing 6)) start).Right := by
  constructor
  · intro h
    have hfresh := h.fresh
    revert hfresh
    decide +kernel
  · intro h
    have hall := h.complete (by decide +kernel) (by decide +kernel) (by decide +kernel)
      (by decide +kernel)
    revert hall
    decide +kernel

end BbsSystem

end Mt8169.Btif
