import Mt8169.Lib.MachineInt
import Mathlib.Data.List.Infix

/-!
# The dump of the multimedia profiler

A dump is read block by block, each from a given offset. `mmprofile_get_dump_buffer` goes through
the regions of the dump in order, the globals, the table of the events and the ring buffer, and
fills the block from each until it is full.
-/

namespace Mt8169.Mmp

open MachineInt List

/-- What a dump is taken of, as bytes. Its size is below 2^32, so no sum of sizes wraps. -/
structure DumpSource where
  /-- `mmprofile_globals` -/
  globals : List UInt8
  /-- The `event_info` of the entries of `mmprofile_regtable`, `reg_event_index` of them. -/
  regtable : List (List UInt8)
  ringBuffer : List UInt8
  eventInfoSize : ℕ
  dumpBlockSize : ℕ
  length_info : ∀ info ∈ regtable, info.length = eventInfoSize
  dumpBlockSize_pos : 0 < dumpBlockSize
  total_lt : globals.length + eventInfoSize * (regtable.length + 1) + ringBuffer.length < 2 ^ 32

namespace DumpSource

variable (d : DumpSource)

/-- `mmprofile_get_dump_size` -/
def getDumpSize (staticEvents : Bool) : ℕ :=
  if ¬staticEvents then 0
  else u32 (d.globals.length + d.eventInfoSize * (d.regtable.length + 1) + d.ringBuffer.length)

/-- `mmprofile_fill_dump_block`, with the bytes that stand in the block already. -/
def fillDumpBlock (src : List UInt8) (srcPos : ℕ) (block : List UInt8) : List UInt8 :=
  let srcLeft := src.length - srcPos
  let dstLeft := d.dumpBlockSize - block.length
  if srcLeft = 0 ∨ dstLeft = 0 then block
  else if srcLeft < dstLeft then block ++ (src.drop srcPos).take srcLeft
  else block ++ (src.drop srcPos).take dstLeft

/-- The block is filled further, and returned if it is full. -/
def fill (src : List UInt8) (srcPos : ℕ) (block : List UInt8) :
    Except (List UInt8) (List UInt8) :=
  let block := d.fillDumpBlock src srcPos block
  if block.length = d.dumpBlockSize then .error block else .ok block

/-- The loop over the table from `pos` on. -/
def fillInfos (regionPos : ℕ) :
    List (List UInt8) → (pos : ℕ) → List UInt8 → Except (List UInt8) (List UInt8)
  | [], _, block => .ok block
  | info :: infos, pos, block =>
    (if pos + d.eventInfoSize > regionPos then d.fill info (regionPos - pos) block
      else .ok block) >>= fillInfos regionPos infos (pos + d.eventInfoSize)

/-- `event_info_dummy` -/
def eventInfoDummy : List UInt8 := replicate d.eventInfoSize 0

/-- The offset of the ring buffer. -/
def ringBase : ℕ := d.globals.length + d.eventInfoSize * (d.regtable.length + 1)

/-- The region of the globals. A block that is returned early is an error. -/
def fillGlobals (totalPos : ℕ) : Except (List UInt8) (List UInt8) :=
  if totalPos < d.globals.length then d.fill d.globals totalPos [] else .ok []

/-- The region of the table. -/
def fillTable (staticEvents mutexFree : Bool) (totalPos : ℕ) (block : List UInt8) :
    Except (List UInt8) (List UInt8) :=
  if ¬staticEvents then .error []
  else if totalPos < d.ringBase then
    if ¬mutexFree then .error []
    else d.fillInfos (totalPos - d.globals.length) (d.eventInfoDummy :: d.regtable) 0 block
  else .ok block

/-- The region of the ring buffer. -/
def fillRing (totalPos : ℕ) (block : List UInt8) : Except (List UInt8) (List UInt8) :=
  if totalPos < d.ringBase + d.ringBuffer.length then
    d.fill d.ringBuffer (totalPos - d.ringBase) block
  else .ok block

/-- The regions in order. Behind a region `total_pos` is at least the end of it. -/
def fillRegions (staticEvents mutexFree : Bool) (start : ℕ) :
    Except (List UInt8) (List UInt8) := do
  let block ← d.fillGlobals start
  let block ← d.fillTable staticEvents mutexFree (max start d.globals.length) block
  d.fillRing (max start d.ringBase) block

/-- `mmprofile_get_dump_buffer`: the bytes of the block up to the returned size. -/
def getDumpBuffer (initBuffer staticEvents mutexFree : Bool) (start : ℕ) : List UInt8 :=
  if ¬initBuffer then []
  else match d.fillRegions staticEvents mutexFree start with
    | .ok block | .error block => block

/-- The whole dump. -/
def dump : List UInt8 :=
  d.globals ++ (d.eventInfoDummy :: d.regtable).flatten ++ d.ringBuffer

/-- The blocks from `start` on until one is empty; none if there are more than `fuel`. -/
def readDump : (fuel start : ℕ) → Option (List UInt8)
  | 0, _ => none
  | fuel + 1, start =>
    let block := d.getDumpBuffer true true true start
    if block = [] then some []
    else (readDump fuel (u32 (start + block.length))).map (block ++ ·)

/-- The block holds what has been gone through of the dump from `start` on, or is full. -/
def Filled (start : ℕ) (done : List UInt8) : Except (List UInt8) (List UInt8) → Prop
  | .ok block => block = done.drop start ∧ block.length < d.dumpBlockSize
  | .error block => block <+: done.drop start ∧ block.length = d.dumpBlockSize

variable {d} {start : ℕ} {done more block : List UInt8} {r : Except (List UInt8) (List UInt8)}

/-- A block is filled up from a place of a source on. -/
theorem fillDumpBlock_eq (src : List UInt8) (srcPos : ℕ) (block : List UInt8) :
    d.fillDumpBlock src srcPos block =
      block ++ (src.drop srcPos).take (d.dumpBlockSize - block.length) := by
  unfold fillDumpBlock
  dsimp only
  split_ifs with hnone hless
  · rcases hnone with hsrc | hdst
    · rw [drop_eq_nil_of_le (by omega), take_nil, append_nil]
    · rw [hdst, take_zero, append_nil]
  · rw [take_of_length_le length_drop.le, take_of_length_le (by rw [length_drop]; omega)]
  · rfl

/-- The rule for two sources in a row. -/
theorem Filled.bind {f : List UInt8 → Except (List UInt8) (List UInt8)}
    (h : d.Filled start done r)
    (hf : ∀ block, d.Filled start done (.ok block) → d.Filled start (done ++ more) (f block)) :
    d.Filled start (done ++ more) (r >>= f) := by
  cases r with
  | ok block => exact hf block h
  | error block =>
    refine ⟨h.1.trans ?_, h.2⟩
    rw [drop_append]
    exact prefix_append _ _

/-- A further source continues the block. -/
theorem Filled.fill (h : d.Filled start done (.ok block)) (src : List UInt8) {srcPos : ℕ}
    (hpos : srcPos = start - done.length) :
    d.Filled start (done ++ src) (d.fill src srcPos block) := by
  obtain ⟨rfl, hlt⟩ := h
  have hdrop : (done ++ src).drop start = done.drop start ++ src.drop srcPos := by
    rw [drop_append, hpos]
  unfold DumpSource.fill
  dsimp only
  rw [fillDumpBlock_eq]
  split_ifs with hfull
  · refine ⟨?_, hfull⟩
    rw [hdrop]
    exact (prefix_append_right_inj _).mpr ( take_prefix _ _)
  · rw [length_append, length_take] at hfull
    have hall : (src.drop srcPos).length ≤ d.dumpBlockSize - (done.drop start).length := by omega
    rw [take_of_length_le hall]
    refine ⟨hdrop.symm, ?_⟩
    rw [length_append]
    omega

theorem Filled.skip (h : d.Filled start done (.ok block))
    (hpast : more.length ≤ start - done.length) : d.Filled start (done ++ more) (.ok block) := by
  refine ⟨?_, h.2⟩
  rw [drop_append, drop_eq_nil_of_le hpast, append_nil]
  exact h.1

theorem Filled.fillInfos (base : ℕ) {regionPos : ℕ} (infos : List (List UInt8)) {pos : ℕ}
    (hinfos : ∀ info ∈ infos, info.length = d.eventInfoSize)
    (h : d.Filled start done (.ok block)) (hdone : done.length = base + pos)
    (hpos : regionPos = start - base) :
    d.Filled start (done ++ infos.flatten) (d.fillInfos regionPos infos pos block) := by
  induction infos generalizing done pos block with
  | nil => simpa [DumpSource.fillInfos] using h
  | cons info infos ih =>
    have hinfo := hinfos info mem_cons_self
    rw [flatten_cons, ← append_assoc, DumpSource.fillInfos]
    refine Filled.bind ?_ fun block hblock => ?_
    · split_ifs with hpast
      · exact h.fill info (by omega)
      · exact h.skip (by omega)
    · refine ih (fun info hin => hinfos info (mem_cons_of_mem _ hin)) hblock ?_
      rw [length_append]
      omega

theorem length_infos (d : DumpSource) :
    (d.eventInfoDummy :: d.regtable).flatten.length =
      d.eventInfoSize * (d.regtable.length + 1) := by
  have hsum : (d.regtable.map length).sum = d.eventInfoSize * d.regtable.length := by
    rw [map_congr_left d.length_info, map_const', sum_replicate_nat, Nat.mul_comm]
  rw [length_flatten, map_cons, sum_cons, hsum, eventInfoDummy, length_replicate, Nat.mul_succ,
    Nat.add_comm]

/-- A block has the dump from its start on. -/
theorem fillRegions_filled (start : ℕ) : d.Filled start d.dump (d.fillRegions true true start) := by
  have hinfos : ∀ info ∈ d.eventInfoDummy :: d.regtable, info.length = d.eventInfoSize := by
    intro info hin
    rcases mem_cons.mp hin with rfl | hin
    · exact length_replicate
    · exact d.length_info info hin
  have hlen := length_infos d
  have hbase : d.ringBase = (d.globals ++ (d.eventInfoDummy :: d.regtable).flatten).length := by
    rw [length_append, length_infos, ringBase]
  have hstart : d.Filled start [] (.ok []) := ⟨drop_nil.symm, d.dumpBlockSize_pos⟩
  unfold fillRegions
  rw [← bind_assoc]
  refine Filled.bind (Filled.bind ?_ fun block hblock => ?_) fun block hblock => ?_
  · unfold fillGlobals
    split_ifs with hpast
    · exact hstart.fill d.globals rfl
    · exact hstart.skip (Nat.le_of_not_lt hpast)
  · simp only [fillTable, not_true, if_false]
    split_ifs with hpast
    · exact hblock.fillInfos d.globals.length _ hinfos rfl (by omega)
    · exact hblock.skip (by rw [hbase, length_append] at hpast; omega)
  · unfold fillRing
    split_ifs with hpast
    · exact hblock.fill _ (by omega)
    · exact hblock.skip (by omega)

/-- One call returns a block of the dump. -/
theorem getDumpBuffer_eq (start : ℕ) :
    d.getDumpBuffer true true true start = (d.dump.drop start).take d.dumpBlockSize := by
  have h := fillRegions_filled (d := d) start
  unfold getDumpBuffer
  simp only [not_true, if_false]
  cases hr : d.fillRegions true true start with
  | ok block =>
    rw [hr] at h
    obtain ⟨rfl, hlt⟩ := h
    exact (take_of_length_le (Nat.le_of_lt hlt)).symm
  | error block =>
    rw [hr] at h
    rw [← h.2]
    exact prefix_iff_eq_take.mp h.1

theorem length_dump (d : DumpSource) :
    d.dump.length = d.globals.length + d.eventInfoSize * (d.regtable.length + 1) +
      d.ringBuffer.length := by
  rw [dump, length_append, length_append, length_infos]

/-- The calls together return the whole dump. -/
theorem readDump_eq {fuel : ℕ} (hfuel : d.dump.length < start + fuel)
    (hstart : start ≤ d.dump.length) : d.readDump fuel start = some (d.dump.drop start) := by
  induction fuel generalizing start with
  | zero => omega
  | succ fuel ih =>
    have hlen : ((d.dump.drop start).take d.dumpBlockSize).length =
        min d.dumpBlockSize (d.dump.length - start) := by rw [length_take, length_drop]
    rw [readDump, getDumpBuffer_eq]
    split_ifs with hnil
    · have hsize := d.dumpBlockSize_pos
      rw [hnil, length_nil] at hlen
      rw [drop_eq_nil_of_le (by omega)]
    · have hpos := length_pos_iff.mpr hnil
      have hlt := d.length_dump ▸ d.total_lt
      rw [u32_add (by omega), ih (by omega) (by omega), ← drop_drop,
        Option.map_some, ← prefix_append_drop ( take_prefix _ _)]

/-- A block holds the bytes of the dump from `start` on, as many as fit, and the blocks read one
after the other from 0 on give the whole dump, whose length is the dump size. -/
theorem getDumpBuffer_spec (d : DumpSource) :
    d.getDumpSize true = d.dump.length ∧
      (∀ start, d.getDumpBuffer true true true start =
        (d.dump.drop start).take d.dumpBlockSize) ∧
      ∀ fuel, d.dump.length < fuel → d.readDump fuel 0 = some d.dump := by
  refine ⟨?_, getDumpBuffer_eq, fun fuel hfuel => readDump_eq (by omega) (Nat.zero_le _)⟩
  rw [length_dump]
  exact u32_natCast d.total_lt

/-- Two bytes of globals, one event and two bytes of the ring buffer, in blocks of three. -/
def smallDump : DumpSource :=
  ⟨[1, 2], [[3]], [4, 5], 1, 3, by decide, by decide, by decide⟩

example : smallDump.readDump 7 0 = some [1, 2, 0, 3, 4, 5] := by decide

end DumpSource

end Mt8169.Mmp
