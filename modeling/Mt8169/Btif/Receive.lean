import Mt8169.Lib.CircularBuffer
import Mt8169.Lib.MachineInt
import Mt8169.Lib.Resumption

/-!
# The receive buffer

The receive interrupt writes bytes into a ring, and a thread passes them to the callback of the
user. The two share the indices of the ring without a lock. The thread works on a sample of the
write index until it stores it as the read index; the interrupt empties a ring with too many bytes
by storing zero in both indices. Both sides are programs whose operations are single accesses to the
indices, copies and calls of the callback. The bytes are numbered as they are handed to
`btif_bbs_write`, and the buffer holds their numbers.
-/

namespace Mt8169.Btif

open MachineInt (u32)
open Resumption (Prog)

/-- The size of the ring is a power of two. -/
structure BbsConfig where
  log : ℕ
  log_le : log ≤ 31
  /-- `g_max_pding_data_size`. -/
  maxPdingDataSize : ℕ

def BbsConfig.size (cfg : BbsConfig) : ℕ := 2 ^ cfg.log

/-- The ring, with the bytes that have gone in and out. -/
structure BtifBuf where
  /-- The memory from the start of the buffer on. -/
  mem : ℤ → Option ℕ
  wrIdx : ℕ
  rdIdx : ℕ
  /-- The number of bytes handed to `btif_bbs_write`. -/
  handed : ℕ
  /-- The bytes below this number are in the ring or have been in it or have been dropped. -/
  published : ℕ
  /-- The first byte handed over since the ring was emptied. -/
  mark : ℕ
  /-- The write index is zero already, and the read index not yet. -/
  resetting : Bool
  /-- A call has found too little room, or has left too many bytes in the ring. -/
  pressed : Bool
  /-- The bytes passed to the callback. -/
  delivered : List (Option ℕ)
  /-- How many of them are still between the indices. -/
  taken : ℕ
  /-- A byte has been passed to the callback that had not been written since the ring was
  emptied. -/
  stale : Bool

/-- The atomic operations. -/
inductive BbsOp where
  | readWr
  | readRd
  /-- The second reads of the indices in `BBS_COUNT`. -/
  | readWrAgain
  | readRdAgain
  /-- A call of `btif_bbs_write` begins. -/
  | enter (bufLen : ℕ)
  /-- A call of `btif_bbs_write` returns without having written. -/
  | refuse
  /-- Copy bytes, from the byte numbered `first` on. -/
  | memcpy (off first n : ℕ)
  /-- Store the write index after `n` bytes of `bufLen` have been copied. -/
  | storeWr (v n bufLen : ℕ)
  /-- The two stores of `BBS_INIT`. -/
  | resetWr
  | resetRd
  | rxCb (off n : ℕ)
  | storeRd (v : ℕ)
  deriving DecidableEq, Repr

/-- The operation comes after the first read of the read index in a count. -/
def BbsOp.isAgain : BbsOp → Bool
  | .readWrAgain | .readRdAgain => true
  | _ => false

/-- The operation empties the ring. -/
def BbsOp.isReset : BbsOp → Bool
  | .resetWr | .resetRd => true
  | _ => false

/-- The operation stores the read index after a round. -/
def BbsOp.isStoreRd : BbsOp → Bool
  | .storeRd _ => true
  | _ => false

namespace BtifBuf

def start : BtifBuf where
  mem := fun _ => none
  wrIdx := 0
  rdIdx := 0
  handed := 0
  published := 0
  mark := 0
  resetting := false
  pressed := false
  delivered := []
  taken := 0
  stale := false

/-- The number of bytes in the ring. -/
def backlog (cfg : BbsConfig) (s : BtifBuf) : ℕ := (s.wrIdx + cfg.size - s.rdIdx) % cfg.size

/-- The memory from a place on. -/
def bytesAt (s : BtifBuf) (off n : ℕ) : List (Option ℕ) :=
  (List.range n).map fun i : ℕ => s.mem (off + i)

/-- The byte was written after the ring was emptied. -/
def isNew (s : BtifBuf) : Option ℕ → Bool
  | none => false
  | some id => decide (s.mark ≤ id)

def exec (cfg : BbsConfig) (s : BtifBuf) : BbsOp → ℕ × BtifBuf
  | .readWr | .readWrAgain => (s.wrIdx, s)
  | .readRd | .readRdAgain => (s.rdIdx, s)
  | .enter bufLen => (s.handed, { s with handed := s.handed + bufLen })
  | .refuse => (0, { s with pressed := true })
  | .memcpy off first n =>
    (0, { s with mem := CircularBuffer.copyIn s.mem off ((List.range' first n).map some) })
  | .storeWr v n bufLen =>
    (0, { s with
      wrIdx := v
      published := s.handed
      pressed := s.pressed || decide (n < bufLen) ||
        decide (cfg.maxPdingDataSize ≤ backlog cfg { s with wrIdx := v }) })
  | .resetWr => (0, { s with wrIdx := 0, mark := s.handed, resetting := true })
  | .resetRd => (0, { s with rdIdx := 0, resetting := false, taken := 0 })
  | .rxCb off n =>
    (0, { s with
      delivered := s.delivered ++ s.bytesAt off n
      taken := s.taken + n
      stale := s.stale || (s.bytesAt off n).any fun b => !s.isNew b })
  | .storeRd v => (0, { s with rdIdx := v, taken := 0 })

end BtifBuf

abbrev BbsProg : Type := Prog BbsOp ℕ

variable (cfg : BbsConfig)

/-- `BBS_COUNT_CUR`: the read index is read for the comparison and again for the difference. -/
def bbsCountCur (wrIdx : ℕ) (k : ℕ → BbsProg) : BbsProg :=
  .op .readRd fun rdIdx =>
    if rdIdx ≤ wrIdx then .op .readRdAgain fun rdIdx => k (u32 (wrIdx - rdIdx))
    else .op .readRdAgain fun rdIdx => k (u32 (cfg.size - u32 (rdIdx - wrIdx)))

/-- `BBS_COUNT`. The write index is read twice, too. -/
def bbsCount (k : ℕ → BbsProg) : BbsProg :=
  .op .readWr fun wrIdx => .op .readRd fun rdIdx =>
    if rdIdx ≤ wrIdx then
      .op .readWrAgain fun wrIdx => .op .readRdAgain fun rdIdx => k (u32 (wrIdx - rdIdx))
    else .op .readWrAgain fun wrIdx => .op .readRdAgain fun rdIdx =>
      k (u32 (cfg.size - u32 (rdIdx - wrIdx)))

/-- `btif_bbs_wr_direct`. -/
def btifBbsWrDirect (first n bufLen : ℕ) (k : BbsProg) : BbsProg :=
  .op .readWr fun tmpWrIdx =>
    let tailLen := cfg.size - (tmpWrIdx &&& (cfg.size - 1))
    let l := min tailLen n
    .op (.memcpy (tmpWrIdx &&& (cfg.size - 1)) first l) fun _ =>
    .op (.memcpy 0 (first + l) (n - l)) fun _ =>
    .op (.storeWr (u32 (tmpWrIdx + n) &&& (cfg.size - 1)) n bufLen) fun _ => k

/-- `btif_bbs_write`. -/
def btifBbsWrite (bufLen : ℕ) : BbsProg :=
  .op (.enter bufLen) fun first =>
    bbsCount cfg fun count =>
      let empLen := u32 (cfg.size - count)
      let avaLen := u32 (empLen - 1)
      if avaLen ≤ 0 then .op .refuse fun _ => .done
      else
        btifBbsWrDirect cfg first (min bufLen avaLen) bufLen <|
          bbsCount cfg fun count =>
            if cfg.maxPdingDataSize ≤ count then
              .op .resetWr fun _ => .op .resetRd fun _ => .done
            else .done

/-- One round of the loop of `btif_rx_data_consummer`, with a callback registered. -/
def btifRxDataConsummer : BbsProg :=
  .op .readWr fun wrIdx =>
    bbsCountCur cfg wrIdx fun length =>
      if 0 < length then
        .op .readRd fun rdIdx =>
          if rdIdx ≤ wrIdx then
            .op .readRd fun off =>
              bbsCountCur cfg wrIdx fun length =>
                .op (.rxCb off length) fun _ => .op (.storeRd wrIdx) fun _ => .done
          else
            .op .readRd fun rdIdx =>
              let lenTail := u32 (cfg.size - rdIdx)
              .op .readRd fun off =>
                .op (.rxCb off lenTail) fun _ =>
                  bbsCountCur cfg wrIdx fun length =>
                    .op (.rxCb 0 (u32 (length - lenTail))) fun _ =>
                      .op (.storeRd wrIdx) fun _ => .done
      else .done

/-- The ring with its two users. -/
structure BbsSystem where
  bbs : BtifBuf
  writer : BbsProg
  reader : BbsProg

inductive BbsEvent where
  /-- The interrupt goes on. If it has nothing to do, it is called with so many bytes. -/
  | write (bufLen : ℕ)
  /-- The thread goes on, with a new round if it has finished one. -/
  | read
  deriving DecidableEq, Repr

namespace BbsSystem

def start : BbsSystem := ⟨.start, .done, .done⟩

variable (cfg : BbsConfig) (w : BbsSystem)

/-- The program with which the interrupt goes on. -/
def writing (bufLen : ℕ) : BbsProg :=
  if w.writer.isDone then btifBbsWrite cfg bufLen else w.writer

/-- The program with which the thread goes on. -/
def reading : BbsProg :=
  if w.reader.isDone then btifRxDataConsummer cfg else w.reader

def step : BbsEvent → BbsSystem
  | .write bufLen =>
    let (writer, bbs) := (w.writing cfg bufLen).run (BtifBuf.exec cfg) w.bbs
    { w with writer := writer, bbs := bbs }
  | .read =>
    let (reader, bbs) := (w.reading cfg).run (BtifBuf.exec cfg) w.bbs
    { w with reader := reader, bbs := bbs }

end BbsSystem

end Mt8169.Btif
