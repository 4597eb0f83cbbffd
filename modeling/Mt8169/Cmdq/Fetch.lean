import Mt8169.Cmdq.PacketLayout
import Mathlib.Data.List.Nodup
import Mathlib.Data.List.Perm.Subperm

/-!
# Fetching a packet

The command engine reads a packet by address, from the first buffer and over the absolute jump in
the last slot of every buffer that has a successor. The words it visits are the instructions that
were appended, in their order.
-/

namespace Mt8169.Cmdq

open ByteMemory MachineInt List Option Nat

variable {shift : ℕ} {b : CmdqPktBuffer} {pkt : CmdqPkt}

/-- The target of an absolute jump, or `none` for any other word. -/
def jumpTarget (shift w : ℕ) : Option ℕ :=
  if w / 2 ^ 32 = CmdqCode.jump.val * 2 ^ 24 + 1 then some (w % 2 ^ 32 * 2 ^ shift) else none

/-- Whether `base` is the address of the last buffer of the packet. -/
def CmdqPkt.lastAt (pkt : CmdqPkt) (base : ℕ) : Bool :=
  pkt.buf.getLast?.map (·.paBase) == some base

/-- The words visited from offset `off` of the buffer at `base` to the end of the packet's commands,
or `none` when the fuel runs out or an address is not that of a buffer. Only the last slot of a
buffer with a successor is read as a jump: elsewhere a jump is an instruction like any other. -/
def fetchFrom (shift : ℕ) (pkt : CmdqPkt) : ℕ → ℕ → ℕ → Option (List ℕ)
  | 0, _, _ => none
  | fuel + 1, base, off =>
    match pkt.buf.find? (·.paBase == base) with
    | none => none
    | some b =>
      if pkt.lastAt base ∧ off = cmdqCmdBufferSize - pkt.availBufSize then some []
      else if ¬pkt.lastAt base ∧ off = cmdqCmdBufferSize - cmdqInstSize then
        match jumpTarget shift (b.get off) with
        | some target => fetchFrom shift pkt fuel target 0
        | none => (fetchFrom shift pkt fuel base (off + cmdqInstSize)).map (b.get off :: ·)
      else (fetchFrom shift pkt fuel base (off + cmdqInstSize)).map (b.get off :: ·)

/-- The words visited from the first buffer on. -/
def fetchPkt (shift fuel : ℕ) (pkt : CmdqPkt) : Option (List ℕ) :=
  match pkt.buf with
  | [] => some []
  | b :: _ => fetchFrom shift pkt fuel b.paBase 0

/-- What the engine needs of the buffer addresses: they tell the buffers apart, and the shifted
32-bit jump operand can express them. -/
structure AddressesOk (shift : ℕ) (bases : List ℕ) : Prop where
  nodup : bases.Nodup
  aligned : ∀ pa ∈ bases, 2 ^ shift ∣ pa
  below : ∀ pa ∈ bases, pa < 2 ^ (32 + shift)

theorem AddressesOk.sublist {bases bases' : List ℕ} (h : AddressesOk shift bases)
    (hsub : bases'.Sublist bases) :
    AddressesOk shift bases' where
  nodup := h.nodup.sublist hsub
  aligned := fun pa hpa => h.aligned pa (hsub.subset hpa)
  below := fun pa hpa => h.below pa (hsub.subset hpa)

theorem shifted_lt {pa : ℕ} (hbelow : pa < 2 ^ (32 + shift)) : pa / 2 ^ shift < 2 ^ 32 := by
  rw [Nat.div_lt_iff_lt_mul (Nat.two_pow_pos shift), ← Nat.pow_add]
  exact hbelow

/-- There are not more buffers than 32-bit jump targets. -/
theorem AddressesOk.length_le {bases : List ℕ} (h : AddressesOk shift bases) :
    bases.length ≤ 2 ^ 32 := by
  have hinj : (bases.map (· / 2 ^ shift)).Nodup := by
    refine List.Nodup.map_on (fun x hx y hy hxy => ?_) h.nodup
    rw [← Nat.div_mul_cancel (h.aligned x hx), ← Nat.div_mul_cancel (h.aligned y hy), hxy]
  have hsub : bases.map (· / 2 ^ shift) ⊆ range (2 ^ 32) := by
    intro q hq
    obtain ⟨pa, hpa, rfl⟩ := mem_map.mp hq
    rw [mem_range]
    exact shifted_lt (h.below pa hpa)
  simpa using (hinj.subperm hsub).length_le

theorem jumpTarget_linkJump {pa : ℕ} (haligned : 2 ^ shift ∣ pa) (hbelow : pa < 2 ^ (32 + shift)) :
    jumpTarget shift (linkJump shift pa) = some pa := by
  have hquot := shifted_lt hbelow
  have hback := Nat.div_mul_cancel haligned
  rw [linkJump_eq, mod_eq_of_lt hquot]
  generalize pa / 2 ^ shift = q at hquot hback
  have hhigh : (0x10000001 * 2 ^ 32 + q) / 2 ^ 32 = CmdqCode.jump.val * 2 ^ 24 + 1 := by
    simp only [CmdqCode.val]
    omega
  have hlow : (0x10000001 * 2 ^ 32 + q) % 2 ^ 32 = q := by omega
  rw [jumpTarget, if_pos hhigh, hlow, hback]

theorem find?_paBase {bufs pre rest : List CmdqPktBuffer} (hnodup : (bufs.map (·.paBase)).Nodup)
    (hbufs : bufs = pre ++ b :: rest) : bufs.find? (·.paBase == b.paBase) = some b := by
  subst hbufs
  rw [find?_eq_some_iff_append]
  refine ⟨by simp, pre, rest, rfl, fun x hx => ?_⟩
  rw [map_append, map_cons, nodup_append] at hnodup
  have hne := hnodup.2.2 x.paBase (mem_map_of_mem hx) b.paBase (by simp)
  simpa using hne

theorem lastAt_eq_false {pre rest : List CmdqPktBuffer} {b' : CmdqPktBuffer}
    (hnodup : (pkt.buf.map (·.paBase)).Nodup) (hbuf : pkt.buf = pre ++ b :: b' :: rest) :
    pkt.lastAt b.paBase = false := by
  have hlast : pkt.buf.getLast? = some ((b' :: rest).getLast (by simp)) := by
    rw [hbuf, append_cons, getLast?_append_of_ne_nil _ (by simp), getLast?_eq_some_getLast]
  rw [hbuf, map_append, map_cons, nodup_append] at hnodup
  have hmem : ((b' :: rest).getLast (by simp)).paBase ∈ (b' :: rest).map (·.paBase) :=
    mem_map_of_mem (getLast_mem _)
  have hne : b.paBase ∉ (b' :: rest).map (·.paBase) := (nodup_cons.mp hnodup.2.1).1
  rw [CmdqPkt.lastAt, hlast, map_some, beq_eq_false_iff_ne, ne_eq, some.injEq]
  intro heq
  rw [heq] at hmem
  exact hne hmem

theorem fetchFrom_slots (shift : ℕ) (hfind : pkt.buf.find? (·.paBase == b.paBase) = some b)
    (n i fuel : ℕ) (hend : ∀ j, i ≤ j → j < i + n →
      ¬(pkt.lastAt b.paBase ∧ 8 * j = cmdqCmdBufferSize - pkt.availBufSize))
    (hjump : ∀ j, i ≤ j → j < i + n →
      ¬(¬pkt.lastAt b.paBase ∧ 8 * j = cmdqCmdBufferSize - cmdqInstSize)) :
    fetchFrom shift pkt (fuel + n) b.paBase (8 * i) =
      (fetchFrom shift pkt fuel b.paBase (8 * (i + n))).map
        ((range' i n).map (fun j => b.get (8 * j)) ++ ·) := by
  induction n generalizing i with
  | zero => simp
  | succ n ih =>
    have hstep : fetchFrom shift pkt (fuel + n + 1) b.paBase (8 * i) =
        (fetchFrom shift pkt (fuel + n) b.paBase (8 * (i + 1))).map (b.get (8 * i) :: ·) := by
      simp only [fetchFrom, hfind]
      rw [if_neg (hend i le_rfl (by omega)), if_neg (hjump i le_rfl (by omega))]
      rfl
    rw [← add_assoc, hstep, ih (i + 1) (fun j hlo hhi => hend j (by omega) (by omega))
      (fun j hlo hhi => hjump j (by omega) (by omega)), range'_succ,
      show i + 1 + n = i + (n + 1) by omega]
    simp [Function.comp_def]

theorem map_get_range' (b : CmdqPktBuffer) (n : ℕ) :
    (range' 0 n).map (fun j => b.get (8 * j)) = words b.vaBase n := by
  rw [← range_eq_range']
  rfl

/-- From any buffer on, the engine visits the rest of the payload. -/
theorem PktRep.fetchFrom_suffix {ws : List ℕ} (h : PktRep shift pkt ws)
    (haddr : AddressesOk shift (pkt.buf.map (·.paBase))) {n : ℕ}
    (hn : cmdqCmdBufferSize - pkt.availBufSize = 8 * n) (rest pre : List CmdqPktBuffer)
    (b : CmdqPktBuffer) (hbuf : pkt.buf = pre ++ b :: rest) (fuel : ℕ) :
    fetchFrom shift pkt (fuel + 1 + (480 * rest.length + n)) b.paBase 0 =
      some (toWords (payloadBytes pkt.availBufSize (b :: rest))) := by
  have hfind := find?_paBase haddr.nodup hbuf
  induction rest generalizing pre b with
  | nil =>
    have hlast : pkt.lastAt b.paBase = true := by simp [CmdqPkt.lastAt, hbuf]
    have hslots := fetchFrom_slots shift hfind n 0 (fuel + 1) (fun j _ hj => by omega)
      (fun j _ _ => by simp [hlast])
    have hstop : fetchFrom shift pkt (fuel + 1) b.paBase (8 * (0 + n)) = some [] := by
      simp only [fetchFrom, hfind]
      rw [if_pos ⟨hlast, by omega⟩]
    have hwords : words b.vaBase n = toWords (bytes b.vaBase (appendOffset pkt.availBufSize)) := by
      rw [toWords_bytes, appendOffset_eq h.capacity.le, hn, Nat.mul_div_cancel_left _ (by decide)]
    rw [hstop, map_get_range', hwords] at hslots
    simpa [payloadBytes] using hslots
  | cons b' rest ih =>
    have hbuf' : pkt.buf = (pre ++ [b]) ++ b' :: rest := by simp [hbuf]
    have hfind' := find?_paBase haddr.nodup hbuf'
    have hnotlast := lastAt_eq_false haddr.nodup hbuf
    have hlink : b.get (cmdqCmdBufferSize - cmdqInstSize) = linkJump shift b'.paBase := by
      have hchain := h.linked
      rw [hbuf, isChain_append] at hchain
      exact (isChain_cons_cons.mp hchain.2.1).1
    have hmem' : b'.paBase ∈ pkt.buf.map (·.paBase) := by simp [hbuf]
    have htarget := jumpTarget_linkJump (haddr.aligned _ hmem') (haddr.below _ hmem')
    have hslots := fetchFrom_slots shift hfind 479 0
      (fuel + 1 + (480 * rest.length + n) + 1) (fun j _ _ => by simp [hnotlast])
      (fun j _ hj => by simp; omega)
    have hjump : fetchFrom shift pkt (fuel + 1 + (480 * rest.length + n) + 1) b.paBase
        (8 * (0 + 479)) = some (toWords (payloadBytes pkt.availBufSize (b' :: rest))) := by
      rw [← ih (pre ++ [b]) b' hbuf' hfind', fetchFrom, hfind]
      have hpos : 8 * (0 + 479) = cmdqCmdBufferSize - cmdqInstSize := rfl
      rw [hpos]
      simp only [hnotlast, hlink, htarget]
      simp
    have hwords : words b.vaBase 479 = toWords (bytes b.vaBase payloadSize) := by
      rw [toWords_bytes]
      rfl
    rw [hjump, map_get_range', hwords, map_some, ← toWords_append (by simp)] at hslots
    rw [payloadBytes_cons_cons, ← hslots]
    congr 1
    rw [length_cons]
    omega

/-- The engine visits the words of a packet in order. -/
theorem PktRep.fetchPkt_eq {ws : List ℕ} (h : PktRep shift pkt ws)
    (haddr : AddressesOk shift (pkt.buf.map (·.paBase))) {fuel : ℕ}
    (hfuel : pkt.cmdBufSize / 8 < fuel) : fetchPkt shift fuel pkt = some ws := by
  have hadd := h.size_add
  have hsize := h.bufSize_eq
  have hle := h.capacity.le
  obtain ⟨k, hk⟩ : 8 ∣ pkt.availBufSize := h.capacity.dvd
  have hpayload := h.payload_eq
  rw [CmdqPkt.payload] at hpayload
  rw [cmdqCmdBufferSize_eq] at hsize hle
  cases hbuf : pkt.buf with
  | nil =>
    rw [hbuf] at hpayload
    simp [fetchPkt, hbuf, ← hpayload, payloadBytes, toWords, words]
  | cons b rest =>
    rw [hbuf, length_cons] at hsize
    have hfetch := h.fetchFrom_suffix haddr (n := 480 - k) (by rw [cmdqCmdBufferSize_eq]; omega)
      rest [] b hbuf (fuel - 1 - (480 * rest.length + (480 - k)))
    rw [← hbuf, hpayload] at hfetch
    rw [fetchPkt, hbuf, ← hfetch]
    dsimp only
    congr 1
    omega

/-- A run of `cmdq_pkt_append_command` calls, each with the buffer allocated for it when the packet
is full. -/
def appendCommands (shift : ℕ) (calls : List (CmdqPktBuffer × CmdqInstruction))
    (pkt : CmdqPkt) : Except Errno CmdqPkt :=
  calls.foldlM (fun pkt call => cmdqPktAppendCommand shift (some call.1) call.2 pkt) pkt

theorem cmdqPktInstrEncoder_div (i : CmdqInstruction) :
    cmdqPktInstrEncoder i / 2 ^ 56 = i.code % 2 ^ 8 := by
  have hc := i.argC.toNat_lt
  have hb := i.argB.toNat_lt
  have ha := i.argA.toNat_lt
  unfold cmdqPktInstrEncoder
  omega

theorem cmdqPktInstrEncoder_lt (i : CmdqInstruction) : cmdqPktInstrEncoder i < 256 ^ 8 := by
  have hdiv := cmdqPktInstrEncoder_div i
  omega

theorem sublist_bases {mem : CmdqPktBuffer} {w : ℕ} {pkt' : CmdqPkt}
    (hok : pktAppendWord shift (some mem) w pkt = .ok pkt') :
    (pkt.buf.map (·.paBase)).Sublist (pkt'.buf.map (·.paBase)) := by
  obtain ⟨_, hok', hbases⟩ := pktAppendWord_ok shift mem w pkt
  obtain rfl := Except.ok.inj (hok.symm.trans hok')
  rw [hbases, basesAfter]
  split_ifs
  · exact sublist_append_left _ _
  · exact List.Sublist.refl _

/-- A run of appends succeeds and represents its instructions. -/
theorem appendCommands_rep (shift : ℕ) (calls : List (CmdqPktBuffer × CmdqInstruction)) :
    ∃ pkt, appendCommands shift calls cmdqPktCreate = .ok pkt ∧
      (AddressesOk shift (pkt.buf.map (·.paBase)) →
        PktRep shift pkt (calls.map fun call => cmdqPktInstrEncoder call.2) ∧
        (pkt.buf.length ≤ 1 ∨ pkt.availBufSize ≤ 3824)) := by
  induction calls using reverseRecOn with
  | nil => exact ⟨cmdqPktCreate, rfl, fun _ => ⟨pktRep_create shift, Or.inl (zero_le 1)⟩⟩
  | append_singleton calls call ih =>
    obtain ⟨pkt, hrun, hrep⟩ := ih
    obtain ⟨pkt', hok, -⟩ :=
      pktAppendWord_ok shift call.1 (cmdqPktInstrEncoder call.2) pkt
    refine ⟨pkt', ?_, fun haddr => ?_⟩
    · rw [appendCommands] at hrun ⊢
      rw [foldlM_append, hrun]
      simp only [bind, Except.bind, foldlM_cons, cmdqPktAppendCommand, hok]
      rfl
    · have hold := haddr.sublist (sublist_bases hok)
      have hlen := hold.length_le
      rw [length_map] at hlen
      rw [map_append]
      obtain ⟨h, htail⟩ := hrep hold
      exact ⟨h.appendWord (by rw [cmdqCmdBufferSize_eq]; omega) (cmdqPktInstrEncoder_lt call.2) hok,
        h.capacity.tail htail hok⟩

/-- Fetching a packet built by any sequence of appends visits exactly the appended instructions, in
append order, and the size counters account for every buffer. -/
theorem appendCommands_fetched (shift : ℕ) (calls : List (CmdqPktBuffer × CmdqInstruction)) :
    ∃ pkt, appendCommands shift calls cmdqPktCreate = .ok pkt ∧
      (AddressesOk shift (pkt.buf.map (·.paBase)) →
        (∀ fuel, pkt.cmdBufSize / 8 < fuel → fetchPkt shift fuel pkt =
          some (calls.map fun call => cmdqPktInstrEncoder call.2)) ∧
        pkt.cmdBufSize + pkt.availBufSize = pkt.bufSize ∧
        pkt.bufSize = pkt.buf.length * cmdqCmdBufferSize ∧
        pkt.availBufSize < cmdqCmdBufferSize + 1) := by
  obtain ⟨pkt, hrun, hrep⟩ := appendCommands_rep shift calls
  refine ⟨pkt, hrun, fun haddr => ?_⟩
  have h := (hrep haddr).1
  exact ⟨fun fuel hfuel => h.fetchPkt_eq haddr hfuel, h.size_add, h.bufSize_eq,
    lt_succ_of_le h.capacity.le⟩

/-- A zeroed buffer at the given address. -/
def zeroedBuffer (pa : ℕ) : CmdqPktBuffer where
  vaBase := fun _ => 0
  paBase := pa
  usePool := true

/-- A write of the constant `v` to the register numbered `reg`. -/
def writeInstruction (reg v : UInt16) : CmdqInstruction where
  argC := v
  argB := 0
  argA := reg
  sOp := 0
  argCType := 0
  argBType := 0
  argAType := 0
  code := CmdqCode.writeS.val

/-- One command more than a buffer holds. -/
def overflowingCalls : List (CmdqPktBuffer × CmdqInstruction) :=
  replicate 480 (zeroedBuffer 0x1000, writeInstruction 5 1) ++
    [(zeroedBuffer 0x2000, writeInstruction 6 2)]

/-- The last of 481 appends to a fresh packet allocates a second buffer: the engine comes over the
jump to it and visits the commands in their order. -/
theorem appendCommands_fetched_overflowing : ∃ pkt,
    appendCommands 3 overflowingCalls cmdqPktCreate = .ok pkt ∧
    pkt.buf.map (·.paBase) = [0x1000, 0x2000] ∧ AddressesOk 3 (pkt.buf.map (·.paBase)) ∧
    pkt.cmdBufSize = 3856 ∧ fetchPkt 3 483 pkt =
      some (replicate 480 0x9000000500000001 ++ [0x9000000600000002]) := by
  obtain ⟨pkt, hrun, hfetched⟩ := appendCommands_fetched 3 overflowingCalls
  have heval : (appendCommands 3 overflowingCalls cmdqPktCreate).toOption.map
      (fun pkt => (pkt.buf.map (·.paBase), pkt.cmdBufSize)) = some ([0x1000, 0x2000], 3856) := by
    decide +kernel
  have hwords : (overflowingCalls.map fun call => cmdqPktInstrEncoder call.2) =
      replicate 480 0x9000000500000001 ++ [0x9000000600000002] := by
    rw [overflowingCalls, map_append, map_replicate]
    rfl
  rw [hrun] at heval
  simp only [Except.toOption, map_some, some.injEq, Prod.mk.injEq] at heval
  obtain ⟨hbases, hcmd⟩ := heval
  have haddr : AddressesOk 3 (pkt.buf.map (·.paBase)) := by
    rw [hbases]
    exact ⟨by decide, by decide, by decide⟩
  refine ⟨pkt, hrun, hbases, haddr, hcmd, ?_⟩
  rw [← hwords]
  exact (hfetched haddr).1 483 (by omega)

end Mt8169.Cmdq
