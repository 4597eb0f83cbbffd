import Mt8169.Dsp.LoadSafe

/-!
# Checking a loaded image

`adfLoad_initCheck` reads the binary sections back and compares them with the image. It finds the
places `adfLoad_init` has copied them to, but a section that cannot be read passes.
-/

namespace Mt8169.Dsp

open ByteMemory MachineInt List

/-- The field `addr` of the section `i`. -/
def secAddr (m : Mem) (i : ℕ) : ℕ := readLE m (infoAt i + 4) 4

/-- The binary sections of a header with their addresses in `dstAddr` and `binAddr`, as the loops of
`adfLoad_init` and `adfLoad_initCheck` find them. -/
def binAddrs (m : Mem) : ℕ → ℕ → List ℕ → List (ℕ × ℕ)
  | _, _, [] => []
  | baseAddr, hostDst, i :: is =>
    if secKind m i = .bin then
      let baseAddr := if baseAddr = 0 then secAddr m i else baseAddr
      let hostDst := if hostDst = 0 then secAddr m i else hostDst
      (i, u64 (hostDst + (secAddr m i - baseAddr))) :: binAddrs m baseAddr hostDst is
    else binAddrs m baseAddr hostDst is

/-- What the check meets: the memory of the device, and for which sections `vmalloc` and `binRead`
succeed. -/
structure CheckEnv where
  device : Mem
  vmalloc : ℕ → Bool
  binRead : ℕ → Bool

/-- The section `i` is at the address `addr` of the device. -/
def Image.AtDevice (img : Image) (env : CheckEnv) (x : ℕ × ℕ) : Prop :=
  ∀ k < secSize img.src x.1, env.device (x.2 + k) = img.src (secOffset img.src x.1 + k)

instance (img : Image) (env : CheckEnv) (x : ℕ × ℕ) : Decidable (img.AtDevice env x) :=
  inferInstanceAs (Decidable (∀ k < _, _))

/-- The loop of `adfLoad_initCheck`. -/
def checkSections (img : Image) (env : CheckEnv) : ℕ → ℕ → List ℕ → Bool
  | _, _, [] => true
  | baseAddr, hostDst, i :: is =>
    if secKind img.src i = .bin then
      let baseAddr := if baseAddr = 0 then secAddr img.src i else baseAddr
      let hostDst := if hostDst = 0 then secAddr img.src i else hostDst
      let binAddr := u64 (hostDst + (secAddr img.src i - baseAddr))
      if env.vmalloc i then
        if env.binRead i ∧ ¬img.AtDevice env (i, binAddr) then false
        else checkSections img env baseAddr hostDst is
      else false
    else checkSections img env baseAddr hostDst is

/-- `adfLoad_initCheck` -/
def adfLoadInitCheck (img : Image) (dst : ℕ) (env : CheckEnv) : Bool :=
  checkSections img env 0 dst (range (secCnt img.src))

variable {img : Image} {env : CheckEnv} {lenv : LoadEnv} {p : DspPriv} {m : Mem}
  {is : List ℕ} {baseAddr hostDst : ℕ}

/-- The check looks at the sections that it can read. -/
theorem checkSections_iff : checkSections img env baseAddr hostDst is = true ↔
    ∀ x ∈ binAddrs img.src baseAddr hostDst is,
      env.vmalloc x.1 = true ∧ (env.binRead x.1 = true → img.AtDevice env x) := by
  induction is generalizing baseAddr hostDst with
  | nil => simp [checkSections, binAddrs]
  | cons i is ih =>
    rw [checkSections, binAddrs]
    split
    · rw [forall_mem_cons, ← ih]
      by_cases halloc : env.vmalloc i = true <;> by_cases hread : env.binRead i = true <;>
        simp [halloc, hread]
    · exact ih

/-- The header in memory gives the addresses of the image. -/
theorem Agree.binAddrs_eq (h : Agree img m) (his : ∀ i ∈ is, i < secCnt img.src) :
    binAddrs m baseAddr hostDst is = binAddrs img.src baseAddr hostDst is := by
  induction is generalizing baseAddr hostDst with
  | nil => rfl
  | cons i is ih =>
    obtain ⟨hi, hrest⟩ := forall_mem_cons.mp his
    have haddr : secAddr m i = secAddr img.src i := h.readLE_eq hi (by decide)
    simp only [binAddrs, h.secKind_eq hi, haddr, ih hrest]

theorem addr_loadError (st : LoadState) : (loadError st).priv.header.addr = 0 := by
  by_cases hnull : st.priv.header.addr = 0
  · rwa [loadError_of_null hnull]
  · rw [loadError, if_pos hnull]
    rfl

theorem agree_of_accepted (himage : img.headerEnd ≤ img.size)
    (haccepted : (adfLoadInit lenv img p).priv.header.addr ≠ 0) :
    Agree img (adfLoadInit lenv img p).priv.headerMem := by
  have hend := himage.trans_lt img.size_lt
  have hloop := (copied_loadSections lenv p hend).agree
  unfold adfLoadInit at haccepted ⊢
  dsimp only at haccepted ⊢
  rw [(copied_copyHeader hend).agree.secCnt_eq] at haccepted ⊢
  split at haccepted
  · exact absurd (addr_loadError _) haccepted
  · rename_i hheader
    rw [if_neg hheader]
    split at haccepted
    · exact absurd (addr_loadError _) haccepted
    · rename_i heq
      rw [heq] at hloop
      split at haccepted
      · exact absurd (addr_loadError _) haccepted
      · rename_i hsize
        rwa [if_neg hsize]

/-- The check is right exactly if all binary sections can be read, or one of them is found out
anyway. -/
theorem adfLoadInitCheck_right_iff (himage : img.headerEnd ≤ img.size)
    (haccepted : (adfLoadInit lenv img p).priv.header.addr ≠ 0) (dst : ℕ) (env : CheckEnv) :
    (adfLoadInitCheck img dst env = true →
      ∀ x ∈ binAddrs (adfLoadInit lenv img p).priv.headerMem 0 dst
        (range (secCnt (adfLoadInit lenv img p).priv.headerMem)),
        env.binRead x.1 = true ∧ img.AtDevice env x) ↔
      (∀ x ∈ binAddrs img.src 0 dst (range (secCnt img.src)), env.binRead x.1 = true) ∨
        ∃ x ∈ binAddrs img.src 0 dst (range (secCnt img.src)),
          env.vmalloc x.1 = false ∨ env.binRead x.1 = true ∧ ¬img.AtDevice env x := by
  have hagree := agree_of_accepted himage haccepted
  rw [hagree.secCnt_eq, hagree.binAddrs_eq (fun i hi => mem_range.mp hi), adfLoadInitCheck,
    checkSections_iff]
  constructor
  · intro hright
    by_cases hcheck : ∀ x ∈ binAddrs img.src 0 dst (range (secCnt img.src)),
        env.vmalloc x.1 = true ∧ (env.binRead x.1 = true → img.AtDevice env x)
    · exact Or.inl fun x hx => (hright hcheck x hx).1
    · refine Or.inr ?_
      push Not at hcheck
      obtain ⟨x, hx, hfound⟩ := hcheck
      cases halloc : env.vmalloc x.1 with
      | false => exact ⟨x, hx, Or.inl halloc⟩
      | true => exact ⟨x, hx, Or.inr (hfound halloc)⟩
  · rintro (hread | ⟨x, hx, hfound⟩) hcheck y hy
    · exact ⟨hread y hy, (hcheck y hy).2 (hread y hy)⟩
    · obtain ⟨halloc, hdevice⟩ := hcheck x hx
      rcases hfound with hnull | ⟨hread, hdiffers⟩
      · simp [hnull] at halloc
      · exact absurd (hdevice hread) hdiffers

/-- The bytes of an image with one section `BIN` of four bytes for the address 64. -/
def binImageBytes : Mem := fun p =>
  match p with
  | 4 => 1
  | 128 => 66
  | 129 => 73
  | 130 => 78
  | 132 => 64
  | 136 => 4
  | 140 => 160
  | 160 => 7
  | _ => 0

def binImage : Image := ⟨binImageBytes, 164, by decide⟩

/-- A device that holds the section. -/
def loadedDevice : CheckEnv := ⟨fun p => if p = 64 then 7 else 0, fun _ => true, fun _ => true⟩

/-- The image passes the check, and its section is on the device. -/
theorem adfLoadInitCheck_right_binImage : binImage.headerEnd ≤ binImage.size ∧
    (adfLoadInit fineEnv binImage .empty).priv.header.addr ≠ 0 ∧
    adfLoadInitCheck binImage 0 loadedDevice = true ∧
    binAddrs (adfLoadInit fineEnv binImage .empty).priv.headerMem 0 0
      (range (secCnt (adfLoadInit fineEnv binImage .empty).priv.headerMem)) = [(0, 64)] ∧
    ∀ x ∈ binAddrs (adfLoadInit fineEnv binImage .empty).priv.headerMem 0 0
      (range (secCnt (adfLoadInit fineEnv binImage .empty).priv.headerMem)),
      loadedDevice.binRead x.1 = true ∧ binImage.AtDevice loadedDevice x := by
  have himage : binImage.headerEnd ≤ binImage.size := by decide +kernel
  have haccepted : (adfLoadInit fineEnv binImage .empty).priv.header.addr ≠ 0 := by decide +kernel
  have hcheck : adfLoadInitCheck binImage 0 loadedDevice = true := by decide +kernel
  refine ⟨himage, haccepted, hcheck, by decide +kernel, ?_⟩
  exact (adfLoadInitCheck_right_iff himage haccepted 0 loadedDevice).mpr (Or.inl fun _ _ => rfl)
    hcheck

/-- A section that cannot be read, and is not there, passes. -/
theorem not_adfLoadInitCheck_right :
    (adfLoadInit fineEnv binImage .empty).priv.header.addr ≠ 0 ∧
    adfLoadInitCheck binImage 0 ⟨fun _ => 0, fun _ => true, fun _ => false⟩ = true ∧
    binAddrs (adfLoadInit fineEnv binImage .empty).priv.headerMem 0 0 [0] = [(0, 64)] ∧
    ¬binImage.AtDevice ⟨fun _ => 0, fun _ => true, fun _ => false⟩ (0, 64) := by
  decide +kernel

end Mt8169.Dsp
