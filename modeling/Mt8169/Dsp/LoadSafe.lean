import Mt8169.Dsp.Load
import Mt8169.Lib.Runs

/-!
# Memory safety of loading

All accesses of `adfLoad_init` are in the image and in the allocated blocks if the image is large
enough for its header and its binary sections, and the blocks left by earlier images are large
enough for the header and the other sections. Nothing in `adfLoad_init` checks this.
-/

namespace Mt8169.Dsp

open ByteMemory MachineInt Runs LoadState Dsp List Function

/-- The end of the header of an image, without wrap-around. -/
def Image.headerEnd (img : Image) : ℕ := infoAt (secCnt img.src)

/-- The size of the block for `b`: the one that is there, or the one allocated for the first
section. -/
def capacity (data : DataBlock → Block) (m : Mem) (is : List ℕ) (b : DataBlock) : ℕ :=
  if (data b).addr ≠ 0 then (data b).size
  else ((is.find? fun i => secKind m i = .data b).map (secSize m)).getD 0

/-- The binary sections are in the image, and the other ones fit into their blocks. -/
def SectionsFit (data : DataBlock → Block) (m : Mem) (is : List ℕ) (size : ℕ) : Prop :=
  ∀ i ∈ is, (secKind m i = .bin → secSize m i = 0 ∨ secOffset m i + secSize m i ≤ size) ∧
    ∀ b, secKind m i = .data b → secSize m i ≤ capacity data m is b

/-- The image has its whole header, which fits into the block that is there, and the sections
fit. -/
def Image.Fits (img : Image) (p : DspPriv) : Prop :=
  img.headerEnd ≤ img.size ∧ (p.header.addr ≠ 0 → img.headerEnd ≤ p.header.size) ∧
    SectionsFit p.data img.src (range (secCnt img.src)) img.size

instance (img : Image) (p : DspPriv) : Decidable (img.Fits p) :=
  inferInstanceAs (Decidable (_ ∧ (_ → _) ∧ ∀ i ∈ range _, (_ → _) ∧ ∀ _, _ → _))

/-- The copied header has the bytes of the image, but for the fields `data`. -/
def Agree (img : Image) (m : Mem) : Prop :=
  ∀ p < img.headerEnd, p < hdrLen ∨ (p - hdrLen) % 32 < 16 ∨ 24 ≤ (p - hdrLen) % 32 →
    m p = img.src p

section Header

variable {img : Image} {m : Mem} {i : ℕ}

theorem headerSize_eq (h : img.headerEnd < 2 ^ 32) : img.headerSize = img.headerEnd := by
  unfold Image.headerEnd infoAt at h ⊢
  unfold Image.headerSize
  rw [u32_natCast (by omega)]
  omega

section

variable (h : Agree img m)
include h

theorem Agree.secCnt_eq : secCnt m = secCnt img.src := by
  apply readLE_congr
  intro p hlo hhi
  exact h p (by unfold Image.headerEnd infoAt hdrLen; omega) (by unfold hdrLen; omega)

section

variable (hi : i < secCnt img.src)
include hi

theorem Agree.entry {k : ℕ} (hk : k < 16) :
    m (infoAt i + k) = img.src (infoAt i + k) := by
  unfold Agree Image.headerEnd at h
  unfold infoAt hdrLen at h ⊢
  exact h _ (by omega) (by omega)

theorem Agree.readLE_eq {k n : ℕ} (hk : k + n ≤ 16) :
    readLE m (infoAt i + k) n = readLE img.src (infoAt i + k) n := by
  apply readLE_congr
  intro p hlo hhi
  obtain ⟨k, rfl⟩ := Nat.exists_eq_add_of_le (by omega : infoAt i ≤ p)
  exact h.entry hi (by omega)

theorem Agree.secSize_eq : secSize m i = secSize img.src i := h.readLE_eq hi (by decide)

theorem Agree.secOffset_eq : secOffset m i = secOffset img.src i := h.readLE_eq hi (by decide)

theorem Agree.secKind_eq : secKind m i = secKind img.src i := by
  have hname : (range 4).map (fun k => m (infoAt i + k)) =
      (range 4).map fun k => img.src (infoAt i + k) := by
    apply map_congr_left
    intro k hk
    exact h.entry hi (by have := mem_range.mp hk; omega)
  unfold secKind
  rw [hname]

end

theorem Agree.setData (i addr : ℕ) : Agree img (writeLE m (infoAt i + 16) 8 addr) := by
  intro p hp hfield
  rw [writeLE, if_neg]
  · exact h p hp hfield
  · unfold infoAt
    omega

end

theorem agree_copy (hend : img.headerEnd < 2 ^ 32) :
    Agree img (fun p => if p < img.headerSize then img.src p else m p) := by
  intro p hp _
  rw [headerSize_eq hend]
  exact if_pos hp

end Header

section Rounds

variable {env : LoadEnv} {img : Image} {st : LoadState} {i : ℕ}

/-- The blocks after the section `i`, which needs the block `b`. -/
def allocated (env : LoadEnv) (m : Mem) (data : DataBlock → Block) (i : ℕ) (b : DataBlock) :
    DataBlock → Block :=
  if (data b).addr = 0 then update data b ⟨env.dataAddr i, secSize m i⟩ else data

/-- All accesses so far are inside. -/
def LoadState.Inside (st : LoadState) : Prop := ∀ a ∈ st.trace, a.Inside

/-- The state of the loop belongs to the image: the copied header agrees with it, and fits into its
block if all accesses were inside. -/
structure Copied (img : Image) (st : LoadState) : Prop where
  agree : Agree img st.priv.headerMem
  fits : st.Inside → img.headerEnd ≤ st.priv.header.size

theorem inside_congr {st' : LoadState} (h : st.trace = st'.trace) : st.Inside ↔ st'.Inside := by
  rw [Inside, Inside, h]

theorem inside_access {a : Access} : (st.access a).Inside ↔ st.Inside ∧ a.Inside := by
  simp [Inside, access, or_imp, forall_and]

section

variable (h : Copied img st)
include h

theorem Copied.inside_setData (hi : i < secCnt img.src) (addr : ℕ) :
    (st.setData i addr).Inside ↔ st.Inside := by
  have haccess := @inside_access st ⟨infoAt i + 16, 8, st.priv.header.size⟩
  refine ⟨fun hst => (haccess.mp hst).1, fun hst => haccess.mpr ⟨hst, Or.inr ?_⟩⟩
  have hfits := h.fits hst
  unfold Image.headerEnd infoAt at hfits
  unfold infoAt
  dsimp only
  omega

theorem Copied.setData (hi : i < secCnt img.src) (addr : ℕ) : Copied img (st.setData i addr) :=
  ⟨h.agree.setData i addr, fun hst => h.fits ((h.inside_setData hi addr).mp hst)⟩

theorem Copied.allocData (env : LoadEnv) (i : ℕ) (b : DataBlock) :
    Copied img (st.allocData env i b) := by
  unfold LoadState.allocData
  split
  · exact { h with }
  · exact h

theorem Copied.prepare (env : LoadEnv) (hi : i < secCnt img.src) (b : DataBlock) :
    let st' := ((st.setData i 0).allocData env i b).setData i
      (((st.setData i 0).allocData env i b).priv.data b).addr
    Copied img st' ∧ st'.priv.data = allocated env img.src st.priv.data i b ∧
      (st'.Inside ↔ st.Inside) := by
  have hset := h.setData hi 0
  have halloc := hset.allocData env i b
  have hsize := hset.agree.secSize_eq hi
  refine ⟨halloc.setData hi _, ?_, ?_⟩
  · show ((st.setData i 0).allocData env i b).priv.data = _
    unfold LoadState.allocData allocated
    rw [hsize, apply_ite LoadState.priv, apply_ite DspPriv.data]
    rfl
  · have hsame : ((st.setData i 0).allocData env i b).trace = (st.setData i 0).trace := by
      unfold LoadState.allocData
      split <;> rfl
    rw [halloc.inside_setData hi, LoadState.Inside, hsame]
    exact h.inside_setData hi 0

end

end Rounds

section Capacities

variable {data : DataBlock → Block} {m : Mem} {is : List ℕ} {i : ℕ} {b : DataBlock}

theorem capacity_cons_of_ne (h : secKind m i ≠ .data b) :
    capacity data m (i :: is) b = capacity data m is b := by
  unfold capacity
  rw [find?_cons_of_neg (by simpa using h)]

theorem capacity_allocated {env : LoadEnv} (h : secKind m i = .data b)
    (haddr : (allocated env m data i b b).addr ≠ 0) (b' : DataBlock) :
    capacity (allocated env m data i b) m is b' = capacity data m (i :: is) b' := by
  by_cases hb : b' = b
  · subst hb
    have hfind : (i :: is).find? (fun i => secKind m i = .data b') = some i :=
      find?_cons_of_pos (by simpa using h)
    unfold capacity
    rw [if_pos haddr, hfind]
    unfold allocated
    by_cases hnull : (data b').addr = 0
    · rw [if_pos hnull, if_neg (not_not.mpr hnull), update_self]
      rfl
    · rw [if_neg hnull, if_pos hnull]
  · have hkind : secKind m i ≠ .data b' := by
      rw [h]
      exact fun heq => hb (SecKind.data.inj heq).symm
    have hsame : allocated env m data i b b' = data b' := by
      unfold allocated
      split
      · exact update_of_ne hb _ _
      · rfl
    rw [capacity_cons_of_ne hkind]
    unfold capacity
    rw [hsame]

theorem size_allocated {env : LoadEnv} (h : secKind m i = .data b)
    (haddr : (allocated env m data i b b).addr ≠ 0) (is : List ℕ) :
    (allocated env m data i b b).size = capacity data m (i :: is) b := by
  rw [← capacity_allocated h haddr]
  exact (if_pos haddr).symm

/-- The first of the sections is in the image or fits into its block. -/
def FirstFits (data : DataBlock → Block) (m : Mem) (i : ℕ) (is : List ℕ) (size : ℕ) : Prop :=
  (secKind m i = .bin → secSize m i = 0 ∨ secOffset m i + secSize m i ≤ size) ∧
    ∀ b, secKind m i = .data b → secSize m i ≤ capacity data m (i :: is) b

theorem sectionsFit_cons {data' : DataBlock → Block} (size : ℕ)
    (hcap : ∀ b, capacity data' m is b = capacity data m (i :: is) b) :
    SectionsFit data m (i :: is) size ↔
      FirstFits data m i is size ∧ SectionsFit data' m is size := by
  unfold SectionsFit
  rw [forall_mem_cons]
  simp only [hcap]
  exact Iff.rfl

end Capacities

section Loop

variable {env : LoadEnv} {img : Image} {st : LoadState} {i : ℕ} {is : List ℕ}

/-- The allocations succeed, and so do the copies of binary sections. -/
structure LoadEnv.Succeeds (env : LoadEnv) : Prop where
  header : env.headerAddr ≠ 0
  data : ∀ i, env.dataAddr i ≠ 0
  binCpy : env.binCpy = some fun _ => true

/-- A round with the section `i`, before the sections `is`. -/
structure Round (env : LoadEnv) (img : Image) (st : LoadState) (i : ℕ) (is : List ℕ)
    (st' : LoadState) (go : Bool) : Prop where
  copied : Copied img st'
  inside : st.Inside → FirstFits st.priv.data img.src i is img.size → st'.Inside
  capacities : go = true → ∀ b,
    capacity st'.priv.data img.src is b = capacity st.priv.data img.src (i :: is) b
  back : go = true → st'.Inside → st.Inside ∧ FirstFits st.priv.data img.src i is img.size
  goesOn : env.Succeeds → go = true

/-- A section whose copy is one access goes on as that access does. -/
theorem Round.of_access {st' : LoadState} {x : Access} {go : Bool} (h' : Copied img st')
    (hcap : ∀ b, capacity st'.priv.data img.src is b = capacity st.priv.data img.src (i :: is) b)
    (hiff : (st'.access x).Inside ↔ st.Inside ∧ FirstFits st.priv.data img.src i is img.size)
    (hgo : env.Succeeds → go = true) : Round env img st i is (st'.access x) go :=
  ⟨⟨h'.agree, fun hst => h'.fits (inside_access.mp hst).1⟩, fun hst hfit => hiff.mpr ⟨hst, hfit⟩,
    fun _ => hcap, fun _ => hiff.mp, hgo⟩

section

variable (h : Copied img st)
include h

/-- A round for the binary. -/
theorem Copied.round_bin (env : LoadEnv) (hi : i < secCnt img.src)
    (hkind : secKind img.src i = .bin) (is : List ℕ) :
    Round env img st i is (loadSection env img st i).1 (loadSection env img st i).2 := by
  unfold Dsp.loadSection
  rw [h.agree.secKind_eq hi, hkind]
  dsimp only
  cases hcpy : env.binCpy with
  | none =>
    refine ⟨{ h with }, fun hst _ => hst, nofun, nofun, fun hok => ?_⟩
    rw [hok.binCpy] at hcpy
    cases hcpy
  | some cpy =>
    rw [h.agree.secSize_eq hi, h.agree.secOffset_eq hi]
    refine .of_access { h with } (fun b => (capacity_cons_of_ne (by rw [hkind]; simp)).symm)
      (inside_access.trans (and_congr_right fun _ => ?_)) fun hok => ?_
    · simp [Access.Inside, FirstFits, hkind]
    · rw [hok.binCpy] at hcpy
      cases hcpy
      rfl

/-- A round for a block of data. -/
theorem Copied.round_data (env : LoadEnv) (hi : i < secCnt img.src) {b : DataBlock}
    (hkind : secKind img.src i = .data b) (is : List ℕ) :
    Round env img st i is (loadSection env img st i).1 (loadSection env img st i).2 := by
  unfold Dsp.loadSection
  rw [h.agree.secKind_eq hi, hkind]
  obtain ⟨hcopied, hdata, hinside⟩ := h.prepare env hi b
  dsimp only
  generalize ((st.setData i 0).allocData env i b).setData i
    (((st.setData i 0).allocData env i b).priv.data b).addr = st' at hcopied hdata hinside ⊢
  rw [hdata]
  split
  · rename_i hnull
    refine ⟨hcopied, fun hst _ => hinside.mpr hst, nofun, nofun, fun hok => ?_⟩
    unfold allocated at hnull
    by_cases hold : (st.priv.data b).addr = 0
    · rw [if_pos hold, update_self] at hnull
      exact absurd hnull (hok.data i)
    · rw [if_neg hold] at hnull
      exact absurd hnull hold
  · rename_i haddr
    have hfits : FirstFits st.priv.data img.src i is img.size ↔
        secSize img.src i ≤ (allocated env img.src st.priv.data i b b).size := by
      rw [size_allocated hkind haddr is]
      simp [FirstFits, hkind]
    refine .of_access hcopied (fun b' => ?_) ?_ fun _ => rfl
    · rw [← capacity_allocated hkind haddr, ← hdata]
    · rw [inside_access, hinside, hcopied.agree.secSize_eq hi, hfits]
      unfold Access.Inside
      dsimp only
      apply and_congr_right
      intro _
      omega

/-- A round of the loop is inside if its section fits. -/
theorem Copied.round (env : LoadEnv) (hi : i < secCnt img.src) (is : List ℕ) :
    Round env img st i is (loadSection env img st i).1 (loadSection env img st i).2 := by
  cases hkind : secKind img.src i with
  | bin => exact h.round_bin env hi hkind is
  | data b => exact h.round_data env hi hkind is
  | other =>
    unfold Dsp.loadSection
    rw [h.agree.secKind_eq hi, hkind]
    have hfits : FirstFits st.priv.data img.src i is img.size := by simp [FirstFits, hkind]
    refine ⟨h, fun hst _ => hst, fun _ b => ?_, fun _ hst => ⟨hst, hfits⟩, fun _ => rfl⟩
    exact (capacity_cons_of_ne (by rw [hkind]; simp)).symm

/-- The loop is inside if all sections fit, and only then if the calls succeed. -/
theorem Copied.loadSections (env : LoadEnv) (his : ∀ i ∈ is, i < secCnt img.src) :
    Copied img (loadSections env img st is).1 ∧
      (st.Inside → SectionsFit st.priv.data img.src is img.size →
        (loadSections env img st is).1.Inside) ∧
      (env.Succeeds → (loadSections env img st is).1.Inside →
        st.Inside ∧ SectionsFit st.priv.data img.src is img.size) := by
  induction is generalizing st with
  | nil => exact ⟨h, fun hin _ => hin, fun _ hin => ⟨hin, fun i hi => absurd hi not_mem_nil⟩⟩
  | cons i is ih =>
    have hround := h.round env (his i mem_cons_self) is
    unfold Dsp.loadSections
    rcases hrun : Dsp.loadSection env img st i with ⟨st', go⟩
    rw [hrun] at hround
    cases go with
    | false =>
      refine ⟨hround.copied, fun hin hfit => ?_, fun hok => nomatch hround.goesOn hok⟩
      exact hround.inside hin (hfit i mem_cons_self)
    | true =>
      have hcons := sectionsFit_cons img.size (hround.capacities rfl)
      obtain ⟨hcopied, hinside, hback⟩ :=
        ih hround.copied fun j hj => his j (mem_cons_of_mem _ hj)
      refine ⟨hcopied, fun hin hfit => ?_, fun hok hin => ?_⟩
      · obtain ⟨hfirst, hrest⟩ := hcons.mp hfit
        exact hinside (hround.inside hin hfirst) hrest
      · obtain ⟨hin', hrest⟩ := hback hok hin
        obtain ⟨hst, hfirst⟩ := hround.back rfl hin'
        exact ⟨hst, hcons.mpr ⟨hfirst, hrest⟩⟩

theorem Copied.inside_freeSections (his : ∀ i ∈ is, i < secCnt img.src) :
    (freeSections st is).Inside ↔ st.Inside := by
  induction is generalizing st with
  | nil => exact Iff.rfl
  | cons i is ih =>
    have hi := his i mem_cons_self
    have his' : ∀ j ∈ is, j < secCnt img.src := fun j hj => his j (mem_cons_of_mem _ hj)
    unfold freeSections
    split
    · rw [ih (h.setData hi 0) his', h.inside_setData hi]
    · exact ih h his'

end

theorem trace_loadError (haddr : st.priv.header.addr ≠ 0) :
    (loadError st).trace = (freeSections st (range (secCnt st.priv.headerMem))).trace := by
  simp only [loadError, if_pos haddr]

theorem loadError_of_null (haddr : st.priv.header.addr = 0) : loadError st = st := by
  rw [loadError, if_neg (not_not.mpr haddr)]

/-- The error path makes no access outside. -/
theorem Copied.inside_loadError (h : Copied img st) : (loadError st).Inside ↔ st.Inside := by
  by_cases haddr : st.priv.header.addr = 0
  · rw [loadError_of_null haddr]
  · rw [inside_congr (trace_loadError haddr)]
    apply h.inside_freeSections
    intro i hi
    rw [← h.agree.secCnt_eq]
    exact mem_range.mp hi

end Loop

section Calls

variable {env : LoadEnv} {img : Image} {p : DspPriv} {st : LoadState}

theorem inside_loadStart (h : 31 ≤ img.size) : (loadStart env img p).Inside := by
  have hreads : ∀ a ∈ [(⟨16, 15, img.size⟩ : Access), ⟨8, 8, img.size⟩,
      ⟨4, 4, img.size⟩], a.Inside := by
    simp only [forall_mem_cons, Access.Inside]
    refine ⟨Or.inr h, Or.inr (by omega), Or.inr (by omega), fun a ha => absurd ha (by simp)⟩
  unfold loadStart
  dsimp only
  split <;> exact hreads

theorem loadStart_header :
    (loadStart env img p).priv.header =
      if p.header.addr = 0 then ⟨env.headerAddr, (img.headerSize + 7) / 8 * 8⟩ else p.header := by
  unfold loadStart
  dsimp only
  split <;> rfl

theorem loadStart_data : (loadStart env img p).priv.data = p.data := by
  unfold loadStart
  dsimp only
  split <;> rfl

theorem trace_copyHeader :
    (copyHeader img st).trace = ((st.access ⟨0, img.headerSize, img.size⟩).access
      ⟨0, img.headerSize, st.priv.header.size⟩).trace := by
  simp only [copyHeader, access]

theorem copyHeader_headerMem : (copyHeader img st).priv.headerMem =
    fun p => if p < img.headerSize then img.src p else st.priv.headerMem p := by
  simp only [copyHeader, access]

theorem copyHeader_header : (copyHeader img st).priv.header = st.priv.header := by
  simp only [copyHeader, access]

theorem copyHeader_data : (copyHeader img st).priv.data = st.priv.data := by
  simp only [copyHeader, access]

/-- The copy of the header is inside if image and buffer hold it. -/
theorem inside_copyHeader (hend : img.headerEnd < 2 ^ 32) :
    (copyHeader img st).Inside ↔
      st.Inside ∧ img.headerEnd ≤ img.size ∧ img.headerEnd ≤ st.priv.header.size := by
  rw [inside_congr trace_copyHeader, inside_access, inside_access, headerSize_eq hend, and_assoc]
  have hpos : 0 < img.headerEnd := by
    unfold Image.headerEnd infoAt hdrLen
    omega
  unfold Access.Inside
  dsimp only
  apply and_congr_right
  intro _
  omega

theorem copied_copyHeader (hend : img.headerEnd < 2 ^ 32) : Copied img (copyHeader img st) := by
  constructor
  · rw [copyHeader_headerMem]
    exact agree_copy hend
  · rw [copyHeader_header, inside_copyHeader hend]
    exact fun h => h.2.2

theorem copied_loadSections (env : LoadEnv) (p : DspPriv) (hend : img.headerEnd < 2 ^ 32) :
    Copied img (loadSections env img (copyHeader img (loadStart env img p))
      (range (secCnt img.src))).1 :=
  ((copied_copyHeader hend).loadSections env fun _ hi => mem_range.mp hi).1

/-- Whether all accesses are inside is settled by the loop. -/
theorem inside_adfLoadInit_iff (haddr : (loadStart env img p).priv.header.addr ≠ 0)
    (hend : img.headerEnd < 2 ^ 32) :
    (adfLoadInit env img p).Inside ↔
      (loadSections env img (copyHeader img (loadStart env img p))
        (range (secCnt img.src))).1.Inside := by
  have hloop := copied_loadSections env p hend
  unfold adfLoadInit
  dsimp only
  rw [if_neg haddr, (copied_copyHeader hend).agree.secCnt_eq]
  rcases hrun : loadSections env img (copyHeader img (loadStart env img p))
    (range (secCnt img.src)) with ⟨st', go⟩
  rw [hrun] at hloop
  cases go with
  | false => exact hloop.inside_loadError
  | true =>
    dsimp only
    split
    · exact hloop.inside_loadError
    · exact Iff.rfl

/-- An image that fits is loaded without an access outside. -/
theorem inside_of_fits (h : img.Fits p) (env : LoadEnv) : (adfLoadInit env img p).Inside := by
  obtain ⟨himage, hblock, hsections⟩ := h
  have hsize := img.size_lt
  have hend : img.headerEnd < 2 ^ 32 := by omega
  have hstart : (loadStart env img p).Inside := by
    apply inside_loadStart
    unfold Image.headerEnd infoAt hdrLen at himage
    omega
  by_cases haddr : (loadStart env img p).priv.header.addr = 0
  · have herror : adfLoadInit env img p = loadStart env img p := by
      unfold adfLoadInit
      dsimp only
      rw [if_pos haddr, loadError_of_null haddr]
    rwa [herror]
  · have hfits : img.headerEnd ≤ (loadStart env img p).priv.header.size := by
      rw [loadStart_header]
      split
      · rw [headerSize_eq hend]
        dsimp only
        omega
      · rename_i hold
        exact hblock hold
    rw [inside_adfLoadInit_iff haddr hend]
    refine ((copied_copyHeader hend).loadSections env fun i hi => mem_range.mp hi).2.1
      ((inside_copyHeader hend).mpr ⟨hstart, himage, hfits⟩) ?_
    rwa [copyHeader_data, loadStart_data]

theorem fits_of_inside (hok : env.Succeeds) (hend : img.headerEnd < 2 ^ 32)
    (hin : (adfLoadInit env img p).Inside) : img.Fits p := by
  have haddr : (loadStart env img p).priv.header.addr ≠ 0 := by
    rw [loadStart_header]
    split
    · exact hok.header
    · assumption
  rw [inside_adfLoadInit_iff haddr hend] at hin
  obtain ⟨hcopy, hsections⟩ := ((copied_copyHeader hend).loadSections env
    fun i hi => mem_range.mp hi).2.2 hok hin
  obtain ⟨-, himage, hfits⟩ := (inside_copyHeader hend).mp hcopy
  rw [copyHeader_data, loadStart_data] at hsections
  refine ⟨himage, fun hold => ?_, hsections⟩
  rwa [loadStart_header, if_neg hold] at hfits

end Calls

/-- A call of `adfLoad_init`: what it meets and the image. -/
structure LoadCall where
  env : LoadEnv
  img : Image

/-- The private data after a call. -/
def DspPriv.load (p : DspPriv) (c : LoadCall) : DspPriv := (adfLoadInit c.env c.img p).priv

/-- All reads of a call are in the image, and all its writes in the allocated blocks. -/
def DspPriv.CallSafe (p : DspPriv) (c : LoadCall) : Prop := (adfLoadInit c.env c.img p).Inside

/-- The image of a call fits. -/
def DspPriv.CallFits (p : DspPriv) (c : LoadCall) : Prop := c.img.Fits p
  deriving Decidable

/-- All accesses of a run of calls are inside if every image fits when it is loaded. If nothing
fails and no header wraps, this is the only way. -/
theorem runSafe_iff (p : DspPriv) (calls : List LoadCall) :
    (RunOk DspPriv.load DspPriv.CallFits p calls → RunOk DspPriv.load DspPriv.CallSafe p calls) ∧
      ((∀ c ∈ calls, c.env.Succeeds ∧ c.img.headerEnd < 2 ^ 32) →
        RunOk DspPriv.load DspPriv.CallSafe p calls →
        RunOk DspPriv.load DspPriv.CallFits p calls) := by
  constructor
  · intro hfits
    exact hfits.good (fun _ => True) (fun q c _ h => inside_of_fits h c.env)
      (fun _ _ _ _ => trivial) trivial
  · intro hok hsafe
    induction calls generalizing p with
    | nil => trivial
    | cons c calls ih =>
      obtain ⟨hsucceeds, hend⟩ := hok c mem_cons_self
      refine ⟨fits_of_inside hsucceeds hend hsafe.1, ?_⟩
      exact ih _ (fun c' hc' => hok c' (mem_cons_of_mem _ hc')) hsafe.2

/-- The bytes of an image with one section `LOG` of the given size. -/
def logImageBytes (size : UInt8) : Mem := fun p =>
  match p with
  | 0 => 0x41
  | 1 => 0x4d
  | 2 => 0x5a
  | 3 => 0x4e
  | 4 => 1
  | 128 => 76
  | 129 => 79
  | 130 => 71
  | 136 => size
  | _ => 0

/-- An image with one section `LOG`. -/
def logImage (size : UInt8) : Image := ⟨logImageBytes size, 160, by decide⟩

/-- All allocations and copies succeed. -/
def fineEnv : LoadEnv := ⟨0x1000, fun _ => 0, fun i => 0x2000 + i, some fun _ => true⟩

/-- Loading an image with a log of 64 bytes and then one with a log of 32 bytes is safe. -/
theorem runSafe_smallerLog :
    RunOk DspPriv.load DspPriv.CallSafe DspPriv.empty
      [⟨fineEnv, logImage 64⟩, ⟨fineEnv, logImage 32⟩] :=
  (runSafe_iff _ _).1 (by decide +kernel)

/-- Loading an image with a log of 32 bytes and then one with a log of 64 bytes clears 64 bytes in
a block of 32. -/
theorem not_runSafe_largerLog :
    ¬RunOk DspPriv.load DspPriv.CallSafe DspPriv.empty
      [⟨fineEnv, logImage 32⟩, ⟨fineEnv, logImage 64⟩] := by
  rintro ⟨-, hsafe, -⟩
  have hclear := hsafe ⟨0, 64, 32⟩ (by decide +kernel)
  exact absurd hclear (by decide)

end Mt8169.Dsp
