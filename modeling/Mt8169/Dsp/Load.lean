import Mt8169.Lib.ByteMemory
import Mt8169.Lib.MachineInt

/-!
# Loading a firmware image

`adfLoad_init` copies the header of an image, with an entry for each section, into a block that is
allocated for the first image and kept, loads the binary sections, and clears a block for each of
the sections `STA`, `CLI` and `LOG`, which are allocated once as well. The definitions follow
`load.c` and `fwheader.h` of the DSP framework. The memory accesses of a call are recorded with the
size of the image or block they go to.
-/

namespace Mt8169.Dsp

open ByteMemory MachineInt List

/-- The sections that get a block of their own. -/
inductive DataBlock where
  | sta | cli | log
  deriving DecidableEq, Repr

instance {P : DataBlock → Prop} [DecidablePred P] : Decidable (∀ b, P b) :=
  decidable_of_iff (P .sta ∧ P .cli ∧ P .log)
    ⟨fun ⟨hsta, hcli, hlog⟩ b => by cases b <;> assumption, fun h => ⟨h _, h _, h _⟩⟩

/-- An allocated block; the address 0 is `NULL`. -/
structure Block where
  addr : ℕ
  size : ℕ
  deriving DecidableEq, Repr

/-- `adfDspPriv_t`: the block of `dspHeader` with the bytes from its address on, and the other
blocks. -/
structure DspPriv where
  header : Block
  headerMem : Mem
  data : DataBlock → Block

/-- No block is allocated. -/
def DspPriv.empty : DspPriv := ⟨⟨0, 0⟩, fun _ => 0, fun _ => ⟨0, 0⟩⟩

/-- An access to the `len` bytes from `off` on; `limit` is the size of the image or block. -/
structure Access where
  off : ℕ
  len : ℕ
  limit : ℕ
  deriving DecidableEq, Repr

/-- All bytes of the access are in the image or block. -/
def Access.Inside (a : Access) : Prop := a.len = 0 ∨ a.off + a.len ≤ a.limit
  deriving Decidable

/-- A firmware image: the bytes from `src` on and the `uint32_t` value `size`. -/
structure Image where
  src : Mem
  size : ℕ
  size_lt : size < 2 ^ 32

/-- What the call meets: the addresses that `kmalloc` returns for the header, with the bytes found
there, and for the data of section `i`, and the results of `binCpy`, if there is one. -/
structure LoadEnv where
  headerAddr : ℕ
  headerMem : Mem
  dataAddr : ℕ → ℕ
  binCpy : Option (ℕ → Bool)

/-- `ADF_FW_HDRLEN`. -/
def hdrLen : ℕ := 0x80

/-- The offset of the entry of the section `i`. -/
def infoAt (i : ℕ) : ℕ := hdrLen + 32 * i

/-- The field `seccnt` of a header. -/
def secCnt (m : Mem) : ℕ := readLE m 4 4

/-- The field `size` of the section `i`. -/
def secSize (m : Mem) (i : ℕ) : ℕ := readLE m (infoAt i + 8) 4

/-- The field `offset` of the section `i`. -/
def secOffset (m : Mem) (i : ℕ) : ℕ := readLE m (infoAt i + 12) 4

/-- The field `data` of the section `i`. -/
def secData (m : Mem) (i : ℕ) : ℕ := readLE m (infoAt i + 16) 8

/-- What `adfLoad_init` distinguishes by the name of a section. -/
inductive SecKind where
  | bin
  | data (b : DataBlock)
  | other
  deriving DecidableEq, Repr

/-- The comparisons of the name of the section `i`. -/
def secKind (m : Mem) (i : ℕ) : SecKind :=
  let name := (range 4).map fun k => m (infoAt i + k)
  if name = [66, 73, 78, 0] then .bin
  else if name = [83, 84, 65, 0] then .data .sta
  else if name = [67, 76, 73, 0] then .data .cli
  else if name = [76, 79, 71, 0] then .data .log
  else .other

/-- `headerSize` of an image. -/
def Image.headerSize (img : Image) : ℕ := u32 (hdrLen + secCnt img.src * 32 : ℕ)

/-- The variables of a call: the private data, `binSize`, and the accesses so far. -/
structure LoadState where
  priv : DspPriv
  binSize : ℕ
  trace : List Access

variable (m : Mem) (env : LoadEnv) (st : LoadState) (img : Image) (i : ℕ)

/-- Record an access. -/
def LoadState.access (a : Access) : LoadState :=
  { st with trace := st.trace ++ [a] }

/-- Set the field `data` of the section `i`. -/
def LoadState.setData (addr : ℕ) : LoadState :=
  { st.access ⟨infoAt i + 16, 8, st.priv.header.size⟩ with
    priv := { st.priv with headerMem := writeLE st.priv.headerMem (infoAt i + 16) 8 addr } }

/-- Allocate the block of the section `i`, unless there is one. -/
def LoadState.allocData (env : LoadEnv) (i : ℕ) (b : DataBlock) : LoadState :=
  if (st.priv.data b).addr = 0 then
    { st with priv := { st.priv with
        data := Function.update st.priv.data b ⟨env.dataAddr i, secSize st.priv.headerMem i⟩ } }
  else st

/-- One round of the loop over the sections, and whether the loop goes on. -/
def loadSection (st : LoadState) (i : ℕ) : LoadState × Bool :=
  match secKind st.priv.headerMem i with
  | .bin =>
    let len := secSize st.priv.headerMem i
    let st := { st with binSize := u32 (st.binSize + len : ℕ) }
    match env.binCpy with
    | none => (st, false)
    | some cpy => (st.access ⟨secOffset st.priv.headerMem i, len, img.size⟩, cpy i)
  | .data b =>
    let st := (st.setData i 0).allocData env i b
    let st := st.setData i (st.priv.data b).addr
    if (st.priv.data b).addr = 0 then (st, false)
    else (st.access ⟨0, secSize st.priv.headerMem i, (st.priv.data b).size⟩, true)
  | .other => (st, true)

/-- The loop over the sections. -/
def loadSections (env : LoadEnv) (img : Image) : LoadState → List ℕ → LoadState × Bool
  | st, [] => (st, true)
  | st, i :: is =>
    match loadSection env img st i with
    | (st, true) => loadSections env img st is
    | (st, false) => (st, false)

/-- The loop of the error path over the sections. -/
def freeSections : LoadState → List ℕ → LoadState
  | st, [] => st
  | st, i :: is =>
    if secData st.priv.headerMem i ≠ 0 then freeSections (st.setData i 0) is
    else freeSections st is

/-- The error path. -/
def loadError : LoadState :=
  if st.priv.header.addr ≠ 0 then
    let st := freeSections st (range (secCnt st.priv.headerMem))
    { st with priv := { DspPriv.empty with headerMem := st.priv.headerMem } }
  else st

/-- The call up to the allocation of the header. -/
def loadStart (p : DspPriv) : LoadState :=
  let st : LoadState :=
    ⟨p, 0, [⟨16, 15, img.size⟩, ⟨8, 8, img.size⟩, ⟨4, 4, img.size⟩]⟩
  if p.header.addr = 0 then
    { st with priv := { p with
        header := ⟨env.headerAddr, (img.headerSize + 7) / 8 * 8⟩
        headerMem := env.headerMem } }
  else st

/-- The copy of the header. -/
def copyHeader (st : LoadState) : LoadState :=
  let st := st.access ⟨0, img.headerSize, img.size⟩
  let st := st.access ⟨0, img.headerSize, st.priv.header.size⟩
  { st with priv := { st.priv with
      headerMem := fun p => if p < img.headerSize then img.src p else st.priv.headerMem p } }

/-- `adfLoad_init`: the state at its end. -/
def adfLoadInit (p : DspPriv) : LoadState :=
  let st := loadStart env img p
  if st.priv.header.addr = 0 then loadError st
  else
    let st := copyHeader img st
    match loadSections env img st (range (secCnt st.priv.headerMem)) with
    | (st, false) => loadError st
    | (st, true) =>
      if img.size ≠ u32 (img.headerSize + st.binSize : ℕ) then loadError st else st

end Mt8169.Dsp
