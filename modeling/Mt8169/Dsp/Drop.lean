import Mt8169.Dsp.Fifo

/-!
# Dropping old bytes

A ring with a unit of dropping makes room for a write by dropping a multiple of the unit. When the
missing bytes are a multiple of it, exactly these are dropped: the write fills the buffer, its
pointers meet, and the ring looks empty.
-/

namespace Mt8169.Dsp

open CircularBuffer MachineInt Runs List Option Int

variable {α : Type*}

namespace Ringbuf

variable {r r' : Ringbuf} {m : ℤ → α} {data : List α} {len size unit : ℤ}

/-- The bytes dropped are enough, and less than a unit too many. -/
theorem dropLen_bounds (hunit : 0 < r.dropunit) {len : ℤ} (hlen : r.getFreeSize ≤ len) :
    len - r.getFreeSize ≤ r.dropLen len ∧ r.dropLen len < len - r.getFreeSize + r.dropunit := by
  unfold dropLen
  dsimp only
  rw [tmod_eq_emod_of_nonneg (by omega)]
  have hlo := emod_nonneg (len - r.getFreeSize + r.dropunit - 1) (by omega : r.dropunit ≠ 0)
  have hhi := emod_lt_of_pos (len - r.getFreeSize + r.dropunit - 1) hunit
  omega

theorem dropLen_eq_iff (hunit : 0 < r.dropunit) {len : ℤ} (hlen : r.getFreeSize ≤ len) :
    r.dropLen len = len - r.getFreeSize ↔ r.dropunit ∣ len - r.getFreeSize := by
  obtain ⟨hlo, hhi⟩ := dropLen_bounds hunit hlen
  have hdvd : r.dropunit ∣ r.dropLen len := by
    unfold dropLen
    dsimp only
    rw [tmod_eq_emod_of_nonneg (by omega)]
    exact dvd_self_sub_emod
  constructor
  · intro heq
    rwa [heq] at hdvd
  · intro hmissing
    have hzero := Int.emod_eq_zero_of_dvd (Int.dvd_sub hdvd hmissing)
    rw [emod_eq_of_lt (by omega) (by omega)] at hzero
    omega

/-- After a write the ring holds the data behind the old content without its oldest bytes, and the
drop counter has grown by their number. -/
def KeepsNewest (r : Ringbuf) (m : ℤ → α) (data : List α) : Prop :=
  ∃ r' m' n, r.write m data = some (r', m', n) ∧
    ∃ k : ℕ, k ≤ (r.content m).length ∧ r'.content m' = (r.content m ++ data).drop k ∧
      r'.drop = r.drop + k

/-- A write that does not fit is not missing a multiple of the unit, and the drop counter has room
for the dropped bytes. -/
def DropsMore (r : Ringbuf) (len : ℤ) : Prop :=
  r.getFreeSize ≤ len → ¬r.dropunit ∣ len - r.getFreeSize ∧ r.drop + r.dropLen len < 2 ^ 31
  deriving Decidable

/-- A ring after dropping the oldest bytes. -/
def dropped (r : Ringbuf) (len : ℤ) : Ringbuf :=
  { r with
    drop := s32 (r.drop + r.dropLen len)
    rp := movePtr r.rp (r.dropLen len) r.base r.limit }

/-- A write keeps the newest bytes exactly if it drops as many as it should. -/
theorem keepsNewest_iff_drop {k : ℕ} (hwrite : r.write m data = r'.put m data data.length)
    (hholds : r'.Holds m ((r.content m).drop k)) (hk : k ≤ (r.content m).length)
    (hfits : data.length < r'.getFreeSize) : r.KeepsNewest m data ↔ r'.drop = r.drop + k := by
  obtain ⟨m', hput, hholds'⟩ := hholds.put (by omega) (Int.le_refl _) hfits
  have hcontent := hholds'.content_eq
  rw [toNat_natCast, take_length, ← drop_append_of_le_length hk] at hcontent
  rw [← hwrite] at hput
  constructor
  · rintro ⟨r'', m'', n, hsome, j, hj, hnewest, hdrop⟩
    obtain ⟨rfl, hrest⟩ := Prod.mk.inj (some.inj (hput.symm.trans hsome))
    obtain ⟨rfl, -⟩ := Prod.mk.inj hrest
    -- The length of the content tells how many bytes are gone.
    have hlength := congrArg length (hcontent.symm.trans hnewest)
    rw [length_drop, length_drop, length_append] at hlength
    have hjk : k = j := by omega
    rw [hjk]
    exact hdrop
  · intro hdrop
    exact ⟨_, m', _, hput, k, hk, hcontent, hdrop⟩

/-- A write that fills the ring does not keep the newest bytes. -/
theorem not_keepsNewest_of_full {q data : List α} (hdata : data ≠ [])
    (hwrite : r.write m data = r'.put m data data.length) (hholds : r'.Holds m q)
    (hfull : data.length = r'.getFreeSize) : ¬r.KeepsNewest m data := by
  rintro ⟨r'', m'', n, hsome, k, hk, hnewest, -⟩
  rw [hwrite] at hsome
  obtain ⟨m', -, hput⟩ := map_eq_some_iff.mp hsome
  obtain ⟨rfl, -⟩ := Prod.mk.inj hput
  have hin := hholds.inside
  have hfree := hin.getFreeSize_eq
  have hused := hin.getUsedSize_bounds
  have hwp := hin.base_le_wp
  have hwp' := hin.wp_lt
  have hmeet : movePtr r'.wp data.length r'.base r'.limit = r'.rp := by
    rw [movePtr_eq_cell (by omega) (by omega), hin.wp_eq_cell, cell_cell]
    have hround : r'.getUsedSize + data.length = 0 + r'.size := by omega
    have hrp' := hin.rp_lt
    rw [hround, cell_add_size, cell_of_lt (by have := hin.base_le_rp; omega)
      (by unfold size; omega)]
    exact Int.add_zero _
  have hempty : content { r' with wp := movePtr r'.wp data.length r'.base r'.limit } m'' = [] := by
    rw [hmeet, content, getUsedSize, calcRwSize, if_pos (Int.le_refl _), Int.sub_self]
    rfl
  rw [hempty] at hnewest
  have hlength := congrArg length hnewest
  have hpos := length_pos_iff.mpr hdata
  rw [length_drop, length_append, length_nil] at hlength
  omega

section Dropping

variable {len : ℤ} (hunit : 0 < r.dropunit) (hlen : r.getFreeSize ≤ len)
  (hroom : len ≤ r.size - r.dropunit)

include hunit hlen hroom

theorem Inside.dropLen_lt (h : r.Inside) : r.dropLen len < r.getUsedSize := by
  have hfree := h.getFreeSize_eq
  have hdrop := dropLen_bounds hunit hlen
  omega

/-- A drop takes the oldest bytes. -/
theorem Inside.dropped_holds (h : r.Inside) (m : ℤ → α) :
    (r.dropped len).Holds m ((r.content m).drop (r.dropLen len).toNat) := by
  have hused := (h.holds m).used
  have hlt := h.dropLen_lt hunit hlen hroom
  have hlo := (dropLen_bounds hunit hlen).1
  have hmove := (h.holds m).moveRp (k := (r.dropLen len).toNat) (by omega)
    (s32 (r.drop + r.dropLen len))
  have := h.base_le_rp
  have := h.rp_lt
  have := h.getUsedSize_bounds
  rwa [toNat_of_nonneg (by omega), ← movePtr_eq_cell (by omega) (by omega)] at hmove

theorem Inside.dropped_getFreeSize (h : r.Inside) (m : ℤ → α) :
    (r.dropped len).getFreeSize = r.getFreeSize + r.dropLen len := by
  have hholds := h.dropped_holds hunit hlen hroom m
  have hlt := h.dropLen_lt hunit hlen hroom
  have hlo := (dropLen_bounds hunit hlen).1
  have hused := (h.holds m).used
  have hused' := hholds.used
  rw [length_drop] at hused'
  have hsize : (r.dropped len).size = r.size := rfl
  rw [hholds.inside.getFreeSize_eq, h.getFreeSize_eq, hsize]
  omega

end Dropping

/-- With the drop counter of an `int32_t`, a write keeps the newest bytes exactly if it fits or
drops more than the missing bytes. -/
theorem Inside.keepsNewest_iff (h : r.Inside) (hunit : 0 < r.dropunit) (hdrop : -2 ^ 31 ≤ r.drop)
    (m : ℤ → α) (hdata : data ≠ []) (hroom : data.length ≤ r.size - r.dropunit) :
    r.KeepsNewest m data ↔ r.DropsMore data.length := by
  rcases Int.lt_or_le data.length r.getFreeSize with hlt | hlen
  · have hwrite : r.write m data = r.put m data data.length := by
      rw [write_eq m hdata, checkDrop_of_lt hlt]
    rw [keepsNewest_iff_drop (k := 0) hwrite (h.holds m) (Nat.zero_le _) hlt]
    exact ⟨fun _ hle => absurd hle (by omega), fun _ => by simp⟩
  have hwrite : r.write m data = (r.dropped data.length).put m data data.length := by
    rw [write_eq m hdata, checkDrop_drop hlen hunit]
    rfl
  have hholds := h.dropped_holds hunit hlen hroom m
  have hfree := h.dropped_getFreeSize hunit hlen hroom m
  have hless := h.dropLen_lt hunit hlen hroom
  have hused := (h.holds m).used
  obtain ⟨hlo, hhi⟩ := dropLen_bounds hunit hlen
  have hiff := dropLen_eq_iff hunit hlen
  by_cases hdvd : r.dropunit ∣ data.length - r.getFreeSize
  · have hexact := hiff.mpr hdvd
    have hbad := not_keepsNewest_of_full hdata hwrite hholds (by omega)
    exact ⟨fun hgood => absurd hgood hbad, fun hmore => absurd hdvd (hmore hlen).1⟩
  · have hmore : r.dropLen data.length ≠ data.length - r.getFreeSize :=
      fun heq => hdvd (hiff.mp heq)
    rw [keepsNewest_iff_drop hwrite hholds (by omega) (by omega), toNat_of_nonneg (by omega)]
    unfold dropped s32
    dsimp only
    constructor
    · intro heq _
      exact ⟨hdvd, by omega⟩
    · intro hcounter
      have := (hcounter hlen).2
      omega

/-- What the runs of a ring of `size` bytes with the unit `unit` keep: the pointers are in the
buffer, and the drop counter is an `int32_t`. -/
structure Steady (size unit : ℤ) (r : Ringbuf) : Prop where
  inside : r.Inside
  size_eq : r.size = size
  unit_eq : r.dropunit = unit
  drop_ge : -2 ^ 31 ≤ r.drop

theorem Inside.moveWp (h : r.Inside) (hlo : 0 ≤ len) (hhi : len < r.size) :
    ({ r with wp := movePtr r.wp len r.base r.limit } : Ringbuf).Inside := by
  obtain ⟨hrp, hrp', hwp, hwp'⟩ := h
  unfold size at hhi
  refine ⟨hrp, hrp', ?_, ?_⟩
  all_goals
    unfold movePtr
    dsimp only
    split <;> omega

/-- With room for a unit, the ring stays steady and all bytes are written. -/
theorem Steady.checkDrop (h : r.Steady size unit) (hunit : 0 < unit) (hroom : len ≤ size - unit) :
    (r.checkDrop len).1.Steady size unit ∧ (r.checkDrop len).2 = len := by
  obtain ⟨hin, rfl, rfl, hdrop⟩ := h
  rcases Int.lt_or_le len r.getFreeSize with hlt | hlen
  · rw [checkDrop_of_lt hlt]
    exact ⟨⟨hin, rfl, rfl, hdrop⟩, rfl⟩
  · rw [checkDrop_drop hlen hunit]
    have hin' := (hin.dropped_holds hunit hlen hroom fun _ => ()).inside
    refine ⟨⟨hin', rfl, rfl, ?_⟩, rfl⟩
    unfold s32
    dsimp only
    omega

theorem Steady.write (h : r.Steady size unit) (hunit : 0 < unit) (hdata : data ≠ [])
    (hroom : data.length ≤ size - unit) {m' : ℤ → α} {n : ℤ}
    (hwrite : r.write m data = some (r', m', n)) : r'.Steady size unit := by
  obtain ⟨⟨hin, hsize, hunit', hdrop⟩, hlen⟩ := h.checkDrop hunit hroom
  rw [write_eq m hdata, hlen] at hwrite
  obtain ⟨m'', -, hring⟩ := map_eq_some_iff.mp hwrite
  obtain ⟨rfl, -⟩ := Prod.mk.inj hring
  exact ⟨hin.moveWp (by omega) (by omega), hsize, hunit', hdrop⟩

theorem Steady.flush (h : r.Steady size unit) (hlen : r.base ≤ r.rp + len) :
    (r.flush len).1.Steady size unit := by
  obtain ⟨hin, hsize, hunit, hdrop⟩ := h
  have hused := hin.getUsedSize_bounds
  unfold Ringbuf.size at hused
  unfold getUsedSize at hused
  obtain ⟨hrp, hrp', hwp, hwp'⟩ := hin
  unfold Ringbuf.flush
  split
  · exact ⟨⟨hrp, hrp', hwp, hwp'⟩, hsize, hunit, hdrop⟩
  · refine ⟨⟨?_, ?_, hwp, hwp'⟩, hsize, hunit, hdrop⟩
    all_goals
      unfold movePtr
      dsimp only
      split <;> split <;> omega

end Ringbuf

/-- An operation on a ring with a unit of dropping: a write of at most `room` bytes, or a flush. -/
inductive DropOp (α : Type*) (room : ℤ) where
  | write (data : List α) (hdata : data ≠ []) (hroom : data.length ≤ room)
  | flush (len : ℤ)

/-- A ring and the memory of its buffer. -/
structure RingMem (α : Type*) where
  ring : Ringbuf
  mem : ℤ → α

namespace RingMem

variable {room : ℤ}

variable (s : RingMem α)

/-- One operation; a write that faults leaves everything alone. -/
def step : DropOp α room → RingMem α
  | .write data _ _ =>
    match s.ring.write s.mem data with
    | none => s
    | some (r, m, _) => ⟨r, m⟩
  | .flush len => { s with ring := (s.ring.flush len).1 }

/-- A write keeps the newest bytes. -/
def OpKeepsNewest : DropOp α room → Prop
  | .write data _ _ => s.ring.KeepsNewest s.mem data
  | .flush _ => True

/-- A write that does not fit drops more than the missing bytes. -/
def OpDropsMore : DropOp α room → Prop
  | .write data _ _ => s.ring.DropsMore data.length
  | .flush _ => True

/-- A flush does not move the read pointer back over the start of the buffer. -/
def FlushInside : DropOp α room → Prop
  | .write _ _ _ => True
  | .flush len => s.ring.base ≤ s.ring.rp + len

instance (s : RingMem α) (op : DropOp α room) : Decidable (s.OpDropsMore op) :=
  match op with
  | .write data _ _ => inferInstanceAs (Decidable (s.ring.DropsMore data.length))
  | .flush _ => .isTrue trivial

instance (s : RingMem α) (op : DropOp α room) : Decidable (s.FlushInside op) :=
  match op with
  | .write _ _ _ => .isTrue trivial
  | .flush len => inferInstanceAs (Decidable (s.ring.base ≤ s.ring.rp + len))

/-- Every operation keeps the ring steady. -/
theorem step_steady {size unit : ℤ} (hunit : 0 < unit) {s : RingMem α}
    (h : s.ring.Steady size unit) (op : DropOp α (size - unit)) (hflush : s.FlushInside op) :
    (s.step op).ring.Steady size unit := by
  cases op with
  | write data hdata hroom =>
    unfold step
    dsimp only
    split
    · exact h
    · rename_i hwrite
      exact h.write hunit hdata hroom hwrite
  | flush len => exact h.flush hflush

/-- In a run whose flushes stay in the buffer, every write keeps the newest bytes exactly if every
write that does not fit drops more than is missing. -/
theorem run_keepsNewest_iff {r0 r : Ringbuf} {buf size unit : ℤ}
    (hinit : r0.init buf size unit = some r) (hsize : r.size = size) (hunit : 0 < unit)
    (hless : unit < size) (m : ℤ → α) (ops : List (DropOp α (size - unit)))
    (hflush : RunOk step FlushInside ⟨r, m⟩ ops) :
    RunOk step OpKeepsNewest ⟨r, m⟩ ops ↔ RunOk step OpDropsMore ⟨r, m⟩ ops := by
  have hstart : r.Steady size unit := by
    obtain rfl := Ringbuf.eq_of_init hinit
    unfold Ringbuf.size at hsize
    dsimp only at hsize
    have hlt : buf < s32 (buf + size) := by omega
    have hcounter : -2 ^ 31 ≤ (0 : ℤ) := by decide
    exact ⟨⟨Int.le_refl _, hlt, Int.le_refl _, hlt⟩, hsize, rfl, hcounter⟩
  have hrun : RunOk step (fun s op => s.OpKeepsNewest op ∧ s.FlushInside op) ⟨r, m⟩ ops ↔
      RunOk step (fun s op => s.OpDropsMore op ∧ s.FlushInside op) ⟨r, m⟩ ops := by
    apply runOk_congr (fun s => s.ring.Steady size unit)
    · intro s op hsteady
      apply and_congr_left
      intro _
      cases op with
      | write data hdata hroom =>
        have hunit' : 0 < s.ring.dropunit := by
          rw [hsteady.unit_eq]
          exact hunit
        exact hsteady.inside.keepsNewest_iff hunit' hsteady.drop_ge s.mem hdata
          (by rw [hsteady.size_eq, hsteady.unit_eq]; exact hroom)
      | flush len => exact Iff.rfl
    · rintro s op hsteady ⟨-, hin⟩
      exact step_steady hunit hsteady op hin
    · exact hstart
  rw [runOk_and, runOk_and] at hrun
  exact ⟨fun h => (hrun.mp ⟨h, hflush⟩).1, fun h => (hrun.mpr ⟨h, hflush⟩).1⟩

/-- A ring of eight bytes with the unit four keeps the newest bytes of three writes. -/
theorem run_keepsNewest_eightBytes :
    RunOk step OpKeepsNewest (⟨⟨32, 40, 32, 32, 0, 4⟩, fun _ => 0⟩ : RingMem UInt8)
      ([.write [1, 2, 3] (by decide) (by decide), .write [4, 5, 6, 7] (by decide) (by decide),
        .flush 1, .write [8, 9, 10] (by decide) (by decide)] : List (DropOp UInt8 (8 - 4))) :=
  have hinit : Fifo.blank.init 32 8 4 = some ⟨32, 40, 32, 32, 0, 4⟩ := rfl
  (run_keepsNewest_iff hinit (by decide) (by decide) (by decide) _ _ (by decide)).mpr (by decide)

/-- A second write of four bytes into a ring of eight bytes with the unit four leaves nothing to
read. -/
theorem not_run_keepsNewest_eightBytes :
    Fifo.blank.init 32 8 4 = some ⟨32, 40, 32, 32, 0, 4⟩ ∧
      ¬RunOk step OpKeepsNewest (⟨⟨32, 40, 32, 32, 0, 4⟩, fun _ => 0⟩ : RingMem UInt8)
        ([.write [1, 2, 3, 4] (by decide) (by decide),
          .write [5, 6, 7, 8] (by decide) (by decide)] : List (DropOp UInt8 (8 - 4))) := by
  refine ⟨rfl, ?_⟩
  rintro ⟨-, ⟨r, m, n, hwrite, k, hk, hnewest, -⟩, -⟩
  have hempty := congrArg (Option.map fun p => (p.1.content p.2.1).length) hwrite
  have hzero : some 0 = some (r.content m).length := hempty
  have hlength := congrArg length hnewest
  rw [← some.inj hzero, length_drop, length_append] at hlength
  have hfour : ([5, 6, 7, 8] : List UInt8).length = 4 := rfl
  omega

end RingMem

end Mt8169.Dsp
