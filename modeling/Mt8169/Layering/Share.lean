import Mt8169.Layering.Counting

/-!
# The GLES range for a share of the overlays

A display that may use a number of overlays keeps as many layers outside of its GLES range. Either
those below the range use them up, and the range reaches up to the last layer, or the rest is for
the layers above it. Here, the range is described by what it leaves outside; the scans of
`rollback_to_GPU` find it.
-/

namespace Mt8169.Layering

open MachineInt WeakestPre Display List Bool

/-- The overlays are used up below the GLES range. -/
def Display.usesUp (x : Display) (available : ℤ) : Bool :=
  decide (available ≤ x.below ∧ 1 ≤ x.below)

variable (x : Display) (available : ℤ) {ext : List Bool}

/-- The overlays are enough for the layers above the GLES range. -/
def Display.enough : Bool :=
  decide (x.above ≤ available ∨ x.above = 0)

/-- The overlays that `rollback_to_GPU` leaves. -/
def Display.left : ℤ :=
  if x.usesUp available then 0
  else if x.enough (available - x.below - 1) then available - x.below - 1 - x.above
  else 0

/-- An extended layer stays outside of the GLES range: below it if fewer layers than overlays are
below the layer, above it if fewer than the rest of the overlays are above the layer. -/
def Display.staysOut (k : ℤ) : Bool :=
  decide (physBelow x.ext k < available ∧ (x.head < 0 ∨ k < x.head) ∨
    x.tail < k ∧ physFrom x.ext k < available - x.below - 1)

/-- The display has a GLES range, or enough layers to use the overlays up. -/
def Display.fits : Bool :=
  decide (0 ≤ x.head) || x.usesUp available

/-- What the rollback needs to know about a display: its GLES range is inside of the layers, and the
first layer of the range is not extended. -/
structure Display.Ready (x : Display) : Prop where
  range : (x.head = -1 ∧ x.tail = -1) ∨
    (0 ≤ x.head ∧ x.head ≤ x.tail ∧ x.tail < x.ext.length)
  head : 0 ≤ x.head → x.ext[x.head.toNat]? = some false

/-- The layer above the GLES range is not extended. -/
def Display.NextOk : Prop :=
  0 ≤ x.head → x.ext[(x.tail + 1).toNat]? ≠ some true

/-- The GLES range that `rollback_to_GPU` chooses for a display. -/
structure NewRange (x : Display) (available left head tail : ℤ) : Prop where
  left_eq : left = x.left available
  inside : 0 ≤ head ∧ head ≤ tail ∧ tail < (x.ext.length : ℤ)
  grows : 0 ≤ x.head → head ≤ x.head ∧ x.tail ≤ tail
  /-- The overlays that are used. -/
  used : 1 ≤ available →
    physBelow x.ext head + 1 + physFrom x.ext (tail + 1) = available - left
  /-- The layer above the range is not extended, if it was not before. -/
  next : x.NextOk → x.ext[(tail + 1).toNat]? ≠ some true
  /-- The extended layers that stay outside of the range. -/
  outside : 1 ≤ available → x.NextOk → ∀ k : ℤ, 0 ≤ k →
    x.ext[k.toNat]? = some true →
    (k < head ∨ tail < k ↔ x.staysOut available k = true)

theorem lt_length_of_ext {k : ℤ} (hk : 0 ≤ k) {b : Bool}
    (hext : ext[k.toNat]? = some b) : k < (ext.length : ℤ) := by
  obtain ⟨hlt, -⟩ := List.getElem?_eq_some_iff.mp hext
  omega

theorem physFrom_lt {i k : ℤ} (hlo : 0 ≤ i) (hlt : i < k) (hk : k < (ext.length : ℤ))
    (hext : ext[i.toNat]? ≠ some true) : physFrom ext k < physFrom ext i := by
  have hget : ext[i.toNat]? = some false := by
    cases hb : ext[i.toNat]? with
    | none =>
      have := getElem?_eq_none_iff.mp hb
      omega
    | some b =>
      cases b with
      | true => exact absurd hb hext
      | false => rfl
  have heq := physFrom_eq hlo hget
  have hanti := physFrom_anti ext (show i + 1 ≤ k by omega)
  simp only [false_eq_true, if_false] at heq
  omega

section NewRange

variable {x : Display} {available : ℤ}

/-- The range from the first layer without an overlay on. -/
theorem NewRange.of_usedUp {i : ℤ} (hlo : 0 ≤ i) (hhi : i < (x.ext.length : ℤ)) (hready : x.Ready)
    (hbelow : 0 ≤ x.head → i < x.head) (hcount : physBelow x.ext i + 1 = max available 1)
    (hphys : x.ext[i.toNat]? = some false) (huses : x.usesUp available = true) :
    NewRange x available 0 i ((x.ext.length : ℤ) - 1) := by
  have hend : physFrom x.ext ((x.ext.length : ℤ) - 1 + 1) = 0 := physFrom_length (by omega)
  have hle : available ≤ x.below := (of_decide_eq_true huses).1
  constructor
  · unfold left
    rw [if_pos huses]
  · omega
  · intro hpos
    have hrange := hready.range
    have := hbelow hpos
    omega
  · intro hone
    rw [hend]
    omega
  · intro _
    rw [getElem?_eq_none (by omega)]
    simp
  · intro hone _ k hk hext
    have hkn := lt_length_of_ext hk hext
    have hfrom := physFrom_nonneg x.ext k
    unfold staysOut
    rw [decide_eq_true_eq]
    change _ ↔ physBelow x.ext k < available ∧ (x.head < 0 ∨ k < x.head) ∨ _
    constructor
    · intro hout
      have hlt : k < i := by omega
      have hmono := physBelow_mono x.ext (show k ≤ i by omega)
      left
      refine ⟨by omega, ?_⟩
      by_cases hpos : 0 ≤ x.head
      · have := hbelow hpos
        omega
      · omega
    · intro hstays
      by_contra hin
      have hne : k ≠ i := by
        rintro rfl
        rw [hphys] at hext
        cases hext
      have hsucc := physBelow_succ hlo hphys
      have hmono := physBelow_mono x.ext (show i + 1 ≤ k by omega)
      simp only [false_eq_true, if_false] at hsucc
      omega

theorem physBelow_lt_of_not_usesUp (hhead : 0 ≤ x.head) (huses : x.usesUp available = false)
    (hone : 1 ≤ available) {k : ℤ} (hlt : k < x.head) : physBelow x.ext k < available := by
  have hbelow : x.below = physBelow x.ext (x.head) := if_pos hhead
  have hmono := physBelow_mono x.ext (show k ≤ x.head by omega)
  unfold usesUp at huses
  rw [decide_eq_false_iff_not, hbelow] at huses
  omega

section

variable (hready : x.Ready) (hhead : 0 ≤ x.head) (huses : x.usesUp available = false)
include hready hhead huses

/-- A range with enough overlays above stays as it is. -/
theorem NewRange.of_enough (henough : x.enough (available - x.below - 1) = true) :
    NewRange x available (available - x.below - 1 - x.above)
      (x.head) (x.tail) := by
  have hbelow : x.below = physBelow x.ext (x.head) := if_pos hhead
  have habove : x.above = physFrom x.ext (x.tail + 1) := rfl
  have hrange := hready.range
  constructor
  · unfold left
    rw [if_neg (by rw [huses]; exact false_ne_true), if_pos henough]
  · omega
  · intro _
    omega
  · intro _
    omega
  · exact fun hnext => hnext hhead
  · intro hone hnext k hk hext
    have hkn := lt_length_of_ext hk hext
    have hne : k ≠ x.tail + 1 := by
      rintro rfl
      exact hnext hhead hext
    unfold staysOut
    rw [decide_eq_true_eq]
    change _ ↔ physBelow x.ext k < available ∧ (x.head < 0 ∨ k < x.head) ∨
      x.tail < k ∧ _
    constructor
    · rintro (hlt | hlt)
      · left
        exact ⟨physBelow_lt_of_not_usesUp hhead huses hone hlt, Or.inr hlt⟩
      · right
        refine ⟨hlt, ?_⟩
        have hless := physFrom_lt (by omega) (show x.tail + 1 < k by omega) (by omega)
          (hnext hhead)
        have hnonneg := physFrom_nonneg x.ext k
        have hcases := of_decide_eq_true henough
        omega
    · omega

theorem NewRange.of_grown {tail : ℤ} (hlo : x.tail < tail)
    (hhi : tail < (x.ext.length : ℤ))
    (hcount : physFrom x.ext (tail + 1) = max (available - x.below - 1) 0)
    (htop : x.ext[(tail + 1).toNat]? ≠ some true)
    (henough : x.enough (available - x.below - 1) = false) :
    NewRange x available 0 (x.head) tail := by
  have hbelow : x.below = physBelow x.ext (x.head) := if_pos hhead
  have hrange := hready.range
  constructor
  · unfold left
    rw [if_neg (by rw [huses]; exact false_ne_true),
      if_neg (by rw [henough]; exact false_ne_true)]
  · omega
  · intro _
    omega
  · intro hone
    unfold usesUp at huses
    rw [decide_eq_false_iff_not] at huses
    omega
  · exact fun _ => htop
  · intro hone hnext k hk hext
    have hkn := lt_length_of_ext hk hext
    have hne : k ≠ tail + 1 := by
      rintro rfl
      exact htop hext
    unfold staysOut
    rw [decide_eq_true_eq]
    change _ ↔ physBelow x.ext k < available ∧ (x.head < 0 ∨ k < x.head) ∨
      x.tail < k ∧ _
    constructor
    · rintro (hlt | hlt)
      · left
        exact ⟨physBelow_lt_of_not_usesUp hhead huses hone hlt, Or.inr hlt⟩
      · right
        refine ⟨by omega, ?_⟩
        have hless := physFrom_lt (by omega) (show tail + 1 < k by omega) (by omega) htop
        have hnonneg := physFrom_nonneg x.ext k
        omega
    · rintro (⟨-, hlt⟩ | ⟨hlt, hless⟩)
      · omega
      · right
        by_contra hge
        have hanti := physFrom_anti x.ext (show k ≤ tail + 1 by omega)
        omega

end

end NewRange

/-- Two lists are the same, but for the places from `lo` up to and without `hi`, where the second is
false. -/
def SameOutside (ext ext' : List Bool) (lo hi : ℤ) : Prop :=
  ∀ k : ℕ, ext'[k]? = if lo ≤ k ∧ k < hi then ext[k]?.map fun _ => false else ext[k]?

theorem SameOutside.set {ext ext' : List Bool} {lo hi : ℤ} (h : SameOutside ext ext' lo hi)
    (hle : lo ≤ hi) (hpos : 0 ≤ hi) : SameOutside ext (ext'.set hi.toNat false) lo (hi + 1) := by
  intro k
  have hk := h k
  rw [getElem?_set]
  by_cases heq : hi.toNat = k
  · subst heq
    have hin : lo ≤ (hi.toNat : ℤ) ∧ (hi.toNat : ℤ) < hi + 1 := by omega
    have hout : ¬(lo ≤ (hi.toNat : ℤ) ∧ (hi.toNat : ℤ) < hi) := by omega
    rw [if_neg hout] at hk
    rw [if_pos rfl, if_pos hin, ← hk]
    cases hget : ext'[hi.toNat]? with
    | none =>
      have hlen := getElem?_eq_none_iff.mp hget
      rw [if_neg (by omega)]
      rfl
    | some b =>
      obtain ⟨hlen, -⟩ := List.getElem?_eq_some_iff.mp hget
      rw [if_pos hlen]
      rfl
  · rw [if_neg heq, hk]
    have hiff : (lo ≤ (k : ℤ) ∧ (k : ℤ) < hi) ↔ (lo ≤ (k : ℤ) ∧ (k : ℤ) < hi + 1) := by omega
    simp only [hiff]

/-- A display that was rolled back to the GPU. -/
structure RolledTo (x : Display) (available left : ℤ) (x' : Display) : Prop where
  range : NewRange x available left x'.head x'.tail
  ext : SameOutside x.ext x'.ext x'.head (x'.tail + 2)
  num : x'.ext.length = x.ext.length

/-- The GLES range of a display is empty or inside of its layers, and no layer inside of it or
directly above it is extended. -/
structure Display.WellFormed (x : Display) : Prop where
  range : x.RangeOk
  clear : 0 ≤ x.head → ∀ k : ℤ, x.head ≤ k → k ≤ x.tail + 1 → x.ext[k.toNat]? ≠ some true

variable {x : Display}

theorem Display.WellFormed.of_range (hrange : x.RangeOk) (hext : true ∉ x.ext) :
    x.WellFormed where
  range := hrange
  clear := fun _ _ _ _ hget => hext (mem_of_getElem? hget)

theorem Display.WellFormed.nextOk (h : x.WellFormed) : x.NextOk := by
  intro hhead
  rcases h.range with hnone | hsome
  · omega
  · exact h.clear hhead (x.tail + 1) (by omega) (by omega)

theorem Display.WellFormed.ready (h : x.WellFormed) : x.Ready where
  range := h.range
  head := by
    intro hhead
    rcases h.range with hnone | hsome
    · omega
    · have hlt : x.head.toNat < x.ext.length := by omega
      have hclear := h.clear hhead x.head (by omega) (by omega)
      rw [getElem?_eq_getElem hlt] at hclear ⊢
      cases hb : x.ext[x.head.toNat] with
      | true => exact absurd (congrArg some hb) hclear
      | false => rfl

/-- The extended layers that stay outside of the GLES range. -/
def Display.extKept (x : Display) (available : ℤ) : ℤ :=
  countFrom (fun k b => b && x.staysOut available k) 0 x.ext

section RolledTo

variable {x x' : Display} {available left : ℤ}

section

variable (h : RolledTo x available left x')
include h

theorem RolledTo.wellFormed : x'.WellFormed where
  range := by
    right
    rw [h.num]
    exact h.range.inside
  clear := by
    intro hhead k hlo hhi
    have hk := h.ext k.toNat
    rw [if_pos (by omega)] at hk
    rw [hk]
    cases x.ext[k.toNat]? <;> simp

theorem RolledTo.ext_outside (hnext : x.NextOk) {k : ℕ}
    (hout : (k : ℤ) < x'.head ∨ x'.tail < k) : x'.ext[k]? = x.ext[k]? := by
  obtain ⟨hlo, hle, -⟩ := h.range.inside
  rw [h.ext k]
  by_cases hk : (k : ℤ) = x'.tail + 1
  · have htop := h.range.next hnext
    have hidx : (x'.tail + 1).toNat = k := by omega
    rw [hidx] at htop
    rw [if_pos (by omega)]
    cases hb : x.ext[k]? with
    | none => rfl
    | some b =>
      cases b with
      | true => exact absurd hb htop
      | false => rfl
  · rw [if_neg (by omega)]

/-- After a rollback, the display needs the overlays it has been given. -/
theorem RolledTo.overlays_eq (hnext : x.NextOk)
    (hone : 1 ≤ available) : x'.overlays = available - left := by
  obtain ⟨hlo, hle, hhi⟩ := h.range.inside
  have hbelow : x'.ext.take x'.head.toNat = x.ext.take x'.head.toNat := by
    apply ext_getElem?
    intro k
    rw [getElem?_take, getElem?_take]
    split
    · exact h.ext_outside hnext (Or.inl (by omega))
    · rfl
  have habove : x'.ext.drop (x'.tail + 1).toNat = x.ext.drop (x'.tail + 1).toNat := by
    apply ext_getElem?
    intro k
    rw [getElem?_drop, getElem?_drop]
    exact h.ext_outside hnext (Or.inr (by omega))
  rw [← h.range.used hone]
  unfold overlays below above physBelow physFrom
  rw [if_pos hlo, if_pos hlo, hbelow, habove]

theorem RolledTo.extOutside_eq (hnext : x.NextOk)
    (hone : 1 ≤ available) : x'.extOutside = x.extKept available := by
  unfold extOutside extKept
  apply countFrom_eq h.num
  intro k b' b hb' hb
  have hidx : (0 : ℤ) + k = k := by omega
  rw [hidx]
  by_cases hout : (k : ℤ) < x'.head ∨ x'.tail < k
  · rw [h.ext_outside hnext hout, hb] at hb'
    obtain rfl := Option.some.inj hb'
    cases b with
    | false => rfl
    | true =>
      have hstays := (h.range.outside hone hnext k (by omega) hb).mp hout
      rw [hstays, decide_eq_false (by omega)]
      rfl
  · have hin : decide (x'.head ≤ (k : ℤ) ∧ (k : ℤ) ≤ x'.tail) = true := decide_eq_true (by omega)
    rw [hin, Bool.not_true, Bool.and_false]
    cases b with
    | false => rfl
    | true =>
      have hstays := (h.range.outside hone hnext k (by omega) hb).not.mp hout
      rw [not_eq_true] at hstays
      rw [hstays]
      rfl

end

theorem Display.left_nonneg {available : ℤ} (hone : 1 ≤ available) : 0 ≤ x.left available := by
  unfold left
  split
  · omega
  · rename_i huses
    unfold usesUp at huses
    rw [decide_eq_true_eq] at huses
    have hbelow : 0 ≤ x.below := by
      unfold below
      split
      · exact physBelow_nonneg _ _
      · exact physFrom_nonneg _ _
    split
    · rename_i henough
      have hcases := of_decide_eq_true henough
      omega
    · omega

end RolledTo

end Mt8169.Layering
