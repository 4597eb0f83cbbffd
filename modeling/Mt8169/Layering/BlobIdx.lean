import Mathlib.Data.Nat.Count
import Mt8169.Layering.Groups

/-!
# Planes and their bits

`_dispatch_lye_blob_idx` numbers the planes of a display and gives each a bit of a layer map. A
layer with the mark of a clear layer comes first: the loop looks for it, numbers it as if it were
the layer -1, and starts again without it. The other GLES layers get the number of the last plane,
which is the GLES layer only if the first layer of the range was numbered in its turn. A bit is
taken off the map when the next plane that is not extended comes.
-/

namespace Mt8169.Layering

open List Function Bool Nat

namespace Part

/-- A plane with its layer and the bit that it gets, if there is one left. -/
structure Plane where
  layer : ℕ
  bit : Option ℕ
deriving DecidableEq

/-- The variables of the loop. `plane_idx` is the number of planes, and the layer map is given by
its set bits in ascending order. -/
structure BlobState where
  planes : List Plane
  ovlId : ℕ → ℤ
  layerMap : List ℕ
  layerMapIdx : Option ℕ

variable (p : Part)

/-- The layer has the mark `MTK_DISP_CLIENT_CLEAR_LAYER`. -/
def clearAt (k : ℕ) : Bool := p.layers[k]?.any fun c => c.layerCaps.dispClientClear

/-- `clear_idx` after the first loop, if it is not -1. -/
def clear : Option ℕ := (range p.layers.length).find? p.clearAt

/-- The layer is not one of the GLES range, or is the first of it. -/
def isPlane (i : ℤ) : Bool := !(p.inGles i && decide (i ≠ p.head))

/-- One pass of the loop for the layer `k`, with the index `i` that is compared with the range. -/
def place (st : BlobState) (i : ℤ) (k : ℕ) : BlobState :=
  if p.isPlane i then
    let layerMap :=
      if p.extendedAt k then st.layerMap else st.layerMap.filter (some · ≠ st.layerMapIdx)
    { planes := st.planes ++ [⟨k, layerMap.head?⟩]
      ovlId := update st.ovlId k st.planes.length
      layerMap := layerMap
      layerMapIdx := layerMap.head? }
  else { st with ovlId := update st.ovlId k (st.planes.length - 1) }

/-- The loop of `_dispatch_lye_blob_idx`, for a number of passes. -/
def scan : ℕ → ℤ → ℤ → BlobState → Option BlobState
  | 0, _, _, _ => none
  | fuel + 1, i, clearIdx, st =>
    if i < p.layers.length then
      if clearIdx < 0 ∧ p.clearAt i.toNat then scan fuel (i + 1) clearIdx st
      else if i < clearIdx then scan fuel (i + 1) clearIdx st
      else if i = clearIdx then scan fuel 0 (-1) (p.place st (-1) i.toNat)
      else scan fuel (i + 1) clearIdx (p.place st i i.toNat)
    else some st

/-- `_dispatch_lye_blob_idx` on layers that have some `ovl_id`. -/
def dispatchBlobs (ovlId : ℕ → ℤ) (layerMap : List ℕ) : Option BlobState :=
  p.scan (2 * p.layers.length + 2) 0 ((p.clear.map Int.ofNat).getD (-1))
    ⟨[], ovlId, layerMap, none⟩

variable (ovlId : ℕ → ℤ) (layerMap : List ℕ) {planes : List Plane}

/-- The variables when the marked layer and the layers below another one have been placed. -/
def blobs : ℕ → BlobState
  | 0 => p.clear.elim ⟨[], ovlId, layerMap, none⟩ (p.place ⟨[], ovlId, layerMap, none⟩ (-1))
  | k + 1 => if p.clearAt k then blobs k else p.place (blobs k) k k

variable {p ovlId layerMap} {j k m c : ℕ}

/-- From the first layer on, the pass comes to all planes. -/
theorem scan_blobs (ovlId : ℕ → ℤ) (layerMap : List ℕ) {fuel : ℕ}
    (hj : m + j = p.layers.length) (hfuel : j < fuel) :
    p.scan fuel m (-1) (p.blobs ovlId layerMap m) =
      some (p.blobs ovlId layerMap p.layers.length) := by
  induction j generalizing fuel m with
  | zero =>
    obtain ⟨fuel, rfl⟩ := exists_eq_succ_of_ne_zero (ne_of_gt hfuel)
    rw [scan, if_neg (by omega), ← hj, add_zero]
  | succ j ih =>
    obtain ⟨fuel, rfl⟩ := exists_eq_succ_of_ne_zero (ne_of_gt (zero_lt_of_lt hfuel))
    have hnext := ih (m := m + 1) (by omega) (lt_of_succ_lt_succ hfuel)
    push_cast at hnext
    rw [scan, if_pos (by omega), ← hnext, blobs]
    cases hclear : p.clearAt m with
    | true => simp [hclear]
    | false => rw [if_neg (by simp [hclear]), if_neg (by omega), if_neg (by omega)]; simp

theorem scan_before (hj : m + j = c) (hc : c < p.layers.length) (fuel : ℕ) (st : BlobState) :
    p.scan (fuel + j) m c st = p.scan fuel c c st := by
  induction j generalizing m with
  | zero => rw [← hj]; rfl
  | succ j ih =>
    have hnext := ih (m := m + 1) (by omega)
    push_cast at hnext
    rw [← add_assoc, scan, if_pos (by omega), if_neg (by omega), if_pos (by omega), hnext]

theorem lt_of_clear (hc : p.clear = some c) : c < p.layers.length ∧ p.clearAt c = true :=
  ⟨mem_range.mp (mem_of_find?_eq_some hc), find?_some hc⟩

/-- The pass ends with the planes of all layers. -/
theorem dispatchBlobs_eq (ovlId : ℕ → ℤ) (layerMap : List ℕ) :
    p.dispatchBlobs ovlId layerMap = some (p.blobs ovlId layerMap p.layers.length) := by
  have hrest (fuel : ℕ) (hfuel : p.layers.length < fuel) :=
    scan_blobs (m := 0) ovlId layerMap (zero_add _) hfuel
  rw [dispatchBlobs]
  cases hclear : p.clear with
  | none =>
    rw [← hrest (2 * p.layers.length + 2) (by omega), blobs, hclear]
    rfl
  | some c =>
    have hc := (lt_of_clear hclear).1
    have hsplit : 2 * p.layers.length + 2 = (2 * p.layers.length + 1 - c) + 1 + c := by omega
    rw [← hrest (2 * p.layers.length + 1 - c) (by omega), hsplit]
    refine (scan_before (m := 0) (zero_add c) hc _ _).trans ?_
    rw [scan, if_pos (by omega), if_neg (by omega), if_neg (by omega), if_pos rfl, blobs, hclear]
    rfl

/-- The layer is not marked, and is a plane. -/
def Own (p : Part) (k : ℕ) : Prop := p.clearAt k = false ∧ p.isPlane k = true

instance (p : Part) : DecidablePred p.Own :=
  fun k => inferInstanceAs (Decidable (p.clearAt k = false ∧ p.isPlane k = true))

theorem isPlane_clear (hrange : p.RangeOk) : p.isPlane (-1) = true := by
  unfold RangeOk at hrange
  simp only [isPlane, inGles, not_eq_true', and_eq_false_iff, decide_eq_false_iff_not]
  omega

section Numbers

variable (hrange : p.RangeOk)
include hrange

/-- The planes are the marked layer and the layers with a plane, in order. -/
theorem layers_blobs (k : ℕ) : (p.blobs ovlId layerMap k).planes.map Plane.layer =
    p.clear.toList ++ (range k).filter fun k => decide (p.Own k) := by
  induction k with
  | zero => cases hclear : p.clear <;> simp [blobs, hclear, place, isPlane_clear hrange]
  | succ k ih =>
    have hown : p.Own k ↔ p.clearAt k = false ∧ p.isPlane k = true := Iff.rfl
    rw [blobs, range_succ, filter_append]
    cases hmark : p.clearAt k <;> cases hplane : p.isPlane k <;>
      simp [place, hplane, ih, hown, hmark]

theorem length_blobs (ovlId : ℕ → ℤ) (layerMap : List ℕ) (k : ℕ) :
    (p.blobs ovlId layerMap k).planes.length =
      p.clear.toList.length + count p.Own k := by
  rw [← length_map Plane.layer, layers_blobs hrange, length_append, count_eq_card_filter_range]
  rfl

/-- The number of a layer counts the planes below it. -/
theorem ovlId_blobs (hk : p.clearAt k = false) (hlt : k < m) :
    (p.blobs ovlId layerMap m).ovlId k =
      p.clear.toList.length + count p.Own k - if p.isPlane k then 0 else 1 := by
  have hlen := length_blobs hrange ovlId layerMap k
  induction m, hlt using le_induction with
  | base => cases hplane : p.isPlane k <;> simp [blobs, hk, place, hplane, hlen]
  | succ m hle ih =>
    rw [blobs, place]
    split
    · exact ih
    · split <;> rw [← ih] <;> exact update_of_ne (by omega) _ _

theorem ovlId_clear (hc : p.clear = some c) (m : ℕ) : (p.blobs ovlId layerMap m).ovlId c = 0 := by
  induction m with
  | zero => simp [blobs, hc, place, isPlane_clear hrange]
  | succ m ih =>
    have hmark := (lt_of_clear hc).2
    rw [blobs, place]
    split
    · exact ih
    · have hne : c ≠ m := by
        rintro rfl
        contradiction
      split <;> rw [← ih] <;> exact update_of_ne hne _ _

theorem ovlId_lt (hj : p.clearAt j = false) (hk : p.clearAt k = false) (hplane : p.isPlane k = true)
    (hjk : j < k) (hkm : k < m) :
    (p.blobs ovlId layerMap m).ovlId j < (p.blobs ovlId layerMap m).ovlId k := by
  rw [ovlId_blobs hrange hj (hjk.trans hkm), ovlId_blobs hrange hk hkm, hplane]
  have hmono := count_monotone p.Own hjk.le
  cases hown : p.isPlane j with
  | true =>
    have := count_strict_mono (p := p.Own) ⟨hj, hown⟩ hjk
    simp only [if_true]
    omega
  | false =>
    simp only [if_true, false_eq_true, if_false]
    omega

theorem ovlId_gles (hhead : p.clearAt p.head.toNat = false) (hk : p.clearAt k = false)
    (hin : p.inGles k = true) (hkm : k < m) : (p.blobs ovlId layerMap m).ovlId k =
      (p.blobs ovlId layerMap m).ovlId p.head.toNat := by
  rw [inGles, decide_eq_true_eq] at hin
  have hcast : (p.head.toNat : ℤ) = p.head := by
    unfold RangeOk at hrange
    omega
  have hplane (i : ℕ) (hlo : p.head ≤ i) (hhi : (i : ℤ) ≤ p.tail) :
      p.isPlane i = true ↔ (i : ℤ) = p.head := by
    simp [isPlane, inGles, hlo, hhi]
  have hown : p.Own p.head.toNat := ⟨hhead, (hplane _ (by omega) (by omega)).mpr hcast⟩
  -- no layer of the range above the first one is counted
  have hcount (i : ℕ) (hlo : p.head.toNat + 1 ≤ i) (hhi : (i : ℤ) ≤ p.tail + 1) :
      count p.Own i = count p.Own p.head.toNat + 1 := by
    induction i, hlo using le_induction with
    | base => rw [count_succ, if_pos hown]
    | succ i hle ih =>
      rw [count_succ, ih (by omega), if_neg]
      intro hi
      have := (hplane i (by omega) (by omega)).mp hi.2
      omega
  rcases eq_or_lt_of_le (show p.head.toNat ≤ k by omega) with heq | hlt
  · rw [heq]
  · have hnot : ¬p.isPlane k = true := by
      rw [hplane k hin.1 hin.2]
      omega
    rw [ovlId_blobs hrange hk hkm, ovlId_blobs hrange hhead (hlt.trans hkm),
      hcount k hlt (by omega), if_neg hnot, if_pos hown.2]
    push_cast
    omega

end Numbers

theorem exists_count_eq {P : ℕ → Prop} [DecidablePred P] {v n : ℕ} (hv : v < count P n) :
    ∃ k < n, P k ∧ count P k = v := by
  induction n with
  | zero => simp at hv
  | succ n ih =>
    rcases lt_or_ge v (count P n) with hlt | hge
    · obtain ⟨k, hk, hP, hcount⟩ := ih hlt
      exact ⟨k, by omega, hP, hcount⟩
    · rw [count_succ] at hv
      split at hv
      case isTrue hP => exact ⟨n, by omega, hP, by omega⟩
      case isFalse => omega

/-- The layers that are not marked. -/
def Unmarked (p : Part) (k : ℕ) : Prop := k < p.layers.length ∧ p.clearAt k = false

/-- The numbers that the layers should get: those of the GLES range have one in common, they
increase with the layers, the marked layer is below them, and none is left out. -/
structure Numbered (p : Part) (ovlId : ℕ → ℤ) : Prop where
  gles : ∀ j k, p.Unmarked j → p.Unmarked k → p.inGles j = true → p.inGles k = true →
    ovlId j = ovlId k
  lt : ∀ j k, p.Unmarked j → p.Unmarked k → j < k → ¬(p.inGles j = true ∧ p.inGles k = true) →
    ovlId j < ovlId k
  clear : ∀ c ∈ p.clear, ∀ k, p.Unmarked k → ovlId c < ovlId k
  onto : ∃ n : ℕ, ∀ v : ℤ, (∃ k, (p.Unmarked k ∨ p.clear = some k) ∧ ovlId k = v) ↔ 0 ≤ v ∧ v < n

/-- The marked layer is not the first one of a GLES range with other layers. -/
def ClearApart (p : Part) : Prop := ∀ c ∈ p.clear, (c : ℤ) = p.head → p.tail ≤ p.head

section Numbered

variable (hrange : p.RangeOk) (hone : ∀ j k, p.clearAt j = true → p.clearAt k = true → j = k)
include hrange hone

theorem head_unmarked (hapart : p.ClearApart) (hk : p.Unmarked k) (hin : p.inGles k = true) :
    p.Unmarked p.head.toNat ∧ p.isPlane p.head.toNat = true := by
  obtain ⟨hlt, hplain⟩ := hk
  rw [inGles, decide_eq_true_eq] at hin
  unfold RangeOk at hrange
  have hcast : (p.head.toNat : ℤ) = p.head := by omega
  refine ⟨⟨by omega, ?_⟩, by simp [isPlane, hcast]⟩
  rw [eq_false_iff]
  intro hmark
  have hfirst : p.clear = some p.head.toNat := by
    cases hclear : p.clear with
    | none => exact absurd hmark (find?_eq_none.mp hclear _ (mem_range.mpr (by omega)))
    | some c => rw [hone c _ (find?_some hclear) hmark]
  have htail := hapart _ hfirst hcast
  have hsame : p.head.toNat = k := by omega
  rw [hsame, hplain] at hmark
  cases hmark

theorem ovlId_plane (ovlId : ℕ → ℤ) (layerMap : List ℕ) (hapart : p.ClearApart)
    (hk : p.Unmarked k) :
    ∃ i, i = (if p.inGles k then p.head.toNat else k) ∧ p.Unmarked i ∧ p.isPlane i = true ∧
      (p.blobs ovlId layerMap p.layers.length).ovlId k =
        (p.blobs ovlId layerMap p.layers.length).ovlId i ∧
      (p.blobs ovlId layerMap p.layers.length).ovlId i =
        (p.clear.toList.length + count p.Own i : ℕ) := by
  have hvalue {i : ℕ} (hi : p.Unmarked i) (hown : p.isPlane i = true) :
      (p.blobs ovlId layerMap p.layers.length).ovlId i =
        (p.clear.toList.length + count p.Own i : ℕ) := by
    rw [ovlId_blobs hrange hi.2 hi.1, if_pos hown]
    push_cast
    omega
  by_cases hin : p.inGles k = true
  · obtain ⟨hhead, hown⟩ := head_unmarked hrange hone hapart hk hin
    exact ⟨_, (if_pos hin).symm, hhead, hown, ovlId_gles hrange hhead.2 hk.2 hin hk.1,
      hvalue hhead hown⟩
  · have hown : p.isPlane k = true := by simp [isPlane, hin]
    exact ⟨k, (if_neg hin).symm, hk, hown, rfl, hvalue hk hown⟩

theorem Numbered.of_clearApart (hapart : p.ClearApart) :
    p.Numbered (p.blobs ovlId layerMap p.layers.length).ovlId := by
  have hplane {k : ℕ} (hk : p.Unmarked k) :=
    ovlId_plane hrange hone ovlId layerMap hapart hk
  refine ⟨?_, ?_, ?_, p.clear.toList.length + count p.Own p.layers.length, ?_⟩
  · intro j k hj hk hinj hink
    obtain ⟨i, rfl, -, -, hidj, -⟩ := hplane hj
    obtain ⟨i, rfl, -, -, hidk, -⟩ := hplane hk
    rw [hidj, hidk, if_pos hinj, if_pos hink]
  · intro j k hj hk hlt hnot
    obtain ⟨i, hi, hunmarked, hown, hid, -⟩ := hplane hk
    rw [hid]
    refine ovlId_lt hrange hj.2 hunmarked.2 hown ?_ hunmarked.1
    rw [hi]
    split
    case isTrue hin =>
      simp only [inGles, decide_eq_true_eq] at hin hnot
      omega
    case isFalse => exact hlt
  · intro c hc k hk
    obtain ⟨i, -, -, -, hid, hvalue⟩ := hplane hk
    rw [ovlId_clear hrange hc, hid, hvalue, hc]
    simp
    omega
  · intro v
    constructor
    · rintro ⟨k, hk | hk, rfl⟩
      · obtain ⟨i, -, hi, hown, hid, hvalue⟩ := hplane hk
        have := count_strict_mono (p := p.Own) ⟨hi.2, hown⟩ hi.1
        rw [hid, hvalue]
        omega
      · rw [ovlId_clear hrange hk, hk]
        simp
        omega
    · rintro ⟨hlo, hhi⟩
      rcases lt_or_ge v p.clear.toList.length with hlt | hge
      · cases hclear : p.clear with
        | none => simp [hclear] at hlt; omega
        | some c =>
          simp [hclear] at hlt
          exact ⟨c, .inr rfl, by rw [ovlId_clear hrange hclear]; omega⟩
      · obtain ⟨k, hk, hown, hcount⟩ := exists_count_eq (P := p.Own)
          (v := (v - p.clear.toList.length).toNat) (n := p.layers.length) (by omega)
        refine ⟨k, .inl ⟨hk, hown.1⟩, ?_⟩
        rw [ovlId_blobs hrange hown.1 hk, if_pos hown.2, hcount]
        omega

/-- The numbers are right exactly if the marked layer is apart from the GLES range. -/
theorem numbered_iff :
    p.Numbered (p.blobs ovlId layerMap p.layers.length).ovlId ↔ p.ClearApart := by
  refine ⟨fun h => ?_, Numbered.of_clearApart hrange hone⟩
  intro c hc hhead
  by_contra htail
  have hmark := lt_of_clear hc
  have hunmarked (k : ℕ) (hne : k ≠ c) (hlt : k < p.layers.length) : p.Unmarked k :=
    ⟨hlt, eq_false_iff.mpr fun hk => hne (hone k c hk hmark.2)⟩
  have hlast : p.tail < p.layers.length := by
    unfold RangeOk at hrange
    omega
  have hnext := hunmarked (c + 1) (by omega) (by omega)
  -- the layer above the marked one has the number of the plane before it
  have hid : (p.blobs ovlId layerMap p.layers.length).ovlId (c + 1) = count p.Own c := by
    have hnot : ¬p.isPlane (c + 1 : ℕ) = true := by
      simp [isPlane, inGles]
      omega
    have hcount : count p.Own (c + 1) = count p.Own c := by
      rw [count_succ, if_neg (by simp [Own, hmark.2]), add_zero]
    rw [ovlId_blobs hrange hnext.2 hnext.1, if_neg hnot, hcount, hc, Option.toList_some,
      List.length_singleton]
    omega
  cases c with
  | zero =>
    have := h.clear 0 hc 1 hnext
    rw [ovlId_clear hrange hc, hid] at this
    simp at this
  | succ j =>
    have hj := hunmarked j (by omega) (by omega)
    have hout : p.inGles j = false := by
      simp [inGles]
      omega
    have hown : p.Own j := ⟨hj.2, by simp [isPlane, hout]⟩
    have hlt := h.lt j (j + 1 + 1) hj hnext (by omega) (by simp [hout])
    rw [hid, ovlId_blobs hrange hj.2 hj.1, if_pos hown.2, count_succ, if_pos hown, hc,
      Option.toList_some, List.length_singleton] at hlt
    omega

end Numbered

/-- The planes that are not extended. -/
def bases (p : Part) (planes : List Plane) : List Plane := planes.filter (!p.extendedAt ·.layer)

/-- Every extended plane has the bit of the last plane below it that is not extended. -/
def Follows (p : Part) (planes : List Plane) : Prop :=
  ∀ below q above, planes = below ++ q :: above → p.extendedAt q.layer = true →
    ∀ b ∈ (p.bases below).getLast?, q.bit = b.bit

/-- The marked layer, if it is extended, has the bit of the last plane of a layer below it that is
not extended. It is the first plane, so it is compared in the order of the layers. -/
def ClearFollows (p : Part) (planes : List Plane) : Prop :=
  ∀ q ∈ planes, p.clear = some q.layer → p.extendedAt q.layer = true →
    ∀ b ∈ (p.bases (planes.filter (·.layer < q.layer))).getLast?, q.bit = b.bit

/-- The bit that is wasted on a first plane that is extended. -/
def wasted (p : Part) (planes : List Plane) : ℕ :=
  if planes.head?.any (p.extendedAt ·.layer) then 1 else 0

/-- The map when some planes have been placed. -/
structure Placed (p : Part) (layerMap : List ℕ) (st : BlobState) : Prop where
  whole : st.planes = [] → st.layerMap = layerMap
  first : st.planes ≠ [] → st.layerMapIdx = st.layerMap.head?
  rest : st.layerMap.filter (some · ≠ st.layerMapIdx) =
    layerMap.drop ((p.bases st.planes).length + p.wasted st.planes)
  last : ∀ b ∈ (p.bases st.planes).getLast?, b.bit = st.layerMapIdx
  follows : p.Follows st.planes
  bits : (p.bases st.planes).map Plane.bit =
    (range (p.bases st.planes).length).map fun j => layerMap[p.wasted st.planes + j]?

theorem filter_ne_head {l : List ℕ} (h : l.Nodup) : l.filter (some · ≠ l.head?) = l.tail := by
  cases l with
  | nil => rfl
  | cons a l =>
    have hself : l.filter (some · ≠ some a) = l := by
      rw [filter_eq_self]
      rintro b hb
      have := ne_of_mem_of_not_mem hb (nodup_cons.mp h).1
      simpa using this
    simpa using hself

theorem bases_concat (p : Part) (planes : List Plane) (q : Plane) :
    p.bases (planes ++ [q]) = p.bases planes ++ if p.extendedAt q.layer then [] else [q] := by
  cases hext : p.extendedAt q.layer <;> simp [bases, hext]

theorem wasted_concat {q : Plane} (h : planes ≠ [] ∨ p.extendedAt q.layer = false) :
    p.wasted (planes ++ [q]) = p.wasted planes := by
  cases planes with
  | nil => simp [wasted, h.resolve_left fun hne => hne rfl]
  | cons a planes => rfl

/-- A plane that takes the bit of the last base may follow. -/
theorem Follows.concat (h : p.Follows planes) {q : Plane}
    (hq : p.extendedAt q.layer = true → ∀ b ∈ (p.bases planes).getLast?, q.bit = b.bit) :
    p.Follows (planes ++ [q]) := by
  intro below q' above hsplit hext
  rcases eq_nil_or_concat' above with rfl | ⟨above, x, rfl⟩
  · obtain ⟨rfl, heq⟩ := append_inj' hsplit rfl
    obtain rfl := singleton_inj.mp heq
    exact hq hext
  · rw [← cons_append, ← append_assoc] at hsplit
    exact h below q' above (append_inj_left' hsplit rfl) hext

section Place

variable (hnodup : layerMap.Nodup) {st : BlobState} (h : p.Placed layerMap st) {i : ℤ}
  (hplane : p.isPlane i = true)
include hnodup h hplane

theorem Placed.extended (hext : p.extendedAt k = true) : p.Placed layerMap (p.place st i k) := by
  simp only [Part.place, hplane, if_true, hext]
  by_cases hnil : st.planes = []
  · -- the bit of this plane is wasted
    have hfollows : p.Follows [⟨k, layerMap.head?⟩] := by
      have hnone : p.Follows [] := by simp [Follows]
      simpa using hnone.concat (by simp [bases])
    rw [hnil, h.whole hnil]
    refine ⟨by simp, fun _ => rfl, ?_, ?_, hfollows, ?_⟩
    · rw [filter_ne_head hnodup]
      simp [bases, wasted, hext]
    all_goals simp [bases, hext]
  · have hbases (bit : Option ℕ) : p.bases (st.planes ++ [⟨k, bit⟩]) = p.bases st.planes := by
      simp [bases_concat, hext]
    rw [← h.first hnil]
    refine ⟨by simp, fun _ => h.first hnil, ?_, ?_,
      h.follows.concat fun _ b hb => (h.last b hb).symm, ?_⟩ <;>
      simp only [hbases, wasted_concat (Or.inl hnil)]
    · exact h.rest
    · exact h.last
    · exact h.bits

theorem Placed.base (hext : p.extendedAt k = false) : p.Placed layerMap (p.place st i k) := by
  have hbit : (layerMap.drop ((p.bases st.planes).length + p.wasted st.planes)).head? =
      layerMap[p.wasted st.planes + (p.bases st.planes).length]? := by
    rw [head?_drop, add_comm]
  have hbases (bit : Option ℕ) : p.bases (st.planes ++ [⟨k, bit⟩]) =
      p.bases st.planes ++ [⟨k, bit⟩] := by
    simp [bases_concat, hext]
  have hwasted (bit : Option ℕ) : p.wasted (st.planes ++ [⟨k, bit⟩]) = p.wasted st.planes :=
    wasted_concat (Or.inr hext)
  simp only [Part.place, hplane, if_true, hext, false_eq_true, if_false, h.rest]
  refine ⟨by simp, fun _ => rfl, ?_, ?_, h.follows.concat (by simp [hext]), ?_⟩ <;>
    simp only [hbases, hwasted]
  · rw [filter_ne_head (hnodup.sublist (drop_sublist _ _)), tail_drop, length_append,
      length_singleton, Nat.add_right_comm]
  · simp
  · rw [map_append, h.bits, length_append, length_singleton, range_succ, map_append, hbit]
    rfl

end Place

/-- The planes have the bits of the map in order. -/
theorem placed_blobs (hnodup : layerMap.Nodup) (k : ℕ) :
    p.Placed layerMap (p.blobs ovlId layerMap k) := by
  have hplace {st : BlobState} (h : p.Placed layerMap st) (i : ℤ) (k : ℕ) :
      p.Placed layerMap (p.place st i k) := by
    cases hplane : p.isPlane i with
    | true =>
      cases hext : p.extendedAt k with
      | true => exact h.extended hnodup hplane hext
      | false => exact h.base hnodup hplane hext
    | false =>
      simp only [Part.place, hplane, false_eq_true, if_false]
      exact { h with }
  have hinit : p.Placed layerMap ⟨[], ovlId, layerMap, none⟩ := by
    refine ⟨fun _ => rfl, fun h => absurd rfl h, ?_, ?_, ?_, rfl⟩ <;> simp [bases, wasted, Follows]
  induction k with
  | zero =>
    rw [blobs]
    cases p.clear with
    | none => exact hinit
    | some c => exact hplace hinit _ c
  | succ k ih =>
    rw [blobs]
    split
    · exact ih
    · exact hplace ih _ k

/-- The layers of the planes in their order. -/
def planeLayers (p : Part) : List ℕ :=
  p.clear.toList ++ (range p.layers.length).filter fun k => decide (p.Own k)

/-- The number of planes that are not extended. -/
def physCount (p : Part) : ℕ := (p.planeLayers.filter (!p.extendedAt ·)).length

theorem wasted_blobs (hlayers : p.layers ≠ []) (hrange : p.RangeOk) :
    p.wasted (p.blobs ovlId layerMap p.layers.length).planes =
      if p.extendedAt (p.clear.getD 0) then 1 else 0 := by
  have hfirst : ((p.blobs ovlId layerMap p.layers.length).planes.map Plane.layer).head? =
      some (p.clear.getD 0) := by
    rw [layers_blobs hrange]
    cases hclear : p.clear with
    | some c => rfl
    | none =>
      obtain ⟨n, hn⟩ := exists_eq_succ_of_ne_zero (mt length_eq_zero_iff.mp hlayers)
      have hplain : p.clearAt 0 = false := by
        have := find?_eq_none.mp hclear 0 (by simp [hn])
        simpa using this
      have hplane : p.isPlane (0 : ℕ) = true := by
        rw [isPlane, inGles]
        unfold RangeOk at hrange
        simp
        omega
      have hown : p.Own 0 := ⟨hplain, hplane⟩
      simp [hn, range_succ_eq_map, hown]
  rw [wasted]
  rw [head?_map] at hfirst
  obtain ⟨q, hq, hlayer⟩ := Option.map_eq_some_iff.mp hfirst
  rw [hq, Option.any_some, hlayer]

theorem length_bases_blobs (hrange : p.RangeOk) :
    (p.bases (p.blobs ovlId layerMap p.layers.length).planes).length = p.physCount := by
  rw [physCount, planeLayers, ← layers_blobs hrange, filter_map, length_map]
  rfl

/-- The marked layer is the first plane and has the first bit. -/
theorem planes_blobs_clear (hrange : p.RangeOk) (hc : p.clear = some c) (ovlId : ℕ → ℤ)
    (layerMap : List ℕ) (k : ℕ) :
    ∃ planes, (p.blobs ovlId layerMap k).planes = ⟨c, layerMap.head?⟩ :: planes := by
  induction k with
  | zero => exact ⟨[], by simp [blobs, hc, place, isPlane_clear hrange]⟩
  | succ k ih =>
    obtain ⟨planes, hplanes⟩ := ih
    rw [blobs, place]
    split
    · exact ⟨planes, hplanes⟩
    · split
      · exact ⟨planes ++ [_], by rw [hplanes]; rfl⟩
      · exact ⟨planes, hplanes⟩

/-- The planes other than the marked one are the layers that count as planes of their own. -/
theorem mem_layers_blobs (hrange : p.RangeOk) (hc : p.clear = some c) (ovlId : ℕ → ℤ)
    (layerMap : List ℕ) (hlt : k < c) :
    k ∈ (p.blobs ovlId layerMap p.layers.length).planes.map Plane.layer ↔ p.Own k := by
  have hlayers := (lt_of_clear hc).1
  rw [layers_blobs hrange, hc, mem_append, Option.mem_toList, mem_filter, mem_range,
    decide_eq_true_eq, Option.some_inj]
  refine ⟨fun h => (h.resolve_left (by omega)).2, fun h => .inr ⟨by omega, h⟩⟩

/-- Where the first plane is extended, no plane that is not extended has the first bit. -/
theorem bit_ne_first (hlayers : p.layers ≠ []) (hrange : p.RangeOk) (hnodup : layerMap.Nodup)
    (hbits : p.physCount ≤ layerMap.length) (hext : p.extendedAt (p.clear.getD 0) = true)
    {b : Plane} (hb : b ∈ p.bases (p.blobs ovlId layerMap p.layers.length).planes) :
    b.bit ≠ layerMap.head? := by
  have hplaced : p.Placed layerMap (p.blobs ovlId layerMap p.layers.length) :=
    placed_blobs hnodup _
  have hmem := mem_map_of_mem (f := Plane.bit) hb
  rw [hplaced.bits, wasted_blobs hlayers hrange, if_pos hext] at hmem
  obtain ⟨j, -, hbit⟩ := mem_map.mp hmem
  have hpos : 0 < layerMap.length := by
    have := length_pos_of_mem hb
    rw [length_bases_blobs hrange] at this
    omega
  rw [← hbit, head?_eq_getElem?]
  intro heq
  have := (List.getElem?_inj hpos hnodup).mp heq.symm
  omega

/-- The planes that are not extended are at or above the marked layer. -/
def ClearLowest (p : Part) (c : ℕ) : Prop := ∀ k < c, p.Own k → p.extendedAt k = true

/-- The marked layer goes first, so that only extended layers may be below it. -/
theorem clearFollows_iff (ovlId : ℕ → ℤ) (hlayers : p.layers ≠ []) (hrange : p.RangeOk)
    (hnodup : layerMap.Nodup) (hbits : p.physCount ≤ layerMap.length) :
    p.ClearFollows (p.blobs ovlId layerMap p.layers.length).planes ↔
      ∀ c ∈ p.clear, p.extendedAt c = true → p.ClearLowest c := by
  constructor
  · intro hfollows c hc hext k hlt hown
    by_contra hbase
    obtain ⟨planes, hplanes⟩ := planes_blobs_clear hrange hc ovlId layerMap p.layers.length
    -- the plane of the layer `k` is one of those that the marked layer is compared with
    obtain ⟨q, hq, rfl⟩ := mem_map.mp ((mem_layers_blobs hrange hc ovlId layerMap hlt).mpr hown)
    have hmem : q ∈ p.bases ((p.blobs ovlId layerMap p.layers.length).planes.filter
        (·.layer < c)) := by
      simpa [bases, hq, hlt] using hbase
    obtain ⟨b, hlast⟩ := Option.isSome_iff_exists.mp
      (getLast?_isSome.mpr (ne_nil_of_mem hmem))
    have heq := hfollows ⟨c, layerMap.head?⟩ (by simp [hplanes]) hc hext b hlast
    have hb := mem_of_getLast? hlast
    have hbase : b ∈ p.bases (p.blobs ovlId layerMap p.layers.length).planes := by
      simp only [bases, mem_filter] at hb ⊢
      exact ⟨hb.1.1, hb.2⟩
    exact bit_ne_first hlayers hrange hnodup hbits (by rw [hc]; exact hext) hbase heq.symm
  · intro hlowest q _ hc hext b hlast
    have hb := mem_of_getLast? hlast
    simp only [bases, mem_filter, decide_eq_true_eq] at hb
    have hown := (mem_layers_blobs hrange hc ovlId layerMap hb.1.2).mp (mem_map_of_mem hb.1.1)
    simp [hlowest _ hc hext _ hb.1.2 hown] at hb

/-- What the function should do: number the layers, give the planes that are not extended different
bits of the map, and each extended one the bit of its plane. -/
structure Dispatched (p : Part) (layerMap : List ℕ) (st : BlobState) : Prop where
  numbered : p.Numbered st.ovlId
  bits : ∃ bits : List ℕ, bits.Nodup ∧ bits ⊆ layerMap ∧
    (p.bases st.planes).map Plane.bit = bits.map some
  follows : p.Follows st.planes
  clearFollows : p.ClearFollows st.planes

/-- What the function is called with: layers of which at most one is marked, a GLES range, and a map
with a bit for each plane that is not extended. -/
structure BlobInput (p : Part) (layerMap : List ℕ) : Prop where
  layers : p.layers ≠ []
  range : p.RangeOk
  one : ∀ j k, p.clearAt j = true → p.clearAt k = true → j = k
  sorted : layerMap.Pairwise (· < ·)
  bits : p.physCount ≤ layerMap.length

/-- The marked layer is apart, it is not extended over a plane, and no bit is wasted that is
needed. -/
def Dispatchable (p : Part) (layerMap : List ℕ) : Prop :=
  p.ClearApart ∧ (∀ c ∈ p.clear, p.extendedAt c = true → p.ClearLowest c) ∧
    (p.extendedAt (p.clear.getD 0) = true → p.physCount = 0 ∨ p.physCount < layerMap.length)

/-- The bits are enough exactly if no base comes too late. -/
theorem exists_bits_iff (hnodup : layerMap.Nodup) (w e : ℕ) :
    (∃ bits : List ℕ, bits.Nodup ∧ bits ⊆ layerMap ∧
      (range e).map (fun j => layerMap[w + j]?) = bits.map some) ↔
        e = 0 ∨ w + e ≤ layerMap.length := by
  constructor
  · rintro ⟨bits, -, -, heq⟩
    rw [or_iff_not_imp_left]
    intro hpos
    have hlast : layerMap[w + (e - 1)]? ∈ bits.map some :=
      heq ▸ mem_map_of_mem (mem_range.mpr (sub_one_lt hpos))
    obtain ⟨b, -, hb⟩ := mem_map.mp hlast
    have := (List.getElem?_eq_some_iff.mp hb.symm).1
    omega
  · intro hfit
    refine ⟨(layerMap.drop w).take e, ?_, ?_, ?_⟩
    · exact hnodup.sublist ((take_sublist _ _).trans (drop_sublist _ _))
    · exact ((take_sublist _ _).trans (drop_sublist _ _)).subset
    · refine ext_getElem (by simp; omega) fun j hj _ => ?_
      rw [length_map, length_range] at hj
      simp [getElem?_eq_getElem (l := layerMap) (i := w + j) (by omega)]

/-- `_dispatch_lye_blob_idx` returns, and has done what it should exactly if the marked layer is
apart and not extended over a plane, and no bit is wasted that is needed. -/
theorem dispatchBlobs_iff (hinput : p.BlobInput layerMap) (ovlId : ℕ → ℤ) :
    ∃ st, p.dispatchBlobs ovlId layerMap = some st ∧
      (p.Dispatched layerMap st ↔ p.Dispatchable layerMap) := by
  obtain ⟨hlayers, hrange, hone, hsorted, hbits⟩ := hinput
  have hnodup : layerMap.Nodup := hsorted.imp ne_of_lt
  have hplaced : p.Placed layerMap (p.blobs ovlId layerMap p.layers.length) :=
    placed_blobs hnodup _
  have hfit := exists_bits_iff hnodup
    (p.wasted (p.blobs ovlId layerMap p.layers.length).planes) p.physCount
  rw [← length_bases_blobs hrange, ← hplaced.bits, length_bases_blobs hrange,
    wasted_blobs hlayers hrange] at hfit
  have hneeded : (p.physCount = 0 ∨ (if p.extendedAt (p.clear.getD 0) then 1 else 0) +
      p.physCount ≤ layerMap.length) ↔ (p.extendedAt (p.clear.getD 0) = true →
        p.physCount = 0 ∨ p.physCount < layerMap.length) := by
    split <;> simp_all
    omega
  have hnumbered : p.Numbered (p.blobs ovlId layerMap p.layers.length).ovlId ↔ p.ClearApart :=
    numbered_iff hrange hone
  have hclear := clearFollows_iff ovlId hlayers hrange hnodup hbits
  refine ⟨_, dispatchBlobs_eq ovlId layerMap, ?_, ?_⟩
  · intro h
    exact ⟨hnumbered.mp h.numbered, hclear.mp h.clearFollows, hneeded.mp (hfit.mp h.bits)⟩
  · intro ⟨hapart, hlowest, hleft⟩
    exact ⟨hnumbered.mpr hapart, hfit.mpr (hneeded.mpr hleft), hplaced.follows,
      hclear.mpr hlowest⟩

theorem one_clearAt (hmark : ∀ k, p.clearAt k = decide (k = c)) (j k : ℕ)
    (hj : p.clearAt j = true) (hk : p.clearAt k = true) : j = k := by
  rw [hmark, decide_eq_true_eq] at hj hk
  rw [hj, hk]

/-- A plain layer, a marked one above it, an extended layer and a GLES layer. -/
def markedMiddle : Part :=
  ⟨[plainLayer, plainLayer.setClear true, { plainLayer with extSelLayer := 0 }, plainLayer], 3, 3⟩

theorem markedMiddle_input : markedMiddle.BlobInput [0, 1, 2] where
  layers := by simp [markedMiddle]
  range := by decide
  one := one_clearAt (c := 1) fun k => by
    match k with
    | 0 | 1 | 2 | 3 | _ + 4 => rfl
  sorted := by decide
  bits := by decide

/-- The marked layer is in the middle. -/
theorem dispatched_markedMiddle : markedMiddle.BlobInput [0, 1, 2] ∧
    ∃ st, markedMiddle.dispatchBlobs (fun _ => 0) [0, 1, 2] = some st ∧
      markedMiddle.Dispatched [0, 1, 2] st := by
  obtain ⟨st, hst, hiff⟩ := dispatchBlobs_iff markedMiddle_input fun _ => 0
  have hclear : ∀ c ∈ markedMiddle.clear, markedMiddle.extendedAt c = false := by decide
  exact ⟨markedMiddle_input, st, hst, hiff.mpr ⟨fun _ _ _ => by decide,
    fun c hc hext => absurd hext (by simp [hclear c hc]), by decide⟩⟩

/-- A GLES range whose first layer is marked. -/
def markedHead : Part := ⟨[plainLayer.setClear true, plainLayer], 0, 1⟩

/-- A marked layer that is extended, over a plain one. -/
def markedExtended : Part :=
  ⟨[plainLayer, { plainLayer.setClear true with extSelLayer := 0 }], -1, -1⟩

/-- Neither is dispatched: the two layers of the first get the same number, and the plain layer
of the second no bit. -/
theorem not_dispatched_marked :
    markedHead.BlobInput [0, 1] ∧ markedExtended.BlobInput [0] ∧
      (∀ st, markedHead.dispatchBlobs (fun _ => 0) [0, 1] = some st →
        ¬markedHead.Dispatched [0, 1] st) ∧
      ∀ st, markedExtended.dispatchBlobs (fun _ => 0) [0] = some st →
        ¬markedExtended.Dispatched [0] st := by
  refine ⟨⟨by simp [markedHead], by decide, one_clearAt (c := 0) fun k => ?_, by decide, by decide⟩,
    ⟨by simp [markedExtended], by decide, one_clearAt (c := 1) fun k => ?_, by decide, by decide⟩,
    ?_, ?_⟩
  · match k with
    | 0 | 1 | _ + 2 => rfl
  · match k with
    | 0 | 1 | _ + 2 => rfl
  · intro st hst hright
    cases hst
    exact absurd (hright.numbered.clear 0 rfl 1 ⟨by decide, rfl⟩) (by decide)
  · intro st hst hright
    cases hst
    obtain ⟨bits, -, -, hbits⟩ := hright.bits
    change [none] = bits.map some at hbits
    cases bits <;> simp at hbits

end Part

end Mt8169.Layering
