import Mathlib.Algebra.BigOperators.Fin
import Mt8169.Lib.SweepLine
import Mt8169.Layering.SortLists

/-!
# The weight of overlapping layers

`scan_y_overlap` goes through the lines where layers begin and end. The list by x has the entries of
the layers on the current line, and is only gone through where their weights together are above the
limit and the maximum so far. The result is at least the largest weight over a pixel, and equal to
it above the limit. The sums are signed 32-bit numbers: the weights of the layers on one line must
fit into them.
-/

namespace Mt8169.Layering

open MachineInt WeakestPre SweepLine List Int

section Entries

variable {ι : Type} [DecidableEq ι] {S : Spans ι HrtSortEntry} {A : Finset ι}
  {es p q : List HrtSortEntry} {e : HrtSortEntry} {i : ι}

/-- The keys and the weights are those of the entries. -/
structure OfEntries (S : Spans ι HrtSortEntry) : Prop where
  key : S.key = HrtSortEntry.key
  weight : S.weight = HrtSortEntry.overlapW

omit [DecidableEq ι] in
theorem OfEntries.before_iff (hS : OfEntries S) {a b : HrtSortEntry} :
    S.Before a b ↔ a.key < b.key ∨ (a.key = b.key ∧ (0 < a.overlapW ∨ b.overlapW < 0)) := by
  rw [Spans.Before, hS.key, hS.weight]

omit [DecidableEq ι] in
/-- An insertion keeps the list sorted. -/
theorem OfEntries.pairwise_orderedInsert (hS : OfEntries S) (hw : e.overlapW ≠ 0)
    (hsorted : es.Pairwise S.Before) :
    (es.orderedInsert HrtSortEntry.Stops e).Pairwise S.Before := by
  induction es with
  | nil => exact pairwise_singleton _ _
  | cons t ts ih =>
    obtain ⟨ht, hts⟩ := pairwise_cons.mp hsorted
    by_cases hstop : e.Stops t
    · rw [orderedInsert_cons_of_le _ ts hstop, pairwise_cons]
      refine ⟨fun u hu => ?_, hsorted⟩
      have hle : t.key ≤ u.key := by
        rcases mem_cons.mp hu with rfl | hu
        · exact le_refl _
        · exact hS.key ▸ (ht u hu).key_le
      rw [HrtSortEntry.Stops] at hstop
      rw [hS.before_iff]
      omega
    · rw [orderedInsert_of_not_le _ ts hstop, pairwise_cons]
      refine ⟨fun u hu => ?_, ih hts⟩
      rcases (mem_orderedInsert _).mp hu with rfl | hu
      · rw [HrtSortEntry.Stops] at hstop
        rw [hS.before_iff]
        omega
      · exact ht u hu

theorem OfEntries.sweeps_addEntries (hS : OfEntries S) (h : S.Sweeps A es) (hi : i ∉ A) :
    S.Sweeps (insert i A) (addEntries (S.first i) (S.last i) es) where
  nodup := by
    have hfirst : S.first i ∉ es := by
      intro hmem
      obtain ⟨j, hj, heq | heq⟩ := (h.mem _).mp hmem
      · exact hi (S.first_inj heq ▸ hj)
      · exact Spans.first_ne_last i j heq
    have hlast : S.last i ∉ es := by
      intro hmem
      obtain ⟨j, hj, heq | heq⟩ := (h.mem _).mp hmem
      · exact Spans.first_ne_last j i heq.symm
      · exact hi (S.last_inj heq ▸ hj)
    rw [(addEntries_perm _ _ es).nodup_iff, nodup_cons, nodup_cons, mem_cons, not_or]
    exact ⟨⟨Spans.first_ne_last i i, hfirst⟩, hlast, h.nodup⟩
  mem := by
    intro e
    rw [mem_addEntries, h.mem, Finset.exists_mem_insert, or_assoc]
  sorted := by
    have hpos := S.pos i
    have hfirst : (S.first i).overlapW = S.w i := by rw [← S.weight_first, hS.weight]
    have hlast : (S.last i).overlapW = -S.w i := by rw [← S.weight_last, hS.weight]
    by_cases hnil : es = []
    · have hle := S.key_le i
      rw [hS.key] at hle
      have hbefore : S.Before (S.first i) (S.last i) := by
        rw [hS.before_iff]
        omega
      rw [addEntries, if_pos hnil]
      simpa using hbefore
    · rw [addEntries_eq _ _ hnil]
      apply hS.pairwise_orderedInsert (by omega)
      exact hS.pairwise_orderedInsert (by omega) h.sorted

theorem sweeps_filter {keep : HrtSortEntry → Bool} (h : S.Sweeps A es)
    (hkeep : ∀ j, (keep (S.first j) = true ↔ j ≠ i) ∧ (keep (S.last j) = true ↔ j ≠ i)) :
    S.Sweeps (A.erase i) (es.filter keep) where
  nodup := h.nodup.filter keep
  sorted := h.sorted.filter keep
  mem := by
    intro e
    rw [mem_filter, h.mem]
    have hkept (j : ι) (hej : e = S.first j ∨ e = S.last j) : keep e = true ↔ j ≠ i := by
      rcases hej with rfl | rfl
      · exact (hkeep j).1
      · exact (hkeep j).2
    constructor
    · rintro ⟨⟨j, hj, hej⟩, hk⟩
      exact ⟨j, Finset.mem_erase.mpr ⟨(hkept j hej).mp hk, hj⟩, hej⟩
    · rintro ⟨j, hj, hej⟩
      obtain ⟨hne, hmem⟩ := Finset.mem_erase.mp hj
      exact ⟨⟨j, hmem, hej⟩, (hkept j hej).mpr hne⟩

/-- If the sums fit, the maximum is the largest of them, or the one from before. -/
theorem foldl_addOverlap (r : ℤ × ℤ) (hfit : ∀ p, p <+: es →
      s32 (r.1 + (p.map HrtSortEntry.overlapW).sum) = r.1 + (p.map HrtSortEntry.overlapW).sum) :
    r.2 ≤ (es.foldl addOverlap r).2 ∧
      (∀ p e, p ++ [e] <+: es →
        r.1 + ((p ++ [e]).map HrtSortEntry.overlapW).sum ≤ (es.foldl addOverlap r).2) ∧
      ((es.foldl addOverlap r).2 = r.2 ∨ ∃ p e, p ++ [e] <+: es ∧
        (es.foldl addOverlap r).2 = r.1 + ((p ++ [e]).map HrtSortEntry.overlapW).sum) := by
  induction es generalizing r with
  | nil => exact ⟨le_refl _, fun p e hp => by simp at hp, Or.inl rfl⟩
  | cons e es ih =>
    have hone : s32 (r.1 + e.overlapW) = r.1 + e.overlapW := by
      simpa using hfit [e] ⟨es, rfl⟩
    have hnext : addOverlap r e = (r.1 + e.overlapW, max (r.1 + e.overlapW) r.2) := by
      rw [addOverlap, hone]
    obtain ⟨hge, hall, hsome⟩ := ih (addOverlap r e) fun p hp => by
      simpa [hnext, add_assoc] using hfit (e :: p) (cons_prefix_cons.mpr ⟨rfl, hp⟩)
    rw [foldl_cons]
    simp only [hnext] at hge hall hsome ⊢
    refine ⟨le_trans (le_max_right ..) hge, fun p x hp => ?_, ?_⟩
    · cases p with
      | nil =>
        obtain ⟨rfl, -⟩ := cons_prefix_cons.mp hp
        simpa using le_trans (le_max_left ..) hge
      | cons a p =>
        obtain ⟨rfl, hrest⟩ := cons_prefix_cons.mp hp
        simpa [add_assoc] using hall p x hrest
    · rcases hsome with heq | ⟨p, x, hp, heq⟩
      · rw [heq]
        rcases max_choice (r.1 + e.overlapW) r.2 with hmax | hmax
        · exact Or.inr ⟨[], e, ⟨es, rfl⟩, by simpa using hmax⟩
        · exact Or.inl hmax
      · refine Or.inr ⟨e :: p, x, cons_prefix_cons.mpr ⟨rfl, hp⟩, ?_⟩
        rw [heq]
        simp [add_assoc]

theorem OfEntries.s32_sum (hS : OfEntries S) (h : S.Sweeps A (p ++ q))
    (hbound : ∑ i ∈ A, S.w i < 2 ^ 31) :
    s32 (p.map HrtSortEntry.overlapW).sum = (p.map HrtSortEntry.overlapW).sum := by
  have hnonneg : 0 ≤ ∑ i ∈ S.active A p, S.w i :=
    Finset.sum_nonneg fun i _ => Spans.w_nonneg i
  have hle : ∑ i ∈ S.active A p, S.w i ≤ ∑ i ∈ A, S.w i :=
    Finset.sum_le_sum_of_subset_of_nonneg Spans.active_subset fun i _ _ => Spans.w_nonneg i
  have hsum := h.sum_eq
  rw [hS.weight] at hsum
  rw [hsum]
  exact s32_eq (by omega) (by omega)

/-- `scan_x_overlap` finds the largest weight over a point. -/
theorem OfEntries.scanXOverlap_spec (hS : OfEntries S) (h : S.Sweeps A es)
    (hbound : ∑ i ∈ A, S.w i < 2 ^ 31) :
    (∀ x, S.load A x ≤ scanXOverlap es) ∧
      (scanXOverlap es = 0 ∨ ∃ x, scanXOverlap es ≤ S.load A x) := by
  have hfit (p : List HrtSortEntry) (hp : p <+: es) :
      s32 (0 + (p.map HrtSortEntry.overlapW).sum) = 0 + (p.map HrtSortEntry.overlapW).sum := by
    obtain ⟨q, rfl⟩ := hp
    rw [Int.zero_add, hS.s32_sum h hbound]
  obtain ⟨hge, hall, hsome⟩ := foldl_addOverlap (0, 0) hfit
  refine ⟨fun x => ?_, ?_⟩
  · obtain ⟨p, q, rfl, hsum⟩ := h.exists_sum_eq_load x
    rw [← hsum, hS.weight]
    rcases eq_nil_or_concat' p with rfl | ⟨p, e, rfl⟩
    · exact hge
    · rw [← Int.zero_add (List.sum _)]
      exact hall p e ⟨q, rfl⟩
  · refine hsome.imp_right ?_
    rintro ⟨p, e, ⟨q, rfl⟩, heq⟩
    have hsum := h.sum_eq
    have hle := Spans.Sweeps.sum_le_load (S := S) (A := A) (p := p) (e := e) (q := q)
      (by simpa using h)
    rw [hS.weight] at hsum
    rw [Int.zero_add] at heq
    exact ⟨S.key e, (heq.trans hsum).le.trans hle⟩

end Entries

/-- The layer covers a column. -/
def LayerConfig.CoversX (c : LayerConfig) (x : ℤ) : Prop :=
  c.dstOffsetX ≤ x ∧ x ≤ c.dstOffsetX + c.dstWidth - 1
  deriving Decidable

/-- The layer covers a line. -/
def LayerConfig.CoversY (c : LayerConfig) (y : ℤ) : Prop :=
  c.dstOffsetY ≤ y ∧ y ≤ c.dstOffsetY + c.dstHeight - 1
  deriving Decidable

/-- Layers that are not empty and end inside of the signed numbers, with positive weights. -/
structure WeighedLayers where
  layers : List LayerConfig
  w : ℤ → ℤ
  pos : ∀ i, 0 < w i
  wide : ∀ c ∈ layers, 1 ≤ c.dstWidth ∧ c.dstOffsetX + c.dstWidth ≤ 2 ^ 31 - 1
  high : ∀ c ∈ layers, 1 ≤ c.dstHeight ∧ c.dstOffsetY + c.dstHeight ≤ 2 ^ 31 - 1

namespace WeighedLayers

variable (W : WeighedLayers) (d : HrtDisp)

/-- The weight over a pixel. -/
def pixelWeight (x y : ℤ) : ℤ :=
  ∑ i : Fin W.layers.length with W.layers[i].CoversX x ∧ W.layers[i].CoversY y, W.w i

/-- The weight on a line. -/
def lineWeight (y : ℤ) : ℤ := ∑ i : Fin W.layers.length with W.layers[i].CoversY y, W.w i

/-- The largest weight over a pixel of the screen. -/
def IsPeak (peak : ℤ) : Prop :=
  (∀ x y : ℕ, W.pixelWeight x y ≤ peak) ∧ ∃ x y : ℕ, W.pixelWeight x y = peak

/-- The layers as intervals, by an offset and a size. -/
def spans (offset size : LayerConfig → ℕ)
    (hsize : ∀ c ∈ W.layers, 1 ≤ size c ∧ offset c + size c ≤ 2 ^ 31 - 1) :
    Spans (Fin W.layers.length) HrtSortEntry where
  key := HrtSortEntry.key
  weight := HrtSortEntry.overlapW
  first := fun i => (entriesOf d i (offset W.layers[i]) (size W.layers[i]) (W.w i)).1
  last := fun i => (entriesOf d i (offset W.layers[i]) (size W.layers[i]) (W.w i)).2
  w := fun i => W.w i
  pos := fun i => W.pos i
  weight_first := fun i => by rw [entriesOf_begin]
  weight_last := fun i => by rw [entriesOf_end]
  key_le := fun i => by
    obtain ⟨hone, hmax⟩ := hsize W.layers[i] (getElem_mem i.isLt)
    rw [entriesOf_begin, entriesOf_end]
    dsimp only
    rw [s32_eq (by omega) (by omega), s32_eq (by omega) (by omega)]
    omega
  first_inj := fun i j h => by
    dsimp only at h
    rw [entriesOf_begin, entriesOf_begin] at h
    exact Fin.ext (ofNat.inj (HrtSortEntry.mk.inj h).2.2.2)
  last_inj := fun i j h => by
    dsimp only at h
    rw [entriesOf_end, entriesOf_end] at h
    exact Fin.ext (ofNat.inj (HrtSortEntry.mk.inj h).2.2.2)

/-- The layers by their columns. -/
def spansX : Spans (Fin W.layers.length) HrtSortEntry :=
  W.spans d LayerConfig.dstOffsetX LayerConfig.dstWidth W.wide

/-- The layers by their lines. -/
def spansY : Spans (Fin W.layers.length) HrtSortEntry :=
  W.spans d LayerConfig.dstOffsetY LayerConfig.dstHeight W.high

section Spans

variable {W d} {offset size : LayerConfig → ℕ}
  {hsize : ∀ c ∈ W.layers, 1 ≤ size c ∧ offset c + size c ≤ 2 ^ 31 - 1}

theorem ofEntries_spans : OfEntries (W.spans d offset size hsize) := ⟨rfl, rfl⟩

theorem first_spans (i : Fin W.layers.length) :
    (W.spans d offset size hsize).first i = ⟨s32 (offset W.layers[i]), W.w i, d, i⟩ := rfl

theorem last_spans (i : Fin W.layers.length) :
    (W.spans d offset size hsize).last i =
      ⟨s32 ((offset W.layers[i] : ℤ) + size W.layers[i] - 1), -W.w i, d, i⟩ := rfl

theorem covers_spans {x : ℤ} {i : Fin W.layers.length} :
    (W.spans d offset size hsize).Covers x i ↔
      (offset W.layers[i] : ℤ) ≤ x ∧ x ≤ offset W.layers[i] + size W.layers[i] - 1 := by
  obtain ⟨hone, hmax⟩ := hsize W.layers[i] (getElem_mem i.isLt)
  rw [Spans.Covers, first_spans, last_spans, ofEntries_spans.key]
  dsimp only
  rw [s32_eq (by omega) (by omega), s32_eq (by omega) (by omega)]

end Spans

variable {W d} {s : DispInfo}

theorem load_line (x y : ℤ) :
    (W.spansX d).load (Finset.univ.filter ((W.spansY d).Covers y)) x = W.pixelWeight x y := by
  rw [Spans.load, Finset.filter_filter, pixelWeight]
  refine Finset.sum_congr ?_ fun i _ => rfl
  refine Finset.filter_congr fun i _ => ?_
  rw [spansX, spansY, covers_spans, covers_spans, and_comm]
  rfl

theorem load_univ (y : ℤ) : (W.spansY d).load Finset.univ y = W.lineWeight y := by
  rw [Spans.load, lineWeight]
  refine Finset.sum_congr ?_ fun i _ => rfl
  refine Finset.filter_congr fun i _ => ?_
  rw [spansY, covers_spans]
  rfl

/-- The layers that are on the current line after some entries. -/
abbrev activeY (W : WeighedLayers) (d : HrtDisp) (p : List HrtSortEntry) :
    Finset (Fin W.layers.length) := (W.spansY d).active Finset.univ p

/-- The state of `scan_y_overlap` after some entries of the list by y. -/
structure Scanning (W : WeighedLayers) (d : HrtDisp) (limitW : ℤ) (p xs : List HrtSortEntry)
    (sum peak : ℤ) : Prop where
  xList : (W.spansX d).Sweeps (W.activeY d p) xs
  sum : sum = ∑ i ∈ W.activeY d p, W.w i
  nonneg : 0 ≤ peak
  ge : ∀ p', p' <+: p → ∀ x, (W.spansX d).load (W.activeY d p') x ≤ peak
  eq : peak ≤ limitW ∨ ∃ x y, peak ≤ W.pixelWeight x y

section Scanning

variable {limitW sum peak : ℤ} {p q xs : List HrtSortEntry} {e : HrtSortEntry}

theorem Scanning.start (hlimit : 0 ≤ limitW) : W.Scanning d limitW [] [] 0 0 := by
  have hnil (p' : List HrtSortEntry) (hp' : p' <+: []) : W.activeY d p' = ∅ := by
    rw [prefix_nil.mp hp', activeY, Spans.active_nil]
  refine ⟨⟨nodup_nil, fun e => ?_, List.Pairwise.nil⟩, ?_, le_refl 0, ?_, Or.inl hlimit⟩
  · rw [hnil [] prefix_rfl]
    simp
  · rw [hnil [] prefix_rfl, Finset.sum_empty]
  · intro p' hp' x
    rw [hnil p' hp', Spans.load, Finset.filter_empty, Finset.sum_empty]

/-- A further entry keeps the peak of the lines so far. -/
theorem Scanning.next (h : W.Scanning d limitW p xs sum peak)
    (hlines : ∀ y, W.lineWeight y < 2 ^ 31)
    (hys : (W.spansY d).Sweeps Finset.univ (p ++ e :: q)) {xs' : List HrtSortEntry}
    (hxs' : (W.spansX d).Sweeps (W.activeY d (p ++ [e])) xs') {overlap : ℤ}
    (hoverlap : overlap = if s32 (sum + e.overlapW) > limitW ∧ s32 (sum + e.overlapW) > peak then
      scanXOverlap xs' else s32 (sum + e.overlapW)) :
    W.Scanning d limitW (p ++ [e]) xs' (s32 (sum + e.overlapW)) (max overlap peak) := by
  have hrest : p ++ e :: q = p ++ [e] ++ q := by simp
  -- the sum is the weight of the active layers, and it fits
  have hline : ∑ i ∈ W.activeY d (p ++ [e]), W.w i ≤ W.lineWeight e.key := by
    have hle := hys.sum_le_load
    rwa [load_univ] at hle
  have hactive : 0 ≤ ∑ i ∈ W.activeY d (p ++ [e]), W.w i :=
    Finset.sum_nonneg fun i _ => (W.pos i).le
  have hbound : ∑ i ∈ W.activeY d (p ++ [e]), W.w i < 2 ^ 31 :=
    lt_of_le_of_lt hline (hlines e.key)
  have hsum : s32 (sum + e.overlapW) = ∑ i ∈ W.activeY d (p ++ [e]), W.w i := by
    have hold := Spans.Sweeps.sum_eq (S := W.spansY d) hys
    have hnew := Spans.Sweeps.sum_eq (S := W.spansY d) (hrest ▸ hys)
    rw [map_append, sum_append, hold, map_singleton, sum_singleton] at hnew
    have heq : sum + e.overlapW = ∑ i ∈ W.activeY d (p ++ [e]), W.w i := by
      rw [h.sum]
      exact hnew
    rw [heq, s32_eq (by omega) (by omega)]
  have hnonneg := h.nonneg
  have hless {v : ℤ} (hv : v ≤ peak) : v ≤ limitW ∨ ∃ x y, v ≤ W.pixelWeight x y :=
    h.eq.imp hv.trans (.imp fun _ => .imp fun _ => hv.trans)
  have hscan := ofEntries_spans.scanXOverlap_spec hxs' hbound
  have hall (x : ℤ) := Spans.load_le_sum (S := W.spansX d) (W.activeY d (p ++ [e])) x
  rw [hsum] at hoverlap ⊢
  refine ⟨hxs', rfl, by omega, fun p' hp' x => ?_, ?_⟩
  · rcases prefix_concat_iff.mp hp' with rfl | hp'
    · split at hoverlap
      · rw [hoverlap]
        exact le_trans (hscan.1 x) (le_max_left ..)
      · rw [hoverlap]
        exact le_trans (hall x) (le_max_left ..)
    · exact le_trans (h.ge p' hp' x) (le_max_right ..)
  · rcases le_total overlap peak with hle | hle
    · rw [max_eq_right hle]
      exact h.eq
    rw [max_eq_left hle]
    split at hoverlap
    · -- the maximum of the list by x is over a pixel of this line
      rcases hscan.2 with hzero | ⟨x, hx⟩
      · exact hless (by omega)
      · refine Or.inr ⟨x, e.key, ?_⟩
        rw [hoverlap, ← load_line (d := d)]
        refine le_trans hx (Spans.load_mono (fun i hi => ?_) x)
        exact Finset.mem_filter.mpr ⟨Finset.mem_univ i, hys.covers hi⟩
    · rename_i hnot
      rw [not_and_or] at hnot
      rcases hnot with hlimit | hpeak
      · exact Or.inl (by omega)
      · exact hless (by omega)

theorem IsPeak.pixelWeight_le {m : ℤ} (h : W.IsPeak m) (x y : ℤ) : W.pixelWeight x y ≤ m := by
  by_cases hscreen : 0 ≤ x ∧ 0 ≤ y
  · have hle := h.1 x.toNat y.toNat
    rwa [toNat_of_nonneg hscreen.1, toNat_of_nonneg hscreen.2] at hle
  · have hzero : W.pixelWeight x y = 0 := by
      refine Finset.sum_eq_zero fun i hi => ?_
      obtain ⟨-, ⟨hx, -⟩, hy, -⟩ := Finset.mem_filter.mp hi
      omega
    have hnonneg : 0 ≤ W.pixelWeight (0 : ℕ) (0 : ℕ) :=
      Finset.sum_nonneg fun i _ => (W.pos i).le
    rw [hzero]
    exact le_trans hnonneg (h.1 0 0)

/-- At the end, the peak is the largest weight of a pixel. -/
theorem Scanning.finish (h : W.Scanning d limitW p xs sum peak)
    (hys : (W.spansY d).Sweeps Finset.univ p) {m : ℤ} (hpeak : W.IsPeak m) :
    m ≤ peak ∧ (limitW < peak → peak = m) ∧ xs = [] := by
  have hge (x y : ℤ) : W.pixelWeight x y ≤ peak := by
    obtain ⟨p', q', hp, hactive⟩ := hys.exists_active_eq y
    have hload := h.ge p' ⟨q', hp.symm⟩ x
    rw [activeY, hactive, load_line] at hload
    exact hload
  obtain ⟨x, y, hxy⟩ := hpeak.2
  have hm : m ≤ peak := hxy ▸ hge x y
  refine ⟨hm, fun hlimit => ?_, ?_⟩
  · obtain ⟨x', y', hpixel⟩ := h.eq.resolve_left (not_le.mpr hlimit)
    exact le_antisymm (le_trans hpixel (hpeak.pixelWeight_le x' y')) hm
  · have hnone := h.xList.mem
    rw [activeY, hys.active_all] at hnone
    rw [eq_nil_iff_forall_not_mem]
    intro e he
    obtain ⟨i, hi, -⟩ := (hnone e).mp he
    exact absurd hi (Finset.notMem_empty i)

end Scanning

theorem layer?_eq (hlayers : s.inputConfig d = W.layers) (i : Fin W.layers.length) :
    s.layer? d i = some W.layers[i] := by
  rw [DispInfo.layer?, if_pos (natCast_nonneg _), hlayers, toNat_natCast]
  exact getElem?_eq_getElem i.isLt

/-- An entry adds its layer to the line, or takes it away. -/
theorem wp_enterOrLeave (hlayers : s.inputConfig d = W.layers)
    {e : HrtSortEntry} (hys : (W.spansY d).Sweeps Finset.univ (p ++ e :: q))
    (hxs : (W.spansX d).Sweeps (W.activeY d p) s.xEntryList) :
    wp (enterOrLeave e) (fun _ s' => s'.inputConfig d = W.layers ∧
      (W.spansX d).Sweeps (W.activeY d (p ++ [e])) s'.xEntryList) s := by
  have he : e ∈ p ++ e :: q := mem_append_right _ (mem_cons_self ..)
  obtain ⟨i, -, rfl | rfl⟩ := (hys.mem e).mp he
  · have hpos : ((W.spansY d).first i).overlapW > 0 := W.pos i
    rw [enterOrLeave, if_pos hpos, addLayerEntryX, wp_bind, wp_layerAt]
    refine ⟨W.layers[i], layer?_eq hlayers i, ?_⟩
    rw [wp_modify]
    refine ⟨hlayers, ?_⟩
    obtain ⟨hnot, hactive⟩ := hys.active_first (Finset.mem_univ i)
    rw [activeY, hactive]
    exact ofEntries_spans.sweeps_addEntries hxs hnot
  · have hneg : ¬((W.spansY d).last i).overlapW > 0 := by
      have hpos := W.pos i
      rw [spansY, last_spans]
      dsimp only
      omega
    rw [enterOrLeave, if_neg hneg, removeLayerEntryX, wp_modify]
    refine ⟨hlayers, ?_⟩
    rw [activeY, Spans.active_last]
    refine sweeps_filter hxs fun j => ?_
    have hlayer : (j : ℤ) ≠ i ↔ j ≠ i := by
      rw [Ne, ofNat_inj, ← Fin.ext_iff]
    rw [spansX, spansY, first_spans, last_spans, last_spans]
    simp [hlayer]

/-- The scan returns the peak if it is above the limit. -/
theorem wp_scanYOverlap {limitW m : ℤ} (hlines : ∀ y, W.lineWeight y < 2 ^ 31) (hpeak : W.IsPeak m)
    (hys : (W.spansY d).Sweeps Finset.univ (p ++ q)) {sum peak : ℤ}
    (hlayers : s.inputConfig d = W.layers) (hscan : W.Scanning d limitW p s.xEntryList sum peak) :
    wp (scanYOverlap limitW q sum peak)
      (fun r s' => m ≤ r ∧ (limitW < r → r = m) ∧ s'.xEntryList = []) s := by
  induction q generalizing p sum peak s with
  | nil =>
    rw [append_nil] at hys
    rw [scanYOverlap, wp_pure]
    exact hscan.finish hys hpeak
  | cons e q ih =>
    rw [scanYOverlap]
    refine (wp_enterOrLeave hlayers hys hscan.xList).seq ?_
    rintro _ s' ⟨hlayers', hxs'⟩
    rw [wp_read]
    have hrest : p ++ e :: q = p ++ [e] ++ q := by simp
    exact ih (hrest ▸ hys) hlayers' (hscan.next hlines hys hxs' rfl)

end WeighedLayers

/-- The scan of `_calc_hrt_num` over all layers of a display, with any weights. -/
def overlapOf (d : HrtDisp) (w : ℤ → ℤ) (limitW : ℤ) : RuleM ℤ := do
  forLayers d fun i => addLayerEntryY d i (w i)
  let s ← get
  scanYOverlap limitW s.yEntryList 0 0

namespace WeighedLayers

variable {W : WeighedLayers} {d : HrtDisp} {s : DispInfo}

/-- The list by y after `add_layer_entry` of each layer. -/
theorem wp_addLayerEntries (hlayers : s.inputConfig d = W.layers) (hy : s.yEntryList = []) :
    wp (forLayers d fun i => addLayerEntryY d i (W.w i))
      (fun _ s' => s'.inputConfig d = W.layers ∧ s'.xEntryList = s.xEntryList ∧
        (W.spansY d).Sweeps Finset.univ s'.yEntryList) s := by
  have hnum : s.layerNum d = W.layers.length := by rw [DispInfo.layerNum, hlayers]
  rw [forLayers, wp_read, hnum]
  apply wp_forUp (fun i s' => s'.inputConfig d = W.layers ∧ s'.xEntryList = s.xEntryList ∧
    (W.spansY d).Sweeps (Finset.univ.filter fun j : Fin W.layers.length => (j : ℤ) < i)
      s'.yEntryList)
  · omega
  · refine ⟨hlayers, rfl, ?_⟩
    rw [hy, Finset.filter_false_of_mem (fun j _ => by omega)]
    exact ⟨nodup_nil, fun e => by simp, List.Pairwise.nil⟩
  · rintro i s' hlo hhi ⟨hlayers', hx, hys⟩
    obtain ⟨j, rfl⟩ : ∃ j : Fin W.layers.length, (j : ℤ) = i :=
      ⟨⟨i.toNat, by omega⟩, toNat_of_nonneg hlo⟩
    rw [addLayerEntryY, wp_readLayer (layer?_eq hlayers' j), wp_modify]
    refine ⟨hlayers', hx, ?_⟩
    have hnext : (Finset.univ.filter fun k : Fin W.layers.length => (k : ℤ) < j + 1) =
        insert j (Finset.univ.filter fun k : Fin W.layers.length => (k : ℤ) < j) := by
      ext k
      simp only [Finset.mem_filter, Finset.mem_univ, true_and, Finset.mem_insert, Fin.ext_iff]
      omega
    rw [hnext]
    exact ofEntries_spans.sweeps_addEntries hys (by simp)
  · rintro s' ⟨hlayers', hx, hys⟩
    rw [Finset.filter_true_of_mem (fun j _ => by omega)] at hys
    exact ⟨hlayers', hx, hys⟩

end WeighedLayers

/-- If the weights on every line fit into a signed number, `scan_y_overlap` returns at least the
largest weight over a pixel, and exactly this weight above the limit, and empties the list by x. -/
theorem overlapOf_spec (W : WeighedLayers) {d : HrtDisp} {s : DispInfo}
    (hlayers : s.inputConfig d = W.layers) (hx : s.xEntryList = []) (hy : s.yEntryList = [])
    {limitW m : ℤ} (hlimit : 0 ≤ limitW) (hlines : ∀ y, W.lineWeight y ≤ 2 ^ 31 - 1)
    (hpeak : W.IsPeak m) :
    wp (overlapOf d W.w limitW)
      (fun r s' => m ≤ r ∧ (limitW < r → r = m) ∧ s'.xEntryList = []) s := by
  rw [overlapOf]
  refine (WeighedLayers.wp_addLayerEntries hlayers hy).seq ?_
  rintro _ s' ⟨hlayers', hx', hys⟩
  rw [wp_read]
  refine WeighedLayers.wp_scanYOverlap (p := []) (fun y => ?_) hpeak hys hlayers' ?_
  · have hline := hlines y
    omega
  · rw [hx', hx]
    exact WeighedLayers.Scanning.start hlimit

/-- Two layers at the same place with one weight. -/
def WeighedLayers.twice (w : ℤ) (hw : 0 < w) : WeighedLayers where
  layers := [plainLayer, plainLayer]
  w := fun _ => w
  pos := fun _ => hw
  wide := by decide
  high := by decide

theorem WeighedLayers.lineWeight_twice_le (w : ℤ) (hw : 0 < w) (y : ℤ) :
    (twice w hw).lineWeight y ≤ w + w :=
  calc (twice w hw).lineWeight y
    _ ≤ ∑ _i : Fin 2, w := Finset.sum_le_sum_of_subset_of_nonneg (Finset.filter_subset _ _)
        fun _ _ _ => hw.le
    _ = w + w := by rw [Fin.sum_univ_two]

theorem WeighedLayers.isPeak_twice (w : ℤ) (hw : 0 < w) : (twice w hw).IsPeak (w + w) := by
  refine ⟨fun x y => ?_, 0, 0, ?_⟩
  · refine le_trans ?_ (lineWeight_twice_le w hw y)
    refine Finset.sum_le_sum_of_subset_of_nonneg (fun i hi => ?_) fun _ _ _ => hw.le
    rw [Finset.mem_filter] at hi ⊢
    exact ⟨hi.1, hi.2.2⟩
  · have hall : ∀ i : Fin 2, [plainLayer, plainLayer][i].CoversX 0 ∧
        [plainLayer, plainLayer][i].CoversY 0 := by decide
    calc (twice w hw).pixelWeight 0 0
      _ = ∑ _i : Fin 2, w := Finset.sum_congr (Finset.filter_true_of_mem fun i _ => hall i)
          fun _ _ => rfl
      _ = w + w := by rw [Fin.sum_univ_two]

/-- Two plain layers on the primary display. -/
def twoPlain : DispInfo := setDispInfo (primaryRequest (fun _ => plainLayer) 2 (-1) (-1)) []

/-- Two layers of four bytes a pixel. -/
theorem overlapOf_spec_twice :
    (twoPlain.inputConfig .primary = (WeighedLayers.twice 400 (by decide)).layers ∧
      twoPlain.xEntryList = [] ∧ twoPlain.yEntryList = []) ∧
      wp (overlapOf .primary (fun _ => 400) 0)
        (fun r s' => 800 ≤ r ∧ (0 < r → r = 800) ∧ s'.xEntryList = []) twoPlain := by
  refine ⟨⟨rfl, rfl, rfl⟩, ?_⟩
  exact overlapOf_spec (WeighedLayers.twice 400 (by decide)) rfl rfl rfl (le_refl 0)
    (fun y => le_trans (WeighedLayers.lineWeight_twice_le 400 (by decide) y) (by decide))
    (WeighedLayers.isPeak_twice 400 (by decide))

/-- The sum of two large weights is negative, and the weight of one layer is returned. -/
theorem not_overlapOf_spec :
    ∃ W : WeighedLayers, twoPlain.inputConfig .primary = W.layers ∧ twoPlain.xEntryList = [] ∧
      twoPlain.yEntryList = [] ∧ W.IsPeak (2 ^ 31) ∧
      wp (overlapOf .primary W.w 0) (fun r _ => r < 2 ^ 31) twoPlain := by
  refine ⟨WeighedLayers.twice (2 ^ 30) (by decide), rfl, rfl, rfl, ?_, ?_⟩
  · exact WeighedLayers.isPeak_twice (2 ^ 30) (by decide)
  · decide +kernel

end Mt8169.Layering
