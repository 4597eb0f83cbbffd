import Mathlib.Data.List.Sort
import Mt8169.Layering.Safety

/-!
# The sorted lists

A layer adds two entries to a sorted list, for the lines where it begins and ends. While the list by
y is gone through, the entries of a layer are in the list by x from its begin to its end. Only the
list by y is freed; the list by x becomes empty again only if the end of every layer follows its
begin. The lines are signed numbers: the end of a layer with no height, or beyond the largest
number, is before its begin.
-/

namespace Mt8169.Layering

open MachineInt WeakestPre LayerConfig List

/-- A new entry stops in front of another one. -/
def HrtSortEntry.Stops (e t : HrtSortEntry) : Prop :=
  e.key < t.key ∨ (e.key = t.key ∧ e.overlapW > 0)

instance : DecidableRel HrtSortEntry.Stops := fun _ _ => inferInstanceAs (Decidable (_ ∨ _))

variable {b f e : HrtSortEntry} {es : List HrtSortEntry} {i : ℤ}

/-- The insertion is the one of a sorted list. -/
theorem insertEntry_eq (e : HrtSortEntry) (hne : es ≠ []) :
    insertEntry e es = es.orderedInsert HrtSortEntry.Stops e := by
  induction es with
  | nil => exact absurd rfl hne
  | cons t ts ih =>
    rw [insertEntry, orderedInsert_cons]
    refine if_congr Iff.rfl rfl ?_
    by_cases hlast : ts = []
    · rw [if_pos hlast, hlast, orderedInsert_nil]
    · rw [if_neg hlast, ih hlast]

theorem addEntries_eq (b f : HrtSortEntry) (hne : es ≠ []) : addEntries b f es =
    (es.orderedInsert HrtSortEntry.Stops b).orderedInsert HrtSortEntry.Stops f := by
  rw [addEntries, if_neg hne, insertEntry_eq b hne, insertEntry_eq]
  exact ne_nil_of_mem ((mem_orderedInsert HrtSortEntry.Stops).mpr (Or.inl rfl))

theorem addEntries_perm (b f : HrtSortEntry) (es : List HrtSortEntry) :
    addEntries b f es ~ b :: f :: es := by
  by_cases hnil : es = []
  · rw [addEntries, if_pos hnil, hnil]
  · rw [addEntries_eq b f hnil]
    refine (perm_orderedInsert _ f _).trans (((perm_orderedInsert _ b es).cons f).trans ?_)
    exact .swap b f es

theorem mem_addEntries : e ∈ addEntries b f es ↔ e = b ∨ e = f ∨ e ∈ es := by
  rw [(addEntries_perm b f es).mem_iff, mem_cons, mem_cons]

/-- The entries of a layer. -/
def entriesFor (i : ℤ) (es : List HrtSortEntry) : List HrtSortEntry :=
  es.filter fun e => decide (e.layer = i)

theorem entriesFor_append (i : ℤ) (p q : List HrtSortEntry) :
    entriesFor i (p ++ q) = entriesFor i p ++ entriesFor i q := filter_append ..

theorem entriesFor_cons_self (hlayer : e.layer = i) (es : List HrtSortEntry) :
    entriesFor i (e :: es) = e :: entriesFor i es := filter_cons_of_pos (by simpa using hlayer)

theorem entriesFor_cons_of_ne (hne : e.layer ≠ i) (es : List HrtSortEntry) :
    entriesFor i (e :: es) = entriesFor i es := filter_cons_of_neg (by simpa using hne)

theorem mem_entriesFor : e ∈ entriesFor i es ↔ e ∈ es ∧ e.layer = i := by
  rw [entriesFor, mem_filter, decide_eq_true_eq]

theorem entriesFor_orderedInsert (e : HrtSortEntry) (es : List HrtSortEntry) :
    ∃ p q, entriesFor i es = p ++ q ∧
      entriesFor i (es.orderedInsert HrtSortEntry.Stops e) =
        p ++ (if e.layer = i then [e] else []) ++ q := by
  let pass : HrtSortEntry → Bool := fun t => ¬e.Stops t
  refine ⟨entriesFor i (es.takeWhile pass), entriesFor i (es.dropWhile pass), ?_, ?_⟩
  · rw [← entriesFor_append, takeWhile_append_dropWhile]
  · rw [orderedInsert_eq_take_drop, entriesFor_append, append_assoc]
    congr 1
    split
    · exact entriesFor_cons_self ‹_› _
    · exact entriesFor_cons_of_ne ‹_› _

theorem entriesFor_addEntries_of_ne (hb : b.layer ≠ i) (hf : f.layer ≠ i) (es : List HrtSortEntry) :
    entriesFor i (addEntries b f es) = entriesFor i es := by
  have hsame (e : HrtSortEntry) (he : e.layer ≠ i) (es : List HrtSortEntry) :
      entriesFor i (es.orderedInsert HrtSortEntry.Stops e) = entriesFor i es := by
    obtain ⟨p, q, hes, hins⟩ := entriesFor_orderedInsert (i := i) e es
    rw [hins, if_neg he, append_nil, hes]
  by_cases hnil : es = []
  · rw [addEntries, if_pos hnil, entriesFor_cons_of_ne hb, entriesFor_cons_of_ne hf, hnil]
  · rw [addEntries_eq b f hnil, hsame f hf, hsame b hb]

/-- With a positive weight, the end of a layer is put behind its begin if its key is not smaller. -/
theorem entriesFor_orderedInsert_two (hb : b.layer = i) (hf : f.layer = i)
    (hnone : entriesFor i es = []) (hbegin : 0 < b.overlapW) (hend : f.overlapW < 0) :
    entriesFor i
        ((es.orderedInsert HrtSortEntry.Stops b).orderedInsert HrtSortEntry.Stops f) =
      if b.key ≤ f.key then [b, f] else [f, b] := by
  have hfStops (t : HrtSortEntry) : f.Stops t ↔ f.key < t.key := by
    unfold HrtSortEntry.Stops
    omega
  have hbStops (t : HrtSortEntry) : b.Stops t ↔ b.key ≤ t.key := by
    unfold HrtSortEntry.Stops
    omega
  have hone (e : HrtSortEntry) (he : e.layer = i) {es : List HrtSortEntry}
      (hnone : entriesFor i es = []) :
      entriesFor i (es.orderedInsert HrtSortEntry.Stops e) = [e] := by
    obtain ⟨p, q, hes, hins⟩ := entriesFor_orderedInsert (i := i) e es
    obtain ⟨rfl, rfl⟩ := append_eq_nil_iff.mp (hes.symm.trans hnone)
    rw [hins, if_pos he]
    rfl
  -- behind the begin, with none of the entries of the layer there
  have hbehind {es : List HrtSortEntry} (hnone : entriesFor i es = []) :
      entriesFor i ((b :: es).orderedInsert HrtSortEntry.Stops f) =
        if b.key ≤ f.key then [b, f] else [f, b] := by
    by_cases hle : b.key ≤ f.key
    · rw [orderedInsert_of_not_le _ es (mt (hfStops b).mp (by omega)), if_pos hle,
        entriesFor_cons_self hb, hone f hf hnone]
    · rw [orderedInsert_cons_of_le _ es ((hfStops b).mpr (by omega)), if_neg hle,
        entriesFor_cons_self hf, entriesFor_cons_self hb, hnone]
  induction es with
  | nil => exact hbehind rfl
  | cons t ts ih =>
    have ht : t.layer ≠ i := fun ht => by simp [entriesFor_cons_self ht] at hnone
    have hts := hnone
    rw [entriesFor_cons_of_ne ht] at hts
    by_cases hbt : b.key ≤ t.key
    · rw [orderedInsert_cons_of_le _ ts ((hbStops t).mpr hbt), hbehind hnone]
    · rw [orderedInsert_of_not_le _ ts (mt (hbStops t).mp hbt)]
      by_cases hft : f.key < t.key
      · rw [orderedInsert_cons_of_le _ _ ((hfStops t).mpr hft), if_neg (by omega),
          entriesFor_cons_self hf, entriesFor_cons_of_ne ht, hone b hb hts]
      · rw [orderedInsert_of_not_le _ _ (mt (hfStops t).mp hft), entriesFor_cons_of_ne ht, ih hts]

/-- The last entry of a layer is one where it begins. -/
def Live (i : ℤ) (es : List HrtSortEntry) : Prop :=
  ∃ e ∈ (entriesFor i es).getLast?, 0 < e.overlapW

theorem live_concat (e : HrtSortEntry) (es : List HrtSortEntry) :
    Live i (es ++ [e]) ↔ if e.layer = i then 0 < e.overlapW else Live i es := by
  unfold Live
  rw [entriesFor_append]
  split
  · have hlast : (entriesFor i es ++ entriesFor i [e]).getLast? = some e := by
      rw [entriesFor_cons_self ‹_›]
      exact getLast?_concat
    simp [hlast]
  · have hnil : entriesFor i [] = [] := rfl
    rw [entriesFor_cons_of_ne ‹_›, hnil, append_nil]

/-- A layer counts as live only if its end comes before its begin. -/
theorem live_addEntries {w : ℤ} (hb : b.layer = i) (hf : f.layer = i) (hbegin : b.overlapW = w)
    (hend : f.overlapW = -w) (hw : 0 ≤ w) (hnone : entriesFor i es = []) :
    Live i (addEntries b f es) ↔ 0 < w ∧ es ≠ [] ∧ f.key < b.key := by
  by_cases hpos : 0 < w
  · have horder : entriesFor i (addEntries b f es) =
        if es ≠ [] ∧ f.key < b.key then [f, b] else [b, f] := by
      by_cases hnil : es = []
      · rw [addEntries, if_pos hnil, if_neg fun h => h.1 hnil, entriesFor_cons_self hb,
          entriesFor_cons_self hf]
        rfl
      · rw [addEntries_eq b f hnil, entriesFor_orderedInsert_two hb hf hnone (by omega) (by omega),
          ← ite_not]
        exact if_congr ⟨fun h => ⟨hnil, Int.not_le.mp h⟩, fun h => Int.not_le.mpr h.2⟩ rfl rfl
    rw [Live, horder]
    split
    case isTrue h =>
      refine iff_of_true ⟨b, rfl, by omega⟩ ⟨hpos, h⟩
    case isFalse h =>
      refine iff_of_false ?_ fun h' => h h'.2
      rintro ⟨e, he, hlive⟩
      obtain rfl : f = e := Option.some.inj he
      omega
  · -- the entries of the layer have no weight
    refine iff_of_false ?_ fun h => hpos h.1
    rintro ⟨e, he, hlive⟩
    obtain ⟨hmem, hlayer⟩ := mem_entriesFor.mp (mem_of_getLast? he)
    rcases mem_addEntries.mp hmem with rfl | rfl | hmem
    · omega
    · omega
    · exact absurd (mem_entriesFor.mpr ⟨hmem, hlayer⟩) (hnone ▸ not_mem_nil)

/-- The list by x after some entries of the list by y. -/
structure XList (d : HrtDisp) (done xs : List HrtSortEntry) : Prop where
  disp : ∀ t ∈ xs, t.disp = d
  layer : ∀ i, (∃ t ∈ xs, t.layer = i) ↔ Live i done

section XList

variable {d : HrtDisp} {done xs : List HrtSortEntry} {e b f : HrtSortEntry}

theorem XList.nil (d : HrtDisp) : XList d [] [] where
  disp := fun t ht => absurd ht not_mem_nil
  layer := fun i => by simp [Live, entriesFor]

theorem XList.enter (h : XList d done xs) (hw : 0 < e.overlapW)
    (hb : b.disp = d ∧ b.layer = e.layer) (hf : f.disp = d ∧ f.layer = e.layer) :
    XList d (done ++ [e]) (addEntries b f xs) where
  disp := by
    intro t ht
    rcases mem_addEntries.mp ht with rfl | rfl | ht
    · exact hb.1
    · exact hf.1
    · exact h.disp t ht
  layer := by
    intro i
    simp only [live_concat, ← h.layer i, mem_addEntries, or_and_right, exists_or, exists_eq_left,
      hb.2, hf.2]
    split
    · exact iff_of_true (Or.inl ‹_›) hw
    · simp [*]

theorem XList.leave (h : XList d done xs) (hw : ¬0 < e.overlapW) :
    XList d (done ++ [e]) (xs.filter fun t => t.disp ≠ d ∨ t.layer ≠ e.layer) where
  disp := fun t ht => h.disp t (mem_filter.mp ht).1
  layer := by
    intro i
    rw [live_concat, ← h.layer i]
    split
    case isTrue hi =>
      refine iff_of_false ?_ hw
      rintro ⟨t, ht, hlayer⟩
      obtain ⟨hmem, hout⟩ := mem_filter.mp ht
      simp [h.disp t hmem, hlayer, hi] at hout
    case isFalse hi =>
      refine exists_congr fun t => and_congr_left fun hlayer => ?_
      rw [mem_filter, hlayer]
      exact and_iff_left (decide_eq_true (Or.inr (Ne.symm hi)))

theorem XList.eq_nil_iff (h : XList d done xs) : xs = [] ↔ ∀ i, ¬Live i done := by
  constructor
  · rintro rfl i hlive
    obtain ⟨t, ht, -⟩ := (h.layer i).mpr hlive
    cases ht
  · intro hnone
    rw [eq_nil_iff_forall_not_mem]
    exact fun t ht => hnone t.layer ((h.layer t.layer).mp ⟨t, ht, rfl⟩)

end XList

theorem entriesOf_begin (d : HrtDisp) (i : ℤ) (offset size : ℕ) (w : ℤ) :
    (entriesOf d i offset size w).1 = ⟨s32 offset, w, d, i⟩ := rfl

theorem entriesOf_end (d : HrtDisp) (i : ℤ) (offset size : ℕ) (w : ℤ) :
    (entriesOf d i offset size w).2 = ⟨s32 ((offset : ℤ) + size - 1), -w, d, i⟩ := rfl

/-- `scan_y_overlap` leaves the layers in the list by x of which the last entry is a begin. -/
theorem wp_scanYOverlap_xList (limitW : ℤ) {d : HrtDisp} {done es : List HrtSortEntry}
    {s : DispInfo} (hvalid : ∀ e ∈ es, e.disp = d ∧ 0 ≤ e.layer ∧ e.layer < s.layerNum d)
    (h : XList d done s.xEntryList) (sum maxOverlap : ℤ) :
    wp (scanYOverlap limitW es sum maxOverlap)
      (fun _ s' => XList d (done ++ es) s'.xEntryList) s := by
  induction es generalizing done s sum maxOverlap with
  | nil =>
    rw [scanYOverlap, wp_pure, append_nil]
    exact h
  | cons e es ih =>
    obtain ⟨hdisp, hlo, hhi⟩ := hvalid e mem_cons_self
    have hrest : done ++ e :: es = done ++ [e] ++ es := by simp
    rw [scanYOverlap, wp_bind, enterOrLeave, wp_ite]
    refine ⟨fun hw => ?_, fun hw => ?_⟩
    · obtain ⟨c, hc⟩ := DispInfo.exists_layer? hlo hhi
      rw [addLayerEntryX, wp_readLayer (by rw [hdisp]; exact hc), wp_modify, wp_read, hrest]
      apply ih
      · exact fun e' he' => hvalid e' (mem_cons_of_mem e he')
      · rw [entriesOf_begin, entriesOf_end, hdisp]
        exact h.enter hw ⟨rfl, rfl⟩ ⟨rfl, rfl⟩
    · rw [removeLayerEntryX, wp_modify, wp_read, hrest]
      apply ih
      · exact fun e' he' => hvalid e' (mem_cons_of_mem e he')
      · rw [hdisp]
        exact h.leave hw

theorem getLayerWeight_nonneg (c : LayerConfig) : 0 ≤ getLayerWeight c := by
  rw [getLayerWeight]
  cases c.srcFmt <;> decide

/-- The last line of a layer is not before its first one, read as signed numbers. -/
def LayerConfig.Upright (c : LayerConfig) : Prop :=
  s32 c.dstOffsetY ≤ s32 ((c.dstOffsetY : ℤ) + c.dstHeight - 1)
  deriving Decidable

namespace Part

/-- A layer that is not one of the GLES range. -/
def Counted (p : Part) (i : ℤ) : Prop := p.head = -1 ∨ i < p.head ∨ i > p.tail
  deriving Decidable

/-- There is a layer below that was added to the list before. -/
def Later (p : Part) (i : ℤ) : Prop := ∃ j, 0 ≤ j ∧ j < i ∧ p.Counted j

/-- The end of every layer follows its begin: the layer has no weight, is the first one in the list,
or its last line is not before its first one. -/
def KeepsOrder (p : Part) : Prop :=
  ∀ i c, p.layer? i = some c → p.Counted i → 0 < getLayerWeight c → p.Later i → c.Upright

/-- The list by y when the layers below an index were added. -/
structure YList (p : Part) (d : HrtDisp) (m : ℤ) (ys : List HrtSortEntry) : Prop where
  valid : ∀ e ∈ ys, e.disp = d ∧ 0 ≤ e.layer ∧ e.layer < m ∧ p.Counted e.layer
  layer : ∀ i c, i < m → p.layer? i = some c → p.Counted i →
    entriesFor i ys ≠ [] ∧ (Live i ys ↔ 0 < getLayerWeight c ∧ p.Later i ∧ ¬c.Upright)

section YList

variable {p : Part} {d : HrtDisp} {m : ℤ} {ys : List HrtSortEntry} {c : LayerConfig}

theorem YList.start (p : Part) (d : HrtDisp) : p.YList d 0 [] where
  valid := fun e he => absurd he not_mem_nil
  layer := by
    intro i c hi hc
    have := Part.of_layer? hc
    omega

section

variable (h : p.YList d m ys)
include h

theorem YList.skip (hout : ¬p.Counted m) : p.YList d (m + 1) ys where
  valid := by
    intro e he
    obtain ⟨hdisp, hlo, hhi, hcounted⟩ := h.valid e he
    exact ⟨hdisp, hlo, by omega, hcounted⟩
  layer := by
    intro i c hi hc hcounted
    have hne : i ≠ m := by
      rintro rfl
      exact hout hcounted
    exact h.layer i c (by omega) hc hcounted

/-- The list is empty exactly if no layer is counted. -/
theorem YList.nil_iff (hm : m ≤ p.layers.length) : ys = [] ↔ ¬p.Later m := by
  constructor
  · rintro rfl ⟨j, hlo, hlt, hcounted⟩
    obtain ⟨c, hc⟩ := Part.exists_layer? (p := p) (i := j) hlo (by omega)
    exact (h.layer j c hlt hc hcounted).1 rfl
  · intro hnone
    rw [eq_nil_iff_forall_not_mem]
    intro e he
    obtain ⟨-, hlo, hhi, hcounted⟩ := h.valid e he
    exact hnone ⟨e.layer, hlo, hhi, hcounted⟩

theorem YList.entriesFor_eq_nil : entriesFor m ys = [] := by
  rw [eq_nil_iff_forall_not_mem]
  intro e he
  obtain ⟨hmem, hlayer⟩ := mem_entriesFor.mp he
  have := (h.valid e hmem).2.2.1
  omega

theorem YList.add (hlo : 0 ≤ m) (hc : p.layer? m = some c) (hcounted : p.Counted m) :
    p.YList d (m + 1) (addEntries (entriesOf d m c.dstOffsetY c.dstHeight (getLayerWeight c)).1
      (entriesOf d m c.dstOffsetY c.dstHeight (getLayerWeight c)).2 ys) := by
  rw [entriesOf_begin, entriesOf_end]
  refine ⟨fun e he => ?_, fun i c' hi hc' hcounted' => ?_⟩
  · rcases mem_addEntries.mp he with rfl | rfl | he
    · exact ⟨rfl, hlo, Int.lt_succ m, hcounted⟩
    · exact ⟨rfl, hlo, Int.lt_succ m, hcounted⟩
    · obtain ⟨hdisp, hge, hlt, hcounted'⟩ := h.valid e he
      exact ⟨hdisp, hge, by omega, hcounted'⟩
  · by_cases heq : i = m
    · subst heq
      obtain rfl := Option.some.inj (hc.symm.trans hc')
      have hlt := (Part.of_layer? hc).2
      refine ⟨ne_nil_of_mem (mem_entriesFor.mpr ⟨mem_addEntries.mpr (Or.inl rfl), rfl⟩), ?_⟩
      refine Iff.trans (live_addEntries (by rfl) (by rfl) (by rfl) (by rfl)
        (getLayerWeight_nonneg c) h.entriesFor_eq_nil) ?_
      rw [Ne, h.nil_iff (by omega), not_not, LayerConfig.Upright, Int.not_le]
    · have hne : m ≠ i := Ne.symm heq
      rw [Live, entriesFor_addEntries_of_ne (by exact hne) (by exact hne)]
      exact h.layer i c' (by omega) hc' hcounted'

end

end YList

/-- No layer is live at the end exactly if all ends are behind their begins. -/
theorem YList.forall_not_live_iff {p : Part} {d : HrtDisp} {ys : List HrtSortEntry}
    (h : p.YList d p.layers.length ys) : (∀ i, ¬Live i ys) ↔ p.KeepsOrder := by
  constructor
  · intro hnone i c hc hcounted hw hlater
    by_contra hnot
    exact hnone i (((h.layer i c (Part.of_layer? hc).2 hc hcounted).2).mpr ⟨hw, hlater, hnot⟩)
  · intro hkeeps i hlive
    obtain ⟨e, he, hpos⟩ := hlive
    obtain ⟨hmem, rfl⟩ := mem_entriesFor.mp (mem_of_getLast? he)
    obtain ⟨-, hlo, hhi, hcounted⟩ := h.valid e hmem
    obtain ⟨c, hc⟩ := Part.exists_layer? hlo hhi
    obtain ⟨hw, hlater, hnot⟩ := ((h.layer _ c hhi hc hcounted).2).mp ⟨e, he, hpos⟩
    exact hnot (hkeeps _ c hc hcounted hw hlater)

end Part

section Calc

variable (env : LayeringEnv) {s : DispInfo} {d : HrtDisp}

/-- The loop adds the entries of the counted layers. -/
theorem wp_addLayers (hy : s.yEntryList = []) :
    wp (forLayers d fun i => do
        let c ← layerAt d i
        if s.glesHead d = -1 ∨ i < s.glesHead d ∨ i > s.glesTail d then
          addLayerEntryY d i (getLayerWeight c)
        else pure ())
      (fun _ s' => s'.part d = s.part d ∧ s'.xEntryList = s.xEntryList ∧
        (s.part d).YList d (s.part d).layers.length s'.yEntryList) s := by
  rw [forLayers, wp_read]
  apply wp_forUp (fun i s' => s'.part d = s.part d ∧ s'.xEntryList = s.xEntryList ∧
    (s.part d).YList d i s'.yEntryList)
  · rw [DispInfo.layerNum_eq_part]
    omega
  · refine ⟨rfl, rfl, ?_⟩
    rw [hy]
    exact Part.YList.start _ d
  · rintro i s' hlo hhi ⟨hpart, hx, hlist⟩
    rw [DispInfo.layerNum_eq_part, ← hpart] at hhi
    obtain ⟨c, hc⟩ := Part.exists_layer? hlo hhi
    have hc' : (s.part d).layer? i = some c := by rw [← hpart]; exact hc
    rw [wp_readLayer hc, wp_ite]
    refine ⟨fun hcounted => ?_, fun hcounted => ?_⟩
    · rw [addLayerEntryY, wp_readLayer hc, wp_modify]
      exact ⟨hpart, hx, hlist.add hlo hc' hcounted⟩
    · rw [wp_pure]
      exact ⟨hpart, hx, hlist.skip hcounted⟩
  · exact fun s' h => h

/-- What the two lists hold after the calculation. -/
theorem wp_calcHrtNumOf_lists (hx : s.xEntryList = []) (hy : s.yEntryList = [])
    (hlimit : s.hasHrtLimit d = true) (hasDalLayer : Bool) :
    wp (calcHrtNumOf env d hasDalLayer) (fun _ s' => s'.yEntryList = [] ∧
      ∃ ys, (s.part d).YList d (s.part d).layers.length ys ∧ XList d ys s'.xEntryList) s := by
  rw [calcHrtNumOf, wp_read, if_pos hlimit]
  refine (wp_addLayers hy).seq ?_
  rintro _ s1 ⟨hpart, hx1, hlist⟩
  rw [wp_read, wp_bind]
  have hvalid (e : HrtSortEntry) (he : e ∈ s1.yEntryList) :
      e.disp = d ∧ 0 ≤ e.layer ∧ e.layer < s1.layerNum d := by
    obtain ⟨hdisp, hlo, hhi, -⟩ := hlist.valid e he
    rw [DispInfo.layerNum_eq_part, hpart]
    exact ⟨hdisp, hlo, hhi⟩
  have hstart : XList d [] s1.xEntryList := by
    rw [hx1, hx]
    exact XList.nil d
  refine (wp_scanYOverlap_xList (emiBound env * 4) hvalid hstart 0 0).mono fun overlap s2 h2 => ?_
  rw [wp_bind, wp_modify, wp_pure]
  exact ⟨rfl, s1.yEntryList, hlist, h2⟩

/-- Both lists are empty again when `_calc_hrt_num` returns exactly if the end of every layer that
it adds follows its begin. -/
theorem calcHrtNumOf_lists_iff (hasDalLayer : Bool) (hx : s.xEntryList = [])
    (hy : s.yEntryList = []) :
    wp (calcHrtNumOf env d hasDalLayer)
        (fun _ s' => s'.xEntryList = [] ∧ s'.yEntryList = []) s ↔
      (s.hasHrtLimit d = true → (s.part d).KeepsOrder) := by
  cases hlimit : s.hasHrtLimit d with
  | false =>
    rw [calcHrtNumOf, wp_read, hlimit, if_neg Bool.false_ne_true, wp_pure]
    exact iff_of_true ⟨hx, hy⟩ fun h => absurd h Bool.false_ne_true
  | true =>
    obtain ⟨_, s', hrun, hy', ys, hlist, hxs⟩ :=
      wp_iff.mp (wp_calcHrtNumOf_lists env hx hy hlimit hasDalLayer)
    rw [wp_of_run hrun, hxs.eq_nil_iff, hlist.forall_not_live_iff]
    exact ⟨fun h _ => h.1, fun h => ⟨h rfl, hy'⟩⟩

end Calc

/-- A layer without a height. -/
def flatLayer : LayerConfig := { plainLayer with dstHeight := 0, srcHeight := 0 }

/-- Two layers, the second of which has no height. -/
def flatRequest : LayeringInfo :=
  primaryRequest (fun i => if i = 0 then plainLayer else flatLayer) 2 (-1) (-1)

/-- Two layers of the same size leave nothing over. -/
theorem calcHrtNumOf_lists_iff_twoLayers :
    ((setDispInfo (primaryRequest (fun _ => plainLayer) 2 (-1) (-1)) []).xEntryList = [] ∧
      (setDispInfo (primaryRequest (fun _ => plainLayer) 2 (-1) (-1)) []).yEntryList = []) ∧
    wp (calcHrtNumOf (allOptions 400) .primary false)
      (fun _ s' => s'.xEntryList = [] ∧ s'.yEntryList = [])
      (setDispInfo (primaryRequest (fun _ => plainLayer) 2 (-1) (-1)) []) := by
  refine ⟨⟨rfl, rfl⟩, (calcHrtNumOf_lists_iff (allOptions 400) false rfl rfl).mpr fun _ => ?_⟩
  intro i c hc _ _ _
  obtain ⟨hlo, -⟩ := Part.of_layer? hc
  have hmem : c ∈ [plainLayer, plainLayer] := by
    rw [Part.layer?, if_pos hlo] at hc
    exact List.mem_of_getElem? hc
  have hplain : c = plainLayer := by simpa using hmem
  rw [hplain]
  decide

/-- A layer without a height is left in the list by x, also when the whole rule has returned. -/
theorem not_calcHrtNumOf_lists :
    checkDispInfo flatRequest = true ∧
      ¬wp (calcHrtNumOf (allOptions 400) .primary false)
        (fun _ s' => s'.xEntryList = [] ∧ s'.yEntryList = []) (setDispInfo flatRequest []) ∧
      wp (layeringRuleStart (allOptions 400)) (fun _ s' => s'.xEntryList ≠ [])
        (setDispInfo flatRequest []) :=
  ⟨by decide, by decide +kernel, by decide +kernel⟩

end Mt8169.Layering
