import Mathlib.Data.List.Basic
import Mt8169.Layering.Dispatch

/-!
# The ranges and the extended layers

Whether an access of the rule stays inside of the layers only depends on the view of a state: the
GLES ranges and which layers are extended. Most parts of the rule access layers by an index that
they compare with the number of layers, and keep the view.
-/

namespace Mt8169.Layering

open MachineInt WeakestPre DispInfo LayerConfig Keeps List Function

/-- The GLES ranges, and which layers are extended ones. -/
structure View where
  head : HrtDisp → ℤ
  tail : HrtDisp → ℤ
  ext : HrtDisp → List Bool

/-- The view of a state. -/
def DispInfo.view (s : DispInfo) : View where
  head := s.glesHead
  tail := s.glesTail
  ext := fun d => (s.inputConfig d).map LayerConfig.isExtended

/-- The view with another GLES range. -/
def View.setGles (v : View) (d : HrtDisp) (head tail : ℤ) : View :=
  { v with head := update v.head d head, tail := update v.tail d tail }

/-- The view with a layer that is extended or not. -/
def View.setExt (v : View) (d : HrtDisp) (i : ℤ) (ext : Bool) : View :=
  { v with ext := update v.ext d ((v.ext d).set i.toNat ext) }

/-- All entries point to layers. -/
def EntriesValid (n : HrtDisp → ℕ) (entries : List HrtSortEntry) : Prop :=
  ∀ e ∈ entries, 0 ≤ e.layer ∧ e.layer < n e.disp

/-- The numbers of layers, a property of the view, and the entries in the list by y. -/
structure Inv (n : HrtDisp → ℕ) (P : View → Prop) (s : DispInfo) : Prop where
  num : ∀ d, (s.inputConfig d).length = n d
  view : P s.view
  entries : EntriesValid n s.yEntryList

variable {s : DispInfo} {n : HrtDisp → ℕ}

theorem Inv.layerNum {P : View → Prop} (h : Inv n P s) (d : HrtDisp) : s.layerNum d = n d := by
  unfold DispInfo.layerNum
  rw [h.num d]

theorem Inv.mono {P P' : View → Prop} (h : Inv n P s)
    (hle : ∀ v, P v → P' v) : Inv n P' s := ⟨h.num, hle _ h.view, h.entries⟩

section Access

variable {n : HrtDisp → ℕ} {P : View → Prop} {d : HrtDisp} {i : ℤ} {f : LayerConfig → LayerConfig}
  {c : LayerConfig}

/-- A read has to be inside of the layers. -/
theorem wp_layerAt (d : HrtDisp) (i : ℤ) (Q : LayerConfig → DispInfo → Prop) (s : DispInfo) :
    wp (layerAt d i) Q s ↔ ∃ c, s.layer? d i = some c ∧ Q c s := by
  unfold layerAt
  rw [wp_read]
  cases s.layer? d i with
  | none | some c => simp

theorem wp_readLayer {α : Type} (hc : s.layer? d i = some c) (f : LayerConfig → RuleM α)
    (Q : α → DispInfo → Prop) : wp (layerAt d i >>= f) Q s ↔ wp (f c) Q s := by
  simp [wp_layerAt, hc]

theorem DispInfo.exists_layer? (hlo : 0 ≤ i) (hhi : i < s.layerNum d) :
    ∃ c, s.layer? d i = some c := by
  have hlt : i.toNat < (s.inputConfig d).length := by
    unfold layerNum at hhi
    omega
  refine ⟨(s.inputConfig d)[i.toNat], ?_⟩
  unfold layer?
  rw [if_pos hlo, getElem?_eq_getElem hlt]

theorem DispInfo.of_layer? (h : s.layer? d i = some c) : 0 ≤ i ∧ i < s.layerNum d := by
  unfold layer? at h
  split at h
  · rename_i hlo
    obtain ⟨hlt, -⟩ := List.getElem?_eq_some_iff.mp h
    unfold layerNum
    exact ⟨hlo, by omega⟩
  · cases h

theorem wp_modifyLayer (d : HrtDisp) (i : ℤ) (f : LayerConfig → LayerConfig)
    (Q : Unit → DispInfo → Prop) (s : DispInfo) :
    wp (modifyLayer d i f) Q s ↔ (0 ≤ i ∧ i < s.layerNum d) ∧ Q () (s.modifyAt d i f) := by
  unfold modifyLayer
  rw [wp_bind, wp_layerAt]
  simp only [wp_modify]
  constructor
  · rintro ⟨c, hc, hQ⟩
    exact ⟨of_layer? hc, hQ⟩
  · rintro ⟨⟨hlo, hhi⟩, hQ⟩
    obtain ⟨c, hc⟩ := exists_layer? hlo hhi
    exact ⟨c, hc, hQ⟩

variable (s : DispInfo)

theorem DispInfo.modifyAt_num (d d' : HrtDisp) (i : ℤ) (f : LayerConfig → LayerConfig) :
    ((s.modifyAt d i f).inputConfig d').length = (s.inputConfig d').length := by
  unfold modifyAt
  by_cases hd : d' = d
  · subst hd
    simp
  · simp [update_of_ne hd]

theorem map_modify_of_eq {α : Type} {g : LayerConfig → α} (hf : ∀ c, g (f c) = g c)
    (layers : List LayerConfig) (j : ℕ) : (layers.modify j f).map g = layers.map g := by
  apply ext_getElem?
  intro k
  rw [getElem?_map, getElem?_map, getElem?_modify]
  cases layers[k]? with
  | none => rfl
  | some c =>
    by_cases hk : j = k
    · simp [hk, hf]
    · simp [hk]

theorem map_modify_eq_set {α : Type} {g : LayerConfig → α} {b : α} (hf : ∀ c, g (f c) = b)
    (layers : List LayerConfig) (j : ℕ) : (layers.modify j f).map g = (layers.map g).set j b := by
  apply ext_getElem?
  intro k
  grind

theorem DispInfo.map_modifyAt {α : Type} {g : LayerConfig → α} (hf : ∀ c, g (f c) = g c)
    (s : DispInfo) (d d' : HrtDisp) (i : ℤ) :
    ((s.modifyAt d i f).inputConfig d').map g = (s.inputConfig d').map g := by
  unfold modifyAt
  dsimp only
  by_cases hd : d' = d
  · subst hd
    rw [update_self]
    exact map_modify_of_eq hf _ _
  · rw [update_of_ne hd]

theorem DispInfo.view_modifyAt (hf : ∀ c, (f c).isExtended = c.isExtended) (s : DispInfo)
    (d : HrtDisp) (i : ℤ) : (s.modifyAt d i f).view = s.view := by
  unfold view
  congr 1
  funext d'
  exact s.map_modifyAt hf d d' i

/-- The layers and the GLES range of a display. -/
structure Part where
  layers : List LayerConfig
  head : ℤ
  tail : ℤ

/-- The part of a display in a state. -/
def DispInfo.part (d : HrtDisp) : Part :=
  ⟨s.inputConfig d, s.glesHead d, s.glesTail d⟩

/-- A layer of the display. -/
def Part.layer? (p : Part) (i : ℤ) : Option LayerConfig :=
  if 0 ≤ i then p.layers[i.toNat]? else none

theorem Part.of_layer? {p : Part} (h : p.layer? i = some c) : 0 ≤ i ∧ i < p.layers.length := by
  unfold layer? at h
  split at h
  · obtain ⟨hlt, -⟩ := List.getElem?_eq_some_iff.mp h
    omega
  · cases h

theorem Part.exists_layer? {p : Part} (hlo : 0 ≤ i) (hhi : i < p.layers.length) :
    ∃ c, p.layer? i = some c := by
  rw [layer?, if_pos hlo]
  exact ⟨_, getElem?_eq_getElem (by omega)⟩

theorem DispInfo.layerNum_eq_part (d : HrtDisp) : s.layerNum d = (s.part d).layers.length := rfl

theorem DispInfo.layer?_eq_part (d : HrtDisp) (i : ℤ) : s.layer? d i = (s.part d).layer? i := rfl

/-- The layer is one of the GLES range. -/
def Part.inGles (p : Part) (i : ℤ) : Bool := decide (p.head ≤ i ∧ i ≤ p.tail)

/-- The GLES range is empty or inside of the layers. -/
def Part.RangeOk (p : Part) : Prop :=
  (p.head = -1 ∧ p.tail = -1) ∨ (0 ≤ p.head ∧ p.head ≤ p.tail ∧ p.tail < p.layers.length)
  deriving Decidable

theorem DispInfo.parts_setGles (d : HrtDisp) (head tail : ℤ) :
    (s.setGles d head tail).part = update s.part d ⟨s.inputConfig d, head, tail⟩ := by
  funext d'
  unfold part setGles
  by_cases hd : d' = d
  · subst hd
    simp only [update_self]
  · simp only [update_of_ne hd]

theorem DispInfo.parts_modifyAt (d : HrtDisp) (i : ℤ) (f : LayerConfig → LayerConfig) :
    (s.modifyAt d i f).part =
      update s.part d { s.part d with layers := (s.part d).layers.modify i.toNat f } := by
  funext d'
  unfold part modifyAt
  by_cases hd : d' = d
  · subst hd
    simp only [update_self]
  · simp only [update_of_ne hd]

theorem DispInfo.view_modifyAt_setExt (d : HrtDisp) (i ext : ℤ) :
    (s.modifyAt d i (setExt ext)).view = s.view.setExt d i (decide (ext ≠ -1)) := by
  unfold view modifyAt View.setExt
  congr 1
  funext d'
  dsimp only
  by_cases hd : d' = d
  · subst hd
    rw [update_self, update_self]
    exact map_modify_eq_set (f := setExt ext) (fun _ => rfl) _ _
  · rw [update_of_ne hd, update_of_ne hd]

end Access

section Contents

variable (env : LayeringEnv) {n : HrtDisp → ℕ} {P : View → Prop} {d : HrtDisp}
  {entries : List HrtSortEntry} {i : ℤ}

theorem EntriesValid.insertEntry (h : EntriesValid n entries) {e : HrtSortEntry}
    (he : 0 ≤ e.layer ∧ e.layer < n e.disp) : EntriesValid n (insertEntry e entries) := by
  induction entries with
  | nil => exact h
  | cons t ts ih =>
    have hts : EntriesValid n ts := fun e' he' => h e' (mem_cons_of_mem t he')
    unfold Layering.insertEntry
    split
    · intro e' he'
      rcases mem_cons.mp he' with rfl | he'
      · exact he
      · exact h e' he'
    · split
      · intro e' he'
        rcases mem_cons.mp he' with rfl | he'
        · exact h e' mem_cons_self
        · rw [mem_singleton.mp he']
          exact he
      · intro e' he'
        rcases mem_cons.mp he' with rfl | he'
        · exact h e' mem_cons_self
        · exact ih hts e' he'

theorem EntriesValid.addEntries (h : EntriesValid n entries) (hi : 0 ≤ i ∧ i < n d)
    (offset size : ℕ) (w : ℤ) :
    EntriesValid n (addEntries (entriesOf d i offset size w).1 (entriesOf d i offset size w).2
      entries) := by
  unfold Layering.addEntries
  split
  · intro e he
    rcases mem_cons.mp he with rfl | he
    · exact hi
    · rw [mem_singleton.mp he]
      exact hi
  · exact insertEntry (insertEntry h hi) hi

end Contents

end Mt8169.Layering
