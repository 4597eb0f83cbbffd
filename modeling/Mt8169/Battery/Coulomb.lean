import Mt8169.Lib.MachineInt
import Mt8169.Lib.Runs
import Mathlib.Data.Int.Notation
import Mathlib.Data.List.Nodup

/-!
# The coulomb service

Consumers wait for the coulomb counter to move by a distance up or down. The service keeps those of
each direction in a list sorted by the value they wait for and programs the hardware to interrupt at
the first one. The definitions follow `mtk_battery_coulomb_service.c`. The handler calls back
without the lock, so consumers may be started and stopped between its steps. A coulomb value is
an `int`, the values that consumers wait for are of type `long` and do not overflow, and a distance
becomes an `int` when it is programmed.
-/

namespace Mt8169.Battery

open MachineInt Runs List Function

variable {side : Side} {c c' : Consumer} {list : List Consumer} {s s' : CoulombService} {car : ℤ}

/-- The two directions. -/
inductive Side where
  | plus | minus
  deriving DecidableEq, Repr

/-- `struct gauge_consumer`: its address and `end`. -/
structure Consumer where
  id : ℕ
  endCar : ℤ
  deriving DecidableEq, Repr

/-- `struct mtk_coulomb_service`: the two lists, the distances programmed last for each direction,
and the pass of the handler under way, with its coulomb value and list. -/
structure CoulombService where
  lists : Side → List Consumer
  threshold : Side → ℤ
  resetCoulomb : ℤ
  preCoulomb : ℤ
  threadTimeout : Bool
  pass : Option (ℤ × Side)

/-- `gauge_coulomb_service_init` with the coulomb value `car`. -/
def CoulombService.init (car : ℤ) : CoulombService where
  lists := fun _ => []
  threshold := fun _ => 0
  resetCoulomb := 0
  preCoulomb := car
  threadTimeout := false
  pass := none

/-- The counter at `car` has passed the value a consumer waits for. -/
def Side.passed (side : Side) (car : ℤ) (c : Consumer) : Bool :=
  match side with
  | .plus => c.endCar - car ≤ 0
  | .minus => c.endCar - car ≥ 0

/-- The distance from `car` to the value a consumer waits for. -/
def Side.distance (side : Side) (car : ℤ) (c : Consumer) : ℤ :=
  match side with
  | .plus => c.endCar - car
  | .minus => car - c.endCar

/-- A consumer goes in front of another one. -/
def Side.goesBefore (side : Side) (c ptr : Consumer) : Bool :=
  match side with
  | .plus => c.endCar < ptr.endCar
  | .minus => c.endCar > ptr.endCar

/-- The state with another list for a direction. -/
def CoulombService.setList (s : CoulombService) (side : Side) (list : List Consumer) :
    CoulombService :=
  { s with lists := update s.lists side list }

/-- `gauge_set_property` for the interrupt of a direction, through the variable `hw_car` of type
`int`. -/
def CoulombService.program (s : CoulombService) (side : Side) (hwCar : ℤ) : CoulombService :=
  { s with threshold := update s.threshold side (s32 hwCar) }

/-- The threshold of a direction is a distance, if that is an `int`. -/
def CoulombService.Programmed (s : CoulombService) (side : Side) (distance : ℤ) : Prop :=
  0 < distance ∧ (distance < 2 ^ 31 → s.threshold side = distance)

/-- `wake_up_gauge_coulomb`. -/
def wakeUpGaugeCoulomb (s : CoulombService) : CoulombService :=
  { s with threshold := fun _ => 300, threadTimeout := true }

/-- `list_del_init` for the node of a consumer. -/
def CoulombService.unlink (s : CoulombService) (id : ℕ) : CoulombService :=
  { s with lists := fun side => (s.lists side).filter (·.id ≠ id) }

/-- Add a node to the list of a direction. -/
def insertConsumer (side : Side) (c : Consumer) : List Consumer → List Consumer
  | [] => [c]
  | ptr :: list =>
    if side.goesBefore c ptr then c :: ptr :: list else ptr :: insertConsumer side c list

/-- The second loop of `gauge_coulomb_start`: whether it has passed a consumer, and where it ends.
-/
def scanPassed (side : Side) (car : ℤ) (wake : Bool) (ptr : Consumer) :
    List Consumer → Bool × Consumer
  | [] => (wake, ptr)
  | c :: list =>
    if side.passed car c then scanPassed side car true c list else (wake, c)

/-- `gauge_coulomb_start` for the consumer `id` and the distance `car`, at the coulomb value
`carNow`. -/
def gaugeCoulombStart (id : ℕ) (car carNow : ℤ) (s : CoulombService) : CoulombService :=
  if car = 0 then s
  else
    let side : Side := if 0 < car then .plus else .minus
    let c : Consumer := { id := id, endCar := carNow + car }
    let s := s.unlink id
    let s := s.setList side (insertConsumer side c (s.lists side))
    let (wake, ptr) := scanPassed side carNow false c (s.lists side)
    let s := s.program side (side.distance carNow ptr)
    if wake then wakeUpGaugeCoulomb s else s

/-- `gauge_coulomb_stop`. -/
def gaugeCoulombStop (id : ℕ) (s : CoulombService) : CoulombService := s.unlink id

/-- `gauge_coulomb_before_reset` at the coulomb value `car`. -/
def gaugeCoulombBeforeReset (car : ℤ) (s : CoulombService) : CoulombService :=
  { s with threshold := fun _ => 0, resetCoulomb := car }

/-- A consumer after the counter was reset at the value `now`. -/
def Consumer.rebase (now : ℤ) (c : Consumer) : Consumer := { c with endCar := c.endCar - now }

/-- `gauge_coulomb_after_reset`. -/
def gaugeCoulombAfterReset (s : CoulombService) : CoulombService :=
  wakeUpGaugeCoulomb
    { s with lists := fun side => (s.lists side).map (Consumer.rebase s.resetCoulomb) }

/-- The list after that of a direction in a pass of the handler. -/
def CoulombService.leaveSide (s : CoulombService) (car : ℤ) (side : Side) : CoulombService :=
  match side with
  | .plus => { s with pass := some (car, .minus) }
  | .minus => { s with pass := none, preCoulomb := car }

/-- One step of `gauge_coulomb_int_handler`: fire the first consumer of the list if the counter has
passed it, or program the interrupt for it. -/
def passStep (s : CoulombService) : CoulombService :=
  match s.pass with
  | none => s
  | some (car, side) =>
    match s.lists side with
    | [] => s.leaveSide car side
    | ptr :: list =>
      if side.passed car ptr then s.setList side list
      else (s.program side (side.distance car ptr)).leaveSide car side

/-- What can happen to the service. The handler starts a pass when its thread is woken up; consumers
are started and stopped at any time. -/
inductive CoulombEvent where
  | start (id : ℕ) (car carNow : ℤ)
  | stop (id : ℕ)
  | beforeReset (car : ℤ)
  | afterReset
  | irq
  | passBegin (car : ℤ)
  | passStep

/-- One step of the service. -/
def coulombStep (s : CoulombService) : CoulombEvent → CoulombService
  | .start id car carNow => gaugeCoulombStart id car carNow s
  | .stop id => gaugeCoulombStop id s
  | .beforeReset car => gaugeCoulombBeforeReset car s
  | .afterReset => gaugeCoulombAfterReset s
  | .irq => wakeUpGaugeCoulomb s
  | .passBegin car =>
    if s.threadTimeout && s.pass.isNone then
      { s with threadTimeout := false, pass := some (car, .plus) }
    else s
  | .passStep => Battery.passStep s

/-- The order of the list of a direction: ascending for `plus`, descending for `minus`. -/
def Side.le (side : Side) (c c' : Consumer) : Prop :=
  match side with
  | .plus => c.endCar ≤ c'.endCar
  | .minus => c'.endCar ≤ c.endCar

/-- The list of a direction is sorted. -/
def Side.Ordered (side : Side) (list : List Consumer) : Prop := list.Pairwise side.le

/-- The lists are sorted, and each consumer is on at most one of them, once. -/
structure ListsOk (s : CoulombService) : Prop where
  ordered : ∀ side : Side, side.Ordered (s.lists side)
  nodup : ((s.lists .plus ++ s.lists .minus).map (·.id)).Nodup

theorem Side.le.trans {c1 c2 c3 : Consumer} (h : side.le c1 c2) (h' : side.le c2 c3) :
    side.le c1 c3 := by
  cases side <;> simp only [Side.le] at * <;> omega

theorem Side.le_of_goesBefore (h : side.goesBefore c c' = true) : side.le c c' := by
  cases side <;> simp only [goesBefore, le, decide_eq_true_eq] at * <;> omega

theorem Side.le_of_not_goesBefore (h : ¬side.goesBefore c c' = true) : side.le c' c := by
  cases side <;> simp only [goesBefore, le, decide_eq_true_eq] at * <;> omega

/-- The insertion adds one consumer and keeps the others. -/
theorem insertConsumer_perm (side : Side) (c : Consumer) (list : List Consumer) :
    (insertConsumer side c list).Perm (c :: list) := by
  induction list with
  | nil => exact List.Perm.refl _
  | cons ptr list ih =>
    unfold insertConsumer
    split_ifs
    · exact List.Perm.refl _
    · exact (ih.cons ptr).trans (List.Perm.swap c ptr list)

theorem mem_insertConsumer : c' ∈ insertConsumer side c list ↔ c' = c ∨ c' ∈ list :=
  (insertConsumer_perm side c list).mem_iff.trans mem_cons

/-- An insertion keeps the order of a list. -/
theorem insertConsumer_ordered (c : Consumer) (h : side.Ordered list) :
    side.Ordered (insertConsumer side c list) := by
  induction list with
  | nil => simp [insertConsumer, Side.Ordered]
  | cons ptr list ih =>
    obtain ⟨hfirst, hrest⟩ := pairwise_cons.mp h
    unfold insertConsumer
    split_ifs with hbefore
    · refine pairwise_cons.mpr ⟨fun c' hc' => ?_, h⟩
      have hptr := Side.le_of_goesBefore hbefore
      rcases mem_cons.mp hc' with rfl | hmem
      · exact hptr
      · exact hptr.trans (hfirst c' hmem)
    · refine pairwise_cons.mpr ⟨fun c' hc' => ?_, ih hrest⟩
      rcases mem_insertConsumer.mp hc' with rfl | hmem
      · exact Side.le_of_not_goesBefore hbefore
      · exact hfirst c' hmem

theorem ListsOk.sublist (h : ListsOk s)
    (hsub : ∀ side, (s'.lists side).Sublist (s.lists side)) : ListsOk s' := by
  constructor
  · intro side
    exact (h.ordered side).sublist (hsub side)
  · exact h.nodup.sublist (((hsub .plus).append (hsub .minus)).map _)

/-- Taking a consumer off its list keeps the lists right. -/
theorem ListsOk.unlink (h : ListsOk s) (id : ℕ) : ListsOk (s.unlink id) :=
  h.sublist fun _ => filter_sublist

theorem not_mem_unlink (s : CoulombService) (id : ℕ) :
    id ∉ ((s.unlink id).lists .plus ++ (s.unlink id).lists .minus).map (·.id) := by
  simp [CoulombService.unlink]

/-- So does inserting a consumer that is on no list. -/
theorem ListsOk.insert (h : ListsOk s) (side : Side)
    (hc : c.id ∉ (s.lists .plus ++ s.lists .minus).map (·.id)) :
    ListsOk (s.setList side (insertConsumer side c (s.lists side))) := by
  have hother : ∀ side', side' ≠ side →
      (s.setList side (insertConsumer side c (s.lists side))).lists side' = s.lists side' :=
    fun side' hne => update_of_ne hne ..
  have hself : (s.setList side (insertConsumer side c (s.lists side))).lists side =
      insertConsumer side c (s.lists side) := update_self ..
  constructor
  · intro side'
    by_cases heq : side' = side
    · subst heq
      rw [hself]
      exact insertConsumer_ordered c (h.ordered side')
    · rw [hother side' heq]
      exact h.ordered side'
  · have hcons : ((c :: (s.lists .plus ++ s.lists .minus)).map (·.id)).Nodup := by
      rw [map_cons]
      exact nodup_cons.mpr ⟨hc, h.nodup⟩
    refine (List.Perm.nodup_iff (List.Perm.map _ ?_)).mpr hcons
    cases side with
    | plus =>
      rw [hself, hother .minus (by decide)]
      exact (insertConsumer_perm .plus c _).append_right _
    | minus =>
      rw [hself, hother .plus (by decide)]
      exact ((insertConsumer_perm .minus c _).append_left _).trans perm_middle

theorem ListsOk.congr (h : ListsOk s) (hlists : s'.lists = s.lists) : ListsOk s' := by
  constructor
  · rw [hlists]
    exact h.ordered
  · rw [hlists]
    exact h.nodup

/-- The direction of a distance. -/
def sideOf (car : ℤ) : Side := if 0 < car then .plus else .minus

/-- The service after `gauge_coulomb_start` has added the consumer to its list. -/
def CoulombService.added (s : CoulombService) (id : ℕ) (car carNow : ℤ) : CoulombService :=
  (s.unlink id).setList (sideOf car)
    (insertConsumer (sideOf car) { id := id, endCar := carNow + car }
      ((s.unlink id).lists (sideOf car)))

/-- The second loop of `gauge_coulomb_start` on the list with the new consumer. -/
def CoulombService.scanned (s : CoulombService) (id : ℕ) (car carNow : ℤ) : Bool × Consumer :=
  scanPassed (sideOf car) carNow false { id := id, endCar := carNow + car }
    ((s.added id car carNow).lists (sideOf car))

/-- The start of a consumer, by whether another one is passed. -/
theorem gaugeCoulombStart_eq (id : ℕ) (hcar : car ≠ 0) (carNow : ℤ) (s : CoulombService) :
    gaugeCoulombStart id car carNow s =
      if (s.scanned id car carNow).1 then
        wakeUpGaugeCoulomb ((s.added id car carNow).program (sideOf car)
          ((sideOf car).distance carNow (s.scanned id car carNow).2))
      else (s.added id car carNow).program (sideOf car)
        ((sideOf car).distance carNow (s.scanned id car carNow).2) := by
  unfold gaugeCoulombStart
  rw [if_neg hcar]
  rfl

/-- A start keeps the lists right. -/
theorem ListsOk.start (h : ListsOk s) (id : ℕ) (car carNow : ℤ) :
    ListsOk (gaugeCoulombStart id car carNow s) := by
  by_cases hcar : car = 0
  · unfold gaugeCoulombStart
    rw [if_pos hcar]
    exact h
  · have hadded : ListsOk (s.added id car carNow) :=
      (h.unlink id).insert (sideOf car) (not_mem_unlink s id)
    rw [gaugeCoulombStart_eq id hcar]
    split_ifs <;> exact hadded.congr rfl

theorem ListsOk.afterReset (h : ListsOk s) : ListsOk (gaugeCoulombAfterReset s) := by
  constructor
  · intro side
    have hordered : (s.lists side).Pairwise side.le := h.ordered side
    refine pairwise_map.mpr (hordered.imp fun {c c'} hle => ?_)
    cases side <;> simp only [Side.le, Consumer.rebase] at hle ⊢ <;> omega
  · have hids : ∀ list : List Consumer,
        (list.map (Consumer.rebase s.resetCoulomb)).map (·.id) = list.map (·.id) := by
      intro list
      rw [map_map]
      rfl
    have hnodup := h.nodup
    rw [map_append] at hnodup ⊢
    exact (hids _).symm ▸ (hids _).symm ▸ hnodup

/-- A step of the handler keeps the lists right. -/
theorem ListsOk.passStep (h : ListsOk s) : ListsOk (passStep s) := by
  have hleave : ∀ (s' : CoulombService) car side, s'.lists = s.lists →
      ListsOk (s'.leaveSide car side) := by
    intro s' car side hlists
    cases side <;> exact h.congr hlists
  unfold Battery.passStep
  cases s.pass with
  | none => exact h
  | some pass =>
    obtain ⟨car, side⟩ := pass
    dsimp only
    cases hlist : s.lists side with
    | nil => exact hleave s car side rfl
    | cons ptr list =>
      dsimp only
      split_ifs
      · refine h.sublist fun side' => ?_
        by_cases heq : side' = side
        · subst heq
          rw [hlist]
          show (update s.lists side' list side').Sublist (ptr :: list)
          rw [update_self]
          exact sublist_cons_self ptr list
        · show (update s.lists side list side').Sublist (s.lists side')
          rw [update_of_ne heq]
      · exact hleave _ car side rfl

/-- Every event keeps the lists right. -/
theorem ListsOk.step (h : ListsOk s) (e : CoulombEvent) : ListsOk (coulombStep s e) := by
  cases e with
  | start id car carNow => exact h.start id car carNow
  | stop id => exact h.unlink id
  | beforeReset car => exact h.congr rfl
  | afterReset => exact h.afterReset
  | irq => exact h.congr rfl
  | passBegin car =>
    unfold coulombStep
    dsimp only
    split_ifs
    · exact h.congr rfl
    · exact h
  | passStep => exact h.passStep

theorem Side.distance_pos (h : side.passed car c = false) : 0 < side.distance car c := by
  cases side <;>
    simp only [passed, distance, decide_eq_false_iff_not] at * <;> omega

/-- A consumer that comes later in the order is not nearer. -/
theorem Side.distance_le (car : ℤ) (h : side.le c c') :
    side.distance car c ≤ side.distance car c' := by
  cases side <;> simp only [le, distance] at * <;> omega

theorem Side.not_passed_of_le (h : side.le c c') (hc : side.passed car c = false) :
    side.passed car c' = false := by
  cases side <;>
    simp only [le, passed, decide_eq_false_iff_not] at * <;> omega

theorem not_passed_new (id : ℕ) (hcar : car ≠ 0) (carNow : ℤ) :
    (sideOf car).passed carNow { id := id, endCar := carNow + car } = false := by
  unfold sideOf
  split_ifs <;> simp only [Side.passed, decide_eq_false_iff_not] <;> omega

/-- The consumer that is the nearest of those in a list that are not passed. -/
structure Nearest (side : Side) (car : ℤ) (list : List Consumer) (c : Consumer) : Prop where
  mem : c ∈ list
  notPassed : side.passed car c = false
  least : ∀ c' ∈ list, side.passed car c' = false → side.distance car c ≤ side.distance car c'

/-- With a head that is not passed, none is, and it is the nearest. -/
theorem nearest_head (hordered : side.Ordered (c :: list)) (hc : side.passed car c = false) :
    Nearest side car (c :: list) c ∧ (c :: list).any (side.passed car) = false := by
  obtain ⟨hfirst, -⟩ := pairwise_cons.mp hordered
  constructor
  · refine ⟨mem_cons_self, hc, fun c' hc' _ => ?_⟩
    rcases mem_cons.mp hc' with rfl | hmem
    · exact Int.le_refl _
    · exact Side.distance_le car (hfirst c' hmem)
  · rw [any_eq_false]
    intro c' hc'
    rw [Bool.not_eq_true]
    rcases mem_cons.mp hc' with rfl | hmem
    · exact hc
    · exact Side.not_passed_of_le (hfirst c' hmem) hc

/-- The second loop of `gauge_coulomb_start` ends at the nearest consumer, if there is one that
is not passed. -/
theorem scanPassed_spec (hordered : side.Ordered list)
    (hsome : ∃ c ∈ list, side.passed car c = false) (wake : Bool) (ptr : Consumer) :
    Nearest side car list (scanPassed side car wake ptr list).2 ∧
      (scanPassed side car wake ptr list).1 = (wake || list.any (side.passed car)) := by
  induction list generalizing wake ptr with
  | nil => simp at hsome
  | cons c list ih =>
    unfold scanPassed
    by_cases hc : side.passed car c = true
    · rw [if_pos hc]
      obtain ⟨c0, hmem, hc0⟩ := hsome
      have hrest : c0 ∈ list := (mem_cons.mp hmem).resolve_left fun heq => by
        rw [heq, hc] at hc0
        cases hc0
      obtain ⟨hnear, hwake⟩ := ih (pairwise_cons.mp hordered).2 ⟨c0, hrest, hc0⟩ true c
      refine ⟨⟨mem_cons_of_mem _ hnear.mem, hnear.notPassed, fun c' hc' hnot => ?_⟩, ?_⟩
      · rcases mem_cons.mp hc' with rfl | htail
        · rw [hc] at hnot
          cases hnot
        · exact hnear.least c' htail hnot
      · rw [hwake]
        simp [hc]
    · rw [if_neg hc]
      obtain ⟨hnear, hnone⟩ := nearest_head hordered (by simpa using hc)
      rw [hnone, Bool.or_false]
      exact ⟨hnear, rfl⟩

/-- A step of the handler fires a consumer of the list that is passed, if there is one, and
otherwise programs the distance to the nearest one and leaves the list. -/
def PassOk (s : CoulombService) : Prop :=
  ∀ car side, s.pass = some (car, side) →
    if (s.lists side).any (side.passed car) then
      ∃ c list, s.lists side = c :: list ∧ side.passed car c = true ∧
        passStep s = s.setList side list
    else
      (passStep s).lists = s.lists ∧ (passStep s).pass ≠ s.pass ∧
        (s.lists side ≠ [] → ∃ c, Nearest side car (s.lists side) c ∧
          (passStep s).Programmed side (side.distance car c))

/-- A start programs the distance to the nearest consumer on its side and leaves the other side
alone, unless a consumer is passed: then the thread is woken up. -/
def StartOk (s : CoulombService) : Prop :=
  ∀ id car carNow, car ≠ 0 →
    ∃ c, Nearest (sideOf car) carNow ((gaugeCoulombStart id car carNow s).lists (sideOf car)) c ∧
      0 < (sideOf car).distance carNow c ∧
      if ((gaugeCoulombStart id car carNow s).lists (sideOf car)).any
          ((sideOf car).passed carNow) then
        (gaugeCoulombStart id car carNow s).threadTimeout = true ∧
          ∀ side, (gaugeCoulombStart id car carNow s).threshold side = 300
      else
        (gaugeCoulombStart id car carNow s).Programmed (sideOf car)
          ((sideOf car).distance carNow c) ∧
        ∀ side, side ≠ sideOf car →
          (gaugeCoulombStart id car carNow s).threshold side = s.threshold side

/-- A positive distance is programmed as it is, if it is an `int`. -/
theorem programmed_program (s : CoulombService) (side : Side) {distance : ℤ} (hpos : 0 < distance) :
    (s.program side distance).Programmed side distance := by
  refine ⟨hpos, fun hlt => ?_⟩
  calc (s.program side distance).threshold side
      = s32 distance := update_self ..
    _ = distance := s32_eq (by omega) hlt

/-- The handler serves the lists in order. -/
theorem ListsOk.passOk (h : ListsOk s) : PassOk s := by
  intro car side hpass
  have hordered := h.ordered side
  have hleave : ∀ s' : CoulombService, (s'.leaveSide car side).lists = s'.lists ∧
      (s'.leaveSide car side).pass ≠ s.pass ∧
      (s'.leaveSide car side).threshold = s'.threshold := by
    intro s'
    rw [hpass]
    cases side <;> simp [CoulombService.leaveSide]
  unfold Battery.passStep
  rw [hpass]
  dsimp only
  cases hlist : s.lists side with
  | nil =>
    obtain ⟨hlists, hmoved, -⟩ := hleave s
    rw [hpass] at hmoved
    exact ⟨hlists, hmoved, fun hne => absurd rfl hne⟩
  | cons c list =>
    rw [hlist] at hordered
    by_cases hc : side.passed car c = true
    · rw [if_pos (by simp [hc])]
      exact ⟨c, list, rfl, hc, if_pos hc⟩
    · obtain ⟨hnear, hnone⟩ := nearest_head hordered (by simpa using hc)
      obtain ⟨hlists, hmoved, hthreshold⟩ := hleave (s.program side (side.distance car c))
      rw [hpass] at hmoved
      rw [hnone, if_neg (by decide)]
      dsimp only
      rw [if_neg hc]
      refine ⟨hlists, hmoved, fun _ => ⟨c, hnear, ?_⟩⟩
      rw [CoulombService.Programmed, hthreshold]
      exact programmed_program s side (Side.distance_pos hnear.notPassed)

/-- A start leaves a nearest consumer on its side. -/
theorem ListsOk.startOk (h : ListsOk s) : StartOk s := by
  intro id car carNow hcar
  have hadded : ListsOk (s.added id car carNow) :=
    (h.unlink id).insert (sideOf car) (not_mem_unlink s id)
  have hnew : ∃ c ∈ (s.added id car carNow).lists (sideOf car),
      (sideOf car).passed carNow c = false := by
    refine ⟨{ id := id, endCar := carNow + car }, ?_, not_passed_new id hcar carNow⟩
    have hself : (s.added id car carNow).lists (sideOf car) = insertConsumer (sideOf car)
        { id := id, endCar := carNow + car } ((s.unlink id).lists (sideOf car)) :=
      update_self ..
    rw [hself]
    exact mem_insertConsumer.mpr (Or.inl rfl)
  obtain ⟨hnear, hwake⟩ := scanPassed_spec (hadded.ordered (sideOf car)) hnew false
    { id := id, endCar := carNow + car }
  rw [Bool.false_or] at hwake
  have hlists : (gaugeCoulombStart id car carNow s).lists = (s.added id car carNow).lists := by
    rw [gaugeCoulombStart_eq id hcar]
    split_ifs <;> rfl
  rw [hlists]
  refine ⟨_, hnear, Side.distance_pos hnear.notPassed, ?_⟩
  rw [gaugeCoulombStart_eq id hcar, ← hwake]
  unfold CoulombService.scanned
  split_ifs
  · exact ⟨rfl, fun _ => rfl⟩
  · exact ⟨programmed_program _ _ (Side.distance_pos hnear.notPassed),
      fun side hne => update_of_ne hne ..⟩

/-- In every state reached, the lists are sorted and hold each consumer at most once, the handler
fires exactly the consumers that are passed, and a start programs the distance to the nearest
consumer of its side, or wakes the thread up if one is passed. -/
theorem coulomb_service_of_reaches (car0 : ℤ) {s : CoulombService}
    (hreach : Reaches coulombStep (fun _ _ => True) (CoulombService.init car0) s) :
    ListsOk s ∧ PassOk s ∧ StartOk s := by
  have hlists : ListsOk s := by
    refine hreach.invariant ⟨?_, ?_⟩ fun _ e h _ => h.step e
    · intro side
      exact List.Pairwise.nil
    · exact nodup_nil
  exact ⟨hlists, hlists.passOk, hlists.startOk⟩

/-- On each side that is not empty, the threshold is positive and the distance to the nearest
consumer that is not passed. -/
def ThresholdsNearest (car : ℤ) (s : CoulombService) : Prop :=
  ∀ side, s.lists side ≠ [] → ∃ c, Nearest side car (s.lists side) c ∧
    0 < s.threshold side ∧ s.threshold side = side.distance car c

/-- A threshold that is no distance to a consumer of its list. -/
theorem not_thresholdsNearest {s : CoulombService} (side : Side) (hne : s.lists side ≠ [])
    (hthreshold : ∀ c ∈ s.lists side, s.threshold side ≠ side.distance car c) :
    ¬ThresholdsNearest car s := by
  intro hnearest
  obtain ⟨c, hnear, -, heq⟩ := hnearest side hne
  exact hthreshold c hnear.mem heq

/-- The service after a start, with the counter at 0. -/
def startedAt (car : ℤ) : CoulombService := coulombStep (CoulombService.init 0) (.start 0 car 0)

/-- A consumer waits for 100 and the counter is at 150 when another one is started: the thread is
woken up, and the threshold is 300 instead of the distance 100. A consumer waits for -100 and the
counter is at 50 when one is started on the other side: the threshold 100 is kept, and the distance
is 150. The lowest distance is programmed as a negative number. -/
theorem not_thresholdsNearest_started :
    (∀ car, Reaches coulombStep (fun _ _ => True) (CoulombService.init 0) (startedAt car)) ∧
    ¬ThresholdsNearest 150 (gaugeCoulombStart 1 100 150 (startedAt 100)) ∧
    ¬ThresholdsNearest 50 (gaugeCoulombStart 1 100 50 (startedAt (-100))) ∧
    ¬ThresholdsNearest 0 (startedAt (-2 ^ 31)) :=
  ⟨fun _ => Reaches.start.next trivial, not_thresholdsNearest .plus (by decide) (by decide),
    not_thresholdsNearest .minus (by decide) (by decide),
    not_thresholdsNearest .minus (by decide) (by decide)⟩

/-- Two consumers wait on the plus list and one on the minus list, and the handler runs at 150. -/
def threeConsumers : List CoulombEvent :=
  [.start 0 100 0, .start 1 200 0, .start 2 (-50) 20, .irq, .passBegin 150, .passStep, .passStep]

/-- The first consumer was fired, and the distance 50 to the second one is programmed. -/
theorem coulomb_service_threeConsumers :
    let s := threeConsumers.foldl coulombStep (CoulombService.init 0)
    s.lists .plus = [⟨1, 200⟩] ∧ s.lists .minus = [⟨2, -30⟩] ∧ s.threshold .plus = 50 ∧
      ListsOk s ∧ PassOk s ∧ StartOk s :=
  ⟨by decide, by decide, by decide, coulomb_service_of_reaches 0
    (Reaches.start.foldl (by decide))⟩

end Mt8169.Battery
