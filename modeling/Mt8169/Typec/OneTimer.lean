import Mathlib.Data.List.Nodup

/-!
# The life of one timer

What the driver does to one timer, with its armings numbered: a call arms it, starts the kernel
timer a moment later, or disarms it; the kernel timer expires and its callback sets the tick; a pass
of the timer thread sees the tick, looks at the enable mask, runs the handler and clears the tick.
Under the guards of the steps, a handler runs for the expiry of the latest arming only, and no
expiry of an arming in force is lost.
-/

namespace Mt8169.Typec

open List Nat

/-- What the present pass of the timer thread has still to do for a timer. -/
inductive Watch where
  /-- Nothing. -/
  | none
  /-- The tick of an arming has been seen; `chosen` says that the enable bit was seen too. -/
  | due (arming : ℕ) (chosen : Bool)
  /-- The tick is to be cleared, and no handler will be run before. -/
  | closing
  deriving DecidableEq, Repr

/-- A run of a timeout handler: the arming whose expiry it handles, and whether the timer was armed
then and by which arming. -/
structure Handling where
  arming : ℕ
  armed : Bool
  latest : ℕ
  deriving DecidableEq, Repr

/-- The handler ran for the latest arming of a timer that was armed. -/
def Handling.Current (h : Handling) : Prop := h.armed = true ∧ h.arming = h.latest
  deriving Decidable

/-- One timer. -/
structure OneTimer where
  armed : Bool
  tick : Bool
  /-- The arming whose kernel timer is running. -/
  queued : Option ℕ
  /-- The arming whose kernel timer has expired and whose callback has not set the tick. -/
  flight : Option ℕ
  /-- The number of the latest arming. -/
  latest : ℕ
  /-- The arming whose callback set the tick last. -/
  ticked : ℕ
  /-- The calls that have armed the timer and have not yet started the kernel timer. -/
  starting : ℕ
  watch : Watch
  expired : List ℕ
  handled : List Handling
  deriving DecidableEq, Repr

namespace OneTimer

/-- A timer that has not been armed yet. -/
def idle : OneTimer where
  armed := false
  tick := false
  queued := none
  flight := none
  latest := 0
  ticked := 0
  starting := 0
  watch := .none
  expired := []
  handled := []

/-- No handler run of the present pass can be for this timer. -/
def NotDue (v : OneTimer) : Prop := ∀ g b, v.watch ≠ .due g b

instance (v : OneTimer) : Decidable v.NotDue :=
  match h : v.watch with
  | .none | .closing => .isTrue (by simp [NotDue, h])
  | .due g b => .isFalse fun hdue => hdue g b h

/-- The present pass is not going to run the handler of this timer. -/
def NotChosen (v : OneTimer) : Prop := ∀ g, v.watch ≠ .due g true

instance (v : OneTimer) : Decidable v.NotChosen :=
  match h : v.watch with
  | .none | .closing | .due _ false => .isTrue (by simp [NotChosen, h])
  | .due g true => .isFalse fun hdue => hdue g h

/-- One step of a timer. -/
inductive Step (v : OneTimer) : OneTimer → Prop
  | arm (htick : v.tick = false) (hflight : v.flight = none) (hstarting : v.starting = 0)
      (hdue : v.NotDue) :
      Step v { v with armed := true, latest := v.latest + 1, starting := v.starting + 1 }
  | disarm (hdue : v.NotChosen) : Step v { v with armed := false, tick := false }
  | start (hstarting : 0 < v.starting) :
      Step v { v with queued := some v.latest, starting := v.starting - 1 }
  | cancel : Step v { v with queued := none }
  | expire (hqueued : v.queued = some v.latest) :
      Step v { v with
        queued := none
        flight := some v.latest
        expired := v.expired ++ [v.latest] }
  | callback {g : ℕ} (hflight : v.flight = some g) (hclosing : v.watch ≠ .closing) :
      Step v { v with flight := none, tick := true, ticked := g }
  | seeTick (hwatch : v.watch = .none) (htick : v.tick = true) :
      Step v { v with watch := .due v.ticked false }
  | seeMask {g : ℕ} (hwatch : v.watch = .due g false) :
      Step v { v with watch := if v.armed then .due g true else .closing }
  | handle {g : ℕ} (hwatch : v.watch = .due g true) :
      Step v { v with watch := .closing, handled := v.handled ++ [⟨g, v.armed, v.latest⟩] }
  | clearTick (hwatch : v.watch = .closing) : Step v { v with tick := false, watch := .none }

/-- An expiry that was not handled yet, and will be. -/
def OnItsWay (v : OneTimer) : Prop :=
  v.flight = some v.latest ∨ v.tick = true ∧ v.watch = .none ∨ ∃ b, v.watch = .due v.latest b

/-- What the guarded steps keep. -/
structure Sound (v : OneTimer) : Prop where
  starting_le : v.starting ≤ 1
  queued_le : ∀ g, v.queued = some g → g ≤ v.latest
  expired_le : ∀ g ∈ v.expired, g ≤ v.latest
  /-- An arming is either waiting for the start of the kernel timer, or running, or spent. -/
  starting : v.starting = 1 → v.latest ∉ v.expired ∧ v.queued ≠ some v.latest
  running : v.queued = some v.latest → v.latest ∉ v.expired
  inFlight : ∀ g, v.flight = some g → g = v.latest ∧ v.tick = false ∧ v.NotDue ∧ g ∈ v.expired ∧
    g ∉ v.handled.map Handling.arming
  ticking : v.tick = true → v.ticked = v.latest ∧ v.latest ∈ v.expired ∧
    (v.watch = .none → v.latest ∉ v.handled.map Handling.arming)
  due : ∀ g b, v.watch = .due g b → g = v.latest ∧ g ∈ v.expired ∧
    g ∉ v.handled.map Handling.arming ∧ (b = true → v.armed = true)
  kept : v.armed = true → v.latest ∈ v.expired →
    v.latest ∈ v.handled.map Handling.arming ∨ v.OnItsWay
  handled_expired : ∀ h ∈ v.handled, h.arming ∈ v.expired
  current : ∀ h ∈ v.handled, h.Current
  handled_once : (v.handled.map Handling.arming).Nodup
  expired_once : v.expired.Nodup

variable {v v' : OneTimer} {g : ℕ}

theorem Sound.not_handled (h : v.Sound) (hg : g ∉ v.expired) :
    g ∉ v.handled.map Handling.arming := by
  intro hin
  obtain ⟨x, hx, rfl⟩ := mem_map.mp hin
  exact hg (h.handled_expired x hx)

theorem idle_sound : idle.Sound := by
  constructor <;> simp [idle]

section

variable (h : v.Sound)
include h

theorem Sound.count_handled_le (g : ℕ) :
    (v.handled.map Handling.arming).count g ≤ v.expired.count g := by
  by_cases hin : g ∈ v.handled.map Handling.arming
  · have hexpired : g ∈ v.expired := by
      obtain ⟨x, hx, rfl⟩ := mem_map.mp hin
      exact h.handled_expired x hx
    rw [count_eq_one_of_mem h.handled_once hin]
    exact count_pos_iff.mpr hexpired
  · rw [count_eq_zero_of_not_mem hin]
    exact zero_le _

theorem Sound.arm (htick : v.tick = false) (hflight : v.flight = none)
    (hstarting : v.starting = 0) (hdue : v.NotDue) :
    Sound { v with armed := true, latest := v.latest + 1, starting := v.starting + 1 } :=
  have hfresh : v.latest + 1 ∉ v.expired := fun hin =>
    absurd (h.expired_le _ hin) (not_succ_le_self _)
  have hqueued : v.queued ≠ some (v.latest + 1) := fun heq =>
    absurd (h.queued_le _ heq) (not_succ_le_self _)
  { h with
    starting_le := by simp [hstarting]
    queued_le := fun g hg => le_succ_of_le (h.queued_le g hg)
    expired_le := fun g hg => le_succ_of_le (h.expired_le g hg)
    starting := fun _ => ⟨hfresh, hqueued⟩
    running := fun heq => absurd heq hqueued
    inFlight := by simp [hflight]
    ticking := by simp [htick]
    due := fun g b hwatch => absurd hwatch (hdue g b)
    kept := fun _ hin => absurd hin hfresh }

theorem Sound.disarm (hdue : v.NotChosen) : Sound { v with armed := false, tick := false } :=
  { h with
    inFlight := fun g hg => by
      obtain ⟨heq, -, hrest⟩ := h.inFlight g hg
      exact ⟨heq, rfl, hrest⟩
    ticking := nofun
    due := fun g b hwatch => by
      obtain ⟨heq, hexpired, hhandled, -⟩ := h.due g b hwatch
      refine ⟨heq, hexpired, hhandled, fun hb => absurd hwatch ?_⟩
      exact hb ▸ hdue g
    kept := nofun }

theorem Sound.start (hstarting : 0 < v.starting) :
    Sound { v with queued := some v.latest, starting := v.starting - 1 } :=
  have hone : v.starting = 1 := Nat.le_antisymm h.starting_le hstarting
  { h with
    starting_le := by simp [hone]
    queued_le := fun _ hg => Nat.le_of_eq (Option.some.inj hg).symm
    starting := by simp [hone]
    running := fun _ => (h.starting hone).1 }

theorem Sound.cancel : Sound { v with queued := none } :=
  { h with
    queued_le := nofun
    starting := fun hs => ⟨(h.starting hs).1, nofun⟩
    running := nofun }

theorem Sound.expire (hqueued : v.queued = some v.latest) :
    Sound { v with
      queued := none
      flight := some v.latest
      expired := v.expired ++ [v.latest] } :=
  have hfresh := h.running hqueued
  have hstarting : v.starting ≠ 1 := fun hs => (h.starting hs).2 hqueued
  have hin {g : ℕ} (hg : g ∈ v.expired) : g ∈ v.expired ++ [v.latest] :=
    mem_append_left _ hg
  have hlast : v.latest ∈ v.expired ++ [v.latest] := by simp
  { h with
    queued_le := nofun
    expired_le := fun g hg => by
      rcases mem_append.mp hg with hold | hnew
      · exact h.expired_le g hold
      · exact Nat.le_of_eq (mem_singleton.mp hnew)
    starting := fun hs => absurd hs hstarting
    running := nofun
    inFlight := fun g hg => by
      obtain rfl := Option.some.inj hg
      refine ⟨rfl, ?_, fun g b hwatch => ?_, hlast, h.not_handled hfresh⟩
      · by_contra hon
        exact hfresh (h.ticking (by simpa using hon)).2.1
      · obtain ⟨rfl, hexpired, -⟩ := h.due g b hwatch
        exact hfresh hexpired
    ticking := fun hon => absurd (h.ticking hon).2.1 hfresh
    due := fun g b hwatch => by
      obtain ⟨rfl, hexpired, -⟩ := h.due g b hwatch
      exact absurd hexpired hfresh
    kept := fun _ _ => .inr (.inl rfl)
    handled_expired := fun x hx => hin (h.handled_expired x hx)
    expired_once := nodup_append_comm.mp (nodup_cons.mpr ⟨hfresh, h.expired_once⟩) }

/-- A callback sets the tick, unless the pass is about to clear it. -/
theorem Sound.callback (hflight : v.flight = some g) (hclosing : v.watch ≠ .closing) :
    Sound { v with flight := none, tick := true, ticked := g } := by
  obtain ⟨rfl, -, hdue, hexpired, hhandled⟩ := h.inFlight g hflight
  have hwatch : v.watch = .none := by
    cases hw : v.watch with
    | none => rfl
    | due g b => exact absurd hw (hdue g b)
    | closing => exact absurd hw hclosing
  exact { h with
    inFlight := nofun
    ticking := fun _ => ⟨rfl, hexpired, fun _ => hhandled⟩
    kept := fun _ _ => .inr (.inr (.inl ⟨rfl, hwatch⟩)) }

theorem Sound.seeTick (hwatch : v.watch = .none) (htick : v.tick = true) :
    Sound { v with watch := .due v.ticked false } := by
  obtain ⟨hticked, hexpired, hhandled⟩ := h.ticking htick
  exact { h with
    inFlight := fun g hg => by
      have hoff := (h.inFlight g hg).2.1
      simp [htick] at hoff
    ticking := fun _ => ⟨hticked, hexpired, nofun⟩
    due := fun g b hdue => by
      obtain ⟨rfl, rfl⟩ := Watch.due.inj hdue
      rw [hticked]
      exact ⟨rfl, hexpired, hhandled hwatch, nofun⟩
    kept := fun _ _ => .inr (.inr (.inr ⟨false, by rw [hticked]⟩)) }

theorem Sound.seeMask (hwatch : v.watch = .due g false) :
    Sound { v with watch := if v.armed then .due g true else .closing } := by
  obtain ⟨rfl, hexpired, hhandled, -⟩ := h.due g false hwatch
  have hnone : (if v.armed then Watch.due v.latest true else .closing) ≠ .none := by
    split <;> nofun
  exact { h with
    inFlight := fun g hg => absurd hwatch ((h.inFlight g hg).2.2.1 _ _)
    ticking := fun hon => ⟨(h.ticking hon).1, hexpired, fun hw => absurd hw hnone⟩
    due := fun g b hdue => by
      by_cases harmed : v.armed = true
      · obtain ⟨rfl, rfl⟩ := Watch.due.inj (by simpa [harmed] using hdue)
        exact ⟨rfl, hexpired, hhandled, fun _ => harmed⟩
      · simp [harmed] at hdue
    kept := fun harmed _ => .inr (.inr (.inr ⟨true, by simp [show v.armed = true from harmed]⟩)) }

/-- The handler runs for the arming that the pass saw. -/
theorem Sound.handle (hwatch : v.watch = .due g true) :
    Sound { v with watch := .closing, handled := v.handled ++ [⟨g, v.armed, v.latest⟩] } := by
  obtain ⟨rfl, hexpired, hhandled, harmed⟩ := h.due g true hwatch
  have hmem {x : Handling} (hx : x ∈ v.handled ++ [⟨v.latest, v.armed, v.latest⟩]) :
      x ∈ v.handled ∨ x = ⟨v.latest, v.armed, v.latest⟩ := by
    simpa using hx
  exact { h with
    inFlight := fun g hg => absurd hwatch ((h.inFlight g hg).2.2.1 _ _)
    ticking := fun hon => ⟨(h.ticking hon).1, hexpired, nofun⟩
    due := nofun
    kept := fun _ _ => .inl (by simp)
    handled_expired := fun x hx => by
      rcases hmem hx with hold | rfl
      · exact h.handled_expired x hold
      · exact hexpired
    current := fun x hx => by
      rcases hmem hx with hold | rfl
      · exact h.current x hold
      · exact ⟨harmed rfl, rfl⟩
    handled_once := by
      rw [map_append]
      exact nodup_append_comm.mp (nodup_cons.mpr ⟨hhandled, h.handled_once⟩) }

theorem Sound.clearTick (hwatch : v.watch = .closing) :
    Sound { v with tick := false, watch := .none } :=
  { h with
    inFlight := fun g hg => by
      obtain ⟨heq, -, -, hrest⟩ := h.inFlight g hg
      exact ⟨heq, rfl, nofun, hrest⟩
    ticking := nofun
    due := nofun
    kept := fun harmed hexpired => by
      rcases h.kept harmed hexpired with hhandled | hflight | ⟨-, hnone⟩ | ⟨b, hdue⟩
      · exact .inl hhandled
      · exact .inr (.inl hflight)
      · simp [hwatch] at hnone
      · simp [hwatch] at hdue }

/-- Every step of a timer keeps it sound. -/
theorem Sound.step (hstep : Step v v') : v'.Sound := by
  cases hstep with
  | arm htick hflight hstarting hdue => exact h.arm htick hflight hstarting hdue
  | disarm hdue => exact h.disarm hdue
  | start hstarting => exact h.start hstarting
  | cancel => exact h.cancel
  | expire hqueued => exact h.expire hqueued
  | callback hflight hclosing => exact h.callback hflight hclosing
  | seeTick hwatch htick => exact h.seeTick hwatch htick
  | seeMask hwatch => exact h.seeMask hwatch
  | handle hwatch => exact h.handle hwatch
  | clearTick hwatch => exact h.clearTick hwatch

/-- A timer at rest has handled the expiry of its latest arming. -/
theorem Sound.handled_of_quiet (harmed : v.armed = true)
    (hexpired : v.latest ∈ v.expired) (hwatch : v.watch = .none) (htick : v.tick = false)
    (hflight : v.flight = none) : v.latest ∈ v.handled.map Handling.arming := by
  rcases h.kept harmed hexpired with hhandled | hway | ⟨hon, -⟩ | ⟨b, hdue⟩
  · exact hhandled
  · simp [hflight] at hway
  · simp [htick] at hon
  · simp [hwatch] at hdue

end

end OneTimer

end Mt8169.Typec
