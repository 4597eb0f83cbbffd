import Mathlib.Data.List.Basic
import Mathlib.Data.List.Pairwise
import Mt8169.Lib.Runs
import Mt8169.Mbox.Isr

/-!
# Waiting for an acknowledgement

`mtk_ipi_send_compl` sends a message and waits for the other processor to acknowledge it. The
acknowledgement sets a bit of the interrupt status and reaches the caller in one of two ways:
`mtk_mbox_polling` finds the bit, or the interrupt handler finds it and counts up the completion of
the pin. Neither is cleared before a message is sent. So an acknowledgement that comes after its
call has given up, or that both sides have found, ends the next call. The acknowledgements are
numbered as they arrive, and the bit, the handler and the completion carry the numbers of those they
stand for.
-/

namespace Mt8169.Mbox

open List Nat

/-- `IPI_SEND_POLLING` and `IPI_SEND_WAIT`. -/
inductive SendOpt where
  | polling
  | wait
  deriving DecidableEq, Repr

/-- Where a call of `mtk_ipi_send_compl` is. -/
inductive SendCompl where
  | idle
  /-- The message is being sent. -/
  | sending (opt : SendOpt)
  /-- A round of the polling loop, before `mtk_mbox_polling` or after it. -/
  | polling (polled : Bool)
  /-- `wait_for_completion_timeout`. -/
  | waiting
  /-- The wait is over: by these acknowledgements, or without one. -/
  | ending (acks : Option (List ℕ))
  deriving DecidableEq, Repr

namespace SendCompl

/-- The acknowledgements that have ended the wait. -/
def acks : SendCompl → List ℕ
  | ending (some acks) => acks
  | idle | sending _ | polling _ | waiting | ending none => []

/-- The message of the call has been sent. -/
def sent : SendCompl → Bool
  | idle | sending _ => false
  | polling _ | waiting | ending _ => true

end SendCompl

/-- Where `mtk_mbox_isr` of the mailbox of the pin is. -/
inductive MboxIsr where
  | idle
  /-- The interrupt status has been read, with these acknowledgements in the bit of the pin. -/
  | read (acks : List ℕ)
  /-- The bit has been cleared and the pins have been released. -/
  | cleared (acks : List ℕ)
  /-- `ipi_isr_cb` has copied the holder. -/
  | notifying (acks : List ℕ) (held : Bool)
  deriving DecidableEq, Repr

/-- The acknowledgements that the handler has found and not passed on. -/
def MboxIsr.acks : MboxIsr → List ℕ
  | idle => []
  | read acks | cleared acks | notifying acks _ => acks

/-- A call that has returned `IPI_ACTION_DONE`. -/
structure DoneCall where
  /-- The number of acknowledgements that had arrived when its message was sent. -/
  sentAt : ℕ
  /-- The number of acknowledgements that had arrived when it returned. -/
  doneAt : ℕ
  /-- The acknowledgements that ended its wait. -/
  acks : List ℕ
  deriving DecidableEq, Repr

/-- One channel with its receive pin. -/
structure IpiChannel where
  recvOpt : RecvOpt
  /-- The acknowledgements that the bit of the pin stands for; it is set if there are any. -/
  irqBit : List ℕ
  /-- `lock` of the pin is `MBOX_PIN_BUSY`. -/
  pinBusy : Bool
  /-- The completion: one entry for each time it has been counted up. -/
  notify : List (List ℕ)
  holder : ℕ
  isr : MboxIsr
  /-- The handlers of other mailboxes of the device that are running. -/
  others : ℕ
  caller : SendCompl
  /-- The calls that could not send and have unlocked the pin, but not yet cleared the holder. -/
  failed : ℕ
  arrived : ℕ
  /-- The number of acknowledgements that had arrived when the last message was sent. -/
  sentAt : ℕ
  doneCalls : List DoneCall
  deriving DecidableEq, Repr

/-- The steps of the caller, of the handlers and of the other processor. -/
inductive IpiEvent where
  | ack
  | isrEnter
  | isrClear
  | isrReadHolder
  | isrComplete
  | otherEnter
  | otherLeave
  | call (opt : SendOpt)
  | trySend (done : Bool)
  | giveUp
  | clearHolder
  | poll (readDone : Bool)
  /-- A look at the completion, and whether the time has run out if it is zero. -/
  | tryWait (expired : Bool)
  | finish
  deriving DecidableEq, Repr

namespace IpiChannel

/-- The channel after `mtk_ipi_device_register`. -/
def start (recvOpt : RecvOpt) : IpiChannel where
  recvOpt := recvOpt
  irqBit := []
  pinBusy := false
  notify := []
  holder := 0
  isr := .idle
  others := 0
  caller := .idle
  failed := 0
  arrived := 0
  sentAt := 0
  doneCalls := []

/-- The count at which a completion stays. -/
def uintMax : ℕ := 2 ^ 32 - 1

variable (s : IpiChannel)

/-- `complete`. -/
def complete (acks : List ℕ) : IpiChannel :=
  if s.notify.length ≠ uintMax then { s with notify := s.notify ++ [acks] } else s

/-- `try_wait_for_completion`, and a look of `wait_for_completion_timeout` at the count. -/
def tryWait (otherwise : SendCompl) : IpiChannel :=
  match s.notify with
  | [] => { s with caller := otherwise }
  | acks :: rest =>
    { s with
      notify := if s.notify.length ≠ uintMax then rest else s.notify
      caller := .ending (some acks) }

/-- `mtk_mbox_polling`, with the result of its `mtk_mbox_read`. -/
def mboxPolling (readDone : Bool) : IpiChannel :=
  if s.pinBusy then { s with caller := .polling true }
  else if s.irqBit ≠ [] then
    { s with
      irqBit := []
      caller := if readDone then .ending (some s.irqBit) else .polling true }
  else { s with caller := .polling true }

/-- `ipi_isr_cb` with its copy of the holder. -/
def ipiIsrCb (acks : List ℕ) (held : Bool) : IpiChannel :=
  match s.recvOpt with
  | .message => s.complete acks
  | .ack => if held then s.complete acks else s

/-- One step of the channel; a step that is not due changes nothing. -/
def step : IpiEvent → IpiChannel
  | .ack => { s with irqBit := s.irqBit ++ [s.arrived], arrived := s.arrived + 1 }
  | .isrEnter =>
    match s.isr with
    | .idle => { s with isr := .read s.irqBit, pinBusy := true }
    | _ => s
  | .isrClear =>
    match s.isr with
    | .read acks =>
      { s with
        irqBit := if acks ≠ [] then [] else s.irqBit
        isr := .cleared acks
        pinBusy := false }
    | _ => s
  | .isrReadHolder =>
    match s.isr with
    | .cleared acks =>
      { s with isr := if acks ≠ [] then .notifying acks (s.holder != 0) else .idle }
    | _ => s
  | .isrComplete =>
    match s.isr with
    | .notifying acks held => { s.ipiIsrCb acks held with isr := .idle }
    | _ => s
  | .otherEnter => { s with others := s.others + 1, pinBusy := true }
  | .otherLeave =>
    if 0 < s.others then { s with others := s.others - 1, pinBusy := false } else s
  | .call opt =>
    match s.caller with
    | .idle => { s with caller := .sending opt, holder := s.holder + 1 }
    | _ => s
  | .trySend done =>
    match s.caller with
    | .sending .polling =>
      if done then { s with sentAt := s.arrived, caller := .polling false } else s
    | .sending .wait => if done then { s with sentAt := s.arrived, caller := .waiting } else s
    | _ => s
  | .giveUp =>
    match s.caller with
    -- the pin is unlocked before the holder is cleared
    | .sending _ => { s with caller := .idle, failed := s.failed + 1 }
    | _ => s
  | .clearHolder => if 0 < s.failed then { s with holder := 0, failed := s.failed - 1 } else s
  | .poll readDone =>
    match s.caller with
    | .polling false => s.mboxPolling readDone
    | _ => s
  | .tryWait expired =>
    match s.caller with
    | .polling true => s.tryWait (if expired then .ending none else .polling false)
    | .waiting => s.tryWait (if expired then .ending none else .waiting)
    | _ => s
  | .finish =>
    match s.caller with
    | .ending none => { s with caller := .idle, holder := 0 }
    | .ending (some acks) =>
      { s with
        caller := .idle
        holder := 0
        doneCalls := s.doneCalls ++ [⟨s.sentAt, s.arrived, acks⟩] }
    | _ => s

/-- A call returns `IPI_ACTION_DONE` only if an acknowledgement has arrived since its message was
sent, and no acknowledgement ends two calls. -/
structure DoneRight (s : IpiChannel) : Prop where
  acknowledged : ∀ d ∈ s.doneCalls, d.sentAt < d.doneAt
  once : s.doneCalls.Pairwise fun d d' => d.acks.Disjoint d'.acks

/-- A message is sent only when no acknowledgement is left over: the bit is clear, the completion
is zero, and the handler has nothing to pass on. -/
def Quiet (e : IpiEvent) : Prop :=
  e = .trySend true → s.irqBit = [] ∧ s.notify = [] ∧ s.isr.acks = []
  deriving Decidable

/-- The acknowledgement has arrived and can still end a call. -/
def Carries (a : ℕ) : Prop :=
  a ∈ s.irqBit ∨ a ∈ s.isr.acks ∨ a ∈ s.notify.flatten ∨ a ∈ s.caller.acks

/-- The completion and the end of a wait each stand for an acknowledgement, and so does the
handler once it is about to complete. -/
structure Named (s : IpiChannel) : Prop where
  notify : [] ∉ s.notify
  notifying : ∀ held, s.isr ≠ .notifying [] held
  caller : s.caller ≠ .ending (some [])

/-- The acknowledgements of `t` come from those of `s`, and no message has been sent and no call
has returned in between. -/
structure Moves (s t : IpiChannel) : Prop where
  carries : ∀ a, t.Carries a → s.Carries a
  named : s.Named → t.Named
  arrived : t.arrived = s.arrived
  sentAt : t.sentAt = s.sentAt
  sent : t.caller.sent = s.caller.sent
  doneCalls : t.doneCalls = s.doneCalls

variable {s t : IpiChannel} {c : SendCompl}

theorem Moves.refl (s : IpiChannel) : s.Moves s :=
  ⟨fun _ h => h, fun h => h, rfl, rfl, rfl, rfl⟩

theorem withCaller_moves {bit : List ℕ} (hbit : bit ⊆ s.irqBit)
    (hsent : c.sent = s.caller.sent) (hacks : c.acks ⊆ s.irqBit)
    (hending : c ≠ .ending (some [])) : s.Moves { s with irqBit := bit, caller := c } where
  carries a := by
    rintro (ha | ha | ha | ha)
    · exact .inl (hbit ha)
    · exact .inr (.inl ha)
    · exact .inr (.inr (.inl ha))
    · exact .inl (hacks ha)
  named h := { h with caller := hending }
  arrived := rfl
  sentAt := rfl
  sent := hsent
  doneCalls := rfl

/-- A step of the handler only moves acknowledgements. -/
theorem withIsr_moves {bit : List ℕ} {isr : MboxIsr} (busy : Bool) (hbit : bit ⊆ s.irqBit)
    (hacks : isr.acks ⊆ s.irqBit ∨ isr.acks ⊆ s.isr.acks)
    (hnotifying : ∀ held, isr ≠ .notifying [] held) :
    s.Moves { s with irqBit := bit, isr := isr, pinBusy := busy } where
  carries a := by
    rintro (ha | ha | ha | ha)
    · exact .inl (hbit ha)
    · exact hacks.elim (fun hacks => .inl (hacks ha)) fun hacks => .inr (.inl (hacks ha))
    · exact .inr (.inr (.inl ha))
    · exact .inr (.inr (.inr ha))
  named h := ⟨h.notify, hnotifying, h.caller⟩
  arrived := rfl
  sentAt := rfl
  sent := rfl
  doneCalls := rfl

theorem tryWait_moves (hs : s.caller.sent = true) (hsent : c.sent = true)
    (hacks : c.acks = []) (hending : c ≠ .ending (some [])) : s.Moves (s.tryWait c) := by
  cases hnotify : s.notify with
  | nil =>
    have heq : s.tryWait c = { s with caller := c } := by simp only [tryWait, hnotify]
    rw [heq]
    exact withCaller_moves (List.Subset.refl _) (hsent.trans hs.symm) (by simp [hacks]) hending
  | cons acks rest =>
    have heq : s.tryWait c = { s with
        notify := if s.notify.length ≠ uintMax then rest else s.notify
        caller := .ending (some acks) } := by simp only [tryWait, hnotify]
    -- the entries that stay were there before
    have hrest : (if s.notify.length ≠ uintMax then rest else s.notify) ⊆ s.notify := by
      split_ifs
      · rw [hnotify]
        exact subset_cons_self acks rest
      · exact List.Subset.refl _
    have hmem : acks ∈ s.notify := by simp [hnotify]
    rw [heq]
    refine ⟨?_, fun h => ⟨fun hnil => h.notify (hrest hnil), h.notifying, ?_⟩, rfl, rfl, ?_, rfl⟩
    · rintro a (ha | ha | ha | ha)
      · exact .inl ha
      · exact .inr (.inl ha)
      · obtain ⟨l, hl, hal⟩ := mem_flatten.mp ha
        exact .inr (.inr (.inl (mem_flatten.mpr ⟨l, hrest hl, hal⟩)))
      · exact .inr (.inr (.inl (mem_flatten.mpr ⟨acks, hmem, ha⟩)))
    · simp only [ne_eq, SendCompl.ending.injEq, Option.some.injEq]
      rintro rfl
      exact h.notify hmem
    · rw [hs, SendCompl.sent]

theorem mboxPolling_moves (readDone : Bool) (hs : s.caller.sent = true) :
    s.Moves (s.mboxPolling readDone) := by
  have hbusy : s.Moves { s with caller := .polling true } :=
    withCaller_moves (List.Subset.refl _) (by rw [hs, SendCompl.sent]) (nil_subset _) (by simp)
  unfold mboxPolling
  split_ifs with hlock hbit hdone
  · exact hbusy
  · exact withCaller_moves (nil_subset _) (by rw [hs, SendCompl.sent]) (List.Subset.refl _)
      (by simpa using hbit)
  · exact withCaller_moves (nil_subset _) (by rw [hs, SendCompl.sent]) (nil_subset _)
      (by simp)
  · exact hbusy

theorem ipiIsrCb_eq_or (acks : List ℕ) (held : Bool) :
    s.ipiIsrCb acks held = { s with notify := s.notify ++ [acks] } ∨ s.ipiIsrCb acks held = s := by
  unfold ipiIsrCb complete
  cases s.recvOpt <;> cases held <;> by_cases h : s.notify.length = uintMax <;> simp [h]

theorem isrComplete_moves {acks : List ℕ} {held : Bool} (hisr : s.isr = .notifying acks held) :
    s.Moves { s.ipiIsrCb acks held with isr := .idle } := by
  rcases ipiIsrCb_eq_or acks held (s := s) with heq | heq <;> rw [heq]
  · refine ⟨?_, fun h => ⟨?_, nofun, h.caller⟩, rfl, rfl, rfl, rfl⟩
    · rintro a (ha | ha | ha | ha)
      · exact .inl ha
      · simp [MboxIsr.acks] at ha
      · rw [flatten_append, flatten_singleton, mem_append] at ha
        rcases ha with ha | ha
        · exact .inr (.inr (.inl ha))
        · exact .inr (.inl (by rwa [hisr]))
      · exact .inr (.inr (.inr ha))
    · have hacks : acks ≠ [] := by
        rintro rfl
        exact h.notifying held hisr
      simpa [hacks.symm] using h.notify
  · exact withIsr_moves s.pinBusy (List.Subset.refl _) (.inl (nil_subset _)) nofun

/-- All other events only move acknowledgements. -/
theorem step_moves {e : IpiEvent} (hack : e ≠ .ack) (hsend : e ≠ .trySend true)
    (hfinish : e ≠ .finish) : s.Moves (s.step e) := by
  have hcall {c : SendCompl} (hsent : c.sent = s.caller.sent) (hacks : c.acks = [])
      (hending : c ≠ .ending (some [])) : s.Moves { s with caller := c } :=
    withCaller_moves (List.Subset.refl _) hsent (by simp [hacks]) hending
  have hsame : ∀ a, s.Carries a → s.Carries a := fun _ h => h
  cases e with
  | ack => exact absurd rfl hack
  | finish => exact absurd rfl hfinish
  | isrEnter =>
    rw [step]
    split
    · exact withIsr_moves true (List.Subset.refl _) (.inl (List.Subset.refl _)) nofun
    · exact Moves.refl s
  | isrClear =>
    rw [step]
    split
    case h_1 acks hisr =>
      refine withIsr_moves false ?_ (.inr (by rw [hisr]; exact List.Subset.refl _)) nofun
      split_ifs
      · exact nil_subset _
      · exact List.Subset.refl _
    case h_2 => exact Moves.refl s
  | isrReadHolder =>
    rw [step]
    split
    case h_1 acks hisr =>
      split_ifs with hacks
      · refine withIsr_moves s.pinBusy (List.Subset.refl _)
          (.inr (by rw [hisr]; exact List.Subset.refl _)) ?_
        intro held heq
        exact hacks (MboxIsr.notifying.inj heq).1
      · exact withIsr_moves s.pinBusy (List.Subset.refl _) (.inl (nil_subset _)) nofun
    case h_2 => exact Moves.refl s
  | isrComplete =>
    rw [step]
    split
    case h_1 hisr => exact isrComplete_moves hisr
    case h_2 => exact Moves.refl s
  | otherEnter => exact ⟨hsame, fun h => ⟨h.1, h.2, h.3⟩, rfl, rfl, rfl, rfl⟩
  | otherLeave =>
    rw [step]
    split_ifs
    · exact ⟨hsame, fun h => ⟨h.1, h.2, h.3⟩, rfl, rfl, rfl, rfl⟩
    · exact Moves.refl s
  | call opt =>
    rw [step]
    split
    case h_1 hcaller =>
      have hmoves := hcall (c := .sending opt) (by rw [hcaller]; rfl) rfl (by simp)
      exact ⟨hmoves.carries, fun h => ⟨h.1, h.2, by simp⟩, rfl, rfl, hmoves.sent, rfl⟩
    case h_2 => exact Moves.refl s
  | trySend done =>
    have hdone : done = false := by simpa using hsend
    subst hdone
    rw [step]
    split <;> exact Moves.refl s
  | giveUp =>
    rw [step]
    split
    case h_1 hcaller =>
      have hmoves := hcall (c := .idle) (by rw [hcaller]; rfl) rfl (by simp)
      exact ⟨hmoves.carries, fun h => ⟨h.1, h.2, by simp⟩, rfl, rfl, hmoves.sent, rfl⟩
    case h_2 => exact Moves.refl s
  | clearHolder =>
    rw [step]
    split_ifs
    · exact ⟨hsame, fun h => ⟨h.1, h.2, h.3⟩, rfl, rfl, rfl, rfl⟩
    · exact Moves.refl s
  | poll readDone =>
    rw [step]
    split
    case h_1 hcaller => exact mboxPolling_moves readDone (by rw [hcaller, SendCompl.sent])
    case h_2 => exact Moves.refl s
  | tryWait expired =>
    rw [step]
    split
    case h_1 hcaller | h_2 hcaller =>
      apply tryWait_moves (by rw [hcaller, SendCompl.sent]) <;> cases expired <;>
        simp [SendCompl.sent, SendCompl.acks]
    case h_3 => exact Moves.refl s

/-- While a call waits, only acknowledgements that arrived after its message can end it, and the
calls before it were ended by earlier ones. -/
structure Holds (s : IpiChannel) : Prop where
  named : s.Named
  sentAt_le : s.sentAt ≤ s.arrived
  carried : ∀ a, s.Carries a → a < s.arrived ∧ (s.caller.sent = true → s.sentAt ≤ a)
  done_lt : ∀ d ∈ s.doneCalls, ∀ a ∈ d.acks,
    a < s.arrived ∧ (s.caller.sent = true → a < s.sentAt)
  right : s.DoneRight

theorem holds_start (recvOpt : RecvOpt) : (start recvOpt).Holds where
  named := ⟨by simp [start], nofun, nofun⟩
  sentAt_le := Nat.le_refl _
  carried a h := by simp [Carries, start, MboxIsr.acks, SendCompl.acks] at h
  done_lt d h := nomatch h
  right := ⟨fun d h => (nomatch h), List.Pairwise.nil⟩

section

variable (h : s.Holds)
include h

theorem Holds.moves (hmoves : s.Moves t) : t.Holds where
  named := hmoves.named h.named
  sentAt_le := by
    rw [hmoves.arrived, hmoves.sentAt]
    exact h.sentAt_le
  carried a ha := by
    rw [hmoves.arrived, hmoves.sent, hmoves.sentAt]
    exact h.carried a (hmoves.carries a ha)
  done_lt := by
    rw [hmoves.doneCalls, hmoves.sent, hmoves.sentAt, hmoves.arrived]
    exact h.done_lt
  right := by
    constructor
    · rw [hmoves.doneCalls]
      exact h.right.acknowledged
    · rw [hmoves.doneCalls]
      exact h.right.once

theorem Holds.ack : (s.step .ack).Holds := by
  have hcarries : ∀ a, (s.step .ack).Carries a → s.Carries a ∨ a = s.arrived := by
    rintro a (ha | ha)
    · rcases mem_append.mp ha with ha | ha
      · exact .inl (.inl ha)
      · exact .inr (mem_singleton.mp ha)
    · exact .inl (.inr ha)
  refine ⟨⟨h.named.1, h.named.2, h.named.3⟩, le_succ_of_le h.sentAt_le, fun a ha => ?_,
    fun d hd a ha => (h.done_lt d hd a ha).imp_left lt_succ_of_lt, ⟨h.right.1, h.right.2⟩⟩
  rcases hcarries a ha with ha | rfl
  · exact (h.carried a ha).imp_left lt_succ_of_lt
  · exact ⟨lt_succ_self _, fun _ => h.sentAt_le⟩

/-- A new message keeps it if nothing is left of the last one. -/
theorem Holds.sent (hquiet : s.Quiet (.trySend true)) (hacks : c.acks = [])
    (hending : c ≠ .ending (some [])) : { s with sentAt := s.arrived, caller := c }.Holds := by
  obtain ⟨hbit, hnotify, hisr⟩ := hquiet rfl
  have hnone : ∀ a, ¬ { s with sentAt := s.arrived, caller := c }.Carries a := by
    simp [Carries, hbit, hnotify, hisr, hacks]
  exact ⟨⟨h.named.1, h.named.2, hending⟩, Nat.le_refl _, fun a ha => absurd ha (hnone a),
    fun d hd a ha => ⟨(h.done_lt d hd a ha).1, fun _ => (h.done_lt d hd a ha).1⟩,
    ⟨h.right.1, h.right.2⟩⟩

theorem Holds.returned {calls : List DoneCall} (hlt : ∀ d ∈ calls, ∀ a ∈ d.acks, a < s.arrived)
    (hacknowledged : ∀ d ∈ calls, d.sentAt < d.doneAt)
    (honce : calls.Pairwise fun d d' => d.acks.Disjoint d'.acks) :
    { s with caller := .idle, holder := 0, doneCalls := calls }.Holds where
  named := ⟨h.named.notify, h.named.notifying, nofun⟩
  sentAt_le := h.sentAt_le
  carried a ha := by
    have hcarried : s.Carries a := by
      rcases ha with ha | ha | ha | ha
      · exact .inl ha
      · exact .inr (.inl ha)
      · exact .inr (.inr (.inl ha))
      · simp [SendCompl.acks] at ha
    exact ⟨(h.carried a hcarried).1, nofun⟩
  done_lt d hd a ha := ⟨hlt d hd a ha, nofun⟩
  right := ⟨hacknowledged, honce⟩

theorem Holds.finish : (s.step .finish).Holds := by
  cases hcaller : s.caller with
  | idle | sending | polling | waiting => simpa only [step, hcaller] using h
  | ending acks =>
    have hsent : s.caller.sent = true := by rw [hcaller, SendCompl.sent]
    cases acks with
    | none =>
      simp only [step, hcaller]
      exact h.returned (fun d hd a ha => (h.done_lt d hd a ha).1) h.right.acknowledged
        h.right.once
    | some acks =>
      have hcarried : ∀ a ∈ acks, a < s.arrived ∧ s.sentAt ≤ a := by
        intro a ha
        obtain ⟨hlt, hle⟩ := h.carried a (.inr (.inr (.inr (by rwa [hcaller]))))
        exact ⟨hlt, hle hsent⟩
      simp only [step, hcaller]
      apply h.returned
      · intro d hd a ha
        rcases mem_append.mp hd with hd | hd
        · exact (h.done_lt d hd a ha).1
        · rw [mem_singleton.mp hd] at ha
          exact (hcarried a ha).1
      · intro d hd
        rcases mem_append.mp hd with hd | hd
        · exact h.right.acknowledged d hd
        · rw [mem_singleton.mp hd]
          -- one of the acknowledgements that ended the wait lies between the two times
          obtain ⟨a, ha⟩ := exists_mem_of_ne_nil acks (by
            rintro rfl
            exact h.named.caller hcaller)
          exact Nat.lt_of_le_of_lt (hcarried a ha).2 (hcarried a ha).1
      · refine pairwise_append.mpr ⟨h.right.once, pairwise_singleton _ _, ?_⟩
        intro d hd d' hd' a ha ha'
        rw [mem_singleton.mp hd'] at ha'
        have hlt := (h.done_lt d hd a ha).2 hsent
        have hle := (hcarried a ha').2
        omega

/-- Every step under the condition keeps the invariant. -/
theorem Holds.step {e : IpiEvent} (hquiet : s.Quiet e) : (s.step e).Holds := by
  by_cases hack : e = .ack
  · rw [hack]
    exact h.ack
  by_cases hfinish : e = .finish
  · rw [hfinish]
    exact h.finish
  by_cases hsend : e = .trySend true
  · subst hsend
    cases hcaller : s.caller with
    | sending opt =>
      cases opt with
      | polling =>
        have hsent := h.sent hquiet (c := .polling false) rfl (by simp)
        simpa [IpiChannel.step, hcaller] using hsent
      | wait =>
        have hsent := h.sent hquiet (c := .waiting) rfl (by simp)
        simpa [IpiChannel.step, hcaller] using hsent
    | idle | polling | waiting | ending => simpa only [IpiChannel.step, hcaller] using h
  exact h.moves (step_moves hack hsend hfinish)

end

/-- In every run in which a message is sent only while no earlier acknowledgement is left over, a
call returns `IPI_ACTION_DONE` only if an acknowledgement has arrived since its message was sent,
and no acknowledgement ends two calls. -/
theorem doneCalls_right (recvOpt : RecvOpt) (es : List IpiEvent)
    (hquiet : Runs.RunOk step Quiet (start recvOpt) es) :
    (es.foldl step (start recvOpt)).DoneRight := by
  have hreaches := Runs.Reaches.start.foldl hquiet
  have hholds := hreaches.invariant (holds_start recvOpt) fun _ _ h hok => h.step hok
  exact hholds.right

/-- Two calls, one of each mode: the first finds the bit itself, the second is woken by the handler,
while a handler of another mailbox runs. -/
def bothModes : List IpiEvent :=
  [.call .polling, .trySend false, .trySend true, .otherEnter, .ack, .poll true, .tryWait false,
    .otherLeave, .poll true, .finish, .call .wait, .trySend true, .tryWait false, .ack, .isrEnter,
    .isrClear, .isrReadHolder, .isrComplete, .tryWait true, .finish]

/-- A call that polls and a call that waits. -/
theorem doneCalls_right_bothModes :
    Runs.RunOk step Quiet (start .ack) bothModes ∧
      (bothModes.foldl step (start .ack)).doneCalls = [⟨0, 1, [0]⟩, ⟨1, 2, [1]⟩] ∧
      (bothModes.foldl step (start .ack)).DoneRight := by
  have hquiet : Runs.RunOk step Quiet (start .ack) bothModes := by decide +kernel
  exact ⟨hquiet, by decide +kernel, doneCalls_right .ack bothModes hquiet⟩

/-- A waiting call runs out of time after the handler has seen its holder and before the handler
completes. The completion stays, and the next call is done with no acknowledgement of its own. -/
def lateCompletion : List IpiEvent :=
  [.call .wait, .trySend true, .ack, .isrEnter, .isrClear, .isrReadHolder, .tryWait true,
    .isrComplete, .finish, .call .wait, .trySend true, .tryWait false, .finish]

/-- The end of another mailbox's handler releases the pin while the mailbox's own handler has read
the bit. The caller finds the bit as well, and the completion of the handler ends the next call,
for which an acknowledgement has arrived that nobody has seen yet. -/
def foundTwice : List IpiEvent :=
  [.call .polling, .trySend true, .otherEnter, .ack, .isrEnter, .otherLeave, .poll true, .isrClear,
    .isrReadHolder, .isrComplete, .finish, .call .wait, .trySend true, .ack, .tryWait false,
    .finish]

/-- Both parts fail: a call is done without an acknowledgement since its message, and one
acknowledgement ends two calls. -/
theorem not_doneCalls_right :
    ¬ (∀ d ∈ (lateCompletion.foldl step (start .ack)).doneCalls, d.sentAt < d.doneAt) ∧
      ¬ (foundTwice.foldl step (start .ack)).doneCalls.Pairwise
        (fun d d' => d.acks.Disjoint d'.acks) := by
  have hlate : (lateCompletion.foldl step (start .ack)).doneCalls = [⟨1, 1, [0]⟩] := by
    decide +kernel
  have htwice : (foundTwice.foldl step (start .ack)).doneCalls = [⟨0, 1, [0]⟩, ⟨1, 2, [0]⟩] := by
    decide +kernel
  rw [hlate, htwice]
  simp

end IpiChannel

end Mt8169.Mbox
