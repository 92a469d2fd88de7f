import Mathlib.Data.List.Count
import Ricerca.User.Notifications

/-! Exact delivery of notifications. A channel with pending notifications is known
to exactly one party that will hand one of them out: the message queue, or a woken
receiver. The counter of pending notifications is what a channel is owed modulo 2^64, so
this holds while it has not wrapped around. -/
namespace Ricerca.Notifications

open Ricerca.Foundation

/-- How often a channel stands in the message queue of its slot. -/
def State.queuedTimes (s : State) (ch : UserRaiserChannel) : Nat :=
  (s.mailbox.msgQueue ch.index).count ch

/-- How many woken receivers were handed the channel and have not taken it yet. -/
def State.handedTimes (s : State) (ch : UserRaiserChannel) : Nat :=
  (s.woken.map Prod.snd).count ch

def State.tokens (s : State) (ch : UserRaiserChannel) : Nat := s.queuedTimes ch + s.handedTimes ch

/-- Queues only hold what belongs to their slot, and so do the receivers that
were woken from them. -/
structure Sorted (s : State) : Prop where
  msg : ∀ i, ∀ ch ∈ s.mailbox.msgQueue i, ch.index = i
  task : ∀ i, ∀ node ∈ s.mailbox.taskQueue i, slot s.mailbox.isPerCpu node.id = i
  woken : ∀ p ∈ s.woken, p.2.index = slot s.mailbox.isPerCpu p.1.id

/-- A channel has one token while something is pending on it, and none otherwise. -/
def Exact (s : State) : Prop := ∀ ch, s.tokens ch = if s.pending ch = 0 then 0 else 1

/-- The tokens of a channel that is owed so many notifications: it gets one whenever the counter
goes from 0 to 1. -/
@[irreducible] def tokensFor (owed : Nat) : Nat := (owed + (2 ^ 64 - 1)) / 2 ^ 64

/-- Counters and tokens are those of what the channels are owed. -/
def Owes (s : State) (owed : UserRaiserChannel → Nat) : Prop :=
  ∀ ch, s.pending ch = UInt64.ofNat (owed ch) ∧ s.tokens ch = tokensFor (owed ch)

section Counter

variable {n : Nat}

theorem ofNat_succ (n : Nat) : UInt64.ofNat (n + 1) = UInt64.ofNat n + 1 := UInt64.ofNat_add n 1

theorem ofNat_pred (hPos : 0 < n) : UInt64.ofNat n - 1 = UInt64.ofNat (n - 1) := by
  obtain ⟨k, rfl⟩ := Nat.exists_eq_add_of_lt hPos
  rw [Nat.zero_add, ofNat_succ, Nat.add_sub_cancel]
  exact UInt64.add_sub_cancel ..

theorem ofNat_eq_zero_iff : UInt64.ofNat n = 0 ↔ n % 2 ^ 64 = 0 := by
  rw [← UInt64.toNat_inj, UInt64.toNat_ofNat']
  rfl

/-- The counter is 1 after a send exactly if it was 0. -/
theorem add_one_eq_one_iff {pending : UInt64} : pending + 1 = 1 ↔ pending = 0 := by
  constructor
  · intro h
    have hBack := congrArg (· - 1) h
    simpa using hBack
  · rintro rfl
    rfl

/-- A send adds a token if the counter was 0. -/
theorem tokensFor_succ (n : Nat) :
    tokensFor (n + 1) = tokensFor n + if UInt64.ofNat n + 1 = 1 then 1 else 0 := by
  rw [if_congr (add_one_eq_one_iff.trans ofNat_eq_zero_iff) rfl rfl]
  simp only [tokensFor]
  split_ifs <;> omega

/-- A receive takes a token, and adds one if the counter is not 0 afterwards. -/
theorem tokensFor_pred (hPos : 0 < n) :
    tokensFor (n - 1) + 1 = tokensFor n + if UInt64.ofNat n - 1 ≠ 0 then 1 else 0 := by
  rw [if_congr (not_congr (ofNat_pred hPos ▸ ofNat_eq_zero_iff)) rfl rfl]
  simp only [tokensFor]
  split_ifs <;> omega

theorem tokensFor_zero : tokensFor 0 = 0 := by
  rw [tokensFor, Nat.div_eq_of_lt (by omega)]

theorem pos_of_tokensFor (hTokens : 0 < tokensFor n) : 0 < n := by
  simp only [tokensFor] at hTokens
  omega

/-- What is owed is pending as long as it is below 2^64. -/
theorem Owes.exact {s : State} {owed : UserRaiserChannel → Nat} (h : Owes s owed)
    (hFew : ∀ ch, owed ch < 2 ^ 64) : Exact s := by
  intro ch
  have hLt := hFew ch
  rw [(h ch).2, (h ch).1, if_congr ofNat_eq_zero_iff rfl rfl, Nat.mod_eq_of_lt hLt]
  simp only [tokensFor]
  split_ifs <;> omega

theorem Owes.toNat_pending {s : State} {owed : UserRaiserChannel → Nat} (h : Owes s owed)
    {ch : UserRaiserChannel} (hFew : owed ch < 2 ^ 64) : (s.pending ch).toNat = owed ch := by
  rw [(h ch).1, UInt64.toNat_ofNat', Nat.mod_eq_of_lt hFew]

end Counter

/-- `tokens` and `Sorted` only look at the queues and the woken receivers. -/
theorem Sorted.congr {s s' : State} (h : Sorted s) (hMailbox : s'.mailbox = s.mailbox)
    (hWoken : s'.woken = s.woken) : Sorted s' := by
  refine ⟨?_, ?_, ?_⟩ <;> simp only [hMailbox, hWoken]
  · exact h.msg
  · exact h.task
  · exact h.woken

theorem tokens_congr {s s' : State} (hMsg : s'.mailbox.msgQueue = s.mailbox.msgQueue)
    (hWoken : s'.woken = s.woken) (ch : UserRaiserChannel) : s'.tokens ch = s.tokens ch := by
  simp only [State.tokens, State.queuedTimes, State.handedTimes, hMsg, hWoken]

section Queues

variable {α : Type} {queue rest : Nat → List α} {node : α} {isPerCpu : Bool} {id : Nat}

theorem userLocalGlobalDequeue_some
    (h : userLocalGlobalDequeue queue isPerCpu id = some (node, rest)) :
    queue (slot isPerCpu id) = node :: rest (slot isPerCpu id) ∧
    ∀ i, i ≠ slot isPerCpu id → rest i = queue i := by
  simp only [userLocalGlobalDequeue] at h
  split at h
  · cases h
  · rename_i head tail hQueue
    simp only [Option.some.injEq, Prod.mk.injEq] at h
    obtain ⟨rfl, rfl⟩ := h
    refine ⟨by simpa using hQueue, fun i hi => ?_⟩
    simp [hi]

theorem userLocalGlobalEnqueue_apply (i : Nat) :
    userLocalGlobalEnqueue queue node isPerCpu id i =
      if i = slot isPerCpu id then queue i ++ [node] else queue i := by
  by_cases hEq : i = slot isPerCpu id
  · subst hEq
    simp [userLocalGlobalEnqueue]
  · simp [userLocalGlobalEnqueue, hEq]

/-- What is left of a queue was in it before. -/
theorem mem_of_mem_rest (h : userLocalGlobalDequeue queue isPerCpu id = some (node, rest)) {i : Nat}
    {x : α} (hx : x ∈ rest i) : x ∈ queue i := by
  obtain ⟨hHead, hElse⟩ := userLocalGlobalDequeue_some h
  by_cases hEq : i = slot isPerCpu id
  · subst hEq
    rw [hHead]
    exact List.mem_cons_of_mem _ hx
  · rwa [← hElse i hEq]

end Queues

section Taking

variable {s : State} {ch : UserRaiserChannel}

/-- The first channel of a queue loses the token that is there. -/
theorem tokens_dequeued {id : Nat} {rest : Nat → List UserRaiserChannel}
    (hIndex : ch.index = slot s.mailbox.isPerCpu id)
    (hQueue : userLocalGlobalDequeue s.mailbox.msgQueue s.mailbox.isPerCpu id = some (ch, rest))
    (other : UserRaiserChannel) :
    s.tokens other =
      { s with mailbox.msgQueue := rest }.tokens other + if other = ch then 1 else 0 := by
  obtain ⟨hHead, hElse⟩ := userLocalGlobalDequeue_some hQueue
  simp only [State.tokens, State.queuedTimes, State.handedTimes]
  by_cases hSlot : other.index = slot s.mailbox.isPerCpu id
  · rw [hSlot, hHead, List.count_cons]
    by_cases hEq : other = ch
    · subst hEq
      simp
      omega
    · have hNe : ch ≠ other := Ne.symm hEq
      simp [hEq, hNe]
  · have hNe : other ≠ ch := fun hEq => hSlot (hEq ▸ hIndex)
    rw [hElse _ hSlot, if_neg hNe, Nat.add_zero]

/-- A woken receiver takes the token that it was handed. -/
theorem tokens_erased {node : UserWaitQueueNode} (hWoken : (node, ch) ∈ s.woken)
    (receivers : List Nat) (other : UserRaiserChannel) :
    s.tokens other =
      { s with woken := s.woken.erase (node, ch), receivers := receivers }.tokens other +
        if other = ch then 1 else 0 := by
  have hPerm := ((List.perm_cons_erase hWoken).map Prod.snd).count_eq other
  simp only [State.tokens, State.queuedTimes, State.handedTimes]
  rw [hPerm, List.map_cons, List.count_cons]
  by_cases hEq : other = ch
  · subst hEq
    simp
    omega
  · have hNe : ch ≠ other := Ne.symm hEq
    simp [hEq, hNe]

end Taking

section Enqueue

variable {s : State} {raiser id : Nat}

/-- Enqueueing passes one token of the channel on, to a receiver of the same slot
or to the message queue. -/
theorem userRaiserEnqueueNolock_tokens (ch : UserRaiserChannel) :
    (userRaiserEnqueueNolock s raiser id).tokens ch =
      s.tokens ch + if ch = s.channel raiser id then 1 else 0 := by
  simp only [userRaiserEnqueueNolock]
  split
  · by_cases hEq : ch = s.channel raiser id
    · subst hEq
      simp [State.tokens, State.queuedTimes, State.handedTimes, State.borrowRef, State.channel]
      omega
    · simp [State.tokens, State.queuedTimes, State.handedTimes, State.borrowRef, State.channel] at *
      simp [Ne.symm hEq, hEq]
  · simp only [State.tokens, State.queuedTimes, State.handedTimes, State.borrowRef,
      userLocalGlobalEnqueue_apply, State.woken_setRefcount, State.mailbox_setRefcount]
    by_cases hEq : ch = s.channel raiser id
    · subst hEq
      simp [State.channel]
      omega
    · have hNe : s.channel raiser id ≠ ch := Ne.symm hEq
      split_ifs
      · simp [List.count_append, State.channel] at *
        simp [hNe]
      · rfl

@[simp]
theorem userRaiserEnqueueNolock_pending (ch : UserRaiserChannel) :
    (userRaiserEnqueueNolock s raiser id).pending ch = s.pending ch := by
  simp only [userRaiserEnqueueNolock]
  split <;> exact State.pending_setRefcount ..

/-- Enqueueing changes nothing but queues, woken receivers and a reference count. -/
theorem userRaiserEnqueueNolock_frame (s : State) (raiser id : Nat) :
    let s' := userRaiserEnqueueNolock s raiser id
    s'.mailbox.isPerCpu = s.mailbox.isPerCpu ∧ s'.mailbox.isShutDown = s.mailbox.isShutDown ∧
    s'.raisersCount = s.raisersCount ∧ s'.held = s.held ∧
    ∀ r, (s'.raisers r).notification = (s.raisers r).notification := by
  simp only [userRaiserEnqueueNolock]
  split <;> exact ⟨rfl, rfl, rfl, rfl, State.notification_setRefcount s raiser _⟩

theorem Sorted.enqueue (h : Sorted s) : Sorted (userRaiserEnqueueNolock s raiser id) := by
  simp only [userRaiserEnqueueNolock]
  split
  · rename_i node rest hQueue
    obtain ⟨hHead, -⟩ := userLocalGlobalDequeue_some hQueue
    refine ⟨h.msg, fun i node' hNode => h.task i node' (mem_of_mem_rest hQueue hNode), ?_⟩
    intro p hp
    rcases List.mem_append.mp hp with hp | hp
    · exact h.woken p hp
    · rw [List.mem_singleton.mp hp]
      have hNode : node ∈ (s.borrowRef raiser).mailbox.taskQueue
          (slot (s.borrowRef raiser).mailbox.isPerCpu id) := by
        rw [hHead]
        exact List.mem_cons_self ..
      exact (h.task _ node hNode).symm
  · refine ⟨fun i ch hMem => ?_, h.task, h.woken⟩
    simp only [userLocalGlobalEnqueue_apply] at hMem
    split_ifs at hMem with hSlot
    · rcases List.mem_append.mp hMem with hMem | hMem
      · exact h.msg i ch hMem
      · rw [List.mem_singleton.mp hMem, hSlot]
        rfl
    · exact h.msg i ch hMem

end Enqueue

section Refcounts

variable (s : State) (raiser id other : Nat) (ch : UserRaiserChannel)

@[simp]
theorem refcount_setPending (n : UInt64) :
    ((s.setPending ch n).raisers other).refcount = (s.raisers other).refcount := by
  by_cases hEq : other = ch.owner
  · subst hEq
    simp [State.setPending]
  · simp [State.setPending, hEq]

theorem refcount_setRefcount (n : Nat) :
    ((s.setRefcount raiser n).raisers other).refcount =
      if other = raiser then n else (s.raisers other).refcount := by
  by_cases hEq : other = raiser
  · subst hEq
    simp [State.setRefcount]
  · simp [State.setRefcount, hEq]

theorem refcount_enqueue :
    ((userRaiserEnqueueNolock s raiser id).raisers other).refcount =
      (s.raisers other).refcount + if other = raiser then 1 else 0 := by
  have hBorrow : ((s.borrowRef raiser).raisers other).refcount =
      (s.raisers other).refcount + if other = raiser then 1 else 0 := by
    rw [State.borrowRef, refcount_setRefcount]
    split_ifs with hEq
    · rw [hEq]
    · rfl
  simp only [userRaiserEnqueueNolock]
  split <;> exact hBorrow

end Refcounts

theorem userSendNotificationToCore_pending {s : State} (hOpen : s.mailbox.isShutDown = false)
    (raiser id : Nat) (ch : UserRaiserChannel) :
    (userSendNotificationToCore s raiser id).pending ch =
      if ch = s.channel raiser id then s.pending ch + 1 else s.pending ch := by
  have hSet := State.pending_setPending s (s.channel raiser id) ch
    (s.pending (s.channel raiser id) + 1)
  have hSame : (if ch = s.channel raiser id then s.pending (s.channel raiser id) + 1
      else s.pending ch) = if ch = s.channel raiser id then s.pending ch + 1 else s.pending ch := by
    split_ifs with hEq
    · rw [hEq]
    · rfl
  rw [userSendNotificationToCore, if_neg (by simp [hOpen]), ← hSame, ← hSet]
  dsimp only
  split_ifs
  · exact userRaiserEnqueueNolock_pending ch
  · rfl

/-- A send passes a token on if the counter was 0. -/
theorem userSendNotificationToCore_tokens {s : State} (hOpen : s.mailbox.isShutDown = false)
    (raiser id : Nat) (ch : UserRaiserChannel) :
    (userSendNotificationToCore s raiser id).tokens ch =
      s.tokens ch + if ch = s.channel raiser id ∧ s.pending ch + 1 = 1 then 1 else 0 := by
  have hTokens : ∀ n, (s.setPending (s.channel raiser id) n).tokens ch = s.tokens ch :=
    fun n => tokens_congr rfl rfl ch
  simp only [userSendNotificationToCore, hOpen, Bool.false_eq_true, if_false,
    State.pending_setPending, if_true]
  split_ifs with hFirst hBoth hBoth
  · rw [userRaiserEnqueueNolock_tokens, hTokens]
    exact congrArg (s.tokens ch + ·) (if_pos hBoth.1)
  · rw [userRaiserEnqueueNolock_tokens, hTokens]
    exact congrArg (s.tokens ch + ·) (if_neg fun hEq => hBoth ⟨hEq, by rw [hEq]; exact hFirst⟩)
  · exact absurd (hBoth.1 ▸ hBoth.2) hFirst
  · exact hTokens _

/-- A send makes one more notification owed. -/
theorem Owes.send {s : State} {owed : UserRaiserChannel → Nat} (h : Owes s owed)
    (hOpen : s.mailbox.isShutDown = false) (raiser id : Nat) :
    Owes (userSendNotificationToCore s raiser id) fun ch =>
      owed ch + if ch = s.channel raiser id then 1 else 0 := by
  intro ch
  obtain ⟨hPending, hTokens⟩ := h ch
  rw [userSendNotificationToCore_pending hOpen, userSendNotificationToCore_tokens hOpen, hPending,
    hTokens]
  dsimp only
  by_cases hEq : ch = s.channel raiser id
  · rw [if_pos hEq, if_pos hEq, tokensFor_succ]
    exact ⟨(ofNat_succ _).symm, congrArg _ (if_congr (and_iff_right hEq) rfl rfl)⟩
  · rw [if_neg hEq, if_neg hEq, if_neg fun hBoth => hEq hBoth.1, Nat.add_zero, Nat.add_zero]
    exact ⟨rfl, rfl⟩

/-- A reference is borrowed when the counter was 0. -/
theorem userSendNotificationToCore_refcount {s : State} (hOpen : s.mailbox.isShutDown = false)
    (raiser id : Nat) :
    ((userSendNotificationToCore s raiser id).raisers raiser).refcount =
      (s.raisers raiser).refcount +
        if s.pending (s.channel raiser id) + 1 = 1 then 1 else 0 := by
  simp only [userSendNotificationToCore, hOpen, Bool.false_eq_true, if_false,
    State.pending_setPending, if_true]
  split_ifs
  · rw [refcount_enqueue, refcount_setPending, if_pos rfl]
  · exact refcount_setPending ..

theorem userSendNotificationToCore_isShutDown (s : State) (raiser id : Nat) :
    (userSendNotificationToCore s raiser id).mailbox.isShutDown = s.mailbox.isShutDown := by
  simp only [userSendNotificationToCore]
  split_ifs
  · rfl
  · exact (userRaiserEnqueueNolock_frame _ raiser id).2.1
  · rfl

theorem userSendNotificationToCore_frame {s : State} (hSorted : Sorted s) (raiser id : Nat) :
    let s' := userSendNotificationToCore s raiser id
    s'.mailbox.isPerCpu = s.mailbox.isPerCpu ∧ Sorted s' ∧ s'.raisersCount = s.raisersCount ∧
    s'.held = s.held ∧ ∀ r, (s'.raisers r).notification = (s.raisers r).notification := by
  have hSet : ∀ n, Sorted (s.setPending (s.channel raiser id) n) := fun n => hSorted.congr rfl rfl
  simp only [userSendNotificationToCore]
  split_ifs
  · exact ⟨rfl, hSorted, rfl, rfl, fun _ => rfl⟩
  · obtain ⟨hMode, -, hCount, hHeld, hNotes⟩ := userRaiserEnqueueNolock_frame
      (s.setPending (s.channel raiser id) (s.pending (s.channel raiser id) + 1)) raiser id
    refine ⟨hMode, (hSet _).enqueue, hCount, hHeld, fun r => (hNotes r).trans ?_⟩
    exact State.notification_setPending ..
  · exact ⟨rfl, hSet _, rfl, rfl, State.notification_setPending s _ _⟩

section Take

variable {s : State} {ch : UserRaiserChannel} {id : Nat}

theorem takeNotification_pending (other : UserRaiserChannel) :
    (takeNotification s ch id).2.pending other =
      if other = ch then s.pending ch - 1 else s.pending other := by
  rw [← State.pending_setPending s ch other (s.pending ch - 1)]
  simp only [takeNotification]
  split_ifs
  · exact userRaiserEnqueueNolock_pending other
  · rfl

/-- The token goes back to its channel if more notifications are pending there. -/
theorem takeNotification_tokens (hIndex : ch.index = slot s.mailbox.isPerCpu id)
    (other : UserRaiserChannel) :
    (takeNotification s ch id).2.tokens other =
      s.tokens other + if other = ch ∧ s.pending ch - 1 ≠ 0 then 1 else 0 := by
  have hSelf : (s.setPending ch (s.pending ch - 1)).channel ch.owner id = ch := by
    simp only [State.channel, State.mailbox_setPending, ← hIndex]
  have hTokens : (s.setPending ch (s.pending ch - 1)).tokens other = s.tokens other :=
    tokens_congr rfl rfl other
  simp only [takeNotification, State.pending_setPending, if_true]
  by_cases hMore : s.pending ch - 1 ≠ 0
  · rw [if_pos hMore, ← hTokens]
    refine (userRaiserEnqueueNolock_tokens other).trans ?_
    simp only [hSelf, hMore, ne_eq, not_false_eq_true, and_true]
  · rw [if_neg hMore, ← hTokens]
    simp only [hMore, and_false, if_false, Nat.add_zero]
    rfl

/-- A receiver that has taken a token of a channel off its place hands out one
notification. -/
theorem Owes.take {owed : UserRaiserChannel → Nat}
    (hIndex : ch.index = slot s.mailbox.isPerCpu id)
    (hPending : ∀ other, s.pending other = UInt64.ofNat (owed other))
    (hTokens : ∀ other, tokensFor (owed other) = s.tokens other + if other = ch then 1 else 0) :
    Owes (takeNotification s ch id).2 fun other =>
      if other = ch then owed ch - 1 else owed other := by
  intro other
  rw [takeNotification_tokens hIndex, takeNotification_pending]
  have hOther := hTokens other
  by_cases hEq : other = ch
  · subst hEq
    simp only [if_true, true_and] at hOther ⊢
    have hPos : 0 < owed other := pos_of_tokensFor (by omega)
    have hLess := tokensFor_pred hPos
    rw [hPending]
    exact ⟨ofNat_pred hPos, by omega⟩
  · simp only [hEq, if_false, false_and, Nat.add_zero] at hOther ⊢
    exact ⟨hPending other, hOther.symm⟩

theorem takeNotification_frame (s : State) (ch : UserRaiserChannel) (id : Nat) :
    (takeNotification s ch id).1 = (s.raisers ch.owner).notification ∧
    (takeNotification s ch id).2.mailbox.isPerCpu = s.mailbox.isPerCpu ∧
    (takeNotification s ch id).2.mailbox.isShutDown = s.mailbox.isShutDown ∧
    (takeNotification s ch id).2.raisersCount = s.raisersCount ∧
    (takeNotification s ch id).2.held =
      Function.update s.held ch.owner (s.held ch.owner + 1) ∧
    ∀ r, ((takeNotification s ch id).2.raisers r).notification = (s.raisers r).notification := by
  simp only [takeNotification]
  split_ifs
  · obtain ⟨hMode, hOpen, hCount, -, hNotes⟩ :=
      userRaiserEnqueueNolock_frame (s.setPending ch (s.pending ch - 1)) ch.owner id
    refine ⟨trivial, hMode, hOpen, hCount, trivial, fun r => (hNotes r).trans ?_⟩
    exact State.notification_setPending ..
  · exact ⟨trivial, rfl, rfl, rfl, trivial, State.notification_setPending s ch _⟩

theorem Sorted.take (h : Sorted s) : Sorted (takeNotification s ch id).2 := by
  have hSet : Sorted (s.setPending ch (s.pending ch - 1)) := h.congr rfl rfl
  simp only [takeNotification]
  split_ifs
  · exact (hSet.enqueue).congr rfl rfl
  · exact hSet.congr rfl rfl

end Take

/-- The event is a send to this channel. -/
def Event.isSendTo (isPerCpu : Bool) (ch : UserRaiserChannel) : Event → Bool
  | .send raiser id => (⟨raiser, slot isPerCpu id⟩ : UserRaiserChannel) = ch
  | _ => false

/-- The event is a completed receive, by a receiver of this channel's slot, that
returned the notification of this channel's raiser. -/
def Event.isRecieveOf (isPerCpu : Bool) (ch : UserRaiserChannel) : Event → Bool
  | .recieve _ id raiser _ => (⟨raiser, slot isPerCpu id⟩ : UserRaiserChannel) = ch
  | _ => false

/-- What a channel is owed: it was sent, and not received yet. -/
def owed (isPerCpu : Bool) (trace : List Event) (ch : UserRaiserChannel) : Nat :=
  trace.countP (Event.isSendTo isPerCpu ch) - trace.countP (Event.isRecieveOf isPerCpu ch)

/-- The invariant of an open mailbox, over everything that has happened to it. -/
structure Delivery (isPerCpu : Bool) (trace : List Event) (s : State) : Prop where
  mode : s.mailbox.isPerCpu = isPerCpu
  sorted : Sorted s
  owes : Owes s (owed isPerCpu trace)
  balance : ∀ ch, trace.countP (Event.isRecieveOf isPerCpu ch) ≤
    trace.countP (Event.isSendTo isPerCpu ch)
  unused : ∀ raiser, s.raisersCount ≤ raiser →
    s.held raiser = 0 ∧ ∀ i, owed isPerCpu trace ⟨raiser, i⟩ = 0
  notes : ∀ task id raiser notification, Event.recieve task id raiser notification ∈ trace →
    raiser < s.raisersCount ∧ notification = (s.raisers raiser).notification

theorem owed_append (isPerCpu : Bool) (trace : List Event) (event : Event) (ch : UserRaiserChannel) :
    owed isPerCpu (trace ++ [event]) ch =
      trace.countP (Event.isSendTo isPerCpu ch) + (if event.isSendTo isPerCpu ch then 1 else 0) -
        (trace.countP (Event.isRecieveOf isPerCpu ch) +
          if event.isRecieveOf isPerCpu ch then 1 else 0) := by
  rw [owed, List.countP_append, List.countP_append, List.countP_singleton, List.countP_singleton]

namespace Delivery

variable {isPerCpu : Bool} {trace : List Event} {s s' : State}

/-- An event that is neither a send nor a receive leaves the books as they are. -/
theorem frame {event : Event} (h : Delivery isPerCpu trace s)
    (hSend : ∀ ch, event.isSendTo isPerCpu ch = false)
    (hRecieve : ∀ ch, event.isRecieveOf isPerCpu ch = false)
    (hNotRecieve : ∀ task id raiser notification, event ≠ .recieve task id raiser notification)
    (hMode : s'.mailbox.isPerCpu = s.mailbox.isPerCpu) (hSorted : Sorted s')
    (hTokens : ∀ ch, s'.tokens ch = s.tokens ch) (hPending : ∀ ch, s'.pending ch = s.pending ch)
    (hCount : s.raisersCount ≤ s'.raisersCount)
    (hHeld : ∀ r, s'.raisersCount ≤ r → s'.held r = s.held r)
    (hNotes : ∀ r < s.raisersCount, (s'.raisers r).notification = (s.raisers r).notification) :
    Delivery isPerCpu (trace ++ [event]) s' := by
  have hOwed : owed isPerCpu (trace ++ [event]) = owed isPerCpu trace := by
    funext ch
    rw [owed_append, hSend, hRecieve]
    rfl
  refine ⟨hMode.trans h.mode, hSorted, ?_, ?_, ?_, ?_⟩
  · intro ch
    rw [hTokens, hPending, hOwed]
    exact h.owes ch
  · intro ch
    have hOld := h.balance ch
    simp only [List.countP_append, List.countP_cons, List.countP_nil, hSend, hRecieve]
    simpa using hOld
  · intro raiser hLe
    rw [hOwed]
    obtain ⟨hNone, hZero⟩ := h.unused raiser (Nat.le_trans hCount hLe)
    exact ⟨(hHeld raiser hLe).trans hNone, hZero⟩
  · intro task id raiser notification hMem
    rcases List.mem_append.mp hMem with hMem | hMem
    · obtain ⟨hLt, hNote⟩ := h.notes task id raiser notification hMem
      exact ⟨Nat.lt_of_lt_of_le hLt hCount, hNote.trans (hNotes raiser hLt).symm⟩
    · exact absurd (List.mem_singleton.mp hMem).symm (hNotRecieve task id raiser notification)

theorem send (h : Delivery isPerCpu trace s) (hOpen : s.mailbox.isShutDown = false)
    {raiser id : Nat} (hRef : 0 < s.held raiser) :
    Delivery isPerCpu (trace ++ [.send raiser id]) (userSendNotificationToCore s raiser id) := by
  have hKnown : raiser < s.raisersCount := by
    by_contra hNot
    have hNone := (h.unused raiser (by omega)).1
    omega
  have hChannel : s.channel raiser id = ⟨raiser, slot isPerCpu id⟩ := by
    rw [State.channel, h.mode]
  have hOwed : owed isPerCpu (trace ++ [.send raiser id]) = fun ch =>
      owed isPerCpu trace ch + if ch = s.channel raiser id then 1 else 0 := by
    funext ch
    have hBalance := h.balance ch
    simp only [owed, List.countP_append, List.countP_singleton, Event.isSendTo, Event.isRecieveOf,
      Bool.false_eq_true, if_false, decide_eq_true_eq, hChannel, eq_comm (a := ch)]
    omega
  obtain ⟨hMode, hSorted, hCount, hHeld, hNotes⟩ := userSendNotificationToCore_frame h.sorted raiser id
  refine ⟨hMode.trans h.mode, hSorted, ?_, ?_, ?_, ?_⟩
  · rw [hOwed]
    exact h.owes.send hOpen raiser id
  · intro ch
    have hOld := h.balance ch
    simp only [List.countP_append, List.countP_singleton, Event.isRecieveOf]
    exact Nat.le_add_right_of_le hOld
  · intro r hLe
    rw [hCount] at hLe
    obtain ⟨hNone, hZero⟩ := h.unused r hLe
    refine ⟨hHeld ▸ hNone, fun i => ?_⟩
    have hNe : (⟨r, i⟩ : UserRaiserChannel) ≠ s.channel raiser id := by
      intro hEq
      have hOwner : r = raiser := congrArg UserRaiserChannel.owner hEq
      omega
    rw [hOwed]
    simp only [hZero, if_neg hNe]
  · intro task id' r notification hMem
    rw [hCount, hNotes]
    refine h.notes task id' r notification ?_
    simpa using hMem

/-- A completed receive, after the receiver took the channel off a queue or out of
its wait node. -/
theorem recieve {taken : State} {ch : UserRaiserChannel} {id : Nat}
    (h : Delivery isPerCpu trace s) (task : Nat) (hSorted : Sorted taken)
    (hMode : taken.mailbox.isPerCpu = s.mailbox.isPerCpu)
    (hIndex : ch.index = slot s.mailbox.isPerCpu id)
    (hToken : ∀ other, s.tokens other = taken.tokens other + if other = ch then 1 else 0)
    (hRaisers : taken.raisers = s.raisers) (hCount : taken.raisersCount = s.raisersCount)
    (hHeld : taken.held = s.held) :
    Delivery isPerCpu
      (trace ++ [.recieve task id ch.owner (takeNotification taken ch id).1])
      (takeNotification taken ch id).2 := by
  have hSame : ∀ other, taken.pending other = s.pending other := by
    intro other
    simp only [State.pending, hRaisers]
  have hOwes : ∀ other, taken.pending other = UInt64.ofNat (owed isPerCpu trace other) :=
    fun other => (hSame other).trans (h.owes other).1
  have hTokens : ∀ other, tokensFor (owed isPerCpu trace other) =
      taken.tokens other + if other = ch then 1 else 0 :=
    fun other => (h.owes other).2.symm.trans (hToken other)
  have hPos : 0 < owed isPerCpu trace ch := by
    have hOne := hTokens ch
    rw [if_pos rfl] at hOne
    exact pos_of_tokensFor (by omega)
  have hKnown : ch.owner < s.raisersCount := by
    by_contra hNot
    exact absurd hPos (by simp [(h.unused ch.owner (by omega)).2 ch.index])
  obtain ⟨hNote, hModeAfter, -, hCountAfter, hHeldAfter, hNotesAfter⟩ :=
    takeNotification_frame taken ch id
  have hChannel : (⟨ch.owner, slot isPerCpu id⟩ : UserRaiserChannel) = ch := by
    rw [← h.mode, ← hIndex]
  have hOwed : owed isPerCpu
      (trace ++ [.recieve task id ch.owner (takeNotification taken ch id).1]) = fun other =>
      if other = ch then owed isPerCpu trace ch - 1 else owed isPerCpu trace other := by
    funext other
    simp only [owed_append, Event.isSendTo, Event.isRecieveOf, hChannel, decide_eq_true_eq,
      Bool.false_eq_true, if_false, Nat.add_zero, eq_comm (a := ch)]
    split_ifs with hEq
    · rw [hEq, owed]
      omega
    · rfl
  refine ⟨(hModeAfter.trans hMode).trans h.mode, hSorted.take, ?_, ?_, ?_, ?_⟩
  · rw [hOwed]
    exact Owes.take (hMode ▸ hIndex) hOwes hTokens
  · intro other
    have hOld := h.balance other
    simp only [List.countP_append, List.countP_singleton, Event.isSendTo, Event.isRecieveOf,
      hChannel, decide_eq_true_eq, Bool.false_eq_true, if_false, Nat.add_zero]
    split_ifs with hEq
    · subst hEq
      rw [owed] at hPos
      omega
    · exact hOld
  · intro r hLe
    rw [hCountAfter, hCount] at hLe
    obtain ⟨hNone, hZero⟩ := h.unused r hLe
    have hOther : r ≠ ch.owner := by omega
    refine ⟨?_, fun i => ?_⟩
    · rw [hHeldAfter, Function.update_of_ne hOther, hHeld]
      exact hNone
    · have hNe : (⟨r, i⟩ : UserRaiserChannel) ≠ ch := fun hEq =>
        hOther (congrArg UserRaiserChannel.owner hEq)
      rw [hOwed]
      simp only [if_neg hNe, hZero]
  · intro task' id' r notification hMem
    rw [hCountAfter, hCount, hNotesAfter, hRaisers]
    rcases List.mem_append.mp hMem with hMem | hMem
    · exact h.notes task' id' r notification hMem
    · obtain ⟨-, -, rfl, rfl⟩ := Event.recieve.inj (List.mem_singleton.mp hMem)
      exact ⟨hKnown, by rw [hNote, hRaisers]⟩

theorem sleep (h : Delivery isPerCpu trace s) (task id : Nat) :
    Delivery isPerCpu (trace ++ [.sleep task id])
      { s with
        mailbox.taskQueue :=
          userLocalGlobalEnqueue s.mailbox.taskQueue ⟨task, id⟩ s.mailbox.isPerCpu id
        receivers := task :: s.receivers } := by
  refine h.frame (fun _ => rfl) (fun _ => rfl) (by simp) rfl ⟨h.sorted.msg, ?_, h.sorted.woken⟩
    (fun _ => rfl) (fun _ => rfl) (Nat.le_refl _) (fun _ _ => rfl) (fun _ _ => rfl)
  intro i node hMem
  simp only [userLocalGlobalEnqueue_apply] at hMem
  split_ifs at hMem with hSlot
  · rcases List.mem_append.mp hMem with hMem | hMem
    · exact h.sorted.task i node hMem
    · rw [List.mem_singleton.mp hMem, hSlot]
  · exact h.sorted.task i node hMem

theorem createRaiser (h : Delivery isPerCpu trace s) (notification : UserNotification) :
    Delivery isPerCpu (trace ++ [.createRaiser s.raisersCount notification])
      { s with
        mailbox.deallocRefcount := s.mailbox.deallocRefcount + 1
        raisers := Function.update s.raisers s.raisersCount ⟨1, notification, fun _ => 0⟩
        raisersCount := s.raisersCount + 1
        held := Function.update s.held s.raisersCount 1 } := by
  have hSorted : Sorted
      { s with
        mailbox.deallocRefcount := s.mailbox.deallocRefcount + 1
        raisers := Function.update s.raisers s.raisersCount ⟨1, notification, fun _ => 0⟩
        raisersCount := s.raisersCount + 1
        held := Function.update s.held s.raisersCount 1 } :=
    ⟨h.sorted.msg, h.sorted.task, h.sorted.woken⟩
  refine h.frame (fun _ => rfl) (fun _ => rfl) (by simp) rfl hSorted (fun _ => rfl) ?_
    (Nat.le_succ _) ?_ ?_
  · intro ch
    by_cases hNew : ch.owner = s.raisersCount
    · have hZero : s.pending ch = 0 := by
        rw [(h.owes ch).1, (h.unused ch.owner (Nat.le_of_eq hNew.symm)).2 ch.index]
        rfl
      simp only [State.pending] at hZero ⊢
      simp [hNew, ← hZero]
    · simp [State.pending, hNew]
  · intro r hLe
    simp only at hLe
    exact Function.update_of_ne (by omega) _ _
  · intro r hLt
    have hOld : r ≠ s.raisersCount := by omega
    simp [hOld]

theorem borrowRaiser (h : Delivery isPerCpu trace s) {raiser : Nat} (hRef : 0 < s.held raiser) :
    Delivery isPerCpu (trace ++ [.borrowRaiser raiser])
      { s.borrowRef raiser with held := Function.update s.held raiser (s.held raiser + 1) } := by
  refine h.frame (fun _ => rfl) (fun _ => rfl) (by simp) rfl (h.sorted.congr rfl rfl)
    (fun _ => rfl) (State.pending_setRefcount s raiser _) (Nat.le_refl _) ?_
    (fun r _ => State.notification_setRefcount s raiser _ r)
  intro r hLe
  have hNone := (h.unused r hLe).1
  exact Function.update_of_ne (fun hEq => by subst hEq; omega) _ _

theorem dropRef_frame (s : State) (raiser : Nat) :
    (s.dropRef raiser).mailbox.msgQueue = s.mailbox.msgQueue ∧
    (s.dropRef raiser).mailbox.taskQueue = s.mailbox.taskQueue ∧
    (s.dropRef raiser).mailbox.isPerCpu = s.mailbox.isPerCpu ∧
    (s.dropRef raiser).mailbox.isShutDown = s.mailbox.isShutDown ∧
    (s.dropRef raiser).woken = s.woken ∧ (s.dropRef raiser).raisersCount = s.raisersCount ∧
    (∀ ch, (s.dropRef raiser).pending ch = s.pending ch) ∧
    ∀ r, ((s.dropRef raiser).raisers r).notification = (s.raisers r).notification := by
  simp only [State.dropRef]
  split_ifs <;>
    exact ⟨rfl, rfl, rfl, rfl, rfl, rfl, State.pending_setRefcount s raiser _,
      State.notification_setRefcount s raiser _⟩

theorem dropRaiser (h : Delivery isPerCpu trace s) {raiser : Nat} (hRef : 0 < s.held raiser) :
    Delivery isPerCpu (trace ++ [.dropRaiser raiser])
      { s.dropRef raiser with held := Function.update s.held raiser (s.held raiser - 1) } := by
  obtain ⟨hMsg, hTask, hMode, -, hWoken, hCount, hPending, hNotes⟩ := dropRef_frame s raiser
  have hSorted : Sorted
      { s.dropRef raiser with held := Function.update s.held raiser (s.held raiser - 1) } := by
    refine ⟨?_, ?_, ?_⟩ <;> simp only [hMsg, hTask, hMode, hWoken]
    · exact h.sorted.msg
    · exact h.sorted.task
    · exact h.sorted.woken
  refine h.frame (fun _ => rfl) (fun _ => rfl) (by simp) hMode hSorted
    (tokens_congr hMsg hWoken) hPending (Nat.le_of_eq hCount.symm) ?_ (fun r _ => hNotes r)
  intro r hLe
  rw [show _ = _ from hCount] at hLe
  have hNone := (h.unused r hLe).1
  exact Function.update_of_ne (fun hEq => by subst hEq; omega) _ _

theorem step (h : Delivery isPerCpu trace s) (hBefore : s.mailbox.isShutDown = false) {event : Event}
    (hStep : Step s event s') : Delivery isPerCpu (trace ++ [event]) s' := by
  cases hStep with
  | createRaiser notification hRef => exact h.createRaiser notification
  | borrowRaiser hRef => exact h.borrowRaiser hRef
  | dropRaiser hRef => exact h.dropRaiser hRef
  | send raiser id hRef => exact h.send hBefore hRef
  | @recieveQueued task id channel rest hTask hRef hQueue notification s' hTaken =>
      obtain ⟨hHead, -⟩ := userLocalGlobalDequeue_some hQueue
      have hMem : channel ∈ s.mailbox.msgQueue (slot s.mailbox.isPerCpu id) :=
        hHead ▸ List.mem_cons_self ..
      have hIndex := h.sorted.msg _ channel hMem
      have hSorted : Sorted { s with mailbox.msgQueue := rest } :=
        ⟨fun i ch hCh => h.sorted.msg i ch (mem_of_mem_rest hQueue hCh), h.sorted.task, h.sorted.woken⟩
      have hRecieved := h.recieve task hSorted rfl hIndex (tokens_dequeued hIndex hQueue) rfl rfl rfl
      rw [hTaken] at hRecieved
      exact hRecieved
  | recieveSleep task id hTask hRef hQueue => exact h.sleep task id
  | recieveWoken node channel hWoken hTaken =>
      have hIndex := h.sorted.woken _ hWoken
      have hSorted : Sorted
          { s with
            woken := s.woken.erase (node, channel)
            receivers := s.receivers.erase node.task } :=
        ⟨h.sorted.msg, h.sorted.task, fun p hp => h.sorted.woken p (List.mem_of_mem_erase hp)⟩
      have hRecieved := h.recieve node.task hSorted rfl hIndex (tokens_erased hWoken _) rfl rfl rfl
      rw [hTaken] at hRecieved
      exact hRecieved
  | borrowMailbox hRef =>
      exact h.frame (fun _ => rfl) (fun _ => rfl) (by simp) rfl
        ⟨h.sorted.msg, h.sorted.task, h.sorted.woken⟩ (fun _ => rfl) (fun _ => rfl) (Nat.le_refl _)
        (fun _ _ => rfl) (fun _ _ => rfl)
  | dropMailbox hRef =>
      exact h.frame (fun _ => rfl) (fun _ => rfl) (by simp) rfl
        ⟨h.sorted.msg, h.sorted.task, h.sorted.woken⟩ (fun _ => rfl) (fun _ => rfl) (Nat.le_refl _)
        (fun _ _ => rfl) (fun _ _ => rfl)
  | drain hShutDown hQueue => rw [hBefore] at hShutDown; cases hShutDown
  | release hShutDown hDrained hEmpty => rw [hBefore] at hShutDown; cases hShutDown

end Delivery

theorem delivery_init {isPerCpu : Bool} {s : State} (h : (system isPerCpu).init s) :
    Delivery isPerCpu [] s := by
  obtain ⟨hMailbox, hCount, hRaisers, hHeld, -, hWoken, -⟩ := h
  have hPending : ∀ ch, s.pending ch = 0 := fun ch => by simp [State.pending, hRaisers]
  refine ⟨by rw [hMailbox]; rfl, ⟨?_, ?_, ?_⟩, ?_, ?_, ?_, ?_⟩
  · simp [hMailbox, userCreateMailbox]
  · simp [hMailbox, userCreateMailbox]
  · simp [hWoken]
  · intro ch
    have hNone : owed isPerCpu [] ch = 0 := rfl
    rw [hNone, hPending, tokensFor_zero]
    refine ⟨rfl, ?_⟩
    simp [State.tokens, State.queuedTimes, State.handedTimes, hMailbox, hWoken, userCreateMailbox]
  · exact fun ch => Nat.le_refl 0
  · exact fun raiser _ => ⟨hHeld raiser, fun i => rfl⟩
  · simp

theorem isShutDown_take {s s' : State} {ch : UserRaiserChannel} {id : Nat}
    {notification : UserNotification} (h : takeNotification s ch id = (notification, s')) :
    s'.mailbox.isShutDown = s.mailbox.isShutDown := by
  have hSame := (takeNotification_frame s ch id).2.2.1
  rwa [h] at hSame

/-- A mailbox that is shut down stays so. -/
theorem isShutDown_step {s s' : State} {event : Event} (hStep : Step s event s')
    (h : s'.mailbox.isShutDown = false) : s.mailbox.isShutDown = false := by
  cases hStep with
  | createRaiser | borrowRaiser | recieveSleep | borrowMailbox | release => exact h
  | @dropRaiser raiser hRef => rw [← (Delivery.dropRef_frame s raiser).2.2.2.1]; exact h
  | send raiser id hRef =>
      by_contra hShut
      rw [userSendNotificationToCore, if_pos (by simpa using hShut)] at h
      exact hShut h
  | recieveQueued hTask hRef hQueue hTaken => exact isShutDown_take hTaken ▸ h
  | recieveWoken node channel hWoken hTaken => exact isShutDown_take hTaken ▸ h
  | dropMailbox hRef =>
      simp only [Bool.or_eq_false_iff] at h
      exact h.1
  | drain hShutDown hQueue =>
      rw [(Delivery.dropRef_frame _ _).2.2.2.1] at h
      exact h

theorem delivery_run {isPerCpu : Bool} {trace : List Event} {s : State}
    (run : (system isPerCpu).Execution trace s) (hOpen : s.mailbox.isShutDown = false) :
    Delivery isPerCpu trace s := by
  induction run with
  | start h => exact delivery_init h
  | step prior last ih =>
      have hBefore := isShutDown_step last hOpen
      exact (ih hBefore).step hBefore last

/-- In a run without wrap-around less than 2^64 notifications are owed by each channel. -/
theorem owed_lt {isPerCpu : Bool} {trace : List Event} {s : State}
    (run : (bounded isPerCpu).Execution trace s) (hOpen : s.mailbox.isShutDown = false)
    (ch : UserRaiserChannel) : owed isPerCpu trace ch < 2 ^ 64 := by
  induction run with
  | start h => exact Nat.two_pow_pos 64
  | @step trace s s' event prior last ih =>
      have hBefore := isShutDown_step last.2 hOpen
      have hDelivery := delivery_run prior.ofRestrict hBefore
      have hFew := ih hBefore
      rw [owed_append]
      by_cases hSend : event.isSendTo isPerCpu ch = true
      · -- the counter of the channel has room for one more
        have hRoom : owed isPerCpu trace ch + 1 < 2 ^ 64 := by
          rw [← hDelivery.owes.toNat_pending hFew]
          cases event with
          | send raiser id =>
              have hChannel : s.channel raiser id = ch := by
                rw [State.channel, hDelivery.mode]
                simpa [Event.isSendTo] using hSend
              exact hChannel ▸ last.1 hBefore
          | _ => cases hSend
        rw [if_pos hSend]
        rw [owed] at hRoom
        omega
      · rw [if_neg hSend]
        rw [owed] at hFew
        omega

/-- In a run without wrap-around a channel has one token while something is pending on it. -/
theorem exact_run {isPerCpu : Bool} {trace : List Event} {s : State}
    (run : (bounded isPerCpu).Execution trace s) (hOpen : s.mailbox.isShutDown = false) : Exact s :=
  (delivery_run run.ofRestrict hOpen).owes.exact (owed_lt run hOpen)

/-- For every channel of an open mailbox, the sends are the completed receives plus
what is pending, as long as no counter of pending notifications wraps around. A pending
channel stands in the message queue once or is with one woken receiver, and other
channels are in neither. Every receive returned the
notification of the raiser that it is counted for, and on a per-CPU mailbox a core
received from a raiser at most what was sent to that core. -/
theorem mailbox_delivery_exact {isPerCpu : Bool} {trace : List Event} {s : State}
    (run : (bounded isPerCpu).Execution trace s) (hOpen : s.mailbox.isShutDown = false) :
    (∀ raiser id,
      let ch : UserRaiserChannel := ⟨raiser, slot isPerCpu id⟩
      trace.countP (Event.isSendTo isPerCpu ch) =
        trace.countP (Event.isRecieveOf isPerCpu ch) + (s.pending ch).toNat ∧
      (0 < s.pending ch → (s.queuedTimes ch = 1 ∧ s.handedTimes ch = 0) ∨
        (s.queuedTimes ch = 0 ∧ s.handedTimes ch = 1)) ∧
      (s.pending ch = 0 → s.queuedTimes ch = 0 ∧ s.handedTimes ch = 0)) ∧
    (∀ i, ∀ ch ∈ s.mailbox.msgQueue i, ch.index = i) ∧
    (∀ task id raiser notification, Event.recieve task id raiser notification ∈ trace →
      notification = (s.raisers raiser).notification) ∧
    (isPerCpu = true → ∀ raiser core,
      trace.countP (fun e => match e with | .recieve _ id r _ => r = raiser ∧ id = core | _ => false) ≤
      trace.countP (fun e => match e with | .send r id => r = raiser ∧ id = core | _ => false)) := by
  have hDelivery := delivery_run run.ofRestrict hOpen
  refine ⟨fun raiser id => ?_, hDelivery.sorted.msg, ?_, ?_⟩
  · have hTokens := exact_run run hOpen ⟨raiser, slot isPerCpu id⟩
    simp only [State.tokens] at hTokens
    refine ⟨?_, fun hPos => ?_, fun hZero => ?_⟩
    · have hBalance := hDelivery.balance ⟨raiser, slot isPerCpu id⟩
      rw [hDelivery.owes.toNat_pending (owed_lt run hOpen _), owed]
      omega
    · have hNe : s.pending ⟨raiser, slot isPerCpu id⟩ ≠ 0 := by
        rintro hZero
        rw [hZero] at hPos
        exact UInt64.lt_irrefl _ hPos
      rw [if_neg hNe] at hTokens
      omega
    · rw [if_pos hZero] at hTokens
      omega
  · exact fun task id raiser notification hMem => (hDelivery.notes task id raiser notification hMem).2
  · intro hMode raiser core
    subst hMode
    have hBalance := hDelivery.balance ⟨raiser, core⟩
    have hSends : (Event.isSendTo true ⟨raiser, core⟩) = fun e =>
        match e with | .send r id => decide (r = raiser ∧ id = core) | _ => false := by
      funext e
      cases e <;> simp [Event.isSendTo, slot]
    have hRecieves : (Event.isRecieveOf true ⟨raiser, core⟩) = fun e =>
        match e with | .recieve _ id r _ => decide (r = raiser ∧ id = core) | _ => false := by
      funext e
      cases e <;> simp [Event.isRecieveOf, slot]
    rw [hSends, hRecieves] at hBalance
    exact hBalance

/-- A receiver sleeps on core 1 of a per-CPU mailbox and two notifications are sent
there before it runs: it gets the first, and the channel is queued for the second. -/
theorem mailbox_delivery_exact_two_sends :
    ∃ s, (bounded true).Execution
        [.createRaiser 0 ⟨0, 7⟩, .sleep 5 1, .send 0 1, .send 0 1, .recieve 5 1 0 ⟨0, 7⟩] s ∧
      s.mailbox.isShutDown = false ∧ s.pending ⟨0, 1⟩ = 1 ∧
      (s.queuedTimes ⟨0, 1⟩ = 1 ∧ s.handedTimes ⟨0, 1⟩ = 0 ∨
        s.queuedTimes ⟨0, 1⟩ = 0 ∧ s.handedTimes ⟨0, 1⟩ = 1) := by
  let s₀ : State :=
    ⟨userCreateMailbox true, fun _ => ⟨0, ⟨0, 0⟩, fun _ => 0⟩, 0, fun _ => 0, [], [], false⟩
  have start : (bounded true).Execution [] s₀ :=
    .start ⟨rfl, rfl, fun _ => rfl, fun _ => rfl, rfl, rfl, rfl⟩
  have created := bounded_step start (Step.createRaiser ⟨0, 7⟩ (by decide)) trivial
  have asleep := bounded_step created (Step.recieveSleep 5 1 (by decide) (by decide) (by decide))
    trivial
  have first := bounded_step asleep (Step.send 0 1 (by decide)) fun _ => by decide
  have second := bounded_step first (Step.send 0 1 (by decide)) fun _ => by decide
  have run := bounded_step second (Step.recieveWoken ⟨5, 1⟩ ⟨0, 1⟩ (by decide) rfl) trivial
  obtain ⟨hChannel, -⟩ := mailbox_delivery_exact run (by decide)
  exact ⟨_, run, by decide, by decide, (hChannel 0 1).2.1 (by decide)⟩

/-- A raiser sends `n` notifications on a global mailbox, and nobody receives any. -/
def sends (n : Nat) : List Event := .createRaiser 0 ⟨0, 7⟩ :: List.replicate n (.send 0 0)

theorem countP_sends (n : Nat) (ch : UserRaiserChannel) :
    (sends n).countP (Event.isSendTo false ch) = (if ch = ⟨0, 0⟩ then n else 0) ∧
    (sends n).countP (Event.isRecieveOf false ch) = 0 := by
  simp [sends, List.countP_replicate, Event.isSendTo, Event.isRecieveOf, slot, eq_comm (a := ch)]

/-- Every token of the channel has a reference of its own. -/
theorem many_sends (n : Nat) :
    ∃ s, (system false).Execution (sends n) s ∧ s.mailbox.isShutDown = false ∧ s.held 0 = 1 ∧
      (s.raisers 0).refcount = 1 + s.tokens ⟨0, 0⟩ := by
  induction n with
  | zero =>
      let s₀ : State :=
        ⟨userCreateMailbox false, fun _ => ⟨0, ⟨0, 0⟩, fun _ => 0⟩, 0, fun _ => 0, [], [], false⟩
      have start : (system false).Execution [] s₀ :=
        .start ⟨rfl, rfl, fun _ => rfl, fun _ => rfl, rfl, rfl, rfl⟩
      exact ⟨_, start.step (Step.createRaiser ⟨0, 7⟩ (by decide)), rfl, rfl, rfl⟩
  | succ n ih =>
      obtain ⟨s, run, hOpen, hHeld, hCount⟩ := ih
      have hDelivery := delivery_run run hOpen
      obtain ⟨-, -, -, hHeld', -⟩ := userSendNotificationToCore_frame hDelivery.sorted 0 0
      have hChannel : s.channel 0 0 = ⟨0, 0⟩ := by rw [State.channel, hDelivery.mode]; rfl
      refine ⟨userSendNotificationToCore s 0 0, ?_, ?_, ?_, ?_⟩
      · rw [sends, List.replicate_succ', ← List.cons_append]
        exact run.step (Step.send 0 0 (by omega))
      · rw [userSendNotificationToCore_isShutDown, hOpen]
      · rw [hHeld', hHeld]
      · rw [userSendNotificationToCore_refcount hOpen, userSendNotificationToCore_tokens hOpen,
          hChannel, hCount, Nat.add_assoc]
        simp only [true_and]

/-- After 2^64 sends without a receive nothing is pending, and the channel is still queued. -/
theorem pending_wraps_around :
    ∃ trace s, (system false).Execution trace s ∧ s.mailbox.isShutDown = false ∧
      trace.countP (Event.isSendTo false ⟨0, 0⟩) = 2 ^ 64 ∧
      trace.countP (Event.isRecieveOf false ⟨0, 0⟩) = 0 ∧ s.pending ⟨0, 0⟩ = 0 ∧
      s.queuedTimes ⟨0, 0⟩ + s.handedTimes ⟨0, 0⟩ = 1 := by
  obtain ⟨s, run, hOpen, -⟩ := many_sends (2 ^ 64)
  obtain ⟨hSent, hRecieved⟩ := countP_sends (2 ^ 64) ⟨0, 0⟩
  rw [if_pos rfl] at hSent
  obtain ⟨hPending, hTokens⟩ := (delivery_run run hOpen).owes ⟨0, 0⟩
  have hOwed : owed false (sends (2 ^ 64)) ⟨0, 0⟩ = 2 ^ 64 := by
    rw [owed, hSent, hRecieved, Nat.sub_zero]
  rw [hOwed] at hPending hTokens
  refine ⟨_, s, run, hOpen, hSent, hRecieved, hPending, ?_⟩
  rw [tokensFor] at hTokens
  exact hTokens

end Ricerca.Notifications
