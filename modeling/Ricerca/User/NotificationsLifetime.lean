import Mathlib.Data.Set.Card
import Ricerca.User.NotificationsSleepers

/-! Who keeps a raiser and a mailbox alive. A channel in a message queue, or with a woken
receiver, carries one reference to its raiser, and a raiser that was not destroyed
carries one reference to the memory of its mailbox. -/
namespace Ricerca.Notifications

open Ricerca.Foundation

/-- The channels of a raiser that a queue or a woken receiver can reach. -/
def reachable (s : State) (raiser : Nat) : Set UserRaiserChannel :=
  {ch | ch.owner = raiser ∧ 0 < s.tokens ch}

/-- The raisers that were not destroyed. -/
def liveRaisers (s : State) : Set Nat := {raiser | 0 < (s.raisers raiser).refcount}

/-- Every reference to a raiser is held by somebody or came with one of its channels. -/
structure Counted (s : State) (raiser : Nat) : Prop where
  finite : (reachable s raiser).Finite
  refcount : (s.raisers raiser).refcount = s.held raiser + (reachable s raiser).ncard

/-- The references to a raiser and the references to the memory of the mailbox. -/
structure Lifetime (s : State) : Prop where
  counted : ∀ raiser, Counted s raiser
  single : ∀ ch, s.tokens ch ≤ 1
  unborn : ∀ raiser, s.raisersCount ≤ raiser → (s.raisers raiser).refcount = 0
  finite : (liveRaisers s).Finite
  dealloc : s.mailbox.deallocRefcount = (liveRaisers s).ncard + if s.drained then 0 else 1
  closed : s.mailbox.isShutDown = true ↔ s.mailbox.shutdownRefcount = 0
  receivers : s.receivers.length ≤ s.mailbox.shutdownRefcount
  drained : s.drained = true → s.mailbox.isShutDown = true ∧ ∀ i, s.mailbox.msgQueue i = []

section Counting

variable {s s' : State} {raiser : Nat} {ch : UserRaiserChannel}

theorem reachable_congr (h : ∀ other, other.owner = raiser → (0 < s'.tokens other ↔ 0 < s.tokens other)) :
    reachable s' raiser = reachable s raiser := by
  ext other
  exact and_congr_right (h other)

/-- No channel is put into reach or out of it. -/
theorem Counted.same (h : Counted s raiser)
    (hTokens : ∀ other, other.owner = raiser → s'.tokens other = s.tokens other)
    (hCount : (s'.raisers raiser).refcount + s.held raiser =
      (s.raisers raiser).refcount + s'.held raiser) : Counted s' raiser := by
  have hReach : reachable s' raiser = reachable s raiser := by
    apply reachable_congr
    intro other hOwner
    rw [hTokens other hOwner]
  have hOld := h.refcount
  refine ⟨hReach ▸ h.finite, ?_⟩
  rw [hReach]
  omega

/-- One channel is put into reach, with a new reference. -/
theorem Counted.added (h : Counted s ch.owner) (hNone : s.tokens ch = 0)
    (hTokens : ∀ other, s'.tokens other = s.tokens other + if other = ch then 1 else 0)
    (hCount : (s'.raisers ch.owner).refcount = (s.raisers ch.owner).refcount + 1)
    (hHeld : s'.held ch.owner = s.held ch.owner) : Counted s' ch.owner := by
  have hReach : reachable s' ch.owner = insert ch (reachable s ch.owner) := by
    ext other
    by_cases hEq : other = ch
    · subst hEq
      simp [reachable, hTokens]
    · simp [reachable, hTokens, hEq]
  have hNew : ch ∉ reachable s ch.owner := fun hMem => Nat.lt_irrefl _ (hNone ▸ hMem.2)
  have hOld := h.refcount
  refine ⟨hReach ▸ h.finite.insert ch, ?_⟩
  rw [hReach, Set.ncard_insert_of_notMem hNew h.finite]
  omega

/-- One channel is taken out of reach, and its reference is dropped or held. -/
theorem Counted.removed (h : Counted s ch.owner) (hSingle : s.tokens ch ≤ 1)
    (hTokens : ∀ other, s.tokens other = s'.tokens other + if other = ch then 1 else 0)
    (hCount : (s'.raisers ch.owner).refcount + 1 + s.held ch.owner =
      (s.raisers ch.owner).refcount + s'.held ch.owner) : Counted s' ch.owner := by
  have hZero : s'.tokens ch = 0 := by
    have := hTokens ch
    rw [if_pos rfl] at this
    omega
  have hReach : reachable s' ch.owner = reachable s ch.owner \ {ch} := by
    ext other
    by_cases hEq : other = ch
    · subst hEq
      simp [reachable, hZero]
    · simp [reachable, hTokens, hEq]
  have hMem : ch ∈ reachable s ch.owner := ⟨rfl, by rw [hTokens ch, if_pos rfl]; omega⟩
  have hLess := Set.ncard_sdiff_singleton_add_one hMem h.finite
  have hOld := h.refcount
  refine ⟨hReach ▸ h.finite.sdiff, ?_⟩
  rw [hReach]
  omega

/-- A raiser that somebody can reach was not destroyed. -/
theorem Counted.pos (h : Counted s ch.owner) (hToken : 0 < s.tokens ch) :
    0 < (s.raisers ch.owner).refcount := by
  have hMem : ch ∈ reachable s ch.owner := ⟨rfl, hToken⟩
  have hPos := (Set.ncard_pos h.finite).mpr ⟨ch, hMem⟩
  rw [h.refcount]
  omega

end Counting

section Refcounts

variable (s : State) (raiser id other : Nat) (ch : UserRaiserChannel)

theorem refcount_dropRef :
    ((s.dropRef raiser).raisers other).refcount =
      (s.raisers other).refcount - if other = raiser then 1 else 0 := by
  have hDrop : ((s.setRefcount raiser ((s.raisers raiser).refcount - 1)).raisers other).refcount =
      (s.raisers other).refcount - if other = raiser then 1 else 0 := by
    rw [refcount_setRefcount]
    split_ifs with hEq
    · rw [hEq]
    · rfl
  rw [← hDrop]
  simp only [State.dropRef]
  split_ifs <;> rfl

/-- What enqueueing leaves as it is. -/
theorem enqueue_frame :
    let s' := userRaiserEnqueueNolock s raiser id
    s'.mailbox.deallocRefcount = s.mailbox.deallocRefcount ∧
    s'.mailbox.shutdownRefcount = s.mailbox.shutdownRefcount ∧
    s'.receivers = s.receivers ∧ s'.drained = s.drained := by
  simp only [userRaiserEnqueueNolock]
  split <;> exact ⟨rfl, rfl, rfl, rfl⟩

theorem take_frame :
    let s' := (takeNotification s ch id).2
    s'.mailbox.deallocRefcount = s.mailbox.deallocRefcount ∧
    s'.mailbox.shutdownRefcount = s.mailbox.shutdownRefcount ∧
    s'.receivers = s.receivers ∧ s'.drained = s.drained := by
  simp only [takeNotification]
  split_ifs
  · exact enqueue_frame (s.setPending ch (s.pending ch - 1)) ch.owner id
  · exact ⟨rfl, rfl, rfl, rfl⟩

theorem refcount_take :
    ((takeNotification s ch id).2.raisers other).refcount = (s.raisers other).refcount +
      if other = ch.owner ∧ s.pending ch - 1 ≠ 0 then 1 else 0 := by
  simp only [takeNotification, State.pending_setPending, if_true]
  by_cases hMore : s.pending ch - 1 ≠ 0
  · rw [if_pos hMore]
    have hEnqueue := refcount_enqueue (s.setPending ch (s.pending ch - 1)) ch.owner id other
    rw [refcount_setPending] at hEnqueue
    simpa only [hMore, ne_eq, not_false_eq_true, and_true] using hEnqueue
  · rw [if_neg hMore]
    simp [hMore]

end Refcounts

section Live

variable {s s' : State} {raiser extra : Nat}

theorem liveRaisers_congr
    (h : ∀ other, 0 < (s'.raisers other).refcount ↔ 0 < (s.raisers other).refcount) :
    liveRaisers s' = liveRaisers s := by
  ext other
  exact h other

/-- `user_destroy_raiser` drops the reference that came with the raiser. -/
theorem dealloc_dropRef (hFinite : (liveRaisers s).Finite) (hPos : 0 < (s.raisers raiser).refcount)
    (hDealloc : s.mailbox.deallocRefcount = (liveRaisers s).ncard + extra) :
    (liveRaisers (s.dropRef raiser)).Finite ∧ (s.dropRef raiser).mailbox.deallocRefcount =
      (liveRaisers (s.dropRef raiser)).ncard + extra := by
  by_cases hLast : (s.raisers raiser).refcount = 1
  · have hLive : liveRaisers (s.dropRef raiser) = liveRaisers s \ {raiser} := by
      ext other
      by_cases hEq : other = raiser
      · subst hEq
        simp [liveRaisers, refcount_dropRef, hLast]
      · simp [liveRaisers, refcount_dropRef, hEq]
    have hCount : (s.dropRef raiser).mailbox.deallocRefcount = s.mailbox.deallocRefcount - 1 := by
      simp [State.dropRef, hLast]
    have hMem : raiser ∈ liveRaisers s := hPos
    have hLess := Set.ncard_sdiff_singleton_add_one hMem hFinite
    rw [hLive, hCount]
    exact ⟨hFinite.sdiff, by omega⟩
  · have hLive : liveRaisers (s.dropRef raiser) = liveRaisers s := by
      apply liveRaisers_congr
      intro other
      rw [refcount_dropRef]
      split_ifs with hEq
      · subst hEq
        omega
      · omega
    have hCount : (s.dropRef raiser).mailbox.deallocRefcount = s.mailbox.deallocRefcount := by
      simp [State.dropRef, hLast]
    rw [hLive, hCount]
    exact ⟨hFinite, hDealloc⟩

end Live

section Steps

variable {s s' : State} {raiser id : Nat} {ch : UserRaiserChannel}

theorem Lifetime.held_pos (h : Lifetime s) (hRef : 0 < s.held raiser) :
    0 < (s.raisers raiser).refcount := by
  rw [(h.counted raiser).refcount]
  omega

/-- A raiser that does not exist yet is not referred to. -/
theorem Lifetime.unborn_counted (h : Lifetime s) (hLate : s.raisersCount ≤ raiser) :
    s.held raiser = 0 ∧ reachable s raiser = ∅ := by
  have hCounted := h.counted raiser
  have hZero := h.unborn raiser hLate
  rw [hCounted.refcount] at hZero
  refine ⟨by omega, ?_⟩
  rw [← Set.ncard_eq_zero hCounted.finite]
  omega

theorem Lifetime.createRaiser (h : Lifetime s) (notification : UserNotification)
    (hRef : 0 < s.mailbox.shutdownRefcount) :
    Lifetime
      { s with
        mailbox.deallocRefcount := s.mailbox.deallocRefcount + 1
        raisers := Function.update s.raisers s.raisersCount ⟨1, notification, fun _ => 0⟩
        raisersCount := s.raisersCount + 1
        held := Function.update s.held s.raisersCount 1 } := by
  have hUnborn := h.unborn s.raisersCount (Nat.le_refl _)
  have hNew : s.raisersCount ∉ liveRaisers s := fun hLive => by
    have hPos : 0 < (s.raisers s.raisersCount).refcount := hLive
    omega
  constructor
  case counted =>
    intro raiser
    apply (h.counted raiser).same
    · exact fun _ _ => rfl
    · by_cases hEq : raiser = s.raisersCount
      · subst hEq
        have hHeld := (h.unborn_counted (Nat.le_refl s.raisersCount)).1
        simp [hUnborn, hHeld]
      · simp [hEq]
  case single => exact h.single
  case unborn =>
    intro raiser hLate
    have hNe : raiser ≠ s.raisersCount := by
      rintro rfl
      exact Nat.not_succ_le_self _ hLate
    simp only [Function.update_of_ne hNe]
    exact h.unborn raiser (Nat.le_of_succ_le hLate)
  case finite =>
    apply (h.finite.insert s.raisersCount).subset
    intro raiser hLive
    by_cases hEq : raiser = s.raisersCount
    · exact Or.inl hEq
    · simp only [liveRaisers, Set.mem_ofPred_eq, Function.update_of_ne hEq] at hLive
      exact Or.inr hLive
  case dealloc =>
    have hLive : liveRaisers
        { s with
          mailbox.deallocRefcount := s.mailbox.deallocRefcount + 1
          raisers := Function.update s.raisers s.raisersCount ⟨1, notification, fun _ => 0⟩
          raisersCount := s.raisersCount + 1
          held := Function.update s.held s.raisersCount 1 } =
        insert s.raisersCount (liveRaisers s) := by
      ext raiser
      by_cases hEq : raiser = s.raisersCount
      · subst hEq
        simp [liveRaisers]
      · simp [liveRaisers, hEq]
    have hDealloc := h.dealloc
    rw [hLive, Set.ncard_insert_of_notMem hNew h.finite]
    simp only
    omega
  case closed => exact h.closed
  case receivers => exact h.receivers
  case drained =>
    intro hDrained
    have hShut := (h.drained hDrained).1
    rw [h.closed] at hShut
    omega

/-- A step that neither creates nor destroys a raiser, and leaves the references to the
mailbox as they are. -/
theorem Lifetime.frame (h : Lifetime s) (hCounted : ∀ raiser, Counted s' raiser)
    (hSingle : ∀ ch, s'.tokens ch ≤ 1) (hCount : s'.raisersCount = s.raisersCount)
    (hLive : ∀ raiser, 0 < (s'.raisers raiser).refcount ↔ 0 < (s.raisers raiser).refcount)
    (hDealloc : s'.mailbox.deallocRefcount = s.mailbox.deallocRefcount)
    (hRefs : s'.mailbox.shutdownRefcount = s.mailbox.shutdownRefcount)
    (hShut : s'.mailbox.isShutDown = s.mailbox.isShutDown)
    (hReceivers : s'.receivers.length ≤ s.mailbox.shutdownRefcount)
    (hDrained : s'.drained = s.drained)
    (hQueues : s.drained = true → s'.mailbox.msgQueue = s.mailbox.msgQueue) : Lifetime s' := by
  have hSame : liveRaisers s' = liveRaisers s := liveRaisers_congr hLive
  constructor
  case counted => exact hCounted
  case single => exact hSingle
  case unborn =>
    intro raiser hLate
    have hZero := h.unborn raiser (hCount ▸ hLate)
    have hDead := hLive raiser
    omega
  case finite => exact hSame ▸ h.finite
  case dealloc =>
    rw [hSame, hDealloc, hDrained]
    exact h.dealloc
  case closed =>
    rw [hShut, hRefs]
    exact h.closed
  case receivers =>
    rw [hRefs]
    exact hReceivers
  case drained =>
    intro hDone
    rw [hDrained] at hDone
    rw [hShut, hQueues hDone]
    exact h.drained hDone

theorem Lifetime.borrowRaiser (h : Lifetime s) (hRef : 0 < s.held raiser) :
    Lifetime { s.borrowRef raiser with
      held := Function.update s.held raiser (s.held raiser + 1) } := by
  have hCount : ∀ other, ((s.borrowRef raiser).raisers other).refcount =
      (s.raisers other).refcount + if other = raiser then 1 else 0 := by
    intro other
    rw [State.borrowRef, refcount_setRefcount]
    split_ifs with hEq
    · rw [hEq]
    · rfl
  have hPos := h.held_pos hRef
  refine h.frame (fun other => ?_) h.single rfl (fun other => ?_) rfl rfl rfl h.receivers rfl
    fun _ => rfl
  · apply (h.counted other).same
    · exact fun _ _ => rfl
    · simp only [hCount]
      by_cases hEq : other = raiser
      · subst hEq
        simp
        omega
      · simp [hEq]
  · simp only [hCount]
    split_ifs with hEq
    · subst hEq
      omega
    · omega

theorem Lifetime.dropRaiser (h : Lifetime s) (hRef : 0 < s.held raiser) :
    Lifetime { s.dropRef raiser with
      held := Function.update s.held raiser (s.held raiser - 1) } := by
  obtain ⟨hMsg, -, -, hShut, hWoken, hCount, -⟩ := Delivery.dropRef_frame s raiser
  have hPos := h.held_pos hRef
  have hDealloc := dealloc_dropRef h.finite hPos h.dealloc
  have hRest : (s.dropRef raiser).mailbox.shutdownRefcount = s.mailbox.shutdownRefcount ∧
      (s.dropRef raiser).receivers = s.receivers ∧ (s.dropRef raiser).drained = s.drained := by
    simp only [State.dropRef]
    split_ifs <;> exact ⟨rfl, rfl, rfl⟩
  constructor
  case counted =>
    intro other
    apply (h.counted other).same
    · exact fun ch _ => tokens_congr hMsg hWoken ch
    · simp only [refcount_dropRef]
      by_cases hEq : other = raiser
      · subst hEq
        simp
        omega
      · simp [hEq]
  case single =>
    intro ch
    exact (tokens_congr hMsg hWoken ch).trans_le (h.single ch)
  case unborn =>
    intro other hLate
    have hZero := h.unborn other (hCount ▸ hLate)
    simp only [refcount_dropRef, hZero]
    exact Nat.zero_sub _
  case finite => exact hDealloc.1
  case dealloc =>
    have hSame := hDealloc.2
    rw [← hRest.2.2] at hSame
    exact hSame
  case closed =>
    simp only [hShut, hRest.1]
    exact h.closed
  case receivers =>
    simp only [hRest.1, hRest.2.1]
    exact h.receivers
  case drained =>
    simp only [hRest.2.2, hShut, hMsg]
    exact h.drained

/-- Only an open mailbox takes a notification. -/
theorem Lifetime.send (h : Lifetime s) (hExact : s.mailbox.isShutDown = false → Exact s)
    (hRef : 0 < s.held raiser) : Lifetime (userSendNotificationToCore s raiser id) := by
  simp only [userSendNotificationToCore, State.pending_setPending, if_true]
  split_ifs with hShut hFirst
  · exact h
  · -- the first pending notification takes the channel, and a reference, into reach
    have hOpen : s.mailbox.isShutDown = false := by simpa using hShut
    have hNone : s.tokens (s.channel raiser id) = 0 := by
      rw [hExact hOpen, if_pos (add_one_eq_one_iff.mp hFirst)]
    generalize hPending : s.pending (s.channel raiser id) + 1 = n
    obtain ⟨hMode, hShut', hCount', hHeld', -⟩ :=
      userRaiserEnqueueNolock_frame (s.setPending (s.channel raiser id) n) raiser id
    obtain ⟨hDealloc', hRefs', hReceivers', hDrained'⟩ :=
      enqueue_frame (s.setPending (s.channel raiser id) n) raiser id
    have hTokens : ∀ other, (userRaiserEnqueueNolock (s.setPending (s.channel raiser id) n) raiser
        id).tokens other = s.tokens other + if other = s.channel raiser id then 1 else 0 :=
      userRaiserEnqueueNolock_tokens
    have hRefcount := fun other =>
      refcount_enqueue (s.setPending (s.channel raiser id) n) raiser id other
    simp only [refcount_setPending] at hRefcount
    have hPos := h.held_pos hRef
    refine h.frame (fun other => ?_) (fun other => ?_) hCount' (fun other => ?_) hDealloc' hRefs'
      hShut' (hReceivers' ▸ h.receivers) hDrained' fun hDone => ?_
    · by_cases hEq : other = raiser
      · subst hEq
        refine Counted.added (h.counted other) hNone hTokens ?_ ?_
        · simpa [State.channel] using hRefcount other
        · exact congrFun hHeld' _
      · apply (h.counted other).same
        · rintro ch rfl
          rw [hTokens ch, if_neg (fun hSame => hEq (congrArg (·.owner) hSame)), Nat.add_zero]
        · rw [hRefcount other, if_neg hEq, hHeld']
          rfl
    · rw [hTokens other]
      split_ifs with hEq
      · rw [hEq, hNone]
      · exact h.single other
    · rw [hRefcount other]
      split_ifs with hEq
      · subst hEq
        omega
      · omega
    · exact absurd (h.drained hDone).1 (by simp [hOpen])
  · refine h.frame (fun other => ?_) h.single rfl (fun other => ?_) rfl rfl rfl h.receivers rfl
      fun _ => rfl
    · apply (h.counted other).same
      · exact fun _ _ => rfl
      · simp only [refcount_setPending]
        rfl
    · simp only [refcount_setPending]

/-- A receiver takes the token of a channel, and its reference with it. -/
theorem Lifetime.take {t : State} (h : Lifetime s) (hRef : 0 < s.mailbox.shutdownRefcount)
    (hIndex : ch.index = slot t.mailbox.isPerCpu id)
    (hTokens : ∀ other, s.tokens other = t.tokens other + if other = ch then 1 else 0)
    (hRaisers : t.raisers = s.raisers) (hHeld : t.held = s.held)
    (hCount : t.raisersCount = s.raisersCount)
    (hDealloc : t.mailbox.deallocRefcount = s.mailbox.deallocRefcount)
    (hRefs : t.mailbox.shutdownRefcount = s.mailbox.shutdownRefcount)
    (hShut : t.mailbox.isShutDown = s.mailbox.isShutDown)
    (hReceivers : t.receivers.length ≤ s.mailbox.shutdownRefcount)
    (hDrained : t.drained = s.drained) : Lifetime (takeNotification t ch id).2 := by
  obtain ⟨-, -, hShut', hCount', hHeld', -⟩ := takeNotification_frame t ch id
  obtain ⟨hDealloc', hRefs', hReceivers', hDrained'⟩ := take_frame t id ch
  have hOpen : s.drained ≠ true := by
    intro hDone
    have hClosed := h.closed.mp (h.drained hDone).1
    omega
  have hToken : 0 < s.tokens ch := by
    rw [hTokens ch, if_pos rfl]
    omega
  have hPos := (h.counted ch.owner).pos hToken
  have hRefcount := fun other => refcount_take t id other ch
  rw [hRaisers] at hRefcount
  refine h.frame (fun other => ?_) (fun other => ?_) (hCount'.trans hCount) (fun other => ?_)
    (hDealloc'.trans hDealloc) (hRefs'.trans hRefs) (hShut'.trans hShut)
    (hReceivers' ▸ hReceivers) (hDrained'.trans hDrained) fun hDone => (hOpen hDone).elim
  · by_cases hEq : other = ch.owner
    · subst hEq
      by_cases hMore : t.pending ch - 1 ≠ 0
      · -- the channel goes back into reach, with a new reference
        apply (h.counted ch.owner).same
        · intro ch' _
          rw [takeNotification_tokens hIndex, hTokens ch']
          simp [hMore]
        · rw [hRefcount, hHeld', hHeld]
          simp [hMore]
          omega
      · apply (h.counted ch.owner).removed (h.single ch)
        · intro ch'
          rw [takeNotification_tokens hIndex, hTokens ch']
          simp [hMore]
        · rw [hRefcount, hHeld', hHeld]
          simp [hMore]
          omega
    · apply (h.counted other).same
      · rintro ch' rfl
        have hNe : ch' ≠ ch := fun hSame => hEq (congrArg (·.owner) hSame)
        rw [takeNotification_tokens hIndex, hTokens ch']
        simp [hNe]
      · rw [hRefcount, hHeld', hHeld]
        simp [hEq]
  · rw [takeNotification_tokens hIndex]
    have hSingle := h.single other
    rw [hTokens other] at hSingle
    split_ifs at hSingle ⊢ <;> first | omega | simp_all
  · rw [hRefcount]
    split_ifs with hOwner
    · rw [hOwner.1]
      omega
    · omega

/-- The shutdown takes a channel out of its queue and drops the reference. -/
theorem Lifetime.drain {t : State} (h : Lifetime s) (hOpen : s.drained = false)
    (hTokens : ∀ other, s.tokens other = t.tokens other + if other = ch then 1 else 0)
    (hRaisers : t.raisers = s.raisers) (hHeld : t.held = s.held)
    (hCount : t.raisersCount = s.raisersCount)
    (hDealloc : t.mailbox.deallocRefcount = s.mailbox.deallocRefcount)
    (hRefs : t.mailbox.shutdownRefcount = s.mailbox.shutdownRefcount)
    (hShut : t.mailbox.isShutDown = s.mailbox.isShutDown) (hReceivers : t.receivers = s.receivers)
    (hDrained : t.drained = s.drained) : Lifetime (t.dropRef ch.owner) := by
  obtain ⟨hMsg, -, -, hShut', hWoken, hCount', -⟩ := Delivery.dropRef_frame t ch.owner
  have hRest : (t.dropRef ch.owner).mailbox.shutdownRefcount = t.mailbox.shutdownRefcount ∧
      (t.dropRef ch.owner).receivers = t.receivers ∧ (t.dropRef ch.owner).drained = t.drained ∧
      (t.dropRef ch.owner).held = t.held := by
    simp only [State.dropRef]
    split_ifs <;> exact ⟨rfl, rfl, rfl, rfl⟩
  have hToken : 0 < s.tokens ch := by
    rw [hTokens ch, if_pos rfl]
    omega
  have hPos := (h.counted ch.owner).pos hToken
  have hLive : liveRaisers t = liveRaisers s := liveRaisers_congr fun other => by rw [hRaisers]
  have hPos' : 0 < (t.raisers ch.owner).refcount := hRaisers ▸ hPos
  have hMailbox := dealloc_dropRef (hLive ▸ h.finite) hPos' (hDealloc.trans (hLive ▸ h.dealloc))
  have hTokens' : ∀ other, (t.dropRef ch.owner).tokens other = t.tokens other :=
    tokens_congr hMsg hWoken
  constructor
  case counted =>
    intro other
    by_cases hEq : other = ch.owner
    · subst hEq
      apply (h.counted ch.owner).removed (h.single ch)
      · intro ch'
        rw [hTokens', hTokens ch']
      · rw [refcount_dropRef, hRaisers, hRest.2.2.2, hHeld]
        simp
        omega
    · apply (h.counted other).same
      · rintro ch' rfl
        rw [hTokens', hTokens ch', if_neg (fun hSame => hEq (congrArg (·.owner) hSame)), Nat.add_zero]
      · rw [refcount_dropRef, hRaisers, hRest.2.2.2, hHeld]
        simp [hEq]
  case single =>
    intro other
    rw [hTokens']
    have hSingle := h.single other
    rw [hTokens other] at hSingle
    omega
  case unborn =>
    intro other hLate
    rw [refcount_dropRef, hRaisers, h.unborn other (hCount ▸ hCount' ▸ hLate), Nat.zero_sub]
  case finite => exact hMailbox.1
  case dealloc =>
    have hSame := hMailbox.2
    rw [← hDrained, ← hRest.2.2.1] at hSame
    exact hSame
  case closed =>
    rw [hShut', hRest.1, hShut, hRefs]
    exact h.closed
  case receivers =>
    rw [hRest.1, hRest.2.1, hRefs, hReceivers]
    exact h.receivers
  case drained =>
    intro hDone
    rw [hRest.2.2.1, hDrained, hOpen] at hDone
    cases hDone

theorem Lifetime.step {event : Event} (h : Lifetime s)
    (hExact : s.mailbox.isShutDown = false → Exact s) (hSorted : Sorted s)
    (hWoken : ∀ p ∈ s.woken, p.1.task ∈ s.receivers) (hStep : Step s event s') : Lifetime s' := by
  cases hStep with
  | createRaiser notification hRef => exact h.createRaiser notification hRef
  | borrowRaiser hRef => exact h.borrowRaiser hRef
  | dropRaiser hRef => exact h.dropRaiser hRef
  | send raiser id hRef => exact h.send hExact hRef
  | @recieveQueued task id channel rest hTask hRef hQueue notification s' hTaken =>
      have hIndex : channel.index = slot s.mailbox.isPerCpu id := by
        apply hSorted.msg
        rw [(userLocalGlobalDequeue_some hQueue).1]
        exact List.mem_cons_self ..
      have hTake := h.take (t := { s with mailbox.msgQueue := rest }) (Nat.zero_lt_of_lt hRef) hIndex
        (tokens_dequeued hIndex hQueue) rfl rfl rfl rfl rfl rfl h.receivers rfl
      rw [hTaken] at hTake
      exact hTake
  | recieveSleep task id hTask hRef hQueue =>
      refine h.frame (fun other => ?_) h.single rfl (fun _ => Iff.rfl) rfl rfl rfl hRef rfl fun _ => rfl
      exact (h.counted other).same (fun _ _ => rfl) rfl
  | recieveWoken node channel hMem hTaken =>
      have hReceiver := hWoken _ hMem
      have hRef : 0 < s.mailbox.shutdownRefcount :=
        Nat.lt_of_lt_of_le (List.length_pos_of_mem hReceiver) h.receivers
      have hTake := h.take (t := { s with
          woken := s.woken.erase (node, channel)
          receivers := s.receivers.erase node.task }) hRef (hSorted.woken _ hMem)
        (tokens_erased hMem (s.receivers.erase node.task)) rfl rfl rfl rfl rfl rfl
        (List.length_erase_le.trans h.receivers) rfl
      rw [hTaken] at hTake
      exact hTake
  | borrowMailbox hRef =>
      refine ⟨fun other => (h.counted other).same (fun _ _ => rfl) rfl, h.single, h.unborn, h.finite,
        h.dealloc, ?_, Nat.le_succ_of_le h.receivers, h.drained⟩
      simp only [h.closed]
      omega
  | dropMailbox hRef =>
      have hOpen : s.mailbox.isShutDown = false := by
        rw [Bool.eq_false_iff, Ne, h.closed]
        omega
      refine ⟨fun other => (h.counted other).same (fun _ _ => rfl) rfl, h.single, h.unborn, h.finite,
        h.dealloc, ?_, Nat.le_sub_one_of_lt hRef, fun hDone => ?_⟩
      · simp only [hOpen, Bool.false_or, decide_eq_true_eq]
        omega
      · cases hOpen.symm.trans (h.drained hDone).1
  | @drain id channel rest hShut hQueue =>
      have hHead := (userLocalGlobalDequeue_some hQueue).1
      have hIndex : channel.index = slot s.mailbox.isPerCpu id := by
        apply hSorted.msg
        rw [hHead]
        exact List.mem_cons_self ..
      have hOpen : s.drained = false := by
        rw [Bool.eq_false_iff]
        intro hDone
        rw [(h.drained hDone).2] at hHead
        cases hHead
      exact h.drain (t := { s with mailbox.msgQueue := rest }) hOpen (tokens_dequeued hIndex hQueue)
        rfl rfl rfl rfl rfl rfl rfl rfl
  | release hShut hOpen hEmpty =>
      have hDealloc := h.dealloc
      refine ⟨fun other => (h.counted other).same (fun _ _ => rfl) rfl, h.single, h.unborn, h.finite,
        ?_, h.closed, h.receivers, fun _ => ⟨hShut, hEmpty⟩⟩
      rw [hOpen, if_neg (by simp)] at hDealloc
      rw [if_pos rfl, hDealloc]
      rfl

theorem Lifetime.init {isPerCpu : Bool} (h : (system isPerCpu).init s) : Lifetime s := by
  obtain ⟨hMailbox, hCount, hRaisers, hHeld, hReceivers, hWoken, hDrained⟩ := h
  have hTokens : ∀ ch, s.tokens ch = 0 := fun ch => by
    simp [State.tokens, State.queuedTimes, State.handedTimes, hMailbox, hWoken, userCreateMailbox]
  have hReach : ∀ raiser, reachable s raiser = ∅ := fun raiser => by
    ext ch
    simp [reachable, hTokens]
  have hLive : liveRaisers s = ∅ := by
    ext raiser
    simp [liveRaisers, hRaisers]
  constructor
  case counted =>
    intro raiser
    exact ⟨by simp [hReach], by simp [hReach, hRaisers, hHeld]⟩
  case single =>
    intro ch
    simp [hTokens]
  case unborn =>
    intro raiser _
    rw [hRaisers]
  case finite => simp [hLive]
  case dealloc => simp [hLive, hMailbox, hDrained, userCreateMailbox]
  case closed => simp [hMailbox, userCreateMailbox]
  case receivers => simp [hReceivers]
  case drained => simp [hDrained]

end Steps

section Runs

variable {isPerCpu : Bool} {trace : List Event} {s : State}

/-- Woken receivers have not left their call. -/
theorem woken_receivers (run : (system isPerCpu).Execution trace s) :
    Sorted s ∧ ∀ p ∈ s.woken, p.1.task ∈ s.receivers := by
  obtain ⟨log, recorded⟩ := run.record State.wakes
  have h := Sleepers.run recorded
  refine ⟨h.sorted, fun p hp => ?_⟩
  have hTask : p.1.task ∈ s.tasks .woken := List.mem_map_of_mem hp
  exact h.placed.live_of_mem hTask

theorem Lifetime.run (run : (bounded isPerCpu).Execution trace s) : Lifetime s := by
  apply run.invariant (P := fun _ s => Lifetime s)
  · exact fun s hInit => .init hInit
  · rintro trace s event s' prior h ⟨-, hStep⟩
    obtain ⟨hSorted, hWoken⟩ := woken_receivers prior.ofRestrict
    exact h.step (exact_run prior) hSorted hWoken hStep

/-- After the shutdown of a mailbox nobody is inside a receive call. -/
theorem Lifetime.no_receivers (h : Lifetime s) (hShut : s.mailbox.isShutDown = true) :
    s.receivers = [] := by
  have hLength := h.receivers
  rw [h.closed.mp hShut] at hLength
  exact List.eq_nil_of_length_eq_zero (Nat.le_zero.mp hLength)

/-- When the memory of the mailbox is gone, so are all that could use it. -/
theorem Lifetime.final (h : Lifetime s) (hWoken : ∀ p ∈ s.woken, p.1.task ∈ s.receivers)
    (hFreed : s.mailbox.deallocRefcount = 0) (event : Event) (s' : State) : ¬Step s event s' := by
  have hDealloc := h.dealloc
  rw [hFreed] at hDealloc
  have hDone : s.drained = true := by
    by_contra hOpen
    rw [if_neg hOpen] at hDealloc
    omega
  obtain ⟨hShut, hEmpty⟩ := h.drained hDone
  have hRefs := h.closed.mp hShut
  have hNone := h.no_receivers hShut
  have hDead : liveRaisers s = ∅ := by
    rw [← Set.ncard_eq_zero h.finite]
    omega
  have hHeld : ∀ raiser, s.held raiser = 0 := by
    intro raiser
    by_contra hRef
    have hLive : raiser ∈ liveRaisers s := h.held_pos (Nat.pos_of_ne_zero hRef)
    rw [hDead] at hLive
    exact hLive
  intro hStep
  cases hStep with
  | createRaiser _ hRef | borrowMailbox hRef => omega
  | borrowRaiser hRef | dropRaiser hRef | send _ _ hRef =>
      rw [hHeld] at hRef
      exact Nat.lt_irrefl 0 hRef
  | recieveQueued _ hRef | recieveSleep _ _ _ hRef | dropMailbox hRef => omega
  | recieveWoken node channel hMem =>
      have hReceiver := hWoken _ hMem
      rw [hNone] at hReceiver
      cases hReceiver
  | drain _ hQueue =>
      have hHead := (userLocalGlobalDequeue_some hQueue).1
      rw [hEmpty] at hHead
      cases hHead
  | release _ hOpen => cases hOpen.symm.trans hDone

/-- In every state of a run in which no counter of pending notifications wraps around, the
counters show who refers to raisers and to the mailbox. A raiser that was destroyed is not
held and none of its channels can be reached. The memory of the mailbox is gone exactly when
its shutdown is over and all raisers are destroyed; no step is possible then, so it is freed
once. After the shutdown began no send queues anything, and when it is over no queue and no
receiver has a channel. -/
theorem mailbox_lifetime (run : (bounded isPerCpu).Execution trace s) :
    (∀ raiser, (reachable s raiser).Finite ∧
      (s.raisers raiser).refcount = s.held raiser + (reachable s raiser).ncard) ∧
    (∀ ch, s.queuedTimes ch + s.handedTimes ch ≤ 1) ∧
    (∀ raiser, (s.raisers raiser).refcount = 0 → s.held raiser = 0 ∧ reachable s raiser = ∅) ∧
    ((liveRaisers s).Finite ∧
      s.mailbox.deallocRefcount = (liveRaisers s).ncard + if s.drained then 0 else 1) ∧
    (s.mailbox.deallocRefcount = 0 ↔ s.drained = true ∧ liveRaisers s = ∅) ∧
    (∀ event s', Step s event s' → 0 < s.mailbox.deallocRefcount) ∧
    (s.mailbox.isShutDown = true → ∀ raiser id, userSendNotificationToCore s raiser id = s) ∧
    (s.drained = true → ∀ raiser, reachable s raiser = ∅) := by
  have h := Lifetime.run run
  obtain ⟨-, hWoken⟩ := woken_receivers run.ofRestrict
  refine ⟨fun raiser => ⟨(h.counted raiser).finite, (h.counted raiser).refcount⟩, h.single,
    fun raiser hZero => ?_, ⟨h.finite, h.dealloc⟩, ?_, fun event s' hStep => ?_,
    fun hShut raiser id => ?_, fun hDone raiser => ?_⟩
  · have hCount := (h.counted raiser).refcount
    refine ⟨by omega, ?_⟩
    rw [← Set.ncard_eq_zero (h.counted raiser).finite]
    omega
  · rw [h.dealloc, ← Set.ncard_eq_zero h.finite]
    cases s.drained <;> simp
  · apply Nat.pos_of_ne_zero
    exact fun hFreed => h.final hWoken hFreed event s' hStep
  · rw [userSendNotificationToCore, if_pos hShut]
  · obtain ⟨hShut, hEmpty⟩ := h.drained hDone
    have hNobody : s.woken = [] := by
      rw [List.eq_nil_iff_forall_not_mem]
      intro p hp
      have hReceiver := hWoken p hp
      rw [h.no_receivers hShut] at hReceiver
      cases hReceiver
    ext ch
    simp [reachable, State.tokens, State.queuedTimes, State.handedTimes, hEmpty, hNobody]

/-- A notification is queued when the mailbox is shut down; the raiser is dropped before
the queues are drained, so that the drain destroys it, and the release frees the mailbox. -/
theorem mailbox_lifetime_drained :
    ∃ s, (bounded false).Execution
        [.createRaiser 0 ⟨0, 7⟩, .send 0 3, .dropMailbox, .dropRaiser 0, .drain, .release] s ∧
      s.mailbox.deallocRefcount = 0 ∧ liveRaisers s = ∅ ∧ reachable s 0 = ∅ := by
  let s₀ : State :=
    ⟨userCreateMailbox false, fun _ => ⟨0, ⟨0, 0⟩, fun _ => 0⟩, 0, fun _ => 0, [], [], false⟩
  have start : (bounded false).Execution [] s₀ :=
    .start ⟨rfl, rfl, fun _ => rfl, fun _ => rfl, rfl, rfl, rfl⟩
  have created := bounded_step start (Step.createRaiser ⟨0, 7⟩ (by decide)) trivial
  have sent := bounded_step created (Step.send 0 3 (by decide)) fun _ => by decide
  have shut := bounded_step sent (Step.dropMailbox (by decide)) trivial
  have dropped := bounded_step shut (@Step.dropRaiser _ 0 (by decide)) trivial
  have drained := bounded_step dropped (@Step.drain _ 0 _ _ (by decide) rfl) trivial
  have run := bounded_step drained
    (Step.release (by decide) (by decide) (fun i => by cases i <;> rfl)) trivial
  obtain ⟨-, -, -, -, hFreed, -, -, hDrained⟩ := mailbox_lifetime run
  exact ⟨_, run, by decide, (hFreed.mp (by decide)).2, hDrained rfl 0⟩

/-- After 2^64 + 1 sends without a receive the channel was queued twice, with two references to
its raiser. -/
theorem channel_queued_twice :
    ∃ trace s, (system false).Execution trace s ∧
      s.queuedTimes ⟨0, 0⟩ + s.handedTimes ⟨0, 0⟩ = 2 ∧
      s.held 0 = 1 ∧ (s.raisers 0).refcount = 3 ∧ reachable s 0 = {⟨0, 0⟩} := by
  obtain ⟨s, run, hOpen, hHeld, hCount⟩ := many_sends (2 ^ 64 + 1)
  have hOwes := (delivery_run run hOpen).owes
  have hOwed : ∀ ch, owed false (sends (2 ^ 64 + 1)) ch =
      if ch = ⟨0, 0⟩ then 2 ^ 64 + 1 else 0 := by
    intro ch
    obtain ⟨hSent, hRecieved⟩ := countP_sends (2 ^ 64 + 1) ch
    rw [owed, hSent, hRecieved, Nat.sub_zero]
  have hTwo : s.tokens ⟨0, 0⟩ = 2 := by
    rw [(hOwes _).2, hOwed, if_pos rfl, tokensFor]
    omega
  refine ⟨_, s, run, hTwo, hHeld, by rw [hCount, hTwo], ?_⟩
  ext ch
  constructor
  · rintro ⟨-, hToken⟩
    by_contra hOther
    rw [(hOwes ch).2, hOwed, if_neg (by simpa using hOther), tokensFor_zero] at hToken
    exact Nat.lt_irrefl 0 hToken
  · rintro rfl
    exact ⟨rfl, by omega⟩

end Runs

end Ricerca.Notifications
