import Mathlib.Data.Fintype.Card
import Ricerca.Thread.Spinlock

/-! Spinlocks refine locks that are handed over in the order of the requests. Tickets are counted
modulo the size of a word; as long as there are fewer cores than that, no two tickets that are
out are the same, and a core waits for exactly those that came before it. -/
namespace Ricerca.Spinlock

open Ricerca.Foundation

variable {Core Lock : Type}

/-- What the words of a lock and the cores say about its queue. -/
structure Queued (s : State Core Lock) (l : Lock) (queue : FifoLock.Lock Core) : Prop where
  word : (s.spinlocks l).current < 2 ^ 64
  allocated : (s.spinlocks l).allocated =
    wrap ((s.spinlocks l).current + (queue.holder.toList.length + queue.waiting.length))
  holder : ∀ c, queue.holder = some c ↔ l ∈ (s.cores c).held
  waits : ∀ c, c ∈ queue.waiting ↔ ∃ ticket, (s.cores c).phase = .grabbing l ticket
  tickets : ∀ c (i : Nat) ticket, queue.waiting[i]? = some c →
    (s.cores c).phase = .grabbing l ticket →
    ticket = wrap ((s.spinlocks l).current + (queue.holder.toList.length + i))
  nodup : queue.waiting.Nodup
  loaded : ∀ c current, (s.cores c).phase = .ungrabbing l current →
    l ∈ (s.cores c).held ∧ current = (s.spinlocks l).current

section Frames

variable {s : State Core Lock} {c c' : Core} {l l' : Lock} {core : CoreState Lock}
  {queue : FifoLock.Lock Core}

theorem Queued.setSpinlock_of_ne [DecidableEq Lock] (h : Queued s l queue) (hNe : l ≠ l')
    (spinlock : ThreadSpinlock) :
    Queued (s.setSpinlock l' spinlock) l queue := by
  have hSame : (s.setSpinlock l' spinlock).spinlocks l = s.spinlocks l :=
    Function.update_of_ne hNe _ _
  refine ⟨?_, ?_, h.holder, h.waits, ?_, h.nodup, ?_⟩
  · rw [hSame]
    exact h.word
  · rw [hSame]
    exact h.allocated
  · rw [hSame]
    exact h.tickets
  · rw [hSame]
    exact h.loaded

theorem Queued.park (h : Queued s l queue) (place : Nat) (saved : List Bool) :
    Queued (s.park place saved) l queue :=
  ⟨h.word, h.allocated, h.holder, h.waits, h.tickets, h.nodup, h.loaded⟩

variable [DecidableEq Core]

/-- A core changes and has as much to do with the lock as before. -/
theorem Queued.setCore (h : Queued s l queue) (hHeld : l ∈ core.held ↔ l ∈ (s.cores c).held)
    (hGrabbing : ∀ ticket, core.phase = .grabbing l ticket ↔
      (s.cores c).phase = .grabbing l ticket)
    (hLoaded : ∀ current, core.phase = .ungrabbing l current →
      l ∈ core.held ∧ current = (s.spinlocks l).current) :
    Queued (s.setCore c core) l queue := by
  have hPhase : ∀ c' ticket, ((s.setCore c core).cores c').phase = .grabbing l ticket ↔
      (s.cores c').phase = .grabbing l ticket := by
    intro c' ticket
    by_cases hEq : c' = c
    · subst hEq
      rw [cores_setCore_self]
      exact hGrabbing ticket
    · rw [cores_setCore_of_ne hEq]
  refine ⟨h.word, h.allocated, fun c' => ?_, fun c' => ?_, fun c' i ticket hAt hTicket => ?_,
    h.nodup, fun c' current hCurrent => ?_⟩
  · rw [h.holder]
    by_cases hEq : c' = c
    · subst hEq
      rw [cores_setCore_self, hHeld]
    · rw [cores_setCore_of_ne hEq]
  · rw [h.waits]
    exact exists_congr fun ticket => (hPhase c' ticket).symm
  · exact h.tickets c' i ticket hAt ((hPhase c' ticket).mp hTicket)
  · by_cases hEq : c' = c
    · subst hEq
      rw [cores_setCore_self] at hCurrent ⊢
      exact hLoaded current hCurrent
    · rw [cores_setCore_of_ne hEq] at hCurrent ⊢
      exact h.loaded c' current hCurrent

/-- A core whose locks and phase stay. -/
theorem Queued.setCore_same (h : Queued s l queue) (hHeld : core.held = (s.cores c).held)
    (hPhase : core.phase = (s.cores c).phase) : Queued (s.setCore c core) l queue := by
  refine h.setCore (by rw [hHeld]) (fun ticket => by rw [hPhase]) fun current hCurrent => ?_
  rw [hPhase] at hCurrent
  rw [hHeld]
  exact h.loaded c current hCurrent

end Frames

section Queue

variable {s : State Core Lock} {c : Core} {l : Lock} {queue : FifoLock.Lock Core} {ticket : Nat}

theorem Queued.length_le [Fintype Core] (h : Queued s l queue) :
    queue.waiting.length ≤ Fintype.card Core := h.nodup.length_le_card

/-- The test of a waiting core succeeds exactly when the lock is free and no other core has
waited longer. -/
theorem Queued.served_iff [Fintype Core] (hFew : Fintype.card Core < 2 ^ 64)
    (h : Queued s l queue) (hPhase : (s.cores c).phase = .grabbing l ticket) :
    (s.spinlocks l).current = ticket ↔ queue.holder = none ∧ queue.waiting.head? = some c := by
  constructor
  · intro hServed
    obtain ⟨i, hIndex⟩ := List.mem_iff_getElem?.mp ((h.waits c).mpr ⟨ticket, hPhase⟩)
    have hTicket := h.tickets c i ticket hIndex hPhase
    have hLength := h.length_le
    have hWord := h.word
    have hBelow : i < queue.waiting.length := (List.getElem?_eq_some_iff.mp hIndex).1
    cases hHolder : queue.holder with
    | none =>
        rw [hHolder] at hTicket
        simp only [Option.toList_none, List.length_nil, wrap] at hTicket
        have hFirst : i = 0 := by omega
        rw [hFirst] at hIndex
        exact ⟨rfl, by rwa [List.head?_eq_getElem?]⟩
    | some c' =>
        rw [hHolder] at hTicket
        simp only [Option.toList_some, List.length_singleton, wrap] at hTicket
        omega
  · rintro ⟨hFree, hFirst⟩
    rw [List.head?_eq_getElem?] at hFirst
    have hTicket := h.tickets c 0 ticket hFirst hPhase
    rw [hFree] at hTicket
    rw [hTicket]
    exact (Nat.mod_eq_of_lt h.word).symm

variable [DecidableEq Core]

/-- The first of the queue enters a free lock. -/
theorem Queued.enter (h : Queued s l queue) (hFree : queue.holder = none) {rest : List Core}
    (hFirst : queue.waiting = c :: rest) :
    Queued (s.setCore c { s.cores c with held := l :: (s.cores c).held, phase := .running }) l
      ⟨some c, rest⟩ := by
  have hNodup := h.nodup
  rw [hFirst, List.nodup_cons] at hNodup
  refine ⟨h.word, ?_, fun c' => ?_, fun c' => ?_, fun c' i ticket hAt hTicket => ?_, hNodup.2,
    fun c' current hCurrent => ?_⟩
  · have hAllocated := h.allocated
    rw [hFree, hFirst] at hAllocated
    simp only [State.setCore, hAllocated, Option.toList_none, Option.toList_some, List.length_nil,
      List.length_cons, wrap]
    omega
  · by_cases hEq : c' = c
    · subst hEq
      rw [cores_setCore_self]
      exact iff_of_true rfl (List.mem_cons_self ..)
    · rw [cores_setCore_of_ne hEq, ← h.holder, hFree]
      exact iff_of_false (fun hSome => hEq (Option.some.inj hSome).symm) (by simp)
  · by_cases hEq : c' = c
    · subst hEq
      rw [cores_setCore_self]
      refine iff_of_false hNodup.1 ?_
      rintro ⟨_, hRunning⟩
      cases hRunning
    · rw [cores_setCore_of_ne hEq, ← h.waits, hFirst, List.mem_cons]
      simp [hEq]
  · have hNe : c' ≠ c := fun hEq => hNodup.1 (hEq ▸ List.mem_of_getElem? hAt)
    rw [cores_setCore_of_ne hNe] at hTicket
    have hOld := h.tickets c' (i + 1) ticket (by rw [hFirst, List.getElem?_cons_succ, hAt]) hTicket
    rw [hFree] at hOld
    rw [hOld]
    simp only [State.setCore, Option.toList_none, Option.toList_some, List.length_nil,
      List.length_singleton, wrap]
    omega
  · by_cases hEq : c' = c
    · subst hEq
      rw [cores_setCore_self] at hCurrent
      cases hCurrent
    · rw [cores_setCore_of_ne hEq] at hCurrent ⊢
      exact h.loaded c' current hCurrent

variable [DecidableEq Lock]

/-- A core takes a ticket and is the last in the queue. -/
theorem Queued.request (h : Queued s l queue) (hPhase : (s.cores c).phase = .running) :
    Queued ((s.setSpinlock l (fetchIncrement (s.spinlocks l)).2).setCore c
        { s.cores c with phase := .grabbing l (fetchIncrement (s.spinlocks l)).1 }) l
      { queue with waiting := queue.waiting ++ [c] } := by
  have hNot : c ∉ queue.waiting := by
    rw [h.waits, hPhase]
    rintro ⟨_, hEq⟩
    cases hEq
  refine ⟨?_, ?_, fun c' => ?_, fun c' => ?_, fun c' i ticket hAt hTicket => ?_, ?_,
    fun c' current hCurrent => ?_⟩
  · simp only [State.setCore, State.setSpinlock, Function.update_self]
    exact h.word
  · simp only [State.setCore, State.setSpinlock, Function.update_self, fetchIncrement, h.allocated,
      List.length_append, List.length_singleton, wrap]
    omega
  · rw [h.holder]
    by_cases hEq : c' = c
    · subst hEq
      rw [cores_setCore_self]
    · rw [cores_setCore_of_ne hEq]
      rfl
  · rw [List.mem_append, List.mem_singleton, h.waits]
    by_cases hEq : c' = c
    · subst hEq
      rw [cores_setCore_self]
      exact iff_of_true (Or.inr rfl) ⟨_, rfl⟩
    · rw [cores_setCore_of_ne hEq]
      simp [hEq, State.setSpinlock]
  · simp only [State.setCore, State.setSpinlock, Function.update_self]
    rcases Nat.lt_or_ge i queue.waiting.length with hOld | hNew
    · rw [List.getElem?_append_left hOld] at hAt
      have hNe : c' ≠ c := fun hEq => hNot (hEq ▸ List.mem_of_getElem? hAt)
      rw [cores_setCore_of_ne hNe] at hTicket
      exact h.tickets c' i ticket hAt hTicket
    · rw [List.getElem?_append_right hNew, List.getElem?_singleton] at hAt
      split_ifs at hAt with hLast
      obtain rfl := Option.some.inj hAt
      rw [cores_setCore_self] at hTicket
      simp only [Phase.grabbing.injEq, true_and] at hTicket
      have hIndex : i = queue.waiting.length := by omega
      rw [← hTicket, fetchIncrement, h.allocated, hIndex]
  · refine List.nodup_append.mpr ⟨h.nodup, List.nodup_singleton c, fun c' hMem d hd hEq => ?_⟩
    rw [List.mem_singleton.mp hd] at hEq
    exact hNot (hEq ▸ hMem)
  · by_cases hEq : c' = c
    · subst hEq
      rw [cores_setCore_self] at hCurrent
      cases hCurrent
    · rw [cores_setCore_of_ne hEq] at hCurrent ⊢
      simp only [State.setCore, State.setSpinlock, Function.update_self]
      exact h.loaded c' current hCurrent

/-- The holder serves the next ticket. -/
theorem Queued.leave (h : Queued s l queue) {current : Nat}
    (hPhase : (s.cores c).phase = .ungrabbing l current) :
    Queued ((s.setSpinlock l { s.spinlocks l with current := wrap (current + 1) }).setCore c
        { s.cores c with held := (s.cores c).held.filter (· ≠ l), phase := .running }) l
      { queue with holder := none } := by
  obtain ⟨hHeld, hCurrent⟩ := h.loaded c current hPhase
  have hHolder : queue.holder = some c := (h.holder c).mpr hHeld
  have hOther : ∀ c', c' ≠ c → l ∉ (s.cores c').held := by
    intro c' hNe hMem
    exact hNe (Option.some.inj (((h.holder c').mpr hMem).symm.trans hHolder))
  have hAllocated := h.allocated
  rw [hHolder] at hAllocated
  refine ⟨?_, ?_, fun c' => ?_, fun c' => ?_, fun c' i ticket hAt hTicket => ?_, h.nodup,
    fun c' found hFound => ?_⟩
  · simp only [State.setCore, State.setSpinlock, Function.update_self]
    exact Nat.mod_lt _ (by decide)
  · simp only [State.setCore, State.setSpinlock, Function.update_self, hAllocated, hCurrent,
      Option.toList_none, Option.toList_some, List.length_nil, List.length_singleton, wrap]
    omega
  · refine iff_of_false (by simp) ?_
    by_cases hEq : c' = c
    · subst hEq
      simp
    · rw [cores_setCore_of_ne hEq]
      exact hOther c' hEq
  · rw [h.waits]
    by_cases hEq : c' = c
    · subst hEq
      rw [cores_setCore_self, hPhase]
      refine iff_of_false ?_ ?_
      · rintro ⟨_, hGrabbing⟩
        cases hGrabbing
      · rintro ⟨_, hRunning⟩
        cases hRunning
    · rw [cores_setCore_of_ne hEq]
      rfl
  · have hNe : c' ≠ c := by
      rintro rfl
      rw [cores_setCore_self] at hTicket
      cases hTicket
    rw [cores_setCore_of_ne hNe] at hTicket
    have hOld := h.tickets c' i ticket hAt hTicket
    rw [hHolder] at hOld
    rw [hOld]
    simp only [State.setCore, State.setSpinlock, Function.update_self, hCurrent,
      Option.toList_none, Option.toList_some, List.length_nil, List.length_singleton, wrap]
    omega
  · by_cases hEq : c' = c
    · subst hEq
      rw [cores_setCore_self] at hFound
      cases hFound
    · rw [cores_setCore_of_ne hEq] at hFound
      exact (hOther c' hEq (h.loaded c' found hFound).1).elim

end Queue

section Runs

variable [DecidableEq Core] [DecidableEq Lock] {s s' : State Core Lock}
  {event : Event Core Lock} {locks : Lock → FifoLock.Lock Core} {l : Lock}

/-- A step that no queue sees. -/
theorem Queued.silent {queue : FifoLock.Lock Core} (h : Queued s l queue) (hStep : Step s event s')
    (hVisible : event.visible = none) : Queued s' l queue := by
  cases hStep with
  | elevate => exact h.setCore_same rfl rfl
  | recover => exact h.setCore_same (held_intlevelRecover _ _) (phase_intlevelRecover _ _)
  | ticket => cases hVisible
  | spin => exact h
  | enter => cases hVisible
  | @load c l' hPhase hHeld =>
      refine h.setCore Iff.rfl (fun ticket => ?_) fun current hCurrent => ?_
      · rw [hPhase]
        exact iff_of_false (fun hEq => by cases hEq) fun hEq => by cases hEq
      · cases hCurrent
        exact ⟨hHeld, rfl⟩
  | store => cases hVisible
  | interrupts => exact h.setCore_same rfl rfl
  | switch => exact (h.park _ _).setCore_same rfl rfl

/-- A step on one lock leaves the queues of the others alone. -/
theorem Queued.elsewhere {queue : FifoLock.Lock Core} (h : Queued s l queue)
    (hStep : Step s event s') {seen : FifoLock.Event Core Lock}
    (hVisible : event.visible = some seen) (hNe : l ≠ seen.key) : Queued s' l queue := by
  cases hStep with
  | @ticket c l' hPhase =>
      cases hVisible
      refine (h.setSpinlock_of_ne hNe _).setCore Iff.rfl (fun ticket => ?_) fun current hEq => ?_
      · refine iff_of_false (fun hEq => hNe (by cases hEq; rfl)) fun hEq => ?_
        cases hPhase.symm.trans hEq
      · cases hEq
  | @enter c l' ticket hPhase hServed =>
      cases hVisible
      refine h.setCore ?_ (fun ticket => ?_) fun current hEq => ?_
      · rw [List.mem_cons]
        exact or_iff_right hNe
      · rw [hPhase]
        exact iff_of_false (fun hEq => by cases hEq) fun hEq => hNe (by cases hEq; rfl)
      · cases hEq
  | @store c l' current hPhase =>
      cases hVisible
      refine (h.setSpinlock_of_ne hNe _).setCore ?_ (fun ticket => ?_) fun current hEq => ?_
      · rw [List.mem_filter]
        exact and_iff_left (decide_eq_true hNe)
      · refine iff_of_false (fun hEq => by cases hEq) fun hEq => ?_
        cases hPhase.symm.trans hEq
      · cases hEq
  | _ => cases hVisible

/-- A step on a lock is one on its queue. -/
theorem follow [Fintype Core] (hFew : Fintype.card Core < 2 ^ 64)
    (h : ∀ l, Queued s l (locks l)) (hStep : Step s event s')
    {seen : FifoLock.Event Core Lock} (hVisible : event.visible = some seen) :
    ∃ locks', FifoLock.Step locks seen locks' ∧ ∀ l, Queued s' l (locks' l) := by
  have hElsewhere : ∀ queue l, l ≠ seen.key →
      Queued s' l (Function.update locks seen.key queue l) := by
    intro queue l hNe
    rw [Function.update_of_ne hNe]
    exact (h l).elsewhere hStep hVisible hNe
  cases hStep with
  | @ticket c l hPhase =>
      cases hVisible
      refine ⟨_, .request, fun l' => ?_⟩
      by_cases hEq : l' = l
      · subst hEq
        rw [Function.update_self]
        exact (h l').request hPhase
      · exact hElsewhere _ l' hEq
  | @enter c l ticket hPhase hServed =>
      cases hVisible
      obtain ⟨hFree, hFirst⟩ := ((h l).served_iff hFew hPhase).mp hServed
      obtain ⟨rest, hRest⟩ := List.head?_eq_some_iff.mp hFirst
      refine ⟨_, .enter hFree hRest, fun l' => ?_⟩
      by_cases hEq : l' = l
      · subst hEq
        rw [Function.update_self]
        exact (h l').enter hFree hRest
      · exact hElsewhere _ l' hEq
  | @store c l current hPhase =>
      cases hVisible
      refine ⟨_, .leave (((h l).holder c).mpr ((h l).loaded c current hPhase).1), fun l' => ?_⟩
      by_cases hEq : l' = l
      · subst hEq
        rw [Function.update_self]
        exact (h l').leave hPhase
      · exact hElsewhere _ l' hEq
  | _ => cases hVisible

theorem queued_init (hInit : system.init s) (l : Lock) : Queued s l ⟨none, []⟩ := by
  obtain ⟨hWords, hCores, -⟩ := hInit
  refine ⟨?_, ?_, fun c => ?_, fun c => ?_, fun c i ticket hAt => ?_, List.nodup_nil,
    fun c current hPhase => ?_⟩
  · rw [hWords]
    decide
  · rw [hWords]
    rfl
  · rw [(hCores c).1]
    simp
  · rw [(hCores c).2.2]
    simp
  · simp at hAt
  · cases (hCores c).2.2.symm.trans hPhase

end Runs

/-- With fewer cores than a word has values, every run of the spinlocks is one of locks that are
handed over in the order of the requests. The holder has the lock, those in the queue wait for
it, and the test of one that waits succeeds exactly when the lock is free and it is the first. -/
theorem spinlocks_hand_over_in_order [DecidableEq Core] [DecidableEq Lock] [Fintype Core]
    (hFew : Fintype.card Core < 2 ^ 64) {trace : List (Event Core Lock)} {s : State Core Lock}
    (run : system.Execution trace s) :
    ∃ locks : Lock → FifoLock.Lock Core,
      FifoLock.system.Execution (trace.filterMap Event.visible) locks ∧
      (∀ l c, l ∈ (s.cores c).held ↔ (locks l).holder = some c) ∧
      (∀ l c, (∃ ticket, (s.cores c).phase = .grabbing l ticket) ↔ c ∈ (locks l).waiting) ∧
      (∀ l c ticket, (s.cores c).phase = .grabbing l ticket →
        ((s.spinlocks l).current = ticket ↔
          (locks l).holder = none ∧ (locks l).waiting.head? = some c)) ∧
      ∀ l, FifoLock.requests l (trace.filterMap Event.visible) =
          FifoLock.entries l (trace.filterMap Event.visible) ++ (locks l).waiting ∧
        FifoLock.entries l (trace.filterMap Event.visible) =
          FifoLock.exits l (trace.filterMap Event.visible) ++ (locks l).holder.toList := by
  obtain ⟨locks, fifoRun, hQueued⟩ := run.observe (A := FifoLock.system)
    (R := fun s (locks : Lock → FifoLock.Lock Core) => ∀ l, Queued s l (locks l))
    (fun s hInit => ⟨_, rfl, queued_init hInit⟩)
    (fun s locks event s' h hStep hVisible l => (h l).silent hStep hVisible)
    fun s locks event s' seen h hStep hVisible => follow hFew h hStep hVisible
  exact ⟨locks, fifoRun, fun l c => ((hQueued l).holder c).symm,
    fun l c => ((hQueued l).waits c).symm, fun l c ticket => (hQueued l).served_iff hFew,
    FifoLock.entered_in_order fifoRun⟩

/-- Two cores want one lock. The second one waits, and has it when the first one has left. -/
theorem spinlocks_hand_over_in_order_two_cores :
    ∃ (trace : List (Event (Fin 2) Unit)) (s : State (Fin 2) Unit), system.Execution trace s ∧
      Event.spin 1 () ∈ trace ∧ () ∈ (s.cores 1).held ∧ () ∉ (s.cores 0).held := by
  have start : system.Execution []
      (⟨fun _ => threadSpinlockInit, fun _ => ⟨true, [], [], .running⟩, []⟩ :
        State (Fin 2) Unit) :=
    .start ⟨fun _ => rfl, fun _ => ⟨rfl, rfl, rfl⟩, by simp⟩
  have asked₀ := start.step (Step.ticket (c := 0) (l := ()) rfl)
  have asked₁ := asked₀.step (Step.ticket (c := 1) (l := ()) rfl)
  have entered₀ := asked₁.step (Step.enter (c := 0) (l := ()) rfl rfl)
  have waited₁ := entered₀.step (Step.spin (c := 1) (l := ()) rfl (by decide))
  have loaded₀ := waited₁.step (Step.load (c := 0) (l := ()) rfl (by decide))
  have left₀ := loaded₀.step (Step.store (c := 0) (l := ()) rfl)
  have run := left₀.step (Step.enter (c := 1) (l := ()) rfl rfl)
  obtain ⟨locks, -, hHeld, -, -, hOrder⟩ := spinlocks_hand_over_in_order (by decide) run
  have hEntries : [0] ++ [1] = [0] ++ (locks ()).holder.toList := (hOrder ()).2
  have hHolder : (locks ()).holder = some 1 := by
    simpa using (List.append_cancel_left hEntries).symm
  refine ⟨_, _, run, by simp, (hHeld () 1).mpr hHolder, fun hMem => ?_⟩
  cases hHolder.symm.trans ((hHeld () 0).mp hMem)

end Ricerca.Spinlock
