import Ricerca.Mem.InvtlbCountdown

/-! When the countdown can be trusted. It counts the cores that have not acknowledged the
last request, if no core was due at the request; but an acknowledgement says little about the
TLB of the core that gives it. -/
namespace Ricerca.Invtlb

open Ricerca.Foundation

variable {cpus : Nat} {s s' : State cpus} {core other : Fin cpus}

/-- A request is made when no core is due for the one before. Only a core that enters idle
completes the countdown, when no core is about to write its `cr3` and the requesting core has
executed `wrcr3` or entered idle since. A core that leaves idle goes on with another `cr3`. -/
def Careful (s : State cpus) : Fin cpus × Action → Prop
  | (_, .request) => ∀ core, ¬Due s core
  | (_, .count) => s.pendingTlbUpdates ≠ 1
  | (core, .idleEnter) => s.states core = s.pendingState → s.pendingTlbUpdates = 1 →
      (∀ other, s.phase other ≠ .writing) ∧
      ∀ requester, s.requester = some requester → (s.history requester).settled = true
  | (core, .updateCr3 oldCr3 newCr3) => s.phase core = .woken → oldCr3 ≠ newCr3
  | _ => True

/-- The phases in which a core can owe a `wrcr3`. -/
def MayOwe : Phase → Prop
  | .idle | .woken | .writing | .counting (.updateCr3 _ _) => True
  | .loading (.updateCr3 oldCr3 newCr3) | .comparing (.updateCr3 oldCr3 newCr3) _ => oldCr3 ≠ newCr3
  | _ => False

/-- The core is in `mem_virt_invtlb_request` and has not acknowledged its own request. -/
def Asking : Phase → Prop
  | .loading .request | .comparing .request _ | .counting .request => True
  | _ => False

/-- What a core that has not settled waits for: it is due, it is about to write its `cr3`, or
it has made the request. -/
def Waits (s : State cpus) (core : Fin cpus) : Prop :=
  Due s core ∨ s.phase core = .writing ∨ s.requester = some core

/-- The invariant of the histories. -/
structure Flushed (s : State cpus) : Prop where
  fresh : s.requester = none → ∀ core, (s.history core).active = false
  updating : ∀ core caller, s.phase core ≠ .updating caller
  unsettled : ∀ core, (s.history core).active = true → (s.history core).settled = false →
    s.phase core ≠ .idle ∧ Waits s core
  asking : ∀ core, Asking (s.phase core) → s.requester = some core ∧ Due s core
  late : s.late = []
  owes : ∀ core, (s.history core).owes = true → MayOwe (s.phase core)

/-- A core that runs a task may not owe a `wrcr3`. -/
theorem Flushed.noStaleTlb (h : Flushed s) : NoStaleTlb s := by
  refine ⟨h.late, fun core hRunning => ?_⟩
  by_contra hOwes
  have hMay := h.owes core (by simpa using hOwes)
  rw [hRunning] at hMay
  exact hMay

section Flushing

theorem waits_of_ne (hAlone : Alone core s s') (hNe : other ≠ core) : Waits s' other ↔ Waits s other := by
  rw [Waits, Waits, due_of_ne hAlone hNe, hAlone.phase other hNe, hAlone.requester]

/-- A core goes on, in a phase that owes at least as much, and writes no history. -/
theorem Flushed.proceed (h : Flushed s) (hAlone : Alone core s s') (hHistory : s'.history = s.history)
    (hLate : s'.late = s.late) (hTo : s'.phase core ≠ .idle)
    (hUpdating : ∀ caller, s'.phase core ≠ .updating caller)
    (hWaits : Waits s core → Waits s' core)
    (hAsking : Asking (s'.phase core) → Asking (s.phase core) ∧ Due s' core)
    (hOwes : MayOwe (s.phase core) → MayOwe (s'.phase core)) : Flushed s' := by
  refine ⟨fun hNone => ?_, fun other caller => ?_, fun other hActive hSettled => ?_,
    fun other hAsks => ?_, hLate.trans h.late, fun other hOther => ?_⟩
  · rw [hHistory]
    exact h.fresh (hAlone.requester.symm.trans hNone)
  · by_cases hEq : other = core
    · exact hEq ▸ hUpdating caller
    · rw [hAlone.phase other hEq]
      exact h.updating other caller
  · rw [hHistory] at hActive hSettled
    obtain ⟨hBusy, hOld⟩ := h.unsettled other hActive hSettled
    by_cases hEq : other = core
    · subst hEq
      exact ⟨hTo, hWaits hOld⟩
    · rw [hAlone.phase other hEq, waits_of_ne hAlone hEq]
      exact ⟨hBusy, hOld⟩
  · rw [hAlone.requester]
    by_cases hEq : other = core
    · subst hEq
      obtain ⟨hOld, hDue⟩ := hAsking hAsks
      exact ⟨(h.asking other hOld).1, hDue⟩
    · rw [hAlone.phase other hEq] at hAsks
      rw [due_of_ne hAlone hEq]
      exact h.asking other hAsks
  · rw [hHistory] at hOther
    by_cases hEq : other = core
    · subst hEq
      exact hOwes (h.owes other hOther)
    · rw [hAlone.phase other hEq]
      exact h.owes other hOther

/-- A core goes from phase to phase without an acknowledgement. -/
theorem Flushed.goto {phase : Phase} (h : Flushed s) (hFrom : s.phase core ≠ .writing)
    (hCounts : (s.phase core).counts = false) (hTo : phase ≠ .idle)
    (hUpdating : ∀ caller, phase ≠ .updating caller)
    (hAsking : Asking phase → Asking (s.phase core))
    (hOwes : MayOwe (s.phase core) → MayOwe phase) : Flushed (s.goto core phase) := by
  have hDue : Due s core → Due (s.goto core phase) core := by
    rintro (hState | hStill)
    · exact .inl hState
    · exact Bool.noConfusion (hCounts.symm.trans hStill)
  refine h.proceed Alone.refl.goto rfl rfl ?_ ?_ ?_ ?_ ?_ <;> try rw [State.goto_phase_self]
  · exact hTo
  · exact hUpdating
  · rintro (hOld | hWriting | hRequester)
    · exact .inl (hDue hOld)
    · exact (hFrom hWriting).elim
    · exact .inr (.inr hRequester)
  · intro hAsks
    exact ⟨hAsking hAsks, hDue (h.asking core (hAsking hAsks)).2⟩
  · exact hOwes

/-- A core that has stored its entry is still due. -/
theorem Flushed.store {caller : Caller} {pendingState : Nat} (h : Flushed s)
    (hFrom : s.phase core = .comparing caller pendingState) :
    Flushed ((memVirtInvtlbAckStore s core pendingState).goto core (.counting caller)) := by
  have hDue : Due ((memVirtInvtlbAckStore s core pendingState).goto core (.counting caller)) core := by
    refine .inr ?_
    rw [State.goto_phase_self]
    rfl
  refine h.proceed alone_store.goto rfl rfl ?_ ?_ (fun _ => .inl hDue) ?_ ?_ <;>
    rw [State.goto_phase_self]
  · simp
  · simp
  · intro hAsks
    rw [hFrom]
    cases caller with
    | request => exact ⟨trivial, hDue⟩
    | updateCr3 oldCr3 newCr3 => exact hAsks.elim
  · rw [hFrom]
    cases caller with
    | request => exact id
    | updateCr3 oldCr3 newCr3 => exact fun _ => trivial

/-- A core that counts down outside the lock is about to write its `cr3`, or is the one
that has made the request. -/
theorem Flushed.counted {caller : Caller} (h : Flushed s) (hFrom : s.phase core = .counting caller)
    (hLeft : coresLeft s ≠ 0) :
    Flushed ((memVirtInvtlbAckCount s).2.goto core
      (afterAck caller (memVirtInvtlbAckCount s).1)) := by
  have hStatus : (memVirtInvtlbAckCount s).1 = .flushCr3 := if_neg hLeft
  rw [hStatus]
  refine h.proceed alone_count.goto rfl rfl ?_ ?_ (fun _ => ?_) ?_ ?_
  · rw [State.goto_phase_self]
    exact afterAck_ne_idle _ _
  · rw [State.goto_phase_self]
    cases caller <;> simp [afterAck]
  · cases caller with
    | request => exact .inr (.inr (h.asking core (by rw [hFrom]; trivial)).1)
    | updateCr3 oldCr3 newCr3 => exact .inr (.inl State.goto_phase_self)
  · rw [State.goto_phase_self]
    cases caller <;> simp [afterAck, Asking]
  · rw [State.goto_phase_self, hFrom]
    cases caller with
    | request => exact id
    | updateCr3 oldCr3 newCr3 => exact fun _ => trivial

/-- What one core does to its own history and phase. -/
theorem Flushed.update {history : History} (h : Flushed s) (hAlone : Alone core s s')
    (hLate : s'.late = []) (hHistory : s'.history = Function.update s.history core history)
    (hActive : history.active = (s.history core).active)
    (hSettled : history.active = true → history.settled = true)
    (hUpdating : ∀ caller, s'.phase core ≠ .updating caller) (hAsking : ¬Asking (s'.phase core))
    (hOwes : history.owes = true → MayOwe (s'.phase core)) : Flushed s' := by
  have hOwn : s'.history core = history := by rw [hHistory, Function.update_self]
  have hRest : ∀ other, other ≠ core → s'.history other = s.history other :=
    fun other hNe => by rw [hHistory, Function.update_of_ne hNe]
  refine ⟨fun hNone other => ?_, fun other caller => ?_, fun other hAct hSet => ?_,
    fun other hAsks => ?_, hLate, fun other hOwe => ?_⟩ <;> by_cases hEq : other = core
  · rw [hEq, hOwn, hActive]
    exact h.fresh (hAlone.requester.symm.trans hNone) core
  · rw [hRest other hEq]
    exact h.fresh (hAlone.requester.symm.trans hNone) other
  · exact hEq ▸ hUpdating caller
  · rw [hAlone.phase other hEq]
    exact h.updating other caller
  · rw [hEq, hOwn] at hAct hSet
    rw [hSettled hAct] at hSet
    cases hSet
  · rw [hRest other hEq] at hAct hSet
    rw [hAlone.phase other hEq, waits_of_ne hAlone hEq]
    exact h.unsettled other hAct hSet
  · exact (hAsking (hEq ▸ hAsks)).elim
  · rw [hAlone.phase other hEq] at hAsks
    rw [hAlone.requester, due_of_ne hAlone hEq]
    exact h.asking other hAsks
  · rw [hEq, hOwn] at hOwe
    rw [hEq]
    exact hOwes hOwe
  · rw [hRest other hEq] at hOwe
    rw [hAlone.phase other hEq]
    exact h.owes other hOwe

theorem Flushed.wrote (h : Flushed s) : Flushed ((wrcr3 s core).goto core .running) := by
  refine h.update alone_wrcr3.goto h.late rfl rfl (fun _ => rfl) ?_ ?_ ?_ <;>
    simp [Asking]

theorem Flushed.exited (h : Flushed s) (hFrom : s.phase core = .idle) :
    Flushed (memVirtInvtlbOnIdleExit s core) := by
  have hHistory : (memVirtInvtlbOnIdleExit s core).history =
      Function.update s.history core (s.history core) := (Function.update_eq_self ..).symm
  have hPhase : (memVirtInvtlbOnIdleExit s core).phase core = .woken := Function.update_self ..
  refine h.update alone_idleExit h.late hHistory rfl (fun hActive => ?_) (by simp [hPhase])
    (by simp [hPhase, Asking]) (by simp [hPhase, MayOwe])
  by_contra hSettled
  exact (h.unsettled core hActive (by simpa using hSettled)).1 hFrom

/-- All cores that are not idle are asked to acknowledge. -/
theorem Flushed.asked (h : Flushed s) (hShape : Shape s) (hFrom : s.phase core = .running)
    (hAcked : ∀ core, ¬Due s core) : Flushed (s.asked core) := by
  have hBusy : s.phase core ≠ .idle := by simp [hFrom]
  refine ⟨fun hNone => (by cases hNone), fun other caller => ?_, fun other hActive _ => ?_,
    fun other hAsks => ?_, h.late, fun other hOwe => ?_⟩
  · by_cases hEq : other = core
    · rw [hEq, State.asked_phase_self]
      simp
    · rw [State.asked_phase_of_ne hEq]
      exact h.updating other caller
  · have hPhase : s.phase other ≠ .idle := by simpa [State.asked] using hActive
    exact ⟨fun hIdle => hPhase ((State.asked_idle hBusy).mp hIdle),
      .inl ((hShape.asked_due hAcked).mpr hPhase)⟩
  · by_cases hEq : other = core
    · rw [hEq]
      exact ⟨rfl, (hShape.asked_due hAcked).mpr hBusy⟩
    · rw [State.asked_phase_of_ne hEq] at hAsks
      exact (hAcked other (h.asking other hAsks).2).elim
  · simp only [State.asked, Bool.or_eq_true, decide_eq_true_eq] at hOwe
    by_cases hEq : other = core
    · subst hEq
      rcases hOwe with hIdle | hOwe
      · exact (hBusy hIdle).elim
      · have hOld := h.owes other hOwe
        rw [hFrom] at hOld
        exact hOld.elim
    · rw [State.asked_phase_of_ne hEq]
      rcases hOwe with hIdle | hOwe
      · rw [hIdle]
        trivial
      · exact h.owes other hOwe

/-- Everybody else is settled when the last core on the countdown enters idle. -/
theorem Flushed.late_settle (h : Flushed s) (hShape : Shape s) (hCounted : Counted s)
    (hMatch : s.states core = s.pendingState) (hLast : s.pendingTlbUpdates = 1)
    (hWriting : ∀ other, s.phase other ≠ .writing)
    (hRequester : ∀ requester, s.requester = some requester →
      (s.history requester).settled = true) :
    (memVirtInvtlbGenUpdateNolock ((s.acked core).settle core)).late = [] := by
  have hNone : (List.finRange cpus).filter (fun other =>
      (((s.acked core).settle core).history other).active &&
        !(((s.acked core).settle core).history other).settled) = [] := by
    rw [List.filter_eq_nil_iff]
    intro other _ hLate
    simp only [Bool.and_eq_true, Bool.not_eq_true'] at hLate
    obtain ⟨hActive, hSettled⟩ := hLate
    by_cases hEq : other = core
    · simp [hEq, State.settle] at hSettled
    · simp only [State.settle, Function.update_of_ne hEq] at hActive hSettled
      rcases (h.unsettled other hActive hSettled).2 with hDue | hPhase | hSelf
      · have hSome : s.requester.isSome := by
          by_contra hNo
          have hFresh := h.fresh (by simpa using hNo) other
          exact Bool.noConfusion (hFresh.symm.trans hActive)
        have hCard := hCounted.count_eq hShape hSome
        rw [hLast] at hCard
        obtain ⟨only, hOnly⟩ := Finset.card_eq_one.mp hCard.symm
        have hCore : core = only := by
          rw [← Finset.mem_singleton, ← hOnly, mem_due]
          exact .inl hMatch
        have hOther : other = only := by
          rw [← Finset.mem_singleton, ← hOnly, mem_due]
          exact hDue
        exact hEq (hOther.trans hCore.symm)
      · exact hWriting other hPhase
      · exact Bool.noConfusion (hSettled.symm.trans (hRequester other hSelf))
  simp only [memVirtInvtlbGenUpdateNolock]
  rw [hNone, List.append_nil]
  exact h.late

theorem coresLeft_eq_zero (hBound : s.pendingTlbUpdates < 2 ^ 64) :
    coresLeft s = 0 ↔ s.pendingTlbUpdates = 1 := by
  rw [coresLeft, wrap]
  omega

theorem Flushed.entered (h : Flushed s) (hShape : Shape s) (hCounted : Counted s)
    (hCareful : Careful s (core, .idleEnter)) : Flushed (memVirtInvtlbOnIdleEnter s core) := by
  have hAlone : Alone core s (memVirtInvtlbOnIdleEnter s core) := alone_idleEnter
  have hPhase : (memVirtInvtlbOnIdleEnter s core).phase core = .idle :=
    memVirtInvtlbOnIdleEnter_phase_self
  by_cases hMatch : s.states core = s.pendingState
  · rw [memVirtInvtlbOnIdleEnter_of_eq hMatch] at hAlone hPhase ⊢
    split_ifs at hAlone hPhase ⊢ with hZero
    · have hLast := (coresLeft_eq_zero hShape.bound).mp hZero
      obtain ⟨hWriting, hRequester⟩ := hCareful hMatch hLast
      have hLate := h.late_settle hShape hCounted hMatch hLast hWriting hRequester
      refine h.update hAlone hLate rfl rfl (fun _ => rfl) ?_ ?_ ?_ <;>
        simp [hPhase, Asking, MayOwe]
    · refine h.update hAlone h.late rfl rfl (fun _ => rfl) ?_ ?_ ?_ <;>
        simp [hPhase, Asking, MayOwe]
  · rw [memVirtInvtlbOnIdleEnter_of_ne hMatch] at hAlone hPhase ⊢
    refine h.update hAlone h.late rfl rfl (fun _ => rfl) ?_ ?_ ?_ <;>
      simp [hPhase, Asking, MayOwe]

end Flushing

section Runs

theorem Careful.acknowledged {label : Fin cpus × Action} (h : Careful s label) :
    Acknowledged s label := by
  obtain ⟨core, action⟩ := label
  cases action
  case request => exact h
  all_goals trivial

/-- The invariants of the variables and of the histories. -/
structure Safe (s : State cpus) : Prop where
  shape : Shape s
  counted : Counted s
  flushed : Flushed s

theorem Flushed.step {action : Action} (h : Flushed s) (hShape : Shape s) (hCounted : Counted s)
    (hCareful : Careful s (core, action)) (hStep : Performed s core action s') : Flushed s' := by
  cases hStep with
  | request hFrom =>
      rw [memVirtInvtlbRequest_eq hShape.pending]
      exact h.asked hShape hFrom hCareful
  | updateCr3 oldCr3 newCr3 hFrom =>
      rcases hFrom with hFrom | hFrom
      · refine h.goto ?_ ?_ ?_ ?_ ?_ ?_ <;> simp [hFrom, Phase.counts, Asking, MayOwe]
      · have hNew := hCareful hFrom
        refine h.goto ?_ ?_ ?_ ?_ ?_ ?_ <;> simp [hFrom, Phase.counts, Asking, MayOwe, hNew]
  | @load caller hFrom =>
      cases caller <;> refine h.goto ?_ ?_ ?_ ?_ ?_ ?_ <;>
        simp [hFrom, Phase.counts, Asking, MayOwe]
  | store hFrom => exact h.store hFrom
  | @skip caller pendingState hFrom =>
      cases caller with
      | request =>
          refine h.goto ?_ ?_ ?_ ?_ ?_ ?_ <;> simp [hFrom, Phase.counts, afterAck, Asking, MayOwe]
      | updateCr3 oldCr3 newCr3 =>
          -- The core goes on without `wrcr3` only when its `cr3` stays the same.
          by_cases hNew : oldCr3 = newCr3 <;> refine h.goto ?_ ?_ ?_ ?_ ?_ ?_ <;>
            simp [hFrom, Phase.counts, afterAck, Asking, MayOwe, hNew]
  | count hFrom => exact h.counted hFrom (mt (coresLeft_eq_zero hShape.bound).mp hCareful)
  | update hFrom => exact (h.updating core _ hFrom).elim
  | write => exact h.wrote
  | idleEnter => exact h.entered hShape hCounted hCareful
  | idleExit hFrom => exact h.exited hFrom

theorem Safe.run {trace : List (Fin cpus × Action)} (hCpus : cpus < 2 ^ 64)
    (run : ((system cpus).restrict Careful).Execution trace s) : Safe s := by
  refine run.stateInvariant (fun s hs => ?_) fun s label s' h hStep => ?_
  · rw [hs]
    refine ⟨Shape.run hCpus (.start rfl), counted_memVirtInvtlbInit hCpus, ?_, ?_, ?_, ?_, rfl, ?_⟩ <;>
      simp [memVirtInvtlbInit, Asking]
  · obtain ⟨core, action⟩ := label
    have hPerformed := perform_iff.mp hStep.2
    exact ⟨h.shape.step hCpus hPerformed,
      h.counted.step hCpus h.shape hStep.1.acknowledged hPerformed,
      h.flushed.step h.shape h.counted hStep.1 hPerformed⟩

end Runs

section Stale

variable {trace : List (Fin cpus × Action)}

/-- A core that enters idle owes a `wrcr3`, unless it has executed one since the request. -/
theorem memVirtInvtlbOnIdleEnter_owes (hRequested : s.requester.isSome)
    (hFlushed : (s.history core).flushed = false) :
    ((memVirtInvtlbOnIdleEnter s core).history core).owes = true := by
  by_cases hMatch : s.states core = s.pendingState
  · rw [memVirtInvtlbOnIdleEnter_of_eq hMatch]
    split_ifs <;> simp [State.entered, State.settle, memVirtInvtlbGenUpdateNolock, State.acked,
      memVirtInvtlbAckStore, hRequested, hFlushed]
  · rw [memVirtInvtlbOnIdleEnter_of_ne hMatch]
    simp [State.entered, State.settle, hRequested, hFlushed]

theorem performed {action : Action} (run : (system cpus).Execution trace s)
    (hStep : Performed s core action s') :
    (system cpus).Execution (trace ++ [(core, action)]) s' :=
  run.step (perform_iff.mpr hStep)

/-- A core that has left idle goes on with the same `cr3` and does not write it. -/
theorem resumes_without_wrcr3 (run : (system cpus).Execution trace s)
    (hWoken : s.phase core = .woken) (hState : s.states core = 1 - s.pendingState) :
    ∃ more s', (system cpus).Execution (trace ++ more) s' ∧ s'.phase core = .running ∧
      s'.history = s.history := by
  have called := performed run (.updateCr3 0 0 (.inr hWoken))
  have loaded := performed called (.load State.goto_phase_self)
  generalize hLoaded : (s.goto core (.loading (.updateCr3 0 0))).goto core
    (.comparing (.updateCr3 0 0) (s.goto core (.loading (.updateCr3 0 0))).pendingState) = last at loaded
  have hPhase : last.phase core = .comparing (.updateCr3 0 0) s.pendingState := by
    rw [← hLoaded]
    exact State.goto_phase_self
  have hNe : last.states core ≠ s.pendingState := by
    have hFlipped : s.states core ≠ s.pendingState := by omega
    rw [← hLoaded]
    exact hFlipped
  have hStep : Performed last core .compare (last.goto core .running) := .skip hPhase hNe
  have compared := performed loaded hStep
  rw [List.append_assoc, List.append_assoc] at compared
  refine ⟨_, _, compared, State.goto_phase_self, ?_⟩
  rw [← hLoaded]
  rfl

/-- The core goes idle and comes back to the same address space. -/
theorem stale_after_idle (run : (system cpus).Execution trace s) (hRunning : s.phase core = .running)
    (hRequested : s.requester.isSome) (hFlushed : (s.history core).flushed = false) :
    ∃ more s', (system cpus).Execution (trace ++ more) s' ∧ ¬NoStaleTlb s' := by
  have hOwes := memVirtInvtlbOnIdleEnter_owes hRequested hFlushed
  have entered := performed run (.idleEnter hRunning)
  have exited := performed entered (.idleExit memVirtInvtlbOnIdleEnter_phase_self)
  obtain ⟨more, s', resumed, hPhase, hHistory⟩ :=
    resumes_without_wrcr3 exited (Function.update_self ..) (Function.update_self ..)
  rw [List.append_assoc, List.append_assoc] at resumed
  refine ⟨_, s', resumed, fun h => ?_⟩
  have hClear := h.owes core hPhase
  rw [hHistory] at hClear
  exact Bool.noConfusion (hClear.symm.trans hOwes)

/-- The core acknowledges its own request and returns. -/
theorem ack_returns {pendingState : Nat} (run : (system cpus).Execution trace s)
    (hFrom : s.phase core = .comparing .request pendingState) :
    ∃ more s', (system cpus).Execution (trace ++ more) s' ∧ s'.phase core = .running ∧
      s'.requester = s.requester ∧ s'.history = s.history := by
  by_cases hMatch : s.states core = pendingState
  · have stored := performed run (.store hFrom hMatch)
    have counted := performed stored (.count State.goto_phase_self)
    rw [List.append_assoc] at counted
    generalize hStatus : (memVirtInvtlbAckCount _).1 = status at counted
    cases status with
    | genUpdatePending =>
        have updated := performed counted (.update State.goto_phase_self)
        rw [List.append_assoc] at updated
        exact ⟨_, _, updated, State.goto_phase_self, rfl, rfl⟩
    | flushCr3 => exact ⟨_, _, counted, State.goto_phase_self, rfl, rfl⟩
    | noInvalidationRequired => exact ⟨_, _, counted, State.goto_phase_self, rfl, rfl⟩
  · exact ⟨_, _, performed run (.skip hFrom hMatch), State.goto_phase_self, rfl, rfl⟩

/-- A request returns, and the requesting core has not executed `wrcr3`. -/
theorem request_returns (hCpus : cpus < 2 ^ 64) (run : (system cpus).Execution trace s)
    (hRunning : s.phase core = .running) :
    ∃ more s', (system cpus).Execution (trace ++ (core, .request) :: more) s' ∧
      s'.phase core = .running ∧ s'.requester.isSome ∧ (s'.history core).flushed = false := by
  have asked := performed run (.request hRunning)
  rw [memVirtInvtlbRequest_eq (Shape.run hCpus run).pending] at asked
  have loaded := performed asked (.load State.asked_phase_self)
  obtain ⟨more, s', returned, hReturned, hRequester, hHistory⟩ :=
    ack_returns loaded State.goto_phase_self
  rw [List.append_assoc, List.append_assoc] at returned
  refine ⟨_, s', returned, hReturned, ?_, ?_⟩
  · rw [hRequester]
    rfl
  · rw [hHistory]
    rfl

/-- In every run whose steps are careful, no core runs with a stale TLB and no generation
update comes too early. Otherwise no request is safe: from every state in which a core can
make one, the run can go on so that the core uses a stale TLB. -/
theorem invtlb_safe_when_careful (cpus : Nat) (hCpus : cpus < 2 ^ 64) :
    (∀ trace s, ((system cpus).restrict Careful).Execution trace s → NoStaleTlb s) ∧
    ∀ trace s core, (system cpus).Execution trace s → s.phase core = .running →
      ∃ more s', (system cpus).Execution (trace ++ (core, .request) :: more) s' ∧ ¬NoStaleTlb s' := by
  refine ⟨fun trace s run => (Safe.run hCpus run).flushed.noStaleTlb,
    fun trace s core run hRunning => ?_⟩
  obtain ⟨more, s', returned, hReturned, hRequested, hFlushed⟩ := request_returns hCpus run hRunning
  obtain ⟨rest, last, stale, hStale⟩ := stale_after_idle returned hReturned hRequested hFlushed
  rw [List.append_assoc, List.cons_append] at stale
  exact ⟨_, last, stale, hStale⟩

/-- One more step that the restriction allows. -/
theorem performed_allowed {guard : State cpus → Fin cpus × Action → Prop}
    (run : ((system cpus).restrict guard).Execution trace s) (core : Fin cpus) (action : Action)
    (hGuard : guard s (core, action)) (hStep : perform s core action = some s') :
    ((system cpus).restrict guard).Execution (trace ++ [(core, action)]) s' :=
  run.step ⟨hGuard, hStep⟩

/-- Two cores switch their address spaces, the first one makes a request and switches
again, and the second one enters idle: the generation update runs in time. -/
theorem invtlb_safe_when_careful_two_cores :
    ∃ trace s, ((system 2).restrict Careful).Execution trace s ∧ (0, .request) ∈ trace ∧
      s.pendingTlbUpdates = 0 ∧ NoStaleTlb s := by
  have start : ((system 2).restrict Careful).Execution [] (memVirtInvtlbInit 2) := .start rfl
  have calls₀ := performed_allowed start 0 (.updateCr3 0 1) (fun _ => by omega) rfl
  have loads₀ := performed_allowed calls₀ 0 .load trivial rfl
  have stores₀ := performed_allowed loads₀ 0 .compare trivial rfl
  have acks₀ := performed_allowed stores₀ 0 .count (show _ ≠ _ by decide) rfl
  have writes₀ := performed_allowed acks₀ 0 .write trivial rfl
  have calls₁ := performed_allowed writes₀ 1 (.updateCr3 0 1) (fun _ => by omega) rfl
  have loads₁ := performed_allowed calls₁ 1 .load trivial rfl
  have stores₁ := performed_allowed loads₁ 1 .compare trivial rfl
  have acks₁ := performed_allowed stores₁ 1 .count (show _ ≠ _ by decide) rfl
  have writes₁ := performed_allowed acks₁ 1 .write trivial rfl
  have requests := performed_allowed writes₁ 0 .request (show ∀ core, _ by decide) rfl
  have reloads := performed_allowed requests 0 .load trivial rfl
  have stores := performed_allowed reloads 0 .compare trivial rfl
  have acks := performed_allowed stores 0 .count (show _ ≠ _ by decide) rfl
  have calls := performed_allowed acks 0 (.updateCr3 1 2) (fun _ => by omega) rfl
  have loads := performed_allowed calls 0 .load trivial rfl
  have skips := performed_allowed loads 0 .compare trivial rfl
  have writes := performed_allowed skips 0 .write trivial rfl
  have enters := performed_allowed writes 1 .idleEnter (fun _ _ => ⟨by decide, by decide⟩) rfl
  exact ⟨_, _, enters, by decide, rfl, (invtlb_safe_when_careful 2 (by omega)).1 _ _ enters⟩

/-- A single core that has switched its address space makes a request: the generation
update runs before the core has executed `wrcr3`. -/
theorem invtlb_update_before_wrcr3 :
    ¬∀ cpus trace s, (system cpus).Execution trace s → NoStaleTlb s := by
  intro h
  have start : (system 1).Execution [] (memVirtInvtlbInit 1) := .start rfl
  have called := start.step (show (system 1).step _ (0, (.updateCr3 0 1)) _ from rfl)
  have loaded := called.step (show (system 1).step _ (0, .load) _ from rfl)
  have stored := loaded.step (show (system 1).step _ (0, .compare) _ from rfl)
  have counted := stored.step (show (system 1).step _ (0, .count) _ from rfl)
  have written := counted.step (show (system 1).step _ (0, .write) _ from rfl)
  have requested := written.step (show (system 1).step _ (0, .request) _ from rfl)
  have reloaded := requested.step (show (system 1).step _ (0, .load) _ from rfl)
  have restored := reloaded.step (show (system 1).step _ (0, .compare) _ from rfl)
  have acked := restored.step (show (system 1).step _ (0, .count) _ from rfl)
  have updated := acked.step (show (system 1).step _ (0, .update) _ from rfl)
  have hLate := (h _ _ _ updated).late
  revert hLate
  decide

end Stale

end Ricerca.Invtlb
