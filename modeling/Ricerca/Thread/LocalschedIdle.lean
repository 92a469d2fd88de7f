import Ricerca.Thread.Localsched

/-! A core in the idle wait. What matters for it is where it is in the wait, its idle flag,
the root of its heap and the interrupts on their way; every action is one of a few changes of
these. -/
namespace Ricerca.Localsched

open Foundation PairingHeap

universe u

variable {κ τ : Type u} [DecidableEq κ] [DecidableEq τ]

/-- What the idle wait of a core depends on. -/
structure View (τ : Type u) where
  phase : Phase
  idle : Bool
  heapRoot : Option τ
  ipis : Nat

/-- The core waits in the loop of `thread_localsched_dequeue`. -/
def View.Waits (v : View τ) : Prop := v.phase = .halted ∨ v.phase = .woken

/-- If the core is halted while tasks are queued, somebody is about to wake it. -/
def View.Alarmed (v : View τ) : Prop := v.phase = .halted → v.heapRoot ≠ none → 0 < v.ipis

def State.view (s : State κ τ) (core : κ) : View τ :=
  ⟨s.phase core, (s.localsched core).idle, (s.localsched core).heapRoot, s.ipis core⟩

/-- The core takes an interrupt of the scheduler. -/
def View.deliver (v : View τ) : View τ :=
  ⟨if v.phase = .halted then .woken else v.phase, false, v.heapRoot, v.ipis - 1⟩

/-- All other changes. -/
inductive Change : View τ → View τ → Prop where
  | same (v : View τ) : Change v v
  | wakeUp (v : View τ) (root : τ) :
      Change v ⟨v.phase, v.idle, some root, if v.idle then v.ipis + 1 else v.ipis⟩
  | resume (v : View τ) (root : Option τ) : Change v ⟨.running, v.idle, root, v.ipis⟩
  | halt (v : View τ) : Change v ⟨.halted, true, none, v.ipis⟩
  | halt_again (v : View τ) (woken : v.phase = .woken) (empty : v.heapRoot = none) :
      Change v ⟨.halted, v.idle, none, v.ipis⟩
  | interrupt (v : View τ) (halted : v.phase = .halted) :
      Change v ⟨.woken, v.idle, v.heapRoot, v.ipis⟩

/-- A core that waits has set its idle flag, unless it is about to find a task. -/
structure View.Ready (v : View τ) : Prop where
  alarmed : v.Alarmed
  halted : v.phase = .halted → v.idle = true
  woken : v.phase = .woken → v.idle = true ∨ v.heapRoot ≠ none

namespace View.Ready

variable {v v' : View τ}

omit [DecidableEq τ] in
theorem change (h : v.Ready) (hChange : Change v v') : v'.Ready := by
  cases hChange with
  | same => exact h
  | wakeUp root =>
      refine ⟨fun hHalted _ => ?_, h.halted, fun _ => .inr (by simp)⟩
      simp [h.halted hHalted]
  | resume root => refine ⟨?_, ?_, ?_⟩ <;> intro hPhase <;> cases hPhase
  | halt =>
      refine ⟨fun _ hRoot => absurd rfl hRoot, fun _ => rfl, ?_⟩
      intro hWoken
      cases hWoken
  | halt_again woken empty =>
      refine ⟨fun _ hRoot => absurd rfl hRoot, fun _ => ?_, ?_⟩
      · exact (h.woken woken).resolve_right (not_not.mpr empty)
      · intro hWoken
        cases hWoken
  | interrupt halted =>
      refine ⟨?_, ?_, fun _ => .inl (h.halted halted)⟩ <;> intro hHalted <;> cases hHalted

omit [DecidableEq τ] in
/-- An interrupt is harmless unless the core waits and has no tasks. -/
theorem deliver (hTimely : v.Waits → v.heapRoot ≠ none) : v.deliver.Ready := by
  have hPhase : v.deliver.phase ≠ .halted := by
    rw [View.deliver]
    split <;> simp_all
  refine ⟨fun hHalted => absurd hHalted hPhase, fun hHalted => absurd hHalted hPhase,
    fun hWoken => .inr (hTimely ?_)⟩
  simp only [View.deliver] at hWoken
  split at hWoken
  · exact .inl ‹_›
  · exact .inr hWoken

end View.Ready

section Refinement

variable {s s' s'' : State κ τ} {core other : κ} {task : τ} {tsc tsc' : UInt64} {depth : Nat}

/-- At most the root of this core's heap changes. -/
structure Stirs (core : κ) (s s' : State κ τ) : Prop where
  self : ∃ root, s'.view core = { s.view core with heapRoot := root }
  others : ∀ other, other ≠ core → s'.view other = s.view other

omit [DecidableEq κ] [DecidableEq τ] in
theorem Stirs.trans (h : Stirs core s s') (h' : Stirs core s' s'') : Stirs core s s'' := by
  refine ⟨?_, fun other hOther => (h'.others other hOther).trans (h.others other hOther)⟩
  obtain ⟨root, hRoot⟩ := h.self
  obtain ⟨root', hRoot'⟩ := h'.self
  refine ⟨root', ?_⟩
  rw [hRoot', hRoot]

omit [DecidableEq τ] in
theorem stirs_setHeap {heap : Option τ × Hooks τ} : Stirs core s (s.setHeap core heap) := by
  refine ⟨⟨heap.1, ?_⟩, fun other hOther => ?_⟩
  · simp [State.view, State.setHeap, State.setData]
  · simp [State.view, State.setHeap, State.setData, hOther]

omit [DecidableEq τ] in
/-- The scheduler data changes in other fields only. -/
theorem stirs_setData {value : LocalschedData τ} (hIdle : value.idle = (s.localsched core).idle) :
    Stirs core s (s.setData core value) := by
  refine ⟨⟨value.heapRoot, ?_⟩, fun other hOther => ?_⟩
  · simp [State.view, State.setData, hIdle]
  · simp [State.view, State.setData, hOther]

theorem stirs_updateUnfairness
    (hUpdate : threadLocalschedUpdateUnfairness core task tsc s = some s') : Stirs core s s' := by
  simp only [threadLocalschedUpdateUnfairness] at hUpdate
  split at hUpdate
  · cases hUpdate
  · cases hUpdate
    have hTask : Stirs core s (s.setTask task
        { s.task task with unfairness := (s.task task).unfairness + (tsc - (s.task task).timestamp) }) :=
      ⟨⟨_, rfl⟩, fun _ _ => rfl⟩
    exact hTask.trans (stirs_setData rfl)

theorem stirs_depart {fate : Fate} : Stirs core s (depart core task s fate) := by
  cases fate with
  | requeue => exact stirs_setHeap
  | suspend => exact ⟨⟨_, rfl⟩, fun _ _ => rfl⟩
  | terminate => exact ⟨⟨_, rfl⟩, fun _ _ => rfl⟩

/-- Nothing comes out of the heap if and only if it is empty, and it stays so. -/
theorem stirs_tryDequeue {result : Option τ}
    (hTry : threadLocalschedTryDequeueNolock depth core s = some (result, s')) :
    Stirs core s s' ∧ (result = none → (s.view core).heapRoot = none ∧ s'.view = s.view) := by
  rw [threadLocalschedTryDequeueNolock, Option.map_eq_some_iff] at hTry
  obtain ⟨⟨res, heap⟩, hRemove, hEq⟩ := hTry
  cases hEq
  refine ⟨stirs_setHeap, fun hNone => ?_⟩
  cases hRoot : (s.localsched core).heapRoot with
  | none =>
      rw [hRoot] at hRemove
      cases hRemove
      refine ⟨hRoot, funext fun other => ?_⟩
      by_cases hOther : other = core
      · subst hOther
        simp [State.view, State.setHeap, State.setData, hRoot]
      · simp [State.view, State.setHeap, State.setData, hOther]
  | some root =>
      rw [hRoot, pairingHeapRemoveMin, Option.map_eq_some_iff] at hRemove
      obtain ⟨rest, _, hEq⟩ := hRemove
      cases hEq
      cases hNone

/-- The core goes on with a task after its heap was stirred. -/
theorem change_resume (h : Stirs core s s') (other : κ) :
    Change (s.view other) ((resume core task tsc s').view other) := by
  by_cases hOther : other = core
  · subst hOther
    obtain ⟨root, hRoot⟩ := h.self
    have hView : (resume other task tsc s').view other = ⟨.running, (s'.view other).idle,
        (s'.view other).heapRoot, (s'.view other).ipis⟩ := by
      simp [State.view, resume, State.setPhase, State.setData, State.setTask]
    rw [hView, hRoot]
    exact .resume _ root
  · have hView : (resume core task tsc s').view other = s'.view other := by
      simp [State.view, resume, State.setPhase, State.setData, State.setTask, hOther]
    rw [hView, h.others other hOther]
    exact .same _

theorem change_dequeue (h : Stirs core s s')
    (hDequeue : threadLocalschedDequeue depth core tsc s' = some s'') (other : κ) :
    Change (s.view other) (s''.view other) := by
  rw [threadLocalschedDequeue, Option.map_eq_some_iff] at hDequeue
  obtain ⟨⟨result, taken⟩, hTry, rfl⟩ := hDequeue
  obtain ⟨hStirs, hEmpty⟩ := stirs_tryDequeue hTry
  cases result with
  | some task => exact change_resume (h.trans hStirs) other
  | none =>
      obtain ⟨hRoot, hSame⟩ := hEmpty rfl
      by_cases hOther : other = core
      · subst hOther
        obtain ⟨root, hSelf⟩ := h.self
        have hView : ((taken.setData other { taken.localsched other with idle := true }).setPhase
            other .halted).view other =
            ⟨.halted, true, (taken.view other).heapRoot, (taken.view other).ipis⟩ := by
          simp [State.view, State.setPhase, State.setData]
        rw [hView, hSame, hRoot, hSelf]
        exact .halt _
      · have hView : ((taken.setData core { taken.localsched core with idle := true }).setPhase
            core .halted).view other = taken.view other := by
          simp [State.view, State.setPhase, State.setData, hOther]
        rw [hView, hSame, h.others other hOther]
        exact .same _

theorem change_dequeueRound (hWoken : s.phase core = .woken)
    (hDequeue : threadLocalschedDequeueRound depth core tsc s = some s') (other : κ) :
    Change (s.view other) (s'.view other) := by
  rw [threadLocalschedDequeueRound, Option.map_eq_some_iff] at hDequeue
  obtain ⟨⟨result, taken⟩, hTry, rfl⟩ := hDequeue
  obtain ⟨hStirs, hEmpty⟩ := stirs_tryDequeue hTry
  cases result with
  | some task => exact change_resume hStirs other
  | none =>
      obtain ⟨hRoot, hSame⟩ := hEmpty rfl
      by_cases hOther : other = core
      · subst hOther
        have hView : (taken.setPhase other .halted).view other = ⟨.halted, (taken.view other).idle,
            (taken.view other).heapRoot, (taken.view other).ipis⟩ := by
          simp [State.view, State.setPhase]
        rw [hView, hSame, hRoot]
        exact .halt_again _ hWoken hRoot
      · have hView : (taken.setPhase core .halted).view other = taken.view other := by
          simp [State.view, State.setPhase, hOther]
        rw [hView, hSame]
        exact .same _

theorem change_leave {fate : Fate} (hLeave : leave depth core fate tsc tsc' s = some s')
    (other : κ) : Change (s.view other) (s'.view other) := by
  rw [leave] at hLeave
  split at hLeave
  · cases hLeave
  · simp only [Option.bind_eq_bind, Option.bind_eq_some_iff] at hLeave
    obtain ⟨charged, hUpdate, hDequeue⟩ := hLeave
    refine change_dequeue ?_ hDequeue other
    exact (stirs_updateUnfairness hUpdate).trans (stirs_depart.trans (stirs_setData rfl))

omit [DecidableEq τ] in
theorem change_interrupted (other : κ) :
    Change (s.view other) ((interrupted core s).view other) := by
  rw [interrupted]
  split
  · rename_i hHalted
    by_cases hOther : other = core
    · subst hOther
      have hView : (s.setPhase other .woken).view other = ⟨.woken, (s.view other).idle,
          (s.view other).heapRoot, (s.view other).ipis⟩ := by
        simp [State.view, State.setPhase]
      rw [hView]
      exact .interrupt _ hHalted
    · have hView : (s.setPhase core .woken).view other = s.view other := by
        simp [State.view, State.setPhase, hOther]
      rw [hView]
      exact .same _
  · exact .same _

theorem change_timer (hTimer : threadLocalschedTimerIntHandler depth core tsc tsc' s = some s')
    (other : κ) : Change (s.view other) (s'.view other) := by
  rw [threadLocalschedTimerIntHandler] at hTimer
  split at hTimer
  · cases hTimer
    exact change_interrupted other
  · simp only [Option.bind_eq_bind, Option.bind_eq_some_iff, Option.some.injEq, Prod.exists] at hTimer
    obtain ⟨charged, hUpdate, result, taken, hTry, rfl⟩ := hTimer
    have hStirs := (stirs_updateUnfairness hUpdate).trans
      (stirs_setHeap.trans (stirs_tryDequeue hTry).1)
    exact change_resume hStirs other

theorem insert_root (cmp : τ → τ → Bool) (hooks : Hooks τ) (heapRoot : Option τ) (task : τ) :
    ∃ root, (pairingHeapInsert cmp hooks heapRoot task).1 = some root := by
  cases heapRoot with
  | none => exact ⟨task, rfl⟩
  | some root => exact ⟨_, rfl⟩

theorem view_enqueueNolock (core : κ) (task : τ) (s : State κ τ) :
    ∃ root, (threadLocalschedEnqueueNolock core task s).view core =
      { s.view core with heapRoot := some root } := by
  obtain ⟨root, hRoot⟩ := insert_root (threadLocalschedCmpUnfairness s) s.hooks
    (s.localsched core).heapRoot task
  refine ⟨root, ?_⟩
  simp [State.view, threadLocalschedEnqueueNolock, State.setHeap, State.setData, hRoot]

theorem change_enqueueSignal (other : κ) :
    Change (s.view other) ((threadLocalschedEnqueueSignalNolock core task s).view other) := by
  have hStirs : Stirs core s (threadLocalschedEnqueueNolock core task s) := stirs_setHeap
  by_cases hOther : other = core
  · subst hOther
    obtain ⟨root, hRoot⟩ := view_enqueueNolock other task s
    have hView : (threadLocalschedEnqueueSignalNolock other task s).view other =
        ⟨(s.view other).phase, (s.view other).idle, some root,
          if (s.view other).idle then (s.view other).ipis + 1 else (s.view other).ipis⟩ := by
      have hIdle : ((threadLocalschedEnqueueNolock other task s).localsched other).idle =
          (s.view other).idle := congrArg View.idle hRoot
      have hSent : ∀ count, ((threadLocalschedEnqueueNolock other task s).setIpis other count).view
          other = { s.view other with heapRoot := some root, ipis := count } := by
        intro count
        have hView : ((threadLocalschedEnqueueNolock other task s).setIpis other count).view other =
            { (threadLocalschedEnqueueNolock other task s).view other with ipis := count } := by
          simp [State.view, State.setIpis]
        rw [hView, hRoot]
      simp only [threadLocalschedEnqueueSignalNolock, hIdle]
      split
      · exact hSent _
      · exact hRoot
    rw [hView]
    exact .wakeUp _ root
  · have hView : (threadLocalschedEnqueueSignalNolock core task s).view other =
        (threadLocalschedEnqueueNolock core task s).view other := by
      rw [threadLocalschedEnqueueSignalNolock]
      split
      · simp [State.view, State.setIpis, hOther]
      · rfl
    rw [hView, hStirs.others other hOther]
    exact .same _

theorem view_charge (task : τ) (s : State κ τ) (other : κ) :
    (charge task s).view other = s.view other := by
  by_cases hOther : other = (s.task task).coreId
  · subst hOther
    simp [State.view, charge, State.setData, State.setTask]
  · simp [State.view, charge, State.setData, State.setTask, hOther]

theorem change_wakeUp (task : τ) (s : State κ τ) (other : κ) :
    Change (s.view other) ((threadLocalschedWakeUp task s).view other) := by
  rw [threadLocalschedWakeUp, ← view_charge task s other]
  exact change_enqueueSignal other

theorem change_exec {action : Action κ τ} (hExec : exec depth s action = some s') (other : κ) :
    Change (s.view other) (s'.view other) ∨
      action = .ipi other ∧ s'.view other = (s.view other).deliver := by
  cases action with
  | associate logicalId task =>
      simp only [exec] at hExec
      split at hExec
      · cases hExec
      · cases hExec
        exact .inl (change_wakeUp task (s.setTask task _) other)
  | wakeUp task =>
      simp only [exec] at hExec
      split at hExec
      · cases hExec
        exact .inl (change_wakeUp task s other)
      · split at hExec
        · cases hExec
        · cases hExec
          exact .inl (change_wakeUp task s other)
  | timer core tsc tsc' => exact .inl (change_timer hExec other)
  | yield core tsc tsc' => exact .inl (change_leave hExec other)
  | suspendCurrent core tsc tsc' => exact .inl (change_leave hExec other)
  | terminate core tsc tsc' => exact .inl (change_leave hExec other)
  | bootstrap core tsc =>
      simp only [exec] at hExec
      split at hExec
      · exact .inl (change_dequeue ⟨⟨_, rfl⟩, fun _ _ => rfl⟩ hExec other)
      · cases hExec
  | idleRound core tsc =>
      simp only [exec] at hExec
      split at hExec
      · exact .inl (change_dequeueRound ‹_› hExec other)
      · cases hExec
  | ipi core =>
      simp only [exec] at hExec
      split at hExec
      · cases hExec
      · cases hExec
        by_cases hOther : other = core
        · subst hOther
          refine .inr ⟨rfl, ?_⟩
          rw [interrupted, View.deliver]
          split <;> simp_all [State.view, State.setPhase, State.setIpis, State.setData,
            threadLocalschedIpiDummy]
        · left
          have hView : ((threadLocalschedIpiDummy core s).setIpis core (s.ipis core - 1)).view other =
              s.view other := by
            simp [State.view, State.setIpis, State.setData, threadLocalschedIpiDummy, hOther]
          rw [← hView]
          exact change_interrupted other
  | interrupt core =>
      cases hExec
      exact .inl (change_interrupted other)

end Refinement

variable {s : State κ τ} {trace : List (Action κ τ)}

/-- No interrupt of the scheduler reaches a core that waits and has no tasks. -/
def Timely (s : State κ τ) : Action κ τ → Prop
  | .ipi core => (s.view core).Waits → (s.view core).heapRoot ≠ none
  | _ => True

instance (v : View τ) : Decidable v.Waits :=
  inferInstanceAs (Decidable (v.phase = .halted ∨ v.phase = .woken))

instance (s : State κ τ) : DecidablePred (Timely s)
  | .ipi core =>
      inferInstanceAs (Decidable ((s.view core).Waits → (s.view core).heapRoot ≠ none))
  | .associate _ _ | .wakeUp _ | .timer _ _ _ | .yield _ _ _ | .suspendCurrent _ _ _
  | .terminate _ _ _ | .bootstrap _ _ | .idleRound _ _ | .interrupt _ => .isTrue trivial

/-- Timely actions that all complete on a stack of this depth. -/
theorem timely_run_of_foldlM (depth : Nat) {actions : List (Action κ τ)} {s last : State κ τ}
    (hInit : Initial s)
    (h : actions.foldlM (fun s action => if Timely s action then exec depth s action else none) s =
      some last) :
    (system.restrict Timely).Execution actions last := by
  have hNext : ∀ (s : State κ τ) action s',
      (if Timely s action then exec depth s action else none) = some s' →
        (system.restrict Timely).step s action s' := by
    intro s action s' hStep
    split at hStep
    · exact ⟨‹_›, depth, hStep⟩
    · cases hStep
  exact System.Execution.append_foldlM hNext (.start hInit) h

omit [DecidableEq κ] [DecidableEq τ] in
theorem ready_initial (h : Initial s) (core : κ) : (s.view core).Ready := by
  have hPhase : (s.view core).phase = .booting := h.phase core
  refine ⟨?_, ?_, ?_⟩ <;> intro hWaits <;> rw [hPhase] at hWaits <;> cases hWaits

/-- If interrupts come in time, a core that is halted while tasks are queued for it has an
interrupt on its way, in every state reached. -/
theorem idle_core_misses_no_wake_up (run : (system.restrict Timely).Execution trace s) (core : κ)
    (hHalted : s.phase core = .halted) (hQueued : (s.localsched core).heapRoot ≠ none) :
    0 < s.ipis core := by
  have hReady : ∀ core, (s.view core).Ready := by
    apply run.stateInvariant (P := fun s => ∀ core, (s.view core).Ready)
    · exact fun s hInit => ready_initial hInit
    · rintro s action s' h ⟨hTimely, depth, hExec⟩ core
      rcases change_exec hExec core with hChange | ⟨hAction, hView⟩
      · exact (h core).change hChange
      · subst hAction
        rw [hView]
        exact .deliver hTimely
  exact (hReady core).alarmed hHalted hQueued

/-- A core that was woken in time, ran its task and halted again, when the task is woken up. -/
theorem idle_core_misses_no_wake_up_second_time :
    ∃ s : State Nat Nat, (system.restrict Timely).Execution
        [.bootstrap 0 5, .associate 0 1, .ipi 0, .idleRound 0 10, .suspendCurrent 0 20 21,
          .wakeUp 1] s ∧
      s.phase 0 = .halted ∧ (s.localsched 0).heapRoot = some 1 ∧ 0 < s.ipis 0 := by
  have hRun : ∃ s : State Nat Nat, (system.restrict Timely).Execution
        [.bootstrap 0 5, .associate 0 1, .ipi 0, .idleRound 0 10, .suspendCurrent 0 20 21,
          .wakeUp 1] s ∧ s.phase 0 = .halted ∧ (s.localsched 0).heapRoot = some 1 :=
    ⟨_, timely_run_of_foldlM 8 zeroed_initial rfl, rfl, rfl⟩
  obtain ⟨s, hRun, hHalted, hRoot⟩ := hRun
  exact ⟨s, hRun, hHalted, hRoot, idle_core_misses_no_wake_up hRun 0 hHalted (by simp [hRoot])⟩

/-- Two wake-ups send two interrupts. The second one comes after the core has run both tasks and
halted again, and clears the idle flag; nobody wakes the core for the next task. -/
theorem late_ipi_clears_idle :
    ¬∀ (trace : List (Action Nat Nat)) (s : State Nat Nat), system.Execution trace s →
      ∀ core, s.phase core = .halted → (s.localsched core).heapRoot ≠ none → 0 < s.ipis core := by
  intro hClaim
  obtain ⟨s, hRun, hHalted, hRoot, hIpis⟩ : ∃ s : State Nat Nat, system.Execution
      [.bootstrap 0 5, .associate 0 1, .associate 0 2, .ipi 0, .idleRound 0 10,
        .suspendCurrent 0 20 21, .suspendCurrent 0 30 31, .ipi 0, .idleRound 0 40, .wakeUp 1] s ∧
      s.phase 0 = .halted ∧ (s.localsched 0).heapRoot = some 1 ∧ s.ipis 0 = 0 :=
    ⟨_, run_of_foldlM 8 zeroed_initial rfl, rfl, rfl, rfl⟩
  have hPos := hClaim _ s hRun 0 hHalted (by simp [hRoot])
  omega

end Ricerca.Localsched
