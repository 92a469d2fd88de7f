import Ricerca.Thread.LocalschedTasks

/-! What each action of the local schedulers does to the figures that they keep: the number of
tasks and the idle unfairness of a core, and the fields of a task that its wake-up reads. -/
namespace Ricerca.Localsched

open Foundation PairingHeap

universe u

variable {κ τ : Type u} [DecidableEq κ] [DecidableEq τ]

/-- Nothing that is counted changes; tasks may move between heaps and cores. -/
structure Kept (s s' : State κ τ) : Prop where
  tasksCount : ∀ core, (s'.localsched core).tasksCount = (s.localsched core).tasksCount
  idleUnfairness : ∀ core, (s'.localsched core).idleUnfairness = (s.localsched core).idleUnfairness
  accUnfairnessIdle : ∀ x, (s'.task x).accUnfairnessIdle = (s.task x).accUnfairnessIdle
  coreId : ∀ x, (s'.task x).coreId = (s.task x).coreId
  suspended : s'.suspended = s.suspended
  live : s'.live = s.live

/-- The time that the current task of the core ran is charged to it and to the core. -/
structure Charged (core : κ) (task : τ) (tsc : UInt64) (s s' : State κ τ) : Prop where
  counted : (s.localsched core).tasksCount ≠ 0
  tasksCount : ∀ other, (s'.localsched other).tasksCount = (s.localsched other).tasksCount
  idleUnfairness : (s'.localsched core).idleUnfairness = (s.localsched core).idleUnfairness +
    (tsc - (s.task task).timestamp) / (s.localsched core).tasksCount
  others : ∀ other, other ≠ core →
    (s'.localsched other).idleUnfairness = (s.localsched other).idleUnfairness
  accUnfairnessIdle : ∀ x, (s'.task x).accUnfairnessIdle = (s.task x).accUnfairnessIdle
  coreId : ∀ x, (s'.task x).coreId = (s.task x).coreId
  suspended : s'.suspended = s.suspended
  live : s'.live = s.live

variable {s s' s'' : State κ τ} {core : κ} {task : τ} {tsc tsc' : UInt64} {depth : Nat}

omit [DecidableEq κ] [DecidableEq τ] in
theorem Kept.trans (h : Kept s s') (h' : Kept s' s'') : Kept s s'' where
  tasksCount core := (h'.tasksCount core).trans (h.tasksCount core)
  idleUnfairness core := (h'.idleUnfairness core).trans (h.idleUnfairness core)
  accUnfairnessIdle x := (h'.accUnfairnessIdle x).trans (h.accUnfairnessIdle x)
  coreId x := (h'.coreId x).trans (h.coreId x)
  suspended := h'.suspended.trans h.suspended
  live := h'.live.trans h.live

omit [DecidableEq κ] [DecidableEq τ] in
theorem Kept.refl (s : State κ τ) : Kept s s :=
  ⟨fun _ => rfl, fun _ => rfl, fun _ => rfl, fun _ => rfl, rfl, rfl⟩

omit [DecidableEq τ] in
/-- The data of a core change, but not its counters. -/
theorem kept_setData {value : LocalschedData τ}
    (hCount : value.tasksCount = (s.localsched core).tasksCount)
    (hIdle : value.idleUnfairness = (s.localsched core).idleUnfairness) :
    Kept s (s.setData core value) := by
  refine ⟨fun other => ?_, fun other => ?_, fun _ => rfl, fun _ => rfl, rfl, rfl⟩
  · by_cases hOther : other = core
    · subst hOther
      simpa [State.setData] using hCount
    · simp [State.setData, hOther]
  · by_cases hOther : other = core
    · subst hOther
      simpa [State.setData] using hIdle
    · simp [State.setData, hOther]

omit [DecidableEq τ] in
theorem kept_setHeap {heap : Option τ × Hooks τ} : Kept s (s.setHeap core heap) := by
  have hData : Kept s (s.setData core { s.localsched core with heapRoot := heap.1 }) :=
    kept_setData rfl rfl
  exact { hData with }

omit [DecidableEq κ] in
/-- The fields of a task change that its wake-up does not read. -/
theorem kept_setTask {value : ThreadTask κ}
    (hAcc : value.accUnfairnessIdle = (s.task task).accUnfairnessIdle)
    (hCore : value.coreId = (s.task task).coreId) : Kept s (s.setTask task value) := by
  refine ⟨fun _ => rfl, fun _ => rfl, fun x => ?_, fun x => ?_, rfl, rfl⟩
  · by_cases hx : x = task
    · subst hx
      simpa [State.setTask] using hAcc
    · simp [State.setTask, hx]
  · by_cases hx : x = task
    · subst hx
      simpa [State.setTask] using hCore
    · simp [State.setTask, hx]

theorem kept_resume : Kept s (resume core task tsc s) := by
  have hTask : Kept s (s.setTask task { s.task task with timestamp := tsc }) := kept_setTask rfl rfl
  have hData : Kept (s.setTask task { s.task task with timestamp := tsc })
      ((s.setTask task { s.task task with timestamp := tsc }).setData core
        { s.localsched core with currentTask := some task }) :=
    kept_setData rfl rfl
  exact { hTask.trans hData with }

theorem kept_dequeue (hDequeue : threadLocalschedDequeue depth core tsc s = some s') :
    Kept s s' := by
  rw [threadLocalschedDequeue, Option.map_eq_some_iff] at hDequeue
  obtain ⟨⟨result, taken⟩, hTry, rfl⟩ := hDequeue
  obtain ⟨heap, rfl⟩ := tryDequeue_eq hTry
  cases result with
  | none =>
      have hHeap : Kept s (s.setHeap core heap) := kept_setHeap
      have hIdle : Kept (s.setHeap core heap) ((s.setHeap core heap).setData core
          { (s.setHeap core heap).localsched core with idle := true }) :=
        kept_setData rfl rfl
      exact { hHeap.trans hIdle with }
  | some task => exact kept_setHeap.trans kept_resume

theorem kept_dequeueRound (hDequeue : threadLocalschedDequeueRound depth core tsc s = some s') :
    Kept s s' := by
  rw [threadLocalschedDequeueRound, Option.map_eq_some_iff] at hDequeue
  obtain ⟨⟨result, taken⟩, hTry, rfl⟩ := hDequeue
  obtain ⟨heap, rfl⟩ := tryDequeue_eq hTry
  cases result with
  | none =>
      have hHeap : Kept s (s.setHeap core heap) := kept_setHeap
      exact { hHeap with }
  | some task => exact kept_setHeap.trans kept_resume

omit [DecidableEq τ] in
theorem kept_interrupted : Kept s (interrupted core s) := by
  rw [interrupted]
  split
  · exact { Kept.refl s with }
  · exact Kept.refl s

omit [DecidableEq τ] in
theorem kept_ipi : Kept s (interrupted core
    ((threadLocalschedIpiDummy core s).setIpis core (s.ipis core - 1))) := by
  have hData : Kept s (threadLocalschedIpiDummy core s) := kept_setData rfl rfl
  have hTaken : Kept s ((threadLocalschedIpiDummy core s).setIpis core (s.ipis core - 1)) :=
    { hData with }
  exact hTaken.trans kept_interrupted

theorem kept_wakeUp : Kept (charge task s) (threadLocalschedWakeUp task s) := by
  rw [threadLocalschedWakeUp, threadLocalschedEnqueueSignalNolock]
  have hEnqueued : Kept (charge task s)
      (threadLocalschedEnqueueNolock (s.task task).coreId task (charge task s)) := kept_setHeap
  split
  · exact { hEnqueued with }
  · exact hEnqueued

theorem updateUnfairness_charged
    (hUpdate : threadLocalschedUpdateUnfairness core task tsc s = some s') :
    Charged core task tsc s s' := by
  simp only [threadLocalschedUpdateUnfairness] at hUpdate
  split at hUpdate
  · cases hUpdate
  · rename_i hCount
    cases hUpdate
    refine ⟨hCount, fun other => ?_, by simp [State.setData], fun other hOther => ?_, fun x => ?_,
      fun x => ?_, rfl, rfl⟩
    · by_cases hOther : other = core
      · subst hOther
        simp [State.setData]
      · simp [State.setData, State.setTask, hOther]
    · simp [State.setData, State.setTask, hOther]
    · by_cases hx : x = task
      · subst hx
        simp [State.setData, State.setTask]
      · simp [State.setData, State.setTask, hx]
    · by_cases hx : x = task
      · subst hx
        simp [State.setData, State.setTask]
      · simp [State.setData, State.setTask, hx]

/-- The core charges its current task and puts it away. -/
def Left (core : κ) (fate : Fate) (tsc : UInt64) (s s' : State κ τ) : Prop :=
  ∃ oldTask charged, (s.localsched core).currentTask = some oldTask ∧
    Charged core oldTask tsc s charged ∧ Kept (depart core oldTask charged fate) s'

/-- What an action does to everything that is counted. -/
def Effect (s : State κ τ) (s' : State κ τ) : Action κ τ → Prop
  | .associate logicalId task => task ∉ s.live ∧
      Kept { charge task (s.setTask task { s.task task with
        unfairness := 0, accUnfairnessIdle := 0, coreId := logicalId }) with
          live := task :: s.live } s'
  | .wakeUp task =>
      (task ∈ s.suspended ∧ Kept { charge task s with suspended := s.suspended.erase task } s') ∨
      (task ∉ s.suspended ∧ task ∉ s.live ∧ Kept { charge task s with live := task :: s.live } s')
  | .timer core tsc _ =>
      ((s.localsched core).currentTask = none ∧ Kept s s') ∨ Left core .requeue tsc s s'
  | .yield core tsc _ => Left core .requeue tsc s s'
  | .suspendCurrent core tsc _ => Left core .suspend tsc s s'
  | .terminate core tsc _ => Left core .terminate tsc s s'
  | .bootstrap _ _ | .idleRound _ _ | .ipi _ | .interrupt _ => Kept s s'

theorem leave_left {fate : Fate} (hLeave : leave depth core fate tsc tsc' s = some s') :
    Left core fate tsc s s' := by
  rw [leave] at hLeave
  split at hLeave
  · cases hLeave
  · rename_i oldTask hCurrent
    simp only [Option.bind_eq_bind, Option.bind_eq_some_iff] at hLeave
    obtain ⟨charged, hUpdate, hDequeue⟩ := hLeave
    have hClear : Kept (depart core oldTask charged fate) ((depart core oldTask charged fate).setData
        core { (depart core oldTask charged fate).localsched core with currentTask := none }) :=
      kept_setData rfl rfl
    exact ⟨oldTask, charged, hCurrent, updateUnfairness_charged hUpdate,
      hClear.trans (kept_dequeue hDequeue)⟩

theorem timer_left (hTimer : threadLocalschedTimerIntHandler depth core tsc tsc' s = some s') :
    ((s.localsched core).currentTask = none ∧ Kept s s') ∨ Left core .requeue tsc s s' := by
  rw [threadLocalschedTimerIntHandler] at hTimer
  split at hTimer
  · rename_i hNone
    cases hTimer
    exact .inl ⟨hNone, kept_interrupted⟩
  · rename_i oldTask hCurrent
    simp only [Option.bind_eq_bind, Option.bind_eq_some_iff, Option.some.injEq, Prod.exists] at hTimer
    obtain ⟨charged, hUpdate, result, taken, hTry, rfl⟩ := hTimer
    obtain ⟨heap, rfl⟩ := tryDequeue_eq hTry
    exact .inr ⟨oldTask, charged, hCurrent, updateUnfairness_charged hUpdate,
      kept_setHeap.trans kept_resume⟩

theorem exec_effect {action : Action κ τ} (hExec : exec depth s action = some s') :
    Effect s s' action := by
  cases action with
  | associate logicalId task =>
      simp only [exec] at hExec
      split at hExec
      · cases hExec
      · rename_i hNew
        cases hExec
        exact ⟨hNew, { kept_wakeUp with live := rfl }⟩
  | wakeUp task =>
      simp only [exec] at hExec
      split at hExec
      · rename_i hSuspended
        cases hExec
        exact .inl ⟨hSuspended, { kept_wakeUp with suspended := rfl }⟩
      · rename_i hAwake
        split at hExec
        · cases hExec
        · rename_i hNew
          cases hExec
          exact .inr ⟨hAwake, hNew, { kept_wakeUp with live := rfl }⟩
  | timer core tsc tsc' => exact timer_left hExec
  | yield core tsc tsc' => exact leave_left hExec
  | suspendCurrent core tsc tsc' => exact leave_left hExec
  | terminate core tsc tsc' => exact leave_left hExec
  | bootstrap core tsc =>
      simp only [exec] at hExec
      split at hExec
      · exact kept_dequeue hExec
      · cases hExec
  | idleRound core tsc =>
      simp only [exec] at hExec
      split at hExec
      · exact kept_dequeueRound hExec
      · cases hExec
  | ipi core =>
      simp only [exec] at hExec
      split at hExec
      · cases hExec
      · cases hExec
        exact kept_ipi
  | interrupt core =>
      cases hExec
      exact kept_interrupted

theorem charge_coreId (x : τ) : ((charge task s).task x).coreId = (s.task x).coreId := by
  by_cases hx : x = task
  · subst hx
    simp [charge, State.setData, State.setTask]
  · simp [charge, State.setData, State.setTask, hx]

theorem depart_coreId {fate : Fate} (x : τ) :
    ((depart core task s fate).task x).coreId = (s.task x).coreId := by
  cases fate with
  | requeue => rfl
  | suspend =>
      by_cases hx : x = task
      · subst hx
        simp [depart, State.setTask]
      · simp [depart, State.setTask, hx]
  | terminate => rfl

theorem Left.coreId {fate : Fate} (h : Left core fate tsc s s') (x : τ) :
    (s'.task x).coreId = (s.task x).coreId := by
  obtain ⟨oldTask, charged, -, hCharged, hKept⟩ := h
  rw [hKept.coreId, depart_coreId, hCharged.coreId]

/-- Tasks stay on the core that they were associated with. -/
theorem exec_coreId {action : Action κ τ} (hNot : ∀ logicalId new, action ≠ .associate logicalId new)
    (hExec : exec depth s action = some s') (x : τ) :
    (s'.task x).coreId = (s.task x).coreId := by
  have hEffect := exec_effect hExec
  cases action with
  | associate logicalId new => exact (hNot logicalId new rfl).elim
  | wakeUp woken =>
      rcases hEffect with ⟨-, hKept⟩ | ⟨-, -, hKept⟩
      · exact (hKept.coreId x).trans (charge_coreId x)
      · exact (hKept.coreId x).trans (charge_coreId x)
  | timer core tsc tsc' =>
      rcases hEffect with ⟨-, hKept⟩ | hLeft
      · exact hKept.coreId x
      · exact hLeft.coreId x
  | yield core tsc tsc' => exact hEffect.coreId x
  | suspendCurrent core tsc tsc' => exact hEffect.coreId x
  | terminate core tsc tsc' => exact hEffect.coreId x
  | bootstrap core tsc => exact hEffect.coreId x
  | idleRound core tsc => exact hEffect.coreId x
  | ipi core => exact hEffect.coreId x
  | interrupt core => exact hEffect.coreId x

end Ricerca.Localsched
