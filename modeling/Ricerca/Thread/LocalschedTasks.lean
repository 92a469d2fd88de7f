import Ricerca.Foundation.Placement
import Ricerca.Thread.Localsched

/-! Every live task is current on its core, queued in the heap of its core, or suspended, and
only one of these, whatever the cores do. -/
namespace Ricerca.Localsched

open Foundation PairingHeap

universe u

variable {κ τ : Type u} [DecidableEq κ] [DecidableEq τ]

/-- Where a task can be. -/
inductive Place (κ : Type u) where
  | current (core : κ)
  | queued (core : κ)
  | suspended
  deriving DecidableEq

/-- What lies in each place, if the heaps hold the tasks of `queue`. -/
def places (s : State κ τ) (queue : κ → List τ) : Place κ → List τ
  | .current core => (s.localsched core).currentTask.toList
  | .queued core => queue core
  | .suspended => s.suspended

variable {s s' : State κ τ} {held held' : Place κ → List τ} {live live' : List τ} {core : κ}
  {task : τ} {tsc tsc' : UInt64} {depth : Nat}

/-- The fields that decide which tasks a heap holds, and where tasks belong. -/
structure Untouched (s s' : State κ τ) (live : List τ) : Prop where
  hooks : s'.hooks = s.hooks
  heapRoot : ∀ core, (s'.localsched core).heapRoot = (s.localsched core).heapRoot
  coreId : ∀ task ∈ live, (s'.task task).coreId = (s.task task).coreId

/-- The heaps hold the tasks that `held` says are queued, tasks are where they belong, and
nothing is in two places. -/
structure Arranged (s : State κ τ) (held : Place κ → List τ) (live : List τ) : Prop where
  heap : ∀ core, Heap s.hooks (s.localsched core).heapRoot (held (.queued core))
  placed : Placement held (· ∈ live)
  home : ∀ core task, task ∈ held (.current core) ∨ task ∈ held (.queued core) →
    (s.task task).coreId = core

/-- What comes out when the heap of a core without a current task is asked for one. -/
inductive Dequeued (s : State κ τ) (held : Place κ → List τ) (live : List τ) (core : κ) :
    Option τ → State κ τ → Prop where
  | empty {heap : Option τ × Hooks τ} (root : (s.localsched core).heapRoot = none)
      (root' : heap.1 = none) (arranged : Arranged (s.setHeap core heap) held live) :
      Dequeued s held live core none (s.setHeap core heap)
  | task {heap : Option τ × Hooks τ} {task : τ} {rest : List τ}
      (queued : (held (.queued core)).Perm (task :: rest))
      (arranged : Arranged (s.setHeap core heap)
        (Function.update (Function.update held (.queued core) rest) (.current core) [task]) live) :
      Dequeued s held live core (some task) (s.setHeap core heap)

namespace Arranged

omit [DecidableEq κ] [DecidableEq τ] in
theorem congr (h : Arranged s held live) (hSame : Untouched s s' live) : Arranged s' held live := by
  refine ⟨fun core => ?_, h.placed, fun core task hTask => ?_⟩
  · rw [hSame.hooks, hSame.heapRoot]
    exact h.heap core
  · have hLive : task ∈ live := hTask.elim h.placed.live_of_mem h.placed.live_of_mem
    rw [hSame.coreId task hLive]
    exact h.home core task hTask

omit [DecidableEq τ] in
/-- One heap changes, and touches only hooks of tasks that no other heap holds. -/
theorem setHeap {heap : Option τ × Hooks τ} {touched : List τ} (h : Arranged s held live)
    (hSame : Same s.hooks heap.2 touched) (hHeap : Heap heap.2 heap.1 (held' (.queued core)))
    (hApart : ∀ other, other ≠ core → ∀ x ∈ held (.queued other), x ∉ touched)
    (hRest : ∀ other, other ≠ core → held' (.queued other) = held (.queued other))
    (hPlaced : Placement held' (· ∈ live'))
    (hHome : ∀ other x, x ∈ held' (.current other) ∨ x ∈ held' (.queued other) →
      (s.task x).coreId = other) :
    Arranged (s.setHeap core heap) held' live' := by
  refine ⟨fun other => ?_, hPlaced, hHome⟩
  by_cases hOther : other = core
  · subst hOther
    simpa [State.setHeap, State.setData] using hHeap
  · rw [hRest other hOther]
    simpa [State.setHeap, State.setData, hOther] using
      (h.heap other).frame hSame (hApart other hOther)

/-- A task that is in no heap is put into the heap of its core. -/
theorem enqueue (h : Arranged s held live) (hCore : (s.task task).coreId = core)
    (hNew : ∀ other, task ∉ held (.queued other)) (hPlaced : Placement held' (· ∈ live'))
    (hTo : held' (.queued core) = task :: held (.queued core))
    (hRest : ∀ other, other ≠ core → held' (.queued other) = held (.queued other))
    (hCurrent : ∀ other x, x ∈ held' (.current other) → x ∈ held (.current other)) :
    Arranged (threadLocalschedEnqueueNolock core task s) held' live' := by
  have hInsert := (h.heap core).insert (threadLocalschedCmpUnfairness s) (hNew core)
  apply h.setHeap hInsert.2 (hTo ▸ hInsert.1) ?_ hRest hPlaced
  · intro other x hx
    rcases hx with hx | hx
    · exact h.home other x (.inl (hCurrent other x hx))
    · by_cases hOther : other = core
      · subst hOther
        rw [hTo] at hx
        rcases List.mem_cons.mp hx with rfl | hx
        · exact hCore
        · exact h.home other x (.inr hx)
      · rw [hRest other hOther] at hx
        exact h.home other x (.inr hx)
  · intro other hOther x hx hMem
    rcases List.mem_cons.mp hMem with rfl | hMem
    · exact hNew other hx
    · exact hOther (Place.queued.inj (h.placed.disjoint _ _ x hx hMem))

theorem dequeue (h : Arranged s held live) (hIdle : held (.current core) = []) {result : Option τ}
    (hDequeue : threadLocalschedTryDequeueNolock depth core s = some (result, s')) :
    Dequeued s held live core result s' := by
  rw [threadLocalschedTryDequeueNolock, Option.map_eq_some_iff] at hDequeue
  obtain ⟨⟨res, heap⟩, hRemove, hEq⟩ := hDequeue
  cases hEq
  obtain ⟨hRoot, rest, hPerm, hHeap, hSame⟩ := (h.heap core).removeMin hRemove
  have hApart : ∀ other, other ≠ core → ∀ x ∈ held (.queued other), x ∉ rest := by
    intro other hOther x hx hMem
    have hQueued : x ∈ held (.queued core) := hPerm.mem_iff.mpr (List.mem_append_right _ hMem)
    exact hOther (Place.queued.inj (h.placed.disjoint _ _ x hx hQueued))
  cases result with
  | none =>
      have hEmpty : held (.queued core) = [] := (h.heap core).root_eq_none_iff.mp hRoot.symm
      rw [← hRoot, hEmpty, Option.toList_none, List.nil_append] at hPerm
      have hNil : rest = [] := hPerm.symm.eq_nil
      subst hNil
      apply Dequeued.empty hRoot.symm (hHeap.root_eq_none_iff.mpr rfl)
      exact h.setHeap hSame (hEmpty ▸ hHeap) hApart (fun _ _ => rfl) h.placed h.home
  | some task =>
      rw [← hRoot, Option.toList_some, List.singleton_append] at hPerm
      apply Dequeued.task hPerm
      apply h.setHeap hSame (by simpa using hHeap) hApart
      · intro other hOther
        simp [hOther]
      · apply h.placed.move (p := .queued core) (q := .current core) (x := task) (by simp)
        · simpa using hPerm
        · simp [hIdle]
        · intro i hQueued hCurrent
          simp [hQueued, hCurrent]
      · intro other x hx
        by_cases hOther : other = core
        · subst hOther
          have hMem : x ∈ held (.queued other) := by
            rw [hPerm.mem_iff, List.mem_cons]
            simpa using hx
          exact h.home other x (.inr hMem)
        · exact h.home other x (by simpa [hOther] using hx)

end Arranged

/-- Between two steps. A core that runs no task has no current task either. -/
structure Conserved (s : State κ τ) (queue : κ → List τ) : Prop where
  arranged : Arranged s (places s queue) s.live
  waiting : ∀ core, s.phase core ≠ .running → (s.localsched core).currentTask = none

/-- In a handler of this core that has put its old task away. -/
structure Between (s : State κ τ) (core : κ) (held : Place κ → List τ) : Prop where
  arranged : Arranged s held s.live
  idle : held (.current core) = []
  current : ∀ other, other ≠ core →
    held (.current other) = (s.localsched other).currentTask.toList
  suspended : held .suspended = s.suspended
  waiting : ∀ other, other ≠ core → s.phase other ≠ .running →
    (s.localsched other).currentTask = none

omit [DecidableEq κ] [DecidableEq τ] in
theorem Conserved.of_arranged (h : Arranged s held s.live)
    (hCurrent : ∀ core, held (.current core) = (s.localsched core).currentTask.toList)
    (hSuspended : held .suspended = s.suspended)
    (hWaiting : ∀ core, s.phase core ≠ .running → (s.localsched core).currentTask = none) :
    Conserved s fun core => held (.queued core) := by
  have hPlaces : places s (fun core => held (.queued core)) = held := by
    funext place
    cases place with
    | current core => exact (hCurrent core).symm
    | queued core => rfl
    | suspended => exact hSuspended.symm
  exact ⟨hPlaces ▸ h, hWaiting⟩

omit [DecidableEq κ] [DecidableEq τ] in
/-- A core that has no current task may start to look for one. -/
theorem Conserved.between {queue : κ → List τ} (h : Conserved s queue)
    (hNone : (s.localsched core).currentTask = none) : Between s core (places s queue) := by
  refine ⟨h.arranged, ?_, fun _ _ => rfl, rfl, fun other _ => h.waiting other⟩
  rw [places, hNone, Option.toList_none]

namespace Between

/-- The handler ends with a task to run. -/
theorem resume {heap : Option τ × Hooks τ} {rest : List τ} (h : Between s core held)
    (hArranged : Arranged (s.setHeap core heap)
      (Function.update (Function.update held (.queued core) rest) (.current core) [task]) s.live) :
    ∃ queue, Conserved (resume core task tsc (s.setHeap core heap)) queue := by
  refine ⟨_, Conserved.of_arranged (hArranged.congr ⟨rfl, fun other => ?_, fun x _ => ?_⟩)
    (fun other => ?_) ?_ fun other hPhase => ?_⟩
  · by_cases hOther : other = core
    · subst hOther
      simp [Localsched.resume, State.setPhase, State.setData, State.setTask]
    · simp [Localsched.resume, State.setPhase, State.setData, State.setTask, hOther]
  · by_cases hx : x = task
    · subst hx
      simp [Localsched.resume, State.setPhase, State.setData, State.setTask]
    · simp [Localsched.resume, State.setPhase, State.setData, State.setTask, hx]
  · by_cases hOther : other = core
    · subst hOther
      simp [Localsched.resume, State.setPhase, State.setData, State.setTask]
    · simp [Localsched.resume, State.setPhase, State.setHeap, State.setData, State.setTask, hOther,
        h.current other hOther]
  · simpa [Localsched.resume, State.setPhase, State.setHeap, State.setData, State.setTask] using
      h.suspended
  · by_cases hOther : other = core
    · subst hOther
      simp [Localsched.resume, State.setPhase] at hPhase
    · simp only [Localsched.resume, State.setPhase, State.setHeap, State.setData, State.setTask, ne_eq,
        hOther, not_false_eq_true, Function.update_of_ne] at hPhase ⊢
      exact h.waiting other hOther hPhase

omit [DecidableEq τ] in
/-- The handler stops at the `hlt`. -/
theorem halt {heap : Option τ × Hooks τ} (idle : Bool) (h : Between s core held)
    (hNone : (s.localsched core).currentTask = none)
    (hArranged : Arranged (s.setHeap core heap) held s.live) :
    ∃ queue, Conserved (((s.setHeap core heap).setData core
      { (s.setHeap core heap).localsched core with idle := idle }).setPhase core .halted) queue := by
  refine ⟨_, Conserved.of_arranged (hArranged.congr ⟨rfl, fun other => ?_, fun x _ => rfl⟩)
    (fun other => ?_) h.suspended fun other hPhase => ?_⟩
  · by_cases hOther : other = core
    · subst hOther
      simp [State.setPhase, State.setData]
    · simp [State.setPhase, State.setData, hOther]
  · by_cases hOther : other = core
    · subst hOther
      simp [State.setPhase, State.setHeap, State.setData, h.idle, hNone]
    · simp [State.setPhase, State.setHeap, State.setData, hOther, h.current other hOther]
  · by_cases hOther : other = core
    · subst hOther
      simpa [State.setPhase, State.setHeap, State.setData] using hNone
    · simp only [State.setPhase, State.setHeap, State.setData, ne_eq, hOther, not_false_eq_true,
        Function.update_of_ne] at hPhase ⊢
      exact h.waiting other hOther hPhase

theorem dequeue (h : Between s core held) (hNone : (s.localsched core).currentTask = none)
    (hDequeue : threadLocalschedDequeue depth core tsc s = some s') :
    ∃ queue, Conserved s' queue := by
  rw [threadLocalschedDequeue, Option.map_eq_some_iff] at hDequeue
  obtain ⟨⟨result, middle⟩, hTry, rfl⟩ := hDequeue
  cases h.arranged.dequeue h.idle hTry with
  | empty _ _ arranged => exact h.halt true hNone arranged
  | task _ arranged => exact h.resume arranged

theorem dequeueRound (h : Between s core held) (hNone : (s.localsched core).currentTask = none)
    (hDequeue : threadLocalschedDequeueRound depth core tsc s = some s') :
    ∃ queue, Conserved s' queue := by
  rw [threadLocalschedDequeueRound, Option.map_eq_some_iff] at hDequeue
  obtain ⟨⟨result, middle⟩, hTry, rfl⟩ := hDequeue
  cases h.arranged.dequeue h.idle hTry with
  | @empty heap _ _ arranged =>
      have hSame : (s.setHeap core heap).setData core
          { (s.setHeap core heap).localsched core with
            idle := ((s.setHeap core heap).localsched core).idle } = s.setHeap core heap := by
        simp [State.setData]
      have hHalt := h.halt ((s.setHeap core heap).localsched core).idle hNone arranged
      rw [hSame] at hHalt
      exact hHalt
  | task _ arranged => exact h.resume arranged

end Between

section Steps

variable {queue : κ → List τ}

theorem charge_untouched : Untouched s (charge task s) live := by
  refine ⟨rfl, fun core => ?_, fun x _ => ?_⟩
  · by_cases hCore : core = (s.task task).coreId
    · subst hCore
      simp [charge, State.setData]
    · simp [charge, State.setData, State.setTask, hCore]
  · by_cases hx : x = task
    · subst hx
      simp [charge, State.setData, State.setTask]
    · simp [charge, State.setData, State.setTask, hx]

theorem charge_currentTask {other : κ} :
    ((charge task s).localsched other).currentTask = (s.localsched other).currentTask := by
  by_cases hOther : other = (s.task task).coreId
  · subst hOther
    simp [charge, State.setData]
  · simp [charge, State.setData, State.setTask, hOther]

theorem enqueueNolock_currentTask {other : κ} :
    ((threadLocalschedEnqueueNolock core task s).localsched other).currentTask =
      (s.localsched other).currentTask := by
  by_cases hOther : other = core
  · subst hOther
    simp [threadLocalschedEnqueueNolock, State.setHeap, State.setData]
  · simp [threadLocalschedEnqueueNolock, State.setHeap, State.setData, hOther]

theorem wakeUp_currentTask {other : κ} :
    ((threadLocalschedWakeUp task s).localsched other).currentTask =
      (s.localsched other).currentTask := by
  have hSame : ((threadLocalschedEnqueueNolock (s.task task).coreId task
      (charge task s)).localsched other).currentTask = (s.localsched other).currentTask := by
    rw [enqueueNolock_currentTask, charge_currentTask]
  rw [threadLocalschedWakeUp, threadLocalschedEnqueueSignalNolock]
  split <;> exact hSame

theorem wakeUp_phase : (threadLocalschedWakeUp task s).phase = s.phase := by
  rw [threadLocalschedWakeUp, threadLocalschedEnqueueSignalNolock]
  split <;> rfl

theorem wakeUp_lists : (threadLocalschedWakeUp task s).suspended = s.suspended ∧
    (threadLocalschedWakeUp task s).live = s.live := by
  rw [threadLocalschedWakeUp, threadLocalschedEnqueueSignalNolock]
  split <;> exact ⟨rfl, rfl⟩

/-- A task that is in no heap is woken up, and leaves the place where it was. -/
theorem Arranged.wakeUp (h : Arranged s held live) (hNew : ∀ core, task ∉ held (.queued core))
    (hPlaced : Placement held' (· ∈ live'))
    (hTo : held' (.queued (s.task task).coreId) = task :: held (.queued (s.task task).coreId))
    (hRest : ∀ other, other ≠ (s.task task).coreId →
      held' (.queued other) = held (.queued other))
    (hCurrent : ∀ other x, x ∈ held' (.current other) → x ∈ held (.current other)) :
    Arranged (threadLocalschedWakeUp task s) held' live' := by
  have hCharged : Arranged (charge task s) held live := h.congr charge_untouched
  have hCore : ((charge task s).task task).coreId = (s.task task).coreId := by
    simp [charge, State.setData, State.setTask]
  have hEnqueued := hCharged.enqueue hCore hNew hPlaced hTo hRest hCurrent
  rw [threadLocalschedWakeUp, threadLocalschedEnqueueSignalNolock]
  split
  · exact hEnqueued.congr ⟨rfl, fun _ => rfl, fun _ _ => rfl⟩
  · exact hEnqueued

omit [DecidableEq κ] [DecidableEq τ] in
/-- A task that is not live lies nowhere. -/
theorem Conserved.notMem (h : Conserved s queue) (hNew : task ∉ s.live) (place : Place κ) :
    task ∉ places s queue place :=
  fun hMem => hNew (h.arranged.placed.live_of_mem hMem)

/-- After a wake-up, with the lists of suspended and live tasks brought up to date. -/
theorem Conserved.of_wakeUp (suspended : List τ)
    (hArranged : Arranged (threadLocalschedWakeUp task s) held live)
    (hCurrent : ∀ core, held (.current core) = (s.localsched core).currentTask.toList)
    (hSuspended : held .suspended = suspended)
    (hWaiting : ∀ core, s.phase core ≠ .running → (s.localsched core).currentTask = none) :
    Conserved { threadLocalschedWakeUp task s with suspended := suspended, live := live }
      fun core => held (.queued core) := by
  have hSame : Untouched (threadLocalschedWakeUp task s)
      { threadLocalschedWakeUp task s with suspended := suspended, live := live } live :=
    ⟨rfl, fun _ => rfl, fun _ _ => rfl⟩
  apply Conserved.of_arranged (hArranged.congr hSame)
  · intro core
    rw [hCurrent core, wakeUp_currentTask]
  · exact hSuspended
  · intro core hPhase
    rw [wakeUp_currentTask]
    rw [wakeUp_phase] at hPhase
    exact hWaiting core hPhase

/-- A suspended task is woken up. -/
theorem Conserved.wakeUp (h : Conserved s queue) (hSuspended : task ∈ s.suspended) :
    ∃ queue', Conserved { threadLocalschedWakeUp task s with
      suspended := s.suspended.erase task } queue' := by
  have hNew : ∀ core, task ∉ places s queue (.queued core) := by
    intro core hMem
    cases h.arranged.placed.disjoint (.queued core) .suspended task hMem hSuspended
  have hPlaced : Placement (Function.update (Function.update (places s queue) .suspended
      (s.suspended.erase task)) (.queued (s.task task).coreId)
      (task :: queue (s.task task).coreId)) (· ∈ s.live) := by
    apply h.arranged.placed.move (p := .suspended) (q := .queued (s.task task).coreId) (x := task)
      (by simp)
    · simpa [places] using List.perm_cons_erase hSuspended
    · simp [places]
    · intro i hi hi'
      simp [hi, hi']
  have hArranged := h.arranged.wakeUp hNew hPlaced (by simp [places])
    (fun other hOther => by simp [hOther]) fun other x hx => by simpa using hx
  have hDone := Conserved.of_wakeUp (s.suspended.erase task) hArranged
    (fun core => by simp [places]) (by simp) h.waiting
  rw [← wakeUp_lists.2] at hDone
  exact ⟨_, hDone⟩

/-- A task that is not live is woken up. -/
theorem Conserved.wakeUp_new (h : Conserved s queue) (hNew : task ∉ s.live) :
    ∃ queue', Conserved { threadLocalschedWakeUp task s with live := task :: s.live } queue' := by
  have hPlaced : Placement (Function.update (places s queue) (.queued (s.task task).coreId)
      (task :: queue (s.task task).coreId)) (· ∈ task :: s.live) := by
    apply h.arranged.placed.insert (q := .queued (s.task task).coreId) (x := task) hNew
    · simp [places]
    · intro i hi
      simp [hi]
    · intro x
      exact List.mem_cons
  have hArranged := h.arranged.wakeUp (fun core => h.notMem hNew (.queued core)) hPlaced
    (by simp [places]) (fun other hOther => by simp [hOther]) fun other x hx => by simpa using hx
  have hDone := Conserved.of_wakeUp s.suspended hArranged
    (fun core => by simp [places]) (by simp [places]) h.waiting
  rw [← wakeUp_lists.1] at hDone
  exact ⟨_, hDone⟩

omit [DecidableEq κ] in
/-- The fields of a task that is not live may change. -/
theorem Conserved.setNew (h : Conserved s queue) (hNew : task ∉ s.live) (value : ThreadTask κ) :
    Conserved (s.setTask task value) queue := by
  refine ⟨h.arranged.congr ⟨rfl, fun _ => rfl, fun x hx => ?_⟩, h.waiting⟩
  have hNe : x ≠ task := fun hEq => hNew (hEq ▸ hx)
  simp [State.setTask, hNe]

theorem Conserved.associate {logicalId : κ} (h : Conserved s queue) (hNew : task ∉ s.live) :
    ∃ queue', Conserved { threadLocalschedAssociate logicalId task s with
      live := task :: s.live } queue' :=
  (h.setNew hNew _).wakeUp_new hNew

/-- Nothing moves, and no core stops running. -/
structure Quiet (s s' : State κ τ) : Prop where
  hooks : s'.hooks = s.hooks
  heapRoot : ∀ core, (s'.localsched core).heapRoot = (s.localsched core).heapRoot
  currentTask : ∀ core, (s'.localsched core).currentTask = (s.localsched core).currentTask
  coreId : ∀ task, (s'.task task).coreId = (s.task task).coreId
  suspended : s'.suspended = s.suspended
  live : s'.live = s.live
  running : ∀ core, s'.phase core ≠ .running → s.phase core ≠ .running

omit [DecidableEq κ] [DecidableEq τ] in
theorem Conserved.quiet (h : Conserved s queue) (hQuiet : Quiet s s') : Conserved s' queue := by
  have hPlaces : places s' queue = places s queue := by
    funext place
    cases place with
    | current core => rw [places, places, hQuiet.currentTask]
    | queued core => rfl
    | suspended => exact hQuiet.suspended
  refine ⟨?_, fun core hPhase => ?_⟩
  · rw [hPlaces, hQuiet.live]
    exact h.arranged.congr ⟨hQuiet.hooks, hQuiet.heapRoot, fun x _ => hQuiet.coreId x⟩
  · rw [hQuiet.currentTask]
    exact h.waiting core (hQuiet.running core hPhase)

theorem updateUnfairness_quiet
    (hUpdate : threadLocalschedUpdateUnfairness core task tsc s = some s') : Quiet s s' := by
  simp only [threadLocalschedUpdateUnfairness] at hUpdate
  split at hUpdate
  · cases hUpdate
  · cases hUpdate
    refine ⟨rfl, fun other => ?_, fun other => ?_, fun x => ?_, rfl, rfl, fun _ => id⟩
    · by_cases hOther : other = core
      · subst hOther
        simp [State.setData]
      · simp [State.setData, State.setTask, hOther]
    · by_cases hOther : other = core
      · subst hOther
        simp [State.setData]
      · simp [State.setData, State.setTask, hOther]
    · by_cases hx : x = task
      · subst hx
        simp [State.setData, State.setTask]
      · simp [State.setData, State.setTask, hx]

omit [DecidableEq τ] in
theorem interrupted_quiet : Quiet s (interrupted core s) := by
  rw [interrupted]
  split
  · rename_i hHalted
    refine ⟨rfl, fun _ => rfl, fun _ => rfl, fun _ => rfl, rfl, rfl, fun other hPhase => ?_⟩
    by_cases hOther : other = core
    · rw [hOther, hHalted]
      decide
    · simpa [State.setPhase, hOther] using hPhase
  · exact ⟨rfl, fun _ => rfl, fun _ => rfl, fun _ => rfl, rfl, rfl, fun _ => id⟩

omit [DecidableEq τ] in
theorem ipiDummy_quiet : Quiet s (threadLocalschedIpiDummy core s) := by
  refine ⟨rfl, fun other => ?_, fun other => ?_, fun _ => rfl, rfl, rfl, fun _ => id⟩ <;>
  · by_cases hOther : other = core
    · subst hOther
      simp [threadLocalschedIpiDummy, State.setData]
    · simp [threadLocalschedIpiDummy, State.setData, hOther]

/-- The old task goes back into the heap of its core. -/
theorem Conserved.requeue (h : Conserved s queue)
    (hCurrent : (s.localsched core).currentTask = some task) :
    Between (threadLocalschedEnqueueNolock core task s) core
      (Function.update (Function.update (places s queue) (.current core) []) (.queued core)
        (task :: queue core)) := by
  have hMem : task ∈ places s queue (.current core) := by simp [places, hCurrent]
  have hPlaced : Placement (Function.update (Function.update (places s queue) (.current core) [])
      (.queued core) (task :: queue core)) (· ∈ s.live) := by
    apply h.arranged.placed.move (p := .current core) (q := .queued core) (x := task) (by simp)
    · simp [places, hCurrent]
    · simp [places]
    · intro i hi hi'
      simp [hi, hi']
  have hNew : ∀ other, task ∉ places s queue (.queued other) := by
    intro other hOther
    cases h.arranged.placed.disjoint _ _ task hMem hOther
  have hOthers : ∀ other x, x ∈ Function.update (Function.update (places s queue) (.current core) [])
      (.queued core) (task :: queue core) (.current other) → x ∈ places s queue (.current other) := by
    intro other x hx
    by_cases hOther : other = core
    · subst hOther
      simp at hx
    · simpa [hOther] using hx
  refine ⟨?_, by simp, fun other hOther => ?_, by simp [places]; rfl, fun other hOther hPhase => ?_⟩
  · exact h.arranged.enqueue (h.arranged.home core task (.inl hMem)) hNew hPlaced (by simp [places])
      (fun other hOther => by simp [hOther]) hOthers
  · rw [enqueueNolock_currentTask]
    simp [places, hOther]
  · rw [enqueueNolock_currentTask]
    exact h.waiting other hPhase

/-- The old task is put away. -/
theorem Conserved.depart (h : Conserved s queue)
    (hCurrent : (s.localsched core).currentTask = some task) (fate : Fate) :
    ∃ held, Between (depart core task s fate) core held := by
  have hMem : task ∈ places s queue (.current core) := by simp [places, hCurrent]
  cases fate with
  | requeue => exact ⟨_, h.requeue hCurrent⟩
  | suspend =>
      have hPlaced : Placement (Function.update (Function.update (places s queue) (.current core) [])
          .suspended (task :: s.suspended)) (· ∈ s.live) := by
        apply h.arranged.placed.move (p := .current core) (q := .suspended) (x := task) (by simp)
        · simp [places, hCurrent]
        · simp [places]
        · intro i hi hi'
          simp [hi, hi']
      refine ⟨_, ⟨fun other => ?_, hPlaced, fun other x hx => ?_⟩, by simp, fun other hOther => ?_,
        by simp [Localsched.depart], fun other _ => h.waiting other⟩
      · simpa [Localsched.depart, State.setTask] using h.arranged.heap other
      · have hCoreId : ((Localsched.depart core task s .suspend).task x).coreId = (s.task x).coreId := by
          by_cases hEq : x = task
          · subst hEq
            simp [Localsched.depart, State.setTask]
          · simp [Localsched.depart, State.setTask, hEq]
        rw [hCoreId]
        apply h.arranged.home other x
        by_cases hOther : other = core
        · subst hOther
          exact .inr (by simpa using hx)
        · simpa [hOther] using hx
      · simp [hOther, places, Localsched.depart, State.setTask]
  | terminate =>
      have hPlaced : Placement (Function.update (places s queue) (.current core) [])
          (· ∈ s.live.filter (· ≠ task)) := by
        apply h.arranged.placed.remove (p := .current core) (x := task)
        · simp [places, hCurrent]
        · intro i hi
          simp [hi]
        · intro x
          simp [and_comm]
      refine ⟨_, ⟨fun other => ?_, hPlaced, fun other x hx => ?_⟩, by simp, fun other hOther => ?_,
        by simp [Localsched.depart, places], fun other _ => h.waiting other⟩
      · simpa [Localsched.depart] using h.arranged.heap other
      · apply h.arranged.home other x
        by_cases hOther : other = core
        · subst hOther
          exact .inr (by simpa using hx)
        · simpa [hOther] using hx
      · simp [hOther, places, Localsched.depart]

omit [DecidableEq τ] in
/-- The current task of the core is forgotten. -/
theorem Between.clear (h : Between s core held) :
    Between (s.setData core { s.localsched core with currentTask := none }) core held := by
  refine ⟨h.arranged.congr ⟨rfl, fun other => ?_, fun _ _ => rfl⟩, h.idle, fun other hOther => ?_,
    h.suspended, fun other hOther hPhase => ?_⟩
  · by_cases hOther : other = core
    · subst hOther
      simp [State.setData]
    · simp [State.setData, hOther]
  · simp [State.setData, hOther, h.current other hOther]
  · simpa [State.setData, hOther] using h.waiting other hOther hPhase

theorem Conserved.leave {fate : Fate} (h : Conserved s queue)
    (hLeave : leave depth core fate tsc tsc' s = some s') : ∃ queue', Conserved s' queue' := by
  rw [Localsched.leave] at hLeave
  split at hLeave
  · cases hLeave
  · rename_i oldTask hCurrent
    simp only [Option.bind_eq_bind, Option.bind_eq_some_iff] at hLeave
    obtain ⟨charged, hUpdate, hDequeue⟩ := hLeave
    have hQuiet := updateUnfairness_quiet hUpdate
    obtain ⟨held, hBetween⟩ := (h.quiet hQuiet).depart ((hQuiet.currentTask core).trans hCurrent) fate
    apply hBetween.clear.dequeue _ hDequeue
    simp [State.setData]

theorem Conserved.timer (h : Conserved s queue)
    (hTimer : threadLocalschedTimerIntHandler depth core tsc tsc' s = some s') :
    ∃ queue', Conserved s' queue' := by
  rw [threadLocalschedTimerIntHandler] at hTimer
  split at hTimer
  · cases hTimer
    exact ⟨queue, h.quiet interrupted_quiet⟩
  · rename_i oldTask hCurrent
    simp only [Option.bind_eq_bind, Option.bind_eq_some_iff, Option.some.injEq, Prod.exists] at hTimer
    obtain ⟨charged, hUpdate, result, taken, hTry, rfl⟩ := hTimer
    have hQuiet := updateUnfairness_quiet hUpdate
    have hBetween := (h.quiet hQuiet).requeue ((hQuiet.currentTask core).trans hCurrent)
    cases hBetween.arranged.dequeue hBetween.idle hTry with
    | empty root _ _ =>
        have hEmpty := (hBetween.arranged.heap core).root_eq_none_iff.mp root
        simp at hEmpty
    | task _ arranged => exact hBetween.resume arranged

/-- Every step keeps the tasks where they belong. -/
theorem Conserved.step {action : Action κ τ} (h : Conserved s queue)
    (hExec : exec depth s action = some s') : ∃ queue', Conserved s' queue' := by
  cases action with
  | associate logicalId task =>
      simp only [exec] at hExec
      split at hExec
      · cases hExec
      · cases hExec
        exact h.associate ‹_›
  | wakeUp task =>
      simp only [exec] at hExec
      split at hExec
      · cases hExec
        exact h.wakeUp ‹_›
      · split at hExec
        · cases hExec
        · cases hExec
          exact h.wakeUp_new ‹_›
  | timer core tsc tsc' => exact h.timer hExec
  | yield core tsc tsc' => exact h.leave hExec
  | suspendCurrent core tsc tsc' => exact h.leave hExec
  | terminate core tsc tsc' => exact h.leave hExec
  | bootstrap core tsc =>
      simp only [exec] at hExec
      split at hExec
      · rename_i hPhase
        have hNone : (s.localsched core).currentTask = none := by
          apply h.waiting core
          rw [hPhase]
          decide
        exact (h.between hNone).dequeue hNone hExec
      · cases hExec
  | idleRound core tsc =>
      simp only [exec] at hExec
      split at hExec
      · rename_i hPhase
        have hNone : (s.localsched core).currentTask = none := by
          apply h.waiting core
          rw [hPhase]
          decide
        exact (h.between hNone).dequeueRound hNone hExec
      · cases hExec
  | ipi core =>
      simp only [exec] at hExec
      split at hExec
      · cases hExec
      · cases hExec
        have hQuiet : Quiet s (threadLocalschedIpiDummy core s) := ipiDummy_quiet
        have hTaken : Conserved ((threadLocalschedIpiDummy core s).setIpis core (s.ipis core - 1))
            queue :=
          h.quiet { hQuiet with }
        exact ⟨queue, hTaken.quiet interrupted_quiet⟩
  | interrupt core =>
      cases hExec
      exact ⟨queue, h.quiet interrupted_quiet⟩

omit [DecidableEq κ] [DecidableEq τ] in
theorem Conserved.initial (h : Initial s) : Conserved s fun _ => [] := by
  have hEmpty : ∀ place, places s (fun _ => []) place = [] := by
    intro place
    cases place with
    | current core => simp [places, (h.data core).2.1]
    | queued core => rfl
    | suspended => exact h.suspended
  refine ⟨⟨fun core => ?_, ⟨fun p => ?_, fun p q x hp _ => ?_, fun x => ?_⟩, fun core x hx => ?_⟩,
    fun core _ => (h.data core).2.1⟩
  · rw [(h.data core).1]
    exact Heap.empty
  · simp [hEmpty]
  · simp [hEmpty] at hp
  · simp [hEmpty, h.live]
  · simp [hEmpty] at hx

theorem Conserved.run {trace : List (Action κ τ)} (run : system.Execution trace s) :
    ∃ queue, Conserved s queue := by
  apply run.stateInvariant (P := fun s => ∃ queue, Conserved s queue)
  · intro s hInit
    exact ⟨_, Conserved.initial hInit⟩
  · rintro s action s' ⟨queue, h⟩ ⟨depth, hExec⟩
    exact h.step hExec

end Steps

section Unfairness

/-- The tasks whose unfairness an action may change: a task that is woken up, and the current
task of a core that leaves it. -/
def charged (s : State κ τ) : Action κ τ → List τ
  | .associate _ task | .wakeUp task => [task]
  | .timer core _ _ | .yield core _ _ | .suspendCurrent core _ _ | .terminate core _ _ =>
      (s.localsched core).currentTask.toList
  | .bootstrap _ _ | .idleRound _ _ | .ipi _ | .interrupt _ => []

variable {x : τ}

theorem resume_unfairness :
    ((resume core task tsc s).task x).unfairness = (s.task x).unfairness := by
  by_cases hx : x = task
  · subst hx
    simp [resume, State.setPhase, State.setData, State.setTask]
  · simp [resume, State.setPhase, State.setData, State.setTask, hx]

/-- Only a heap changes when it is asked for a task. -/
theorem tryDequeue_eq {result : Option τ}
    (hTry : threadLocalschedTryDequeueNolock depth core s = some (result, s')) :
    ∃ heap, s' = s.setHeap core heap := by
  rw [threadLocalschedTryDequeueNolock, Option.map_eq_some_iff] at hTry
  obtain ⟨⟨_, heap⟩, _, hEq⟩ := hTry
  cases hEq
  exact ⟨heap, rfl⟩

theorem dequeue_unfairness (hDequeue : threadLocalschedDequeue depth core tsc s = some s') :
    (s'.task x).unfairness = (s.task x).unfairness := by
  rw [threadLocalschedDequeue, Option.map_eq_some_iff] at hDequeue
  obtain ⟨⟨result, taken⟩, hTry, rfl⟩ := hDequeue
  obtain ⟨heap, rfl⟩ := tryDequeue_eq hTry
  cases result with
  | none => rfl
  | some task => exact resume_unfairness

theorem dequeueRound_unfairness
    (hDequeue : threadLocalschedDequeueRound depth core tsc s = some s') :
    (s'.task x).unfairness = (s.task x).unfairness := by
  rw [threadLocalschedDequeueRound, Option.map_eq_some_iff] at hDequeue
  obtain ⟨⟨result, taken⟩, hTry, rfl⟩ := hDequeue
  obtain ⟨heap, rfl⟩ := tryDequeue_eq hTry
  cases result with
  | none => rfl
  | some task => exact resume_unfairness

theorem updateUnfairness_unfairness (hNe : x ≠ task)
    (hUpdate : threadLocalschedUpdateUnfairness core task tsc s = some s') :
    (s'.task x).unfairness = (s.task x).unfairness := by
  simp only [threadLocalschedUpdateUnfairness] at hUpdate
  split at hUpdate
  · cases hUpdate
  · cases hUpdate
    simp [State.setData, State.setTask, hNe]

theorem depart_unfairness {fate : Fate} :
    ((depart core task s fate).task x).unfairness = (s.task x).unfairness := by
  cases fate with
  | requeue => rfl
  | suspend =>
      by_cases hx : x = task
      · subst hx
        simp [depart, State.setTask]
      · simp [depart, State.setTask, hx]
  | terminate => rfl

theorem leave_unfairness {fate : Fate} (hNe : (s.localsched core).currentTask ≠ some x)
    (hLeave : leave depth core fate tsc tsc' s = some s') :
    (s'.task x).unfairness = (s.task x).unfairness := by
  rw [leave] at hLeave
  split at hLeave
  · cases hLeave
  · rename_i oldTask hCurrent
    simp only [Option.bind_eq_bind, Option.bind_eq_some_iff] at hLeave
    obtain ⟨charged, hUpdate, hDequeue⟩ := hLeave
    have hOld : x ≠ oldTask := fun hEq => hNe (hEq ▸ hCurrent)
    exact (dequeue_unfairness hDequeue).trans
      (depart_unfairness.trans (updateUnfairness_unfairness hOld hUpdate))

theorem timer_unfairness (hNe : (s.localsched core).currentTask ≠ some x)
    (hTimer : threadLocalschedTimerIntHandler depth core tsc tsc' s = some s') :
    (s'.task x).unfairness = (s.task x).unfairness := by
  rw [threadLocalschedTimerIntHandler] at hTimer
  split at hTimer
  · cases hTimer
    rw [interrupted]
    split <;> rfl
  · rename_i oldTask hCurrent
    simp only [Option.bind_eq_bind, Option.bind_eq_some_iff, Option.some.injEq, Prod.exists] at hTimer
    obtain ⟨charged, hUpdate, result, taken, hTry, rfl⟩ := hTimer
    have hOld : x ≠ oldTask := fun hEq => hNe (hEq ▸ hCurrent)
    obtain ⟨heap, rfl⟩ := tryDequeue_eq hTry
    rw [resume_unfairness]
    change (charged.task x).unfairness = (s.task x).unfairness
    exact updateUnfairness_unfairness hOld hUpdate

theorem wakeUp_unfairness (hNe : x ≠ task) :
    ((threadLocalschedWakeUp task s).task x).unfairness = (s.task x).unfairness := by
  have hCharge : ((charge task s).task x).unfairness = (s.task x).unfairness := by
    simp [charge, State.setData, State.setTask, hNe]
  rw [threadLocalschedWakeUp, threadLocalschedEnqueueSignalNolock]
  split <;> exact hCharge

theorem exec_unfairness {action : Action κ τ} (hNot : x ∉ charged s action)
    (hExec : exec depth s action = some s') : (s'.task x).unfairness = (s.task x).unfairness := by
  cases action with
  | associate logicalId task =>
      have hNe : x ≠ task := by simpa [charged] using hNot
      simp only [exec] at hExec
      split at hExec
      · cases hExec
      · cases hExec
        refine (wakeUp_unfairness hNe).trans ?_
        simp [State.setTask, hNe]
  | wakeUp task =>
      have hNe : x ≠ task := by simpa [charged] using hNot
      simp only [exec] at hExec
      split at hExec
      · cases hExec
        exact wakeUp_unfairness hNe
      · split at hExec
        · cases hExec
        · cases hExec
          exact wakeUp_unfairness hNe
  | timer core tsc tsc' => exact timer_unfairness (by simpa [charged] using hNot) hExec
  | yield core tsc tsc' => exact leave_unfairness (by simpa [charged] using hNot) hExec
  | suspendCurrent core tsc tsc' => exact leave_unfairness (by simpa [charged] using hNot) hExec
  | terminate core tsc tsc' => exact leave_unfairness (by simpa [charged] using hNot) hExec
  | bootstrap core tsc =>
      simp only [exec] at hExec
      split at hExec
      · exact dequeue_unfairness hExec
      · cases hExec
  | idleRound core tsc =>
      simp only [exec] at hExec
      split at hExec
      · exact dequeueRound_unfairness hExec
      · cases hExec
  | ipi core =>
      simp only [exec] at hExec
      split at hExec
      · cases hExec
      · cases hExec
        rw [interrupted]
        split <;> rfl
  | interrupt core =>
      cases hExec
      rw [interrupted]
      split <;> rfl

/-- A task in a heap is not charged. -/
theorem Conserved.notMem_charged {queue : κ → List τ} {action : Action κ τ} (h : Conserved s queue)
    (hQueued : x ∈ queue core) (hExec : exec depth s action = some s') : x ∉ charged s action := by
  have hQueue : x ∈ places s queue (.queued core) := hQueued
  have hLive : x ∈ s.live := h.arranged.placed.live_of_mem hQueue
  have hCurrent : ∀ other, x ∉ (s.localsched other).currentTask.toList := by
    intro other hMem
    cases h.arranged.placed.disjoint (.queued core) (.current other) x hQueue hMem
  have hSuspended : x ∉ s.suspended := by
    intro hMem
    cases h.arranged.placed.disjoint (.queued core) .suspended x hQueue hMem
  cases action with
  | associate logicalId task =>
      simp only [exec] at hExec
      split at hExec
      · cases hExec
      · rename_i hNew
        rw [charged, List.mem_singleton]
        exact fun hEq => hNew (hEq ▸ hLive)
  | wakeUp task =>
      simp only [exec] at hExec
      rw [charged, List.mem_singleton]
      intro hEq
      subst hEq
      rw [if_neg hSuspended, if_pos hLive] at hExec
      cases hExec
  | timer core tsc tsc' => exact hCurrent core
  | yield core tsc tsc' => exact hCurrent core
  | suspendCurrent core tsc tsc' => exact hCurrent core
  | terminate core tsc tsc' => exact hCurrent core
  | bootstrap core tsc => exact List.not_mem_nil
  | idleRound core tsc => exact List.not_mem_nil
  | ipi core => exact List.not_mem_nil
  | interrupt core => exact List.not_mem_nil

end Unfairness

theorem dequeue_live (hDequeue : threadLocalschedDequeue depth core tsc s = some s') :
    s'.live = s.live := by
  rw [threadLocalschedDequeue, Option.map_eq_some_iff] at hDequeue
  obtain ⟨⟨result, taken⟩, hTry, rfl⟩ := hDequeue
  obtain ⟨heap, rfl⟩ := tryDequeue_eq hTry
  cases result with
  | none => rfl
  | some task => rfl

theorem terminate_live (hCurrent : (s.localsched core).currentTask = some task)
    (hExec : exec depth s (.terminate core tsc tsc') = some s') : task ∉ s'.live := by
  simp only [exec, threadLocalschedTerminationHandler, leave, hCurrent, Option.bind_eq_bind,
    Option.bind_eq_some_iff] at hExec
  obtain ⟨charged, hUpdate, hDequeue⟩ := hExec
  rw [dequeue_live hDequeue]
  simp [State.setData, depart]

/-- In every state that any interleaving reaches, the heaps hold certain tasks such that every
live task, and no other one, is in exactly one place and there once: current on a core, in the
heap of a core or suspended. A task that is current or queued is so on its own core. The next
step, whatever it is, does not change the unfairness of a task in a heap, and a task that
terminates is not live any more. -/
theorem localsched_conserves_tasks {trace : List (Action κ τ)} (run : system.Execution trace s) :
    ∃ queue : κ → List τ,
      (∀ core, Heap s.hooks (s.localsched core).heapRoot (queue core)) ∧
      Placement (places s queue) (· ∈ s.live) ∧
      (∀ core task, (s.localsched core).currentTask = some task ∨ task ∈ queue core →
        (s.task task).coreId = core) ∧
      ∀ action s', system.step s action s' →
        (∀ core, ∀ task ∈ queue core, (s'.task task).unfairness = (s.task task).unfairness) ∧
        ∀ core tsc tsc' task, action = .terminate core tsc tsc' →
          (s.localsched core).currentTask = some task → task ∉ s'.live := by
  obtain ⟨queue, h⟩ := Conserved.run run
  refine ⟨queue, h.arranged.heap, h.arranged.placed, fun core task hTask => ?_, ?_⟩
  · apply h.arranged.home core task
    rw [places, Option.mem_toList]
    exact hTask
  · rintro action s' ⟨depth, hExec⟩
    refine ⟨fun core task hQueued => ?_, fun core tsc tsc' task hAction hCurrent => ?_⟩
    · exact exec_unfairness (h.notMem_charged hQueued hExec) hExec
    · subst hAction
      exact terminate_live hCurrent hExec

/-- A heap that is asked for a task answers: `treeify` comes to an end on every heap that a run
builds. -/
theorem localsched_tryDequeue_returns {trace : List (Action κ τ)} (run : system.Execution trace s)
    (core : κ) : ∃ depth result s',
      threadLocalschedTryDequeueNolock depth core s = some (result, s') := by
  obtain ⟨queue, h⟩ := Conserved.run run
  obtain ⟨depth, hDepth⟩ := (h.arranged.heap core).exists_removeMin (threadLocalschedCmpUnfairness s)
  obtain ⟨rest, -, hRemove, -⟩ := hDepth depth (Nat.le_refl _)
  refine ⟨depth, (s.localsched core).heapRoot, s.setHeap core rest, ?_⟩
  rw [threadLocalschedTryDequeueNolock, hRemove, Option.map_some]

/-- Two cores: the first runs one of its three tasks, has one queued and one suspended, and the
second has terminated its only task. -/
theorem localsched_conserves_tasks_two_cores :
    ∃ s : State Nat Nat, system.Execution
        [.bootstrap 1 5, .associate 0 1, .associate 0 2, .associate 0 3, .bootstrap 0 10,
          .timer 0 20 21, .associate 1 4, .ipi 1, .idleRound 1 30, .suspendCurrent 0 40 41,
          .terminate 1 50 51] s ∧
      s.live = [3, 2, 1] ∧ s.suspended.length = 1 ∧ s.phase 0 = .running ∧ s.phase 1 = .halted ∧
      ∃ queue, Placement (places s queue) (· ∈ s.live) := by
  obtain ⟨s, hRun, hFacts⟩ : ∃ s : State Nat Nat, system.Execution
        [.bootstrap 1 5, .associate 0 1, .associate 0 2, .associate 0 3, .bootstrap 0 10,
          .timer 0 20 21, .associate 1 4, .ipi 1, .idleRound 1 30, .suspendCurrent 0 40 41,
          .terminate 1 50 51] s ∧
      s.live = [3, 2, 1] ∧ s.suspended.length = 1 ∧ s.phase 0 = .running ∧ s.phase 1 = .halted :=
    ⟨_, run_of_foldlM 8 zeroed_initial rfl, rfl, rfl, rfl, rfl⟩
  obtain ⟨queue, -, hPlaced, -⟩ := localsched_conserves_tasks hRun
  exact ⟨s, hRun, hFacts.1, hFacts.2.1, hFacts.2.2.1, hFacts.2.2.2, queue, hPlaced⟩

end Ricerca.Localsched
