import Ricerca.Foundation.Execution
import Ricerca.Lib.PairingHeap

/-! The local schedulers of `thread/tasking/localsched.c`. Every core has a heap of the tasks
that are ready to run on it, ordered by unfairness. A handler runs with interrupts disabled
and holds the lock of its core, so it is one step; only the idle wait of
`thread_localsched_dequeue` gives up the lock and is cut into its rounds. Address spaces,
register frames, timer programming and TLB bookkeeping are left out. -/
namespace Ricerca.Localsched

open Foundation PairingHeap

universe u

/-- The scheduling fields of `struct thread_task`. -/
structure ThreadTask (κ : Type u) where
  unfairness : UInt64
  accUnfairnessIdle : UInt64
  timestamp : UInt64
  coreId : κ

/-- `struct thread_localsched_data`. -/
structure LocalschedData (τ : Type u) where
  heapRoot : Option τ
  idle : Bool
  tasksCount : UInt64
  idleUnfairness : UInt64
  currentTask : Option τ

/-- Where a core is: before its bootstrap call, in some task, at the `hlt` of the idle wait,
or between the `hlt` and the next look at the heap. -/
inductive Phase where
  | booting
  | running
  | halted
  | woken
  deriving DecidableEq

/-- The memory of the schedulers. `ipis` counts the interrupts of the scheduler that a core
has been sent and has not taken yet. `live` are the tasks that are associated with a core and
have not terminated, `suspended` those of them that wait to be woken up. -/
structure State (κ τ : Type u) where
  task : τ → ThreadTask κ
  hooks : Hooks τ
  localsched : κ → LocalschedData τ
  phase : κ → Phase
  ipis : κ → Nat
  suspended : List τ
  live : List τ

variable {κ τ : Type u} [DecidableEq κ] [DecidableEq τ]

namespace State

def setTask (s : State κ τ) (task : τ) (value : ThreadTask κ) : State κ τ :=
  { s with task := Function.update s.task task value }

def setData (s : State κ τ) (core : κ) (value : LocalschedData τ) : State κ τ :=
  { s with localsched := Function.update s.localsched core value }

def setPhase (s : State κ τ) (core : κ) (value : Phase) : State κ τ :=
  { s with phase := Function.update s.phase core value }

def setIpis (s : State κ τ) (core : κ) (value : Nat) : State κ τ :=
  { s with ipis := Function.update s.ipis core value }

/-- The heap of a core gets a new root, and hooks change. -/
def setHeap (s : State κ τ) (core : κ) (heap : Option τ × Hooks τ) : State κ τ :=
  { s.setData core { s.localsched core with heapRoot := heap.1 } with hooks := heap.2 }

end State

def threadLocalschedCmpUnfairness (s : State κ τ) (left right : τ) : Bool :=
  (s.task left).unfairness < (s.task right).unfairness

def threadLocalschedEnqueueNolock (core : κ) (task : τ) (s : State κ τ) : State κ τ :=
  s.setHeap core
    (pairingHeapInsert (threadLocalschedCmpUnfairness s) s.hooks (s.localsched core).heapRoot task)

def threadLocalschedEnqueueSignalNolock (core : κ) (task : τ) (s : State κ τ) : State κ τ :=
  let s := threadLocalschedEnqueueNolock core task s
  if (s.localsched core).idle then s.setIpis core (s.ipis core + 1) else s

/-- Returns nothing when the stack is too small for the heap. -/
def threadLocalschedTryDequeueNolock (depth : Nat) (core : κ) (s : State κ τ) :
    Option (Option τ × State κ τ) :=
  (pairingHeapRemoveMin (threadLocalschedCmpUnfairness s) depth s.hooks
    (s.localsched core).heapRoot).map fun (res, heap) => (res, s.setHeap core heap)

/-- The end of every handler: the core goes on with this task. -/
def resume (core : κ) (task : τ) (tsc : UInt64) (s : State κ τ) : State κ τ :=
  let s := s.setTask task { s.task task with timestamp := tsc }
  (s.setData core { s.localsched core with currentTask := some task }).setPhase core .running

/-- Up to the idle wait, or past it if there is a task. -/
def threadLocalschedDequeue (depth : Nat) (core : κ) (tsc : UInt64) (s : State κ τ) :
    Option (State κ τ) :=
  (threadLocalschedTryDequeueNolock depth core s).map fun (result, s) =>
    match result with
    | some task => resume core task tsc s
    | none => (s.setData core { s.localsched core with idle := true }).setPhase core .halted

/-- One round of the idle wait, after the `hlt`. -/
def threadLocalschedDequeueRound (depth : Nat) (core : κ) (tsc : UInt64) (s : State κ τ) :
    Option (State κ τ) :=
  (threadLocalschedTryDequeueNolock depth core s).map fun (result, s) =>
    match result with
    | some task => resume core task tsc s
    | none => s.setPhase core .halted

/-- Without a task on the core the division faults. -/
def threadLocalschedUpdateUnfairness (core : κ) (task : τ) (tsc : UInt64) (s : State κ τ) :
    Option (State κ τ) :=
  let diff := tsc - (s.task task).timestamp
  let data := s.localsched core
  if data.tasksCount = 0 then
    none
  else
    some ((s.setTask task { s.task task with unfairness := (s.task task).unfairness + diff }).setData
      core { data with idleUnfairness := data.idleUnfairness + diff / data.tasksCount })

/-- An interrupt ends the `hlt`. -/
def interrupted (core : κ) (s : State κ τ) : State κ τ :=
  if s.phase core = .halted then s.setPhase core .woken else s

/-- `tsc` is read when the old task stops, `tsc'` when the new one starts. -/
def threadLocalschedTimerIntHandler (depth : Nat) (core : κ) (tsc tsc' : UInt64) (s : State κ τ) :
    Option (State κ τ) :=
  match (s.localsched core).currentTask with
  | none => some (interrupted core s)
  | some oldTask => do
      let s ← threadLocalschedUpdateUnfairness core oldTask tsc s
      let s := threadLocalschedEnqueueNolock core oldTask s
      let (newTask, s) ← threadLocalschedTryDequeueNolock depth core s
      some (resume core (newTask.getD oldTask) tsc' s)

/-- What becomes of the old task in a scheduler call. -/
inductive Fate where
  | requeue
  | suspend
  | terminate
  deriving DecidableEq

/-- The part of the preemption and termination handlers that differs. -/
def depart (core : κ) (oldTask : τ) (s : State κ τ) : Fate → State κ τ
  | .requeue => threadLocalschedEnqueueNolock core oldTask s
  | .suspend =>
      { s.setTask oldTask
          { s.task oldTask with accUnfairnessIdle := (s.localsched core).idleUnfairness } with
        suspended := oldTask :: s.suspended }
  | .terminate => { s with live := s.live.filter (· ≠ oldTask) }

/-- What the preemption and termination handlers have in common. Without a current task they
fault. -/
def leave (depth : Nat) (core : κ) (fate : Fate) (tsc tsc' : UInt64) (s : State κ τ) :
    Option (State κ τ) :=
  match (s.localsched core).currentTask with
  | none => none
  | some oldTask => do
      let s ← threadLocalschedUpdateUnfairness core oldTask tsc s
      let s := depart core oldTask s fate
      threadLocalschedDequeue depth core tsc'
        (s.setData core { s.localsched core with currentTask := none })

/-- `suspend` says that the handler was called with a context. -/
def threadLocalschedPreemptionHandler (depth : Nat) (core : κ) (suspend : Bool)
    (tsc tsc' : UInt64) (s : State κ τ) : Option (State κ τ) :=
  leave depth core (if suspend then .suspend else .requeue) tsc tsc' s

def threadLocalschedTerminationHandler (depth : Nat) (core : κ) (tsc tsc' : UInt64)
    (s : State κ τ) : Option (State κ τ) :=
  leave depth core .terminate tsc tsc' s

/-- `current_task` is the null pointer here from the initialisation on. -/
def threadLocalschedWaitOnBootstrap (depth : Nat) (core : κ) (tsc : UInt64) (s : State κ τ) :
    Option (State κ τ) :=
  threadLocalschedDequeue depth core tsc s

/-- The task is charged for the time it was suspended, and its core counts it. -/
def charge (task : τ) (s : State κ τ) : State κ τ :=
  let core := (s.task task).coreId
  let data := s.localsched core
  (s.setTask task { s.task task with
    unfairness := (s.task task).unfairness + (data.idleUnfairness - (s.task task).accUnfairnessIdle)
    }).setData core { data with tasksCount := data.tasksCount + 1 }

def threadLocalschedWakeUp (task : τ) (s : State κ τ) : State κ τ :=
  threadLocalschedEnqueueSignalNolock (s.task task).coreId task (charge task s)

def threadLocalschedAssociate (logicalId : κ) (task : τ) (s : State κ τ) : State κ τ :=
  threadLocalschedWakeUp task (s.setTask task
    { s.task task with unfairness := 0, accUnfairnessIdle := 0, coreId := logicalId })

def threadLocalschedIpiDummy (core : κ) (s : State κ τ) : State κ τ :=
  s.setData core { s.localsched core with idle := false }

/-- What can happen. Cores take an interrupt of the scheduler at any time after it was sent,
and other interrupts at any time. -/
inductive Action (κ τ : Type u) where
  | associate (logicalId : κ) (task : τ)
  | wakeUp (task : τ)
  | timer (core : κ) (tsc tsc' : UInt64)
  | yield (core : κ) (tsc tsc' : UInt64)
  | suspendCurrent (core : κ) (tsc tsc' : UInt64)
  | terminate (core : κ) (tsc tsc' : UInt64)
  | bootstrap (core : κ) (tsc : UInt64)
  | idleRound (core : κ) (tsc : UInt64)
  | ipi (core : κ)
  | interrupt (core : κ)

/-- New tasks are associated once; only new and suspended tasks are woken up. -/
def exec (depth : Nat) (s : State κ τ) : Action κ τ → Option (State κ τ)
  | .associate logicalId task =>
      if task ∈ s.live then none
      else some { threadLocalschedAssociate logicalId task s with live := task :: s.live }
  | .wakeUp task =>
      if task ∈ s.suspended then
        some { threadLocalschedWakeUp task s with suspended := s.suspended.erase task }
      else if task ∈ s.live then none
      else some { threadLocalschedWakeUp task s with live := task :: s.live }
  | .timer core tsc tsc' => threadLocalschedTimerIntHandler depth core tsc tsc' s
  | .yield core tsc tsc' => threadLocalschedPreemptionHandler depth core false tsc tsc' s
  | .suspendCurrent core tsc tsc' =>
      threadLocalschedPreemptionHandler depth core true tsc tsc' s
  | .terminate core tsc tsc' => threadLocalschedTerminationHandler depth core tsc tsc' s
  | .bootstrap core tsc =>
      if s.phase core = .booting then threadLocalschedWaitOnBootstrap depth core tsc s else none
  | .idleRound core tsc =>
      if s.phase core = .woken then threadLocalschedDequeueRound depth core tsc s else none
  | .ipi core =>
      if s.ipis core = 0 then none
      else some (interrupted core
        ((threadLocalschedIpiDummy core s).setIpis core (s.ipis core - 1)))
  | .interrupt core => some (interrupted core s)

/-- All cores have run `thread_localsched_init`, which does not set the idle flag. -/
structure Initial (s : State κ τ) : Prop where
  data : ∀ core, (s.localsched core).heapRoot = none ∧ (s.localsched core).currentTask = none ∧
    (s.localsched core).tasksCount = 0 ∧ (s.localsched core).idleUnfairness = 0
  phase : ∀ core, s.phase core = .booting
  ipis : ∀ core, s.ipis core = 0
  suspended : s.suspended = []
  live : s.live = []

def system : System (State κ τ) (Action κ τ) where
  init := Initial
  step s action s' := ∃ depth, exec depth s action = some s'

/-- Actions that all complete on a stack of this depth. -/
theorem run_of_foldlM (depth : Nat) {actions : List (Action κ τ)} {s last : State κ τ}
    (hInit : Initial s) (h : actions.foldlM (exec depth) s = some last) :
    system.Execution actions last := by
  have hNext : ∀ (s : State κ τ) action s', exec depth s action = some s' →
      system.step s action s' :=
    fun _ _ _ hExec => ⟨depth, hExec⟩
  exact System.Execution.append_foldlM hNext (.start hInit) h

/-- All memory is zero. -/
def zeroed : State Nat Nat where
  task _ := ⟨0, 0, 0, 0⟩
  hooks := ⟨fun _ => none, fun _ => none⟩
  localsched _ := ⟨none, false, 0, 0, none⟩
  phase _ := .booting
  ipis _ := 0
  suspended := []
  live := []

theorem zeroed_initial : Initial zeroed :=
  ⟨fun _ => ⟨rfl, rfl, rfl, rfl⟩, fun _ => rfl, fun _ => rfl, rfl, rfl⟩

end Ricerca.Localsched
