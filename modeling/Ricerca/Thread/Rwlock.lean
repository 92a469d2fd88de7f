import Mathlib.Data.List.Dedup
import Ricerca.Foundation.Execution

/-! The read-write lock of `thread/locking/rwlock.c`. Every function runs with the
spinlock of the lock held, so one call is one step. A waiter is given the lock by the task
that wakes it, not by its own code: it holds the lock from the wake-up on. -/
namespace Ricerca.Rwlock

open Ricerca.Foundation

/-- A task is named by the address of its descriptor. -/
abbrev ThreadTask := { address : BitVec 64 // address ≠ 0 }

structure WaitQueueNode where
  task : ThreadTask
  writing : Bool
  deriving DecidableEq

inductive RwlockState where
  | free
  | takenRead
  | takenWrite
  deriving DecidableEq

structure ThreadRwlock where
  sleepQueue : List WaitQueueNode
  state : RwlockState
  readers : BitVec 64
  deriving DecidableEq

/-- `THREAD_RWLOCK_INIT`. -/
def threadRwlockInit : ThreadRwlock := ⟨[], .free, 0⟩

/-- How a call to one of the three functions ends: with the lock, in the sleep queue, or
with the waiters that it has woken. -/
inductive Outcome where
  | taken
  | sleeps
  | wakes (nodes : List WaitQueueNode)
  deriving DecidableEq

def threadRwlockRead (rwlock : ThreadRwlock) (task : ThreadTask) : Outcome × ThreadRwlock :=
  if rwlock.state = .free then
    (.taken, { rwlock with state := .takenRead })
  else if rwlock.state = .takenRead ∧ rwlock.sleepQueue = [] then
    (.taken, { rwlock with readers := rwlock.readers + 1 })
  else
    (.sleeps, { rwlock with sleepQueue := rwlock.sleepQueue ++ [⟨task, false⟩] })

def threadRwlockWrite (rwlock : ThreadRwlock) (task : ThreadTask) : Outcome × ThreadRwlock :=
  if rwlock.state = .free then
    (.taken, { rwlock with state := .takenWrite })
  else
    (.sleeps, { rwlock with sleepQueue := rwlock.sleepQueue ++ [⟨task, true⟩] })

/-- The loop that assembles the queue of readers, entered with `node` already dequeued.
The node that ends the loop has been dequeued too, and is not put back. -/
def assembleReaders (node : WaitQueueNode) :
    List WaitQueueNode → List WaitQueueNode × List WaitQueueNode
  | [] => ([node], [])
  | next :: rest =>
      if next.writing then ([node], rest)
      else (node :: (assembleReaders next rest).1, (assembleReaders next rest).2)

/-- The part of `thread_rwlock_unlock` that passes the lock on. -/
def passOn (rwlock : ThreadRwlock) : List WaitQueueNode × ThreadRwlock :=
  match rwlock.sleepQueue with
  | [] => ([], { rwlock with state := .free })
  | node :: rest =>
      if node.writing then
        ([node], { rwlock with sleepQueue := rest, state := .takenWrite })
      else
        let (readers, queue) := assembleReaders node rest
        (readers, { sleepQueue := queue, state := .takenRead, readers := readers.length })

/-- The waiters that are woken, and the lock afterwards. -/
def threadRwlockUnlock (rwlock : ThreadRwlock) : List WaitQueueNode × ThreadRwlock :=
  if rwlock.state = .takenRead then
    let rwlock := { rwlock with readers := rwlock.readers - 1 }
    if rwlock.readers ≠ 0 then ([], rwlock) else passOn rwlock
  else passOn rwlock

/-- The waiters that should hold the lock next: the writer at the head of the queue, or all
readers up to the first writer. -/
def nextHolders : List WaitQueueNode → List WaitQueueNode
  | [] => []
  | node :: rest => if node.writing then [node] else node :: rest.takeWhile (!·.writing)

theorem assembleReaders_eq (node : WaitQueueNode) (queue : List WaitQueueNode) :
    assembleReaders node queue =
      (node :: queue.takeWhile (!·.writing), (queue.dropWhile (!·.writing)).tail) := by
  induction queue generalizing node with
  | nil => rfl
  | cons next rest ih =>
      rw [assembleReaders]
      split
      · rename_i hWriting
        simp [hWriting]
      · rename_i hReading
        simp [hReading, ih]

/-- The next holders are woken. -/
theorem passOn_woken (rwlock : ThreadRwlock) : (passOn rwlock).1 = nextHolders rwlock.sleepQueue := by
  rw [passOn]
  split
  · simp [*, nextHolders]
  · rw [assembleReaders_eq]
    split <;> simp [*, nextHolders]

/-- Nobody is put in front of those that stay in the queue. -/
theorem passOn_sleepQueue (rwlock : ThreadRwlock) :
    ∃ lost, rwlock.sleepQueue = (passOn rwlock).1 ++ (lost ++ (passOn rwlock).2.sleepQueue) := by
  rw [passOn]
  split
  · rename_i hQueue
    exact ⟨[], by simp [hQueue]⟩
  · rename_i node rest hQueue
    split
    · exact ⟨[], by simp [hQueue]⟩
    · refine ⟨(rest.dropWhile (!·.writing)).take 1, ?_⟩
      simp only [hQueue, assembleReaders_eq, List.cons_append, List.cons.injEq, true_and]
      rw [← List.drop_one, List.take_append_drop, List.takeWhile_append_dropWhile]

/-- The counter says that whoever unlocks is the last holder. -/
def ThreadRwlock.HandsOver (rwlock : ThreadRwlock) : Prop :=
  rwlock.state = .takenRead → rwlock.readers = 1

instance (rwlock : ThreadRwlock) : Decidable rwlock.HandsOver :=
  inferInstanceAs (Decidable (_ → _))

theorem threadRwlockUnlock_cases (rwlock : ThreadRwlock) :
    (rwlock.HandsOver ∧ ∃ last, last.sleepQueue = rwlock.sleepQueue ∧
      threadRwlockUnlock rwlock = passOn last) ∨
    ¬rwlock.HandsOver ∧ (threadRwlockUnlock rwlock).1 = [] ∧
      (threadRwlockUnlock rwlock).2.sleepQueue = rwlock.sleepQueue := by
  simp only [threadRwlockUnlock, ThreadRwlock.HandsOver]
  split
  · rename_i hRead
    split
    · rename_i hOthers
      refine .inr ⟨fun hLast => hOthers ?_, rfl, rfl⟩
      rw [hLast hRead]
      rfl
    · rename_i hLast
      refine .inl ⟨fun _ => ?_, { rwlock with readers := rwlock.readers - 1 }, rfl, rfl⟩
      bv_omega
  · rename_i hWrite
    exact .inl ⟨fun hRead => (hWrite hRead).elim, rwlock, rfl, rfl⟩

theorem threadRwlockUnlock_sleepQueue (rwlock : ThreadRwlock) :
    ∃ lost, rwlock.sleepQueue =
      (threadRwlockUnlock rwlock).1 ++ (lost ++ (threadRwlockUnlock rwlock).2.sleepQueue) := by
  rcases threadRwlockUnlock_cases rwlock with ⟨-, last, hQueue, hUnlock⟩ | ⟨-, hWoken, hQueue⟩
  · rw [hUnlock, ← hQueue]
    exact passOn_sleepQueue last
  · refine ⟨[], ?_⟩
    rw [hWoken, hQueue]
    rfl

/-- The lock, the tasks that hold it (`true` for writing), and the tasks suspended in one
of its functions. -/
structure State where
  rwlock : ThreadRwlock
  holders : List (ThreadTask × Bool)
  suspended : List ThreadTask
  deriving DecidableEq

inductive Call where
  | read (task : ThreadTask)
  | write (task : ThreadTask)
  | unlock (task : ThreadTask)
  deriving DecidableEq

/-- A task that asked for the lock holds it or is suspended. -/
def State.acquire (s : State) (task : ThreadTask) (writing : Bool) (result : Outcome × ThreadRwlock) :
    State :=
  match result.1 with
  | .sleeps => { s with rwlock := result.2, suspended := task :: s.suspended }
  | _ => { s with rwlock := result.2, holders := (task, writing) :: s.holders }

/-- The lock is released by `task`, and the woken waiters hold it now. -/
def State.release (s : State) (task : ThreadTask) (result : List WaitQueueNode × ThreadRwlock) :
    State where
  rwlock := result.2
  holders := s.holders.eraseP (·.1 = task) ++ result.1.map fun node => (node.task, node.writing)
  suspended := s.suspended.filter fun task => task ∉ result.1.map (·.task)

/-- Suspended tasks make no calls, and only holders unlock. -/
def exec (s : State) : Call → Option (Outcome × State)
  | .read task =>
      if task ∈ s.suspended then none
      else
        let result := threadRwlockRead s.rwlock task
        some (result.1, s.acquire task false result)
  | .write task =>
      if task ∈ s.suspended then none
      else
        let result := threadRwlockWrite s.rwlock task
        some (result.1, s.acquire task true result)
  | .unlock task =>
      if task ∈ s.suspended ∨ task ∉ s.holders.map (·.1) then none
      else
        let result := threadRwlockUnlock s.rwlock
        some (.wakes result.1, s.release task result)

abbrev system : System State (Call × Outcome) :=
  System.ofExec ⟨threadRwlockInit, [], []⟩ exec

end Ricerca.Rwlock
