import Mathlib.Algebra.Group.Nat.Defs
import Mathlib.Logic.Relation
import Ricerca.Foundation.Execution
import Ricerca.Thread.Mutex

/-! Locks of universe pairs (`user/universe.c`). Tasks run `user_universe_move_across` and
`user_universe_borrow_across`, which lock two universes, work on their cells and unlock
them. What they do to the cells is left out here: it takes no mutex. -/
namespace Ricerca.UniverseLocks

open Ricerca.Foundation Ricerca.Lib Ricerca.Mutex

variable {Task : Type}

/-- The calls to `thread_mutex_lock` that `user_universe_lock_pair` makes, in this order. -/
def userUniverseLockPair (universeId : Nat → UInt64) (universe1 universe2 : Nat) : List Nat :=
  (if universe1 = universe2 then [universe1] else []) ++
    if universeId universe1 < universeId universe2 then [universe1, universe2]
    else [universe2, universe1]

/-- The calls to `thread_mutex_unlock` that `user_universe_unlock_pair` makes. -/
def userUniverseUnlockPair (universe1 universe2 : Nat) : List Nat :=
  universe1 :: if universe1 ≠ universe2 then [universe2] else []

/-- Where a task is: outside, before the next call to `thread_mutex_lock`, asleep in the
call for `u`, in between, or before the next call to `thread_mutex_unlock`. The
mutexes that it has got so far are `got`, in this order. -/
inductive Phase where
  | outside
  | locking (src dst : Nat) (got todo : List Nat)
  | sleeping (src dst : Nat) (got : List Nat) (u : Nat) (todo : List Nat)
  | inside (src dst : Nat) (got : List Nat)
  | unlocking (src dst : Nat) (todo : List Nat)
  deriving DecidableEq

/-- The mutexes that a task has. -/
def Phase.holds : Phase → List Nat
  | .outside => []
  | .locking _ _ got _ | .sleeping _ _ got _ _ | .inside _ _ got => got
  | .unlocking _ _ todo => todo

/-- The mutex that a task sleeps for. -/
def Phase.waits : Phase → Option Nat
  | .sleeping _ _ _ u _ => some u
  | .outside | .locking .. | .inside .. | .unlocking .. => none

/-- A task that was woken up returns from `thread_mutex_lock`. -/
def Phase.resume : Phase → Phase
  | .sleeping src dst got u todo => .locking src dst (got ++ [u]) todo
  | phase => phase

/-- Universes are named in the order of their creation. The nodes of the sleep queues lie
on the stacks of the tasks. -/
structure State (Task : Type) where
  universesCount : Nat
  userUniverseLastId : UInt64
  universeId : Nat → UInt64
  lock : Nat → ThreadMutex Task
  next : Task → Option Task
  phase : Task → Phase

/-- `call` stands for a call to one of the two functions. -/
inductive Event (Task : Type) where
  | create
  | call (task : Task) (src dst : Nat)
  | lock (task : Task) (u : Nat) (outcome : Outcome)
  | enter (task : Task)
  | leave (task : Task)
  | unlock (task : Task) (u : Nat) (woken : Option Task)
  | done (task : Task)
  | write (task : Task) (link : Option Task)
  deriving DecidableEq

/-- One step of one task. A task that does not sleep may write anything where its node was. -/
inductive Step [DecidableEq Task] (s : State Task) : Event Task → State Task → Prop where
  | create :
      Step s .create
        { s with
          universesCount := s.universesCount + 1
          userUniverseLastId := s.userUniverseLastId + 1
          universeId := Function.update s.universeId s.universesCount s.userUniverseLastId
          lock := Function.update s.lock s.universesCount threadMutexInit }
  | call (task : Task) {src dst : Nat} (hPhase : s.phase task = .outside)
      (hSrc : src < s.universesCount) (hDst : dst < s.universesCount) :
      Step s (.call task src dst)
        { s with
          phase := Function.update s.phase task
            (.locking src dst [] (userUniverseLockPair s.universeId src dst)) }
  | lock (task : Task) {src dst u : Nat} {got todo : List Nat} {outcome : Outcome}
      {mutex : ThreadMutex Task} {next : Task → Option Task}
      (hPhase : s.phase task = .locking src dst got (u :: todo))
      (hLock : threadMutexLock (s.lock u) s.next task = some (outcome, mutex, next)) :
      Step s (.lock task u outcome)
        { s with
          lock := Function.update s.lock u mutex
          next := next
          phase := Function.update s.phase task
            (match outcome with
            | .taken => .locking src dst (got ++ [u]) todo
            | .sleeps => .sleeping src dst got u todo) }
  | enter (task : Task) {src dst : Nat} {got : List Nat}
      (hPhase : s.phase task = .locking src dst got []) :
      Step s (.enter task) { s with phase := Function.update s.phase task (.inside src dst got) }
  | leave (task : Task) {src dst : Nat} {got : List Nat}
      (hPhase : s.phase task = .inside src dst got) :
      Step s (.leave task)
        { s with
          phase := Function.update s.phase task
            (.unlocking src dst (userUniverseUnlockPair src dst)) }
  | unlock (task : Task) {src dst u : Nat} {todo : List Nat} {woken : Option Task}
      {mutex : ThreadMutex Task} (hPhase : s.phase task = .unlocking src dst (u :: todo))
      (hUnlock : threadMutexUnlock (s.lock u) s.next = (woken, mutex)) :
      Step s (.unlock task u woken)
        { s with
          lock := Function.update s.lock u mutex
          phase := fun other =>
            if woken = some other then (s.phase other).resume
            else Function.update s.phase task (.unlocking src dst todo) other }
  | done (task : Task) {src dst : Nat} (hPhase : s.phase task = .unlocking src dst []) :
      Step s (.done task) { s with phase := Function.update s.phase task .outside }
  | write (task : Task) (link : Option Task) (hRuns : (s.phase task).waits = none) :
      Step s (.write task link) { s with next := Function.update s.next task link }

/-- The value of `user_universe_last_id` at the start. -/
def userUniverseFirstId : UInt64 := 2

def system [DecidableEq Task] : System (State Task) (Event Task) where
  init s := s.universesCount = 0 ∧ s.userUniverseLastId = userUniverseFirstId ∧
    (∀ u, s.lock u = threadMutexInit) ∧ ∀ task, s.phase task = .outside
  step := Step

/-- One task sleeps for a mutex that another one has. -/
def waitsFor (s : State Task) (task other : Task) : Prop :=
  ∃ u, (s.phase task).waits = some u ∧ u ∈ (s.phase other).holds

/-- What the locks of pairs promise. Tasks in between have the mutexes of both universes,
each once and taken in the order of the ids; they give up just those; nobody sleeps for a
mutex that he has, and nobody waits in a circle. -/
structure DeadlockFree (s : State Task) : Prop where
  ordered : ∀ task src dst got, s.phase task = .inside src dst got →
    got.Pairwise (s.universeId · < s.universeId ·) ∧ ∀ u, u ∈ got ↔ u = src ∨ u = dst
  released : ∀ task src dst got, s.phase task = .inside src dst got →
    (userUniverseUnlockPair src dst).Perm got
  notOwn : ∀ task u, (s.phase task).waits = some u → u ∉ (s.phase task).holds
  acyclic : ∀ task, ¬ Relation.TransGen (waitsFor s) task task

end Ricerca.UniverseLocks
