import Mathlib.Data.List.TakeWhile
import Ricerca.Thread.Rwlock

/-! Waiters. The loop of `thread_rwlock_unlock` dequeues the writer that ends a run of
readers and forgets it; without such a writer every waiter stays queued until it is given
the lock. -/
namespace Ricerca.Rwlock

open Ricerca.Foundation

/-- Unlocking takes out of the queue exactly those that it wakes, and wakes those that
should hold the lock next. -/
def UnlockExact (rwlock : ThreadRwlock) : Prop :=
  (threadRwlockUnlock rwlock).1 = (if rwlock.HandsOver then nextHolders rwlock.sleepQueue else []) ∧
    rwlock.sleepQueue = (threadRwlockUnlock rwlock).1 ++ (threadRwlockUnlock rwlock).2.sleepQueue

/-- The lock goes to the readers at the head of the queue, and a writer waits behind them. -/
def WriterBehindReaders (rwlock : ThreadRwlock) : Prop :=
  rwlock.HandsOver ∧ (∃ node, rwlock.sleepQueue.head? = some node ∧ ¬node.writing) ∧
    ∃ node ∈ rwlock.sleepQueue, node.writing

/-- Dropping the node after a run of readers loses nothing only when there is no such node. -/
theorem eq_readers_append_tail_iff (queue : List WaitQueueNode) :
    queue = queue.takeWhile (!·.writing) ++ (queue.dropWhile (!·.writing)).tail ↔
      ∀ node ∈ queue, ¬node.writing := by
  constructor
  · intro hEq
    have hLength := congrArg List.length hEq
    have hWhole := congrArg List.length (List.takeWhile_append_dropWhile (p := (!·.writing)) (l := queue))
    rw [List.length_append] at hLength hWhole
    rw [List.length_tail] at hLength
    have hNil : queue.dropWhile (!·.writing) = [] := List.eq_nil_of_length_eq_zero (by omega)
    simpa using List.dropWhile_eq_nil_iff.mp hNil
  · intro hReaders
    have hNil : queue.dropWhile (!·.writing) = [] :=
      List.dropWhile_eq_nil_iff.mpr (by simpa using hReaders)
    rw [hNil, List.tail_nil, List.append_nil]
    exact (List.takeWhile_eq_self_iff.mpr (by simpa using hReaders)).symm

/-- A queue without a writer behind readers is split in two. -/
theorem passOn_exact_iff (rwlock : ThreadRwlock) :
    rwlock.sleepQueue = (passOn rwlock).1 ++ (passOn rwlock).2.sleepQueue ↔
      ¬((∃ node, rwlock.sleepQueue.head? = some node ∧ ¬node.writing) ∧
        ∃ node ∈ rwlock.sleepQueue, node.writing) := by
  rw [passOn]
  split
  · rename_i hQueue
    simp [hQueue]
  · rename_i node rest hQueue
    split
    · rename_i hWriting
      simp [hQueue, hWriting]
    · rename_i hReading
      have hRest := eq_readers_append_tail_iff rest
      simp only [assembleReaders_eq, hQueue, List.cons_append, List.cons.injEq, true_and, hRest]
      simp [hReading]

theorem unlockExact_iff (rwlock : ThreadRwlock) : UnlockExact rwlock ↔ ¬WriterBehindReaders rwlock := by
  rw [UnlockExact, WriterBehindReaders]
  rcases threadRwlockUnlock_cases rwlock with ⟨hHands, last, hQueue, hUnlock⟩ | ⟨hStays, hWoken, hQueue⟩
  · rw [if_pos hHands, hUnlock, passOn_woken, ← hQueue, ← passOn_woken, passOn_exact_iff]
    simp [hHands]
  · simp [hStays, hWoken, hQueue]

/-- The waiters that went to sleep, in order. -/
def slept (trace : List (Call × Outcome)) : List WaitQueueNode :=
  trace.filterMap fun
    | (.read task, .sleeps) => some ⟨task, false⟩
    | (.write task, .sleeps) => some ⟨task, true⟩
    | _ => none

/-- The waiters that were woken with the lock, in order. -/
def granted (trace : List (Call × Outcome)) : List WaitQueueNode :=
  trace.flatMap fun
    | (_, .wakes nodes) => nodes
    | _ => []

/-- Nobody unlocks towards readers while a writer waits behind them. -/
def Kept (s : State) : Call × Outcome → Prop
  | (.unlock _, _) => ¬WriterBehindReaders s.rwlock
  | _ => True

/-- Everybody who went to sleep was given the lock, or is in the queue; in this order. -/
def Served (trace : List (Call × Outcome)) (s : State) : Prop :=
  slept trace = granted trace ++ s.rwlock.sleepQueue

theorem slept_append (trace : List (Call × Outcome)) (label : Call × Outcome) :
    slept (trace ++ [label]) = slept trace ++ slept [label] := List.filterMap_append

theorem granted_append (trace : List (Call × Outcome)) (label : Call × Outcome) :
    granted (trace ++ [label]) = granted trace ++ granted [label] := List.flatMap_append

theorem Served.step {trace : List (Call × Outcome)} {s s' : State} {label : Call × Outcome}
    (h : Served trace s) (hKept : Kept s label) (hStep : exec s label.1 = some (label.2, s')) :
    Served (trace ++ [label]) s' := by
  obtain ⟨call, outcome⟩ := label
  rw [Served, slept_append, granted_append, h]
  cases call with
  | read task =>
      simp only [exec, Option.ite_none_left_eq_some, Option.some.injEq, Prod.mk.injEq] at hStep
      obtain ⟨-, rfl, rfl⟩ := hStep
      simp only [threadRwlockRead]
      split_ifs <;> simp [State.acquire, slept, granted]
  | write task =>
      simp only [exec, Option.ite_none_left_eq_some, Option.some.injEq, Prod.mk.injEq] at hStep
      obtain ⟨-, rfl, rfl⟩ := hStep
      simp only [threadRwlockWrite]
      split_ifs <;> simp [State.acquire, slept, granted]
  | unlock task =>
      simp only [exec, Option.ite_none_left_eq_some, Option.some.injEq, Prod.mk.injEq] at hStep
      obtain ⟨-, rfl, rfl⟩ := hStep
      have hExact := ((unlockExact_iff s.rwlock).mpr hKept).2
      simp only [slept, granted, State.release, List.filterMap_cons_none, List.filterMap_nil,
        List.flatMap_singleton, List.append_nil, List.append_assoc]
      rw [← hExact]

/-- An unlock takes out of the queue exactly the waiters that it wakes, the writer at the
head or all readers up to the first writer, unless it passes the lock to readers while a
writer waits. In every run without such an unlock, all who went to sleep have been given
the lock or are still queued, in the order in which they went to sleep. -/
theorem rwlock_waiters (rwlock : ThreadRwlock) (trace : List (Call × Outcome)) (s : State) :
    (UnlockExact rwlock ↔ ¬WriterBehindReaders rwlock) ∧
    ((system.restrict Kept).Execution trace s → Served trace s) := by
  refine ⟨unlockExact_iff rwlock, fun run => ?_⟩
  refine run.invariant (fun s hs => ?_) fun trace s label s' _ h hStep => ?_
  · rw [hs]
    rfl
  · exact h.step hStep.1 hStep.2

/-- A writer waits for another one, and a reader behind it: the writer is given the lock and
the reader stays. -/
theorem rwlock_waiters_reader_stays :
    ∃ trace s, (system.restrict Kept).Execution trace s ∧ Served trace s ∧
      granted trace = [⟨⟨2, by decide⟩, true⟩] ∧ s.rwlock.sleepQueue = [⟨⟨3, by decide⟩, false⟩] := by
  have start : (system.restrict Kept).Execution [] ⟨threadRwlockInit, [], []⟩ := .start rfl
  have taken := start.call (.write ⟨1, by decide⟩) trivial rfl
  have waits := taken.call (.write ⟨2, by decide⟩) trivial rfl
  have behind := waits.call (.read ⟨3, by decide⟩) trivial rfl
  have hKept : ¬WriterBehindReaders
      ⟨[⟨⟨2, by decide⟩, true⟩, ⟨⟨3, by decide⟩, false⟩], .takenWrite, 0⟩ := by
    simp [WriterBehindReaders]
  have passed := behind.call (.unlock ⟨1, by decide⟩) hKept rfl
  exact ⟨_, _, passed, (rwlock_waiters threadRwlockInit _ _).2 passed, rfl, rfl⟩

/-- A reader and a second writer wait for the writer that holds the lock: its unlock loses
the second writer. -/
theorem rwlock_unlock_loses_writer :
    ¬∀ trace s, system.Execution trace s → UnlockExact s.rwlock := by
  intro h
  have run : system.Execution _ _ := System.Execution.of_replay
    [.write ⟨1, by decide⟩, .read ⟨2, by decide⟩, .write ⟨3, by decide⟩] rfl
  have hQueue := (h _ _ run).2
  revert hQueue
  decide

end Ricerca.Rwlock
