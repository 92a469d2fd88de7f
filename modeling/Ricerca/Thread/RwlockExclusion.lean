import Mathlib.Algebra.Group.Nat.Defs
import Mathlib.Data.Fintype.Card
import Mathlib.Data.List.TakeWhile
import Ricerca.Thread.Rwlock

/-! Exclusion. The counter of readers is right as long as nobody takes the free lock for
reading: `thread_rwlock_read` does not count the reader that finds the lock free. -/
namespace Ricerca.Rwlock

open Ricerca.Foundation

/-- The tasks that hold the lock for reading. -/
def State.readingTasks (s : State) : List ThreadTask :=
  ((s.holders.filter fun holder => !holder.2).map (·.1)).dedup

/-- A writer is alone, the lock is free when nobody holds it, and the counter of a lock
taken for reading is the number of tasks that read. -/
structure Exclusive (s : State) : Prop where
  writer : ∀ task, (task, true) ∈ s.holders → ∀ holder ∈ s.holders, holder.1 = task
  free : s.rwlock.state = .free ↔ s.holders = []
  readers : s.rwlock.state = .takenRead → s.rwlock.readers.toNat = s.readingTasks.length

/-- The lock is not taken for reading while it is free, and no task joins the readers of a
lock that it already reads. -/
def Counted (s : State) : Call × Outcome → Prop
  | (.read task, _) => s.rwlock.state ≠ .free ∧
      ¬(s.rwlock.state = .takenRead ∧ s.rwlock.sleepQueue = [] ∧ (task, false) ∈ s.holders)
  | _ => True

/-- What the state and the counter of the lock say about its holders. -/
inductive Accounts : RwlockState → BitVec 64 → List (ThreadTask × Bool) → Prop where
  | free : Accounts .free 0 []
  | write (task : ThreadTask) : Accounts .takenWrite 0 [(task, true)]
  | read {tasks : List ThreadTask} {readers : BitVec 64} (hSome : tasks ≠ []) (hNodup : tasks.Nodup)
      (hReaders : readers.toNat = tasks.length) : Accounts .takenRead readers (tasks.map (·, false))

/-- The invariant of the lock. -/
structure Sound (s : State) : Prop where
  accounts : Accounts s.rwlock.state s.rwlock.readers s.holders
  nodup : (s.rwlock.sleepQueue.map (·.task)).Nodup
  asleep : ∀ node ∈ s.rwlock.sleepQueue, node.task ∈ s.suspended

/-- There are fewer tasks than a counter of readers can count. -/
theorem length_lt_of_nodup {tasks : List ThreadTask} (h : tasks.Nodup) : tasks.length < 2 ^ 64 := by
  have hNull : ((0 : BitVec 64) :: tasks.map (·.1)).Nodup := by
    rw [List.nodup_cons]
    refine ⟨fun hMem => ?_, h.map Subtype.val_injective⟩
    obtain ⟨task, -, hTask⟩ := List.mem_map.mp hMem
    exact task.2 hTask
  have hFin := (hNull.map (f := BitVec.toFin) fun _ _ hEq => BitVec.eq_of_toFin_eq hEq).length_le_card
  rw [Fintype.card_fin, List.length_map, List.length_cons, List.length_map] at hFin
  exact hFin

theorem readingTasks_map {s : State} {tasks : List ThreadTask} (hNodup : tasks.Nodup)
    (hHolders : s.holders = tasks.map (·, false)) : s.readingTasks = tasks := by
  simp [State.readingTasks, hHolders, List.filter_map, Function.comp_def, hNodup.dedup]

theorem Sound.exclusive {s : State} (h : Sound s) : Exclusive s := by
  obtain ⟨hAccounts, -, -⟩ := h
  obtain ⟨⟨queue, state, readers⟩, holders, suspended⟩ := s
  cases hAccounts with
  | free => exact ⟨by simp, by simp, by simp⟩
  | write task => exact ⟨by simp, by simp, by simp⟩
  | @read tasks _ hSome hNodup hReaders =>
      refine ⟨by simp, by simp [hSome], fun _ => ?_⟩
      rw [readingTasks_map hNodup rfl]
      exact hReaders

/-- A task that cannot have the lock goes to sleep behind the others. -/
theorem Sound.sleep {s : State} {task : ThreadTask} {writing : Bool} (h : Sound s)
    (hTask : task ∉ s.suspended) :
    Sound (s.acquire task writing
      (.sleeps, { s.rwlock with sleepQueue := s.rwlock.sleepQueue ++ [⟨task, writing⟩] })) := by
  refine ⟨h.accounts, ?_, fun node hNode => ?_⟩
  · simp only [State.acquire, List.map_append, List.map_cons, List.map_nil]
    refine List.nodup_append.mpr ⟨h.nodup, List.nodup_singleton _, fun other hOther => ?_⟩
    obtain ⟨node, hNode, rfl⟩ := List.mem_map.mp hOther
    simp only [List.mem_singleton, forall_eq]
    rintro rfl
    exact hTask (h.asleep node hNode)
  · rcases List.mem_append.mp hNode with hNode | hNode
    · exact List.mem_cons_of_mem _ (h.asleep node hNode)
    · rw [List.mem_singleton.mp hNode]
      exact List.mem_cons_self ..

/-- A writer that finds the lock free takes it. -/
theorem Sound.write {s : State} {task : ThreadTask} (h : Sound s) (hTask : task ∉ s.suspended) :
    Sound (s.acquire task true (threadRwlockWrite s.rwlock task)) := by
  rw [threadRwlockWrite]
  split
  · rename_i hFree
    have hAccounts := h.accounts
    obtain ⟨⟨queue, state, readers⟩, holders, suspended⟩ := s
    subst hFree
    cases hAccounts
    exact ⟨.write task, h.nodup, h.asleep⟩
  · exact h.sleep hTask

/-- A reader that joins other readers is counted. -/
theorem Sound.read {s : State} {task : ThreadTask} {outcome : Outcome} (h : Sound s)
    (hTask : task ∉ s.suspended) (hCounted : Counted s (.read task, outcome)) :
    Sound (s.acquire task false (threadRwlockRead s.rwlock task)) := by
  rw [threadRwlockRead, if_neg hCounted.1]
  split
  · rename_i hJoins
    have hNew := hCounted.2
    have hAccounts := h.accounts
    obtain ⟨⟨queue, state, readers⟩, holders, suspended⟩ := s
    obtain ⟨rfl, rfl⟩ := hJoins
    cases hAccounts with
    | @read tasks _ hSome hNodup hReaders =>
        have hOther : task ∉ tasks := by simpa using hNew
        have hTasks : (task :: tasks).Nodup := List.nodup_cons.mpr ⟨hOther, hNodup⟩
        have hLength := length_lt_of_nodup hTasks
        have hCount : (readers + 1).toNat = (task :: tasks).length := by
          rw [List.length_cons] at hLength ⊢
          bv_omega
        exact ⟨.read (List.cons_ne_nil _ _) hTasks hCount, h.nodup, h.asleep⟩
  · exact h.sleep hTask

/-- The readers up to the first writer hold the lock together. -/
theorem Accounts.batch {node : WaitQueueNode} {rest : List WaitQueueNode} (hReading : ¬node.writing)
    (hNodup : ((node :: rest).map (·.task)).Nodup) :
    Accounts .takenRead ((node :: rest.takeWhile (!·.writing)).length : BitVec 64)
      ((node :: rest.takeWhile (!·.writing)).map fun node => (node.task, node.writing)) := by
  have hSub : (node :: rest.takeWhile (!·.writing)).Sublist (node :: rest) :=
    (List.takeWhile_prefix _).sublist.cons_cons node
  have hTasks := hNodup.sublist (hSub.map (·.task))
  have hLength := length_lt_of_nodup hTasks
  have hHolders : (node :: rest.takeWhile (!·.writing)).map (fun node => (node.task, node.writing)) =
      ((node :: rest.takeWhile (!·.writing)).map (·.task)).map (·, false) := by
    rw [List.map_map]
    refine List.map_congr_left fun reader hReader => ?_
    have hFalse : reader.writing = false := by
      rcases List.mem_cons.mp hReader with rfl | hReader
      · simpa using hReading
      · simpa using List.mem_takeWhile_imp hReader
    simp [hFalse]
  rw [hHolders]
  refine .read (by simp) hTasks ?_
  rw [List.length_map] at hLength ⊢
  exact Nat.mod_eq_of_lt hLength

/-- The lock is passed on when nobody holds it any more. -/
theorem Accounts.passOn {rwlock : ThreadRwlock} (hReaders : rwlock.readers = 0)
    (hNodup : (rwlock.sleepQueue.map (·.task)).Nodup) :
    Accounts (passOn rwlock).2.state (passOn rwlock).2.readers
      ((Rwlock.passOn rwlock).1.map fun node => (node.task, node.writing)) := by
  rw [Rwlock.passOn]
  split
  · rw [hReaders]
    exact .free
  · rename_i node rest hQueue
    split
    · rename_i hWriting
      rw [hReaders]
      simp only [List.map_cons, List.map_nil, hWriting]
      exact .write node.task
    · rename_i hReading
      rw [assembleReaders_eq]
      exact .batch hReading (hQueue ▸ hNodup)

/-- Who unlocks holds the lock no more, and the lock is passed on by the last holder. -/
theorem Accounts.unlock {rwlock : ThreadRwlock} {holders : List (ThreadTask × Bool)}
    {task : ThreadTask} (h : Accounts rwlock.state rwlock.readers holders)
    (hTask : task ∈ holders.map (·.1)) (hNodup : (rwlock.sleepQueue.map (·.task)).Nodup) :
    Accounts (threadRwlockUnlock rwlock).2.state (threadRwlockUnlock rwlock).2.readers
      (holders.eraseP (·.1 = task) ++
        (threadRwlockUnlock rwlock).1.map fun node => (node.task, node.writing)) := by
  obtain ⟨queue, state, readers⟩ := rwlock
  cases h with
  | free => cases hTask
  | write owner =>
      have hOwner : task = owner := by simpa using hTask
      have hErase : [(owner, true)].eraseP (·.1 = task) = [] := by simp [hOwner]
      rw [hErase]
      exact .passOn rfl hNodup
  | @read tasks _ hSome hTasks hReaders =>
      have hMem : task ∈ tasks := by simpa using hTask
      have hErase : (tasks.map (·, false)).eraseP (·.1 = task) = (tasks.erase task).map (·, false) := by
        rw [List.eraseP_map, List.erase_eq_eraseP']
        congr 2
        ext other
        exact (beq_eq_decide other task).symm
      have hLength := List.length_erase_of_mem hMem
      have hPositive := List.length_pos_of_mem hMem
      have hCount : (readers - 1).toNat = (tasks.erase task).length := by bv_omega
      rw [hErase]
      simp only [threadRwlockUnlock, if_true]
      split
      · rename_i hOthers
        simp only [List.map_nil, List.append_nil]
        refine .read (fun hNil => hOthers ?_) (hTasks.erase task) hCount
        rw [hNil] at hCount
        exact BitVec.eq_of_toNat_eq hCount
      · rename_i hLast
        have hLast : readers - 1 = 0 := by simpa using hLast
        have hNil : tasks.erase task = [] := by
          rw [hLast] at hCount
          exact List.eq_nil_of_length_eq_zero hCount.symm
        rw [hNil]
        exact .passOn hLast hNodup

/-- The tasks that stay in the queue are not woken. -/
theorem Sound.unlock {s : State} {task : ThreadTask} (h : Sound s)
    (hTask : task ∈ s.holders.map (·.1)) :
    Sound (s.release task (threadRwlockUnlock s.rwlock)) := by
  obtain ⟨lost, hQueue⟩ := threadRwlockUnlock_sleepQueue s.rwlock
  have hNodup := h.nodup
  rw [hQueue, List.map_append, List.map_append, List.nodup_append, List.nodup_append] at hNodup
  obtain ⟨-, ⟨-, hStay, -⟩, hApart⟩ := hNodup
  refine ⟨h.accounts.unlock hTask h.nodup, hStay, fun node hNode => ?_⟩
  have hAsleep : node.task ∈ s.suspended := by
    apply h.asleep
    rw [hQueue]
    exact List.mem_append_right _ (List.mem_append_right _ hNode)
  have hNotWoken : node.task ∉ (threadRwlockUnlock s.rwlock).1.map (·.task) := by
    intro hWoken
    exact hApart _ hWoken _ (List.mem_append_right _ (List.mem_map_of_mem hNode)) rfl
  simp only [State.release, List.mem_filter, decide_eq_true_eq]
  exact ⟨hAsleep, hNotWoken⟩

theorem Sound.step {s s' : State} {label : Call × Outcome} (h : Sound s)
    (hCounted : Counted s label) (hStep : exec s label.1 = some (label.2, s')) : Sound s' := by
  obtain ⟨call, outcome⟩ := label
  cases call with
  | read task =>
      simp only [exec, Option.ite_none_left_eq_some, Option.some.injEq, Prod.mk.injEq] at hStep
      obtain ⟨hTask, -, rfl⟩ := hStep
      exact h.read hTask hCounted
  | write task =>
      simp only [exec, Option.ite_none_left_eq_some, Option.some.injEq, Prod.mk.injEq] at hStep
      obtain ⟨hTask, -, rfl⟩ := hStep
      exact h.write hTask
  | unlock task =>
      simp only [exec, Option.ite_none_left_eq_some, Option.some.injEq, Prod.mk.injEq, not_or,
        not_not] at hStep
      obtain ⟨⟨-, hTask⟩, -, rfl⟩ := hStep
      exact h.unlock hTask

theorem Sound.run {trace : List (Call × Outcome)} {s : State}
    (run : (system.restrict Counted).Execution trace s) : Sound s := by
  refine run.stateInvariant (fun s hs => ?_) fun s label s' h hStep => ?_
  · rw [hs]
    exact ⟨.free, List.nodup_nil, fun _ hNode => by cases hNode⟩
  · exact h.step hStep.1 hStep.2

/-- A reader that is not counted makes the counter wrong. -/
theorem Sound.not_exclusive {s s' : State} {label : Call × Outcome} (h : Sound s)
    (hCounted : ¬Counted s label) (hStep : exec s label.1 = some (label.2, s')) : ¬Exclusive s' := by
  obtain ⟨call, outcome⟩ := label
  cases call with
  | write task => exact (hCounted trivial).elim
  | unlock task => exact (hCounted trivial).elim
  | read task =>
      simp only [exec, Option.ite_none_left_eq_some, Option.some.injEq, Prod.mk.injEq] at hStep
      obtain ⟨-, -, rfl⟩ := hStep
      have hAccounts := h.accounts
      obtain ⟨⟨queue, state, readers⟩, holders, suspended⟩ := s
      intro hExclusive
      have hReaders := hExclusive.readers
      cases hAccounts with
      | free =>
          simp [State.acquire, threadRwlockRead, State.readingTasks] at hReaders
      | write owner => simp [Counted] at hCounted
      | @read tasks _ hSome hNodup hCount =>
          obtain ⟨rfl, hMem⟩ : queue = [] ∧ task ∈ tasks := by simpa [Counted] using hCounted
          simp [State.acquire, threadRwlockRead, State.readingTasks, List.filter_map,
            Function.comp_def, hMem, hNodup.dedup] at hReaders
          bv_omega

/-- In every run in which nobody takes the free lock for reading and nobody joins the
readers twice, a writer is alone, the lock is free exactly when nobody holds it, and the
counter is the number of readers. Any other call breaks this at once. -/
theorem rwlock_exclusion (trace : List (Call × Outcome)) (s : State) :
    ((system.restrict Counted).Execution trace s → Exclusive s) ∧
    ∀ label s', (system.restrict Counted).Execution trace s → system.step s label s' →
      ¬Counted s label → ¬Exclusive s' := by
  constructor
  · intro run
    exact (Sound.run run).exclusive
  · intro label s' run hStep hCounted
    exact (Sound.run run).not_exclusive hCounted hStep

/-- Two readers wait for a writer and hold the lock after it; a third task joins them. -/
theorem rwlock_exclusion_three_readers :
    ∃ trace s, (system.restrict Counted).Execution trace s ∧ Exclusive s ∧
      s.rwlock.state = .takenRead ∧ s.rwlock.readers = 3 := by
  have start : (system.restrict Counted).Execution [] ⟨threadRwlockInit, [], []⟩ := .start rfl
  have written := start.call (.write ⟨1, by decide⟩) trivial rfl
  have asleep := written.call (.read ⟨2, by decide⟩) ⟨by decide, by decide⟩ rfl
  have both := asleep.call (.read ⟨3, by decide⟩) ⟨by decide, by decide⟩ rfl
  have passed := both.call (.unlock ⟨1, by decide⟩) trivial rfl
  have joined := passed.call (.read ⟨4, by decide⟩) ⟨by decide, by decide⟩ rfl
  exact ⟨_, _, joined, (rwlock_exclusion _ _).1 joined, rfl, rfl⟩

/-- The first reader of a new lock is not counted. -/
theorem rwlock_first_reader_not_counted :
    ¬∀ trace s, system.Execution trace s → Exclusive s := by
  intro h
  have run : system.Execution _ _ := System.Execution.of_replay [.read ⟨1, by decide⟩] rfl
  have hReaders := (h _ _ run).readers rfl
  revert hReaders
  decide

end Ricerca.Rwlock
