import Mathlib.Algebra.Group.Nat.Defs
import Ricerca.Thread.LocalschedEffects

/-! The counter `tasks_count`, which the balancer takes for the load of a core. A wake-up adds
one to it and nothing takes one away, so it counts every task that was ever suspended or
terminated on the core as if it were still there. -/
namespace Ricerca.Localsched

open Foundation PairingHeap

universe u

variable {κ τ : Type u} [DecidableEq κ] [DecidableEq τ]

/-- The target of the bootstrap processor, which runs before its `thread_localsched_init`. -/
def threadLocalschedInitTarget (core : κ) (s : State κ τ) : State κ τ :=
  s.setData core { s.localsched core with tasksCount := 1 }

/-- The idle flag is not set here. -/
def threadLocalschedInit (core : κ) (s : State κ τ) : State κ τ :=
  s.setData core { s.localsched core with
    heapRoot := none, currentTask := none, tasksCount := 0, idleUnfairness := 0 }

/-- The tasks that can run on a core: those in its heap and the current one. -/
def runnable (s : State κ τ) (queue : κ → List τ) (core : κ) : Nat :=
  (queue core).length + (s.localsched core).currentTask.toList.length

/-- The current task of the core is suspended or terminates. -/
def departs (core : κ) : Action κ τ → Bool
  | .suspendCurrent other _ _ | .terminate other _ _ => other = core
  | _ => false

/-- How often that has happened. -/
def departures (core : κ) (trace : List (Action κ τ)) : Nat := trace.countP (departs core)

/-- How many of these tasks belong to the core. -/
def homed (s : State κ τ) (core : κ) (tasks : List τ) : Nat :=
  tasks.countP fun x => (s.task x).coreId = core

/-- The counter is off by the departures. -/
structure Loaded (s : State κ τ) (departed : κ → Nat) : Prop where
  nodup : s.live.Nodup
  balance : ∀ core, ((s.localsched core).tasksCount.toNat + homed s core s.suspended) % 2 ^ 64 =
    (homed s core s.live + departed core) % 2 ^ 64

variable {s s' charged : State κ τ} {queue : κ → List τ} {core : κ} {task : τ}
  {tsc : UInt64} {departed : κ → Nat} {trace : List (Action κ τ)}

/-- What `thread_localsched_init` sets. -/
def Cleared (data : LocalschedData τ) : Prop :=
  data.heapRoot = none ∧ data.currentTask = none ∧ data.tasksCount = 0 ∧ data.idleUnfairness = 0

omit [DecidableEq τ] in
theorem cleared_of_init (cores : List κ) (other : κ)
    (h : other ∈ cores ∨ Cleared (s.localsched other)) :
    Cleared ((cores.foldl (fun s core => threadLocalschedInit core s) s).localsched other) := by
  induction cores generalizing s with
  | nil => exact h.resolve_left List.not_mem_nil
  | cons core cores ih =>
      apply ih
      by_cases hOther : other = core
      · subst hOther
        right
        simp [Cleared, threadLocalschedInit, State.setData]
      · rcases h with hMem | hCleared
        · exact .inl ((List.mem_cons.mp hMem).resolve_left hOther)
        · right
          simpa [threadLocalschedInit, State.setData, hOther] using hCleared

omit [DecidableEq τ] in
theorem init_frame (cores : List κ) :
    let last := cores.foldl (fun s core => threadLocalschedInit core s) s
    last.phase = s.phase ∧ last.ipis = s.ipis ∧ last.suspended = s.suspended ∧ last.live = s.live := by
  induction cores generalizing s with
  | nil => exact ⟨rfl, rfl, rfl, rfl⟩
  | cons core cores ih => exact ih

omit [DecidableEq τ] in
/-- When every core has initialised its scheduler, the schedulers are in their initial state,
whatever the target of the bootstrap processor has set. -/
theorem initial_of_init (bootstrap : κ) (cores : List κ) (hAll : ∀ core, core ∈ cores)
    (hPhase : ∀ core, s.phase core = .booting) (hIpis : ∀ core, s.ipis core = 0)
    (hSuspended : s.suspended = []) (hLive : s.live = []) :
    Initial (cores.foldl (fun s core => threadLocalschedInit core s)
      (threadLocalschedInitTarget bootstrap s)) := by
  obtain ⟨hPhases, hSent, hWaiting, hTasks⟩ :=
    init_frame (s := threadLocalschedInitTarget bootstrap s) cores
  refine ⟨fun core => ?_, fun core => ?_, fun core => ?_, hWaiting.trans hSuspended,
    hTasks.trans hLive⟩
  · exact cleared_of_init cores core (.inl (hAll core))
  · rw [hPhases]
    exact hPhase core
  · rw [hSent]
    exact hIpis core

omit [DecidableEq τ] in
theorem homed_congr {tasks : List τ} (h : ∀ x ∈ tasks, (s'.task x).coreId = (s.task x).coreId) :
    homed s' core tasks = homed s core tasks := by
  apply List.countP_congr
  intro x hx
  rw [h x hx]

omit [DecidableEq τ] in
/-- Every task of the core can run or is suspended. -/
theorem Conserved.homed_live (h : Conserved s queue) (hNodup : s.live.Nodup) (core : κ) :
    homed s core s.live = runnable s queue core + homed s core s.suspended := by
  have hPlaced := h.arranged.placed
  have hMember : ∀ x, x ∈ s.live.filter (fun x => (s.task x).coreId = core) ↔
      x ∈ queue core ++ ((s.localsched core).currentTask.toList ++
        s.suspended.filter fun x => (s.task x).coreId = core) := by
    intro x
    simp only [List.mem_filter, List.mem_append, decide_eq_true_eq]
    constructor
    · rintro ⟨hLive, hCore⟩
      obtain ⟨place, hMem⟩ := (hPlaced.live_iff x).mp hLive
      cases place with
      | current other =>
          have hOther := h.arranged.home other x (.inl hMem)
          rw [hCore] at hOther
          subst hOther
          exact .inr (.inl hMem)
      | queued other =>
          have hOther := h.arranged.home other x (.inr hMem)
          rw [hCore] at hOther
          subst hOther
          exact .inl hMem
      | suspended => exact .inr (.inr ⟨hMem, hCore⟩)
    · rintro (hMem | hMem | ⟨hMem, hCore⟩)
      · have hPlace : x ∈ places s queue (.queued core) := hMem
        exact ⟨hPlaced.live_of_mem hPlace, h.arranged.home core x (.inr hMem)⟩
      · have hPlace : x ∈ places s queue (.current core) := hMem
        exact ⟨hPlaced.live_of_mem hPlace, h.arranged.home core x (.inl hMem)⟩
      · have hPlace : x ∈ places s queue .suspended := hMem
        exact ⟨hPlaced.live_of_mem hPlace, hCore⟩
  have hDistinct : (queue core ++ ((s.localsched core).currentTask.toList ++
      s.suspended.filter fun x => (s.task x).coreId = core)).Nodup := by
    rw [List.nodup_append', List.nodup_append']
    refine ⟨hPlaced.nodup (.queued core), ⟨hPlaced.nodup (.current core),
      (hPlaced.nodup .suspended).filter _, ?_⟩, ?_⟩
    · intro x hCurrent hSuspended
      cases hPlaced.disjoint (.current core) .suspended x hCurrent (List.mem_of_mem_filter hSuspended)
    · intro x hQueued hElse
      rcases List.mem_append.mp hElse with hCurrent | hSuspended
      · cases hPlaced.disjoint (.queued core) (.current core) x hQueued hCurrent
      · cases hPlaced.disjoint (.queued core) .suspended x hQueued (List.mem_of_mem_filter hSuspended)
  have hPerm := (List.perm_ext_iff_of_nodup (hNodup.filter _) hDistinct).mpr hMember
  have hLength := hPerm.length_eq
  simp only [homed, runnable, List.countP_eq_length_filter]
  rw [hLength, List.length_append, List.length_append, Nat.add_assoc]

namespace Loaded

omit [DecidableEq τ] in
/-- Tasks start or cease to be able to run, and the counter follows or not. -/
theorem change {departed' : κ → Nat} (added gone : κ → Nat) (h : Loaded s departed)
    (hGone : ∀ core, departed' core = departed core + gone core) (hNodup : s'.live.Nodup)
    (hCore : ∀ x, (s'.task x).coreId = (s.task x).coreId)
    (hCount : ∀ core, (s'.localsched core).tasksCount.toNat =
      ((s.localsched core).tasksCount.toNat + added core) % 2 ^ 64)
    (hMoved : ∀ core, homed s core s'.live + homed s core s.suspended + gone core =
      homed s core s.live + homed s core s'.suspended + added core) :
    Loaded s' departed' := by
  refine ⟨hNodup, fun core => ?_⟩
  have hBalance := h.balance core
  have hDeparted := hGone core
  have hMove := hMoved core
  rw [homed_congr fun x _ => hCore x, homed_congr fun x _ => hCore x, hCount]
  omega

omit [DecidableEq τ] in
/-- Nothing that is counted changes. -/
theorem same (h : Loaded s departed)
    (hCount : ∀ core, (s'.localsched core).tasksCount = (s.localsched core).tasksCount)
    (hCore : ∀ x, (s'.task x).coreId = (s.task x).coreId) (hSuspended : s'.suspended = s.suspended)
    (hLive : s'.live = s.live) : Loaded s' departed := by
  apply h.change (fun _ => 0) (fun _ => 0) (fun _ => rfl) (hLive ▸ h.nodup) hCore
  · intro core
    rw [hCount]
    exact (Nat.mod_eq_of_lt (UInt64.toNat_lt _)).symm
  · intro core
    rw [hLive, hSuspended]

omit [DecidableEq τ] in
theorem kept (h : Loaded s departed) (hKept : Kept s s') : Loaded s' departed :=
  h.same hKept.tasksCount hKept.coreId hKept.suspended hKept.live

/-- The fields of a task that is not there yet are of no account. -/
theorem setNew (h : Loaded s departed) (hLive : task ∉ s.live) (hSuspended : task ∉ s.suspended)
    (value : ThreadTask κ) : Loaded (s.setTask task value) departed := by
  have hHomed : ∀ core tasks, task ∉ tasks →
      homed (s.setTask task value) core tasks = homed s core tasks := by
    intro core tasks hNot
    apply homed_congr
    intro x hx
    have hNe : x ≠ task := fun hEq => hNot (hEq ▸ hx)
    simp [State.setTask, hNe]
  refine ⟨h.nodup, fun core => ?_⟩
  have hBalance := h.balance core
  rw [← hHomed core _ hLive, ← hHomed core _ hSuspended] at hBalance
  exact hBalance

/-- A task is woken up: one more task of its core can run, and the counter follows. -/
theorem charge {suspended live : List τ} (h : Loaded s departed) (hNodup : live.Nodup)
    (hMoved : ∀ core, homed s core live + homed s core s.suspended =
      homed s core s.live + homed s core suspended + if core = (s.task task).coreId then 1 else 0) :
    Loaded { charge task s with suspended := suspended, live := live } departed := by
  refine h.change (fun core => if core = (s.task task).coreId then 1 else 0) (fun _ => 0)
    (fun _ => rfl) hNodup charge_coreId ?_ hMoved
  intro core
  by_cases hHome : core = (s.task task).coreId
  · subst hHome
    simp [Localsched.charge, State.setData]
  · simp [Localsched.charge, State.setData, State.setTask, hHome,
      Nat.mod_eq_of_lt (UInt64.toNat_lt _)]

/-- The current task is put away: unless it goes back into the heap, one task less can run, and
the counter does not follow. -/
theorem left {fate : Fate} (h : Loaded s departed) (hConserved : Conserved s queue)
    (hLeft : Left core fate tsc s s') :
    Loaded s' fun other => departed other + if fate ≠ .requeue ∧ other = core then 1 else 0 := by
  obtain ⟨oldTask, charged, hCurrent, hCharged, hKept⟩ := hLeft
  have hMem : oldTask ∈ places s queue (.current core) := by simp [places, hCurrent]
  have hLive : oldTask ∈ charged.live :=
    hCharged.live ▸ hConserved.arranged.placed.live_of_mem hMem
  have hHome : (charged.task oldTask).coreId = core :=
    (hCharged.coreId oldTask).trans (hConserved.arranged.home core oldTask (.inl hMem))
  have hBefore : Loaded charged departed :=
    h.same hCharged.tasksCount hCharged.coreId hCharged.suspended hCharged.live
  have hSame : ∀ other, (charged.localsched other).tasksCount.toNat =
      ((charged.localsched other).tasksCount.toNat + 0) % 2 ^ 64 :=
    fun other => (Nat.mod_eq_of_lt (UInt64.toNat_lt _)).symm
  cases fate with
  | requeue =>
      have hEnqueued : Loaded (threadLocalschedEnqueueNolock core oldTask charged) departed :=
        hBefore.kept kept_setHeap
      simpa using hEnqueued.kept hKept
  | suspend =>
      apply Loaded.kept _ hKept
      refine hBefore.change (fun _ => 0) (fun other => if other = core then 1 else 0) ?_
        hBefore.nodup depart_coreId hSame ?_
      · intro other
        simp
      · intro other
        simp [depart, State.setTask, homed, List.countP_cons, hHome, eq_comm, Nat.add_assoc]
  | terminate =>
      apply Loaded.kept _ hKept
      refine hBefore.change (fun _ => 0) (fun other => if other = core then 1 else 0) ?_
        (hBefore.nodup.filter _) (fun _ => rfl) hSame ?_
      · intro other
        simp
      intro other
      have hErase : (depart core oldTask charged .terminate).live = charged.live.erase oldTask := by
        rw [hBefore.nodup.erase_eq_filter]
        apply List.filter_congr
        intro x _
        rw [Bool.eq_iff_iff]
        simp
      have hCount : homed charged other charged.live =
          homed charged other (charged.live.erase oldTask) + if other = core then 1 else 0 := by
        rw [homed, (List.perm_cons_erase hLive).countP_eq]
        simp [homed, List.countP_cons, hHome, eq_comm]
      rw [hErase, hCount]
      simp only [depart]
      omega

omit [DecidableEq τ] in
theorem initial (h : Initial s) : Loaded s fun _ => 0 := by
  refine ⟨h.live ▸ .nil, fun core => ?_⟩
  rw [(h.data core).2.2.1, h.suspended, h.live]
  rfl

end Loaded

omit [DecidableEq τ] in
theorem departures_append (core : κ) (trace : List (Action κ τ)) (action : Action κ τ) :
    departures core (trace ++ [action]) =
      departures core trace + if departs core action then 1 else 0 := by
  simp [departures, List.countP_append, List.countP_cons]

omit [DecidableEq τ] in
theorem homed_cons (core : κ) (tasks : List τ) :
    homed s core (task :: tasks) =
      homed s core tasks + if core = (s.task task).coreId then 1 else 0 := by
  simp [homed, List.countP_cons, eq_comm]

theorem Loaded.step {action : Action κ τ} {depth : Nat} (h : Loaded s departed)
    (hConserved : Conserved s queue) (hExec : exec depth s action = some s') :
    Loaded s' fun core => departed core + if departs core action then 1 else 0 := by
  have hPlaced := hConserved.arranged.placed
  have hEffect := exec_effect hExec
  cases action with
  | associate logicalId task =>
      obtain ⟨hNew, hKept⟩ := hEffect
      have hSuspended : task ∉ s.suspended := hConserved.notMem hNew .suspended
      simp only [departs, Bool.false_eq_true, if_false, Nat.add_zero]
      apply Loaded.kept _ hKept
      apply (h.setNew hNew hSuspended _).charge (List.nodup_cons.mpr ⟨hNew, h.nodup⟩)
      intro other
      rw [homed_cons, Nat.add_right_comm]
      rfl
  | wakeUp task =>
      simp only [departs, Bool.false_eq_true, if_false, Nat.add_zero]
      rcases hEffect with ⟨hSuspended, hKept⟩ | ⟨-, hNew, hKept⟩
      · apply Loaded.kept _ hKept
        apply h.charge h.nodup
        intro core
        have hCount : homed s core s.suspended = homed s core (task :: s.suspended.erase task) :=
          (List.perm_cons_erase hSuspended).countP_eq _
        rw [hCount, homed_cons, Nat.add_assoc]
      · apply Loaded.kept _ hKept
        apply h.charge (List.nodup_cons.mpr ⟨hNew, h.nodup⟩)
        intro core
        rw [homed_cons, Nat.add_right_comm]
        rfl
  | timer core tsc tsc' =>
      simp only [departs, Bool.false_eq_true, if_false, Nat.add_zero]
      rcases hEffect with ⟨-, hKept⟩ | hLeft
      · exact h.kept hKept
      · simpa using h.left hConserved hLeft
  | yield core tsc tsc' => simpa [departs] using h.left hConserved hEffect
  | suspendCurrent core tsc tsc' => simpa [departs, eq_comm] using h.left hConserved hEffect
  | terminate core tsc tsc' => simpa [departs, eq_comm] using h.left hConserved hEffect
  | bootstrap core tsc => simpa [departs] using h.kept hEffect
  | idleRound core tsc => simpa [departs] using h.kept hEffect
  | ipi core => simpa [departs] using h.kept hEffect
  | interrupt core => simpa [departs] using h.kept hEffect

theorem Loaded.run (run : system.Execution trace s) :
    Loaded s fun core => departures core trace := by
  induction run with
  | start hInit => exact Loaded.initial hInit
  | step prior last ih =>
      obtain ⟨depth, hExec⟩ := last
      obtain ⟨queue, hConserved⟩ := Conserved.run prior
      simp only [departures_append]
      exact ih.step hConserved hExec

/-- In every state that a run reaches, the counter of a core is the number of the tasks that
can run on it, and the number of times that a task of it was suspended or terminated. -/
theorem tasksCount_eq (run : system.Execution trace s) (hConserved : Conserved s queue) (core : κ) :
    (s.localsched core).tasksCount =
      UInt64.ofNat (runnable s queue core + departures core trace) := by
  have hLoaded := Loaded.run run
  have hBalance := hLoaded.balance core
  rw [hConserved.homed_live hLoaded.nodup core] at hBalance
  have hLt := UInt64.toNat_lt (s.localsched core).tasksCount
  rw [← UInt64.toNat_inj, UInt64.toNat_ofNat']
  omega

/-- `tasks_count` is the number of the tasks that can run on the core, in its heap or current,
exactly if no task was suspended or terminated on the core during the run; more precisely, if
the number of times this happened is a multiple of `2 ^ 64`. -/
theorem tasks_count_is_load_iff (run : system.Execution trace s) :
    ∃ queue : κ → List τ,
      (∀ core, Heap s.hooks (s.localsched core).heapRoot (queue core)) ∧
      ∀ core, (s.localsched core).tasksCount = UInt64.ofNat (runnable s queue core) ↔
        2 ^ 64 ∣ departures core trace := by
  obtain ⟨queue, hConserved⟩ := Conserved.run run
  refine ⟨queue, hConserved.arranged.heap, fun core => ?_⟩
  rw [tasksCount_eq run hConserved core, ← UInt64.toNat_inj, UInt64.toNat_ofNat', UInt64.toNat_ofNat']
  omega

/-- Two tasks wait on a core of a zeroed machine, and no task has left it. -/
theorem tasks_count_is_load_iff_two_tasks :
    ∃ (s : State Nat Nat) (queue : Nat → List Nat),
      system.Execution [.associate 0 1, .associate 0 2] s ∧
      (s.localsched 0).tasksCount = UInt64.ofNat (runnable s queue 0) := by
  obtain ⟨s, hRun⟩ : ∃ s : State Nat Nat, system.Execution [.associate 0 1, .associate 0 2] s :=
    ⟨_, run_of_foldlM 8 zeroed_initial rfl⟩
  obtain ⟨queue, -, hLoad⟩ := tasks_count_is_load_iff hRun
  exact ⟨s, queue, hRun, (hLoad 0).mpr (by decide)⟩

/-- One of two tasks is suspended. One task is current and the heap is empty, but the counter
stays at two, so the idle unfairness of the core grows by half of the time that the task runs. -/
theorem tasks_count_keeps_suspended_task :
    ∃ s : State Nat Nat, system.Execution [.associate 0 1, .associate 0 2, .bootstrap 0 10,
        .suspendCurrent 0 20 21] s ∧
      (s.localsched 0).tasksCount = 2 ∧
      (∀ queue : Nat → List Nat, (∀ core, Heap s.hooks (s.localsched core).heapRoot (queue core)) →
        runnable s queue 0 = 1 ∧ (s.localsched 0).tasksCount ≠ UInt64.ofNat (runnable s queue 0)) ∧
      ∃ s', system.step s (.timer 0 31 32) s' ∧
        (s'.localsched 0).idleUnfairness = (s.localsched 0).idleUnfairness + 10 / 2 := by
  obtain ⟨s, hRun, hCount, hRoot, hCurrent, hNext⟩ : ∃ s : State Nat Nat,
      system.Execution [.associate 0 1, .associate 0 2, .bootstrap 0 10, .suspendCurrent 0 20 21] s ∧
      (s.localsched 0).tasksCount = 2 ∧ (s.localsched 0).heapRoot = none ∧
      (s.localsched 0).currentTask = some 1 ∧
      ∃ s', system.step s (.timer 0 31 32) s' ∧
        (s'.localsched 0).idleUnfairness = (s.localsched 0).idleUnfairness + 10 / 2 :=
    ⟨_, run_of_foldlM 8 zeroed_initial rfl, rfl, rfl, rfl, _, ⟨8, rfl⟩, rfl⟩
  refine ⟨s, hRun, hCount, fun queue hHeap => ?_, hNext⟩
  have hEmpty : queue 0 = [] := (hHeap 0).root_eq_none_iff.mp hRoot
  have hOne : runnable s queue 0 = 1 := by
    rw [runnable, hEmpty, hCurrent]
    rfl
  rw [hCount, hOne]
  exact ⟨rfl, by decide⟩

end Ricerca.Localsched
