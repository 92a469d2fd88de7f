import Mathlib.Algebra.Group.Nat.Defs
import Mathlib.Data.List.Induction
import Ricerca.Thread.LocalschedStamps

/-! The arithmetic of the local schedulers: the cycles that are charged to a task and to its
core, the unfairness that a task gains while it is suspended, and the length of a timeslice. -/
namespace Ricerca.Localsched

open Foundation PairingHeap

universe u

variable {κ τ : Type u} [DecidableEq κ] [DecidableEq τ]

/-- `THREAD_LOCAL_TIMESLICE_MIN`. -/
def threadLocalTimesliceMin : UInt64 := 10000

/-- `THREAD_LOCAL_TIMESLICE_DEFAULT`. -/
def threadLocalTimesliceDefault : UInt64 := 20000

def threadLocalschedTryGetNolock (core : κ) (s : State κ τ) : Option τ :=
  pairingHeapGetMin (s.localsched core).heapRoot

/-- In microseconds. The division faults when the frequency of the counter is zero. -/
def threadLocalschedPickTimesliceLen (tscFreq : κ → UInt64) (core : κ) (currentUnfairness : UInt64)
    (s : State κ τ) : Option UInt64 :=
  match threadLocalschedTryGetNolock core s with
  | none => some threadLocalTimesliceDefault
  | some alternative =>
      let unfairnessDiff := (s.task alternative).unfairness - currentUnfairness
      if tscFreq core = 0 then
        none
      else
        let us := unfairnessDiff / tscFreq core
        some (if us > threadLocalTimesliceMin then us else threadLocalTimesliceMin)

/-- A call of one of the functions that calculate, with the state that it finds. The timeslice
is picked for a task that is about to run. -/
inductive Calculation (κ τ : Type u) where
  | updateUnfairness (core : κ) (task : τ) (tsc : UInt64) (s : State κ τ)
  | wakeUp (task : τ) (s : State κ τ)
  | pickTimesliceLen (core : κ) (task : τ) (s : State κ τ)

/-- The call for the task that a core takes out of its heap. -/
def dequeueCalculations (depth : Nat) (core : κ) (s : State κ τ) : List (Calculation κ τ) :=
  match threadLocalschedTryDequeueNolock depth core s with
  | some (some task, s) => [.pickTimesliceLen core task s]
  | _ => []

/-- The calls for a core that leaves its current task. The timer handler goes on to pick the
next timeslice; the handlers of scheduler calls do so only after an idle wait. -/
def leaveCalculations (core : κ) (tsc : UInt64) (s : State κ τ)
    (rest : τ → State κ τ → List (Calculation κ τ)) : List (Calculation κ τ) :=
  match (s.localsched core).currentTask with
  | none => []
  | some oldTask =>
      .updateUnfairness core oldTask tsc s ::
        match threadLocalschedUpdateUnfairness core oldTask tsc s with
        | none => []
        | some s => rest oldTask s

/-- What is calculated in the course of an action. -/
def calculations (depth : Nat) (s : State κ τ) : Action κ τ → List (Calculation κ τ)
  | .associate logicalId task =>
      if task ∈ s.live then []
      else [.wakeUp task (s.setTask task
        { s.task task with unfairness := 0, accUnfairnessIdle := 0, coreId := logicalId })]
  | .wakeUp task => [.wakeUp task s]
  | .timer core tsc _ => leaveCalculations core tsc s fun oldTask s =>
      dequeueCalculations depth core (threadLocalschedEnqueueNolock core oldTask s)
  | .yield core tsc _ | .suspendCurrent core tsc _ | .terminate core tsc _ =>
      leaveCalculations core tsc s fun _ _ => []
  | .bootstrap core _ =>
      if s.phase core = .booting then dequeueCalculations depth core s else []
  | .idleRound core _ => if s.phase core = .woken then dequeueCalculations depth core s else []
  | .ipi _ | .interrupt _ => []

/-- No division faults and no subtraction wraps, and the timeslice is what it is meant to be. -/
def Calculation.Safe (tscFreq : κ → UInt64) : Calculation κ τ → Prop
  | .updateUnfairness core task tsc s =>
      1 ≤ (s.localsched core).tasksCount ∧ (s.task task).timestamp ≤ tsc
  | .wakeUp task s =>
      (s.task task).accUnfairnessIdle ≤ (s.localsched (s.task task).coreId).idleUnfairness
  | .pickTimesliceLen core task s =>
      ∀ alternative, threadLocalschedTryGetNolock core s = some alternative →
        (s.task task).unfairness ≤ (s.task alternative).unfairness ∧
        ∃ us, threadLocalschedPickTimesliceLen tscFreq core (s.task task).unfairness s = some us ∧
          us.toNat = max 10000 (((s.task alternative).unfairness.toNat -
            (s.task task).unfairness.toNat) / (tscFreq core).toNat)

/-- Tasks that are woken up are suspended, or new: then the field that the wake-up reads is
zero, as `thread_localsched_associate` leaves it. -/
def Proper (s : State κ τ) : Action κ τ → Prop
  | .wakeUp task =>
      task ∈ s.suspended ∨ (task ∉ s.live ∧ (s.task task).accUnfairnessIdle = 0)
  | _ => True

def wakes : Action κ τ → Bool
  | .associate _ _ | .wakeUp _ => true
  | _ => false

/-- The counters of all cores go up, and there are less than `2 ^ 62` wake-ups. The cycles need
no bound: a counter that goes up as a number of 64 bits does not wrap. -/
structure Steady (trace : List (Action κ τ)) : Prop where
  monotone : ∀ core, (trace.flatMap (readings core)).Pairwise (· ≤ ·)
  wakeUps : trace.countP wakes < 2 ^ 62

variable {s s' : State κ τ} {queue : κ → List τ} {core : κ} {task : τ} {tsc tsc' : UInt64}
  {depth woken : Nat} {now : κ → UInt64} {tscFreq : κ → UInt64}

/-- The figures between two steps. `woken` bounds the wake-ups so far, and `now` is what each core
has last read from its counter. -/
structure Fair (now : κ → UInt64) (woken : Nat) (s : State κ τ) : Prop where
  counted : ∀ core, (s.localsched core).tasksCount.toNat ≤ woken
  positive : ∀ x ∈ s.live, 0 < (s.localsched (s.task x).coreId).tasksCount.toNat
  idle : ∀ core, (s.localsched core).idleUnfairness.toNat ≤ (now core).toNat
  suspended : ∀ x ∈ s.suspended, (s.task x).accUnfairnessIdle.toNat ≤
    (s.localsched (s.task x).coreId).idleUnfairness.toNat

theorem le_update (h : now core ≤ tsc) (other : κ) : now other ≤ Function.update now core tsc other := by
  by_cases hOther : other = core
  · subst hOther
    rw [Function.update_self]
    exact h
  · rw [Function.update_of_ne hOther]
    exact UInt64.le_refl _

namespace Fair

omit [DecidableEq κ] [DecidableEq τ] in
theorem kept (h : Fair now woken s) (hKept : Kept s s') : Fair now woken s' := by
  refine ⟨fun core => ?_, fun x hx => ?_, fun core => ?_, fun x hx => ?_⟩
  · rw [hKept.tasksCount]
    exact h.counted core
  · rw [hKept.coreId, hKept.tasksCount]
    exact h.positive x (hKept.live ▸ hx)
  · rw [hKept.idleUnfairness]
    exact h.idle core
  · rw [hKept.coreId, hKept.accUnfairnessIdle, hKept.idleUnfairness]
    exact h.suspended x (hKept.suspended ▸ hx)

omit [DecidableEq κ] [DecidableEq τ] in
theorem later {now' : κ → UInt64} (h : Fair now woken s) (hLater : ∀ core, now core ≤ now' core) :
    Fair now' woken s where
  counted := h.counted
  positive := h.positive
  idle core := Nat.le_trans (h.idle core) (hLater core)
  suspended := h.suspended

omit [DecidableEq τ] in
/-- A task is charged for the cycles since it started, which is when its core last read its
counter. -/
theorem charged (h : Fair now woken s) (hCharged : Charged core task tsc s s')
    (hStamp : (s.task task).timestamp = now core) (hLater : now core ≤ tsc) :
    Fair (Function.update now core tsc) woken s' ∧
      ∀ other, (s.localsched other).idleUnfairness.toNat ≤
        (s'.localsched other).idleUnfairness.toNat := by
  have hCycles : (tsc - now core).toNat = tsc.toNat - (now core).toNat :=
    UInt64.toNat_sub_of_le _ _ hLater
  have hLe : (now core).toNat ≤ tsc.toNat := hLater
  have hIdle := h.idle core
  have hTsc := UInt64.toNat_lt tsc
  obtain ⟨share, hShare, hSum⟩ : ∃ share, share ≤ tsc.toNat - (now core).toNat ∧
      (s'.localsched core).idleUnfairness.toNat =
        (s.localsched core).idleUnfairness.toNat + share := by
    have hQuotient : (tsc - now core).toNat / (s.localsched core).tasksCount.toNat ≤
        tsc.toNat - (now core).toNat := hCycles ▸ Nat.div_le_self _ _
    refine ⟨_, hQuotient, ?_⟩
    rw [hCharged.idleUnfairness, hStamp, UInt64.toNat_add, UInt64.toNat_div]
    apply Nat.mod_eq_of_lt
    refine Nat.lt_of_le_of_lt (Nat.add_le_add_left hQuotient _) ?_
    omega
  have hGrows : ∀ other, (s.localsched other).idleUnfairness.toNat ≤
      (s'.localsched other).idleUnfairness.toNat := by
    intro other
    by_cases hOther : other = core
    · subst hOther
      omega
    · exact Nat.le_of_eq (congrArg UInt64.toNat (hCharged.others other hOther)).symm
  refine ⟨⟨fun other => ?_, fun x hx => ?_, fun other => ?_, fun x hx => ?_⟩, hGrows⟩
  · rw [hCharged.tasksCount]
    exact h.counted other
  · rw [hCharged.coreId, hCharged.tasksCount]
    exact h.positive x (hCharged.live ▸ hx)
  · by_cases hOther : other = core
    · subst hOther
      rw [Function.update_self]
      omega
    · rw [Function.update_of_ne hOther, hCharged.others other hOther]
      exact h.idle other
  · rw [hCharged.coreId, hCharged.accUnfairnessIdle]
    exact Nat.le_trans (h.suspended x (hCharged.suspended ▸ hx)) (hGrows _)

/-- A task is suspended with the idle unfairness of its core as it is. -/
theorem depart (h : Fair now woken s) (hHome : (s.task task).coreId = core) (fate : Fate) :
    Fair now woken (depart core task s fate) := by
  cases fate with
  | requeue => exact h.kept kept_setHeap
  | suspend =>
      have hCore : ∀ x, ((Localsched.depart core task s .suspend).task x).coreId =
          (s.task x).coreId := by
        intro x
        by_cases hx : x = task
        · subst hx
          simp [Localsched.depart, State.setTask]
        · simp [Localsched.depart, State.setTask, hx]
      refine ⟨h.counted, fun x hx => ?_, h.idle, fun x hx => ?_⟩
      · rw [hCore]
        exact h.positive x hx
      · rw [hCore]
        by_cases hEq : x = task
        · subst hEq
          simp [Localsched.depart, State.setTask, hHome]
        · have hOld : x ∈ s.suspended := (List.mem_cons.mp hx).resolve_left hEq
          simpa [Localsched.depart, State.setTask, hEq] using h.suspended x hOld
  | terminate =>
      exact ⟨h.counted, fun x hx => h.positive x (List.mem_of_mem_filter hx), h.idle, h.suspended⟩

omit [DecidableEq κ] in
/-- The fields of a task that is not there yet are of no account. -/
theorem setNew (h : Fair now woken s) (hLive : task ∉ s.live) (hSuspended : task ∉ s.suspended)
    (value : ThreadTask κ) : Fair now woken (s.setTask task value) := by
  have hOld : ∀ x, x ≠ task → (s.setTask task value).task x = s.task x := by
    intro x hx
    simp [State.setTask, hx]
  refine ⟨h.counted, fun x hx => ?_, h.idle, fun x hx => ?_⟩
  · rw [hOld x fun hEq => hLive (hEq ▸ hx)]
    exact h.positive x hx
  · rw [hOld x fun hEq => hSuspended (hEq ▸ hx)]
    exact h.suspended x hx

/-- A wake-up is counted by the core of the task. -/
theorem charge {suspended live : List τ} (h : Fair now woken s) (hBound : woken + 1 < 2 ^ 64)
    (hSuspended : ∀ x ∈ suspended, x ∈ s.suspended) (hLive : ∀ x ∈ live, x = task ∨ x ∈ s.live) :
    Fair now (woken + 1)
      { charge task s with suspended := suspended, live := live } := by
  have hCore : ∀ x, ((Localsched.charge task s).task x).coreId = (s.task x).coreId := by
    intro x
    by_cases hx : x = task
    · subst hx
      simp [Localsched.charge, State.setData, State.setTask]
    · simp [Localsched.charge, State.setData, State.setTask, hx]
  have hAcc : ∀ x, ((Localsched.charge task s).task x).accUnfairnessIdle =
      (s.task x).accUnfairnessIdle := by
    intro x
    by_cases hx : x = task
    · subst hx
      simp [Localsched.charge, State.setData, State.setTask]
    · simp [Localsched.charge, State.setData, State.setTask, hx]
  have hIdle : ∀ core, ((Localsched.charge task s).localsched core).idleUnfairness =
      (s.localsched core).idleUnfairness := by
    intro core
    by_cases hHome : core = (s.task task).coreId
    · subst hHome
      simp [Localsched.charge, State.setData]
    · simp [Localsched.charge, State.setData, State.setTask, hHome]
  have hCount : ∀ core, ((Localsched.charge task s).localsched core).tasksCount.toNat =
      (s.localsched core).tasksCount.toNat + if core = (s.task task).coreId then 1 else 0 := by
    intro core
    have hLe := h.counted core
    by_cases hHome : core = (s.task task).coreId
    · subst hHome
      simp only [Localsched.charge, State.setData, Function.update_self, UInt64.toNat_add,
        UInt64.toNat_one, if_pos]
      exact Nat.mod_eq_of_lt (by omega)
    · simp [Localsched.charge, State.setData, State.setTask, hHome]
  refine ⟨fun core => ?_, fun x hx => ?_, fun core => ?_, fun x hx => ?_⟩
  · dsimp only
    rw [hCount]
    have hLe := h.counted core
    split <;> omega
  · dsimp only
    rw [hCore, hCount]
    rcases hLive x hx with rfl | hOld
    · rw [if_pos rfl]
      exact Nat.succ_pos _
    · exact Nat.lt_of_lt_of_le (h.positive x hOld) (Nat.le_add_right ..)
  · dsimp only
    rw [hIdle]
    exact h.idle core
  · dsimp only
    rw [hCore, hAcc, hIdle]
    exact h.suspended x (hSuspended x hx)

/-- The core charges its current task and puts it away. -/
theorem left {fate : Fate} (h : Fair now woken s) (hConserved : Conserved s queue)
    (hStamped : Stamped now s) (hLater : now core ≤ tsc) (hLast : tsc ≤ tsc')
    (hLeft : Left core fate tsc s s') : Fair (Function.update now core tsc') woken s' := by
  obtain ⟨oldTask, charged, hCurrent, hCharged, hKept⟩ := hLeft
  have hMem : oldTask ∈ places s queue (.current core) := by simp [places, hCurrent]
  have hHome : (charged.task oldTask).coreId = core :=
    (hCharged.coreId oldTask).trans (hConserved.arranged.home core oldTask (.inl hMem))
  have hFair := (h.charged hCharged (hStamped core oldTask hCurrent) hLater).1
  apply ((hFair.depart hHome fate).kept hKept).later
  rw [← Function.update_idem tsc tsc' now]
  apply le_update
  rw [Function.update_self]
  exact hLast

/-- The figures stay fair in every step of a run whose readings go up. -/
theorem step {action : Action κ τ} (h : Fair now woken s) (hConserved : Conserved s queue)
    (hStamped : Stamped now s)
    (hReadings : ∀ core, (now core :: readings core action).Pairwise (· ≤ ·))
    (hBound : woken + 1 < 2 ^ 64) (hExec : exec depth s action = some s') :
    Fair (advance now action) (woken + if wakes action then 1 else 0) s' := by
  have hEffect := exec_effect hExec
  have hPair : ∀ (core : κ) (tsc tsc' : UInt64), readings core action = [tsc, tsc'] →
      now core ≤ tsc ∧ tsc ≤ tsc' := by
    intro core tsc tsc' hEq
    have hOrder := hReadings core
    rw [hEq] at hOrder
    simp only [List.pairwise_cons, List.mem_cons, List.not_mem_nil, or_false, forall_eq_or_imp,
      forall_eq] at hOrder
    exact ⟨hOrder.1.1, hOrder.2.1⟩
  have hOne : ∀ (core : κ) (tsc : UInt64), readings core action = [tsc] →
      ∀ other, now other ≤ Function.update now core tsc other := by
    intro core tsc hEq
    have hOrder := hReadings core
    rw [hEq] at hOrder
    exact le_update ((List.pairwise_cons.mp hOrder).1 tsc (List.mem_singleton_self _))
  cases action with
  | associate logicalId task =>
      obtain ⟨hNew, hKept⟩ := hEffect
      have hSuspended : task ∉ s.suspended := hConserved.notMem hNew .suspended
      apply Fair.kept _ hKept
      exact (h.setNew hNew hSuspended _).charge hBound (fun x hx => hx) fun x hx => List.mem_cons.mp hx
  | wakeUp task =>
      rcases hEffect with ⟨-, hKept⟩ | ⟨-, -, hKept⟩
      · apply Fair.kept _ hKept
        exact h.charge hBound (fun x hx => List.mem_of_mem_erase hx) fun x hx => .inr hx
      · apply Fair.kept _ hKept
        exact h.charge hBound (fun x hx => hx) fun x hx => List.mem_cons.mp hx
  | timer core tsc tsc' =>
      obtain ⟨hFirst, hLast⟩ := hPair core tsc tsc' (if_pos rfl)
      rw [advance_pair _ fun _ => rfl]
      rcases hEffect with ⟨-, hKept⟩ | hLeft
      · exact (h.kept hKept).later (le_update (UInt64.le_trans hFirst hLast))
      · exact h.left hConserved hStamped hFirst hLast hLeft
  | yield core tsc tsc' =>
      obtain ⟨hFirst, hLast⟩ := hPair core tsc tsc' (if_pos rfl)
      rw [advance_pair _ fun _ => rfl]
      exact h.left hConserved hStamped hFirst hLast hEffect
  | suspendCurrent core tsc tsc' =>
      obtain ⟨hFirst, hLast⟩ := hPair core tsc tsc' (if_pos rfl)
      rw [advance_pair _ fun _ => rfl]
      exact h.left hConserved hStamped hFirst hLast hEffect
  | terminate core tsc tsc' =>
      obtain ⟨hFirst, hLast⟩ := hPair core tsc tsc' (if_pos rfl)
      rw [advance_pair _ fun _ => rfl]
      exact h.left hConserved hStamped hFirst hLast hEffect
  | bootstrap core tsc =>
      rw [advance_one _ fun _ => rfl]
      exact (h.kept hEffect).later (hOne core tsc (if_pos rfl))
  | idleRound core tsc =>
      rw [advance_one _ fun _ => rfl]
      exact (h.kept hEffect).later (hOne core tsc (if_pos rfl))
  | ipi core => exact h.kept hEffect
  | interrupt core => exact h.kept hEffect

omit [DecidableEq κ] [DecidableEq τ] in
theorem initial (h : Initial s) : Fair (fun _ => 0) 0 s := by
  refine ⟨fun core => ?_, fun x hx => ?_, fun core => ?_, fun x hx => ?_⟩
  · rw [(h.data core).2.2.1]
    exact Nat.le_refl _
  · rw [h.live] at hx
    cases hx
  · exact Nat.le_of_eq (congrArg UInt64.toNat (h.data core).2.2.2)
  · rw [h.suspended] at hx
    cases hx

end Fair

/-- What each core has last read from its counter, or zero. -/
def lastReadings (trace : List (Action κ τ)) : κ → UInt64 := trace.foldl advance fun _ => 0

variable {trace : List (Action κ τ)} {action : Action κ τ}

omit [DecidableEq τ] in
theorem lastReadings_append (trace : List (Action κ τ)) (action : Action κ τ) :
    lastReadings (trace ++ [action]) = advance (lastReadings trace) action := by
  rw [lastReadings, List.foldl_append]
  rfl

omit [DecidableEq τ] in
theorem lastReadings_mem (trace : List (Action κ τ)) (core : κ) :
    lastReadings trace core = 0 ∨ lastReadings trace core ∈ trace.flatMap (readings core) := by
  induction trace using List.reverseRecOn with
  | nil => exact .inl rfl
  | append_singleton trace action ih =>
      rw [lastReadings_append, List.flatMap_append, List.flatMap_singleton, List.mem_append, advance]
      cases hLast : (readings core action).getLast? with
      | none =>
          rw [Option.getD_none]
          exact ih.imp_right .inl
      | some tsc =>
          rw [Option.getD_some]
          exact .inr (.inr (List.mem_of_getLast? hLast))

omit [DecidableEq τ] in
theorem Steady.before (h : Steady (trace ++ [action])) : Steady trace := by
  refine ⟨fun core => ?_, ?_⟩
  · have hOrder := h.monotone core
    rw [List.flatMap_append] at hOrder
    exact (List.pairwise_append.mp hOrder).1
  · have hWakes := h.wakeUps
    rw [List.countP_append] at hWakes
    exact Nat.lt_of_le_of_lt (Nat.le_add_right ..) hWakes

omit [DecidableEq τ] in
/-- The readings of one more action go on from the last ones. -/
theorem Steady.readings (h : Steady (trace ++ [action])) (core : κ) :
    (lastReadings trace core :: Localsched.readings core action).Pairwise (· ≤ ·) := by
  have hOrder := h.monotone core
  rw [List.flatMap_append, List.flatMap_singleton, List.pairwise_append] at hOrder
  refine List.pairwise_cons.mpr ⟨fun tsc hTsc => ?_, hOrder.2.1⟩
  rcases lastReadings_mem trace core with hZero | hMem
  · rw [hZero]
    exact UInt64.zero_le
  · exact hOrder.2.2 _ hMem tsc hTsc

/-- What holds of the figures, the heaps and the current tasks in all states of a run. -/
theorem fair_run (run : system.Execution trace s) (hSteady : Steady trace) :
    Fair (lastReadings trace) (trace.countP wakes) s ∧ Stamped (lastReadings trace) s ∧
      SortedAll s := by
  induction run with
  | start hInit =>
      refine ⟨Fair.initial hInit, fun core x hx => ?_, fun core => ?_⟩
      · rw [(hInit.data core).2.1] at hx
        cases hx
      · rw [(hInit.data core).1]
        exact Sorted.empty
  | @step trace s s' action prior last ih =>
      obtain ⟨depth, hExec⟩ := last
      obtain ⟨hFair, hStamped, hSorted⟩ := ih hSteady.before
      obtain ⟨queue, hConserved⟩ := Conserved.run prior
      obtain ⟨queue', hAfter⟩ := hConserved.step hExec
      have hBound : trace.countP wakes + 1 < 2 ^ 64 := by
        have hWakes := hSteady.before.wakeUps
        omega
      have hCount : (trace ++ [action]).countP wakes =
          trace.countP wakes + if wakes action then 1 else 0 := by
        simp [List.countP_append, List.countP_cons]
      rw [lastReadings_append, hCount]
      exact ⟨hFair.step hConserved hStamped hSteady.readings hBound hExec,
        hStamped.step hConserved hAfter hExec, hSorted.step hConserved hExec⟩

section Calculations

theorem dequeueCalculations_mem {core' : κ} {taken : State κ τ}
    (h : .pickTimesliceLen core' task taken ∈ dequeueCalculations depth core s) :
    core' = core ∧ threadLocalschedTryDequeueNolock depth core s = some (some task, taken) := by
  rw [dequeueCalculations] at h
  split at h
  · rename_i found last hTry
    cases List.mem_singleton.mp h
    exact ⟨rfl, hTry⟩
  · cases h

/-- A timeslice is picked for the task that the action goes on to run, in the state that it
leaves but for that task. -/
theorem pick_then_resume {taken : State κ τ}
    (h : .pickTimesliceLen core task taken ∈ calculations depth s action) :
    ∃ tsc, exec depth s action = some (resume core task tsc taken) := by
  have hLeave : ∀ core' tsc, .pickTimesliceLen core task taken ∉
      leaveCalculations core' tsc s fun _ _ => [] := by
    intro core' tsc hMem
    rw [leaveCalculations] at hMem
    split at hMem
    · cases hMem
    · split at hMem <;> simp at hMem
  cases action with
  | associate logicalId x =>
      simp only [calculations] at h
      split at h <;> simp at h
  | wakeUp x => simp [calculations] at h
  | timer core' tsc tsc' =>
      simp only [calculations, leaveCalculations] at h
      split at h
      · cases h
      · rename_i oldTask hCurrent
        have hRest := (List.mem_cons.mp h).resolve_left (by simp)
        split at hRest
        · cases hRest
        · rename_i charged hUpdate
          obtain ⟨rfl, hTry⟩ := dequeueCalculations_mem hRest
          refine ⟨tsc', ?_⟩
          simp only [exec, threadLocalschedTimerIntHandler, hCurrent, hUpdate, hTry,
            Option.bind_eq_bind, Option.bind_some, Option.getD_some]
  | yield core' tsc tsc' => exact (hLeave core' tsc h).elim
  | suspendCurrent core' tsc tsc' => exact (hLeave core' tsc h).elim
  | terminate core' tsc tsc' => exact (hLeave core' tsc h).elim
  | bootstrap core' tsc =>
      simp only [calculations] at h
      split at h
      · rename_i hPhase
        obtain ⟨rfl, hTry⟩ := dequeueCalculations_mem h
        refine ⟨tsc, ?_⟩
        simp only [exec, if_pos hPhase, threadLocalschedWaitOnBootstrap, threadLocalschedDequeue, hTry,
          Option.map_some]
      · cases h
  | idleRound core' tsc =>
      simp only [calculations] at h
      split at h
      · rename_i hPhase
        obtain ⟨rfl, hTry⟩ := dequeueCalculations_mem h
        refine ⟨tsc, ?_⟩
        simp only [exec, if_pos hPhase, threadLocalschedDequeueRound, hTry, Option.map_some]
      · cases h
  | ipi core' => cases h
  | interrupt core' => cases h

theorem toNat_timeslice (us : UInt64) :
    (if us > threadLocalTimesliceMin then us else threadLocalTimesliceMin).toNat =
      max 10000 us.toNat := by
  have hMin : threadLocalTimesliceMin.toNat = 10000 := rfl
  split
  · rename_i hMore
    have hLt : threadLocalTimesliceMin.toNat < us.toNat := hMore
    omega
  · rename_i hLess
    have hLe : ¬threadLocalTimesliceMin.toNat < us.toNat := hLess
    omega

/-- The task that comes out of a heap is the least unfair one. -/
theorem dequeueCalculations_safe {held : Place κ → List τ} {live : List τ} (hSorted : SortedAll s)
    (hArranged : Arranged s held live) (hFreq : tscFreq core ≠ 0) :
    ∀ c ∈ dequeueCalculations depth core s, c.Safe tscFreq := by
  intro c hc
  rw [dequeueCalculations] at hc
  split at hc
  · rename_i task taken hTry
    rw [List.mem_singleton.mp hc]
    intro alternative hAlternative
    have hLe := (hSorted.tryDequeue hArranged hTry).2 task alternative rfl hAlternative
    have hPick : threadLocalschedPickTimesliceLen tscFreq core (taken.task task).unfairness taken =
        some (if ((taken.task alternative).unfairness - (taken.task task).unfairness) / tscFreq core >
          threadLocalTimesliceMin then
            ((taken.task alternative).unfairness - (taken.task task).unfairness) / tscFreq core
          else threadLocalTimesliceMin) := by
      simp only [threadLocalschedPickTimesliceLen, hAlternative, if_neg hFreq]
    refine ⟨hLe, _, hPick, ?_⟩
    rw [toNat_timeslice, UInt64.toNat_div, UInt64.toNat_sub_of_le _ _ hLe]
  · cases hc

omit [DecidableEq κ] [DecidableEq τ] in
/-- The core has counted its current task, and read its counter when that task started. -/
theorem updateUnfairness_safe (hFair : Fair now woken s) (hConserved : Conserved s queue)
    (hStamped : Stamped now s) (hCurrent : (s.localsched core).currentTask = some task)
    (hLater : now core ≤ tsc) : (Calculation.updateUnfairness core task tsc s).Safe tscFreq := by
  have hMem : task ∈ places s queue (.current core) := by simp [places, hCurrent]
  have hPositive := hFair.positive task (hConserved.arranged.placed.live_of_mem hMem)
  rw [hConserved.arranged.home core task (.inl hMem)] at hPositive
  refine ⟨hPositive, ?_⟩
  rw [hStamped core task hCurrent]
  exact hLater

theorem leaveCalculations_safe {rest : τ → State κ τ → List (Calculation κ τ)}
    (hFair : Fair now woken s) (hConserved : Conserved s queue) (hStamped : Stamped now s)
    (hLater : now core ≤ tsc)
    (hRest : ∀ oldTask charged, (s.localsched core).currentTask = some oldTask →
      threadLocalschedUpdateUnfairness core oldTask tsc s = some charged →
      ∀ c ∈ rest oldTask charged, c.Safe tscFreq) :
    ∀ c ∈ leaveCalculations core tsc s rest, c.Safe tscFreq := by
  intro c hc
  rw [leaveCalculations] at hc
  split at hc
  · cases hc
  · rename_i oldTask hCurrent
    rcases List.mem_cons.mp hc with rfl | hc
    · exact updateUnfairness_safe hFair hConserved hStamped hCurrent hLater
    · split at hc
      · cases hc
      · exact hRest oldTask _ hCurrent ‹_› c hc

theorem timer_requeues (hSorted : SortedAll s) (hConserved : Conserved s queue) {charged : State κ τ}
    (hCurrent : (s.localsched core).currentTask = some task)
    (hUpdate : threadLocalschedUpdateUnfairness core task tsc s = some charged) :
    SortedAll (threadLocalschedEnqueueNolock core task charged) ∧
      ∃ held, Arranged (threadLocalschedEnqueueNolock core task charged) held charged.live := by
  have hQuiet := updateUnfairness_quiet hUpdate
  have hNow := (hQuiet.currentTask core).trans hCurrent
  have hBetween := (hConserved.quiet hQuiet).requeue hNow
  exact ⟨(hSorted.charged hConserved hCurrent hUpdate).depart (hConserved.quiet hQuiet) hNow .requeue,
    _, hBetween.arranged⟩

end Calculations

/-- In every state of a run whose counters go up, whatever is calculated in the course of the
next action: the core that charges its current task has counted it, and its counter has not
gone back; a task that is woken up has seen no more idle unfairness than its core has now; and
the task for which a timeslice is picked is at most as unfair as the alternative. So no
subtraction wraps, no division faults, and the timeslice is the difference in microseconds or
the minimum. -/
theorem localsched_arithmetic_safe (run : system.Execution trace s)
    (hSteady : Steady (trace ++ [action])) (hProper : Proper s action)
    (hFreq : ∀ core, 0 < tscFreq core) :
    ∀ c ∈ calculations depth s action, c.Safe tscFreq := by
  obtain ⟨hFair, hStamped, hSorted⟩ := fair_run run hSteady.before
  obtain ⟨queue, hConserved⟩ := Conserved.run run
  have hArranged := hConserved.arranged
  have hFirst : ∀ (core : κ) (tsc tsc' : UInt64), readings core action = [tsc, tsc'] →
      lastReadings trace core ≤ tsc := by
    intro core tsc tsc' hEq
    have hOrder := hSteady.readings core
    rw [hEq] at hOrder
    exact (List.pairwise_cons.mp hOrder).1 tsc (List.mem_cons_self ..)
  have hNonzero : ∀ core, tscFreq core ≠ 0 := fun core => (UInt64.pos_iff_ne_zero).mp (hFreq core)
  intro c hc
  cases action with
  | associate logicalId task =>
      simp only [calculations] at hc
      split at hc
      · cases hc
      · rw [List.mem_singleton.mp hc]
        simp [Calculation.Safe, State.setTask]
  | wakeUp task =>
      simp only [calculations, List.mem_singleton] at hc
      subst hc
      rcases hProper with hSuspended | ⟨-, hZero⟩
      · exact hFair.suspended task hSuspended
      · rw [Calculation.Safe, hZero]
        exact UInt64.zero_le
  | timer core tsc tsc' =>
      apply leaveCalculations_safe hFair hConserved hStamped (hFirst core tsc tsc' (if_pos rfl)) _ c hc
      intro oldTask charged hCurrent hUpdate
      obtain ⟨hQueued, held, hHeld⟩ := timer_requeues hSorted hConserved hCurrent hUpdate
      exact dequeueCalculations_safe hQueued hHeld (hNonzero core)
  | yield core tsc tsc' =>
      apply leaveCalculations_safe hFair hConserved hStamped (hFirst core tsc tsc' (if_pos rfl)) _ c hc
      intro oldTask charged _ _ c hNil
      cases hNil
  | suspendCurrent core tsc tsc' =>
      apply leaveCalculations_safe hFair hConserved hStamped (hFirst core tsc tsc' (if_pos rfl)) _ c hc
      intro oldTask charged _ _ c hNil
      cases hNil
  | terminate core tsc tsc' =>
      apply leaveCalculations_safe hFair hConserved hStamped (hFirst core tsc tsc' (if_pos rfl)) _ c hc
      intro oldTask charged _ _ c hNil
      cases hNil
  | bootstrap core tsc =>
      simp only [calculations] at hc
      split at hc
      · exact dequeueCalculations_safe hSorted hArranged (hNonzero core) c hc
      · cases hc
  | idleRound core tsc =>
      simp only [calculations] at hc
      split at hc
      · exact dequeueCalculations_safe hSorted hArranged (hNonzero core) c hc
      · cases hc
  | ipi core => cases hc
  | interrupt core => cases hc

/-- A core with two tasks, whose counter runs at two cycles per microsecond. When the first task
has run for 100000 cycles, the second one gets a timeslice of as long. -/
theorem localsched_arithmetic_safe_two_tasks :
    ∃ s : State Nat Nat, system.Execution [.associate 0 1, .associate 0 2, .bootstrap 0 10] s ∧
      (∀ c ∈ calculations 8 s (.timer 0 100010 100020), c.Safe fun _ => 2) ∧
      ∃ taken, .pickTimesliceLen 0 1 taken ∈ calculations 8 s (.timer 0 100010 100020) ∧
        threadLocalschedPickTimesliceLen (fun _ => 2) 0 (taken.task 1).unfairness taken =
          some 50000 := by
  obtain ⟨s, hRun, hPick⟩ : ∃ s : State Nat Nat,
      system.Execution [.associate 0 1, .associate 0 2, .bootstrap 0 10] s ∧
      ∃ taken, .pickTimesliceLen 0 1 taken ∈ calculations 8 s (.timer 0 100010 100020) ∧
        threadLocalschedPickTimesliceLen (fun _ => 2) 0 (taken.task 1).unfairness taken =
          some 50000 :=
    ⟨_, run_of_foldlM 8 zeroed_initial rfl, _, .tail _ (.head _), rfl⟩
  have hSteady : Steady ([.associate 0 1, .associate 0 2, .bootstrap 0 10] ++
      [.timer 0 100010 100020] : List (Action Nat Nat)) := by
    refine ⟨fun core => ?_, by decide⟩
    by_cases hCore : 0 = core
    · subst hCore
      decide
    · simp [readings, hCore]
  exact ⟨s, hRun, localsched_arithmetic_safe hRun hSteady trivial (fun _ => by decide), hPick⟩

end Ricerca.Localsched
