import Mathlib.Data.Fintype.Card
import Ricerca.Thread.LocalschedLoad
import Ricerca.Thread.Topology

/-! The load balancer of `thread/tasking/balancer.c`, and the counters of the CPU groups that it
searches, as tasks are associated with cores and terminate. -/
namespace Ricerca.Balancer

open Foundation Localsched Ricerca.Topology

variable {n : Nat} {γ δ τ : Type} [DecidableEq γ] [DecidableEq τ]

/-- The topology and the local schedulers. `counted` are the tasks from their association with a
core, when the groups count them, to their call of `thread_localsched_terminate`. -/
structure State (n : Nat) (γ δ τ : Type) where
  topology : Memory n γ δ
  sched : Localsched.State (Fin n) τ
  counted : List τ

/-- The variables `result` and `result_load` of a search, after one more candidate. -/
def lessBusy {α : Type} (best : Option α × UInt64) (current : α) (currentLoad : UInt64) :
    Option α × UInt64 :=
  if best.1.isNone ∨ best.2 > currentLoad then (some current, currentLoad) else best

/-- Fails where an assertion fails or an index is out of bounds. -/
def threadBalancerLeastBusyCore (group : SchedGroup γ) (s : State n γ δ τ) : Option UInt32 := do
  if group.cpuCount = 0 then
    none
  let best ← (List.range group.cpuCount.toNat).foldlM
    (fun best i => do
      let id ← group.cpus[i]?
      let current ← coreAt n id.toNat
      some (lessBusy best current (s.sched.localsched current).tasksCount))
    (none, 0)
  let result ← best.1
  some (s.topology.core result).logicalId

/-- The search along the ring of groups, stopped after this many rounds. -/
def threadBalancerLeastBusyGroup (rounds : Nat) (domain : SchedDomain γ δ) :
    Reading γ (SchedGroup γ) (Option (Option γ)) := do
  let best ← Reading.loop
    (visitRound SchedGroup.next (fun best current group => lessBusy best current group.tasksCount)
      domain.group)
    rounds ((none, 0), domain.group)
  pure (best.map (·.1))

/-- `thread_localsched_associate` up to its wake-up. -/
def enroll (fuel : Nat) (logicalId : UInt32) (task : τ) (s : State n γ δ τ) :
    Option (State n γ δ τ) := do
  let core ← coreAt n logicalId.toNat
  let topology ← threadSmpTopologyUpdateOnInsert fuel logicalId s.topology
  some {
    topology
    sched := s.sched.setTask task
      { s.sched.task task with unfairness := 0, accUnfairnessIdle := 0, coreId := core }
    counted := task :: s.counted }

def threadLocalschedAssociate (fuel : Nat) (logicalId : UInt32) (task : τ) (s : State n γ δ τ) :
    Option (State n γ δ τ) := do
  let s ← enroll fuel logicalId task s
  some { s with sched :=
    { threadLocalschedWakeUp task s.sched with live := task :: s.sched.live } }

/-- Called on this core. -/
def threadBalancerAllocateToAny (fuel : Nat) (core : Fin n) (task : τ) (s : State n γ δ τ) :
    Option (State n γ δ τ) := do
  let root ← (s.topology.core core).root
  let group ← ((threadBalancerLeastBusyGroup fuel (s.topology.domain root)).result
    s.topology.group).join
  let id ← threadBalancerLeastBusyCore (s.topology.group group) s
  threadLocalschedAssociate fuel id task s

/-- `thread_localsched_terminate` up to its scheduler call. -/
def retire (fuel : Nat) (core : Fin n) (s : State n γ δ τ) : Option (State n γ δ τ) := do
  let task ← (s.sched.localsched core).currentTask
  let topology ← threadSmpTopologyUpdateOnRemove fuel (s.topology.core core).logicalId s.topology
  if task ∈ s.counted then some { s with topology, counted := s.counted.erase task } else none

/-- What can happen: the steps of the local schedulers, and before a task is woken up for the
first time and before it terminates the changes of the counters. -/
inductive Action (n : Nat) (τ : Type) where
  | associate (logicalId : UInt32) (task : τ)
  | terminate (core : Fin n)
  | sched (action : Localsched.Action (Fin n) τ)

/-- Which steps of the schedulers can come. A new task is woken up at the end of its association
only, and a task terminates only after the groups have ceased to count it. -/
def Allowed (s : State n γ δ τ) : Localsched.Action (Fin n) τ → Prop
  | .associate _ _ => False
  | .wakeUp task => task ∈ s.sched.suspended ∨ task ∈ s.counted
  | .terminate core _ _ => ∀ task ∈ (s.sched.localsched core).currentTask, task ∉ s.counted
  | _ => True

/-- One step. The task of an association is new. -/
inductive Step (s : State n γ δ τ) : Action n τ → State n γ δ τ → Prop where
  | associate {fuel : Nat} {logicalId : UInt32} {task : τ} {s' : State n γ δ τ}
      (fresh : task ∉ s.counted ∧ task ∉ s.sched.live)
      (done : enroll fuel logicalId task s = some s') : Step s (.associate logicalId task) s'
  | terminate {fuel : Nat} {core : Fin n} {s' : State n γ δ τ} (done : retire fuel core s = some s') :
      Step s (.terminate core) s'
  | sched {depth : Nat} {action : Localsched.Action (Fin n) τ} {sched : Localsched.State (Fin n) τ}
      (allowed : Allowed s action) (done : exec depth s.sched action = some sched) :
      Step s (.sched action) { s with sched }

/-- The system after the topology was built. -/
def system (built : Memory n γ δ) : System (State n γ δ τ) (Action n τ) where
  init s := s.topology = built ∧ Initial s.sched ∧ s.counted = []
  step := Step

/-- A call of `thread_localsched_associate` is two of these steps. -/
theorem associate_steps {s s' : State n γ δ τ} {fuel : Nat} {logicalId : UInt32} {task : τ}
    (hFresh : task ∉ s.counted ∧ task ∉ s.sched.live) (hAwake : task ∉ s.sched.suspended)
    (h : threadLocalschedAssociate fuel logicalId task s = some s') :
    ∃ enrolled, Step s (.associate logicalId task) enrolled ∧
      Step enrolled (.sched (.wakeUp task)) s' := by
  rw [threadLocalschedAssociate, Option.bind_eq_bind, Option.bind_eq_some_iff] at h
  obtain ⟨enrolled, hEnroll, hWake⟩ := h
  cases hWake
  obtain ⟨hSuspended, hLive, hCounted⟩ : enrolled.sched.suspended = s.sched.suspended ∧
      enrolled.sched.live = s.sched.live ∧ enrolled.counted = task :: s.counted := by
    simp only [enroll, Option.bind_eq_bind, Option.bind_eq_some_iff, Option.some.injEq] at hEnroll
    obtain ⟨core, -, topology, -, rfl⟩ := hEnroll
    exact ⟨rfl, rfl, rfl⟩
  have hExec : exec 0 enrolled.sched (.wakeUp task) =
      some { threadLocalschedWakeUp task enrolled.sched with live := task :: enrolled.sched.live } := by
    rw [exec, if_neg (hSuspended ▸ hAwake), if_neg (hLive ▸ hFresh.2)]
  refine ⟨enrolled, .associate hFresh hEnroll, .sched (.inr ?_) hExec⟩
  rw [hCounted]
  exact List.mem_cons_self ..

/-- From nothing on, the search finds the first of the candidates with the least load. -/
theorem foldl_lessBusy {α : Type} (load : α → UInt64) (a : α) (rest : List α) :
    ∃ c ∈ a :: rest, (∀ b ∈ a :: rest, load c ≤ load b) ∧
      (a :: rest).foldl (fun best b => lessBusy best b (load b)) (none, 0) = (some c, load c) := by
  have hFrom : ∀ (rest : List α) (a : α), ∃ c ∈ a :: rest, (∀ b ∈ a :: rest, load c ≤ load b) ∧
      rest.foldl (fun best b => lessBusy best b (load b)) (some a, load a) = (some c, load c) := by
    intro rest
    induction rest with
    | nil =>
        intro a
        exact ⟨a, List.mem_cons_self .., fun b hb => by simp [List.mem_singleton.mp hb], rfl⟩
    | cons d rest ih =>
        intro a
        by_cases hLess : load a > load d
        · obtain ⟨c, hMem, hLeast, hFold⟩ := ih d
          refine ⟨c, List.mem_cons_of_mem _ hMem, fun b hb => ?_, ?_⟩
          · rcases List.mem_cons.mp hb with rfl | hb
            · exact UInt64.le_trans (hLeast d (List.mem_cons_self ..)) (UInt64.le_of_lt hLess)
            · exact hLeast b hb
          · simpa [lessBusy, hLess] using hFold
        · obtain ⟨c, hMem, hLeast, hFold⟩ := ih a
          refine ⟨c, ?_, fun b hb => ?_, ?_⟩
          · rcases List.mem_cons.mp hMem with rfl | hMem
            · exact List.mem_cons_self ..
            · exact List.mem_cons_of_mem _ (List.mem_cons_of_mem _ hMem)
          · rcases List.mem_cons.mp hb with rfl | hb
            · exact hLeast b (List.mem_cons_self ..)
            · rcases List.mem_cons.mp hb with rfl | hb
              · exact UInt64.le_trans (hLeast a (List.mem_cons_self ..)) (UInt64.not_lt.mp hLess)
              · exact hLeast b (List.mem_cons_of_mem _ hb)
          · simpa [lessBusy, hLess] using hFold
  exact hFrom rest a

section Choice

variable {t : Memory n γ δ} {group : Fin n → γ} {s : State n γ δ τ} {fuel : Nat}

/-- The search visits every group once and finds one with the least load. -/
theorem leastBusyGroup_spec (h : Flat t group) (hRounds : n ≤ fuel) {domain : SchedDomain γ δ}
    {core : Fin n} (hGroup : domain.group = group core) :
    ∃ chosen visited, threadBalancerLeastBusyGroup fuel domain t.group =
        (some (some (group chosen)), visited) ∧ visited.Perm (List.ofFn group) ∧
      ∀ other, (t.group (group chosen)).tasksCount ≤ (t.group (group other)).tasksCount := by
  obtain ⟨root, rest, hNodes, hRing⟩ := h.ring
  have hMem : group core ∈ root :: rest := by
    rw [← hNodes]
    exact List.mem_ofFn.mpr ⟨core, rfl⟩
  obtain ⟨rest', hRing', hPerm⟩ := hRing.from_mem hMem
  have hLength : rest'.length < fuel := by
    have hCount := hPerm.length_eq
    rw [← hNodes, List.length_ofFn, List.length_cons] at hCount
    omega
  obtain ⟨c, hChosen, hLeast, hFold⟩ :=
    foldl_lessBusy (fun g => (t.group g).tasksCount) (group core) rest'
  have hAll : ∀ g, g ∈ group core :: rest' ↔ ∃ other, group other = g := by
    intro g
    rw [hPerm.mem_iff, ← hNodes, List.mem_ofFn]
  obtain ⟨chosen, rfl⟩ := (hAll c).mp hChosen
  refine ⟨chosen, group core :: rest', ?_, hNodes ▸ hPerm, fun other => hLeast _ ?_⟩
  · have hLoop : Reading.loop (visitRound SchedGroup.next (fun best current group =>
        lessBusy best current group.tasksCount) (group core)) fuel ((none, 0), group core) t.group =
        (some (some (group chosen), (t.group (group chosen)).tasksCount), group core :: rest') := by
      rw [← hFold]
      exact Ring.loop_visitRound hRing' (none, 0) hLength
    rw [threadBalancerLeastBusyGroup, hGroup]
    simp only [bind, pure, hLoop, Option.map_some, List.append_nil]
  · exact (hAll _).mpr ⟨other, rfl⟩

omit [DecidableEq γ] [DecidableEq τ] in
/-- A group of one CPU gives this CPU. -/
theorem leastBusyCore_eq (h : Flat s.topology group) (core : Fin n) :
    threadBalancerLeastBusyCore (s.topology.group (group core)) s =
      some (s.topology.core core).logicalId := by
  obtain ⟨hCpus, hCount⟩ := h.cpus core
  rw [h.logicalId_eq] at hCpus
  simp [threadBalancerLeastBusyCore, hCount, hCpus, h.coreAt_eq, lessBusy, List.range_succ]

theorem enroll_eq (h : Flat s.topology group) (hFuel : 0 < fuel) (core : Fin n) (task : τ) :
    enroll fuel (s.topology.core core).logicalId task s = some {
      topology := s.topology.changeCount (· + 1) (group core)
      sched := s.sched.setTask task
        { s.sched.task task with unfairness := 0, accUnfairnessIdle := 0, coreId := core }
      counted := task :: s.counted } := by
  rw [enroll, h.coreAt_eq, h.insert_eq hFuel]
  rfl

theorem associate_isSome (h : Flat s.topology group) (hFuel : 0 < fuel)
    (core : Fin n) (task : τ) :
    (threadLocalschedAssociate fuel (s.topology.core core).logicalId task s).isSome := by
  rw [threadLocalschedAssociate, enroll_eq h hFuel]
  rfl

/-- The task is associated with the CPU of the group that the search finds. -/
theorem allocateToAny_eq (h : Flat s.topology group) {core chosen : Fin n} {domain : δ}
    {visited : List γ} (hRoot : (s.topology.core core).root = some domain)
    (hSearch : threadBalancerLeastBusyGroup fuel (s.topology.domain domain) s.topology.group =
      (some (some (group chosen)), visited)) (task : τ) :
    threadBalancerAllocateToAny fuel core task s =
      threadLocalschedAssociate fuel (s.topology.core chosen).logicalId task s := by
  simp [threadBalancerAllocateToAny, hRoot, Reading.result, hSearch, leastBusyCore_eq h]

end Choice

section Runs

variable {group : Fin n → γ} {boot : Fin n} {built : Memory n γ δ} {s s' : State n γ δ τ}

/-- The counter of every group is the number of the tasks of its CPU, and one more on the CPU
that booted. -/
structure Balanced (group : Fin n → γ) (boot : Fin n) (s : State n γ δ τ) : Prop where
  flat : Flat s.topology group
  conserved : ∃ queue, Conserved s.sched queue
  nodup : s.counted.Nodup
  count : ∀ core, (s.topology.group (group core)).tasksCount.toNat =
    homed s.sched core s.counted + if core = boot then 1 else 0

omit [DecidableEq γ] [DecidableEq τ] in
/-- There is room for one more. -/
theorem Balanced.count_lt (hRoom : ∀ tasks : List τ, tasks.Nodup → tasks.length + 2 < 2 ^ 64)
    (h : Balanced group boot s) (core : Fin n) :
    (s.topology.group (group core)).tasksCount.toNat + 1 < 2 ^ 64 := by
  have hHomed : homed s.sched core s.counted ≤ s.counted.length := List.countP_le_length
  have hLength := hRoom s.counted h.nodup
  rw [h.count core]
  split_ifs <;> omega

/-- A new task is counted by its group. -/
theorem Balanced.enroll (hRoom : ∀ tasks : List τ, tasks.Nodup → tasks.length + 2 < 2 ^ 64)
    {fuel : Nat} {logicalId : UInt32} {task : τ} (h : Balanced group boot s)
    (hFresh : task ∉ s.counted ∧ task ∉ s.sched.live)
    (hEnroll : Balancer.enroll fuel logicalId task s = some s') : Balanced group boot s' := by
  simp only [Balancer.enroll, threadSmpTopologyUpdateOnInsert, Option.bind_eq_bind,
    Option.bind_eq_some_iff, Option.some.injEq] at hEnroll
  obtain ⟨core, hCore, topology, ⟨core', hCore', hUpdate⟩, rfl⟩ := hEnroll
  rw [hCore] at hCore'
  cases hCore'
  cases h.flat.updateCounts_inv hUpdate
  obtain ⟨queue, hConserved⟩ := h.conserved
  have hFlat := h.flat.changeCount (· + 1) (group core)
  refine ⟨hFlat, ⟨queue, hConserved.setNew hFresh.2 _⟩,
    List.nodup_cons.mpr ⟨hFresh.1, h.nodup⟩, fun other => ?_⟩
  have hOthers : homed (s.sched.setTask task { s.sched.task task with
      unfairness := 0, accUnfairnessIdle := 0, coreId := core }) other s.counted =
      homed s.sched other s.counted := by
    apply homed_congr
    intro x hx
    have hNe : x ≠ task := fun hEq => hFresh.1 (hEq ▸ hx)
    simp [Localsched.State.setTask, hNe]
  have hCount := h.count other
  have hLt := h.count_lt hRoom other
  simp only [homed_cons, hOthers, h.flat.tasksCount_changeCount]
  by_cases hOther : other = core
  · have hSum : ((s.topology.group (group other)).tasksCount + 1).toNat =
        (s.topology.group (group other)).tasksCount.toNat + 1 := by
      rw [UInt64.toNat_add]
      exact Nat.mod_eq_of_lt hLt
    rw [if_pos hOther, hSum, hCount]
    simp [Localsched.State.setTask, hOther]
    omega
  · rw [if_neg hOther, hCount]
    simp [Localsched.State.setTask, hOther]

/-- The task that terminates is one of those that the group of its core counts. -/
theorem Balanced.retire_inv {fuel : Nat} {core : Fin n} (h : Balanced group boot s)
    (hRetire : Balancer.retire fuel core s = some s') :
    ∃ task ∈ s.counted, (s.sched.task task).coreId = core ∧ s' = { s with
      topology := s.topology.changeCount (· - 1) (group core)
      counted := s.counted.erase task } := by
  simp only [Balancer.retire, threadSmpTopologyUpdateOnRemove, h.flat.coreAt_eq,
    Option.bind_eq_bind, Option.bind_eq_some_iff, Option.bind_some] at hRetire
  obtain ⟨task, hCurrent, topology, hUpdate, hLast⟩ := hRetire
  split at hLast
  · rename_i hCounted
    cases hLast
    cases h.flat.updateCounts_inv hUpdate
    obtain ⟨queue, hConserved⟩ := h.conserved
    have hPlace : task ∈ places s.sched queue (.current core) := by simp [places, hCurrent]
    exact ⟨task, hCounted, hConserved.arranged.home core task (.inl hPlace), rfl⟩
  · cases hLast

theorem homed_erase {tasks : List τ} {task : τ} (hMem : task ∈ tasks)
    (sched : Localsched.State (Fin n) τ) (core : Fin n) :
    homed sched core tasks = homed sched core (tasks.erase task) +
      if core = (sched.task task).coreId then 1 else 0 := by
  rw [homed, (List.perm_cons_erase hMem).countP_eq, ← homed, homed_cons]

/-- A task that terminates is not counted any more. -/
theorem Balanced.retire {fuel : Nat} {core : Fin n} (h : Balanced group boot s)
    (hRetire : Balancer.retire fuel core s = some s') :
    0 < (s.topology.group (group core)).tasksCount.toNat ∧ Balanced group boot s' := by
  obtain ⟨task, hCounted, hHome, rfl⟩ := h.retire_inv hRetire
  have hBefore : ∀ other, (s.topology.group (group other)).tasksCount.toNat =
      homed s.sched other (s.counted.erase task) + (if other = core then 1 else 0) +
        if other = boot then 1 else 0 := by
    intro other
    rw [h.count other, homed_erase hCounted, hHome]
  have hFlat := h.flat.changeCount (· - 1) (group core)
  refine ⟨?_, hFlat, h.conserved, h.nodup.erase task, fun other => ?_⟩
  · rw [hBefore core, if_pos rfl]
    omega
  have hCount := hBefore other
  simp only [h.flat.tasksCount_changeCount]
  by_cases hOther : other = core
  · rw [if_pos hOther] at hCount ⊢
    have hPos : (1 : UInt64) ≤ (s.topology.group (group other)).tasksCount := by
      rw [UInt64.le_iff_toNat_le, UInt64.toNat_one]
      omega
    rw [UInt64.toNat_sub_of_le _ _ hPos, UInt64.toNat_one]
    omega
  · rw [if_neg hOther] at hCount ⊢
    exact hCount

theorem Balanced.step (hRoom : ∀ tasks : List τ, tasks.Nodup → tasks.length + 2 < 2 ^ 64)
    {action : Action n τ} (h : Balanced group boot s) (hStep : Step s action s') :
    Balanced group boot s' := by
  cases hStep with
  | associate fresh done => exact h.enroll hRoom fresh done
  | terminate done => exact (h.retire done).2
  | @sched depth action sched allowed done =>
      obtain ⟨queue, hConserved⟩ := h.conserved
      refine ⟨h.flat, hConserved.step done, h.nodup, fun core => ?_⟩
      have hNot : ∀ logicalId task, action ≠ .associate logicalId task := by
        rintro logicalId task rfl
        exact allowed
      have hHomed : homed sched core s.counted = homed s.sched core s.counted :=
        homed_congr fun x _ => exec_coreId hNot done x
      rw [hHomed]
      exact h.count core

theorem Balanced.run (hRoom : ∀ tasks : List τ, tasks.Nodup → tasks.length + 2 < 2 ^ 64)
    (hFlat : Flat built group)
    (hBuilt : ∀ core, (built.group (group core)).tasksCount = if core = boot then 1 else 0)
    {trace : List (Action n τ)} (run : (system built).Execution trace s) :
    Balanced group boot s := by
  apply run.stateInvariant
  · rintro s ⟨hTopology, hInitial, hCounted⟩
    refine ⟨hTopology ▸ hFlat, ⟨_, Conserved.initial hInitial⟩, hCounted ▸ .nil, fun core => ?_⟩
    rw [hTopology, hBuilt, hCounted]
    split_ifs <;> rfl
  · intro s action s' h hStep
    exact h.step hRoom hStep

end Runs

/-- Where a `struct thread_task` can be: the heap hands out multiples of sixteen. -/
structure TaskPointer where
  address : UInt64
  aligned : address.toNat % 16 = 0
  deriving DecidableEq

/-- There is no room for so many tasks that a counter could wrap around. -/
theorem TaskPointer.length_lt {tasks : List TaskPointer} (h : tasks.Nodup) :
    tasks.length + 2 < 2 ^ 64 := by
  have hIndex : ∀ pointer : TaskPointer, pointer.address.toNat / 16 < 2 ^ 60 := by
    intro pointer
    have hLt := pointer.address.toNat_lt
    omega
  have hInjective : Function.Injective fun pointer : TaskPointer =>
      (⟨pointer.address.toNat / 16, hIndex pointer⟩ : Fin (2 ^ 60)) := by
    intro a b hEq
    have hQuotient : a.address.toNat / 16 = b.address.toNat / 16 := congrArg Fin.val hEq
    have hAligned := a.aligned
    have hAligned' := b.aligned
    have hAddress : a.address = b.address := UInt64.toNat_inj.mp (by omega)
    cases a
    cases b
    cases hAddress
    rfl
  have hLength := List.Nodup.length_le_card (h.map hInjective)
  rw [List.length_map, Fintype.card_fin] at hLength
  omega

/-- With any number of CPUs, the topology is built if and only if no allocation fails, and then
the groups form one cycle with one group for each CPU, to which its domain points. Whatever the
counters are and whichever CPU starts, the search of the balancer ends after it has visited every
group once, and a task goes to a core whose group has the least counter. As tasks are associated
and terminate in any order, the counter of every group remains the number of the tasks of its
CPU, with the boot task, and never wraps around. -/
theorem balancer_picks_least_loaded [DecidableEq δ] {fuel : Nat} (hFuel : n ≤ fuel)
    (groupHeap : Allocations γ) (domainHeap : Allocations δ) (boot : Fin n) (start : Memory n γ δ)
    (hNumbered : Numbered start) :
    ((threadSmpBuildTopologyFlat fuel groupHeap domainHeap boot start).isSome ↔
      ∀ i, i < n → (groupHeap.answer i).isSome ∧ (domainHeap.answer i).isSome) ∧
    ∀ built, threadSmpBuildTopologyFlat fuel groupHeap domainHeap boot start = some built →
      ∃ group : Fin n → γ, (∀ core : Fin n, groupHeap.answer core = some (group core)) ∧
        Flat built group ∧
        (∀ (load : γ → UInt64) (core : Fin n) (domain : δ), (built.core core).root = some domain →
          ∃ chosen visited,
            threadBalancerLeastBusyGroup fuel (built.domain domain) (built.withLoads load).group =
              (some (some (group chosen)), visited) ∧
            visited.Nodup ∧ visited.Perm (List.ofFn group) ∧
            (∀ other, load (group chosen) ≤ load (group other)) ∧
            ∀ (sched : Localsched.State (Fin n) TaskPointer) counted task,
              let s : State n γ δ TaskPointer := ⟨built.withLoads load, sched, counted⟩
              threadBalancerAllocateToAny fuel core task s =
                threadLocalschedAssociate fuel (UInt32.ofNat chosen) task s ∧
              (threadBalancerAllocateToAny fuel core task s).isSome) ∧
        ∀ (trace : List (Action n TaskPointer)) s, (system built).Execution trace s → ∀ core,
          (s.topology.group (group core)).tasksCount.toNat =
            homed s.sched core s.counted + (if core = boot then 1 else 0) ∧
          (s.topology.group (group core)).tasksCount.toNat + 1 < 2 ^ 64 ∧
          ∀ s', Step s (.terminate core) s' →
            0 < (s.topology.group (group core)).tasksCount.toNat := by
  have hPos : 0 < fuel := Nat.lt_of_lt_of_le (Nat.lt_of_le_of_lt (Nat.zero_le _) boot.isLt) hFuel
  refine ⟨⟨fun hSome i hi => ?_, fun hAnswers => ?_⟩, fun built hBuilt => ?_⟩
  · obtain ⟨built, hBuilt⟩ := Option.isSome_iff_exists.mp hSome
    exact answers_of_build hBuilt i hi
  · obtain ⟨built, -, hBuilt, -⟩ := build_flat boot hNumbered hPos hAnswers
    rw [hBuilt]
    rfl
  · obtain ⟨built', group, hBuilt', hFlat, hGroups, hCounts⟩ :=
      build_flat boot hNumbered hPos (answers_of_build hBuilt)
    rw [hBuilt] at hBuilt'
    cases hBuilt'
    refine ⟨group, hGroups, hFlat, fun load core domain hRoot => ?_, fun trace s run core => ?_⟩
    · have hLoaded : Flat (built.withLoads load) group := hFlat.withLoads load
      obtain ⟨domain', -, hRoot', -, hGroup⟩ := hFlat.domain core
      rw [hRoot] at hRoot'
      cases hRoot'
      obtain ⟨chosen, visited, hSearch, hPerm, hLeast⟩ := leastBusyGroup_spec hLoaded hFuel hGroup
      refine ⟨chosen, visited, hSearch, ?_, hPerm, hLeast, fun sched counted task => ?_⟩
      · exact hPerm.nodup_iff.mpr (List.nodup_ofFn.mpr hFlat.injective)
      · have hAllocate := allocateToAny_eq (s := ⟨built.withLoads load, sched, counted⟩) hLoaded
          hRoot hSearch task
        refine ⟨?_, ?_⟩
        · rw [hFlat.logicalId_eq]
          exact hAllocate
        · rw [hAllocate]
          exact associate_isSome hLoaded hPos chosen task
    · have hBalanced : Balanced group boot s :=
        Balanced.run (fun _ => TaskPointer.length_lt) hFlat hCounts run
      refine ⟨hBalanced.count core, hBalanced.count_lt (fun _ => TaskPointer.length_lt) core, ?_⟩
      intro s' hStep
      cases hStep with
      | terminate done => exact (hBalanced.retire done).1

/-- Two CPUs with their logical ids, in memory that is zero otherwise. -/
def twoCores : Memory 2 Nat Nat where
  group _ := ⟨0, 0, 0, []⟩
  domain _ := ⟨none, 0, 0⟩
  core i := ⟨UInt32.ofNat i, none, none⟩

/-- Round `i` gets block `i`. -/
def everyRound : Allocations Nat where
  answer := some
  distinct _ _ _ hFirst hSecond := Option.some.inj (hFirst.trans hSecond.symm)

/-- A task that is started on the first CPU goes to the second one, which is less loaded. -/
theorem balancer_picks_least_loaded_second :
    ∃ built, threadSmpBuildTopologyFlat 2 everyRound everyRound 0 twoCores = some built ∧
      ∀ (sched : Localsched.State (Fin 2) TaskPointer) counted task,
        let s : State 2 Nat Nat TaskPointer :=
          ⟨built.withLoads fun g => if g = 0 then 5 else 3, sched, counted⟩
        threadBalancerAllocateToAny 2 0 task s = threadLocalschedAssociate 2 1 task s := by
  have hNumbered : Numbered twoCores := by
    rw [Numbered]
    decide
  obtain ⟨hBuild, hAll⟩ :=
    balancer_picks_least_loaded (Nat.le_refl 2) everyRound everyRound 0 twoCores hNumbered
  obtain ⟨built, hBuilt⟩ := Option.isSome_iff_exists.mp (hBuild.mpr fun _ _ => ⟨rfl, rfl⟩)
  obtain ⟨group, hGroups, hFlat, hSearch, -⟩ := hAll built hBuilt
  obtain ⟨domain, -, hRoot, -⟩ := hFlat.domain 0
  obtain ⟨chosen, visited, -, -, -, hLeast, hAllocate⟩ :=
    hSearch (fun g => if g = 0 then 5 else 3) 0 domain hRoot
  have hGroup : ∀ core, group core = core := fun core => (Option.some.inj (hGroups core)).symm
  have hChosen : chosen = 1 := by
    have hLess := hLeast 1
    rw [hGroup, hGroup] at hLess
    by_contra hNe
    have hZero : chosen = 0 := by
      ext
      omega
    subst hZero
    exact absurd hLess (by decide)
  subst hChosen
  exact ⟨built, hBuilt, fun sched counted task => (hAllocate sched counted task).1⟩

end Ricerca.Balancer
