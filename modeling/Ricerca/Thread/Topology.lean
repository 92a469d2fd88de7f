import Mathlib.Data.List.FinRange
import Ricerca.Foundation.Ring
import Ricerca.Sys.AcpiCpus

/-! The CPU topology of `thread/smp/topology.c`. Every CPU has a group of its own; the groups
are linked into a circular list, and the domain of a CPU points at its group. The groups count
the tasks of their CPUs for the load balancer. -/
namespace Ricerca.Topology

open Foundation Acpi

/-- `struct thread_smp_sched_group`. -/
structure SchedGroup (γ : Type) where
  next : γ
  cpuCount : UInt64
  tasksCount : UInt64
  cpus : List UInt32

/-- `struct thread_smp_sched_domain`. -/
structure SchedDomain (γ δ : Type) where
  parent : Option δ
  group : γ
  lastRebalanceTsc : UInt64

/-- The fields of `struct thread_smp_core` that the topology needs. -/
structure Core (δ : Type) where
  logicalId : UInt32
  domain : Option δ
  root : Option δ

/-- Groups and domains in memory, and `thread_smp_core_array` with its
`thread_smp_core_max_cpus` entries. -/
structure Memory (n : Nat) (γ δ : Type) where
  group : γ → SchedGroup γ
  domain : δ → SchedDomain γ δ
  core : Fin n → Core δ

/-- What the heap answers in the rounds of a loop that allocates and frees nothing: a null
pointer, or a block that none of the other rounds got. -/
structure Allocations (α : Type) where
  answer : Nat → Option α
  distinct : ∀ i j a, answer i = some a → answer j = some a → i = j

variable {n : Nat} {γ δ : Type} [DecidableEq γ] [DecidableEq δ]

/-- `group->next = next`. -/
def setNext (groups : γ → SchedGroup γ) (group next : γ) : γ → SchedGroup γ :=
  Function.update groups group { groups group with next := next }

/-- The variables of the loop that builds the ring of groups. -/
structure Building (γ : Type) where
  root : Option γ
  tail : Option γ
  groups : γ → SchedGroup γ

/-- One round of the loop that builds the ring. A failed allocation panics. -/
def buildGroup (heap : Allocations γ) (s : Building γ) (i : Nat) : Option (Building γ) := do
  let group ← heap.answer i
  let groups := Function.update s.groups group { s.groups group with
    cpus := [UInt32.ofNat i], cpuCount := 1, tasksCount := 0 }
  match s.root with
  | none => some ⟨some group, some group, setNext groups group group⟩
  | some root => do
      let tail ← s.tail
      some ⟨some root, some group, setNext (setNext groups tail group) group root⟩

/-- An entry of `thread_smp_core_array`. -/
def coreAt (n i : Nat) : Option (Fin n) := if h : i < n then some ⟨i, h⟩ else none

/-- One round of the loop that builds the domains, with the group that is next. -/
def buildDomain (heap : Allocations δ) (s : Option γ × Memory n γ δ) (i : Nat) :
    Option (Option γ × Memory n γ δ) := do
  let domain ← heap.answer i
  let group ← s.1
  let core ← coreAt n i
  let t := s.2
  some (some (t.group group).next, { t with
    domain := Function.update t.domain domain ⟨none, group, 0⟩
    core := Function.update t.core core
      { t.core core with domain := some domain, root := some domain } })

/-- The counter of one group changes. -/
def Memory.changeCount (t : Memory n γ δ) (change : UInt64 → UInt64) (group : γ) : Memory n γ δ :=
  { t with
    group := Function.update t.group group
      { t.group group with tasksCount := change (t.group group).tasksCount } }

/-- The counters of the groups from this domain up to the root. -/
def updateCounts (change : UInt64 → UInt64) : Nat → Option δ → Memory n γ δ →
    Option (Memory n γ δ)
  | _, none, t => some t
  | 0, some _, _ => none
  | fuel + 1, some domain, t =>
      updateCounts change fuel (t.domain domain).parent
        (t.changeCount change (t.domain domain).group)

def threadSmpTopologyUpdateOnInsert (fuel : Nat) (id : UInt32) (t : Memory n γ δ) :
    Option (Memory n γ δ) := do
  let core ← coreAt n id.toNat
  updateCounts (· + 1) fuel (t.core core).domain t

def threadSmpTopologyUpdateOnRemove (fuel : Nat) (id : UInt32) (t : Memory n γ δ) :
    Option (Memory n γ δ) := do
  let core ← coreAt n id.toNat
  updateCounts (· - 1) fuel (t.core core).domain t

/-- `boot` is the CPU that runs the initialisation. -/
def threadSmpBuildTopologyFlat (fuel : Nat) (groupHeap : Allocations γ)
    (domainHeap : Allocations δ)
    (boot : Fin n) (t : Memory n γ δ) : Option (Memory n γ δ) := do
  let ring ← (List.range n).foldlM (buildGroup groupHeap) ⟨none, none, t.group⟩
  let (_, t) ← (List.range n).foldlM (buildDomain domainHeap)
    (ring.root, { t with group := ring.groups })
  threadSmpTopologyUpdateOnInsert fuel (t.core boot).logicalId t

/-- The logical ids are those that `thread_smp_core_init` gives out. -/
def Numbered (t : Memory n γ δ) : Prop := ∀ core, (t.core core).logicalId.toNat = core

/-- The nodes of a circular list with these links, in its order. -/
def Cycle (next : γ → γ) (nodes : List γ) : Prop :=
  ∃ root rest, nodes = root :: rest ∧ Ring next root rest

/-- The groups form one cycle, and `group core` is the group of this CPU and no other. -/
structure Flat (t : Memory n γ δ) (group : Fin n → γ) : Prop where
  ring : Cycle (fun g => (t.group g).next) (List.ofFn group)
  cpus : ∀ core, (t.group (group core)).cpus = [UInt32.ofNat core] ∧
    (t.group (group core)).cpuCount = 1
  domain : ∀ core, ∃ domain, (t.core core).domain = some domain ∧
    (t.core core).root = some domain ∧ (t.domain domain).parent = none ∧
    (t.domain domain).group = group core
  numbered : Numbered t

/-- What the first loop has built when it has linked `nodes` into a ring. -/
structure Ringed (s : Building γ) (nodes : List γ) : Prop where
  root : s.root = nodes.head?
  tail : s.tail = nodes.getLast?
  ring : nodes ≠ [] → Cycle (fun g => (s.groups g).next) nodes
  fields : ∀ i g, nodes[i]? = some g → (s.groups g).cpus = [UInt32.ofNat i] ∧
    (s.groups g).cpuCount = 1 ∧ (s.groups g).tasksCount = 0

@[simp]
theorem setNext_next (groups : γ → SchedGroup γ) (group next other : γ) :
    (setNext groups group next other).next = if other = group then next else (groups other).next := by
  by_cases hOther : other = group
  · simp [setNext, hOther]
  · simp [setNext, hOther]

@[simp]
theorem setNext_fields (groups : γ → SchedGroup γ) (group next other : γ) :
    (setNext groups group next other).cpus = (groups other).cpus ∧
    (setNext groups group next other).cpuCount = (groups other).cpuCount ∧
    (setNext groups group next other).tasksCount = (groups other).tasksCount := by
  by_cases hOther : other = group
  · simp [setNext, hOther]
  · simp [setNext, hOther]

/-- The group of CPU `i`, before it is linked. -/
def fillGroup (groups : γ → SchedGroup γ) (group : γ) (i : Nat) : γ → SchedGroup γ :=
  Function.update groups group { groups group with
    cpus := [UInt32.ofNat i], cpuCount := 1, tasksCount := 0 }

/-- The fields are set in the group that is appended, and links are of no account. -/
theorem Ringed.fields_append {s : Building γ} {nodes : List γ} {group : γ}
    {groups : γ → SchedGroup γ} (h : Ringed s nodes) (hNew : group ∉ nodes)
    (hSame : ∀ g, (groups g).cpus = (fillGroup s.groups group nodes.length g).cpus ∧
      (groups g).cpuCount = (fillGroup s.groups group nodes.length g).cpuCount ∧
      (groups g).tasksCount = (fillGroup s.groups group nodes.length g).tasksCount) (i : Nat) (g : γ)
    (hAt : (nodes ++ [group])[i]? = some g) :
    (groups g).cpus = [UInt32.ofNat i] ∧ (groups g).cpuCount = 1 ∧ (groups g).tasksCount = 0 := by
  obtain ⟨hCpus, hCount, hTasks⟩ := hSame g
  rw [hCpus, hCount, hTasks]
  rcases Nat.lt_or_ge i nodes.length with hOld | hLast
  · rw [List.getElem?_append_left hOld] at hAt
    have hNe : g ≠ group := fun hEq => hNew (hEq ▸ List.mem_of_getElem? hAt)
    rw [fillGroup, Function.update_of_ne hNe]
    exact h.fields i g hAt
  · rw [List.getElem?_append_right hLast, List.getElem?_singleton] at hAt
    split at hAt
    · cases hAt
      have hIndex : i = nodes.length := by omega
      simp [fillGroup, hIndex]
    · cases hAt

/-- One more group. -/
theorem Ringed.buildGroup {heap : Allocations γ} {s : Building γ} {nodes : List γ} {group : γ}
    (h : Ringed s nodes) (hAnswer : heap.answer nodes.length = some group) (hNew : group ∉ nodes) :
    ∃ s', buildGroup heap s nodes.length = some s' ∧ Ringed s' (nodes ++ [group]) := by
  cases nodes with
  | nil =>
      have hRoot : s.root = none := h.root
      rw [Topology.buildGroup, hAnswer]
      refine ⟨⟨some group, some group, setNext (fillGroup s.groups group 0) group group⟩, ?_,
        rfl, rfl, fun _ => ⟨group, [], rfl, ?_⟩, ?_⟩
      · simp [hRoot, fillGroup]
      · apply Ring.single
        simp
      · exact h.fields_append hNew fun g => setNext_fields ..
  | cons first rest =>
      have hRoot : s.root = some first := h.root
      obtain ⟨last, hLast⟩ : ∃ last, (first :: rest).getLast? = some last :=
        ⟨_, List.getLast?_eq_some_getLast (List.cons_ne_nil first rest)⟩
      have hTail : s.tail = some last := h.tail.trans hLast
      have hMem : last ∈ first :: rest := List.mem_of_getLast? hLast
      have hNe : last ≠ group := fun hEq => hNew (hEq ▸ hMem)
      rw [Topology.buildGroup, hAnswer]
      refine ⟨⟨some first, some group,
        setNext (setNext (fillGroup s.groups group (first :: rest).length) last group) group first⟩,
        ?_, rfl, ?_, fun _ => ⟨first, rest ++ [group], rfl, ?_⟩, ?_⟩
      · simp [hRoot, hTail, fillGroup]
      · rw [List.getLast?_concat]
      · obtain ⟨root, rest', hEq, hRing⟩ := h.ring (List.cons_ne_nil first rest)
        obtain ⟨rfl, rfl⟩ := List.cons.inj hEq
        apply hRing.append hLast hNew
        · intro b hb hOther
          have hOld : b ≠ group := fun hEq => hNew (hEq ▸ hb)
          simp [hOld, hOther, fillGroup]
        · simp [hNe]
        · simp
      · apply h.fields_append hNew
        intro g
        simp

/-- The first loop builds the ring if every allocation succeeds. -/
theorem buildGroups (heap : Allocations γ) (groups : γ → SchedGroup γ) {k : Nat}
    (hAnswers : ∀ i, i < k → (heap.answer i).isSome) :
    ∃ s nodes, (List.range k).foldlM (buildGroup heap) ⟨none, none, groups⟩ = some s ∧
      Ringed s nodes ∧ nodes.length = k ∧ ∀ i, i < k → heap.answer i = nodes[i]? := by
  induction k with
  | zero =>
      refine ⟨⟨none, none, groups⟩, [], rfl, ⟨rfl, rfl, fun h => (h rfl).elim, ?_⟩, rfl, ?_⟩
      · intro i g hAt
        cases hAt
      · intro i hi
        exact (Nat.not_lt_zero i hi).elim
  | succ k ih =>
      obtain ⟨s, nodes, hFold, hRinged, hLength, hNodes⟩ := ih fun i hi => hAnswers i (by omega)
      subst hLength
      obtain ⟨group, hAnswer⟩ := Option.isSome_iff_exists.mp (hAnswers nodes.length (by omega))
      have hNew : group ∉ nodes := by
        intro hMem
        obtain ⟨j, hj, hAt⟩ := List.getElem_of_mem hMem
        have hOther : heap.answer j = some group := by
          rw [hNodes j hj, List.getElem?_eq_getElem hj, hAt]
        have hEq : j = nodes.length := heap.distinct _ _ _ hOther hAnswer
        omega
      obtain ⟨s', hRound, hRinged'⟩ := hRinged.buildGroup hAnswer hNew
      refine ⟨s', nodes ++ [group], ?_, hRinged', by simp, ?_⟩
      · rw [List.range_succ, List.foldlM_append, hFold]
        simp [hRound]
      · intro i hi
        rcases Nat.lt_succ_iff_lt_or_eq.mp hi with hOld | rfl
        · rw [List.getElem?_append_left hOld, hNodes i hOld]
        · rw [hAnswer, List.getElem?_concat_length]

/-- What the second loop has set after `k` rounds. -/
structure Populated (heap : Allocations δ) (nodes : List γ) (k : Nat) (t t' : Memory n γ δ) :
    Prop where
  group : t'.group = t.group
  logicalId : ∀ core, (t'.core core).logicalId = (t.core core).logicalId
  domain : ∀ core : Fin n, core < k → ∃ domain, heap.answer core = some domain ∧
    (t'.core core).domain = some domain ∧ (t'.core core).root = some domain ∧
    (t'.domain domain).parent = none ∧ nodes[(core : Nat)]? = some (t'.domain domain).group

omit [DecidableEq γ] in
/-- One more domain. -/
theorem Populated.buildDomain {heap : Allocations δ} {nodes : List γ} {k : Nat}
    {t t' : Memory n γ δ} {group : γ} (h : Populated heap nodes k t t') (hk : k < n)
    (hAnswer : (heap.answer k).isSome) (hGroup : nodes[k]? = some group) :
    ∃ t'', buildDomain heap (some group, t') k = some (some (t.group group).next, t'') ∧
      Populated heap nodes (k + 1) t t'' := by
  obtain ⟨domain, hDomain⟩ := Option.isSome_iff_exists.mp hAnswer
  refine ⟨{ t' with
    domain := Function.update t'.domain domain ⟨none, group, 0⟩
    core := Function.update t'.core ⟨k, hk⟩
      { t'.core ⟨k, hk⟩ with domain := some domain, root := some domain } }, ?_, h.group, ?_, ?_⟩
  · simp [Topology.buildDomain, hDomain, coreAt, hk, h.group]
  · intro core
    by_cases hCore : core = ⟨k, hk⟩
    · rw [hCore, ← h.logicalId]
      simp
    · simp [hCore, h.logicalId]
  · intro core hLt
    rcases Nat.lt_succ_iff_lt_or_eq.mp hLt with hOld | hEq
    · obtain ⟨other, hOther, hLeaf, hRoot, hParent, hAt⟩ := h.domain core hOld
      have hCore : core ≠ ⟨k, hk⟩ := fun hEq => by simp [hEq] at hOld
      have hNe : other ≠ domain := by
        rintro rfl
        have hSame : (core : Nat) = k := heap.distinct _ _ _ hOther hDomain
        omega
      exact ⟨other, hOther, by simp [hCore, hLeaf], by simp [hCore, hRoot],
        by simp [hNe, hParent], by simp [hNe, hAt]⟩
    · have hCore : core = ⟨k, hk⟩ := Fin.ext hEq
      exact ⟨domain, hEq ▸ hDomain, by simp [hCore], by simp [hCore], by simp,
        by simp [hEq, hGroup]⟩

omit [DecidableEq γ] in
/-- The second loop goes along the ring, and gives every CPU a domain with its group. -/
theorem buildDomains {heap : Allocations δ} {t : Memory n γ δ} {root : γ} {rest : List γ} {k : Nat}
    (hRing : Ring (fun g => (t.group g).next) root rest) (hLength : (root :: rest).length = n)
    (hk : k ≤ n) (hAnswers : ∀ i, i < k → (heap.answer i).isSome) :
    ∃ t', (List.range k).foldlM (buildDomain heap) (some root, t) =
        some (some ((root :: rest)[k]?.getD root), t') ∧
      Populated heap (root :: rest) k t t' := by
  induction k with
  | zero =>
      refine ⟨t, rfl, rfl, fun _ => rfl, ?_⟩
      intro core hLt
      exact (Nat.not_lt_zero _ hLt).elim
  | succ k ih =>
      obtain ⟨t', hFold, hPopulated⟩ := ih (by omega) fun i hi => hAnswers i (by omega)
      have hLt : k < (root :: rest).length := by omega
      have hAt : (root :: rest)[k]? = some (root :: rest)[k] := List.getElem?_eq_getElem hLt
      obtain ⟨t'', hRound, hPopulated'⟩ := hPopulated.buildDomain hk (hAnswers k (by omega)) hAt
      refine ⟨t'', ?_, hPopulated'⟩
      rw [List.range_succ, List.foldlM_append, hFold, hAt]
      simp [hRound, hRing.next_eq hAt]

/-- The same topology with other counters. -/
def Memory.withLoads (t : Memory n γ δ) (load : γ → UInt64) : Memory n γ δ :=
  { t with group := fun g => { t.group g with tasksCount := load g } }

omit [DecidableEq δ] in
theorem Memory.changeCount_eq (t : Memory n γ δ) (change : UInt64 → UInt64) (group : γ) :
    t.changeCount change group = t.withLoads (Function.update (fun g => (t.group g).tasksCount) group
      (change (t.group group).tasksCount)) := by
  rw [changeCount, withLoads]
  congr 1
  funext g
  by_cases hGroup : g = group
  · simp [hGroup]
  · simp [hGroup]

namespace Flat

variable {t : Memory n γ δ} {group : Fin n → γ} {fuel : Nat} {change : UInt64 → UInt64}

omit [DecidableEq γ] [DecidableEq δ] in
theorem withLoads (h : Flat t group) (load : γ → UInt64) : Flat (t.withLoads load) group :=
  ⟨h.ring, h.cpus, h.domain, h.numbered⟩

omit [DecidableEq γ] [DecidableEq δ] in
theorem injective (h : Flat t group) : Function.Injective group := by
  obtain ⟨root, rest, hNodes, hRing⟩ := h.ring
  apply List.nodup_ofFn.mp
  rw [hNodes]
  exact hRing.nodup

omit [DecidableEq γ] [DecidableEq δ] in
/-- The id in a group is the logical id of its CPU. -/
theorem logicalId_eq (h : Flat t group) (core : Fin n) :
    UInt32.ofNat core = (t.core core).logicalId := by
  rw [← h.numbered core, UInt32.ofNat_toNat]

omit [DecidableEq γ] [DecidableEq δ] in
theorem coreAt_eq (h : Flat t group) (core : Fin n) :
    coreAt n (t.core core).logicalId.toNat = some core := by
  rw [coreAt, h.numbered core, dif_pos core.isLt]

omit [DecidableEq δ] in
theorem changeCount (h : Flat t group) (change : UInt64 → UInt64) (g : γ) :
    Flat (t.changeCount change g) group := by
  rw [Memory.changeCount_eq]
  exact h.withLoads _

omit [DecidableEq δ] in
/-- Only the counter of the CPU's own group changes. -/
theorem updateCounts_eq (h : Flat t group) (hFuel : 0 < fuel) (core : Fin n) :
    updateCounts change fuel (t.core core).domain t = some (t.changeCount change (group core)) := by
  obtain ⟨domain, hLeaf, -, hParent, hGroup⟩ := h.domain core
  obtain ⟨k, rfl⟩ := Nat.exists_eq_succ_of_ne_zero (Nat.ne_of_gt hFuel)
  rw [hLeaf, updateCounts, hParent, hGroup]
  cases k <;> rfl

omit [DecidableEq δ] in
theorem updateCounts_inv {core : Fin n} {t' : Memory n γ δ} (h : Flat t group)
    (hUpdate : updateCounts change fuel (t.core core).domain t = some t') :
    t' = t.changeCount change (group core) := by
  cases fuel with
  | zero =>
      obtain ⟨domain, hLeaf, -⟩ := h.domain core
      rw [hLeaf] at hUpdate
      cases hUpdate
  | succ fuel =>
      rw [h.updateCounts_eq (Nat.succ_pos fuel)] at hUpdate
      exact (Option.some.inj hUpdate).symm

omit [DecidableEq δ] in
theorem tasksCount_changeCount (h : Flat t group) (core other : Fin n) :
    ((t.changeCount change (group core)).group (group other)).tasksCount =
      if other = core then change (t.group (group other)).tasksCount
      else (t.group (group other)).tasksCount := by
  by_cases hOther : other = core
  · simp [Memory.changeCount, hOther]
  · have hNe : group other ≠ group core := fun hEq => hOther (h.injective hEq)
    simp [Memory.changeCount, hOther, hNe]

omit [DecidableEq δ] in
theorem insert_eq (h : Flat t group) (hFuel : 0 < fuel) (core : Fin n) :
    threadSmpTopologyUpdateOnInsert fuel (t.core core).logicalId t =
      some (t.changeCount (· + 1) (group core)) := by
  rw [threadSmpTopologyUpdateOnInsert, h.coreAt_eq core]
  exact h.updateCounts_eq hFuel core

omit [DecidableEq δ] in
theorem remove_eq (h : Flat t group) (hFuel : 0 < fuel) (core : Fin n) :
    threadSmpTopologyUpdateOnRemove fuel (t.core core).logicalId t =
      some (t.changeCount (· - 1) (group core)) := by
  rw [threadSmpTopologyUpdateOnRemove, h.coreAt_eq core]
  exact h.updateCounts_eq hFuel core

end Flat

/-- A loop that was completed has completed every round. -/
theorem rounds_of_foldlM {σ : Type} {f : σ → Nat → Option σ} {p : Nat → Prop}
    (hRound : ∀ s i s', f s i = some s' → p i) {k : Nat} {s last : σ}
    (h : (List.range k).foldlM f s = some last) {i : Nat} (hi : i < k) : p i := by
  induction k generalizing last with
  | zero => exact (Nat.not_lt_zero i hi).elim
  | succ k ih =>
      rw [List.range_succ, List.foldlM_append, Option.bind_eq_bind, Option.bind_eq_some_iff] at h
      obtain ⟨middle, hBefore, hLast⟩ := h
      rcases Nat.lt_succ_iff_lt_or_eq.mp hi with hOld | rfl
      · exact ih hBefore hOld
      · rw [List.foldlM_cons, Option.bind_eq_bind, Option.bind_eq_some_iff] at hLast
        obtain ⟨s', hStep, -⟩ := hLast
        exact hRound middle i s' hStep

/-- The topology is built if no allocation fails, and then it is flat and counts the boot task. -/
theorem build_flat {groupHeap : Allocations γ} {domainHeap : Allocations δ} (boot : Fin n)
    {t : Memory n γ δ} {fuel : Nat} (hNumbered : Numbered t) (hFuel : 0 < fuel)
    (hAnswers : ∀ i, i < n → (groupHeap.answer i).isSome ∧ (domainHeap.answer i).isSome) :
    ∃ built group, threadSmpBuildTopologyFlat fuel groupHeap domainHeap boot t = some built ∧
      Flat built group ∧ (∀ core : Fin n, groupHeap.answer core = some (group core)) ∧
      ∀ core, (built.group (group core)).tasksCount = if core = boot then 1 else 0 := by
  obtain ⟨s, nodes, hFold, hRinged, hLength, hNodes⟩ :=
    buildGroups groupHeap t.group fun i hi => (hAnswers i hi).1
  have hSome : nodes ≠ [] := by
    intro hNil
    rw [hNil] at hLength
    exact Nat.not_lt_zero boot (hLength ▸ boot.isLt)
  obtain ⟨root, rest, rfl, hRing⟩ := hRinged.ring hSome
  subst hLength
  obtain ⟨t', hFold', hPopulated⟩ := buildDomains (t := { t with group := s.groups }) hRing rfl
    (Nat.le_refl _) fun i hi => (hAnswers i hi).2
  have hAt : ∀ core : Fin (root :: rest).length,
      (root :: rest)[(core : Nat)]? = some ((root :: rest).get core) := by
    intro core
    rw [List.getElem?_eq_getElem core.isLt]
    rfl
  have hFields : ∀ core : Fin (root :: rest).length, _ := fun core => hRinged.fields core _ (hAt core)
  have hFlat : Flat t' (root :: rest).get := by
    refine ⟨⟨root, rest, List.ofFn_get _, ?_⟩, fun core => ?_, fun core => ?_, fun core => ?_⟩
    · rw [hPopulated.group]
      exact hRing
    · rw [hPopulated.group]
      exact ⟨(hFields core).1, (hFields core).2.1⟩
    · obtain ⟨domain, -, hLeaf, hRoot, hParent, hGroup⟩ := hPopulated.domain core core.isLt
      rw [hAt core] at hGroup
      exact ⟨domain, hLeaf, hRoot, hParent, (Option.some.inj hGroup).symm⟩
    · rw [hPopulated.logicalId]
      exact hNumbered core
  refine ⟨t'.changeCount (· + 1) ((root :: rest).get boot), (root :: rest).get, ?_,
    hFlat.changeCount _ _, fun core => ?_, fun core => ?_⟩
  · rw [threadSmpBuildTopologyFlat, hFold, Option.bind_eq_bind, Option.bind_some, hRinged.root,
      List.head?_cons, hFold']
    exact hFlat.insert_eq hFuel boot
  · rw [hNodes core core.isLt, hAt core]
  · rw [hFlat.tasksCount_changeCount, hPopulated.group, (hFields core).2.2]
    rfl

/-- A topology that was built did not fail to allocate. -/
theorem answers_of_build {groupHeap : Allocations γ} {domainHeap : Allocations δ} {boot : Fin n}
    {t built : Memory n γ δ} {fuel : Nat}
    (h : threadSmpBuildTopologyFlat fuel groupHeap domainHeap boot t = some built) (i : Nat)
    (hi : i < n) : (groupHeap.answer i).isSome ∧ (domainHeap.answer i).isSome := by
  simp only [threadSmpBuildTopologyFlat, Option.bind_eq_bind, Option.bind_eq_some_iff,
    Prod.exists] at h
  obtain ⟨s, hGroups, group, t', hDomains, -⟩ := h
  constructor
  · refine rounds_of_foldlM (p := fun i => (groupHeap.answer i).isSome) ?_ hGroups hi
    intro s i s' hRound
    rw [buildGroup, Option.bind_eq_bind, Option.bind_eq_some_iff] at hRound
    obtain ⟨group, hAnswer, -⟩ := hRound
    exact Option.isSome_iff_exists.mpr ⟨group, hAnswer⟩
  · refine rounds_of_foldlM (p := fun i => (domainHeap.answer i).isSome) ?_ hDomains hi
    intro s i s' hRound
    rw [buildDomain, Option.bind_eq_bind, Option.bind_eq_some_iff] at hRound
    obtain ⟨domain, hAnswer, -⟩ := hRound
    exact Option.isSome_iff_exists.mpr ⟨domain, hAnswer⟩

section CoreInit

variable {t : Memory n γ δ}

/-- What `thread_smp_core_init` does with the logical id of one processor. -/
def setLogicalId (t : Memory n γ δ) (cpu : SmpCpu) : Option (Memory n γ δ) := do
  let core ← coreAt n cpu.logicalId
  some { t with
    core := Function.update t.core core { t.core core with logicalId := UInt32.ofNat cpu.logicalId } }

omit [DecidableEq γ] [DecidableEq δ] in
theorem setLogicalIds {cpus : List SmpCpu} (hIds : ∀ cpu ∈ cpus, cpu.logicalId < n) :
    ∃ t', cpus.foldlM setLogicalId t = some t' ∧ ∀ core : Fin n,
      (∃ cpu ∈ cpus, cpu.logicalId = core) ∨ (t.core core).logicalId = UInt32.ofNat core →
        (t'.core core).logicalId = UInt32.ofNat core := by
  induction cpus generalizing t with
  | nil =>
      refine ⟨t, rfl, fun core hCore => ?_⟩
      rcases hCore with ⟨cpu, hMem, -⟩ | hDone
      · cases hMem
      · exact hDone
  | cons cpu cpus ih =>
      have hLt : cpu.logicalId < n := hIds cpu (List.mem_cons_self ..)
      obtain ⟨t', hFold, hSet⟩ := ih (t := { t with
        core := Function.update t.core ⟨cpu.logicalId, hLt⟩
          { t.core ⟨cpu.logicalId, hLt⟩ with logicalId := UInt32.ofNat cpu.logicalId } })
        fun other hMem => hIds other (List.mem_cons_of_mem _ hMem)
      refine ⟨t', ?_, fun core hCore => hSet core ?_⟩
      · rw [List.foldlM_cons, setLogicalId, coreAt, dif_pos hLt]
        exact hFold
      · by_cases hSame : core = ⟨cpu.logicalId, hLt⟩
        · right
          simp [hSame]
        · rcases hCore with ⟨other, hMem, hId⟩ | hDone
          · rcases List.mem_cons.mp hMem with rfl | hMem
            · exact (hSame (Fin.ext hId.symm)).elim
            · exact .inl ⟨other, hMem, hId⟩
          · right
            simpa [hSame] using hDone

omit [DecidableEq γ] [DecidableEq δ] in
/-- The processors of a well-formed table get the logical ids that the topology relies on. -/
theorem numbered_of_madt {table : Table} {way : List Nat} (h : Laid table 0 way)
    (hCount : (cpus table way).length = n) :
    ∃ t', (cpus table way).foldlM setLogicalId t = some t' ∧ Numbered t' := by
  have hId : ∀ i, ∀ hi : i < (cpus table way).length, (cpus table way)[i].logicalId = i :=
    fun i hi => cpus_getElem (List.getElem?_eq_getElem hi)
  have hLess : ∀ cpu ∈ cpus table way, cpu.logicalId < n := by
    intro cpu hMem
    obtain ⟨i, hi, rfl⟩ := List.getElem_of_mem hMem
    rw [hId i hi]
    omega
  obtain ⟨t', hFold, hSet⟩ := setLogicalIds (t := t) hLess
  refine ⟨t', hFold, fun core => ?_⟩
  have hLt : (core : Nat) < (cpus table way).length := hCount ▸ core.isLt
  rw [hSet core (.inl ⟨_, List.getElem_mem hLt, hId core hLt⟩), UInt32.toNat_ofNat']
  have hEntries := h.count_le
  have hLength := hdrLength_lt table
  have hFewer : (cpus table way).length ≤ way.length := by
    rw [← List.length_map (f := fun cpu : SmpCpu => (cpu.apicId, cpu.acpiId)), cpus_ids]
    exact List.length_filterMap_le ..
  omega

end CoreInit

end Ricerca.Topology
