import Ricerca.Foundation.Reachability
import Ricerca.User.UniverseLocks

/-! Tasks that lock pairs of different universes do not wait in a circle: whoever sleeps
for a mutex has only mutexes of universes with smaller ids. A call that names one universe
twice locks it more than once and sleeps for itself. -/
namespace Ricerca.UniverseLocks

open Ricerca.Foundation Ricerca.Lib Ricerca.Mutex

variable {Task : Type}

section Pairs

variable {ids ids' : Nat → UInt64} {src dst count : Nat}

/-- Two universes that are there, and differ in their ids. -/
structure Pair (ids : Nat → UInt64) (count src dst : Nat) : Prop where
  srcLt : src < count
  dstLt : dst < count
  ne : src ≠ dst
  idNe : ids src ≠ ids dst

theorem Pair.lockPair (h : Pair ids count src dst) : userUniverseLockPair ids src dst =
    if ids src < ids dst then [src, dst] else [dst, src] := by
  simp [userUniverseLockPair, h.ne]

theorem Pair.mem_lockPair (h : Pair ids count src dst) {u : Nat} :
    u ∈ userUniverseLockPair ids src dst ↔ u = src ∨ u = dst := by
  rw [h.lockPair]
  split
  · simp
  · simp [or_comm]

theorem Pair.pairwise_lockPair (h : Pair ids count src dst) :
    (userUniverseLockPair ids src dst).Pairwise (ids · < ids ·) := by
  rw [h.lockPair]
  split
  · rename_i hLt
    simpa using hLt
  · rename_i hGe
    have hLt : ids dst < ids src := by
      have hNe := h.idNe
      rw [UInt64.lt_iff_toNat_lt] at hGe ⊢
      have hNat : (ids src).toNat ≠ (ids dst).toNat := fun hEq => hNe (UInt64.toNat_inj.mp hEq)
      omega
    simpa using hLt

theorem Pair.perm_unlockPair (h : Pair ids count src dst) :
    (userUniverseUnlockPair src dst).Perm (userUniverseLockPair ids src dst) := by
  rw [h.lockPair, userUniverseUnlockPair, if_pos h.ne]
  split
  · exact List.Perm.refl _
  · exact List.Perm.swap dst src []

theorem lockPair_congr (hSrc : ids' src = ids src) (hDst : ids' dst = ids dst) :
    userUniverseLockPair ids' src dst = userUniverseLockPair ids src dst := by
  simp [userUniverseLockPair, hSrc, hDst]

end Pairs

/-- The mutexes that a task has got and will get are those of a pair. -/
def Phase.Ok (ids : Nat → UInt64) (count : Nat) : Phase → Prop
  | .outside => True
  | .locking src dst got todo =>
      Pair ids count src dst ∧ got ++ todo = userUniverseLockPair ids src dst
  | .sleeping src dst got u todo =>
      Pair ids count src dst ∧ got ++ u :: todo = userUniverseLockPair ids src dst
  | .inside src dst got => Pair ids count src dst ∧ got = userUniverseLockPair ids src dst
  | .unlocking src dst todo =>
      Pair ids count src dst ∧ todo <:+ userUniverseUnlockPair src dst

section Phases

variable {ids ids' : Nat → UInt64} {count count' : Nat} {phase : Phase}

/-- The universe whose mutex a task has or sleeps for is there. -/
theorem Phase.Ok.lt (h : phase.Ok ids count) {u : Nat}
    (hUse : u ∈ phase.holds ∨ phase.waits = some u) : u < count := by
  have hPair : ∀ src dst, Pair ids count src dst → u = src ∨ u = dst → u < count := by
    rintro src dst hPair (rfl | rfl)
    · exact hPair.srcLt
    · exact hPair.dstLt
  cases phase with
  | outside => simp [Phase.holds, Phase.waits] at hUse
  | locking src dst got todo =>
      apply hPair src dst h.1
      rw [← h.1.mem_lockPair, ← h.2]
      simp_all [Phase.holds, Phase.waits]
  | sleeping src dst got v todo =>
      apply hPair src dst h.1
      rw [← h.1.mem_lockPair, ← h.2]
      rcases hUse with hMem | hWaits
      · exact List.mem_append_left _ hMem
      · simp_all [Phase.waits]
  | inside src dst got =>
      apply hPair src dst h.1
      rw [← h.1.mem_lockPair, ← h.2]
      simp_all [Phase.holds, Phase.waits]
  | unlocking src dst todo =>
      apply hPair src dst h.1
      rw [← h.1.mem_lockPair, ← h.1.perm_unlockPair.mem_iff]
      apply h.2.mem
      simpa [Phase.holds, Phase.waits] using hUse

/-- New universes do not matter for the old ones. -/
theorem Phase.Ok.mono (h : phase.Ok ids count) (hCount : count ≤ count')
    (hIds : ∀ u < count, ids' u = ids u) : phase.Ok ids' count' := by
  have hPair : ∀ src dst, Pair ids count src dst → Pair ids' count' src dst := by
    intro src dst hPair
    refine ⟨by have := hPair.srcLt; omega, by have := hPair.dstLt; omega, hPair.ne, ?_⟩
    rw [hIds src hPair.srcLt, hIds dst hPair.dstLt]
    exact hPair.idNe
  have hLocks : ∀ src dst, Pair ids count src dst →
      userUniverseLockPair ids' src dst = userUniverseLockPair ids src dst :=
    fun src dst hPair => lockPair_congr (hIds src hPair.srcLt) (hIds dst hPair.dstLt)
  cases phase with
  | outside => trivial
  | locking src dst got todo => exact ⟨hPair src dst h.1, (hLocks src dst h.1).symm ▸ h.2⟩
  | sleeping src dst got v todo => exact ⟨hPair src dst h.1, (hLocks src dst h.1).symm ▸ h.2⟩
  | inside src dst got => exact ⟨hPair src dst h.1, (hLocks src dst h.1).symm ▸ h.2⟩
  | unlocking src dst todo => exact ⟨hPair src dst h.1, h.2⟩

theorem Phase.of_waits {u : Nat} (h : phase.waits = some u) :
    ∃ src dst got todo, phase = .sleeping src dst got u todo := by
  cases phase with
  | sleeping src dst got v todo =>
      obtain rfl : v = u := by simpa [Phase.waits] using h
      exact ⟨src, dst, got, todo, rfl⟩
  | outside | locking | inside | unlocking => simp [Phase.waits] at h

/-- Whoever sleeps has only mutexes of smaller universes. -/
theorem Phase.Ok.lt_of_waits (h : phase.Ok ids count) {u v : Nat} (hWaits : phase.waits = some u)
    (hHolds : v ∈ phase.holds) : ids v < ids u := by
  obtain ⟨src, dst, got, todo, rfl⟩ := Phase.of_waits hWaits
  have hSorted := h.1.pairwise_lockPair
  rw [← h.2, List.pairwise_append] at hSorted
  exact hSorted.2.2 v hHolds u (List.mem_cons_self ..)

end Phases

/-- Every mutex has at most one holder and is taken just as long as it has one; its
sleepers are in its queue. -/
structure Mutexes (s : State Task) (sleepers : Nat → List Task) : Prop where
  one : ∀ a b u, u ∈ (s.phase a).holds → u ∈ (s.phase b).holds → a = b
  taken : ∀ u, (s.lock u).taken = true ↔ ∃ a, u ∈ (s.phase a).holds
  queued : ∀ u, (s.lock u).Queued s.next (sleepers u)
  waits : ∀ u a, a ∈ sleepers u ↔ (s.phase a).waits = some u

section Steps

variable {s s' : State Task} {sleepers : Nat → List Task} {task : Task} {phase : Phase}

/-- A step after which everybody has and waits for the same as before. -/
theorem Mutexes.same (h : Mutexes s sleepers)
    (hHolds : ∀ a u, u ∈ (s'.phase a).holds ↔ u ∈ (s.phase a).holds)
    (hWaits : ∀ a, (s'.phase a).waits = (s.phase a).waits)
    (hTaken : ∀ u, (s'.lock u).taken = (s.lock u).taken)
    (hQueued : ∀ u, (s'.lock u).Queued s'.next (sleepers u)) : Mutexes s' sleepers := by
  constructor
  case one => simpa only [hHolds] using h.one
  case taken =>
    intro u
    rw [hTaken, h.taken]
    simp only [hHolds]
  case queued => exact hQueued
  case waits => simpa only [hWaits] using h.waits

/-- A task that runs is in no queue. -/
theorem Mutexes.awake (h : Mutexes s sleepers) (hRuns : (s.phase task).waits = none) (u : Nat) :
    task ∉ sleepers u := by
  rw [h.waits, hRuns]
  simp

/-- The queues of two mutexes have no task in common. -/
theorem Mutexes.disjoint (h : Mutexes s sleepers) {u v : Nat} {a : Task} (hNe : u ≠ v)
    (hMem : a ∈ sleepers u) : a ∉ sleepers v := by
  intro hOther
  rw [h.waits] at hMem hOther
  exact hNe (Option.some.inj (hMem.symm.trans hOther))

variable [DecidableEq Task]

/-- A task goes on with the mutexes that it has. -/
theorem Mutexes.proceed (h : Mutexes s sleepers)
    (hHolds : ∀ u, u ∈ phase.holds ↔ u ∈ (s.phase task).holds)
    (hWaits : phase.waits = (s.phase task).waits) :
    Mutexes { s with phase := Function.update s.phase task phase } sleepers := by
  refine h.same ?_ ?_ (fun _ => rfl) h.queued
  · intro a u
    by_cases ha : a = task
    · simp [ha, hHolds]
    · simp [ha]
  · intro a
    by_cases ha : a = task
    · simp [ha, hWaits]
    · simp [ha]

/-- A mutex that nobody has goes to a task. -/
theorem Mutexes.lock_taken (h : Mutexes s sleepers) {u : Nat} {mutex : ThreadMutex Task}
    (hFree : (s.lock u).taken = false) (hTaken : mutex.taken = true)
    (hQueued : mutex.Queued s.next (sleepers u))
    (hHolds : ∀ v, v ∈ phase.holds ↔ v ∈ (s.phase task).holds ∨ v = u)
    (hWaits : phase.waits = (s.phase task).waits) :
    Mutexes { s with
      lock := Function.update s.lock u mutex
      phase := Function.update s.phase task phase } sleepers := by
  have hNobody : ∀ a, u ∉ (s.phase a).holds := by
    intro a hMem
    rw [(h.taken u).mpr ⟨a, hMem⟩] at hFree
    cases hFree
  have hMem : ∀ a v, v ∈ (Function.update s.phase task phase a).holds ↔
      v ∈ (s.phase a).holds ∨ a = task ∧ v = u := by
    intro a v
    by_cases ha : a = task
    · simp [ha, hHolds]
    · simp [ha]
  constructor
  case one =>
    intro a b v ha hb
    rw [hMem] at ha hb
    rcases ha with ha | ⟨rfl, rfl⟩
    · rcases hb with hb | ⟨rfl, rfl⟩
      · exact h.one a b v ha hb
      · exact (hNobody a ha).elim
    · rcases hb with hb | ⟨rfl, -⟩
      · exact (hNobody b hb).elim
      · rfl
  case taken =>
    intro v
    simp only [hMem]
    by_cases hEq : v = u
    · subst hEq
      rw [Function.update_self]
      exact ⟨fun _ => ⟨task, .inr ⟨rfl, rfl⟩⟩, fun _ => hTaken⟩
    · simp [hEq, h.taken]
  case queued =>
    intro v
    by_cases hEq : v = u
    · subst hEq
      simpa using hQueued
    · simpa [hEq] using h.queued v
  case waits =>
    intro v a
    rw [h.waits]
    by_cases ha : a = task
    · simp [ha, hWaits]
    · simp [ha]

/-- A task goes to sleep for a mutex. -/
theorem Mutexes.lock_sleeps (h : Mutexes s sleepers) {u : Nat} {mutex : ThreadMutex Task}
    {next : Task → Option Task} (hRuns : (s.phase task).waits = none)
    (hTaken : mutex.taken = (s.lock u).taken) (hQueued : mutex.Queued next (sleepers u ++ [task]))
    (hNext : ∀ n, n ∉ sleepers u → n ≠ task → next n = s.next n)
    (hHolds : phase.holds = (s.phase task).holds) (hWaits : phase.waits = some u) :
    Mutexes { s with
      lock := Function.update s.lock u mutex
      next := next
      phase := Function.update s.phase task phase }
      (Function.update sleepers u (sleepers u ++ [task])) := by
  have hMem : ∀ a, (Function.update s.phase task phase a).holds = (s.phase a).holds := by
    intro a
    by_cases ha : a = task
    · simp [ha, hHolds]
    · simp [ha]
  constructor
  case one => simpa only [hMem] using h.one
  case taken =>
    intro v
    simp only [hMem]
    by_cases hEq : v = u
    · subst hEq
      rw [Function.update_self, hTaken]
      exact h.taken v
    · rw [Function.update_of_ne hEq]
      exact h.taken v
  case queued =>
    intro v
    by_cases hEq : v = u
    · subst hEq
      simpa using hQueued
    · simp only [Function.update_of_ne hEq]
      apply (h.queued v).congr
      intro n hn
      apply hNext n (h.disjoint hEq hn)
      rintro rfl
      exact h.awake hRuns v hn
  case waits =>
    intro v a
    by_cases ha : a = task
    · subst ha
      have hAwake := h.awake hRuns v
      by_cases hEq : v = u
      · simp [hEq, hWaits]
      · simp [hEq, hWaits, hAwake, Ne.symm hEq]
    · have hOld := h.waits v a
      by_cases hEq : v = u
      · subst hEq
        simpa [ha] using hOld
      · simpa [hEq, ha] using hOld

/-- A task gives up a mutex that nobody sleeps for. -/
theorem Mutexes.unlock_free (h : Mutexes s sleepers) {u : Nat} {mutex : ThreadMutex Task}
    (hEmpty : sleepers u = []) (hFree : mutex.taken = false) (hQueued : mutex.Queued s.next [])
    (hOwn : u ∈ (s.phase task).holds)
    (hHolds : ∀ v, v ∈ phase.holds ↔ v ∈ (s.phase task).holds ∧ v ≠ u)
    (hWaits : phase.waits = (s.phase task).waits) :
    Mutexes { s with
      lock := Function.update s.lock u mutex
      phase := Function.update s.phase task phase } sleepers := by
  have hMem : ∀ a v, v ∈ (Function.update s.phase task phase a).holds ↔
      v ∈ (s.phase a).holds ∧ v ≠ u := by
    intro a v
    by_cases ha : a = task
    · simp [ha, hHolds]
    · simp only [Function.update_of_ne ha, iff_self_and]
      rintro hOther rfl
      exact ha (h.one a task v hOther hOwn)
  constructor
  case one =>
    intro a b v ha hb
    exact h.one a b v ((hMem a v).mp ha).1 ((hMem b v).mp hb).1
  case taken =>
    intro v
    simp only [hMem]
    by_cases hEq : v = u
    · simp [hEq, hFree]
    · simp [hEq, h.taken]
  case queued =>
    intro v
    by_cases hEq : v = u
    · subst hEq
      simpa [hEmpty] using hQueued
    · simpa [hEq] using h.queued v
  case waits =>
    intro v a
    rw [h.waits]
    by_cases ha : a = task
    · simp [ha, hWaits]
    · simp [ha]

/-- A task hands a mutex over to the task that has slept longest for it. -/
theorem Mutexes.unlock_handed (h : Mutexes s sleepers) {u : Nat} {mutex : ThreadMutex Task}
    {woken : Task} {rest : List Task} {phases : Task → Phase} (hFirst : sleepers u = woken :: rest)
    (hTaken : mutex.taken = true) (hQueued : mutex.Queued s.next rest)
    (hHolds : ∀ a v, v ∈ (phases a).holds ↔
      v ∈ (s.phase a).holds ∧ v ≠ u ∨ a = woken ∧ v = u)
    (hWaits : ∀ a, (phases a).waits = if a = woken then none else (s.phase a).waits) :
    Mutexes { s with lock := Function.update s.lock u mutex, phase := phases }
      (Function.update sleepers u rest) := by
  have hNodup : (woken :: rest).Nodup := hFirst ▸ (h.queued u).holds.nodup
  constructor
  case one =>
    intro a b v ha hb
    rcases (hHolds a v).mp ha with ⟨ha, hNe⟩ | ⟨rfl, rfl⟩
    · rcases (hHolds b v).mp hb with ⟨hb, -⟩ | ⟨-, hEq⟩
      · exact h.one a b v ha hb
      · exact (hNe hEq).elim
    · rcases (hHolds b v).mp hb with ⟨-, hNe⟩ | ⟨hEq, -⟩
      · exact (hNe rfl).elim
      · exact hEq.symm
  case taken =>
    intro v
    simp only [hHolds]
    by_cases hEq : v = u
    · simp [hEq, hTaken]
    · simp [hEq, h.taken]
  case queued =>
    intro v
    by_cases hEq : v = u
    · subst hEq
      simpa using hQueued
    · simpa [hEq] using h.queued v
  case waits =>
    intro v a
    have hOld := h.waits v a
    simp only [hWaits]
    by_cases hEq : v = u
    · subst hEq
      rw [hFirst] at hOld
      rw [Function.update_self]
      by_cases ha : a = woken
      · subst ha
        simpa using (List.nodup_cons.mp hNodup).1
      · simpa [ha] using hOld
    · rw [Function.update_of_ne hEq]
      by_cases ha : a = woken
      · subst ha
        have hSleeps : a ∈ sleepers u := by simp [hFirst]
        simpa using h.disjoint (Ne.symm hEq) hSleeps
      · simpa [ha] using hOld

end Steps

/-- Ids are given out in order, and did not repeat so far. -/
structure Numbered (s : State Task) : Prop where
  last : s.userUniverseLastId = UInt64.ofNat (s.universesCount + 2)
  id : ∀ u < s.universesCount, s.universeId u = UInt64.ofNat (u + 2)
  few : s.universesCount ≤ 2 ^ 64

structure Invariant (s : State Task) : Prop where
  numbered : Numbered s
  phases : ∀ a, (s.phase a).Ok s.universeId s.universesCount
  mutexes : ∃ sleepers, Mutexes s sleepers

/-- The two universes of a call differ, and ids are not given out again. -/
def careful (s : State Task) : Event Task → Prop
  | .call _ src dst => src ≠ dst
  | .create => s.universesCount < 2 ^ 64
  | .lock .. | .enter _ | .leave _ | .unlock .. | .done _ | .write .. => True

section Runs

variable {s s' : State Task}

theorem Numbered.same (h : Numbered s) (hCount : s'.universesCount = s.universesCount)
    (hLast : s'.userUniverseLastId = s.userUniverseLastId)
    (hId : s'.universeId = s.universeId) : Numbered s' := by
  constructor
  case last => rw [hLast, hCount, h.last]
  case id => rw [hId, hCount]; exact h.id
  case few => rw [hCount]; exact h.few

theorem Numbered.pair (h : Numbered s) {src dst : Nat} (hSrc : src < s.universesCount)
    (hDst : dst < s.universesCount) (hNe : src ≠ dst) :
    Pair s.universeId s.universesCount src dst := by
  refine ⟨hSrc, hDst, hNe, ?_⟩
  intro hIds
  have hNat := congrArg UInt64.toNat hIds
  have hFew := h.few
  simp only [h.id src hSrc, h.id dst hDst, UInt64.toNat_ofNat'] at hNat
  omega

/-- One task is in another phase. -/
theorem ok_update [DecidableEq Task] {ids : Nat → UInt64} {count : Nat} {phases : Task → Phase}
    (h : ∀ a, (phases a).Ok ids count) {task : Task} {phase : Phase} (hOk : phase.Ok ids count) :
    ∀ a, (Function.update phases task phase a).Ok ids count := by
  intro a
  by_cases ha : a = task
  · simpa [ha] using hOk
  · simpa [ha] using h a

theorem Invariant.create (h : Invariant s) (hFew : s.universesCount < 2 ^ 64) :
    Invariant { s with
      universesCount := s.universesCount + 1
      userUniverseLastId := s.userUniverseLastId + 1
      universeId := Function.update s.universeId s.universesCount s.userUniverseLastId
      lock := Function.update s.lock s.universesCount threadMutexInit } := by
  obtain ⟨sleepers, hMutexes⟩ := h.mutexes
  have hFresh : sleepers s.universesCount = [] := by
    apply List.eq_nil_iff_forall_not_mem.mpr
    intro a ha
    have hWaits := (hMutexes.waits s.universesCount a).mp ha
    exact Nat.lt_irrefl _ ((h.phases a).lt (.inr hWaits))
  have hFree : ∀ a, s.universesCount ∉ (s.phase a).holds := by
    intro a ha
    exact Nat.lt_irrefl _ ((h.phases a).lt (.inl ha))
  constructor
  case numbered =>
    constructor
    case last =>
      simp only [h.numbered.last, UInt64.ofNat_add]
      simp only [UInt64.add_assoc]
      rfl
    case id =>
      intro u hu
      by_cases hEq : u = s.universesCount
      · simp [hEq, h.numbered.last]
      · simp only [Function.update_of_ne hEq]
        exact h.numbered.id u (by simp only at hu; omega)
    case few => exact hFew
  case phases =>
    intro a
    apply (h.phases a).mono (Nat.le_succ _)
    intro u hu
    exact Function.update_of_ne (Nat.ne_of_lt hu) _ _
  case mutexes =>
    refine ⟨sleepers, hMutexes.one, ?_, ?_, hMutexes.waits⟩
    · intro u
      by_cases hEq : u = s.universesCount
      · simp [hEq, hFree, threadMutexInit]
      · simpa [hEq] using hMutexes.taken u
    · intro u
      by_cases hEq : u = s.universesCount
      · subst hEq
        simpa [hFresh] using ThreadMutex.Queued.init s.next
      · simpa [hEq] using hMutexes.queued u

theorem Invariant.unlock [DecidableEq Task] (h : Invariant s) {sleepers : Nat → List Task}
    (hMutexes : Mutexes s sleepers) {task : Task} {src dst u : Nat} {todo : List Nat}
    {woken : Option Task} {mutex : ThreadMutex Task}
    (hPhase : s.phase task = .unlocking src dst (u :: todo))
    (hUnlock : threadMutexUnlock (s.lock u) s.next = (woken, mutex)) :
    Invariant { s with
      lock := Function.update s.lock u mutex
      phase := fun other =>
        if woken = some other then (s.phase other).resume
        else Function.update s.phase task (.unlocking src dst todo) other } := by
  have hOk : Pair s.universeId s.universesCount src dst ∧
      u :: todo <:+ userUniverseUnlockPair src dst := by
    have hOk := h.phases task
    rwa [hPhase] at hOk
  have hNodup : (u :: todo).Nodup := by
    apply hOk.2.sublist.nodup
    simp [userUniverseUnlockPair, hOk.1.ne]
  have hLeft : ∀ v, v ∈ todo ↔ v ∈ (s.phase task).holds ∧ v ≠ u := by
    intro v
    rw [hPhase]
    simp only [Phase.holds, List.mem_cons]
    constructor
    · intro hMem
      refine ⟨.inr hMem, ?_⟩
      rintro rfl
      exact (List.nodup_cons.mp hNodup).1 hMem
    · rintro ⟨rfl | hMem, hNe⟩
      · exact (hNe rfl).elim
      · exact hMem
  have hOwn : u ∈ (s.phase task).holds := by simp [hPhase, Phase.holds]
  have hNext : Phase.Ok s.universeId s.universesCount (.unlocking src dst todo) :=
    ⟨hOk.1, (List.suffix_cons u todo).trans hOk.2⟩
  cases hFirst : sleepers u with
  | nil =>
      obtain ⟨mutex', hResult, hFree, hQueued⟩ := (hFirst ▸ hMutexes.queued u).unlock_nil
      obtain ⟨rfl, rfl⟩ : none = woken ∧ mutex' = mutex := by simpa [hResult] using hUnlock
      simp only [reduceCtorEq, if_false]
      refine ⟨h.numbered.same rfl rfl rfl, ok_update h.phases hNext, sleepers,
        hMutexes.unlock_free hFirst hFree hQueued hOwn hLeft ?_⟩
      simp [hPhase, Phase.waits]
  | cons first rest =>
      obtain ⟨mutex', hResult, hTaken, hQueued⟩ := (hFirst ▸ hMutexes.queued u).unlock_cons
      obtain ⟨rfl, rfl⟩ : some first = woken ∧ mutex' = mutex := by simpa [hResult] using hUnlock
      obtain ⟨src', dst', got, todo', hSleeps⟩ :=
        Phase.of_waits ((hMutexes.waits u first).mp (by simp [hFirst]))
      have hNe : first ≠ task := by
        rintro rfl
        simp [hSleeps] at hPhase
      refine ⟨h.numbered.same rfl rfl rfl, ?_, _,
        hMutexes.unlock_handed hFirst hTaken hQueued ?_ ?_⟩
      · intro a
        by_cases ha : first = a
        · subst ha
          have hResumes := h.phases first
          rw [hSleeps] at hResumes
          simpa [hSleeps, Phase.resume, Phase.Ok] using hResumes
        · simpa [ha] using ok_update h.phases hNext a
      · intro a v
        by_cases ha : first = a
        · subst ha
          by_cases hv : v = u
          · simp [hSleeps, Phase.resume, Phase.holds, hv]
          · simp [hSleeps, Phase.resume, Phase.holds, hv]
        · by_cases hTask : a = task
          · subst hTask
            simpa [ha, Ne.symm ha, Phase.holds] using hLeft v
          · simp only [Option.some.injEq, ha, if_false, Function.update_of_ne hTask,
              Ne.symm ha, false_and, or_false, iff_self_and]
            rintro hMem rfl
            exact hTask (hMutexes.one a task v hMem hOwn)
      · intro a
        by_cases ha : first = a
        · subst ha
          simp [hSleeps, Phase.resume, Phase.waits]
        · by_cases hTask : a = task
          · subst hTask
            simp [ha, Ne.symm ha, hPhase, Phase.waits]
          · simp [ha, Ne.symm ha, hTask]

theorem Invariant.step [DecidableEq Task] (h : Invariant s) {event : Event Task}
    (hCareful : careful s event) (hStep : Step s event s') : Invariant s' := by
  obtain ⟨sleepers, hMutexes⟩ := h.mutexes
  cases hStep with
  | create => exact h.create hCareful
  | @call task src dst hPhase hSrc hDst =>
      have hPair := h.numbered.pair hSrc hDst hCareful
      refine ⟨h.numbered.same rfl rfl rfl, ok_update h.phases ⟨hPair, rfl⟩, sleepers, hMutexes.proceed ?_ ?_⟩
      · simp [hPhase, Phase.holds]
      · simp [hPhase, Phase.waits]
  | @lock task src dst u got todo outcome mutex next hPhase hLock =>
      have hOk := hPhase ▸ h.phases task
      have hRuns : (s.phase task).waits = none := by simp [hPhase, Phase.waits]
      obtain ⟨hTaken, hCase⟩ :=
        (hMutexes.queued u).lock_cases (hMutexes.awake hRuns u) hLock
      rcases hCase with ⟨rfl, hFree, hEmpty, hQueued, rfl⟩ | ⟨rfl, hTaken', hQueued, hOthers⟩
      · refine ⟨h.numbered.same rfl rfl rfl, ok_update h.phases ⟨hOk.1, by simpa using hOk.2⟩,
          sleepers, hMutexes.lock_taken hFree hTaken (hEmpty ▸ hQueued) ?_ ?_⟩
        · simp [hPhase, Phase.holds]
        · simp [hPhase, Phase.waits]
      · refine ⟨h.numbered.same rfl rfl rfl, ok_update h.phases hOk, _,
          hMutexes.lock_sleeps hRuns (hTaken.trans hTaken'.symm) hQueued hOthers ?_ rfl⟩
        simp [hPhase, Phase.holds]
  | @enter task src dst got hPhase =>
      have hOk := hPhase ▸ h.phases task
      refine ⟨h.numbered.same rfl rfl rfl, ok_update h.phases ⟨hOk.1, by simpa using hOk.2⟩, sleepers,
        hMutexes.proceed ?_ ?_⟩
      · simp [hPhase, Phase.holds]
      · simp [hPhase, Phase.waits]
  | @leave task src dst got hPhase =>
      have hOk := hPhase ▸ h.phases task
      refine ⟨h.numbered.same rfl rfl rfl, ok_update h.phases ⟨hOk.1, List.suffix_refl _⟩, sleepers,
        hMutexes.proceed ?_ ?_⟩
      · intro u
        rw [hPhase]
        simp only [Phase.holds, hOk.2]
        exact hOk.1.perm_unlockPair.mem_iff
      · simp [hPhase, Phase.waits]
  | @unlock task src dst u todo woken mutex hPhase hUnlock =>
      exact h.unlock hMutexes hPhase hUnlock
  | @done task src dst hPhase =>
      refine ⟨h.numbered.same rfl rfl rfl, ok_update h.phases trivial, sleepers, hMutexes.proceed ?_ ?_⟩
      · simp [hPhase, Phase.holds]
      · simp [hPhase, Phase.waits]
  | @write task link hRuns =>
      refine ⟨h.numbered.same rfl rfl rfl, h.phases, sleepers, hMutexes.one, hMutexes.taken, ?_, hMutexes.waits⟩
      intro u
      apply (hMutexes.queued u).congr
      intro a ha
      apply Function.update_of_ne
      rintro rfl
      exact hMutexes.awake hRuns u ha

theorem Invariant.run [DecidableEq Task] {trace : List (Event Task)}
    (run : (system.restrict careful).Execution trace s) : Invariant s := by
  apply run.stateInvariant
  · rintro s ⟨hCount, hLast, hLock, hPhase⟩
    refine ⟨⟨?_, ?_, ?_⟩, ?_, fun _ => [], ?_, ?_, ?_, ?_⟩
    · rw [hLast, hCount]
      rfl
    · simp [hCount]
    · simp [hCount]
    · simp [hPhase, Phase.Ok]
    · simp [hPhase, Phase.holds]
    · simp [hLock, hPhase, Phase.holds, threadMutexInit]
    · intro u
      rw [hLock]
      exact .init s.next
    · simp [hPhase, Phase.waits]
  · intro s event s' h hStep
    exact h.step hStep.1 hStep.2

/-- How far up in the order of the universes a task waits. -/
def rank (s : State Task) (task : Task) : Nat :=
  match (s.phase task).waits with
  | some u => (s.universeId u).toNat
  | none => 2 ^ 64

theorem Invariant.rank_lt (h : Invariant s) {task other : Task} (hWaits : waitsFor s task other) :
    rank s task < rank s other := by
  obtain ⟨u, hTask, hOther⟩ := hWaits
  simp only [rank, hTask]
  split
  · rename_i v hv
    exact (h.phases other).lt_of_waits hv hOther
  · exact (s.universeId u).toNat_lt

theorem Invariant.deadlockFree (h : Invariant s) : DeadlockFree s := by
  constructor
  case ordered =>
    intro task src dst got hPhase
    have hOk := h.phases task
    rw [hPhase] at hOk
    obtain ⟨hPair, rfl⟩ := hOk
    exact ⟨hPair.pairwise_lockPair, fun u => hPair.mem_lockPair⟩
  case released =>
    intro task src dst got hPhase
    have hOk := h.phases task
    rw [hPhase] at hOk
    obtain ⟨hPair, rfl⟩ := hOk
    exact hPair.perm_unlockPair
  case notOwn =>
    intro task u hWaits hHolds
    exact (UInt64.lt_irrefl _) ((h.phases task).lt_of_waits hWaits hHolds)
  case acyclic =>
    intro task
    exact transGen_irrefl_of_rank (fun _ _ hWaits => h.rank_lt hWaits) task

/-- As long as every call names two universes, tasks never wait in a circle. -/
theorem universe_locks_deadlock_free [DecidableEq Task] {trace : List (Event Task)}
    (run : (system.restrict careful).Execution trace s) : DeadlockFree s :=
  (Invariant.run run).deadlockFree

end Runs

/-- Nothing is created, and every task is outside. -/
def start : State (Fin 2) where
  universesCount := 0
  userUniverseLastId := userUniverseFirstId
  universeId _ := 0
  lock _ := threadMutexInit
  next _ := none
  phase _ := .outside

/-- Two tasks that name the same pair in opposite orders: one sleeps for the other, which
is in between. -/
theorem universe_locks_deadlock_free_crossing : ∃ trace, ∃ s : State (Fin 2),
    (system.restrict careful).Execution trace s ∧ waitsFor s 1 0 ∧
      s.phase 0 = .inside 0 1 [0, 1] ∧ DeadlockFree s := by
  have begun : (system.restrict careful).Execution [] start :=
    .start ⟨rfl, rfl, fun _ => rfl, fun _ => rfl⟩
  have created := begun.step ⟨by simp [careful, start], Step.create⟩
  have both := created.step ⟨by simp [careful, start], Step.create⟩
  have called := both.step
    ⟨by simp [careful], @Step.call _ _ _ 0 0 1 rfl (by decide) (by decide)⟩
  have crossed := called.step
    ⟨by simp [careful], @Step.call _ _ _ 1 1 0 rfl (by decide) (by decide)⟩
  have first := crossed.step ⟨by trivial, Step.lock 0 rfl rfl⟩
  have second := first.step ⟨by trivial, Step.lock 0 rfl rfl⟩
  have sleeps := second.step ⟨by trivial, Step.lock 1 rfl rfl⟩
  have run := sleeps.step ⟨by trivial, Step.enter 0 rfl⟩
  exact ⟨_, _, run, ⟨0, rfl, by decide⟩, rfl, universe_locks_deadlock_free run⟩

/-- A call that names one universe twice sleeps for the mutex that it has just taken. -/
theorem same_universe_locks_itself : ∃ trace, ∃ s : State (Fin 2),
    system.Execution trace s ∧ waitsFor s 0 0 ∧ ¬ DeadlockFree s := by
  have begun : system.Execution [] start := .start ⟨rfl, rfl, fun _ => rfl, fun _ => rfl⟩
  have created := begun.step Step.create
  have called := created.step (@Step.call _ _ _ 0 0 0 rfl (by decide) (by decide))
  have taken := called.step (Step.lock 0 rfl rfl)
  have run := taken.step (Step.lock 0 rfl rfl)
  refine ⟨_, _, run, ⟨0, rfl, by decide⟩, ?_⟩
  intro h
  exact h.acyclic 0 (.single ⟨0, rfl, by decide⟩)

end Ricerca.UniverseLocks
