import Ricerca.User.ShmSteps

/-! Shared memory objects are found under their ids only while they live, and their
memory is freed once, after the last reference is gone. -/
namespace Ricerca.ShmLife

open Ricerca.Foundation Ricerca.Lib

/-- How often `user_shm_create` took an id. -/
def creates (trace : List Event) : Nat :=
  trace.countP fun
    | .create _ => true
    | _ => false

/-- The objects that `user_shm_create` returned. -/
def createdObjects (trace : List Event) : List Nat :=
  trace.filterMap fun
    | .created obj _ => some obj
    | _ => none

/-- The ids that `user_shm_create` returned. -/
def createdIds (trace : List Event) : List UInt64 :=
  trace.filterMap fun
    | .created _ id => some id
    | _ => none

/-- An object was inserted into the map. -/
def Stage.published : Stage → Prop
  | .unborn | .creating => False
  | .owned | .closing | .removed | .closed => True

/-- What the trace tells about the state. -/
structure History (trace : List Event) (s : State) : Prop where
  creates : creates trace = s.objectsCount
  create : ∀ obj, .create obj ∈ trace ↔ obj < s.objectsCount
  objects : ∀ obj, obj ∈ createdObjects trace ↔ (s.stage obj).published
  nodup : (createdObjects trace).Nodup
  ids : createdIds trace = (createdObjects trace).map idOf
  created : ∀ obj id, .created obj id ∈ trace ↔ obj ∈ createdObjects trace ∧ id = idOf obj
  found : ∀ id obj, .found id obj ∈ trace → .created obj id ∈ trace
  shutdown : ∀ obj, .shutdown obj ∈ trace ↔ s.stage obj = .closed

section Runs

variable {trace : List Event} {s s' : State}

/-- Events that say nothing about the life of an object. -/
def Event.quiet : Event → Prop
  | .create _ | .created _ _ | .found _ _ | .shutdown _ => False
  | .outOfMemory | .borrowOwner _ | .dropOwner _ | .createRef _ | .borrowRef _ | .dropRef _
  | .find _ | .notFound _ | .run _ => True

theorem History.quiet (h : History trace s) {event : Event} (hQuiet : event.quiet)
    (hCount : s'.objectsCount = s.objectsCount)
    (hStage : ∀ obj, ((s'.stage obj).published ↔ (s.stage obj).published) ∧
      (s'.stage obj = .closed ↔ s.stage obj = .closed)) : History (trace ++ [event]) s' := by
  have hCreates : ShmLife.creates (trace ++ [event]) = ShmLife.creates trace := by
    cases event <;> simp_all [ShmLife.creates, Event.quiet]
  have hObjects : createdObjects (trace ++ [event]) = createdObjects trace := by
    cases event <;> simp_all [createdObjects, Event.quiet]
  have hIds : createdIds (trace ++ [event]) = createdIds trace := by
    cases event <;> simp_all [createdIds, Event.quiet]
  have hMem : ∀ other : Event, ¬ other.quiet → (other ∈ trace ++ [event] ↔ other ∈ trace) := by
    intro other hLoud
    have hNe : other ≠ event := by
      rintro rfl
      exact hLoud hQuiet
    simp [hNe]
  constructor
  case creates => rw [hCreates, hCount, h.creates]
  case create =>
    intro obj
    rw [hMem _ id, hCount]
    exact h.create obj
  case objects =>
    intro obj
    rw [hObjects, (hStage obj).1]
    exact h.objects obj
  case nodup =>
    rw [hObjects]
    exact h.nodup
  case ids =>
    rw [hObjects, hIds]
    exact h.ids
  case created =>
    intro obj k
    rw [hMem _ id, hObjects]
    exact h.created obj k
  case found =>
    intro k obj
    rw [hMem _ id, hMem _ id]
    exact h.found k obj
  case shutdown =>
    intro obj
    rw [hMem _ id, (hStage obj).2]
    exact h.shutdown obj

/-- The stage of an object changes in a way that its history does not show. -/
theorem stage_quiet {obj : Nat} {stage : Stage}
    (hStage : s'.stage = Function.update s.stage obj stage)
    (hPublished : stage.published ↔ (s.stage obj).published)
    (hClosed : stage = .closed ↔ s.stage obj = .closed) (other : Nat) :
    ((s'.stage other).published ↔ (s.stage other).published) ∧
      (s'.stage other = .closed ↔ s.stage other = .closed) := by
  rw [hStage]
  by_cases hEq : other = obj
  · subst hEq
    rw [Function.update_self]
    exact ⟨hPublished, hClosed⟩
  · rw [Function.update_of_ne hEq]
    exact ⟨Iff.rfl, Iff.rfl⟩

/-- An object gets its id. -/
theorem History.taken (h : History trace s) (hUnborn : s.stage s.objectsCount = .unborn)
    (hCount : s'.objectsCount = s.objectsCount + 1)
    (hStage : s'.stage = Function.update s.stage s.objectsCount .creating) :
    History (trace ++ [.create s.objectsCount]) s' := by
  have hSame := stage_quiet hStage (by simp [hUnborn, Stage.published]) (by simp [hUnborn])
  constructor
  case creates => simp [ShmLife.creates, hCount, ← h.creates]
  case create =>
    intro obj
    simp only [List.mem_append, h.create, List.mem_singleton, Event.create.injEq, hCount]
    omega
  case objects =>
    intro obj
    rw [(hSame obj).1]
    simpa [createdObjects] using h.objects obj
  case nodup => simpa [createdObjects] using h.nodup
  case ids => simpa [createdObjects, createdIds] using h.ids
  case created =>
    intro obj id
    simpa [createdObjects] using h.created obj id
  case found =>
    intro id obj
    simpa using h.found id obj
  case shutdown =>
    intro obj
    rw [(hSame obj).2]
    simpa using h.shutdown obj

/-- `user_shm_create` returns an object. -/
theorem History.inserted (h : History trace s) {obj : Nat} (hCreating : s.stage obj = .creating)
    (hCount : s'.objectsCount = s.objectsCount)
    (hStage : s'.stage = Function.update s.stage obj .owned) :
    History (trace ++ [.created obj (idOf obj)]) s' := by
  have hObjects : createdObjects (trace ++ [.created obj (idOf obj)]) =
      createdObjects trace ++ [obj] := by
    simp [createdObjects]
  have hNew : obj ∉ createdObjects trace := by simp [h.objects, hCreating, Stage.published]
  constructor
  case creates => simpa [ShmLife.creates, hCount] using h.creates
  case create =>
    intro other
    simpa [hCount] using h.create other
  case objects =>
    intro other
    rw [hObjects, hStage, List.mem_append, h.objects, List.mem_singleton]
    by_cases hEq : other = obj
    · simp [hEq, Stage.published]
    · simp [hEq]
  case nodup =>
    rw [hObjects, List.nodup_append_comm]
    exact List.nodup_cons.mpr ⟨hNew, h.nodup⟩
  case ids =>
    rw [hObjects, List.map_append, ← h.ids]
    simp [createdIds]
  case created =>
    intro other id
    rw [hObjects]
    simp only [List.mem_append, h.created, List.mem_singleton, Event.created.injEq]
    constructor
    · rintro (⟨hMem, hId⟩ | ⟨rfl, hId⟩)
      · exact ⟨.inl hMem, hId⟩
      · exact ⟨.inr rfl, hId⟩
    · rintro ⟨hMem | rfl, hId⟩
      · exact .inl ⟨hMem, hId⟩
      · exact .inr ⟨rfl, hId⟩
  case found =>
    intro id other hFound
    have hOld : .found id other ∈ trace := by simpa using hFound
    exact List.mem_append_left _ (h.found id other hOld)
  case shutdown =>
    intro other
    rw [hStage]
    by_cases hEq : other = obj
    · simp [hEq, h.shutdown, hCreating]
    · simp [hEq, h.shutdown]

/-- `user_shm_shutdown` returns. -/
theorem History.closed (h : History trace s) {obj : Nat} (hRemoved : s.stage obj = .removed)
    (hCount : s'.objectsCount = s.objectsCount)
    (hStage : s'.stage = Function.update s.stage obj .closed) :
    History (trace ++ [.shutdown obj]) s' := by
  constructor
  case creates => simpa [ShmLife.creates, hCount] using h.creates
  case create =>
    intro other
    simpa [hCount] using h.create other
  case objects =>
    intro other
    have hOld := h.objects other
    rw [hStage]
    by_cases hEq : other = obj
    · subst hEq
      simpa [createdObjects, hRemoved, Stage.published] using hOld
    · simpa [createdObjects, hEq] using hOld
  case nodup => simpa [createdObjects] using h.nodup
  case ids => simpa [createdObjects, createdIds] using h.ids
  case created =>
    intro other id
    simpa [createdObjects] using h.created other id
  case found =>
    intro id other
    simpa using h.found id other
  case shutdown =>
    intro other
    rw [hStage]
    by_cases hEq : other = obj
    · simp [hEq]
    · simp [hEq, h.shutdown]

/-- `user_shm_find_by_id` returns an object. -/
theorem History.borrowed (h : History trace s) {obj : Nat} (hListed : (s.stage obj).listed)
    (hCount : s'.objectsCount = s.objectsCount) (hStage : s'.stage = s.stage) :
    History (trace ++ [.found (idOf obj) obj]) s' := by
  have hMem : obj ∈ createdObjects trace := by
    rw [h.objects]
    revert hListed
    cases s.stage obj <;> simp [Stage.listed, Stage.published]
  constructor
  case creates => simpa [ShmLife.creates, hCount] using h.creates
  case create =>
    intro other
    simpa [hCount] using h.create other
  case objects =>
    intro other
    simpa [createdObjects, hStage] using h.objects other
  case nodup => simpa [createdObjects] using h.nodup
  case ids => simpa [createdObjects, createdIds] using h.ids
  case created =>
    intro other id
    simpa [createdObjects] using h.created other id
  case found =>
    intro id other hFound
    apply List.mem_append_left
    rcases List.mem_append.mp hFound with hOld | hNew
    · exact h.found id other hOld
    · obtain ⟨rfl, rfl⟩ : id = idOf obj ∧ other = obj := by simpa using hNew
      exact (h.created other (idOf other)).mpr ⟨hMem, rfl⟩
  case shutdown =>
    intro other
    simpa [hStage] using h.shutdown other

theorem History.step (h : History trace s) (hInv : Invariant s) {event : Event}
    (hStep : Step s event s') : History (trace ++ [event]) s' := by
  cases hStep with
  | create =>
      exact h.taken (congrArg View.stage (hInv.objects.fresh s.objectsCount (Nat.le_refl _))) rfl rfl
  | @insert op obj shm hRun hShm =>
      have hStage : s.stage obj = .creating :=
        hInv.exclusive.stage op obj .creating (by simp [custody, hRun, Running.custody])
      rw [hInv.objects.keyOf hShm]
      exact h.inserted hStage rfl rfl
  | @dropLastOwner obj shm hRef hShm hLast =>
      have hOwned := (hInv.objects.owned hRef hShm).1
      exact h.quiet trivial rfl
        (stage_quiet rfl (by simp [hOwned, Stage.published]) (by simp [hOwned]))
  | @remove op obj shm hRun hShm =>
      have hStage : s.stage obj = .closing :=
        hInv.exclusive.stage op obj .closing (by simp [custody, hRun, Running.custody])
      exact h.quiet trivial rfl
        (stage_quiet rfl (by simp [hStage, Stage.published]) (by simp [hStage]))
  | @release op obj shm hRun hShm =>
      have hStage : s.stage obj = .removed :=
        hInv.exclusive.stage op obj .removed (by simp [custody, hRun, Running.custody])
      exact h.closed hStage (memRefDrop_counts s obj shm).1 (stage_release s op obj shm)
  | @dropRef obj shm hRef hShm =>
      exact h.quiet trivial (memRefDrop_counts s obj shm).1
        fun other => by simp [State.setHandles, memRefDrop_frame]
  | @borrowFound op obj id shm hRun hShm =>
      obtain ⟨hListed, rfl⟩ := hInv.exclusive.found op id obj hRun
      exact h.borrowed hListed rfl rfl
  | @finish op obj shm hRun hShm =>
      exact h.quiet trivial (memRefDrop_counts s obj shm).1
        fun other => by simp [State.setRunning, memRefDrop_frame]
  | outOfMemory | insertLock | borrowOwner | dropOwner | removeLock | createRef | borrowRef | find
  | findLock | missed | search => exact h.quiet trivial rfl fun other => ⟨Iff.rfl, Iff.rfl⟩

theorem History.run (run : system.Execution trace s) : History trace s := by
  apply run.invariant
  · rintro _ rfl
    constructor <;>
      simp [ShmLife.creates, createdObjects, createdIds, ShmLife.initial, Stage.published]
  · intro trace s event s' hRun h hStep
    exact h.step (Invariant.run hRun) hStep

theorem idOf_injective {obj other : Nat} (hObj : obj < 2 ^ 64) (hOther : other < 2 ^ 64)
    (hId : idOf obj = idOf other) : obj = other := by
  have hNat := congrArg UInt64.toNat hId
  simp only [idOf, UInt64.toNat_ofNat'] at hNat
  omega

theorem History.born (h : History trace s) {obj : Nat} (hInv : Invariant s)
    (hMem : obj ∈ createdObjects trace) : obj < s.objectsCount := by
  by_contra hLate
  have hFresh : s.stage obj = .unborn :=
    congrArg View.stage (hInv.objects.fresh obj (Nat.le_of_not_lt hLate))
  have hStage := (h.objects obj).mp hMem
  simp [hFresh, Stage.published] at hStage

/-- Ids repeat only after the counter has wrapped. -/
theorem History.distinct (h : History trace s) (hInv : Invariant s)
    (hFew : ShmLife.creates trace ≤ 2 ^ 64) : (createdIds trace).Nodup := by
  rw [h.ids]
  apply List.Nodup.map_on _ h.nodup
  intro obj hObj other hOther hId
  rw [h.creates] at hFew
  exact idOf_injective (Nat.lt_of_lt_of_le (h.born hInv hObj) hFew)
    (Nat.lt_of_lt_of_le (h.born hInv hOther) hFew) hId

/-- The object that a function works on. -/
def Running.object : Running → Option Nat
  | .creating obj | .inserting obj | .shuttingDown obj | .removing obj | .releasing obj
  | .found _ obj | .accessing obj => some obj
  | .finding _ | .searching _ => none

/-- Nobody refers to an object without memory. -/
theorem Objects.gone (h : Objects s) {obj : Nat} (hGone : s.objects obj = none) :
    s.owners obj = 0 ∧ s.handles obj = 0 ∧ accessing s obj = ∅ := by
  by_cases hBorn : obj < s.objectsCount
  · have hCounted := h.counted obj hBorn
    obtain ⟨-, hClosed, hHandles, hAccessing⟩ := hCounted.freed hGone
    have hOwners : ¬ 0 < s.owners obj := by
      intro hPos
      cases hClosed.symm.trans (hCounted.owners.mp hPos)
    exact ⟨Nat.eq_zero_of_not_pos hOwners, hHandles, hAccessing⟩
  · have hFresh := h.fresh obj (Nat.le_of_not_lt hBorn)
    exact ⟨congrArg View.owners hFresh, congrArg View.handles hFresh,
      congrArg View.accessing hFresh⟩

/-- The memory of an object is there as long as somebody needs it. -/
theorem Objects.kept (h : Objects s) {obj : Nat} (hBorn : obj < s.objectsCount) :
    s.objects obj ≠ none ↔
      s.stage obj ≠ .closed ∨ 0 < s.handles obj ∨ (accessing s obj).Nonempty := by
  constructor
  · intro hThere
    obtain ⟨shm, hShm⟩ := Option.ne_none_iff_exists'.mp hThere
    obtain ⟨hPos, hCount⟩ := h.refcount hShm
    by_cases hClosed : s.stage obj = .closed
    · rw [if_pos hClosed] at hCount
      by_cases hHandles : 0 < s.handles obj
      · exact .inr (.inl hHandles)
      · refine .inr (.inr (Set.nonempty_of_ncard_ne_zero ?_))
        omega
    · exact .inl hClosed
  · rintro hNeed hGone
    obtain ⟨-, hHandles, hAccessing⟩ := h.gone hGone
    have hClosed : s.stage obj = .closed := ((h.counted obj hBorn).freed hGone).2.1
    simp [hClosed, hHandles, hAccessing] at hNeed

theorem Running.of_custody {r : Running} {obj : Nat} {stage : Stage}
    (h : r.custody = some (obj, stage)) :
    r.object = some obj ∧ stage ≠ .unborn ∧ stage ≠ .closed := by
  cases r <;> simp_all [Running.custody, Running.object] <;> simp [← h.2]

theorem Running.of_object {r : Running} {obj : Nat} (hFree : r.custody = none)
    (h : r.object = some obj) : (∃ id, r = .found id obj) ∨ r = .accessing obj := by
  cases r <;> simp_all [Running.custody, Running.object]

/-- The memory that a function works on is there. -/
theorem Invariant.allocated {op obj : Nat} {r : Running} (h : Invariant s)
    (hRun : s.running op = some r) (hObject : r.object = some obj) : s.objects obj ≠ none := by
  intro hGone
  cases hCustody : r.custody with
  | some care =>
      obtain ⟨other, stage⟩ := care
      obtain ⟨hSame, hBorn, hOpen⟩ := Running.of_custody hCustody
      obtain rfl : other = obj := Option.some.inj (hSame.symm.trans hObject)
      have hStage : s.stage other = stage :=
        h.exclusive.stage op other stage (by simp [custody, hRun, hCustody])
      obtain ⟨shm, hShm⟩ := h.objects.alive (hStage ▸ hBorn) (hStage ▸ hOpen)
      cases hGone.symm.trans hShm
  | none =>
      rcases Running.of_object hCustody hObject with ⟨id, rfl⟩ | rfl
      · obtain ⟨shm, hShm⟩ := h.objects.present (h.exclusive.found op id obj hRun).1
        cases hGone.symm.trans hShm
      · have hMem : op ∈ accessing s obj := hRun
        rw [(h.objects.gone hGone).2.2] at hMem
        exact hMem

/-- An id is forgotten with its object. -/
theorem forgotten (run : system.Execution trace s) (hFew : creates trace ≤ 2 ^ 64) (obj : Nat) :
    trace.Pairwise fun earlier later =>
      earlier = .shutdown obj → ∀ other, later ≠ .found (idOf obj) other := by
  revert hFew
  apply run.invariant (P := fun trace _ => creates trace ≤ 2 ^ 64 → trace.Pairwise fun earlier later =>
      earlier = .shutdown obj → ∀ other, later ≠ .found (idOf obj) other)
  · intro s _ _
    exact .nil
  · intro trace s event s' hRun ih hStep hFew
    have hInv := Invariant.run hRun
    have hHistory := History.run hRun
    have hFew' : creates trace ≤ 2 ^ 64 := by
      refine Nat.le_trans ?_ hFew
      simp [creates]
    rw [List.pairwise_append]
    refine ⟨ih hFew', List.pairwise_singleton _ _, ?_⟩
    rintro earlier hEarlier later hLater rfl other rfl
    obtain rfl := List.mem_singleton.mp hLater
    have hClosed := (hHistory.shutdown obj).mp hEarlier
    cases hStep with
    | @borrowFound op _ _ shm hRunning hShm =>
        obtain ⟨hListed, hId⟩ := hInv.exclusive.found op _ other hRunning
        have hBorn : obj < s.objectsCount :=
          hHistory.born hInv ((hHistory.objects obj).mpr (by simp [hClosed, Stage.published]))
        rw [hHistory.creates] at hFew'
        have hSame : obj = other :=
          idOf_injective (by omega) (Nat.lt_of_lt_of_le (hInv.objects.born hShm) hFew') hId
        rw [← hSame, hClosed] at hListed
        exact hListed

end Runs

/-- The promises of the shared memory objects, in the order in which their clients need
them. Ids repeat only when `user_shm_last_allocated_id` wraps. `kept` speaks about the
owner as long as `user_shm_shutdown` has not returned. -/
structure Lifecycle (trace : List Event) (s : State) : Prop where
  distinct : creates trace ≤ 2 ^ 64 → (createdIds trace).Nodup
  found : ∀ id obj, .found id obj ∈ trace → .created obj id ∈ trace
  allocated : ∀ op r obj, s.running op = some r → r.object = some obj → s.objects obj ≠ none
  listed : ∀ obj ∈ s.userShmIntmap.all, s.objects obj ≠ none
  forgotten : creates trace ≤ 2 ^ 64 → ∀ obj id, .created obj id ∈ trace →
    trace.Pairwise fun earlier later =>
      earlier = .shutdown obj → ∀ other, later ≠ .found id other
  owned : ∀ obj, 0 < s.owners obj → .shutdown obj ∉ trace
  kept : ∀ obj, .create obj ∈ trace → (s.objects obj ≠ none ↔
    .shutdown obj ∉ trace ∨ 0 < s.handles obj ∨ (accessing s obj).Nonempty)
  freed : ∀ obj, .create obj ∈ trace → s.frees obj = if s.objects obj = none then 1 else 0

/-- Whatever the cores do, in whatever order they take the locks, ids lead only to the
object that was created with them, and memory is freed once, when nobody is left. -/
theorem shm_lifecycle {trace : List Event} {s : State} (run : system.Execution trace s) :
    Lifecycle trace s := by
  have hInv := Invariant.run run
  have hHistory := History.run run
  constructor
  case distinct => exact hHistory.distinct hInv
  case found => exact hHistory.found
  case allocated =>
    intro op r obj hRun hObject
    exact hInv.allocated hRun hObject
  case listed =>
    intro obj hMem
    obtain ⟨shm, hShm⟩ := hInv.objects.present ((hInv.listed.mem obj).mp hMem)
    simp [hShm]
  case forgotten =>
    intro hFew obj id hCreated
    rw [((hHistory.created obj id).mp hCreated).2]
    exact ShmLife.forgotten run hFew obj
  case owned =>
    intro obj hOwners hShutdown
    have hClosed := (hHistory.shutdown obj).mp hShutdown
    have hBorn : obj < s.objectsCount :=
      hHistory.born hInv ((hHistory.objects obj).mpr (by simp [hClosed, Stage.published]))
    cases hClosed.symm.trans ((hInv.objects.counted obj hBorn).owners.mp hOwners)
  case kept =>
    intro obj hCreate
    rw [hHistory.shutdown]
    exact hInv.objects.kept ((hHistory.create obj).mp hCreate)
  case freed =>
    intro obj hCreate
    have hCounted := hInv.objects.counted obj ((hHistory.create obj).mp hCreate)
    cases hShm : s.objects obj with
    | none => exact (hCounted.freed hShm).1
    | some shm => exact (hCounted.ref shm hShm).2.1

/-- An access by id outlives the owner. -/
theorem shm_lifecycle_access_outlives_owner : ∃ trace s,
    Event.shutdown 0 ∈ trace ∧ .found 0 0 ∈ trace ∧ s.running 1 = some (.accessing 0) ∧
      Lifecycle trace s := by
  have run : ∃ trace s, system.Execution trace s ∧
      trace = [.create 0, .run 0, .created 0 0, .find 0, .run 1, .run 1, .found 0 0, .dropOwner 0,
        .run 2, .run 2, .shutdown 0] ∧ s.running 1 = some (.accessing 0) := by
    refine ⟨_, _, .step (.step (.step (.step (.step (.step (.step (.step (.step (.step (.step
      (.start rfl) .create) (@Step.insertLock _ 0 0 _ rfl rfl rfl))
      (@Step.insert _ 0 0 _ rfl rfl)) (.find 0)) (@Step.findLock _ 1 0 rfl rfl))
      (@Step.search _ 1 0 0 rfl rfl)) (@Step.borrowFound _ 1 0 0 _ rfl rfl))
      (@Step.dropLastOwner _ 0 _ (by decide) rfl rfl)) (@Step.removeLock _ 2 0 _ rfl rfl rfl))
      (@Step.remove _ 2 0 _ rfl rfl)) (@Step.release _ 2 0 _ rfl rfl), rfl, rfl⟩
  obtain ⟨trace, s, hRun, hTrace, hAccess⟩ := run
  exact ⟨trace, s, by simp [hTrace], by simp [hTrace], hAccess, shm_lifecycle hRun⟩

end Ricerca.ShmLife
