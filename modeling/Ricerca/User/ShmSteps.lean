import Ricerca.User.ShmReferences

/-! The invariant of shared memory objects: their references, who has them in its care,
and that `user_shm_intmap` holds the objects whose stage says so. -/
namespace Ricerca.ShmLife

open Ricerca.Foundation Ricerca.Lib

/-- `user_shm_intmap` holds the objects whose stage says so, under their ids. -/
structure Listed (s : State) : Prop where
  buckets : s.userShmIntmap.bucketsCount = userShmIntmapBuckets
  hashed : s.userShmIntmap.Hashed idOf
  nodup : s.userShmIntmap.all.Nodup
  mem : ∀ obj, obj ∈ s.userShmIntmap.all ↔ (s.stage obj).listed

structure Invariant (s : State) : Prop where
  objects : Objects s
  exclusive : Exclusive s
  listed : Listed s

section Facts

variable {s s' : State} {op obj : Nat} {shm : UserShmOwner} {stage : Stage} {i : Nat}

theorem Exclusive.alone (h : Exclusive s) (hHas : custody s op = some (obj, stage)) :
    ∀ op' stage', op' ≠ op → custody s op' ≠ some (obj, stage') := by
  intro op' stage' hNe hOther
  exact hNe (h.once op' op obj stage' stage hOther hHas)

theorem Exclusive.lockAlone (h : Exclusive s) (hHas : lock s op = some i) :
    ∀ op', op' ≠ op → lock s op' ≠ some i := by
  intro op' hNe hOther
  exact hNe (h.lockedOnce op' op i hOther hHas)

theorem Exclusive.unlocked (h : Exclusive s) (hFree : s.userShmSpinlocks i = false) :
    ∀ op', lock s op' ≠ some i := by
  intro op' hHas
  rw [h.locked op' i hHas] at hFree
  cases hFree

/-- The stage of an object changes while nobody else has the object in its care. -/
theorem Exclusive.stage_update (h : Exclusive s)
    (hStage : s'.stage = Function.update s.stage obj stage)
    (hAlone : ∀ op' stage', op' ≠ op → custody s op' ≠ some (obj, stage')) :
    ∀ op' other stage', op' ≠ op → custody s op' = some (other, stage') →
      s'.stage other = stage' := by
  intro op' other stage' hNe hHas
  have hOther : other ≠ obj := by
    rintro rfl
    exact hAlone op' stage' hNe hHas
  rw [hStage, Function.update_of_ne hOther]
  exact h.stage op' other stage' hHas

/-- Others keep their locks while one function gives up its own. -/
theorem Exclusive.unlock (h : Exclusive s) (hHas : lock s op = some i)
    (hLocks : s'.userShmSpinlocks = Function.update s.userShmSpinlocks i false) :
    ∀ op' j, op' ≠ op → lock s op' = some j → s'.userShmSpinlocks j = true := by
  intro op' j hNe hOther
  have hDiffer : j ≠ i := by
    rintro rfl
    exact h.lockAlone hHas op' hNe hOther
  rw [hLocks, Function.update_of_ne hDiffer]
  exact h.locked op' j hOther

/-- A function takes a lock that is free. -/
theorem Exclusive.enter (h : Exclusive s) {r : Running} (hFree : s.userShmSpinlocks i = false)
    (hCustody : r.custody = custody s op) (hLock : r.lock = some i)
    (hFound : ∀ id obj, r ≠ .found id obj) (hOld : op < s.opsCount) :
    Exclusive ((s.setSpinlock i true).setRunning op (some r)) := by
  have hRunning : ((s.setSpinlock i true).setRunning op (some r)).running =
      Function.update s.running op (some r) := rfl
  apply h.update hRunning
  · intro op' hLate
    exact ⟨(Nat.lt_of_lt_of_le hOld hLate).ne', hLate⟩
  · intro op' obj stage _ hHas
    exact h.stage op' obj stage hHas
  · intro obj stage hHas
    have hMine : custody s op = some (obj, stage) := hCustody.symm.trans hHas
    exact ⟨h.stage op obj stage hMine, h.alone hMine⟩
  · intro op' j _ hHas
    by_cases hEq : j = i
    · simp [State.setSpinlock, State.setRunning, hEq]
    · simp [State.setSpinlock, State.setRunning, hEq, h.locked op' j hHas]
  · intro j hMine
    have hEq : j = i := Option.some.inj (hMine.symm.trans hLock)
    subst hEq
    refine ⟨by simp [State.setSpinlock, State.setRunning], ?_⟩
    intro op' _
    exact h.unlocked hFree op'
  · intro op' id obj _ hRun
    exact (h.found op' id obj hRun).1
  · rintro id obj ⟨⟩
    exact (hFound id obj rfl).elim

/-- Only the references change. -/
theorem Exclusive.same (h : Exclusive s) (hRunning : s'.running = s.running)
    (hOps : s'.opsCount = s.opsCount) (hLocks : s'.userShmSpinlocks = s.userShmSpinlocks)
    (hStage : s'.stage = s.stage) : Exclusive s' := by
  have hCustody : custody s' = custody s := by
    funext op
    simp [custody, hRunning]
  have hLock : lock s' = lock s := by
    funext op
    simp [lock, hRunning]
  constructor
  case ids => rw [hRunning, hOps]; exact h.ids
  case stage => rw [hCustody, hStage]; exact h.stage
  case once => rw [hCustody]; exact h.once
  case locked => rw [hLock, hLocks]; exact h.locked
  case lockedOnce => rw [hLock]; exact h.lockedOnce
  case found => rw [hRunning, hStage]; exact h.found

theorem Exclusive.started (h : Exclusive s) (hRun : s.running op ≠ none) : op < s.opsCount := by
  by_contra hLate
  exact hRun (h.ids op (Nat.le_of_not_lt hLate))

/-- The map does not change, and neither does what is in it. -/
theorem Listed.same (h : Listed s) (hMap : s'.userShmIntmap = s.userShmIntmap)
    (hStage : ∀ other, (s'.stage other).listed ↔ (s.stage other).listed) : Listed s' := by
  constructor
  case buckets => rw [hMap]; exact h.buckets
  case hashed => rw [hMap]; exact h.hashed
  case nodup => rw [hMap]; exact h.nodup
  case mem =>
    intro other
    rw [hMap, hStage other]
    exact h.mem other

theorem Listed.pos (h : Listed s) : 0 < s.userShmIntmap.bucketsCount := by
  rw [h.buckets]
  decide

theorem Listed.insert (h : Listed s) (hOld : ¬ (s.stage obj).listed)
    (hMap : s'.userShmIntmap = intmapInsert s.userShmIntmap idOf obj)
    (hStage : s'.stage = Function.update s.stage obj .owned) : Listed s' := by
  have hPerm := all_insert h.pos idOf obj
  constructor
  case buckets =>
    rw [hMap]
    exact h.buckets
  case hashed =>
    rw [hMap]
    exact h.hashed.insert obj
  case nodup =>
    rw [hMap, hPerm.nodup_iff, List.nodup_cons, h.mem]
    exact ⟨hOld, h.nodup⟩
  case mem =>
    intro other
    rw [hMap, hPerm.mem_iff, List.mem_cons, h.mem, hStage]
    by_cases hEq : other = obj
    · simp [hEq, Stage.listed]
    · simp [hEq]

theorem Listed.remove (h : Listed s) (hOld : (s.stage obj).listed)
    (hMap : s'.userShmIntmap = intmapRemove s.userShmIntmap idOf obj)
    (hStage : s'.stage = Function.update s.stage obj .removed) : Listed s' := by
  have hMem : obj ∈ s.userShmIntmap.nodes (s.userShmIntmap.bucket (idOf obj)) := by
    obtain ⟨j, hj, hNode⟩ := mem_all.mp ((h.mem obj).mpr hOld)
    rwa [h.hashed j hj obj hNode]
  have hPerm := all_remove h.pos hMem
  have hNodup := List.nodup_cons.mp (hPerm.nodup_iff.mp h.nodup)
  constructor
  case buckets =>
    rw [hMap]
    exact h.buckets
  case hashed =>
    rw [hMap]
    exact h.hashed.remove obj
  case nodup =>
    rw [hMap]
    exact hNodup.2
  case mem =>
    intro other
    rw [hMap, hStage]
    by_cases hEq : other = obj
    · subst hEq
      simpa [Stage.listed] using hNodup.1
    · rw [Function.update_of_ne hEq, ← h.mem, hPerm.mem_iff, List.mem_cons]
      simp [hEq]

theorem Objects.keyOf (h : Objects s) (hShm : s.objects obj = some shm) : shm.key = idOf obj :=
  (h.counted obj (h.born hShm)).key shm hShm

theorem Objects.key_eq (h : Objects s) (hShm : s.objects obj = some shm) :
    s.key obj = idOf obj := by
  simp [State.key, hShm, h.keyOf hShm]

/-- The memory of the object a function works on, by the stage it is in. -/
theorem Objects.alive (h : Objects s) (hStage : s.stage obj ≠ .unborn)
    (hOpen : s.stage obj ≠ .closed) : ∃ shm, s.objects obj = some shm := by
  have hBorn : obj < s.objectsCount := by
    by_contra hLate
    exact hStage (congrArg View.stage (h.fresh obj (Nat.le_of_not_lt hLate)))
  cases hShm : s.objects obj with
  | some shm => exact ⟨shm, rfl⟩
  | none => exact (hOpen ((h.counted obj hBorn).freed hShm).2.1).elim

/-- An object in the map has its memory. -/
theorem Objects.present (h : Objects s) (hListed : (s.stage obj).listed) :
    ∃ shm, s.objects obj = some shm := by
  apply h.alive
  · intro hStage
    simp [hStage, Stage.listed] at hListed
  · intro hStage
    simp [hStage, Stage.listed] at hListed

end Facts

section Steps

variable {s s' : State} {op obj : Nat} {shm : UserShmOwner} {r : Option Running}

@[simp] theorem setObject_running (s : State) (obj : Nat) (shm : UserShmOwner) :
    (s.setObject obj shm).running = s.running := rfl

@[simp] theorem setOwners_running (s : State) (obj n : Nat) :
    (s.setOwners obj n).running = s.running := rfl

@[simp] theorem setHandles_running (s : State) (obj n : Nat) :
    (s.setHandles obj n).running = s.running := rfl

@[simp] theorem setStage_running (s : State) (obj : Nat) (stage : Stage) :
    (s.setStage obj stage).running = s.running := rfl

@[simp] theorem setSpinlock_running (s : State) (i : Nat) (taken : Bool) :
    (s.setSpinlock i taken).running = s.running := rfl

@[simp] theorem setIntmap_running (s : State) (map : Intmap Nat) :
    (s.setIntmap map).running = s.running := rfl

@[simp] theorem memRefDrop_running (s : State) (obj : Nat) (shm : UserShmOwner) :
    (s.memRefDrop obj shm).running = s.running := by
  unfold State.memRefDrop
  split <;> rfl

theorem memRefDrop_counts (s : State) (obj : Nat) (shm : UserShmOwner) :
    (s.memRefDrop obj shm).objectsCount = s.objectsCount ∧
    (s.memRefDrop obj shm).userShmLastAllocatedId = s.userShmLastAllocatedId := by
  unfold State.memRefDrop
  split <;> exact ⟨rfl, rfl⟩

theorem memRefDrop_frame (s : State) (obj : Nat) (shm : UserShmOwner) :
    (s.memRefDrop obj shm).opsCount = s.opsCount ∧
    (s.memRefDrop obj shm).userShmSpinlocks = s.userShmSpinlocks ∧
    (s.memRefDrop obj shm).stage = s.stage ∧
    (s.memRefDrop obj shm).userShmIntmap = s.userShmIntmap := by
  unfold State.memRefDrop
  split <;> exact ⟨rfl, rfl, rfl, rfl⟩

theorem stage_release (s : State) (op obj : Nat) (shm : UserShmOwner) :
    (((s.memRefDrop obj shm).setStage obj .closed).setRunning op none).stage =
      Function.update s.stage obj .closed := by
  simp [State.setRunning, State.setStage, memRefDrop_frame]

@[simp] theorem view_setObject (s : State) (obj : Nat) (shm : UserShmOwner) :
    view (s.setObject obj shm) obj = { view s obj with shm := some shm } := by
  simp [view, State.setObject, accessing]

@[simp] theorem view_setOwners (s : State) (obj n : Nat) :
    view (s.setOwners obj n) obj = { view s obj with owners := n } := by
  simp [view, State.setOwners, accessing]

@[simp] theorem view_setHandles (s : State) (obj n : Nat) :
    view (s.setHandles obj n) obj = { view s obj with handles := n } := by
  simp [view, State.setHandles, accessing]

@[simp] theorem view_setStage (s : State) (obj : Nat) (stage : Stage) :
    view (s.setStage obj stage) obj = { view s obj with stage := stage } := by
  simp [view, State.setStage, accessing]

@[simp] theorem view_setSpinlock (s : State) (i : Nat) (taken : Bool) :
    view (s.setSpinlock i taken) = view s := rfl

@[simp] theorem view_setIntmap (s : State) (map : Intmap Nat) :
    view (s.setIntmap map) = view s := rfl

@[simp] theorem view_memRefDrop (s : State) (obj : Nat) (shm : UserShmOwner) :
    view (s.memRefDrop obj shm) obj = (view s obj).drop shm := by
  unfold State.memRefDrop View.drop
  split
  · simp [view, accessing]
  · simp

section Others

variable {other : Nat} (hNe : other ≠ obj)

include hNe

@[simp] theorem view_setObject_of_ne : view (s.setObject obj shm) other = view s other := by
  simp [view, State.setObject, accessing, hNe]

@[simp] theorem view_setOwners_of_ne (n : Nat) :
    view (s.setOwners obj n) other = view s other := by
  simp [view, State.setOwners, accessing, hNe]

@[simp] theorem view_setHandles_of_ne (n : Nat) :
    view (s.setHandles obj n) other = view s other := by
  simp [view, State.setHandles, accessing, hNe]

@[simp] theorem view_setStage_of_ne (stage : Stage) :
    view (s.setStage obj stage) other = view s other := by
  simp [view, State.setStage, accessing, hNe]

@[simp] theorem view_memRefDrop_of_ne : view (s.memRefDrop obj shm) other = view s other := by
  unfold State.memRefDrop
  split
  · simp [view, accessing, hNe]
  · exact view_setObject_of_ne hNe

end Others

theorem view_running (s : State) (op : Nat) (r : Option Running) (other : Nat) :
    view (s.setRunning op r) other =
      { view s other with accessing := accessing (s.setRunning op r) other } := rfl

/-- A function goes on, and does not access an object before or after that. -/
theorem view_setRunning (hOld : ∀ obj, s.running op ≠ some (.accessing obj))
    (hNew : ∀ obj, r ≠ some (.accessing obj)) : view (s.setRunning op r) = view s := by
  funext other
  have hSame : accessing (s.setRunning op r) other = accessing s other :=
    accessing_update rfl (hOld other) (hNew other)
  simp only [view, hSame]
  rfl

/-- The view of an object once a function that did not access it has gone on. -/
theorem view_start {r : Running} (hNext : s.running s.opsCount = none)
    (hNew : ∀ obj, r ≠ .accessing obj) : view (s.start r) = view s := by
  have hOld : ∀ obj, s.running s.opsCount ≠ some (.accessing obj) := by simp [hNext]
  exact view_setRunning (r := some r) hOld (by simpa using hNew)

/-- While there are references to the owner object, its counter counts just them. -/
theorem Objects.owned (h : Objects s) (hRef : 0 < s.owners obj)
    (hShm : s.objects obj = some shm) :
    s.stage obj = .owned ∧ shm.shutdownRefcount = s.owners obj := by
  have hCounted := h.counted obj (h.born hShm)
  have hOwned : s.stage obj = .owned := hCounted.owners.mp hRef
  have hShutdown : shm.shutdownRefcount =
      s.owners obj + if s.stage obj = .creating then 1 else 0 := hCounted.shutdown shm hShm
  rw [hOwned] at hShutdown
  exact ⟨hOwned, hShutdown⟩

/-- What the counter of the `user_shm_ref` counts. -/
theorem Objects.refcount (h : Objects s) (hShm : s.objects obj = some shm) :
    0 < shm.refRefcount ∧ shm.refRefcount = (if s.stage obj = .closed then 0 else 1) +
      s.handles obj + (accessing s obj).ncard := by
  have hRef := (h.counted obj (h.born hShm)).ref shm hShm
  exact ⟨hRef.1, hRef.2.2⟩

/-- A new holder of a `user_shm_ref`. -/
theorem Objects.borrowRef (h : Objects s) (hShm : s.objects obj = some shm) :
    Objects ((s.memRefBorrow obj shm).setHandles obj (s.handles obj + 1)) := by
  have hCounted := h.counted obj (h.born hShm)
  refine h.update (h.born hShm) rfl rfl ?_ ?_
  · intro other hNe
    simp [State.memRefBorrow, hNe]
  · simp only [view_setHandles, State.memRefBorrow, view_setObject]
    refine hCounted.borrow hShm hCounted.finite ?_
    simp only [view]
    omega

/-- The holder of a `user_shm_ref` drops it. -/
theorem Objects.dropRef (h : Objects s) (hShm : s.objects obj = some shm) (handles : Nat)
    (ops : Set Nat) (stage : Stage)
    (hCounts : s'.objectsCount = s.objectsCount ∧
      s'.userShmLastAllocatedId = s.userShmLastAllocatedId)
    (hOthers : ∀ other, other ≠ obj → view s' other = view s other)
    (hOwn : view s' obj =
      { (view s obj).drop shm with handles := handles, accessing := ops, stage := stage })
    (hFinite : ops.Finite)
    (hStage : stage = s.stage obj ∨ s.stage obj = .removed ∧ stage = .closed)
    (hCount : (if stage = .closed then 0 else 1) + handles + ops.ncard + 1 =
      (if s.stage obj = .closed then 0 else 1) + s.handles obj + (accessing s obj).ncard) :
    Objects s' := by
  apply h.update (h.born hShm) hCounts.1 hCounts.2 hOthers
  rw [hOwn]
  refine (h.counted obj (h.born hShm)).dropped hShm hFinite hStage ?_
  rw [hCount]
  exact (h.refcount hShm).2.symm

theorem Objects.borrowFound (h : Objects s) {id : UInt64}
    (hRun : s.running op = some (.found id obj)) (hShm : s.objects obj = some shm) :
    Objects (((s.memRefBorrow obj shm).setSpinlock (userShmSpinlock id) false).setRunning op
      (some (.accessing obj))) := by
  have hCounted := h.counted obj (h.born hShm)
  have hNew : op ∉ accessing s obj := by simp [accessing, hRun]
  refine h.update (h.born hShm) rfl rfl ?_ ?_
  · intro other hNe
    rw [view_running, accessing_update (s := s) rfl (by simp [hRun]) (by simp [hNe.symm])]
    simp only [State.memRefBorrow, view_setSpinlock, view_setObject_of_ne hNe]
    rfl
  · rw [view_running, accessing_insert (s := s) rfl rfl]
    simp only [State.memRefBorrow, view_setSpinlock, view_setObject]
    refine hCounted.borrow hShm (hCounted.finite.insert op) ?_
    have hMore := Set.ncard_insert_of_notMem hNew hCounted.finite
    simp only [view] at hMore ⊢
    omega

theorem Objects.create (h : Objects s) (hNext : s.running s.opsCount = none) :
    Objects (({ s.setObject s.objectsCount ⟨s.userShmLastAllocatedId, 1, 1⟩ with
        objectsCount := s.objectsCount + 1
        userShmLastAllocatedId := s.userShmLastAllocatedId + 1 }.setStage s.objectsCount
      .creating).start (.creating s.objectsCount)) := by
  have hOthers : ∀ other, other ≠ s.objectsCount →
      view (({ s.setObject s.objectsCount ⟨s.userShmLastAllocatedId, 1, 1⟩ with
          objectsCount := s.objectsCount + 1
          userShmLastAllocatedId := s.userShmLastAllocatedId + 1 }.setStage s.objectsCount
        .creating).start (.creating s.objectsCount)) other = view s other := by
    intro other hNe
    rw [view_start (by exact hNext) (by simp), view_setStage_of_ne hNe]
    exact view_setObject_of_ne hNe
  have hFresh := h.fresh s.objectsCount (Nat.le_refl _)
  constructor
  · change s.userShmLastAllocatedId + 1 = idOf (s.objectsCount + 1)
    rw [h.last, idOf, idOf, UInt64.ofNat_add]
    rfl
  · intro obj hBorn
    by_cases hEq : obj = s.objectsCount
    · subst hEq
      rw [view_start (by exact hNext) (by simp), view_setStage]
      have hOwn : view { s.setObject s.objectsCount ⟨s.userShmLastAllocatedId, 1, 1⟩ with
          objectsCount := s.objectsCount + 1
          userShmLastAllocatedId := s.userShmLastAllocatedId + 1 } s.objectsCount =
          { View.fresh with shm := some ⟨s.userShmLastAllocatedId, 1, 1⟩ } := by
        rw [← hFresh]
        exact view_setObject s s.objectsCount ⟨s.userShmLastAllocatedId, 1, 1⟩
      rw [hOwn]
      constructor <;> simp [View.fresh, h.last]
    · rw [hOthers obj hEq]
      exact h.counted obj (Nat.lt_of_le_of_ne (Nat.le_of_lt_succ hBorn) hEq)
  · intro other hLate
    have hLater : s.objectsCount < other := hLate
    rw [hOthers other hLater.ne']
    exact h.fresh other hLater.le

/-- What a step does to the objects. -/
theorem Objects.step (h : Objects s) (hExclusive : Exclusive s) {event : Event}
    (hStep : Step s event s') : Objects s' := by
  have hNext : s.running s.opsCount = none := hExclusive.ids s.opsCount (Nat.le_refl _)
  cases hStep with
  | outOfMemory => exact h
  | create => exact h.create hNext
  | @insertLock op obj shm hRun hShm hFree =>
      refine h.same rfl rfl ?_
      rw [view_setRunning (by simp [hRun]) (by simp), view_setSpinlock]
  | @insert op obj shm hRun hShm =>
      have hStage : s.stage obj = .creating :=
        hExclusive.stage op obj .creating (by simp [custody, hRun, Running.custody])
      refine h.update (h.born hShm) rfl rfl ?_ ?_ <;>
        rw [view_setRunning (by simp [hRun]) (by simp)]
      · intro other hNe
        simp [hNe]
      · simp only [view_setStage, view_setOwners, view_setSpinlock, view_setIntmap]
        exact (h.counted obj (h.born hShm)).advance hShm (.inl ⟨hStage, rfl, rfl⟩)
  | @borrowOwner obj shm hRef hShm =>
      obtain ⟨hOwned, hShutdown⟩ := h.owned hRef hShm
      refine h.update (h.born hShm) rfl rfl ?_ ?_
      · intro other hNe
        simp [hNe]
      · simp only [view_setOwners, view_setObject]
        exact (h.counted obj (h.born hShm)).owner hShm hOwned (.inl ⟨hOwned, Nat.succ_pos _⟩)
          (by rw [hShutdown])
  | @dropOwner obj shm hRef hShm hMore =>
      obtain ⟨hOwned, hShutdown⟩ := h.owned hRef hShm
      refine h.update (h.born hShm) rfl rfl ?_ ?_
      · intro other hNe
        simp [hNe]
      · simp only [view_setOwners, view_setObject]
        exact (h.counted obj (h.born hShm)).owner hShm hOwned (.inl ⟨hOwned, by omega⟩)
          (by rw [hShutdown])
  | @dropLastOwner obj shm hRef hShm hLast =>
      obtain ⟨hOwned, hShutdown⟩ := h.owned hRef hShm
      refine h.update (h.born hShm) rfl rfl ?_ ?_ <;>
        rw [view_start (by exact hNext) (by simp)]
      · intro other hNe
        simp [hNe]
      · simp only [view_setStage, view_setOwners, view_setObject]
        exact (h.counted obj (h.born hShm)).owner hShm hOwned (.inr ⟨rfl, by omega⟩) (by omega)
  | @removeLock op obj shm hRun hShm hFree =>
      refine h.same rfl rfl ?_
      rw [view_setRunning (by simp [hRun]) (by simp), view_setSpinlock]
  | @remove op obj shm hRun hShm =>
      have hStage : s.stage obj = .closing :=
        hExclusive.stage op obj .closing (by simp [custody, hRun, Running.custody])
      refine h.update (h.born hShm) rfl rfl ?_ ?_ <;>
        rw [view_setRunning (by simp [hRun]) (by simp)]
      · intro other hNe
        simp [hNe]
      · simp only [view_setStage, view_setSpinlock, view_setIntmap]
        exact (h.counted obj (h.born hShm)).advance hShm (.inr ⟨hStage, rfl, rfl⟩)
  | @release op obj shm hRun hShm =>
      have hStage : s.stage obj = .removed :=
        hExclusive.stage op obj .removed (by simp [custody, hRun, Running.custody])
      refine h.dropRef hShm (view s obj).handles (view s obj).accessing .closed
        (memRefDrop_counts s obj shm) ?_ ?_ ?_ (.inr ⟨hStage, rfl⟩) ?_
      · intro other hNe
        rw [view_setRunning (by simp [hRun]) (by simp)]
        simp [hNe]
      · rw [view_setRunning (by simp [hRun]) (by simp)]
        simp
      · exact (h.counted obj (h.born hShm)).finite
      · simp only [hStage, view, if_true, reduceCtorEq, if_false]
        omega
  | createRef hRef hShm => exact h.borrowRef hShm
  | borrowRef hRef hShm => exact h.borrowRef hShm
  | @dropRef obj shm hRef hShm =>
      refine h.dropRef hShm (s.handles obj - 1) (view s obj).accessing (view s obj).stage
        (memRefDrop_counts s obj shm) ?_ ?_ ?_ (.inl rfl) ?_
      · intro other hNe
        simp [hNe]
      · simp
      · exact (h.counted obj (h.born hShm)).finite
      · change (if s.stage obj = .closed then 0 else 1) + (s.handles obj - 1) +
          (accessing s obj).ncard + 1 = _
        omega
  | find id =>
      refine h.same rfl rfl ?_
      rw [view_start hNext (by simp)]
  | @findLock op id hRun hFree =>
      refine h.same rfl rfl ?_
      rw [view_setRunning (by simp [hRun]) (by simp), view_setSpinlock]
  | @missed op id hRun hSearch =>
      refine h.same rfl rfl ?_
      rw [view_setRunning (by simp [hRun]) (by simp), view_setSpinlock]
  | @search op obj id hRun hSearch =>
      refine h.same rfl rfl ?_
      rw [view_setRunning (by simp [hRun]) (by simp)]
  | @borrowFound op obj id shm hRun hShm => exact h.borrowFound hRun hShm
  | @finish op obj shm hRun hShm =>
      have hFinite := (h.counted obj (h.born hShm)).finite
      have hMem : op ∈ accessing s obj := hRun
      have hRunning : ((s.memRefDrop obj shm).setRunning op none).running =
          Function.update s.running op none := by
        simp [State.setRunning]
      refine h.dropRef hShm (view s obj).handles (accessing s obj \ {op}) (view s obj).stage
        (memRefDrop_counts s obj shm) ?_ ?_ ?_ (.inl rfl) ?_
      · intro other hNe
        rw [view_running, accessing_update hRunning (by simp [hRun, hNe.symm]) (by simp),
          view_memRefDrop_of_ne hNe]
        rfl
      · rw [view_running, view_memRefDrop, accessing_erase hRunning]
        simp
      · exact hFinite.sdiff
      · have hLess := Set.ncard_sdiff_singleton_add_one hMem hFinite
        change (if s.stage obj = .closed then 0 else 1) + s.handles obj +
          (accessing s obj \ {op}).ncard + 1 = _
        omega

/-- A function that has no object in its care and holds no lock begins. -/
theorem Exclusive.start (h : Exclusive s) {r : Running} (hLock : r.lock = none)
    (hFound : ∀ id obj, r ≠ .found id obj)
    (hRunning : s'.running = Function.update s.running s.opsCount (some r))
    (hOps : s'.opsCount = s.opsCount + 1) (hLocks : s'.userShmSpinlocks = s.userShmSpinlocks)
    (hStage : ∀ op obj stage, op ≠ s.opsCount → custody s op = some (obj, stage) →
      s'.stage obj = stage)
    (hOwn : ∀ obj stage, r.custody = some (obj, stage) → s'.stage obj = stage ∧
      ∀ op stage', custody s op ≠ some (obj, stage'))
    (hListed : ∀ obj, (s.stage obj).listed → (s'.stage obj).listed) : Exclusive s' := by
  apply h.update hRunning
  · intro op' hLate
    omega
  · exact hStage
  · intro obj stage hHas
    refine ⟨(hOwn obj stage hHas).1, ?_⟩
    intro op' stage' _
    exact (hOwn obj stage hHas).2 op' stage'
  · intro op' i _ hHas
    rw [hLocks]
    exact h.locked op' i hHas
  · intro i hHas
    cases hLock.symm.trans hHas
  · intro op' id obj _ hRun
    exact hListed obj (h.found op' id obj hRun).1
  · rintro id obj ⟨⟩
    exact (hFound id obj rfl).elim

/-- A function leaves the section of a bucket, with the object it has in its care in a
new stage. -/
theorem Exclusive.leave (h : Exclusive s) {i : Nat} {old stage : Stage} (hLock : lock s op = some i)
    (hCustody : custody s op = some (obj, old))
    (hRunning : s'.running = Function.update s.running op r) (hOps : s'.opsCount = s.opsCount)
    (hLocks : s'.userShmSpinlocks = Function.update s.userShmSpinlocks i false)
    (hStage : s'.stage = Function.update s.stage obj stage) (hNoLock : r.bind Running.lock = none)
    (hNext : ∀ obj' stage', r.bind Running.custody = some (obj', stage') →
      obj' = obj ∧ stage' = stage)
    (hNotFound : ∀ op' id, op' ≠ op → s.running op' ≠ some (.found id obj)) : Exclusive s' := by
  have hOld : op < s.opsCount := by
    apply h.started
    intro hNone
    simp [lock, hNone] at hLock
  have hAlone := h.alone hCustody
  apply h.update hRunning
  · intro op' hLate
    omega
  · exact h.stage_update hStage hAlone
  · intro obj' stage' hHas
    obtain ⟨rfl, rfl⟩ := hNext obj' stage' hHas
    exact ⟨by rw [hStage, Function.update_self], hAlone⟩
  · exact h.unlock hLock hLocks
  · intro j hHas
    cases hNoLock.symm.trans hHas
  · intro op' id other hNe hRun
    have hOther : other ≠ obj := by
      rintro rfl
      exact hNotFound op' id hNe hRun
    rw [hStage, Function.update_of_ne hOther]
    exact (h.found op' id other hRun).1
  · rintro id obj rfl
    cases hNoLock

/-- A function that has nothing in its care any more and holds no lock. -/
theorem Exclusive.idle (h : Exclusive s)
    (hRunning : s'.running = Function.update s.running op r) (hOps : s'.opsCount = s.opsCount)
    (hOld : op < s.opsCount) (hNone : r.bind Running.custody = none)
    (hNoLock : r.bind Running.lock = none)
    (hStage : ∀ op' obj stage, op' ≠ op → custody s op' = some (obj, stage) →
      s'.stage obj = stage)
    (hLocks : ∀ op' i, op' ≠ op → lock s op' = some i → s'.userShmSpinlocks i = true)
    (hListed : ∀ obj, (s.stage obj).listed → (s'.stage obj).listed) : Exclusive s' := by
  apply h.update hRunning
  · intro op' hLate
    omega
  · exact hStage
  · intro obj stage hHas
    cases hNone.symm.trans hHas
  · exact hLocks
  · intro i hHas
    cases hNoLock.symm.trans hHas
  · intro op' id obj _ hRun
    exact hListed obj (h.found op' id obj hRun).1
  · rintro id obj rfl
    cases hNoLock

/-- A search answers with a listed object, and its id. -/
theorem Listed.found (h : Listed s) (hObjects : Objects s) {id : UInt64}
    (hSearch : intmapSearch s.userShmIntmap s.key id = some obj) :
    (s.stage obj).listed ∧ id = idOf obj := by
  obtain ⟨hMem, hKey, -⟩ := search_mem h.pos hSearch
  have hStage := (h.mem obj).mp hMem
  obtain ⟨shm, hShm⟩ := hObjects.present hStage
  exact ⟨hStage, by rw [← hKey, hObjects.key_eq hShm]⟩

/-- No function has an object in its care that was not created or is with its owners. -/
theorem Exclusive.free (h : Exclusive s) (hStage : s.stage obj = .unborn ∨ s.stage obj = .owned) :
    ∀ op stage, custody s op ≠ some (obj, stage) := by
  intro op stage hHas
  have hIs := h.stage op obj stage hHas
  rw [hIs] at hStage
  cases hRun : s.running op with
  | none => simp [custody, hRun] at hHas
  | some r =>
      cases r <;> simp [custody, hRun, Running.custody] at hHas <;>
        simp [← hHas.2] at hStage

/-- What a step does to the care for the objects and to the locks. -/
theorem Exclusive.step (h : Exclusive s) (hObjects : Objects s) (hListed : Listed s)
    {event : Event} (hStep : Step s event s') : Exclusive s' := by
  cases hStep with
  | outOfMemory => exact h
  | create =>
      have hUnborn : s.stage s.objectsCount = .unborn :=
        congrArg View.stage (hObjects.fresh s.objectsCount (Nat.le_refl _))
      have hFree := h.free (.inl hUnborn)
      refine h.start (r := .creating s.objectsCount) rfl (by simp) rfl rfl rfl
        (h.stage_update rfl fun op' stage' _ => hFree op' stage') ?_ ?_
      · rintro obj stage ⟨⟩
        exact ⟨by simp [State.start, State.setStage, State.setRunning], hFree⟩
      · intro obj hOld
        have hNe : obj ≠ s.objectsCount := by
          rintro rfl
          simp [hUnborn, Stage.listed] at hOld
        simpa [State.start, State.setStage, State.setRunning, State.setObject, hNe] using hOld
  | @insertLock op obj shm hRun hShm hFree =>
      refine h.enter hFree ?_ ?_ (by simp) (h.started (by simp [hRun]))
      · simp [custody, hRun, Running.custody]
      · simp [Running.lock, hObjects.keyOf hShm]
  | @insert op obj shm hRun hShm =>
      have hCustody : custody s op = some (obj, .creating) := by
        simp [custody, hRun, Running.custody]
      have hLock : lock s op = some (userShmSpinlock shm.key) := by
        simp [lock, hRun, Running.lock, hObjects.keyOf hShm]
      refine h.leave (r := none) hLock hCustody rfl rfl rfl rfl rfl (by simp) ?_
      intro op' id _ hFound
      have hOld := (h.found op' id obj hFound).1
      simp [h.stage op obj .creating hCustody, Stage.listed] at hOld
  | borrowOwner hRef hShm => exact h.same rfl rfl rfl rfl
  | dropOwner hRef hShm hMore => exact h.same rfl rfl rfl rfl
  | @dropLastOwner obj shm hRef hShm hLast =>
      have hFree := h.free (.inr (hObjects.owned hRef hShm).1)
      refine h.start (r := .shuttingDown obj) rfl (by simp) rfl rfl rfl
        (h.stage_update rfl fun op' stage' _ => hFree op' stage') ?_ ?_
      · rintro obj stage ⟨⟩
        exact ⟨by simp [State.start, State.setStage, State.setRunning], hFree⟩
      · intro other hOld
        by_cases hEq : other = obj
        · simp [State.start, State.setStage, State.setRunning, hEq, Stage.listed]
        · simpa [State.start, State.setStage, State.setRunning, State.setObject, State.setOwners,
            hEq] using hOld
  | @removeLock op obj shm hRun hShm hFree =>
      refine h.enter hFree ?_ ?_ (by simp) (h.started (by simp [hRun]))
      · simp [custody, hRun, Running.custody]
      · simp [Running.lock, hObjects.keyOf hShm]
  | @remove op obj shm hRun hShm =>
      have hCustody : custody s op = some (obj, .closing) := by
        simp [custody, hRun, Running.custody]
      have hLock : lock s op = some (userShmSpinlock shm.key) := by
        simp [lock, hRun, Running.lock, hObjects.keyOf hShm]
      refine h.leave hLock hCustody rfl rfl rfl rfl rfl ?_ ?_
      · simp [Running.custody]
      · intro op' id hNe hFound
        have hId := (h.found op' id obj hFound).2
        apply h.lockAlone hLock op' hNe
        simp [lock, hFound, Running.lock, hId, hObjects.keyOf hShm]
  | @release op obj shm hRun hShm =>
      have hFrame := memRefDrop_frame s obj shm
      have hCustody : custody s op = some (obj, .removed) := by
        simp [custody, hRun, Running.custody]
      have hStage : s.stage obj = .removed := h.stage op obj .removed hCustody
      have hOld : op < s.opsCount := h.started (by simp [hRun])
      refine h.idle (r := none) ?_ hFrame.1 hOld rfl rfl ?_ ?_ ?_
      · simp [State.setRunning]
      · exact h.stage_update (stage_release s op obj shm) (h.alone hCustody)
      · intro op' i _ hHas
        simpa [State.setRunning, State.setStage, hFrame.2.1] using h.locked op' i hHas
      · intro other hOld
        have hNe : other ≠ obj := by
          rintro rfl
          simp [hStage, Stage.listed] at hOld
        simpa [State.setRunning, State.setStage, hFrame.2.2.1, hNe] using hOld
  | createRef hRef hShm => exact h.same rfl rfl rfl rfl
  | borrowRef hRef hShm => exact h.same rfl rfl rfl rfl
  | @dropRef obj shm hRef hShm =>
      have hFrame := memRefDrop_frame s obj shm
      exact h.same (by simp) hFrame.1 hFrame.2.1 hFrame.2.2.1
  | find id =>
      refine h.start (r := .finding id) rfl (by simp) rfl rfl rfl
        (fun op obj stage _ => h.stage op obj stage) ?_ (fun _ hOld => hOld)
      rintro obj stage ⟨⟩
  | @findLock op id hRun hFree =>
      refine h.enter hFree ?_ ?_ (by simp) (h.started (by simp [hRun]))
      · simp [custody, hRun, Running.custody]
      · simp [Running.lock]
  | @missed op id hRun hSearch =>
      have hLock : lock s op = some (userShmSpinlock id) := by simp [lock, hRun, Running.lock]
      exact h.idle (r := none) rfl rfl (h.started (by simp [hRun])) rfl rfl
        (fun op' obj stage _ => h.stage op' obj stage) (h.unlock hLock rfl) (fun _ hOld => hOld)
  | @search op obj id hRun hSearch =>
      have hLock : lock s op = some (userShmSpinlock id) := by simp [lock, hRun, Running.lock]
      refine h.update (r := some (.found id obj)) rfl ?_ ?_ ?_ ?_ ?_ ?_ ?_
      · intro op' hLate
        exact ⟨(Nat.lt_of_lt_of_le (h.started (by simp [hRun])) hLate).ne', hLate⟩
      · intro op' obj stage _
        exact h.stage op' obj stage
      · rintro obj stage ⟨⟩
      · intro op' i _
        exact h.locked op' i
      · rintro i ⟨⟩
        exact ⟨h.locked op _ hLock, h.lockAlone hLock⟩
      · intro op' id' obj' _ hOther
        exact (h.found op' id' obj' hOther).1
      · rintro id' obj' ⟨⟩
        exact hListed.found hObjects hSearch
  | @borrowFound op obj id shm hRun hShm =>
      have hLock : lock s op = some (userShmSpinlock id) := by simp [lock, hRun, Running.lock]
      exact h.idle (r := some (.accessing obj)) rfl rfl (h.started (by simp [hRun])) rfl rfl
        (fun op' obj stage _ => h.stage op' obj stage) (h.unlock hLock rfl) (fun _ hOld => hOld)
  | @finish op obj shm hRun hShm =>
      have hFrame := memRefDrop_frame s obj shm
      have hOld : op < s.opsCount := h.started (by simp [hRun])
      refine h.idle (r := none) ?_ hFrame.1 hOld rfl rfl ?_ ?_ ?_
      · simp [State.setRunning]
      · intro op' other stage _ hHas
        simpa [State.setRunning, hFrame.2.2.1] using h.stage op' other stage hHas
      · intro op' i _ hHas
        simpa [State.setRunning, hFrame.2.1] using h.locked op' i hHas
      · intro other hOld
        simpa [State.setRunning, hFrame.2.2.1] using hOld

/-- The stage of an object changes, and whether it is in the map does not. -/
theorem listed_update {stage : Stage} (hStage : s'.stage = Function.update s.stage obj stage)
    (hSame : stage.listed ↔ (s.stage obj).listed) (other : Nat) :
    (s'.stage other).listed ↔ (s.stage other).listed := by
  rw [hStage]
  by_cases hEq : other = obj
  · subst hEq
    rw [Function.update_self]
    exact hSame
  · rw [Function.update_of_ne hEq]

/-- What a step does to the map. -/
theorem Listed.step (h : Listed s) (hObjects : Objects s) (hExclusive : Exclusive s)
    {event : Event} (hStep : Step s event s') : Listed s' := by
  cases hStep with
  | outOfMemory => exact h
  | create =>
      have hUnborn : s.stage s.objectsCount = .unborn :=
        congrArg View.stage (hObjects.fresh s.objectsCount (Nat.le_refl _))
      exact h.same rfl (listed_update rfl (by simp [hUnborn, Stage.listed]))
  | @insert op obj shm hRun hShm =>
      have hStage : s.stage obj = .creating :=
        hExclusive.stage op obj .creating (by simp [custody, hRun, Running.custody])
      refine h.insert (by simp [hStage, Stage.listed]) ?_ rfl
      simp [State.setRunning, State.setStage, State.setOwners, State.setSpinlock, State.setIntmap,
        intmapInsert, hObjects.key_eq hShm]
  | @dropLastOwner obj shm hRef hShm hLast =>
      have hOwned := (hObjects.owned hRef hShm).1
      exact h.same rfl (listed_update rfl (by simp [hOwned, Stage.listed]))
  | @remove op obj shm hRun hShm =>
      have hStage : s.stage obj = .closing :=
        hExclusive.stage op obj .closing (by simp [custody, hRun, Running.custody])
      refine h.remove (by simp [hStage, Stage.listed]) ?_ rfl
      simp [State.setRunning, State.setStage, State.setSpinlock, State.setIntmap,
        intmapRemove, hObjects.key_eq hShm]
  | @release op obj shm hRun hShm =>
      have hFrame := memRefDrop_frame s obj shm
      have hStage : s.stage obj = .removed :=
        hExclusive.stage op obj .removed (by simp [custody, hRun, Running.custody])
      exact h.same hFrame.2.2.2
        (listed_update (stage_release s op obj shm) (by simp [hStage, Stage.listed]))
  | @dropRef obj shm hRef hShm =>
      have hFrame := memRefDrop_frame s obj shm
      exact h.same hFrame.2.2.2 fun other => by simp [State.setHandles, hFrame.2.2.1]
  | @finish op obj shm hRun hShm =>
      have hFrame := memRefDrop_frame s obj shm
      exact h.same hFrame.2.2.2 fun other => by simp [State.setRunning, hFrame.2.2.1]
  | insertLock | borrowOwner | dropOwner | removeLock | createRef | borrowRef | find | findLock
  | missed | search | borrowFound => exact h.same rfl fun other => Iff.rfl

end Steps

theorem Invariant.initial : Invariant initial where
  objects := by
    refine ⟨rfl, ?_, ?_⟩
    · intro obj hBorn
      cases hBorn
    · intro obj _
      simp [view, View.fresh, accessing, ShmLife.initial]
  exclusive := by
    constructor <;> simp [ShmLife.initial, custody, lock]
  listed := by
    constructor
    case buckets => rfl
    case hashed => simp [Intmap.Hashed, ShmLife.initial, intmapInit]
    case nodup => simp [ShmLife.initial, all_init]
    case mem => simp [ShmLife.initial, all_init, Stage.listed]

theorem Invariant.run {trace : List Event} {s : State} (run : system.Execution trace s) :
    Invariant s := by
  apply run.stateInvariant
  · rintro _ rfl
    exact Invariant.initial
  · intro s event s' h hStep
    exact ⟨h.objects.step h.exclusive hStep, h.exclusive.step h.objects h.listed hStep,
      h.listed.step h.objects h.exclusive hStep⟩

end Ricerca.ShmLife
