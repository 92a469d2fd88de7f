import Mathlib.Data.Set.Card
import Ricerca.User.ShmLife

/-! Who refers to a shared memory object. What its two counters count, which running
function has it in its care, and that a lock is held by one function only, so that what
was found in a bucket cannot leave it before it is borrowed. -/
namespace Ricerca.ShmLife

open Ricerca.Foundation Ricerca.Lib

/-- The id of an object: the counter when it was created. -/
def idOf (obj : Nat) : UInt64 := UInt64.ofNat obj

/-- The functions that read or write the bytes of an object by id. -/
def accessing (s : State) (obj : Nat) : Set Nat := {op | s.running op = some (.accessing obj)}

/-- An object is in `user_shm_intmap`. -/
def Stage.listed : Stage → Prop
  | .owned | .closing => True
  | .unborn | .creating | .removed | .closed => False

/-- What one object, and everybody who refers to it, look like. -/
structure View where
  shm : Option UserShmOwner
  owners : Nat
  handles : Nat
  frees : Nat
  stage : Stage
  accessing : Set Nat

def view (s : State) (obj : Nat) : View :=
  ⟨s.objects obj, s.owners obj, s.handles obj, s.frees obj, s.stage obj, accessing s obj⟩

/-- The counters of an object that was created. -/
structure View.Counted (v : View) (obj : Nat) : Prop where
  born : v.stage ≠ .unborn
  finite : v.accessing.Finite
  owners : 0 < v.owners ↔ v.stage = .owned
  key : ∀ shm, v.shm = some shm → shm.key = idOf obj
  shutdown : ∀ shm, v.shm = some shm →
    shm.shutdownRefcount = v.owners + if v.stage = .creating then 1 else 0
  ref : ∀ shm, v.shm = some shm → 0 < shm.refRefcount ∧ v.frees = 0 ∧
    shm.refRefcount = (if v.stage = .closed then 0 else 1) + v.handles + v.accessing.ncard
  freed : v.shm = none → v.frees = 1 ∧ v.stage = .closed ∧ v.handles = 0 ∧ v.accessing = ∅

/-- Nothing is known about an object that was not created. -/
def View.fresh : View := ⟨none, 0, 0, 0, .unborn, ∅⟩

/-- All objects, with the counter that gives them their ids. -/
structure Objects (s : State) : Prop where
  last : s.userShmLastAllocatedId = idOf s.objectsCount
  counted : ∀ obj < s.objectsCount, (view s obj).Counted obj
  fresh : ∀ obj, s.objectsCount ≤ obj → view s obj = .fresh

section Counters

variable {v : View} {obj : Nat} {shm : UserShmOwner}

/-- A reference to the `user_shm_ref` is dropped. -/
def View.drop (v : View) (shm : UserShmOwner) : View :=
  if shm.refRefcount = 1 then { v with shm := none, frees := v.frees + 1 }
  else { v with shm := some { shm with refRefcount := shm.refRefcount - 1 } }

@[simp] theorem View.drop_handles : (v.drop shm).handles = v.handles := by
  unfold View.drop
  split <;> rfl

@[simp] theorem View.drop_stage : (v.drop shm).stage = v.stage := by
  unfold View.drop
  split <;> rfl

@[simp] theorem View.drop_accessing : (v.drop shm).accessing = v.accessing := by
  unfold View.drop
  split <;> rfl

/-- A reference goes to somebody else, or somebody gets a new one. -/
theorem View.Counted.borrow (h : v.Counted obj) (hShm : v.shm = some shm) {handles : Nat}
    {ops : Set Nat} (hFinite : ops.Finite)
    (hCount : handles + ops.ncard = v.handles + v.accessing.ncard + 1) :
    View.Counted { v with
      shm := some { shm with refRefcount := shm.refRefcount + 1 }
      handles := handles
      accessing := ops } obj where
  born := h.born
  finite := hFinite
  owners := h.owners
  key := by
    rintro _ ⟨⟩
    exact h.key shm hShm
  shutdown := by
    rintro _ ⟨⟩
    exact h.shutdown shm hShm
  ref := by
    rintro _ ⟨⟩
    have hRef := h.ref shm hShm
    refine ⟨Nat.succ_pos _, hRef.2.1, ?_⟩
    simp only
    omega
  freed := by rintro ⟨⟩

/-- The holder of a reference drops it. -/
theorem View.Counted.dropped (h : v.Counted obj) (hShm : v.shm = some shm) {handles : Nat}
    {ops : Set Nat} {stage : Stage} (hFinite : ops.Finite)
    (hStage : stage = v.stage ∨ v.stage = .removed ∧ stage = .closed)
    (hCount : (if stage = .closed then 0 else 1) + handles + ops.ncard + 1 = shm.refRefcount) :
    View.Counted
      { v.drop shm with handles := handles, accessing := ops, stage := stage } obj := by
  have hRef := h.ref shm hShm
  have hOwners : 0 < v.owners ↔ stage = .owned := by
    rcases hStage with rfl | ⟨hWas, rfl⟩
    · exact h.owners
    · rw [h.owners, hWas]
      simp
  have hCreating : (stage = .creating ↔ v.stage = .creating) := by
    rcases hStage with rfl | ⟨hWas, rfl⟩
    · rfl
    · simp [hWas]
  have hBorn : stage ≠ .unborn := by
    rcases hStage with rfl | ⟨-, rfl⟩
    · exact h.born
    · simp
  by_cases hLast : shm.refRefcount = 1
  · have hDrop : v.drop shm = { v with shm := none, frees := v.frees + 1 } := if_pos hLast
    rw [hDrop]
    constructor
    case born => exact hBorn
    case finite => exact hFinite
    case owners => exact hOwners
    case key => rintro _ ⟨⟩
    case shutdown => rintro _ ⟨⟩
    case ref => rintro _ ⟨⟩
    case freed =>
      intro _
      have hClosed : stage = .closed := by
        by_contra hOpen
        rw [if_neg hOpen] at hCount
        omega
      rw [if_pos hClosed] at hCount
      refine ⟨by simp [hRef.2.1], hClosed, by simp only; omega, ?_⟩
      rw [← Set.ncard_eq_zero hFinite]
      omega
  · have hDrop : v.drop shm =
        { v with shm := some { shm with refRefcount := shm.refRefcount - 1 } } := if_neg hLast
    rw [hDrop]
    constructor
    case born => exact hBorn
    case finite => exact hFinite
    case owners => exact hOwners
    case key =>
      rintro _ ⟨⟩
      exact h.key shm hShm
    case shutdown =>
      rintro _ ⟨⟩
      have hShutdown := h.shutdown shm hShm
      simp only [hCreating]
      exact hShutdown
    case ref =>
      rintro _ ⟨⟩
      refine ⟨by simp only; omega, hRef.2.1, ?_⟩
      simp only
      omega
    case freed => rintro ⟨⟩

/-- References to the owner object come and go. -/
theorem View.Counted.owner (h : v.Counted obj) (hShm : v.shm = some shm) {owners refcount : Nat}
    {stage : Stage} (hOwned : v.stage = .owned)
    (hStage : stage = .owned ∧ 0 < owners ∨ stage = .closing ∧ owners = 0)
    (hCount : refcount = owners) :
    View.Counted { v with
      shm := some { shm with shutdownRefcount := refcount }
      owners := owners
      stage := stage } obj := by
  have hRef := h.ref shm hShm
  rw [hOwned] at hRef
  constructor
  case born => rcases hStage with ⟨rfl, -⟩ | ⟨rfl, -⟩ <;> simp
  case finite => exact h.finite
  case owners =>
    rcases hStage with ⟨rfl, hPos⟩ | ⟨rfl, rfl⟩
    · simpa using hPos
    · simp
  case key =>
    rintro _ ⟨⟩
    exact h.key shm hShm
  case shutdown =>
    rintro _ ⟨⟩
    rcases hStage with ⟨rfl, -⟩ | ⟨rfl, -⟩ <;> simpa using hCount
  case ref =>
    rintro _ ⟨⟩
    rcases hStage with ⟨rfl, -⟩ | ⟨rfl, -⟩ <;> simpa using hRef
  case freed => rintro ⟨⟩

/-- The function that has the object in its care takes it to the next stage. -/
theorem View.Counted.advance (h : v.Counted obj) (hShm : v.shm = some shm) {owners : Nat}
    {stage : Stage}
    (hStage : v.stage = .creating ∧ stage = .owned ∧ owners = 1 ∨
      v.stage = .closing ∧ stage = .removed ∧ owners = v.owners) :
    View.Counted { v with owners := owners, stage := stage } obj := by
  have hRef := h.ref shm hShm
  have hShutdown := h.shutdown shm hShm
  have hOwners := h.owners
  have hSame : ∀ other, v.shm = some other → other = shm := fun other hOther =>
    Option.some.inj (hOther.symm.trans hShm)
  rcases hStage with ⟨hWas, rfl, rfl⟩ | ⟨hWas, rfl, rfl⟩
  · have hNone : v.owners = 0 := by
      rw [hWas] at hOwners
      simpa using hOwners
    refine ⟨by simp, h.finite, by simp, h.key, ?_, ?_, ?_⟩
    · intro other hOther
      rw [hSame other hOther, hShutdown, hWas, hNone]
      rfl
    · intro other hOther
      rw [hWas] at hRef
      rw [hSame other hOther]
      simpa using hRef
    · intro hGone
      cases hGone.symm.trans hShm
  · refine ⟨by simp, h.finite, ?_, h.key, ?_, ?_, ?_⟩
    · rw [hOwners, hWas]
      simp
    · intro other hOther
      rw [hSame other hOther, hShutdown, hWas]
      rfl
    · intro other hOther
      rw [hWas] at hRef
      rw [hSame other hOther]
      simpa using hRef
    · intro hGone
      cases hGone.symm.trans hShm

end Counters

section Views

variable {s s' : State} {op obj other : Nat} {r : Option Running}

theorem accessing_update (hRunning : s'.running = Function.update s.running op r)
    (hOld : s.running op ≠ some (.accessing other)) (hNew : r ≠ some (.accessing other)) :
    accessing s' other = accessing s other := by
  ext op'
  simp only [accessing, Set.mem_ofPred_eq, hRunning]
  by_cases hEq : op' = op
  · subst hEq
    simp [hOld, hNew]
  · rw [Function.update_of_ne hEq]

/-- A function begins to access an object. -/
theorem accessing_insert (hRunning : s'.running = Function.update s.running op r)
    (hNew : r = some (.accessing obj)) : accessing s' obj = insert op (accessing s obj) := by
  ext op'
  simp only [accessing, Set.mem_ofPred_eq, Set.mem_insert_iff, hRunning]
  by_cases hEq : op' = op
  · subst hEq
    simp [hNew]
  · simp [hEq]

/-- A function has finished its access. -/
theorem accessing_erase (hRunning : s'.running = Function.update s.running op none) :
    accessing s' obj = accessing s obj \ {op} := by
  ext op'
  simp only [accessing, Set.mem_ofPred_eq, Set.mem_sdiff, Set.mem_singleton_iff, hRunning]
  by_cases hEq : op' = op
  · subst hEq
    simp
  · simp [hEq]

/-- An object that is there was created. -/
theorem Objects.born (h : Objects s) {shm : UserShmOwner} (hShm : s.objects obj = some shm) :
    obj < s.objectsCount := by
  by_contra hLate
  have hFresh := congrArg View.shm (h.fresh obj (Nat.le_of_not_lt hLate))
  cases hFresh.symm.trans hShm

/-- A step that changes what is known about one object. -/
theorem Objects.update (h : Objects s) (hObj : obj < s.objectsCount)
    (hCount : s'.objectsCount = s.objectsCount)
    (hLast : s'.userShmLastAllocatedId = s.userShmLastAllocatedId)
    (hOthers : ∀ other, other ≠ obj → view s' other = view s other)
    (hOwn : (view s' obj).Counted obj) : Objects s' := by
  constructor
  · rw [hLast, hCount]
    exact h.last
  · intro other hBorn
    by_cases hEq : other = obj
    · subst hEq
      exact hOwn
    · rw [hOthers other hEq]
      exact h.counted other (hCount ▸ hBorn)
  · intro other hLate
    rw [hCount] at hLate
    rw [hOthers other (by omega)]
    exact h.fresh other hLate

/-- A step that no object notices. -/
theorem Objects.same (h : Objects s) (hCount : s'.objectsCount = s.objectsCount)
    (hLast : s'.userShmLastAllocatedId = s.userShmLastAllocatedId) (hViews : view s' = view s) :
    Objects s' := by
  constructor
  · rw [hLast, hCount]
    exact h.last
  · rw [hViews, hCount]
    exact h.counted
  · rw [hViews, hCount]
    exact h.fresh

end Views

/-- The object that a function has in its care, and the stage it is in meanwhile. -/
def Running.custody : Running → Option (Nat × Stage)
  | .creating obj | .inserting obj => some (obj, .creating)
  | .shuttingDown obj | .removing obj => some (obj, .closing)
  | .releasing obj => some (obj, .removed)
  | .finding _ | .searching _ | .found _ _ | .accessing _ => none

/-- The lock that a function holds. -/
def Running.lock : Running → Option Nat
  | .inserting obj | .removing obj => some (userShmSpinlock (idOf obj))
  | .searching id | .found id _ => some (userShmSpinlock id)
  | .creating _ | .shuttingDown _ | .releasing _ | .finding _ | .accessing _ => none

def custody (s : State) (op : Nat) : Option (Nat × Stage) := (s.running op).bind Running.custody

def lock (s : State) (op : Nat) : Option Nat := (s.running op).bind Running.lock

/-- Objects are in the care of one function, locks are held by one function, and what was
found is still in the map. -/
structure Exclusive (s : State) : Prop where
  ids : ∀ op, s.opsCount ≤ op → s.running op = none
  stage : ∀ op obj stage, custody s op = some (obj, stage) → s.stage obj = stage
  once : ∀ op op' obj stage stage', custody s op = some (obj, stage) →
    custody s op' = some (obj, stage') → op = op'
  locked : ∀ op i, lock s op = some i → s.userShmSpinlocks i = true
  lockedOnce : ∀ op op' i, lock s op = some i → lock s op' = some i → op = op'
  found : ∀ op id obj, s.running op = some (.found id obj) → (s.stage obj).listed ∧ id = idOf obj

section Exclusion

variable {s s' : State} {op obj : Nat} {r : Option Running}

theorem custody_update (hRunning : s'.running = Function.update s.running op r) :
    custody s' = Function.update (custody s) op (r.bind Running.custody) := by
  funext op'
  by_cases hEq : op' = op
  · subst hEq
    simp [custody, hRunning]
  · simp [custody, hRunning, hEq]

theorem lock_update (hRunning : s'.running = Function.update s.running op r) :
    lock s' = Function.update (lock s) op (r.bind Running.lock) := by
  funext op'
  by_cases hEq : op' = op
  · subst hEq
    simp [lock, hRunning]
  · simp [lock, hRunning, hEq]

/-- One function takes a step. It says which objects and locks it has afterwards, that no
other function has them, and that the others keep theirs. -/
theorem Exclusive.update (h : Exclusive s) (hRunning : s'.running = Function.update s.running op r)
    (hIds : ∀ op', s'.opsCount ≤ op' → op' ≠ op ∧ s.opsCount ≤ op')
    (hStage : ∀ op' obj stage, op' ≠ op → custody s op' = some (obj, stage) → s'.stage obj = stage)
    (hOwn : ∀ obj stage, r.bind Running.custody = some (obj, stage) → s'.stage obj = stage ∧
      ∀ op' stage', op' ≠ op → custody s op' ≠ some (obj, stage'))
    (hLocked : ∀ op' i, op' ≠ op → lock s op' = some i → s'.userShmSpinlocks i = true)
    (hOwnLock : ∀ i, r.bind Running.lock = some i → s'.userShmSpinlocks i = true ∧
      ∀ op', op' ≠ op → lock s op' ≠ some i)
    (hFound : ∀ op' id obj, op' ≠ op → s.running op' = some (.found id obj) →
      (s'.stage obj).listed)
    (hOwnFound : ∀ id obj, r = some (.found id obj) → (s'.stage obj).listed ∧ id = idOf obj) :
    Exclusive s' := by
  have hCustody := custody_update hRunning
  have hLock := lock_update hRunning
  constructor
  case ids =>
    intro op' hLate
    obtain ⟨hNe, hOld⟩ := hIds op' hLate
    rw [hRunning, Function.update_of_ne hNe]
    exact h.ids op' hOld
  case stage =>
    intro op' obj stage hHas
    rw [hCustody] at hHas
    by_cases hEq : op' = op
    · subst hEq
      rw [Function.update_self] at hHas
      exact (hOwn obj stage hHas).1
    · rw [Function.update_of_ne hEq] at hHas
      exact hStage op' obj stage hEq hHas
  case once =>
    intro op₁ op₂ obj stage stage' hHas hHas'
    rw [hCustody] at hHas hHas'
    by_cases hEq : op₁ = op
    · subst hEq
      rw [Function.update_self] at hHas
      by_contra hNe
      rw [Function.update_of_ne (Ne.symm hNe)] at hHas'
      exact (hOwn obj stage hHas).2 op₂ stage' (Ne.symm hNe) hHas'
    · rw [Function.update_of_ne hEq] at hHas
      by_cases hEq' : op₂ = op
      · subst hEq'
        rw [Function.update_self] at hHas'
        exact ((hOwn obj stage' hHas').2 op₁ stage hEq hHas).elim
      · rw [Function.update_of_ne hEq'] at hHas'
        exact h.once op₁ op₂ obj stage stage' hHas hHas'
  case locked =>
    intro op' i hHas
    rw [hLock] at hHas
    by_cases hEq : op' = op
    · subst hEq
      rw [Function.update_self] at hHas
      exact (hOwnLock i hHas).1
    · rw [Function.update_of_ne hEq] at hHas
      exact hLocked op' i hEq hHas
  case lockedOnce =>
    intro op₁ op₂ i hHas hHas'
    rw [hLock] at hHas hHas'
    by_cases hEq : op₁ = op
    · subst hEq
      rw [Function.update_self] at hHas
      by_contra hNe
      rw [Function.update_of_ne (Ne.symm hNe)] at hHas'
      exact (hOwnLock i hHas).2 op₂ (Ne.symm hNe) hHas'
    · rw [Function.update_of_ne hEq] at hHas
      by_cases hEq' : op₂ = op
      · subst hEq'
        rw [Function.update_self] at hHas'
        exact ((hOwnLock i hHas').2 op₁ hEq hHas).elim
      · rw [Function.update_of_ne hEq'] at hHas'
        exact h.lockedOnce op₁ op₂ i hHas hHas'
  case found =>
    intro op' id obj hRun
    rw [hRunning] at hRun
    by_cases hEq : op' = op
    · subst hEq
      rw [Function.update_self] at hRun
      exact hOwnFound id obj hRun
    · rw [Function.update_of_ne hEq] at hRun
      exact ⟨hFound op' id obj hEq hRun, (h.found op' id obj hRun).2⟩

end Exclusion

end Ricerca.ShmLife
