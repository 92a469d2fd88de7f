import Ricerca.Foundation.Execution
import Ricerca.Lib.Intmap

/-! Life of shared memory objects (`user/shm.c`). An object has two counters: the one
of its owner object, whose last drop takes the object out of `user_shm_intmap`, and the
one of its `user_shm_ref`, whose last drop frees the memory. Every step is atomic on all
cores; what a function does under the lock of a bucket takes several of them. -/
namespace Ricerca.ShmLife

open Ricerca.Foundation Ricerca.Lib

/-- `USER_SHM_INTMAP_BUCKETS`. -/
def userShmIntmapBuckets : Nat := 1024

/-- The lock in `user_shm_spinlocks` that a function takes for an id. -/
def userShmSpinlock (id : UInt64) : Nat := id.toNat % userShmIntmapBuckets

/-- `struct user_shm_owner` as far as its life is concerned; the bytes are freed together
with it. -/
structure UserShmOwner where
  key : UInt64
  shutdownRefcount : Nat
  refRefcount : Nat
  deriving DecidableEq

/-- A function between two of its steps. `inserting`, `removing`, `searching` and `found`
are inside the section of a bucket. -/
inductive Running where
  | creating (obj : Nat)
  | inserting (obj : Nat)
  | shuttingDown (obj : Nat)
  | removing (obj : Nat)
  | releasing (obj : Nat)
  | finding (id : UInt64)
  | searching (id : UInt64)
  | found (id : UInt64) (obj : Nat)
  | accessing (obj : Nat)
  deriving DecidableEq

/-- How far the life of an object has come: its creator has not inserted it, references
to the owner object exist, the last one was dropped, it was taken out of the map, and its
shutdown is over. -/
inductive Stage where
  | unborn
  | creating
  | owned
  | closing
  | removed
  | closed
  deriving DecidableEq

/-- Objects in the order of their creation, the map and its locks, and running functions.
An object whose memory was freed is `none`. The last four fields are history: references
to the owner object and to the `user_shm_ref` that somebody holds, how often the memory
was freed, and the stage of each object. -/
structure State where
  objects : Nat → Option UserShmOwner
  objectsCount : Nat
  userShmLastAllocatedId : UInt64
  userShmIntmap : Intmap Nat
  userShmSpinlocks : Nat → Bool
  running : Nat → Option Running
  opsCount : Nat
  owners : Nat → Nat
  handles : Nat → Nat
  frees : Nat → Nat
  stage : Nat → Stage

namespace State

/-- The key in the intmap node of an object. -/
def key (s : State) (obj : Nat) : UInt64 := ((s.objects obj).map (·.key)).getD 0

def setObject (s : State) (obj : Nat) (shm : UserShmOwner) : State :=
  { s with objects := Function.update s.objects obj (some shm) }

def setRunning (s : State) (op : Nat) (r : Option Running) : State :=
  { s with running := Function.update s.running op r }

def start (s : State) (r : Running) : State :=
  { s.setRunning s.opsCount (some r) with opsCount := s.opsCount + 1 }

def setStage (s : State) (obj : Nat) (stage : Stage) : State :=
  { s with stage := Function.update s.stage obj stage }

def setOwners (s : State) (obj n : Nat) : State :=
  { s with owners := Function.update s.owners obj n }

def setHandles (s : State) (obj n : Nat) : State :=
  { s with handles := Function.update s.handles obj n }

def setSpinlock (s : State) (i : Nat) (taken : Bool) : State :=
  { s with userShmSpinlocks := Function.update s.userShmSpinlocks i taken }

def setIntmap (s : State) (map : Intmap Nat) : State := { s with userShmIntmap := map }

/-- `MEM_REF_BORROW(&shm->ref)`. -/
def memRefBorrow (s : State) (obj : Nat) (shm : UserShmOwner) : State :=
  s.setObject obj { shm with refRefcount := shm.refRefcount + 1 }

/-- `MEM_REF_DROP(&shm->ref)`; the last reference runs `user_shm_dealloc`. -/
def memRefDrop (s : State) (obj : Nat) (shm : UserShmOwner) : State :=
  if shm.refRefcount = 1 then
    { s with
      objects := Function.update s.objects obj none
      frees := Function.update s.frees obj (s.frees obj + 1) }
  else s.setObject obj { shm with refRefcount := shm.refRefcount - 1 }

end State

/-- What happens in a step; `created` and `found` are what `user_shm_create` and
`user_shm_find_by_id` return, and `shutdown` is the return of `user_shm_shutdown`. -/
inductive Event where
  | outOfMemory
  | create (obj : Nat)
  | created (obj : Nat) (id : UInt64)
  | borrowOwner (obj : Nat)
  | dropOwner (obj : Nat)
  | shutdown (obj : Nat)
  | createRef (obj : Nat)
  | borrowRef (obj : Nat)
  | dropRef (obj : Nat)
  | find (id : UInt64)
  | found (id : UInt64) (obj : Nat)
  | notFound (id : UInt64)
  | run (op : Nat)
  deriving DecidableEq

/-- One step of one core. Functions that use a reference run while somebody holds it. A
step that looks into an object needs its memory. -/
inductive Step (s : State) : Event → State → Prop where
  | outOfMemory : Step s .outOfMemory s
  | create :
      Step s (.create s.objectsCount)
        (({ s.setObject s.objectsCount ⟨s.userShmLastAllocatedId, 1, 1⟩ with
            objectsCount := s.objectsCount + 1
            userShmLastAllocatedId := s.userShmLastAllocatedId + 1 }.setStage s.objectsCount
          .creating).start (.creating s.objectsCount))
  | insertLock {op obj : Nat} {shm : UserShmOwner} (hRun : s.running op = some (.creating obj))
      (hShm : s.objects obj = some shm)
      (hFree : s.userShmSpinlocks (userShmSpinlock shm.key) = false) :
      Step s (.run op)
        ((s.setSpinlock (userShmSpinlock shm.key) true).setRunning op (some (.inserting obj)))
  | insert {op obj : Nat} {shm : UserShmOwner} (hRun : s.running op = some (.inserting obj))
      (hShm : s.objects obj = some shm) :
      Step s (.created obj shm.key)
        (((((s.setIntmap (intmapInsert s.userShmIntmap s.key obj)).setSpinlock
          (userShmSpinlock shm.key) false).setOwners obj 1).setStage obj .owned).setRunning op none)
  | borrowOwner {obj : Nat} {shm : UserShmOwner} (hRef : 0 < s.owners obj)
      (hShm : s.objects obj = some shm) :
      Step s (.borrowOwner obj)
        ((s.setObject obj { shm with shutdownRefcount := shm.shutdownRefcount + 1 }).setOwners obj
          (s.owners obj + 1))
  | dropOwner {obj : Nat} {shm : UserShmOwner} (hRef : 0 < s.owners obj)
      (hShm : s.objects obj = some shm) (hMore : shm.shutdownRefcount ≠ 1) :
      Step s (.dropOwner obj)
        ((s.setObject obj { shm with shutdownRefcount := shm.shutdownRefcount - 1 }).setOwners obj
          (s.owners obj - 1))
  | dropLastOwner {obj : Nat} {shm : UserShmOwner} (hRef : 0 < s.owners obj)
      (hShm : s.objects obj = some shm) (hLast : shm.shutdownRefcount = 1) :
      Step s (.dropOwner obj)
        ((((s.setObject obj { shm with shutdownRefcount := 0 }).setOwners obj
          (s.owners obj - 1)).setStage obj .closing).start (.shuttingDown obj))
  | removeLock {op obj : Nat} {shm : UserShmOwner} (hRun : s.running op = some (.shuttingDown obj))
      (hShm : s.objects obj = some shm)
      (hFree : s.userShmSpinlocks (userShmSpinlock shm.key) = false) :
      Step s (.run op)
        ((s.setSpinlock (userShmSpinlock shm.key) true).setRunning op (some (.removing obj)))
  | remove {op obj : Nat} {shm : UserShmOwner} (hRun : s.running op = some (.removing obj))
      (hShm : s.objects obj = some shm) :
      Step s (.run op)
        ((((s.setIntmap (intmapRemove s.userShmIntmap s.key obj)).setSpinlock
          (userShmSpinlock shm.key) false).setStage obj .removed).setRunning op
          (some (.releasing obj)))
  | release {op obj : Nat} {shm : UserShmOwner} (hRun : s.running op = some (.releasing obj))
      (hShm : s.objects obj = some shm) :
      Step s (.shutdown obj) (((s.memRefDrop obj shm).setStage obj .closed).setRunning op none)
  | createRef {obj : Nat} {shm : UserShmOwner} (hRef : 0 < s.owners obj)
      (hShm : s.objects obj = some shm) :
      Step s (.createRef obj) ((s.memRefBorrow obj shm).setHandles obj (s.handles obj + 1))
  | borrowRef {obj : Nat} {shm : UserShmOwner} (hRef : 0 < s.handles obj)
      (hShm : s.objects obj = some shm) :
      Step s (.borrowRef obj) ((s.memRefBorrow obj shm).setHandles obj (s.handles obj + 1))
  | dropRef {obj : Nat} {shm : UserShmOwner} (hRef : 0 < s.handles obj)
      (hShm : s.objects obj = some shm) :
      Step s (.dropRef obj) ((s.memRefDrop obj shm).setHandles obj (s.handles obj - 1))
  | find (id : UInt64) : Step s (.find id) (s.start (.finding id))
  | findLock {op : Nat} {id : UInt64} (hRun : s.running op = some (.finding id))
      (hFree : s.userShmSpinlocks (userShmSpinlock id) = false) :
      Step s (.run op)
        ((s.setSpinlock (userShmSpinlock id) true).setRunning op (some (.searching id)))
  | missed {op : Nat} {id : UInt64} (hRun : s.running op = some (.searching id))
      (hSearch : intmapSearch s.userShmIntmap s.key id = none) :
      Step s (.notFound id) ((s.setSpinlock (userShmSpinlock id) false).setRunning op none)
  | search {op obj : Nat} {id : UInt64} (hRun : s.running op = some (.searching id))
      (hSearch : intmapSearch s.userShmIntmap s.key id = some obj) :
      Step s (.run op) (s.setRunning op (some (.found id obj)))
  | borrowFound {op obj : Nat} {id : UInt64} {shm : UserShmOwner}
      (hRun : s.running op = some (.found id obj)) (hShm : s.objects obj = some shm) :
      Step s (.found id obj)
        (((s.memRefBorrow obj shm).setSpinlock (userShmSpinlock id) false).setRunning op
          (some (.accessing obj)))
  | finish {op obj : Nat} {shm : UserShmOwner} (hRun : s.running op = some (.accessing obj))
      (hShm : s.objects obj = some shm) :
      Step s (.run op) ((s.memRefDrop obj shm).setRunning op none)

/-- What `user_shm_init` leaves. -/
def initial : State where
  objects _ := none
  objectsCount := 0
  userShmLastAllocatedId := 0
  userShmIntmap := intmapInit userShmIntmapBuckets
  userShmSpinlocks _ := false
  running _ := none
  opsCount := 0
  owners _ := 0
  handles _ := 0
  frees _ := 0
  stage _ := .unborn

def system : System State Event where
  init s := s = initial
  step := Step

end Ricerca.ShmLife
