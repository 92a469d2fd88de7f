import Mathlib.Algebra.GroupWithZero.Nat
import Ricerca.Foundation.Triple
import Ricerca.User.Shm
import Ricerca.User.Universe

/-! System calls (`user/entry.c`) as programs on universes and counted objects. A
call runs to its end before the next one starts. Messages, notifications and the
queues behind them have models of their own: here a call on such an object
contributes the status that it returns, which may be any. -/
namespace Ricerca.Entry

open Ricerca.Foundation Ricerca.Cookie Ricerca.Universe
open Ricerca.Shm (UserShmOwner userShmCheckBounds userShmAuthRead userShmAuthWrite
  userShmDropOwnership userShmAcquireOwnership userShmGiveOwnershipToGrp)

/-- The callback that `MEM_REF_INIT` stores in the header of an object. -/
inductive MemRcDispose where
  | userUniverseDestroy
  | userEntryCookieDestroy
  | userShutdownMailbox
  | userRpcShutdownCaller
  | userRpcShutdownCallee
  | userRpcNotifyCalleeUndiscoverable
  | userShmShutdown
  | userShmDealloc
  | uninitialised
  deriving DecidableEq

/-- `struct user_api_entry`; the table behind `tls` belongs to the entry alone. -/
structure UserApiEntry where
  universeRef : Nat
  cookieRef : Nat
  tls : Nat → Option Nat

/-- A shared memory object with the key of its intmap node. -/
structure UserShm extends UserShmOwner where
  key : Nat

/-- Universes, objects and cookies with the callbacks of the objects, the entries,
the shared memory objects under the numbers of their owner objects, and
`user_shm_intmap`. The parts of one allocation have consecutive numbers: a token
follows its callee, and a `user_shm_ref` follows its owner object. -/
structure State extends Universe.State where
  dispose : Nat → MemRcDispose
  apiEntries : List UserApiEntry
  shms : Nat → Option UserShm
  shmIntmap : Nat → Option Nat
  shmLastAllocatedId : Nat

/-- A system call under way; `none` when it does not return. -/
abbrev Call (α : Type) := Prog State α

namespace State

/-- The header of a group cookie is not initialised: `MEM_REF_INIT` is given the key
and not the object. Its counter and its callback are what the memory held. -/
def isGroupCookie (k : State) (obj : Nat) : Prop := k.dispose obj = .uninitialised

instance (k : State) (obj : Nat) : Decidable (k.isGroupCookie obj) :=
  inferInstanceAs (Decidable (k.dispose obj = .uninitialised))

/-- The objects that the in-use cells of a universe refer to. -/
def universeRefs (k : State) (u : Nat) : List Nat :=
  match k.universes u with
  | none => []
  | some uni =>
      ((List.range uni.count).filter fun i => k.inUse (uni.cell i)).map fun i =>
        (k.refs (uni.cell i)).ref

/-- The owner object has not been shut down. -/
def shmListed (k : State) (owner : Nat) : Bool := (k.shms owner).any (·.listed)

/-- `user_shm_shutdown` up to its last statement, which drops the reference to the
`user_shm_ref`. -/
def userShmShutdown (k : State) (owner : Nat) : State :=
  match k.shms owner with
  | none => k
  | some shm =>
      { k with
        shms := Function.update k.shms owner
          (some { shm with toUserShmOwner := { shm.toUserShmOwner with listed := false } })
        shmIntmap := Function.update k.shmIntmap shm.key none }

/-- `mem_rc_drop`, with the references that the callback drops in its turn. The
callbacks of mailboxes, callers, callees and tokens work on other counters. -/
def memRcDrop (k : State) (obj : Nat) : State × List Nat :=
  let k' : State := { k with toState := (k.takeHeld obj).memRefDrop obj }
  if k.refcount obj = 1 then
    match k.dispose obj with
    | .userUniverseDestroy => (k', k.universeRefs obj)
    | .userShmShutdown => (k'.userShmShutdown obj, [obj + 1])
    | _ => (k', [])
  else (k', [])

/-- References are dropped in depth: those of a destroyed object come first. -/
def dropAll : Nat → List Nat → State → State
  | _, [], k => k
  | 0, _ :: _, k => k
  | steps + 1, obj :: work, k =>
      dropAll steps ((k.memRcDrop obj).2 ++ work) (k.memRcDrop obj).1

/-- How many references callbacks can drop: one for each cell and for each owner
object. -/
def pendingDrops (k : State) : Nat :=
  ((List.range k.objectsCount).map fun o =>
    (k.universeRefs o).length + (k.shmListed o).toNat).sum

/-- A new object with its callback. -/
def addObject (k : State) (dispose : MemRcDispose) : State :=
  { k with
    toState := k.newObject
    dispose := Function.update k.dispose k.objectsCount dispose }

end State

section References

/-- `user_drop_ref`, with everything that follows from it. -/
def userDropRef (obj : Nat) : Call Unit := fun k =>
  some ((), k.dropAll (k.pendingDrops + 1) [obj])

/-- `MEM_REF_BORROW` of an object that the call has a pointer to. -/
def userBorrowRef (obj : Nat) : Call Unit := fun k =>
  some ((), { k with toState := (k.memRefBorrow obj).addHeld obj })

def userEntryCookie (cookie : Nat) : Call UserEntryCookie := Prog.read (·.entries cookie)

def userGroupCookie (group : Nat) : Call UserGroupCookie := Prog.read (·.groups group)

def userUniverse (u : Nat) : Call UserUniverse := Prog.read (·.universes u)

/-- The universe in which a handle is looked up. The handle one past the end, for which
the boundary test reads memory behind the array, is not among the calls. -/
def userUniverseWithHandle (u cell : Nat) : Call UserUniverse :=
  Prog.read fun k => (k.universes u).filter fun uni => cell ≠ uni.count

/-- The heap never returns memory that is in use. -/
def heapAnswers (valid : State → Bool) : Call Unit := Prog.guard valid

/-- A function of `user/universe.c` that does not drop references. -/
def liftUniverse {α : Type} (result : Outcome → Option (Except Status α))
    (call : Universe.State → Outcome × Universe.State) : Call (Except Status α) := fun k =>
  (result (call k.toState).1).map fun r => (r, { k with toState := (call k.toState).2 })

def asDone : Outcome → Option (Except Status Unit)
  | .done => some (.ok ())
  | .failed status => some (.error status)
  | _ => none

def asHandle : Outcome → Option (Except Status Nat)
  | .handle cell => some (.ok cell)
  | .failed status => some (.error status)
  | _ => none

def asHandles : Outcome → Option (Except Status (Nat × Nat))
  | .handles first second => some (.ok (first, second))
  | .failed status => some (.error status)
  | _ => none

def asBorrowed : Outcome → Option (Except Status (Nat × UserObjType))
  | .borrowed obj type => some (.ok (obj, type))
  | .failed status => some (.error status)
  | _ => none

end References

section Universes

/-- A function of `user/universe.c` that creates a universe. -/
def createUniverse (call : Universe.State → Outcome × Universe.State) : Call (Except Status Nat) :=
  fun k =>
    match call k.toState with
    | (.created obj, s) =>
        some (.ok obj, { k with
          toState := s, dispose := Function.update k.dispose obj .userUniverseDestroy })
    | (.failed status, s) => some (.error status, { k with toState := s })
    | _ => none

def userUniverseCreate (array : Option Nat) (junk : Memory) : Call (Except Status Nat) := do
  heapAnswers fun k => array.all fun a => k.arrayUnused a
  createUniverse (Universe.userUniverseCreate · array junk)

def userUniverseMoveIn (u : Nat) (ref : UserRef) (heap : HeapAnswer) :
    Call (Except Status Nat) := do
  let uni ← userUniverse u
  heapAnswers (·.answerValid heap)
  liftUniverse asHandle (Universe.userUniverseMoveIn · u uni ref heap)

def userUniverseMoveInPair (u : Nat) (first second : UserRef) (heap heap' : HeapAnswer) :
    Call (Except Status (Nat × Nat)) := do
  let uni ← userUniverse u
  heapAnswers fun k => k.answerValid heap && k.answerValid heap'
  liftUniverse asHandles (Universe.userUniverseMoveInPair · u uni first second heap heap')

def userUniverseBorrowOut (u cell : Nat) : Call (Except Status (Nat × UserObjType)) := do
  let uni ← userUniverseWithHandle u cell
  liftUniverse asBorrowed (Universe.userUniverseBorrowOut · uni cell)

/-- Take the reference out of a cell and into the hands of the call. -/
def takeCell (u cell : Nat) (uni : UserUniverse) : Call Unit := fun k =>
  some ((), { k with
    toState := { k.toState with toStore := k.toStore.freeCell u uni cell }.addHeld
      (k.refs (uni.cell cell)).ref })

def userUniverseDropCell (u cell cookie : Nat) : Call (Except Status Unit) := do
  let uni ← userUniverseWithHandle u cell
  let e ← userEntryCookie cookie
  let k ← get
  let ref := k.refs (uni.cell cell)
  if !userUniverseCheckRefNolock k.toStore uni cell then return .error .invalidHandle
  else if !userUnpinnedFor ref e then return .error .securityViolation
  else
    takeCell u cell uni
    userDropRef ref.ref
    return .ok ()

/-- `user_universe_lock_pair` waits for a mutex that it holds when both universes are
the same. -/
def userUniverseLockPair (src dst : Nat) : Call Unit := Prog.guard fun _ => src ≠ dst

def userUniverseMoveAcross (src dst hsrc cookie : Nat) (heap : HeapAnswer) :
    Call (Except Status Nat) := do
  userUniverseLockPair src dst
  let uni ← userUniverseWithHandle src hsrc
  let dstUni ← userUniverse dst
  let e ← userEntryCookie cookie
  heapAnswers (·.answerValid heap)
  liftUniverse asHandle (Universe.userUniverseMoveAcross · src uni hsrc dst dstUni e heap)

def userUniverseBorrowAcross (src dst hsrc cookie : Nat) (heap : HeapAnswer) :
    Call (Except Status Nat) := do
  userUniverseLockPair src dst
  let uni ← userUniverseWithHandle src hsrc
  let e ← userEntryCookie cookie
  let k ← get
  let ref := k.refs (uni.cell hsrc)
  if !userUniverseCheckRefNolock k.toStore uni hsrc then return .error .invalidHandle
  else
    userBorrowRef ref.ref
    if !userUnpinnedFor ref e then
      userDropRef ref.ref
      return .error .securityViolation
    else
      match ← userUniverseMoveIn dst ref heap with
      | .ok hdst => return .ok hdst
      | .error status => userDropRef ref.ref; return .error status

def userUniverseUnpin (u cell cookie : Nat) : Call (Except Status Unit) := do
  let uni ← userUniverseWithHandle u cell
  let e ← userEntryCookie cookie
  liftUniverse asDone (Universe.userUniverseUnpin · uni cell e)

def userUniversePin (u cell cookie : Nat) : Call (Except Status Unit) := do
  let uni ← userUniverseWithHandle u cell
  let e ← userEntryCookie cookie
  liftUniverse asDone (Universe.userUniversePin · uni cell e)

def userUniverseUnpinFromGroup (u cell cookie group : Nat) : Call (Except Status Unit) := do
  let uni ← userUniverseWithHandle u cell
  let e ← userEntryCookie cookie
  let g ← userGroupCookie group
  liftUniverse asDone (Universe.userUniverseUnpinFromGroup · uni cell e g)

def userUniversePinToGroup (u cell cookie group : Nat) : Call (Except Status Unit) := do
  let uni ← userUniverseWithHandle u cell
  let e ← userEntryCookie cookie
  let g ← userGroupCookie group
  liftUniverse asDone (Universe.userUniversePinToGroup · uni cell e g)

/-- `user_universe_fork`; `array` as in its model. If the array cannot be resized, the
call runs a destructor on an uninitialised array and does not return. -/
def userUniverseFork (src cookie : Nat) (array : Option Nat) (junk : Memory) :
    Call (Except Status Nat) := do
  let uni ← userUniverse src
  let e ← userEntryCookie cookie
  heapAnswers fun k => array.all fun a => k.arrayUnused a
  createUniverse (Universe.userUniverseFork · uni e array junk)

end Universes

section Objects

/-- The functions that allocate an object and initialise its header; `memory` says
whether they find memory for it and for what belongs to it. -/
def createObject (dispose : MemRcDispose) (memory : Bool) : Call (Except Status Nat) := fun k =>
  if memory then some (.ok k.objectsCount, k.addObject dispose) else some (.error .outOfMemory, k)

def userCreateMailbox (memory : Bool) : Call (Except Status Nat) :=
  createObject .userShutdownMailbox memory

def userRpcCreateCaller (memory : Bool) : Call (Except Status Nat) :=
  createObject .userRpcShutdownCaller memory

/-- `user_rpc_create_callee`: a callee and the token in it. Wherever `intmap_init` is
reached, it finds memory. -/
def userRpcCreateCallee (memory : Bool) : Call (Except Status (Nat × Nat)) := fun k =>
  if memory then
    some (.ok (k.objectsCount, k.objectsCount + 1),
      (k.addObject .userRpcShutdownCallee).addObject .userRpcNotifyCalleeUndiscoverable)
  else some (.error .outOfMemory, k)

def userEntryCookieCreate (memory : Bool) : Call (Except Status Nat) := fun k =>
  if memory then
    let k' := k.addObject .userEntryCookieDestroy
    some (.ok k.objectsCount, { k' with
      entries := Function.update k.entries k.objectsCount (some ⟨k.cookieLast, []⟩)
      cookieLast := k.cookieLast.next })
  else some (.error .outOfMemory, k)

/-- `user_group_cookie_create`; `refcount` is what the memory of the new object
holds in the place of its counter. -/
def userGroupCookieCreate (refcount : Nat) (memory : Bool) : Call (Except Status Nat) := fun k =>
  if memory then
    let k' := k.addObject .uninitialised
    some (.ok k.objectsCount, { k' with
      refcount := Function.update k.refcount k.objectsCount refcount
      groups := Function.update k.groups k.objectsCount (some ⟨k.cookieLast⟩)
      cookieLast := k.cookieLast.next })
  else some (.error .outOfMemory, k)

/-- Write an entry cookie back. -/
def setEntryCookie (cookie : Nat) (e : UserEntryCookie) : Call Unit := fun k =>
  some ((), { k with entries := Function.update k.entries cookie (some e) })

def userEntryCookieAddToGrp (cookie group : Nat) (memory : Bool) : Call (Except Status Unit) := do
  let e ← userEntryCookie cookie
  let g ← userGroupCookie group
  let (status, e') := Cookie.userEntryCookieAddToGrp e g memory
  setEntryCookie cookie e'
  return if status = .success then .ok () else .error status

def userEntryCookieRemoveFromGrp (cookie group : Nat) : Call (Except Status Unit) := do
  let e ← userEntryCookie cookie
  let g ← userGroupCookie group
  setEntryCookie cookie (Cookie.userEntryCookieRemoveFromGrp e g).2
  return .ok ()

/-- `user_shm_create`: the owner object and the `user_shm_ref` in it. The owner object
holds a reference to the latter until it is shut down. -/
def userShmCreate (size : UInt64) (cookie : Nat) (memory : Bool) :
    Call (Except Status (Nat × Nat)) := do
  let e ← userEntryCookie cookie
  fun k =>
    if memory then
      let key := userEntryCookieGetKey e
      let k' := (k.addObject .userShmShutdown).addObject .userShmDealloc
      some (.ok (k.objectsCount, k.shmLastAllocatedId), { k' with
        shms := Function.update k.shms k.objectsCount
          (some ⟨⟨fun _ => 0, size.toNat, key, key, true⟩, k.shmLastAllocatedId⟩)
        shmIntmap := Function.update k.shmIntmap k.shmLastAllocatedId (some k.objectsCount)
        shmLastAllocatedId := k.shmLastAllocatedId + 1 })
    else some (.error .outOfMemory, k)

def userShm (owner : Nat) : Call UserShm := Prog.read (·.shms owner)

/-- Change the bytes or the keys of a shared memory object. -/
def modifyShm (owner : Nat) (change : UserShmOwner → UserShmOwner) : Call Unit := fun k =>
  some ((), { k with
    shms := Function.update k.shms owner ((k.shms owner).map fun shm =>
      { shm with toUserShmOwner := change shm.toUserShmOwner }) })

/-- `user_shm_create_ref`: a reference follows its owner object. -/
def userShmCreateRef (owner : Nat) : Call Nat := do
  let _ ← userShm owner
  userBorrowRef (owner + 1)
  return owner + 1

def userShmWriteByRef (ref : Nat) (offset len : UInt64) (data : Nat → UInt8) :
    Call (Except Status Unit) := do
  let shm ← userShm (ref - 1)
  if !userShmCheckBounds shm.toUserShmOwner offset len then return .error .outOfBounds
  else
    modifyShm (ref - 1) (·.write offset len data)
    return .ok ()

def userShmReadByRef (ref : Nat) (offset len : UInt64) (buf : Nat → UInt8) :
    Call (Except Status (Nat → UInt8)) := do
  let shm ← userShm (ref - 1)
  if !userShmCheckBounds shm.toUserShmOwner offset len then return .error .outOfBounds
  else return .ok (shm.read offset len buf)

/-- `user_shm_find_by_id`: an object that is found is borrowed. -/
def userShmFindById (id : Nat) : Call (Option Nat) := do
  match (← get).shmIntmap id with
  | none => return none
  | some owner =>
      let _ ← userShmCreateRef owner
      return some owner

def userShmWriteById (id : Nat) (offset len : UInt64) (data : Nat → UInt8) (cookie : Nat) :
    Call (Except Status Unit) := do
  match ← userShmFindById id with
  | none => return .error .securityViolation
  | some owner =>
      let shm ← userShm owner
      let e ← userEntryCookie cookie
      if !userShmAuthWrite shm.toUserShmOwner e then
        userDropRef (owner + 1)
        return .error .securityViolation
      else if !userShmCheckBounds shm.toUserShmOwner offset len then
        userDropRef (owner + 1)
        return .error .outOfBounds
      else
        modifyShm owner (·.write offset len data)
        userDropRef (owner + 1)
        return .ok ()

def userShmReadById (id : Nat) (offset len : UInt64) (buf : Nat → UInt8) (cookie : Nat) :
    Call (Except Status (Nat → UInt8)) := do
  match ← userShmFindById id with
  | none => return .error .securityViolation
  | some owner =>
      let shm ← userShm owner
      let e ← userEntryCookie cookie
      if !userShmAuthRead shm.toUserShmOwner e then
        userDropRef (owner + 1)
        return .error .securityViolation
      else if !userShmCheckBounds shm.toUserShmOwner offset len then
        userDropRef (owner + 1)
        return .error .outOfBounds
      else
        userDropRef (owner + 1)
        return .ok (shm.read offset len buf)

end Objects

section Calls

variable (entry : UserApiEntry)

/-- The shape of the calls that work on an object: borrow the reference, check its
type, use it, and drop it in every case. -/
def withHandle {α : Type} (handle : Nat) (accepts : UserObjType → Bool)
    (use : Nat → Call (Except Status α)) : Call (Except Status α) := do
  match ← userUniverseBorrowOut entry.universeRef handle with
  | .error status => return .error status
  | .ok (obj, type) =>
      if !accepts type then
        userDropRef obj
        return .error .invalidHandleType
      else
        let result ← use obj
        userDropRef obj
        return result

/-- The shape of the calls that work on two objects, which drop the first reference
before the second one. -/
def withHandlePair {α : Type} (first : Nat) (firstType : UserObjType) (second : Nat)
    (secondType : UserObjType) (use : Nat → Nat → Call (Except Status α)) :
    Call (Except Status α) := do
  match ← userUniverseBorrowOut entry.universeRef first with
  | .error status => return .error status
  | .ok (obj, type) =>
      if type ≠ firstType then
        userDropRef obj
        return .error .invalidHandleType
      else
        match ← userUniverseBorrowOut entry.universeRef second with
        | .error status =>
            userDropRef obj
            return .error status
        | .ok (obj', type') =>
            if type' ≠ secondType then
              userDropRef obj
              userDropRef obj'
              return .error .invalidHandleType
            else
              let result ← use obj obj'
              userDropRef obj
              userDropRef obj'
              return result

/-- A reference to a new object, pinned to the entry. -/
def pinnedRef (obj : Nat) (type : UserObjType) : Call UserRef := do
  let e ← userEntryCookie entry.cookieRef
  return ⟨obj, type, userEntryCookieGetKey e⟩

/-- The end of the calls that create a reference: store it, or drop it. -/
def storeRef (obj : Nat) (type : UserObjType) (heap : HeapAnswer) : Call (Except Status Nat) := do
  let ref ← pinnedRef entry obj type
  match ← userUniverseMoveIn entry.universeRef ref heap with
  | .ok handle => return .ok handle
  | .error status =>
      userDropRef obj
      return .error status

/-- The shape of the calls that create an object. -/
def storeNew (create : Call (Except Status Nat)) (type : UserObjType) (heap : HeapAnswer) :
    Call (Except Status Nat) := do
  match ← create with
  | .error status => return .error status
  | .ok obj => storeRef entry obj type heap

def userSysCreateMailbox (memory : Bool) (heap : HeapAnswer) : Call (Except Status Nat) :=
  storeNew entry (userCreateMailbox memory) .mailbox heap

/-- `user_sys_get_notification`, once there is a notification to receive. -/
def userSysGetNotification (hmailbox : Nat) (status : Except Status Unit) :
    Call (Except Status Unit) :=
  withHandle entry hmailbox (· = .mailbox) fun _ => return status

def userSysCreateGroupCookie (refcount : Nat) (memory : Bool) (heap : HeapAnswer) :
    Call (Except Status Nat) :=
  storeNew entry (userGroupCookieCreate refcount memory) .groupCookie heap

def userSysCreateEntryCookie (memory : Bool) (heap : HeapAnswer) : Call (Except Status Nat) :=
  storeNew entry (userEntryCookieCreate memory) .entryCookie heap

def userSysJoinGroup (hgrp : Nat) (memory : Bool) : Call (Except Status Unit) :=
  withHandle entry hgrp (· = .groupCookie) fun group =>
    userEntryCookieAddToGrp entry.cookieRef group memory

def userSysLeaveGroup (hgrp : Nat) : Call (Except Status Unit) :=
  withHandle entry hgrp (· = .groupCookie) fun group =>
    userEntryCookieRemoveFromGrp entry.cookieRef group

def userSysAddEntryToGroup (hentry hgrp : Nat) (memory : Bool) : Call (Except Status Unit) :=
  withHandlePair entry hentry .entryCookie hgrp .groupCookie fun cookie group =>
    userEntryCookieAddToGrp cookie group memory

def userSysRemoveEntryFromGroup (hentry hgrp : Nat) : Call (Except Status Unit) :=
  withHandlePair entry hentry .entryCookie hgrp .groupCookie fun cookie group =>
    userEntryCookieRemoveFromGrp cookie group

def userSysCreateCaller (hmailbox : Nat) (memory : Bool) (heap : HeapAnswer) :
    Call (Except Status Nat) :=
  let create := withHandle entry hmailbox (· = .mailbox) fun _ => userRpcCreateCaller memory
  storeNew entry create .caller heap

def userSysCreateCallee (hmailbox : Nat) (memory : Bool) (heap heap' : HeapAnswer) :
    Call (Except Status (Nat × Nat)) := do
  match ← withHandle entry hmailbox (· = .mailbox) fun _ => userRpcCreateCallee memory with
  | .error status => return .error status
  | .ok (callee, token) =>
      let calleeRef ← pinnedRef entry callee .callee
      let tokenRef ← pinnedRef entry token .token
      match ← userUniverseMoveInPair entry.universeRef calleeRef tokenRef heap heap' with
      | .ok handles => return .ok handles
      | .error status =>
          userDropRef callee
          userDropRef token
          return .error status

/-- `user_sys_rpc_call` drops the token before the caller. -/
def userSysRpcCall (hcaller htoken : Nat) (status : Except Status Unit) :
    Call (Except Status Unit) :=
  withHandle entry hcaller (· = .caller) fun _ =>
    withHandle entry htoken (· = .token) fun _ => return status

def userSysRpcAccept (hcallee : Nat) (status : Except Status Unit) : Call (Except Status Unit) :=
  withHandle entry hcallee (· = .callee) fun _ => return status

def userSysRpcReturn (hcallee : Nat) (status : Except Status Unit) : Call (Except Status Unit) :=
  withHandle entry hcallee (· = .callee) fun _ => return status

def userSysRpcRecvReply (hcaller : Nat) (status : Except Status Unit) : Call (Except Status Unit) :=
  withHandle entry hcaller (· = .caller) fun _ => return status

def userSysCreateUniverse (array : Option Nat) (junk : Memory) (heap : HeapAnswer) :
    Call (Except Status Nat) :=
  storeNew entry (userUniverseCreate array junk) .universe heap

def userSysMoveAcrossUniverses (hsrc hdst hsrci : Nat) (heap : HeapAnswer) :
    Call (Except Status Nat) :=
  withHandlePair entry hsrc .universe hdst .universe fun src dst =>
    userUniverseMoveAcross src dst hsrci entry.cookieRef heap

def userSysBorrowAcrossUniverses (hsrc hdst hsrci : Nat) (heap : HeapAnswer) :
    Call (Except Status Nat) :=
  withHandlePair entry hsrc .universe hdst .universe fun src dst =>
    userUniverseBorrowAcross src dst hsrci entry.cookieRef heap

def userSysMoveIn (huniverse outer : Nat) (heap : HeapAnswer) : Call (Except Status Nat) :=
  withHandle entry huniverse (· = .universe) fun u =>
    userUniverseMoveAcross entry.universeRef u outer entry.cookieRef heap

def userSysMoveOut (huniverse inner : Nat) (heap : HeapAnswer) : Call (Except Status Nat) :=
  withHandle entry huniverse (· = .universe) fun u =>
    userUniverseMoveAcross u entry.universeRef inner entry.cookieRef heap

def userSysBorrowIn (huniverse outer : Nat) (heap : HeapAnswer) : Call (Except Status Nat) :=
  withHandle entry huniverse (· = .universe) fun u =>
    userUniverseBorrowAcross entry.universeRef u outer entry.cookieRef heap

def userSysBorrowOut (huniverse inner : Nat) (heap : HeapAnswer) : Call (Except Status Nat) :=
  withHandle entry huniverse (· = .universe) fun u =>
    userUniverseBorrowAcross u entry.universeRef inner entry.cookieRef heap

def userSysUnpin (handle : Nat) : Call (Except Status Unit) :=
  userUniverseUnpin entry.universeRef handle entry.cookieRef

def userSysPin (handle : Nat) : Call (Except Status Unit) :=
  userUniversePin entry.universeRef handle entry.cookieRef

def userSysUnpinFromGroup (handle hgrp : Nat) : Call (Except Status Unit) :=
  withHandle entry hgrp (· = .groupCookie) fun group =>
    userUniverseUnpinFromGroup entry.universeRef handle entry.cookieRef group

def userSysPinToGroup (handle hgrp : Nat) : Call (Except Status Unit) :=
  withHandle entry hgrp (· = .groupCookie) fun group =>
    userUniversePinToGroup entry.universeRef handle entry.cookieRef group

/-- `user_sys_fork_universe` forks the universe of the entry, whatever the handle
refers to. -/
def userSysForkUniverse (hsrc : Nat) (array : Option Nat) (junk : Memory) (heap : HeapAnswer) :
    Call (Except Status Nat) :=
  let fork := withHandle entry hsrc (· = .universe) fun _ =>
    userUniverseFork entry.universeRef entry.cookieRef array junk
  storeNew entry fork .universe heap

def userSysDropIn (huniverse inner : Nat) : Call (Except Status Unit) :=
  withHandle entry huniverse (· = .universe) fun u =>
    userUniverseDropCell u inner entry.cookieRef

/-- `user_sys_create_shm_owned` returns the id next to the handle. -/
def userSysCreateShmOwned (size : UInt64) (memory : Bool) (heap : HeapAnswer) :
    Call (Except Status (Nat × Nat)) := do
  match ← userShmCreate size entry.cookieRef memory with
  | .error status => return .error status
  | .ok (owner, id) =>
      match ← storeRef entry owner .shmOwner heap with
      | .error status => return .error status
      | .ok handle => return .ok (handle, id)

/-- The shape of the two calls that make a reference of one type from an owner
object. -/
def borrowShm (hshm : Nat) (type : UserObjType) (heap : HeapAnswer) : Call (Except Status Nat) :=
  let create := withHandle entry hshm (· = .shmOwner) fun owner => .ok <$> userShmCreateRef owner
  storeNew entry create type heap

def userSysBorrowShmRw (hshm : Nat) (heap : HeapAnswer) : Call (Except Status Nat) :=
  borrowShm entry hshm .shmRwRef heap

def userSysBorrowShmRo (hshm : Nat) (heap : HeapAnswer) : Call (Except Status Nat) :=
  borrowShm entry hshm .shmRoRef heap

/-- `user_sys_read_from_shm_ref` returns success even if the read fails, and leaves
the buffer as it was. -/
def userSysReadFromShmRef (hshmref : Nat) (offset len : UInt64) (buf : Nat → UInt8) :
    Call (Except Status (Nat → UInt8)) :=
  withHandle entry hshmref (fun type => type = .shmRoRef || type = .shmRwRef) fun ref => do
    match ← userShmReadByRef ref offset len buf with
    | .ok buf' => return .ok buf'
    | .error _ => return .ok buf

/-- `user_sys_write_to_shm_ref` returns success even if the write fails. -/
def userSysWriteToShmRef (hshmref : Nat) (offset len : UInt64) (data : Nat → UInt8) :
    Call (Except Status Unit) :=
  withHandle entry hshmref (· = .shmRwRef) fun ref => do
    let _ ← userShmWriteByRef ref offset len data
    return .ok ()

def userSysReadFromShmId (id : Nat) (offset len : UInt64) (buf : Nat → UInt8) :
    Call (Except Status (Nat → UInt8)) :=
  userShmReadById id offset len buf entry.cookieRef

def userSysWriteToShmId (id : Nat) (offset len : UInt64) (data : Nat → UInt8) :
    Call (Except Status Unit) :=
  userShmWriteById id offset len data entry.cookieRef

def userSysUnrestrictShm (hshm : Nat) (rw : Bool) : Call (Except Status Unit) :=
  withHandle entry hshm (· = .shmOwner) fun owner => do
    modifyShm owner (userShmDropOwnership · rw)
    return .ok ()

def userSysRestrictShm (hshm : Nat) (rw : Bool) : Call (Except Status Unit) :=
  withHandle entry hshm (· = .shmOwner) fun owner => do
    let e ← userEntryCookie entry.cookieRef
    modifyShm owner (userShmAcquireOwnership · e rw)
    return .ok ()

def userSysRestrictShmToGroup (hshm hgrp : Nat) (rw : Bool) : Call (Except Status Unit) :=
  withHandlePair entry hshm .shmOwner hgrp .groupCookie fun owner group => do
    let g ← userGroupCookie group
    modifyShm owner (userShmGiveOwnershipToGrp · g rw)
    return .ok ()

def userSysDrop (handle : Nat) : Call (Except Status Unit) :=
  userUniverseDropCell entry.universeRef handle entry.cookieRef

end Calls

section Entries

/-- The entry in the hands of a thread. -/
def apiEntry (i : Nat) : Call UserApiEntry := Prog.read (·.apiEntries[i]?)

/-- `user_tls_table_set_key`: only a key that is not in the table needs memory. -/
def userTlsTableSetKey (table : Nat → Option Nat) (key value : Nat) (memory : Bool) :
    Except Status (Nat → Option Nat) :=
  if (table key).isSome || memory then .ok (Function.update table key (some value))
  else .error .outOfMemory

def userSysSetTlsKey (i key value : Nat) (memory : Bool) : Call (Except Status Unit) := do
  let entry ← apiEntry i
  match userTlsTableSetKey entry.tls key value memory with
  | .error status => return .error status
  | .ok tls =>
      modify fun k => { k with apiEntries := k.apiEntries.set i { entry with tls := tls } }
      return .ok ()

def userSysGetTlsKey (i key : Nat) : Call Nat := do
  let entry ← apiEntry i
  return (entry.tls key).getD 0

/-- `user_api_entry_init`; `tlsMemory` is for the table. -/
def userApiEntryInit (array : Option Nat) (junk : Memory) (cookieMemory tlsMemory : Bool) :
    Call (Except Status Unit) := do
  match ← userUniverseCreate array junk with
  | .error status => return .error status
  | .ok u =>
      match ← userEntryCookieCreate cookieMemory with
      | .error status =>
          userDropRef u
          return .error status
      | .ok cookie =>
          if !tlsMemory then
            userDropRef cookie
            userDropRef u
            return .error .outOfMemory
          else
            modify fun k => { k with apiEntries := k.apiEntries ++ [⟨u, cookie, fun _ => none⟩] }
            return .ok ()

def userApiEntryDeinit (i : Nat) : Call Unit := do
  let entry ← apiEntry i
  modify fun k => { k with apiEntries := k.apiEntries.eraseIdx i }
  userDropRef entry.universeRef
  userDropRef entry.cookieRef

/-- `user_api_entry_move_handle_out`, where the handle refers to something. -/
def userApiEntryMoveHandleOut (entry : UserApiEntry) (handle : Nat) : Call UserRef := do
  let uni ← userUniverseWithHandle entry.universeRef handle
  let k ← get
  if !userUniverseCheckRefNolock k.toStore uni handle then failure
  else
    takeCell entry.universeRef handle uni
    return k.refs (uni.cell handle)

/-- The kernel hands a reference from one entry over to another one, and panics if that
fails. -/
def handOver (src dst handle : Nat) (heap : HeapAnswer) : Call Nat := do
  let srcEntry ← apiEntry src
  let dstEntry ← apiEntry dst
  let ref ← userApiEntryMoveHandleOut srcEntry handle
  match ← userUniverseMoveIn dstEntry.universeRef ref heap with
  | .error _ => failure
  | .ok handle' => return handle'

end Entries

/-- The system calls, with the answers of the heap and of the objects that they get. -/
inductive Op where
  | createMailbox (memory : Bool) (heap : HeapAnswer)
  | getNotification (hmailbox : Nat) (status : Except Status Unit)
  | createGroupCookie (refcount : Nat) (memory : Bool) (heap : HeapAnswer)
  | createEntryCookie (memory : Bool) (heap : HeapAnswer)
  | joinGroup (hgrp : Nat) (memory : Bool)
  | leaveGroup (hgrp : Nat)
  | addEntryToGroup (hentry hgrp : Nat) (memory : Bool)
  | removeEntryFromGroup (hentry hgrp : Nat)
  | createCaller (hmailbox : Nat) (memory : Bool) (heap : HeapAnswer)
  | createCallee (hmailbox : Nat) (memory : Bool) (heap heap' : HeapAnswer)
  | rpcCall (hcaller htoken : Nat) (status : Except Status Unit)
  | rpcAccept (hcallee : Nat) (status : Except Status Unit)
  | rpcReturn (hcallee : Nat) (status : Except Status Unit)
  | rpcRecvReply (hcaller : Nat) (status : Except Status Unit)
  | createUniverse (array : Option Nat) (junk : Memory) (heap : HeapAnswer)
  | moveAcrossUniverses (hsrc hdst hsrci : Nat) (heap : HeapAnswer)
  | borrowAcrossUniverses (hsrc hdst hsrci : Nat) (heap : HeapAnswer)
  | moveIn (huniverse outer : Nat) (heap : HeapAnswer)
  | moveOut (huniverse inner : Nat) (heap : HeapAnswer)
  | borrowIn (huniverse outer : Nat) (heap : HeapAnswer)
  | borrowOut (huniverse inner : Nat) (heap : HeapAnswer)
  | unpin (handle : Nat)
  | pin (handle : Nat)
  | unpinFromGroup (handle hgrp : Nat)
  | pinToGroup (handle hgrp : Nat)
  | forkUniverse (hsrc : Nat) (array : Option Nat) (junk : Memory) (heap : HeapAnswer)
  | dropIn (huniverse inner : Nat)
  | createShmOwned (size : UInt64) (memory : Bool) (heap : HeapAnswer)
  | borrowShmRw (hshm : Nat) (heap : HeapAnswer)
  | borrowShmRo (hshm : Nat) (heap : HeapAnswer)
  | readFromShmRef (hshmref : Nat) (offset len : UInt64) (buf : Nat → UInt8)
  | writeToShmRef (hshmref : Nat) (offset len : UInt64) (data : Nat → UInt8)
  | readFromShmId (id : Nat) (offset len : UInt64) (buf : Nat → UInt8)
  | writeToShmId (id : Nat) (offset len : UInt64) (data : Nat → UInt8)
  | unrestrictShm (hshm : Nat) (rw : Bool)
  | restrictShm (hshm : Nat) (rw : Bool)
  | restrictShmToGroup (hshm hgrp : Nat) (rw : Bool)
  | drop (handle : Nat)
  | setTlsKey (key value : Nat) (memory : Bool)
  | getTlsKey (key : Nat)

/-- What a call hands back. -/
inductive Reply where
  | status (result : Except Status Unit)
  | handle (result : Except Status Nat)
  | handles (result : Except Status (Nat × Nat))
  | bytes (result : Except Status (Nat → UInt8))
  | value (value : Nat)

/-- Look the entry up and make the call. -/
def forEntry {α : Type} (i : Nat) (reply : α → Reply) (call : UserApiEntry → Call α) :
    Call Reply := do
  let entry ← apiEntry i
  reply <$> call entry

/-- The call of entry `i`. -/
def Op.call (i : Nat) : Op → Call Reply
  | .createMailbox memory heap => forEntry i .handle (userSysCreateMailbox · memory heap)
  | .getNotification hmailbox status =>
      forEntry i .status (userSysGetNotification · hmailbox status)
  | .createGroupCookie refcount memory heap =>
      forEntry i .handle (userSysCreateGroupCookie · refcount memory heap)
  | .createEntryCookie memory heap => forEntry i .handle (userSysCreateEntryCookie · memory heap)
  | .joinGroup hgrp memory => forEntry i .status (userSysJoinGroup · hgrp memory)
  | .leaveGroup hgrp => forEntry i .status (userSysLeaveGroup · hgrp)
  | .addEntryToGroup hentry hgrp memory =>
      forEntry i .status (userSysAddEntryToGroup · hentry hgrp memory)
  | .removeEntryFromGroup hentry hgrp =>
      forEntry i .status (userSysRemoveEntryFromGroup · hentry hgrp)
  | .createCaller hmailbox memory heap =>
      forEntry i .handle (userSysCreateCaller · hmailbox memory heap)
  | .createCallee hmailbox memory heap heap' =>
      forEntry i .handles (userSysCreateCallee · hmailbox memory heap heap')
  | .rpcCall hcaller htoken status => forEntry i .status (userSysRpcCall · hcaller htoken status)
  | .rpcAccept hcallee status => forEntry i .status (userSysRpcAccept · hcallee status)
  | .rpcReturn hcallee status => forEntry i .status (userSysRpcReturn · hcallee status)
  | .rpcRecvReply hcaller status => forEntry i .status (userSysRpcRecvReply · hcaller status)
  | .createUniverse array junk heap => forEntry i .handle (userSysCreateUniverse · array junk heap)
  | .moveAcrossUniverses hsrc hdst hsrci heap =>
      forEntry i .handle (userSysMoveAcrossUniverses · hsrc hdst hsrci heap)
  | .borrowAcrossUniverses hsrc hdst hsrci heap =>
      forEntry i .handle (userSysBorrowAcrossUniverses · hsrc hdst hsrci heap)
  | .moveIn huniverse outer heap => forEntry i .handle (userSysMoveIn · huniverse outer heap)
  | .moveOut huniverse inner heap => forEntry i .handle (userSysMoveOut · huniverse inner heap)
  | .borrowIn huniverse outer heap => forEntry i .handle (userSysBorrowIn · huniverse outer heap)
  | .borrowOut huniverse inner heap => forEntry i .handle (userSysBorrowOut · huniverse inner heap)
  | .unpin handle => forEntry i .status (userSysUnpin · handle)
  | .pin handle => forEntry i .status (userSysPin · handle)
  | .unpinFromGroup handle hgrp => forEntry i .status (userSysUnpinFromGroup · handle hgrp)
  | .pinToGroup handle hgrp => forEntry i .status (userSysPinToGroup · handle hgrp)
  | .forkUniverse hsrc array junk heap =>
      forEntry i .handle (userSysForkUniverse · hsrc array junk heap)
  | .dropIn huniverse inner => forEntry i .status (userSysDropIn · huniverse inner)
  | .createShmOwned size memory heap =>
      forEntry i .handles (userSysCreateShmOwned · size memory heap)
  | .borrowShmRw hshm heap => forEntry i .handle (userSysBorrowShmRw · hshm heap)
  | .borrowShmRo hshm heap => forEntry i .handle (userSysBorrowShmRo · hshm heap)
  | .readFromShmRef hshmref offset len buf =>
      forEntry i .bytes (userSysReadFromShmRef · hshmref offset len buf)
  | .writeToShmRef hshmref offset len data =>
      forEntry i .status (userSysWriteToShmRef · hshmref offset len data)
  | .readFromShmId id offset len buf => forEntry i .bytes (userSysReadFromShmId · id offset len buf)
  | .writeToShmId id offset len data =>
      forEntry i .status (userSysWriteToShmId · id offset len data)
  | .unrestrictShm hshm rw => forEntry i .status (userSysUnrestrictShm · hshm rw)
  | .restrictShm hshm rw => forEntry i .status (userSysRestrictShm · hshm rw)
  | .restrictShmToGroup hshm hgrp rw =>
      forEntry i .status (userSysRestrictShmToGroup · hshm hgrp rw)
  | .drop handle => forEntry i .status (userSysDrop · handle)
  | .setTlsKey key value memory => .status <$> userSysSetTlsKey i key value memory
  | .getTlsKey key => .value <$> userSysGetTlsKey i key

/-- What the kernel does next: set up an entry, take one down, hand a reference from
one to another, or serve a system call. -/
inductive Request where
  | entryInit (array : Option Nat) (junk : Memory) (cookieMemory tlsMemory : Bool)
  | entryDeinit (i : Nat)
  | handOver (src dst handle : Nat) (heap : HeapAnswer)
  | sys (i : Nat) (op : Op)

def Request.call : Request → Call Reply
  | .entryInit array junk cookieMemory tlsMemory =>
      .status <$> userApiEntryInit array junk cookieMemory tlsMemory
  | .entryDeinit i => (fun _ => .status (.ok ())) <$> userApiEntryDeinit i
  | .handOver src dst handle heap => .value <$> Entry.handOver src dst handle heap
  | .sys i op => op.call i

/-- The kernel before the first entry is set up; memory holds anything. -/
def initial (m : Memory) : State where
  toState := Universe.initial m
  dispose := fun _ => .uninitialised
  apiEntries := []
  shms := fun _ => none
  shmIntmap := fun _ => none
  shmLastAllocatedId := 0

/-- Every sequence of requests, each served before the next one. -/
def system (m : Memory) : System State (Request × Reply) :=
  System.ofExec (initial m) fun k request => request.call k

end Ricerca.Entry
