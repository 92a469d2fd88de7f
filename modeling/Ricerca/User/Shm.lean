import Ricerca.Foundation.Execution
import Ricerca.User.Cookie
import Mathlib.Logic.Function.Basic

/-! Shared memory objects (`user/shm.c`). An object carries its bytes and two
keys. Reads by id are authenticated against either key, writes only against
`rw_key`. A step of the system is one completed call by some entry; the bucket
spinlocks and the object lock make each of them atomic here. -/
namespace Ricerca.Shm

open Ricerca.Foundation Ricerca.Cookie

/-- `struct user_shm_owner`, without its reference counts. `listed` says that the
node is in `user_shm_intmap`, so that the object can be found by its id. -/
structure UserShmOwner where
  data : Nat → UInt8
  size : Nat
  roKey : Nat
  rwKey : Nat
  listed : Bool

/-- Everything the calls share: the objects under their ids, the cookies of all
entries and groups, and the two counters. -/
structure State where
  entries : Nat → Option UserEntryCookie
  entriesCount : Nat
  groups : Nat → Option UserGroupCookie
  groupsCount : Nat
  cookieLast : IssuedKey
  shms : Nat → Option UserShmOwner
  lastAllocatedId : Nat

def State.initial : State where
  entries := fun _ => none
  entriesCount := 0
  groups := fun _ => none
  groupsCount := 0
  cookieLast := userCookieLast
  shms := fun _ => none
  lastAllocatedId := 0

/-- What a call hands back: its status, and the id of a created object. -/
structure Outcome where
  status : Status
  id : Option Nat := none

/-- `user_shm_create`. The two flags say whether `mem_heap_alloc` finds memory
for the object and for its bytes. -/
def userShmCreate (s : State) (size : UInt64) (cookie : UserEntryCookie)
    (objectMemory dataMemory : Bool) : Outcome × State :=
  if !objectMemory then (⟨.outOfMemory, none⟩, s)
  else if !dataMemory then (⟨.outOfMemory, none⟩, s)
  else
    let key := userEntryCookieGetKey cookie
    (⟨.success, some s.lastAllocatedId⟩, { s with
      shms := Function.update s.shms s.lastAllocatedId
        (some ⟨fun _ => 0, size.toNat, key, key, true⟩)
      lastAllocatedId := s.lastAllocatedId + 1 })

/-- `user_shm_shutdown`: the id is taken out of the map. -/
def userShmShutdown (s : State) (id : Nat) : State :=
  { s with
    shms := Function.update s.shms id
      ((s.shms id).map fun shm => { shm with listed := false }) }

/-- `__builtin_add_overflow` and the comparison with the size. -/
def userShmCheckBounds (shm : UserShmOwner) (offset len : UInt64) : Bool :=
  if 2 ^ 64 ≤ offset.toNat + len.toNat then false
  else decide (offset.toNat + len.toNat ≤ shm.size)

/-- `mem_copy_from_user` into the object's bytes, which always succeeds. -/
def UserShmOwner.write (shm : UserShmOwner) (offset len : UInt64) (data : Nat → UInt8) :
    UserShmOwner :=
  { shm with
    data := fun i =>
      if offset.toNat ≤ i ∧ i < offset.toNat + len.toNat then data (i - offset.toNat)
      else shm.data i }

/-- `mem_copy_to_user` out of the object's bytes, into the caller's buffer. -/
def UserShmOwner.read (shm : UserShmOwner) (offset len : UInt64) (buf : Nat → UInt8) :
    Nat → UInt8 :=
  fun i => if i < len.toNat then shm.data (offset.toNat + i) else buf i

def userShmAuthRead (shm : UserShmOwner) (cookie : UserEntryCookie) : Bool :=
  userEntryCookieAuth cookie shm.rwKey || userEntryCookieAuth cookie shm.roKey

def userShmAuthWrite (shm : UserShmOwner) (cookie : UserEntryCookie) : Bool :=
  userEntryCookieAuth cookie shm.rwKey

def userShmFindById (s : State) (id : Nat) : Option UserShmOwner :=
  (s.shms id).filter (·.listed)

def userShmWriteById (s : State) (id : Nat) (offset len : UInt64) (data : Nat → UInt8)
    (cookie : UserEntryCookie) : Status × State :=
  match userShmFindById s id with
  | none => (.securityViolation, s)
  | some shm =>
      if !userShmAuthWrite shm cookie then (.securityViolation, s)
      else if !userShmCheckBounds shm offset len then (.outOfBounds, s)
      else (.success,
        { s with shms := Function.update s.shms id (some (shm.write offset len data)) })

def userShmReadById (s : State) (id : Nat) (offset len : UInt64) (buf : Nat → UInt8)
    (cookie : UserEntryCookie) : Status × (Nat → UInt8) :=
  match userShmFindById s id with
  | none => (.securityViolation, buf)
  | some shm =>
      if !userShmAuthRead shm cookie then (.securityViolation, buf)
      else if !userShmCheckBounds shm offset len then (.outOfBounds, buf)
      else (.success, shm.read offset len buf)

/-- `user_shm_modify_perms`. -/
def userShmModifyPerms (shm : UserShmOwner) (key : Nat) (rw : Bool) : UserShmOwner :=
  if rw then { shm with roKey := key } else { shm with rwKey := key }

def userShmDropOwnership (shm : UserShmOwner) (rw : Bool) : UserShmOwner :=
  userShmModifyPerms shm userCookieKeyUniversal rw

def userShmAcquireOwnership (shm : UserShmOwner) (cookie : UserEntryCookie) (rw : Bool) :
    UserShmOwner :=
  userShmModifyPerms shm (userEntryCookieGetKey cookie) rw

def userShmGiveOwnershipToGrp (shm : UserShmOwner) (group : UserGroupCookie) (rw : Bool) :
    UserShmOwner :=
  userShmModifyPerms shm (userGroupCookieGetKey group) rw

/-- Whom a permission call names: everybody (`user_shm_drop_ownership`), the
calling entry (`user_shm_acquire_ownership`) or a group
(`user_shm_give_ownership_to_grp`). -/
inductive Audience where
  | everybody
  | caller (cookie : UserEntryCookie)
  | group (cookie : UserGroupCookie)

/-- The permission call for each audience. -/
def Audience.call : Audience → UserShmOwner → Bool → UserShmOwner
  | .everybody, shm, rw => userShmDropOwnership shm rw
  | .caller cookie, shm, rw => userShmAcquireOwnership shm cookie rw
  | .group cookie, shm, rw => userShmGiveOwnershipToGrp shm cookie rw

/-- The key that stands for an audience. -/
def Audience.key : Audience → Nat
  | .everybody => userCookieKeyUniversal
  | .caller cookie => userEntryCookieGetKey cookie
  | .group cookie => userGroupCookieGetKey cookie

/-- An entry belongs to the audience when it authenticates for its key: always,
as the calling entry itself, or as a member of the group. -/
def Audience.Admits (audience : Audience) (entry : UserEntryCookie) : Prop :=
  userEntryCookieAuth entry audience.key = true

theorem Audience.call_eq (audience : Audience) (shm : UserShmOwner) (rw : Bool) :
    audience.call shm rw = userShmModifyPerms shm audience.key rw := by
  cases audience <;> rfl

/-- One completed call, with the arguments it was made with. -/
inductive Call where
  | createEntryCookie
  | createGroupCookie
  | addToGrp (entry group : Nat) (memory : Bool)
  | removeFromGrp (entry group : Nat)
  | create (entry : Nat) (size : UInt64) (objectMemory dataMemory : Bool)
  | shutdown (id : Nat)
  | setPerms (id : Nat) (audience : Audience) (rw : Bool)
  | writeById (entry id : Nat) (offset len : UInt64) (data : Nat → UInt8)
  | readById (entry id : Nat) (offset len : UInt64) (buf : Nat → UInt8)

/-- The effect of a completed call. `none` when the call cannot be made: its
cookie or its owner reference does not exist. -/
def exec (s : State) : Call → Option (Outcome × State)
  | .createEntryCookie => some (⟨.success, none⟩, { s with
      entries := Function.update s.entries s.entriesCount (some ⟨s.cookieLast, []⟩)
      entriesCount := s.entriesCount + 1
      cookieLast := s.cookieLast.next })
  | .createGroupCookie => some (⟨.success, none⟩, { s with
      groups := Function.update s.groups s.groupsCount (some ⟨s.cookieLast⟩)
      groupsCount := s.groupsCount + 1
      cookieLast := s.cookieLast.next })
  | .addToGrp entry group memory => do
      let cookie ← s.entries entry
      let grp ← s.groups group
      let (status, cookie') := userEntryCookieAddToGrp cookie grp memory
      return (⟨status, none⟩, { s with entries := Function.update s.entries entry (some cookie') })
  | .removeFromGrp entry group => do
      let cookie ← s.entries entry
      let grp ← s.groups group
      let (status, cookie') := userEntryCookieRemoveFromGrp cookie grp
      return (⟨status, none⟩, { s with entries := Function.update s.entries entry (some cookie') })
  | .create entry size objectMemory dataMemory => do
      let cookie ← s.entries entry
      return userShmCreate s size cookie objectMemory dataMemory
  | .shutdown id => do
      -- the owner reference is dropped once, while the object is still listed
      let _ ← userShmFindById s id
      return (⟨.success, none⟩, userShmShutdown s id)
  | .setPerms id audience rw => do
      -- only a holder of the owner reference gets here
      let shm ← userShmFindById s id
      return (⟨.success, none⟩,
        { s with shms := Function.update s.shms id (some (audience.call shm rw)) })
  | .writeById entry id offset len data => do
      let cookie ← s.entries entry
      let (status, s') := userShmWriteById s id offset len data cookie
      return (⟨status, none⟩, s')
  | .readById entry id offset len buf => do
      let cookie ← s.entries entry
      return (⟨(userShmReadById s id offset len buf cookie).1, none⟩, s)

/-- Runs of calls from the state `user_shm_init` leaves. -/
def system : System State (Call × Outcome) := System.ofExec State.initial exec

end Ricerca.Shm
