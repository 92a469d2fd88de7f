import Ricerca.User.EntryShmIds

/-! Two ways to one shared memory object. The calls that get a handle and those that get the id
of the object do the same to it, but the former drop the status of the access: when the slice
does not fit into the object they return success. -/
namespace Ricerca.Entry

open Ricerca.Foundation Ricerca.Cookie Ricerca.Universe
open Ricerca.Shm (userShmCheckBounds)

section Paths

variable {k : State} {entry : UserApiEntry} {handle owner id : Nat} {ref : UserRef} {shm : UserShm}
  {e : UserEntryCookie} {offset len : UInt64}

/-- The object is borrowed for the time of a call. -/
def State.borrowed (k : State) (obj : Nat) : State :=
  { k with toState := (k.memRefBorrow obj).addHeld obj }

/-- The reference of a call is dropped, with everything that follows from it. -/
def State.dropped (k : State) (obj : Nat) : State := k.dropAll (k.pendingDrops + 1) [obj]

/-- The bytes of an object are written. -/
def State.shmWritten (k : State) (owner : Nat) (offset len : UInt64) (data : Nat → UInt8) : State :=
  { k with
    shms := Function.update k.shms owner ((k.shms owner).map fun shm =>
      { shm with toUserShmOwner := shm.toUserShmOwner.write offset len data }) }

theorem readFromShmRef_eq (hView : view k.toStore entry.universeRef handle = some ref)
    (hType : ref.type = .shmRwRef) (hRef : ref.ref = owner + 1) (hShm : k.shms owner = some shm)
    (buf : Nat → UInt8) : userSysReadFromShmRef entry handle offset len buf k =
      some (.ok (if userShmCheckBounds shm.toUserShmOwner offset len then shm.read offset len buf
        else buf), (k.borrowed (owner + 1)).dropped (owner + 1)) := by
  have hBorrow := borrowOut_eq hView
  rw [hType, hRef] at hBorrow
  cases hBounds : userShmCheckBounds shm.toUserShmOwner offset len with
  | false =>
      simp [userSysReadFromShmRef, withHandle, hBorrow, userShmReadByRef, userShm, hShm, hBounds,
        userDropRef, State.borrowed, State.dropped]
  | true =>
      simp [userSysReadFromShmRef, withHandle, hBorrow, userShmReadByRef, userShm, hShm, hBounds,
        userDropRef, State.borrowed, State.dropped]

theorem readFromShmId_eq (hId : k.shmIntmap id = some owner) (hShm : k.shms owner = some shm)
    (hCookie : k.entries entry.cookieRef = some e) (hAuth : userEntryCookieAuth e shm.rwKey = true)
    (buf : Nat → UInt8) : userSysReadFromShmId entry id offset len buf k =
      some (if userShmCheckBounds shm.toUserShmOwner offset len then .ok (shm.read offset len buf)
        else .error .outOfBounds, (k.borrowed (owner + 1)).dropped (owner + 1)) := by
  have hRead : Shm.userShmAuthRead shm.toUserShmOwner e = true := by
    simp [Shm.userShmAuthRead, hAuth]
  cases hBounds : userShmCheckBounds shm.toUserShmOwner offset len with
  | false =>
      simp [userSysReadFromShmId, userShmReadById, userShmFindById, hId, userShmCreateRef, userShm,
        hShm, userBorrowRef, userEntryCookie, hCookie, hRead, hBounds, userDropRef, State.borrowed,
        State.dropped, State.addHeld, State.memRefBorrow]
  | true =>
      simp [userSysReadFromShmId, userShmReadById, userShmFindById, hId, userShmCreateRef, userShm,
        hShm, userBorrowRef, userEntryCookie, hCookie, hRead, hBounds, userDropRef, State.borrowed,
        State.dropped, State.addHeld, State.memRefBorrow]

theorem writeToShmRef_eq (hView : view k.toStore entry.universeRef handle = some ref)
    (hType : ref.type = .shmRwRef) (hRef : ref.ref = owner + 1) (hShm : k.shms owner = some shm)
    (data : Nat → UInt8) : userSysWriteToShmRef entry handle offset len data k =
      some (.ok (), (if userShmCheckBounds shm.toUserShmOwner offset len then
        (k.borrowed (owner + 1)).shmWritten owner offset len data
        else k.borrowed (owner + 1)).dropped (owner + 1)) := by
  have hBorrow := borrowOut_eq hView
  rw [hType, hRef] at hBorrow
  cases hBounds : userShmCheckBounds shm.toUserShmOwner offset len with
  | false =>
      simp [userSysWriteToShmRef, withHandle, hBorrow, userShmWriteByRef, userShm, hShm, hBounds,
        userDropRef, State.borrowed, State.dropped]
  | true =>
      simp [userSysWriteToShmRef, withHandle, hBorrow, userShmWriteByRef, userShm, hShm, hBounds,
        modifyShm, userDropRef, State.borrowed, State.dropped, State.shmWritten]

theorem writeToShmId_eq (hId : k.shmIntmap id = some owner) (hShm : k.shms owner = some shm)
    (hCookie : k.entries entry.cookieRef = some e) (hAuth : userEntryCookieAuth e shm.rwKey = true)
    (data : Nat → UInt8) : userSysWriteToShmId entry id offset len data k =
      some (if userShmCheckBounds shm.toUserShmOwner offset len then .ok ()
        else .error .outOfBounds, (if userShmCheckBounds shm.toUserShmOwner offset len then
        (k.borrowed (owner + 1)).shmWritten owner offset len data
        else k.borrowed (owner + 1)).dropped (owner + 1)) := by
  have hWrite : Shm.userShmAuthWrite shm.toUserShmOwner e = true := hAuth
  cases hBounds : userShmCheckBounds shm.toUserShmOwner offset len with
  | false =>
      simp [userSysWriteToShmId, userShmWriteById, userShmFindById, hId, userShmCreateRef, userShm,
        hShm, userBorrowRef, userEntryCookie, hCookie, hWrite, hBounds, userDropRef, State.borrowed,
        State.dropped, State.addHeld, State.memRefBorrow]
  | true =>
      simp [userSysWriteToShmId, userShmWriteById, userShmFindById, hId, userShmCreateRef, userShm,
        hShm, userBorrowRef, userEntryCookie, hCookie, hWrite, hBounds, modifyShm, userDropRef,
        State.borrowed, State.dropped, State.addHeld, State.memRefBorrow, State.shmWritten]

/-- Nothing is found under the id of an object that was shut down. -/
theorem shmId_refused (entry : UserApiEntry) (offset len : UInt64) (buf data : Nat → UInt8)
    (hId : k.shmIntmap id = none) :
    userSysReadFromShmId entry id offset len buf k = some (.error .securityViolation, k) ∧
    userSysWriteToShmId entry id offset len data k = some (.error .securityViolation, k) := by
  constructor
  · simp [userSysReadFromShmId, userShmReadById, userShmFindById, hId]
  · simp [userSysWriteToShmId, userShmWriteById, userShmFindById, hId]

end Paths

/-- An entry creates an object of four bytes and takes a read-write reference to it. -/
def shmBorrowed : List Request :=
  [.entryInit (some 0) staleMemory true true,
    .sys 0 (.createShmOwned 4 true ⟨some (.moved 1), staleMemory⟩),
    .sys 0 (.borrowShmRw 0 ⟨none, staleMemory⟩)]

end Ricerca.Entry
