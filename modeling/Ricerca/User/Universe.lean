import Ricerca.Foundation.Execution
import Ricerca.Foundation.LinkedList
import Ricerca.User.Cookie

/-! Universes (`user/universe.c`): tables of references that entries address by
handle. The cells of a universe stand in one array that is moved when it grows,
and the free cells are linked through node fields inside that array. Memory is
modelled field by field, so a cell keeps old links and an old reference after it
was freed. Every call is one step; universe mutexes are not part of the state. -/
namespace Ricerca.Universe

open Ricerca.Foundation Ricerca.Cookie

/-- Object types of `user/object.h`. -/
inductive UserObjType where
  | none
  | caller
  | callee
  | token
  | mailbox
  | universe
  | groupCookie
  | entryCookie
  | shmOwner
  | shmRwRef
  | shmRoRef
  deriving DecidableEq, Repr

/-- `struct user_ref`; `ref` is the object that the pointer points to. -/
structure UserRef where
  ref : Nat
  type : UserObjType
  pinCookie : Nat
  deriving DecidableEq

/-- The pointer of the reference is one to a universe. -/
def UserRef.isUniverse (ref : UserRef) : Bool := ref.type = UserObjType.universe

/-- `user_unpinned_for`. -/
def userUnpinnedFor (ref : UserRef) (cookie : UserEntryCookie) : Bool :=
  userEntryCookieAuth cookie ref.pinCookie

/-- The place of a `struct user_universe_cell`: an array on the heap and an index
into it. -/
structure CellAddr where
  array : Nat
  index : Nat
  deriving DecidableEq

/-- The fields `node`, `in_use` and `ref` of all cells on the heap. -/
structure Memory where
  links : Links CellAddr
  inUse : CellAddr → Bool
  refs : CellAddr → UserRef

/-- `struct user_universe`, with the array behind `cells` and its dynarray
metadata. -/
structure UserUniverse where
  freeList : DList CellAddr
  universeId : UInt64
  cells : Nat
  count : Nat
  capacity : Nat
  deriving DecidableEq

def UserUniverse.cell (uni : UserUniverse) (index : Nat) : CellAddr := ⟨uni.cells, index⟩

/-- `DYNARRAY_GROWTH_DELTA`. -/
def dynarrayGrowthDelta : Nat := 16

/-- Where `mem_heap_realloc` puts an array that it could serve. -/
inductive Placement where
  | inPlace
  | moved (array : Nat)
  deriving DecidableEq

/-- What the heap contributes to a call: the answer of `mem_heap_realloc` (`none`
when there is no memory) and the contents of memory that nobody has written yet. -/
structure HeapAnswer where
  placement : Option Placement
  junk : Memory

namespace Memory

/-- The new array holds a copy of `copied` old cells and junk behind them. -/
def moveArray (m junk : Memory) (old new copied : Nat) : Memory where
  links :=
    { next := fun a => if a.array = new then
        if a.index < copied then m.links.next ⟨old, a.index⟩ else junk.links.next a
        else m.links.next a
      prev := fun a => if a.array = new then
        if a.index < copied then m.links.prev ⟨old, a.index⟩ else junk.links.prev a
        else m.links.prev a }
  inUse a := if a.array = new then
    if a.index < copied then m.inUse ⟨old, a.index⟩ else junk.inUse a else m.inUse a
  refs a := if a.array = new then
    if a.index < copied then m.refs ⟨old, a.index⟩ else junk.refs a else m.refs a

def setInUse (m : Memory) (a : CellAddr) (inUse : Bool) : Memory :=
  { m with inUse := Function.update m.inUse a inUse }

def setRef (m : Memory) (a : CellAddr) (ref : UserRef) : Memory :=
  { m with refs := Function.update m.refs a ref }

/-- Copy a cell from the stack whose node field was not initialised. -/
def writeCell (m junk : Memory) (a : CellAddr) (ref : UserRef) : Memory :=
  let m := (m.setInUse a true).setRef a ref
  { m with links := (m.links.setNext a (junk.links.next a)).setPrev a (junk.links.prev a) }

end Memory

/-- `DYNARRAY_PUSH` of an in-use cell with the reference. -/
def dynarrayPush (m : Memory) (uni : UserUniverse) (ref : UserRef) (heap : HeapAnswer) :
    Option (Memory × UserUniverse) :=
  if uni.count < uni.capacity then
    some (m.writeCell heap.junk (uni.cell uni.count) ref, { uni with count := uni.count + 1 })
  else
    let grown := { uni with
      count := uni.count + 1
      capacity := uni.capacity + dynarrayGrowthDelta }
    match heap.placement with
    | none => none
    | some .inPlace => some (m.writeCell heap.junk (uni.cell uni.count) ref, grown)
    | some (.moved array) =>
        some ((m.moveArray heap.junk uni.cells array uni.capacity).writeCell heap.junk
          ⟨array, uni.count⟩ ref, { grown with cells := array })

/-- All universes and the memory of their cells. A destroyed universe is `none`. -/
structure Store extends Memory where
  universes : Nat → Option UserUniverse

namespace Store

/-- Store what a call made of one universe and of the memory. -/
def put (st : Store) (u : Nat) (m : Memory) (uni : UserUniverse) : Store :=
  ⟨m, Function.update st.universes u (some uni)⟩

/-- Set `in_use` to false and append the cell to the free list. -/
def freeCell (st : Store) (u : Nat) (uni : UserUniverse) (cell : Nat) : Store :=
  let m := st.toMemory.setInUse (uni.cell cell) false
  let appended := uni.freeList.appendTail m.links (uni.cell cell)
  st.put u { m with links := appended.2 } { uni with freeList := appended.1 }

end Store

/-- The order check of `user_universe_move_in_nolock` refuses the reference. -/
def violatesOrder (st : Store) (uni : UserUniverse) (ref : UserRef) : Bool :=
  ref.isUniverse && (st.universes ref.ref).any (·.universeId < uni.universeId)

/-- `user_universe_move_in_nolock`: the status, or the cell index and what the
call made of the memory and the universe. -/
def userUniverseMoveInNolock (st : Store) (uni : UserUniverse) (ref : UserRef) (heap : HeapAnswer) :
    Except Status (Nat × Memory × UserUniverse) :=
  if violatesOrder st uni ref then .error .invalidUniverseOrder
  else
    match uni.freeList.removeHead st.links with
    | (some resCell, freeList, links) =>
        let m := { st.toMemory with links := links }
        .ok (resCell.index, (m.setInUse resCell true).setRef resCell ref,
          { uni with freeList := freeList })
    | (none, _, _) =>
        match dynarrayPush st.toMemory uni ref heap with
        | none => .error .outOfMemory
        | some (m, uni') => .ok (uni.count, m, uni')

def userUniverseCheckRefNolock (st : Store) (uni : UserUniverse) (cell : Nat) : Bool :=
  if cell > uni.count || !st.inUse (uni.cell cell) then false else true

/-- The cells that `user_universe_check_ref_nolock` reads. -/
def checkRefReads (uni : UserUniverse) (cell : Nat) : List CellAddr :=
  if cell > uni.count then [] else [uni.cell cell]

/-- Universes, objects and cookies. `refcount` is the counter at the start of each
object, and `held` the number of references to it that kernel code owns outside of
all universes: entries, running system calls, and references that a destroyed
universe still has to drop. -/
structure State extends Store where
  universeLastId : UInt64
  refcount : Nat → Nat
  held : Nat → Nat
  objectsCount : Nat
  entries : Nat → Option UserEntryCookie
  groups : Nat → Option UserGroupCookie
  cookieLast : IssuedKey

namespace State

def addHeld (s : State) (obj : Nat) : State :=
  { s with held := Function.update s.held obj (s.held obj + 1) }

def takeHeld (s : State) (obj : Nat) : State :=
  { s with held := Function.update s.held obj (s.held obj - 1) }

/-- `MEM_REF_BORROW`. -/
def memRefBorrow (s : State) (obj : Nat) : State :=
  { s with refcount := Function.update s.refcount obj (s.refcount obj + 1) }

/-- How often the in-use cells of a universe refer to an object. -/
def cellRefs (s : State) (uni : UserUniverse) (obj : Nat) : Nat :=
  (List.range uni.count).countP fun i => s.inUse (uni.cell i) && (s.refs (uni.cell i)).ref = obj

/-- `user_universe_destroy` and the destructors of cookies. The references in the
cells of a universe become references that have to be dropped next. -/
def destroy (s : State) (obj : Nat) : State :=
  { s with
    universes := Function.update s.universes obj none
    entries := Function.update s.entries obj none
    groups := Function.update s.groups obj none
    held :=
      match s.universes obj with
      | none => s.held
      | some uni => fun o => s.held o + s.cellRefs uni o }

/-- `MEM_REF_DROP`. -/
def memRefDrop (s : State) (obj : Nat) : State :=
  let s' := { s with refcount := Function.update s.refcount obj (s.refcount obj - 1) }
  if s.refcount obj = 1 then s'.destroy obj else s'

/-- No live universe keeps its cells in this array. -/
def arrayUnused (s : State) (array : Nat) : Prop :=
  ∀ u < s.objectsCount, (s.universes u).all (·.cells ≠ array)

instance (s : State) (array : Nat) : Decidable (s.arrayUnused array) :=
  inferInstanceAs (Decidable (∀ u < s.objectsCount, _))

/-- The heap never returns memory that is in use. -/
def answerValid (s : State) (heap : HeapAnswer) : Bool :=
  match heap.placement with
  | some (.moved array) => s.arrayUnused array
  | _ => true

/-- A new object with one reference, which the caller owns. -/
def newObject (s : State) : State :=
  { s with
    refcount := Function.update s.refcount s.objectsCount 1
    held := Function.update s.held s.objectsCount 1
    objectsCount := s.objectsCount + 1 }

end State

/-- What a call returns. -/
inductive Outcome where
  | failed (status : Status)
  | done
  | handle (cell : Nat)
  | handles (first second : Nat)
  | created (obj : Nat)
  | reference (ref : UserRef)
  | borrowed (obj : Nat) (type : UserObjType)
  deriving DecidableEq

/-- `user_universe_create`; `array` is the dynarray, `none` without memory. -/
def userUniverseCreate (s : State) (array : Option Nat) (junk : Memory) : Outcome × State :=
  match array with
  | none => (.failed .outOfMemory, s)
  | some array =>
      let uni : UserUniverse := ⟨DList.empty, s.universeLastId, array, 0, 0⟩
      (.created s.objectsCount,
        { s.newObject with
          toMemory := s.moveArray junk array array 0
          universes := Function.update s.universes s.objectsCount (some uni)
          universeLastId := s.universeLastId + 1 })

/-- `user_universe_move_in` takes the caller's reference when it succeeds. -/
def userUniverseMoveIn (s : State) (u : Nat) (uni : UserUniverse) (ref : UserRef) (heap : HeapAnswer) :
    Outcome × State :=
  match userUniverseMoveInNolock s.toStore uni ref heap with
  | .error status => (.failed status, s)
  | .ok (cell, m, uni') =>
      (.handle cell, { s with toStore := s.toStore.put u m uni' }.takeHeld ref.ref)

/-- `user_universe_move_in_pair`. If the second reference does not fit, the cell of
the first one is reclaimed. -/
def userUniverseMoveInPair (s : State) (u : Nat) (uni : UserUniverse) (first second : UserRef)
    (heap heap' : HeapAnswer) : Outcome × State :=
  match userUniverseMoveInNolock s.toStore uni first heap with
  | .error status => (.failed status, s)
  | .ok (cell, m, uni') =>
      let st := s.toStore.put u m uni'
      match userUniverseMoveInNolock st uni' second heap' with
      | .error status => (.failed status, { s with toStore := st.freeCell u uni' cell })
      | .ok (cell', m', uni'') =>
          (.handles cell cell',
            ({ s with toStore := st.put u m' uni'' }.takeHeld first.ref).takeHeld second.ref)

section Handles

variable (s : State) (u : Nat) (uni : UserUniverse) (cell : Nat)

def userUniverseDropCell (cookie : UserEntryCookie) : Outcome × State :=
  if !userUniverseCheckRefNolock s.toStore uni cell then (.failed .invalidHandle, s)
  else
    let ref := s.refs (uni.cell cell)
    if !userUnpinnedFor ref cookie then (.failed .securityViolation, s)
    else (.done, { s with toStore := s.toStore.freeCell u uni cell }.memRefDrop ref.ref)

/-- `user_universe_borrow_out` does not write the pin of the caller's buffer. -/
def userUniverseBorrowOut : Outcome × State :=
  if !userUniverseCheckRefNolock s.toStore uni cell then (.failed .invalidHandle, s)
  else
    let ref := s.refs (uni.cell cell)
    (.borrowed ref.ref ref.type, (s.memRefBorrow ref.ref).addHeld ref.ref)

def userUniverseMoveOut : Outcome × State :=
  if !userUniverseCheckRefNolock s.toStore uni cell then (.failed .invalidHandle, s)
  else
    let ref := s.refs (uni.cell cell)
    (.reference ref, { s with toStore := s.toStore.freeCell u uni cell }.addHeld ref.ref)

/-- `user_universe_move_across` between two different universes. -/
def userUniverseMoveAcross (dst : Nat) (dstUni : UserUniverse) (cookie : UserEntryCookie)
    (heap : HeapAnswer) : Outcome × State :=
  if !userUniverseCheckRefNolock s.toStore uni cell then (.failed .invalidHandle, s)
  else
    let ref := s.refs (uni.cell cell)
    if !userUnpinnedFor ref cookie then (.failed .securityViolation, s)
    else
      match userUniverseMoveInNolock s.toStore dstUni ref heap with
      | .error status => (.failed status, s)
      | .ok (hdst, m, dstUni') =>
          (.handle hdst, { s with toStore := (s.toStore.put dst m dstUni').freeCell u uni cell })

/-- `user_universe_borrow_across` between two different universes. The reference is
borrowed first and dropped again when the call fails. -/
def userUniverseBorrowAcross (dst : Nat) (dstUni : UserUniverse) (cookie : UserEntryCookie)
    (heap : HeapAnswer) : Outcome × State :=
  if !userUniverseCheckRefNolock s.toStore uni cell then (.failed .invalidHandle, s)
  else
    let ref := s.refs (uni.cell cell)
    let s' := s.memRefBorrow ref.ref
    if !userUnpinnedFor ref cookie then (.failed .securityViolation, s'.memRefDrop ref.ref)
    else
      match userUniverseMoveInNolock s'.toStore dstUni ref heap with
      | .error status => (.failed status, s'.memRefDrop ref.ref)
      | .ok (hdst, m, dstUni') => (.handle hdst, { s' with toStore := s'.toStore.put dst m dstUni' })

/-- The shape of the four calls that change a pin: they compare it with `keys` and
then write `pin`. -/
def setPin (keys : List Nat) (pin : Nat) : Outcome × State :=
  if !userUniverseCheckRefNolock s.toStore uni cell then (.failed .invalidHandle, s)
  else
    let ref := s.refs (uni.cell cell)
    if ref.pinCookie ∉ keys then (.failed .securityViolation, s)
    else
      (.done, { s with toMemory := s.toMemory.setRef (uni.cell cell) { ref with pinCookie := pin } })

def userUniverseUnpin (cookie : UserEntryCookie) : Outcome × State :=
  setPin s uni cell [userEntryCookieGetKey cookie, userCookieKeyUniversal] userCookieKeyUniversal

def userUniversePin (cookie : UserEntryCookie) : Outcome × State :=
  setPin s uni cell [userCookieKeyUniversal, userEntryCookieGetKey cookie]
    (userEntryCookieGetKey cookie)

def userUniverseUnpinFromGroup (entry : UserEntryCookie) (group : UserGroupCookie) :
    Outcome × State :=
  setPin s uni cell
    [userGroupCookieGetKey group, userCookieKeyUniversal, userEntryCookieGetKey entry]
    userCookieKeyUniversal

def userUniversePinToGroup (entry : UserEntryCookie) (group : UserGroupCookie) : Outcome × State :=
  setPin s uni cell
    [userCookieKeyUniversal, userGroupCookieGetKey group, userEntryCookieGetKey entry]
    (userGroupCookieGetKey group)

end Handles

/-- What the loop of `user_universe_fork` works on. -/
structure Forked extends Memory where
  freeList : DList CellAddr
  refcount : Nat → Nat

/-- One iteration: copy the cell with a new reference, or put it on the free list. -/
def forkCell (src dst : Nat) (cookie : UserEntryCookie) (f : Forked) (i : Nat) : Forked :=
  let ref := f.refs ⟨src, i⟩
  if f.inUse ⟨src, i⟩ && userUnpinnedFor ref cookie then
    { f with
      toMemory := (f.toMemory.setRef ⟨dst, i⟩ ref).setInUse ⟨dst, i⟩ true
      refcount := Function.update f.refcount ref.ref (f.refcount ref.ref + 1) }
  else
    let m := f.toMemory.setInUse ⟨dst, i⟩ false
    let appended := f.freeList.appendTail m.links ⟨dst, i⟩
    { f with toMemory := { m with links := appended.2 }, freeList := appended.1 }

/-- `user_universe_fork`. `array` is the new dynarray after it was resized to the
length of the source; `none` if the universe itself could not be allocated. -/
def userUniverseFork (s : State) (uni : UserUniverse) (cookie : UserEntryCookie) (array : Option Nat)
    (junk : Memory) : Outcome × State :=
  match array with
  | none => (.failed .outOfMemory, s)
  | some array =>
      let init : Forked := ⟨s.moveArray junk array array 0, DList.empty, s.newObject.refcount⟩
      let forked := (List.range uni.count).foldl (forkCell uni.cells array cookie) init
      let capacity := (uni.count + dynarrayGrowthDelta - 1) / dynarrayGrowthDelta * dynarrayGrowthDelta
      (.created s.objectsCount,
        { s.newObject with
          toMemory := forked.toMemory
          universes := Function.update s.universes s.objectsCount
            (some ⟨forked.freeList, s.universeLastId, array, uni.count, capacity⟩)
          refcount := forked.refcount
          universeLastId := s.universeLastId + 1 })

/-- The calls, with the answers of the heap that they get. Universes, entries and
groups are named by their objects. -/
inductive Op where
  | createUniverse (array : Option Nat) (junk : Memory)
  | createEntryCookie
  | createGroupCookie (refcount : Nat)
  | createObject
  | addToGrp (entry group : Nat) (memory : Bool)
  | removeFromGrp (entry group : Nat)
  | borrowRef (obj : Nat)
  | dropRef (obj : Nat)
  | moveIn (u : Nat) (ref : UserRef) (heap : HeapAnswer)
  | moveInPair (u : Nat) (first second : UserRef) (heap heap' : HeapAnswer)
  | dropCell (u cell entry : Nat)
  | borrowOut (u cell : Nat)
  | moveOut (u cell : Nat)
  | moveAcross (src dst cell entry : Nat) (heap : HeapAnswer)
  | borrowAcross (src dst cell entry : Nat) (heap : HeapAnswer)
  | unpin (u cell entry : Nat)
  | pin (u cell entry : Nat)
  | unpinFromGroup (u cell entry group : Nat)
  | pinToGroup (u cell entry group : Nat)
  | fork (src entry : Nat) (array : Option Nat) (junk : Memory)

/-- The caller owns the reference, and its type tells a universe from other
objects. -/
def State.ownsRef (s : State) (ref : UserRef) : Bool :=
  0 < s.held ref.ref && (s.universes ref.ref).isSome == ref.isUniverse

/-- One completed call. There is none when an argument is no live object of the
right kind, when a reference that the call consumes is not the caller's, when the
heap answers what it cannot, and in two cases of a defect: for one universe as both
source and destination the code waits for a mutex that it holds, and
`user_universe_fork` whose resize finds no memory returns `OUT_OF_MEMORY` after a
destructor ran on an uninitialised array (`forkUndone`), which has no step here. -/
def exec (s : State) : Op → Option (Outcome × State)
  | .createUniverse array junk =>
      if array.all (fun a => s.arrayUnused a) then some (userUniverseCreate s array junk) else none
  | .createEntryCookie =>
      some (.created s.objectsCount,
        { s.newObject with
          entries := Function.update s.entries s.objectsCount (some ⟨s.cookieLast, []⟩)
          cookieLast := s.cookieLast.next })
  | .createGroupCookie refcount =>
      -- `MEM_REF_INIT(res->key, ..)` misses the counter of the new object
      some (.created s.objectsCount,
        { s.newObject with
          refcount := Function.update s.refcount s.objectsCount refcount
          groups := Function.update s.groups s.objectsCount (some ⟨s.cookieLast⟩)
          cookieLast := s.cookieLast.next })
  | .createObject => some (.created s.objectsCount, s.newObject)
  | .addToGrp entry group memory => do
      let e ← s.entries entry
      let g ← s.groups group
      let (status, e') := userEntryCookieAddToGrp e g memory
      some (if status = .success then .done else .failed status,
        { s with entries := Function.update s.entries entry (some e') })
  | .removeFromGrp entry group => do
      let e ← s.entries entry
      let g ← s.groups group
      some (.done,
        { s with
          entries := Function.update s.entries entry (some (userEntryCookieRemoveFromGrp e g).2) })
  | .borrowRef obj => if 0 < s.held obj then some (.done, (s.memRefBorrow obj).addHeld obj) else none
  | .dropRef obj => if 0 < s.held obj then some (.done, (s.takeHeld obj).memRefDrop obj) else none
  | .moveIn u ref heap => do
      let uni ← s.universes u
      if s.ownsRef ref && s.answerValid heap then some (userUniverseMoveIn s u uni ref heap) else none
  | .moveInPair u first second heap heap' => do
      let uni ← s.universes u
      if s.ownsRef first && (s.takeHeld first.ref).ownsRef second && !first.isUniverse &&
          !second.isUniverse && s.answerValid heap && s.answerValid heap' then
        some (userUniverseMoveInPair s u uni first second heap heap')
      else none
  | .dropCell u cell entry => do
      let uni ← s.universes u
      let e ← s.entries entry
      some (userUniverseDropCell s u uni cell e)
  | .borrowOut u cell => do
      let uni ← s.universes u
      some (userUniverseBorrowOut s uni cell)
  | .moveOut u cell => do
      let uni ← s.universes u
      some (userUniverseMoveOut s u uni cell)
  | .moveAcross src dst cell entry heap => do
      let uni ← s.universes src
      let dstUni ← s.universes dst
      let e ← s.entries entry
      if src ≠ dst && s.answerValid heap then
        some (userUniverseMoveAcross s src uni cell dst dstUni e heap)
      else none
  | .borrowAcross src dst cell entry heap => do
      let uni ← s.universes src
      let dstUni ← s.universes dst
      let e ← s.entries entry
      if src ≠ dst && s.answerValid heap then
        some (userUniverseBorrowAcross s uni cell dst dstUni e heap)
      else none
  | .unpin u cell entry => do
      let uni ← s.universes u
      let e ← s.entries entry
      some (userUniverseUnpin s uni cell e)
  | .pin u cell entry => do
      let uni ← s.universes u
      let e ← s.entries entry
      some (userUniversePin s uni cell e)
  | .unpinFromGroup u cell entry group => do
      let uni ← s.universes u
      let e ← s.entries entry
      let g ← s.groups group
      some (userUniverseUnpinFromGroup s uni cell e g)
  | .pinToGroup u cell entry group => do
      let uni ← s.universes u
      let e ← s.entries entry
      let g ← s.groups group
      some (userUniversePinToGroup s uni cell e g)
  | .fork src entry array junk => do
      let uni ← s.universes src
      let e ← s.entries entry
      if array.all (fun a => s.arrayUnused a) then some (userUniverseFork s uni e array junk) else none

/-- The kernel before the first entry exists; memory holds anything. -/
def initial (m : Memory) : State where
  toMemory := m
  universes := fun _ => none
  universeLastId := 2
  refcount := fun _ => 0
  held := fun _ => 0
  objectsCount := 0
  entries := fun _ => none
  groups := fun _ => none
  cookieLast := userCookieLast

/-- Every sequence of calls. -/
def system (m : Memory) : System State (Op × Outcome) := System.ofExec (initial m) exec

end Ricerca.Universe
