import Ricerca.Foundation.Accesses
import Ricerca.User.Entry
import Ricerca.User.RpcNotifications

/-! `user_sys_create_callee` with all its allocations, each of which can fail: the callee, its
raiser, the channels of the raiser, the buckets of its intmap and the array of the universe. A
call has no outcome when it uses memory that is no object, or writes outside of a block. -/
namespace Ricerca.Callee

open Ricerca.Foundation Ricerca.Cookie Ricerca.Universe
open Ricerca.Notifications (UserNotification)
open Ricerca.RpcNotifications (userNoteTypeRpcIncoming)
open Ricerca.Entry (UserApiEntry pinnedRef)

/-- The fields of `struct user_mailbox` that raisers use. It is freed with its last reference. -/
structure UserMailbox where
  deallocRefcount : Nat
  isPerCpu : Bool
  alive : 0 < deallocRefcount

/-- `struct user_raiser`. -/
structure UserRaiser extends Notifications.UserRaiser where
  mailboxRef : Nat

/-- `struct user_rpc_callee`. The counters of `shutdown_rc_base` and of the token are those of
the two objects. -/
structure UserRpcCallee extends Rpc.UserRpcCallee where
  deallocRefcount : Nat
  onIncomingRaiser : Nat

/-- Blocks of the heap that belong to a callee or a raiser. -/
inductive Block where
  | callee (callee : Nat)
  | raiser (raiser : Nat)
  | localChannels (raiser : Nat)
  | nodes (callee : Nat)
  deriving DecidableEq

inductive HeapCall where
  | alloc (block : Block)
  | free (block : Block)
  deriving DecidableEq

/-- The pointers that `user_sys_create_callee` gets through out parameters. -/
inductive Local where
  | callee
  | token
  deriving DecidableEq

/-- Mailboxes and callees under the numbers of their objects, a token behind its callee, and
raisers; what the call allocated and freed, and its accesses to the two pointers. -/
structure State extends toKernel : Entry.State where
  mailboxes : Nat → Option UserMailbox
  raisers : Nat → Option UserRaiser
  raisersCount : Nat
  callees : Nat → Option UserRpcCallee
  heap : List HeapCall
  accesses : List (Access Local)

/-- Which allocations of `user_rpc_create_callee` find memory. -/
structure CalleeMemory where
  callee : Bool
  raiser : Bool
  localChannels : Bool
  nodes : Bool

abbrev Call (α : Type) := Prog State α

/-- A part of the call that only knows universes and counted objects. -/
def liftEntry {α : Type} (call : Entry.Call α) : Call α := fun k =>
  (call k.toKernel).map fun r => (r.1, { k with toKernel := r.2 })

section Heap

def heapCall (call : HeapCall) : Call Unit := fun k =>
  some ((), { k with heap := k.heap ++ [call] })

/-- `mem_heap_alloc`; false without memory. -/
def memHeapAlloc (block : Block) (memory : Bool) : Call Bool := fun k =>
  some (memory, if memory then { k with heap := k.heap ++ [.alloc block] } else k)

def memHeapFree (block : Block) : Call Unit := heapCall (.free block)

end Heap

section Raisers

def setMailbox (mailbox : Nat) (m : Option UserMailbox) : Call Unit := fun k =>
  some ((), { k with mailboxes := Function.update k.mailboxes mailbox m })

def setRaiser (raiser : Nat) (r : Option UserRaiser) : Call Unit := fun k =>
  some ((), { k with raisers := Function.update k.raisers raiser r })

/-- `MEM_REF_BORROW(&mailbox->dealloc_rc_base)`. -/
def UserMailbox.borrow (m : UserMailbox) : UserMailbox :=
  ⟨m.deallocRefcount + 1, m.isPerCpu, Nat.succ_pos _⟩

/-- `MEM_REF_DROP(&mailbox->dealloc_rc_base)`. -/
def UserMailbox.drop (m : UserMailbox) : Option UserMailbox :=
  if h : 1 < m.deallocRefcount then some ⟨m.deallocRefcount - 1, m.isPerCpu, by omega⟩ else none

/-- A new raiser, which holds a reference to its mailbox. -/
def addRaiser (mailbox : Nat) (notification : UserNotification) (m : UserMailbox) : Call Nat :=
  fun k => some (k.raisersCount, { k with
    mailboxes := Function.update k.mailboxes mailbox (some m.borrow)
    raisers := Function.update k.raisers k.raisersCount (some ⟨⟨1, notification, fun _ => 0⟩, mailbox⟩)
    raisersCount := k.raisersCount + 1 })

def userCreateRaiser (mailbox : Nat) (notification : UserNotification) (memory : CalleeMemory) :
    Call (Except Status Nat) := do
  let m ← Prog.read (·.mailboxes mailbox)
  let k ← get
  if !(← memHeapAlloc (.raiser k.raisersCount) memory.raiser) then return .error .outOfMemory
  else if m.isPerCpu then
    if !(← memHeapAlloc (.localChannels k.raisersCount) memory.localChannels) then
      memHeapFree (.raiser k.raisersCount)
      return .error .outOfMemory
    else return .ok (← addRaiser mailbox notification m)
  else return .ok (← addRaiser mailbox notification m)

def userDestroyRaiser (raiser : Nat) (r : UserRaiser) : Call Unit := do
  let m ← Prog.read (·.mailboxes r.mailboxRef)
  if m.isPerCpu then memHeapFree (.localChannels raiser)
  setMailbox r.mailboxRef m.drop
  setRaiser raiser none
  memHeapFree (.raiser raiser)

/-- `MEM_REF_DROP` of a raiser. -/
def dropRaiser (raiser : Nat) : Call Unit := do
  let r ← Prog.read (·.raisers raiser)
  if r.refcount = 1 then userDestroyRaiser raiser r
  else setRaiser raiser (some { r with refcount := r.refcount - 1 })

end Raisers

section Callees

/-- The number of buckets for a hint. -/
def bucketsCount (buckets : UInt64) : UInt64 := if buckets = 0 then 1 else buckets

/-- `sizeof(struct list)`. -/
def sizeofList : UInt64 := 16

/-- The bytes that `intmap_init` asks for are enough for the buckets that it then writes. -/
def nodesFit (count : UInt64) : Bool := count.toNat * sizeofList.toNat ≤ (count * sizeofList).toNat

/-- `intmap_init` of `awaiting_reply`; `none` without memory. -/
def intmapInit (callee : Nat) (count : UInt64) (memory : Bool) :
    Call (Option (Lib.Intmap Nat)) := do
  if !(← memHeapAlloc (.nodes callee) memory) then return none
  else
    Prog.guard fun _ => nodesFit count
    return some (Lib.intmapInit count.toNat)

/-- The fields of a new callee. -/
def newCallee (raiser : Nat) (awaitingReply : Lib.Intmap Nat) : UserRpcCallee :=
  ⟨⟨[], awaitingReply, 0, false⟩, 2, raiser⟩

/-- Initialise the callee and its token. -/
def addCallee (callee : UserRpcCallee) : Call (Nat × Nat) := fun k =>
  some ((k.objectsCount, k.objectsCount + 1), { k with
    toKernel := (k.addObject .userRpcShutdownCallee).addObject .userRpcNotifyCalleeUndiscoverable
    callees := Function.update k.callees k.objectsCount (some callee) })

/-- `user_rpc_create_callee`: the status, and what was written to `*callee` and `*token`. -/
def userRpcCreateCallee (mailbox : Nat) (opaqueValue buckets : UInt64) (memory : CalleeMemory) :
    Call (Status × Option (Nat × Nat)) := do
  let k ← get
  if !(← memHeapAlloc (.callee k.objectsCount) memory.callee) then return (.outOfMemory, none)
  else
    match ← userCreateRaiser mailbox ⟨userNoteTypeRpcIncoming, opaqueValue⟩ memory with
    | .error status =>
        memHeapFree (.callee k.objectsCount)
        return (status, none)
    | .ok raiser =>
        match ← intmapInit k.objectsCount (bucketsCount buckets) memory.nodes with
        | none =>
            dropRaiser raiser
            memHeapFree (.callee k.objectsCount)
            -- `status` is still that of `user_create_raiser`
            return (.success, none)
        | some awaitingReply => return (.success, some (← addCallee (newCallee raiser awaitingReply)))

def setCallee (callee : Nat) (c : Option UserRpcCallee) : Call Unit := fun k =>
  some ((), { k with callees := Function.update k.callees callee c })

/-- `MEM_REF_DROP(&callee->dealloc_rc_base)`, with `user_rpc_dealloc_callee`. -/
def dropCalleeDealloc (callee : Nat) : Call Unit := do
  let c ← Prog.read (·.callees callee)
  if c.deallocRefcount = 1 then
    setCallee callee none
    memHeapFree (.callee callee)
  else setCallee callee (some { c with deallocRefcount := c.deallocRefcount - 1 })

/-- `user_rpc_shutdown_callee`. The loops over requests have a model of their own; there are none
to abort in the calls considered here. -/
def userRpcShutdownCallee (callee : Nat) : Call Unit := do
  let c ← Prog.read (·.callees callee)
  Prog.guard fun _ => !c.isShutDown && c.incomingRpcs.isEmpty && c.awaitingReply.all.isEmpty
  setCallee callee (some { c with isShutDown := true })
  memHeapFree (.nodes callee)
  dropRaiser c.onIncomingRaiser
  dropCalleeDealloc callee

/-- `MEM_REF_DROP` with the callbacks of callees and tokens. -/
def userDropRef (obj : Nat) : Call Unit := do
  let k ← get
  liftEntry (Entry.userDropRef obj)
  if k.refcount obj = 1 then
    match k.dispose obj with
    | .userRpcShutdownCallee => userRpcShutdownCallee obj
    | .userRpcNotifyCalleeUndiscoverable => dropCalleeDealloc (obj - 1)
    | _ => return ()

end Callees

section SystemCall

def access (a : Access Local) : Call Unit := fun k =>
  some ((), { k with accesses := k.accesses ++ [a] })

/-- The out parameters of a call, when it writes them. -/
def writeLocals (written : Option (Nat × Nat)) : Call Unit := do
  if written.isSome then
    access (.write .callee)
    access (.write .token)

/-- The value of a pointer, or what its place on the stack holds when nobody wrote it. -/
def readLocal (var : Local) (written : Option Nat) (stale : Nat) : Call Nat := do
  access (.read var)
  return written.getD stale

/-- `MEM_REF_DROP` through a pointer; there has to be one. -/
def dropLocal (var : Local) (written : Option Nat) : Call Unit := do
  access (.read var)
  let obj ← Prog.read fun _ => written
  userDropRef obj

/-- Store both references, or drop both. -/
def moveCallee (entry : UserApiEntry) (written : Option (Nat × Nat)) (calleeRef tokenRef : UserRef)
    (heap heap' : HeapAnswer) : Call (Except Status (Nat × Nat)) := do
  match ← liftEntry
      (Entry.userUniverseMoveInPair entry.universeRef calleeRef tokenRef heap heap') with
  | .ok handles => return .ok handles
  | .error status =>
      dropLocal .callee (written.map Prod.fst)
      dropLocal .token (written.map Prod.snd)
      return .error status

/-- The end of `user_sys_create_callee`. -/
def storeCallee (entry : UserApiEntry) (written : Option (Nat × Nat)) (stale : Nat × Nat)
    (heap heap' : HeapAnswer) : Call (Except Status (Nat × Nat)) := do
  let callee ← readLocal .callee (written.map Prod.fst) stale.1
  let calleeRef ← liftEntry (pinnedRef entry callee .callee)
  let token ← readLocal .token (written.map Prod.snd) stale.2
  let tokenRef ← liftEntry (pinnedRef entry token .token)
  moveCallee entry written calleeRef tokenRef heap heap'

/-- `user_sys_create_callee`; `stale` is what the stack holds where `callee` and `token` stand. -/
def userSysCreateCallee (entry : UserApiEntry) (hmailbox : Nat) (opaqueValue buckets : UInt64)
    (memory : CalleeMemory) (stale : Nat × Nat) (heap heap' : HeapAnswer) :
    Call (Except Status (Nat × Nat)) := do
  match ← liftEntry (Entry.userUniverseBorrowOut entry.universeRef hmailbox) with
  | .error status => return .error status
  | .ok (mailbox, type) =>
      if type ≠ .mailbox then
        userDropRef mailbox
        return .error .invalidHandleType
      else
        let (status, written) ← userRpcCreateCallee mailbox opaqueValue buckets memory
        writeLocals written
        userDropRef mailbox
        if status ≠ .success then return .error status
        else storeCallee entry written stale heap heap'

end SystemCall

end Ricerca.Callee
