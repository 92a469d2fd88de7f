import Ricerca.Foundation.Execution
import Ricerca.Lib.Intmap
import Ricerca.User.Cookie

/-! Remote procedure calls (`user/rpc.c`). Containers carry a request from a caller
to a callee and the answer back, and are used again. Every step is one section under
a spinlock, or one iteration of a loop that works on a queue nobody else can reach
any more; an operation that is between two sections is part of the state. -/
namespace Ricerca.Rpc

open Ricerca.Foundation Ricerca.Cookie Ricerca.Lib

/-- `USER_RPC_MAX_PAYLOAD_SIZE`. -/
def userRpcMaxPayloadSize : Nat := 112

/-- `USER_RPC_STATUS_NOREPLY`. -/
def userRpcStatusNoreply : UInt32 := 0

/-- `struct user_rpc_msg`. -/
structure UserRpcMsg where
  opaqueValue : UInt64
  status : UInt32
  len : UInt32
  payload : Fin userRpcMaxPayloadSize → UInt8

/-- Copy the first `len` bytes of a payload. -/
def memcpy (dst src : Fin userRpcMaxPayloadSize → UInt8) (len : UInt32) :
    Fin userRpcMaxPayloadSize → UInt8 :=
  fun i => if i.val < len.toNat then src i else dst i

def userRpcCopyContentsFromUser (dst src : UserRpcMsg) : Except Status UserRpcMsg :=
  if src.len.toNat > userRpcMaxPayloadSize then .error .invalidMsg
  else .ok { dst with len := src.len, payload := memcpy dst.payload src.payload src.len }

def userRpcCopyContentsFromKernel (dst src : UserRpcMsg) : UserRpcMsg :=
  { dst with len := src.len, payload := memcpy dst.payload src.payload src.len }

/-- `struct user_rpc_container`; `key` is the key of its intmap node. The last two
fields are not in the source: the caller that allocated the container, and the call
of `user_rpc_initiate` that filled it last. -/
structure UserRpcContainer where
  message : UserRpcMsg
  clientOpaque : UInt64
  key : UInt64
  caller : Nat
  owner : Nat
  rpc : Nat

/-- `struct user_rpc_caller`; the queues hold addresses of containers. -/
structure UserRpcCaller where
  deallocRefcount : Nat
  freeContainers : List Nat
  incomingReplies : List Nat
  isShutDown : Bool

/-- `struct user_rpc_callee`. -/
structure UserRpcCallee where
  incomingRpcs : List Nat
  awaitingReply : Intmap Nat
  seq : UInt64
  isShutDown : Bool

/-- What an operation goes on with after `user_rpc_enqueue_reply_container`, or after
the reference to a caller was dropped. -/
inductive After where
  | returned (callee : Nat)
  | incoming (callee : Nat)
  | awaiting (callee bucket : Nat)
  | callerShutDown
  deriving DecidableEq

/-- An operation between two of its sections, with its local variables. -/
inductive Running where
  | initiating (caller callee container : Nat)
  | unreachable (caller container : Nat)
  | replying (container : Nat) (after : After)
  | droppingCaller (caller : Nat) (after : After)
  | freeingReplies (caller : Nat) (after : After)
  | drainingIncoming (callee : Nat)
  | drainingAwaiting (callee bucket : Nat)
  | freeingContainers (caller : Nat)
  deriving DecidableEq

def After.next : After → Option Running
  | .returned _ => none
  | .incoming callee => some (.drainingIncoming callee)
  | .awaiting callee bucket => some (.drainingAwaiting callee bucket)
  | .callerShutDown => none

/-- The caller whose handle the operation holds a reference to. -/
def Running.callerHandle : Running → Option Nat
  | .initiating c _ _ | .unreachable c _ => some c
  | _ => none

/-- The callee whose handle the operation holds a reference to. -/
def Running.calleeHandle : Running → Option Nat
  | .replying _ (.returned k) | .droppingCaller _ (.returned k) | .freeingReplies _ (.returned k) =>
      some k
  | _ => none

/-- All callers, callees, containers and running operations. A caller or a container
that was freed is `none`. -/
structure State where
  callers : Nat → Option UserRpcCaller
  callersCount : Nat
  callees : Nat → Option UserRpcCallee
  calleesCount : Nat
  containers : Nat → Option UserRpcContainer
  running : Nat → Option Running
  opsCount : Nat

namespace State

def setCaller (s : State) (c : Nat) (caller : Option UserRpcCaller) : State :=
  { s with callers := Function.update s.callers c caller }

def setCallee (s : State) (k : Nat) (callee : UserRpcCallee) : State :=
  { s with callees := Function.update s.callees k (some callee) }

def setContainer (s : State) (x : Nat) (container : Option UserRpcContainer) : State :=
  { s with containers := Function.update s.containers x container }

def setRunning (s : State) (id : Nat) (r : Option Running) : State :=
  { s with running := Function.update s.running id r }

/-- Start an operation that needs more than one section. -/
def start (s : State) (r : Running) : State :=
  { s.setRunning s.opsCount (some r) with opsCount := s.opsCount + 1 }

/-- The key in the intmap node of a container. -/
def key (s : State) (x : Nat) : UInt64 := ((s.containers x).map (·.key)).getD 0

/-- Some running call holds a reference to the caller. -/
def usesCaller (s : State) (c : Nat) : Prop :=
  ∃ id < s.opsCount, (s.running id).bind Running.callerHandle = some c

/-- Some running call holds a reference to the callee. -/
def usesCallee (s : State) (k : Nat) : Prop :=
  ∃ id < s.opsCount, (s.running id).bind Running.calleeHandle = some k

instance (s : State) (c : Nat) : Decidable (s.usesCaller c) :=
  inferInstanceAs (Decidable (∃ id < s.opsCount, _))

instance (s : State) (k : Nat) : Decidable (s.usesCallee k) :=
  inferInstanceAs (Decidable (∃ id < s.opsCount, _))

end State

/-- What a step reports. The first argument of the events in the life of a call is the
operation of `user_rpc_initiate` that began it; all but `created`, `started` and
`proceeded` also end the operation that takes the step or hand its container on. -/
inductive Outcome where
  | failed (status : Status)
  | created (obj : Nat)
  | started (id : Nat)
  | proceeded
  | prepared (rpc : Nat)
  | enqueued (rpc callee : Nat)
  | undelivered (rpc : Nat)
  | accepted (rpc : Nat) (msg : UserRpcMsg)
  | returned (rpc : Nat)
  | aborted (rpc : Nat)
  | replied (rpc caller : Nat)
  | result (rpc : Nat) (msg : UserRpcMsg)

section Calls

variable (s : State)

/-- The first section of `user_rpc_initiate` after it got a container. The client's
opaque value and the status are written right after the section, when nobody else can
reach the container. -/
def fillContainer (c k : Nat) (caller : UserRpcCaller) (x : Nat) (container : UserRpcContainer)
    (msg : UserRpcMsg) : Outcome × State :=
  match userRpcCopyContentsFromUser container.message msg with
  | .error status =>
      (.failed status,
        (s.setContainer x (some container)).setCaller c
          (some { caller with freeContainers := caller.freeContainers ++ [x] }))
  | .ok message =>
      (.prepared s.opsCount,
        ((s.setContainer x (some { container with
            message := { message with status := msg.status }
            clientOpaque := msg.opaqueValue
            caller := c
            rpc := s.opsCount })).setCaller c
          (some { caller with deallocRefcount := caller.deallocRefcount + 1 })).start
          (.initiating c k x))

/-- `user_rpc_initiate` up to the point where it has released the caller's lock.
`heap` is the answer of `mem_heap_alloc`: an address and what memory holds there. -/
def userRpcInitiate (c k : Nat) (caller : UserRpcCaller) (msg : UserRpcMsg)
    (heap : Option (Nat × UserRpcContainer)) : Option (Outcome × State) :=
  match caller.freeContainers with
  | x :: rest =>
      (s.containers x).map fun container =>
        fillContainer s c k { caller with freeContainers := rest } x container msg
  | [] =>
      match heap with
      | none => some (.failed .outOfMemory, s)
      | some (x, junk) =>
          if (s.containers x).isSome then none
          else some (fillContainer s c k caller x { junk with owner := c } msg)

def userRpcAccept (k : Nat) (callee : UserRpcCallee) (msg : UserRpcMsg) : Option (Outcome × State) :=
  match callee.incomingRpcs with
  | [] => some (.failed .empty, s)
  | x :: rest =>
      (s.containers x).map fun container =>
        let s' := s.setContainer x (some { container with key := callee.seq })
        (.accepted container.rpc
            { userRpcCopyContentsFromKernel msg container.message with
              opaqueValue := callee.seq
              status := container.message.status },
          s'.setCallee k { callee with
            incomingRpcs := rest
            awaitingReply := intmapInsert callee.awaitingReply s'.key x
            seq := callee.seq + 1 })

/-- `user_rpc_return` up to the point where it has released the callee's lock. -/
def userRpcReturn (k : Nat) (callee : UserRpcCallee) (msg : UserRpcMsg) : Option (Outcome × State) :=
  match intmapSearch callee.awaitingReply s.key msg.opaqueValue with
  | none => some (.failed .invalidRpcId, s)
  | some x =>
      (s.containers x).map fun container =>
        match userRpcCopyContentsFromUser container.message msg with
        | .error status => (.failed status, s)
        | .ok message =>
            (.returned container.rpc,
              ((s.setContainer x (some { container with
                  message := { message with status := msg.status } })).setCallee k
                { callee with awaitingReply := intmapRemove callee.awaitingReply s.key x }).start
                (.replying x (.returned k)))

def userRpcGetResult (c : Nat) (caller : UserRpcCaller) (msg : UserRpcMsg) :
    Option (Outcome × State) :=
  match caller.incomingReplies with
  | [] => some (.failed .empty, s)
  | x :: rest =>
      (s.containers x).map fun container =>
        (.result container.rpc
            { userRpcCopyContentsFromKernel msg container.message with
              opaqueValue := container.clientOpaque
              status := container.message.status },
          s.setCaller c (some { caller with
            incomingReplies := rest
            freeContainers := caller.freeContainers ++ [x] }))

/-- The loops of `user_rpc_shutdown_callee`: answer a request that nobody will. -/
def abort (id : Nat) (k : Nat) (callee : UserRpcCallee) (x : Nat) (after : After) :
    Option (Outcome × State) :=
  (s.containers x).map fun container =>
    (.aborted container.rpc,
      ((s.setContainer x (some { container with
          message := { container.message with status := userRpcStatusNoreply, len := 0 } })).setCallee
        k callee).setRunning id (some (.replying x after)))

/-- The next section of a running operation. There is none when memory that was freed
would be used, or when an assertion fails. -/
def step (id : Nat) : Running → Option (Outcome × State)
  | .initiating c k x => do
      let callee ← s.callees k
      let container ← s.containers x
      if callee.isShutDown then some (.proceeded, s.setRunning id (some (.unreachable c x)))
      else
        some (.enqueued container.rpc k,
          (s.setCallee k { callee with incomingRpcs := callee.incomingRpcs ++ [x] }).setRunning id none)
  | .unreachable c x => do
      -- the reference taken on `dealloc_rc_base` is not dropped here
      let caller ← s.callers c
      let container ← s.containers x
      if caller.isShutDown then none
      else
        some (.undelivered container.rpc,
          (s.setCaller c (some { caller with freeContainers := caller.freeContainers ++ [x] })).setRunning
            id none)
  | .replying x after => do
      let container ← s.containers x
      let caller ← s.callers container.caller
      some (.replied container.rpc container.caller,
        (s.setCaller container.caller
          (some { caller with incomingReplies := caller.incomingReplies ++ [x] })).setRunning id
          (some (.droppingCaller container.caller after)))
  | .droppingCaller c after => do
      let caller ← s.callers c
      let s' := s.setCaller c (some { caller with deallocRefcount := caller.deallocRefcount - 1 })
      if caller.deallocRefcount = 0 then none
      else
        some (.proceeded,
          s'.setRunning id
            (if caller.deallocRefcount = 1 then some (.freeingReplies c after) else after.next))
  | .freeingReplies c after => do
      let caller ← s.callers c
      match caller.incomingReplies with
      | x :: rest =>
          some (.proceeded,
            (s.setCaller c (some { caller with incomingReplies := rest })).setContainer x none)
      | [] => some (.proceeded, (s.setCaller c none).setRunning id after.next)
  | .drainingIncoming k => do
      let callee ← s.callees k
      match callee.incomingRpcs with
      | x :: rest => abort s id k { callee with incomingRpcs := rest } x (.incoming k)
      | [] => some (.proceeded, s.setRunning id (some (.drainingAwaiting k 0)))
  | .drainingAwaiting k i => do
      let callee ← s.callees k
      if i < callee.awaitingReply.bucketsCount then
        match callee.awaitingReply.nodes i with
        | x :: _ =>
            abort s id k { callee with awaitingReply := callee.awaitingReply.removeHead i } x
              (.awaiting k i)
        | [] => some (.proceeded, s.setRunning id (some (.drainingAwaiting k (i + 1))))
      else some (.proceeded, s.setRunning id none)
  | .freeingContainers c => do
      let caller ← s.callers c
      match caller.freeContainers with
      | x :: rest =>
          some (.proceeded,
            (s.setCaller c (some { caller with freeContainers := rest })).setContainer x none)
      | [] => some (.proceeded, s.setRunning id (some (.droppingCaller c .callerShutDown)))

end Calls

/-- The calls, and the continuation of one that is running. -/
inductive Op where
  | createCaller
  | createCallee (buckets : Nat)
  | initiate (caller callee : Nat) (msg : UserRpcMsg) (heap : Option (Nat × UserRpcContainer))
  | accept (callee : Nat) (msg : UserRpcMsg)
  | returnRpc (callee : Nat) (msg : UserRpcMsg)
  | getResult (caller : Nat) (msg : UserRpcMsg)
  | shutdownCallee (callee : Nat)
  | shutdownCaller (caller : Nat)
  | run (id : Nat)

/-- One step. The four calls are only made on a caller or callee that the entry holds a
reference to, and the last reference is only dropped, which shuts the object down, when
no call holds one. A token keeps the memory of its callee alive, so a request can meet
a callee that was shut down. -/
def exec (s : State) : Op → Option (Outcome × State)
  | .createCaller =>
      some (.created s.callersCount,
        { s.setCaller s.callersCount (some ⟨1, [], [], false⟩) with callersCount := s.callersCount + 1 })
  | .createCallee buckets =>
      some (.created s.calleesCount,
        { s.setCallee s.calleesCount
            ⟨[], intmapInit (if buckets = 0 then 1 else buckets), 0, false⟩ with
          calleesCount := s.calleesCount + 1 })
  | .initiate c k msg heap => do
      let caller ← s.callers c
      let _ ← s.callees k
      if caller.isShutDown then none else userRpcInitiate s c k caller msg heap
  | .accept k msg => do
      let callee ← s.callees k
      if callee.isShutDown then none else userRpcAccept s k callee msg
  | .returnRpc k msg => do
      let callee ← s.callees k
      if callee.isShutDown then none else userRpcReturn s k callee msg
  | .getResult c msg => do
      let caller ← s.callers c
      if caller.isShutDown then none else userRpcGetResult s c caller msg
  | .shutdownCallee k => do
      let callee ← s.callees k
      if callee.isShutDown ∨ s.usesCallee k then none
      else
        some (.started s.opsCount,
          (s.setCallee k { callee with isShutDown := true }).start (.drainingIncoming k))
  | .shutdownCaller c => do
      let caller ← s.callers c
      if caller.isShutDown ∨ s.usesCaller c then none
      else
        some (.started s.opsCount,
          (s.setCaller c (some { caller with isShutDown := true })).start (.freeingContainers c))
  | .run id => do
      let r ← s.running id
      step s id r

def initial : State where
  callers := fun _ => none
  callersCount := 0
  callees := fun _ => none
  calleesCount := 0
  containers := fun _ => none
  running := fun _ => none
  opsCount := 0

/-- Every interleaving of the calls and the running operations. -/
def system : System State (Op × Outcome) := System.ofExec initial exec

end Ricerca.Rpc
