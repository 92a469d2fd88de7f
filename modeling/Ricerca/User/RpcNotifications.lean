import Ricerca.User.Notifications
import Ricerca.User.Rpc

/-! Remote procedure calls and mailboxes together. Callers and callees own a raiser each, and
a section that puts a container into a queue sends a notification before it releases the lock.
Here such a section is two steps, so that everything that does not need the lock can happen in
between, in the mailbox above all. -/
namespace Ricerca.RpcNotifications

open Foundation

/-- An object with a queue and a raiser: `on_reply_raiser` of a caller, `on_incoming_raiser` of
a callee. -/
inductive Party where
  | caller (c : Nat)
  | callee (k : Nat)
  deriving DecidableEq

/-- The queue of a party and whether the party is shut down. -/
def queue (s : Rpc.State) : Party → Option (List Nat × Bool)
  | .caller c => (s.callers c).map fun caller => (caller.incomingReplies, caller.isShutDown)
  | .callee k => (s.callees k).map fun callee => (callee.incomingRpcs, callee.isShutDown)

/-- The RPC objects, all mailboxes, the mailbox and raiser of each party, and the operation
that holds the lock of a party and has put a container into its queue but not sent the
notification yet. -/
structure State where
  rpc : Rpc.State
  mailboxes : Nat → Notifications.State
  raiser : Party → Option (Nat × Nat)
  notifying : Party → Option Nat

/-- `USER_NOTE_TYPE_RPC_INCOMING`. -/
def userNoteTypeRpcIncoming : UInt64 := 0

/-- `USER_NOTE_TYPE_RPC_REPLY`. -/
def userNoteTypeRpcReply : UInt64 := 1

/-- What happened in a step. -/
inductive Label where
  | created (op : Rpc.Op) (party : Party) (mailbox raiser : Nat)
      (template : Notifications.UserNotification)
  | rpc (op : Rpc.Op) (outcome : Rpc.Outcome)
  | notified (party : Party) (mailbox raiser core : Nat)
  | mailbox (mailbox : Nat) (event : Notifications.Event)

/-- The party whose lock a section takes. -/
def lock (s : Rpc.State) : Rpc.Op → Option Party
  | .createCaller | .createCallee _ => none
  | .initiate c _ _ _ | .getResult c _ | .shutdownCaller c => some (.caller c)
  | .accept k _ | .returnRpc k _ | .shutdownCallee k => some (.callee k)
  | .run id =>
      match s.running id with
      | some (.initiating _ k _) => some (.callee k)
      | some (.unreachable c _) => some (.caller c)
      | some (.replying x _) => (s.containers x).map fun container => .caller container.caller
      | _ => none

/-- The party that a notification must be sent to before the section ends. A caller that is
shut down is not notified. -/
def toNotify (s : Rpc.State) : Rpc.Outcome → Option Party
  | .enqueued _ k => some (.callee k)
  | .replied _ c =>
      if (queue s (.caller c)).map Prod.snd = some false then some (.caller c) else none
  | _ => none

namespace State

def setMailbox (s : State) (mailbox : Nat) (value : Notifications.State) : State :=
  { s with mailboxes := Function.update s.mailboxes mailbox value }

/-- The state after a section of an RPC operation. -/
def afterRpc (s : State) (op : Rpc.Op) (outcome : Rpc.Outcome) (rpc : Rpc.State) : State :=
  match op, toNotify s.rpc outcome with
  | .run id, some party =>
      { s with rpc := rpc, notifying := Function.update s.notifying party (some id) }
  | _, _ => { s with rpc := rpc }

/-- Nobody else sends through the raiser of a party, and a party that is open keeps its
reference. -/
def Permits (s : State) (mailbox : Nat) : Notifications.Event → Prop
  | .send raiser _ => ∀ party, s.raiser party ≠ some (mailbox, raiser)
  | .dropRaiser raiser => ∀ party, s.raiser party = some (mailbox, raiser) →
      (queue s.rpc party).map Prod.snd = some false → 1 < (s.mailboxes mailbox).held raiser
  | _ => True

end State

/-- Creation, one section of an RPC operation up to its notification, the notification, or
anything else that happens to a mailbox. -/
inductive Step : State → Label → State → Prop where
  | createCaller {s : State} {mailbox raiser c : Nat} {value : UInt64} {rpc : Rpc.State}
      {box : Notifications.State}
      (hRaiser : Notifications.Step (s.mailboxes mailbox)
        (.createRaiser raiser ⟨userNoteTypeRpcReply, value⟩) box)
      (hExec : Rpc.exec s.rpc .createCaller = some (.created c, rpc)) :
      Step s (.created .createCaller (.caller c) mailbox raiser ⟨userNoteTypeRpcReply, value⟩)
        { s.setMailbox mailbox box with
          rpc := rpc
          raiser := Function.update s.raiser (.caller c) (some (mailbox, raiser)) }
  | createCallee {s : State} {mailbox raiser k buckets : Nat} {value : UInt64} {rpc : Rpc.State}
      {box : Notifications.State}
      (hRaiser : Notifications.Step (s.mailboxes mailbox)
        (.createRaiser raiser ⟨userNoteTypeRpcIncoming, value⟩) box)
      (hExec : Rpc.exec s.rpc (.createCallee buckets) = some (.created k, rpc)) :
      Step s (.created (.createCallee buckets) (.callee k) mailbox raiser
          ⟨userNoteTypeRpcIncoming, value⟩)
        { s.setMailbox mailbox box with
          rpc := rpc
          raiser := Function.update s.raiser (.callee k) (some (mailbox, raiser)) }
  | rpc {s : State} {op : Rpc.Op} {outcome : Rpc.Outcome} {rpc : Rpc.State}
      (hKind : ∀ obj, outcome ≠ .created obj)
      (hLock : ∀ party, lock s.rpc op = some party → s.notifying party = none)
      (hOrder : ∀ id party, op = .run id → s.notifying party ≠ some id)
      (hExec : Rpc.exec s.rpc op = some (outcome, rpc)) :
      Step s (.rpc op outcome) (s.afterRpc op outcome rpc)
  | notify {s : State} {party : Party} {id mailbox raiser : Nat} (core : Nat)
      {box : Notifications.State} (hNotifying : s.notifying party = some id)
      (hRaiser : s.raiser party = some (mailbox, raiser))
      (hSend : Notifications.Step (s.mailboxes mailbox) (.send raiser core) box) :
      Step s (.notified party mailbox raiser core)
        { s.setMailbox mailbox box with notifying := Function.update s.notifying party none }
  | mailbox {s : State} {mailbox : Nat} {event : Notifications.Event} {box : Notifications.State}
      (hPermits : s.Permits mailbox event)
      (hStep : Notifications.Step (s.mailboxes mailbox) event box) :
      Step s (.mailbox mailbox event) (s.setMailbox mailbox box)

/-- No RPC objects yet, and new mailboxes of which some are per-CPU. -/
def system (isPerCpu : Nat → Bool) : System State Label where
  init s := s.rpc = Rpc.initial ∧
    (∀ mailbox, (Notifications.system (isPerCpu mailbox)).init (s.mailboxes mailbox)) ∧
    (∀ party, s.raiser party = none) ∧ ∀ party, s.notifying party = none
  step := Step

end Ricerca.RpcNotifications
