import Mathlib.Algebra.Group.Nat.Defs
import Mathlib.Logic.Function.Basic
import Ricerca.Foundation.Execution

/-! Notification mailboxes (`user/notifications.c`). Every step is one section
under the mailbox lock, so a receiver that sleeps takes two steps: one in which it
joins the task queue and one, after it was woken, in which it takes the channel
that its waker left in its node. Counts of pending notifications are 64-bit words,
reference counts natural numbers. -/
namespace Ricerca.Notifications

open Ricerca.Foundation

/-- `struct user_notification`. -/
structure UserNotification where
  type : UInt64
  opaqueValue : UInt64
  deriving DecidableEq

/-- A `struct user_raiser_channel`, named by its owner and its place in the
owner's channels: the core in per-CPU mode, 0 for the global channel. -/
structure UserRaiserChannel where
  owner : Nat
  index : Nat
  deriving DecidableEq

/-- `struct user_raiser`, with the `pending` counts of its channels. -/
structure UserRaiser where
  refcount : Nat
  notification : UserNotification
  pending : Nat → UInt64

/-- `struct user_wait_queue_node` on the stack of a receiver, with the core number
that the receiver read before it slept. -/
structure UserWaitQueueNode where
  task : Nat
  id : Nat
  deriving DecidableEq

/-- `struct user_mailbox`. A global mailbox uses queue 0 only. -/
structure UserMailbox where
  shutdownRefcount : Nat
  deallocRefcount : Nat
  msgQueue : Nat → List UserRaiserChannel
  taskQueue : Nat → List UserWaitQueueNode
  isShutDown : Bool
  isPerCpu : Bool

/-- One mailbox and its users: the raisers created so far, the references to each
that somebody else than a queue or a receiver holds, the tasks inside a receive
call, and the woken receivers with the channel that each was handed. -/
structure State where
  mailbox : UserMailbox
  raisers : Nat → UserRaiser
  raisersCount : Nat
  held : Nat → Nat
  receivers : List Nat
  woken : List (UserWaitQueueNode × UserRaiserChannel)
  drained : Bool

/-- The queue and the channel that belong to a core. -/
def slot (isPerCpu : Bool) (id : Nat) : Nat := if isPerCpu then id else 0

section Queues

variable {α : Type}

def userLocalGlobalEnqueue (queue : Nat → List α) (node : α) (isPerCpu : Bool) (id : Nat) :
    Nat → List α :=
  Function.update queue (slot isPerCpu id) (queue (slot isPerCpu id) ++ [node])

def userLocalGlobalDequeue (queue : Nat → List α) (isPerCpu : Bool) (id : Nat) :
    Option (α × (Nat → List α)) :=
  match queue (slot isPerCpu id) with
  | [] => none
  | node :: rest => some (node, Function.update queue (slot isPerCpu id) rest)

end Queues

namespace State

def channel (s : State) (raiser id : Nat) : UserRaiserChannel :=
  ⟨raiser, slot s.mailbox.isPerCpu id⟩

def pending (s : State) (channel : UserRaiserChannel) : UInt64 :=
  (s.raisers channel.owner).pending channel.index

def setPending (s : State) (channel : UserRaiserChannel) (pending : UInt64) : State :=
  let raiser := s.raisers channel.owner
  let raiser' := { raiser with pending := Function.update raiser.pending channel.index pending }
  { s with raisers := Function.update s.raisers channel.owner raiser' }

def setRefcount (s : State) (raiser refcount : Nat) : State :=
  { s with raisers := Function.update s.raisers raiser { s.raisers raiser with refcount := refcount } }

/-- `MEM_REF_BORROW` of a raiser. -/
def borrowRef (s : State) (raiser : Nat) : State :=
  s.setRefcount raiser ((s.raisers raiser).refcount + 1)

/-- `MEM_REF_DROP` of a raiser; `user_destroy_raiser` drops the mailbox. -/
def dropRef (s : State) (raiser : Nat) : State :=
  let s' := s.setRefcount raiser ((s.raisers raiser).refcount - 1)
  if (s.raisers raiser).refcount = 1 then
    { s' with mailbox.deallocRefcount := s.mailbox.deallocRefcount - 1 }
  else s'

@[simp]
theorem mailbox_setPending (s : State) (ch : UserRaiserChannel) (n : UInt64) :
    (s.setPending ch n).mailbox = s.mailbox := rfl

@[simp]
theorem woken_setPending (s : State) (ch : UserRaiserChannel) (n : UInt64) :
    (s.setPending ch n).woken = s.woken := rfl

theorem pending_setPending (s : State) (ch other : UserRaiserChannel) (n : UInt64) :
    (s.setPending ch n).pending other = if other = ch then n else s.pending other := by
  obtain ⟨owner, index⟩ := ch
  obtain ⟨owner', index'⟩ := other
  simp only [setPending, pending, UserRaiserChannel.mk.injEq]
  by_cases hOwner : owner' = owner
  · subst hOwner
    by_cases hIndex : index' = index
    · subst hIndex
      simp
    · simp [hIndex]
  · simp [hOwner]

@[simp]
theorem notification_setPending (s : State) (ch : UserRaiserChannel) (n : UInt64) (raiser : Nat) :
    ((s.setPending ch n).raisers raiser).notification = (s.raisers raiser).notification := by
  by_cases hEq : raiser = ch.owner
  · subst hEq
    simp [setPending]
  · simp [setPending, hEq]

@[simp]
theorem mailbox_setRefcount (s : State) (raiser n : Nat) :
    (s.setRefcount raiser n).mailbox = s.mailbox := rfl

@[simp]
theorem woken_setRefcount (s : State) (raiser n : Nat) :
    (s.setRefcount raiser n).woken = s.woken := rfl

@[simp]
theorem pending_setRefcount (s : State) (raiser n : Nat) (ch : UserRaiserChannel) :
    (s.setRefcount raiser n).pending ch = s.pending ch := by
  by_cases hEq : ch.owner = raiser
  · subst hEq
    simp [setRefcount, pending]
  · simp [setRefcount, pending, hEq]

@[simp]
theorem notification_setRefcount (s : State) (raiser n other : Nat) :
    ((s.setRefcount raiser n).raisers other).notification = (s.raisers other).notification := by
  by_cases hEq : other = raiser
  · subst hEq
    simp [setRefcount]
  · simp [setRefcount, hEq]

end State

/-- Hand the channel to the first sleeping receiver, or queue it. The reference
that is borrowed goes along with the channel. -/
def userRaiserEnqueueNolock (s : State) (raiser id : Nat) : State :=
  let s := s.borrowRef raiser
  match userLocalGlobalDequeue s.mailbox.taskQueue s.mailbox.isPerCpu id with
  | some (node, rest) =>
      { s with mailbox.taskQueue := rest, woken := s.woken ++ [(node, s.channel raiser id)] }
  | none =>
      { s with
        mailbox.msgQueue :=
          userLocalGlobalEnqueue s.mailbox.msgQueue (s.channel raiser id) s.mailbox.isPerCpu id }

def userSendNotificationToCore (s : State) (raiser id : Nat) : State :=
  if s.mailbox.isShutDown then s
  else
    let s' := s.setPending (s.channel raiser id) (s.pending (s.channel raiser id) + 1)
    if s'.pending (s.channel raiser id) = 1 then userRaiserEnqueueNolock s' raiser id else s'

/-- The end of `user_recieve_notification`, once the receiver has its channel. The
reference that came with the channel is the receiver's until it drops it. -/
def takeNotification (s : State) (channel : UserRaiserChannel) (id : Nat) :
    UserNotification × State :=
  let s' := s.setPending channel (s.pending channel - 1)
  let s'' := if s'.pending channel ≠ 0 then userRaiserEnqueueNolock s' channel.owner id else s'
  ((s.raisers channel.owner).notification,
    { s'' with held := Function.update s.held channel.owner (s.held channel.owner + 1) })

inductive Event where
  | createRaiser (raiser : Nat) (notification : UserNotification)
  | borrowRaiser (raiser : Nat)
  | dropRaiser (raiser : Nat)
  | send (raiser id : Nat)
  | sleep (task id : Nat)
  | recieve (task id raiser : Nat) (notification : UserNotification)
  | borrowMailbox
  | dropMailbox
  | drain
  | release
  deriving DecidableEq

/-- A call that uses a raiser or the mailbox runs while it holds a reference. The
last reference to the mailbox shuts it down: the flag is set, the message queues
are drained and the reference to the memory is released. -/
inductive Step : State → Event → State → Prop where
  | createRaiser {s : State} (notification : UserNotification)
      (hRef : 0 < s.mailbox.shutdownRefcount) :
      Step s (.createRaiser s.raisersCount notification)
        { s with
          mailbox.deallocRefcount := s.mailbox.deallocRefcount + 1
          raisers := Function.update s.raisers s.raisersCount ⟨1, notification, fun _ => 0⟩
          raisersCount := s.raisersCount + 1
          held := Function.update s.held s.raisersCount 1 }
  | borrowRaiser {s : State} {raiser : Nat} (hRef : 0 < s.held raiser) :
      Step s (.borrowRaiser raiser)
        { s.borrowRef raiser with held := Function.update s.held raiser (s.held raiser + 1) }
  | dropRaiser {s : State} {raiser : Nat} (hRef : 0 < s.held raiser) :
      Step s (.dropRaiser raiser)
        { s.dropRef raiser with held := Function.update s.held raiser (s.held raiser - 1) }
  | send {s : State} (raiser id : Nat) (hRef : 0 < s.held raiser) :
      Step s (.send raiser id) (userSendNotificationToCore s raiser id)
  | recieveQueued {s : State} {task id : Nat} {channel : UserRaiserChannel}
      {rest : Nat → List UserRaiserChannel} (hTask : task ∉ s.receivers)
      (hRef : s.receivers.length < s.mailbox.shutdownRefcount)
      (hQueue : userLocalGlobalDequeue s.mailbox.msgQueue s.mailbox.isPerCpu id = some (channel, rest))
      {notification : UserNotification} {s' : State}
      (hTaken : takeNotification { s with mailbox.msgQueue := rest } channel id =
        (notification, s')) :
      Step s (.recieve task id channel.owner notification) s'
  | recieveSleep {s : State} (task id : Nat) (hTask : task ∉ s.receivers)
      (hRef : s.receivers.length < s.mailbox.shutdownRefcount)
      (hQueue : userLocalGlobalDequeue s.mailbox.msgQueue s.mailbox.isPerCpu id = none) :
      Step s (.sleep task id)
        { s with
          mailbox.taskQueue :=
            userLocalGlobalEnqueue s.mailbox.taskQueue ⟨task, id⟩ s.mailbox.isPerCpu id
          receivers := task :: s.receivers }
  | recieveWoken {s : State} (node : UserWaitQueueNode) (channel : UserRaiserChannel)
      (hWoken : (node, channel) ∈ s.woken) {notification : UserNotification} {s' : State}
      (hTaken : takeNotification
        { s with
          woken := s.woken.erase (node, channel)
          receivers := s.receivers.erase node.task } channel node.id = (notification, s')) :
      Step s (.recieve node.task node.id channel.owner notification) s'
  | borrowMailbox {s : State} (hRef : 0 < s.mailbox.shutdownRefcount) :
      Step s .borrowMailbox
        { s with mailbox.shutdownRefcount := s.mailbox.shutdownRefcount + 1 }
  | dropMailbox {s : State} (hRef : s.receivers.length < s.mailbox.shutdownRefcount) :
      Step s .dropMailbox
        { s with
          mailbox.shutdownRefcount := s.mailbox.shutdownRefcount - 1
          mailbox.isShutDown := s.mailbox.isShutDown || s.mailbox.shutdownRefcount = 1 }
  | drain {s : State} {id : Nat} {channel : UserRaiserChannel}
      {rest : Nat → List UserRaiserChannel} (hShutDown : s.mailbox.isShutDown)
      (hQueue : userLocalGlobalDequeue s.mailbox.msgQueue s.mailbox.isPerCpu id = some (channel, rest)) :
      Step s .drain ({ s with mailbox.msgQueue := rest }.dropRef channel.owner)
  | release {s : State} (hShutDown : s.mailbox.isShutDown) (hDrained : s.drained = false)
      (hEmpty : ∀ i, s.mailbox.msgQueue i = []) :
      Step s .release
        { s with mailbox.deallocRefcount := s.mailbox.deallocRefcount - 1, drained := true }

/-- `user_create_mailbox`: one reference of each kind, all queues empty. -/
def userCreateMailbox (isPerCpu : Bool) : UserMailbox :=
  ⟨1, 1, fun _ => [], fun _ => [], false, isPerCpu⟩

/-- All uses of one new mailbox. -/
def system (isPerCpu : Bool) : System State Event where
  init s := s.mailbox = userCreateMailbox isPerCpu ∧ s.raisersCount = 0 ∧
    (∀ raiser, s.raisers raiser = ⟨0, ⟨0, 0⟩, fun _ => 0⟩) ∧ (∀ raiser, s.held raiser = 0) ∧
    s.receivers = [] ∧ s.woken = [] ∧ s.drained = false
  step := Step

/-- A send to an open mailbox finds room in the counter of its channel. -/
def Room (s : State) : Event → Prop
  | .send raiser id =>
      s.mailbox.isShutDown = false → (s.pending (s.channel raiser id)).toNat + 1 < 2 ^ 64
  | _ => True

/-- The uses in which no counter of pending notifications wraps around. -/
def bounded (isPerCpu : Bool) : System State Event := (system isPerCpu).restrict Room

theorem bounded_step {isPerCpu : Bool} {trace : List Event} {s s' : State} {event : Event}
    (run : (bounded isPerCpu).Execution trace s) (hStep : Step s event s') (hRoom : Room s event) :
    (bounded isPerCpu).Execution (trace ++ [event]) s' :=
  run.step ⟨hRoom, hStep⟩

end Ricerca.Notifications
