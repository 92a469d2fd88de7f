import Ricerca.Foundation.Placement
import Ricerca.User.NotificationsDelivery

/-! Sleeping receivers. A receiver sleeps only while there is nothing for it, and the
sleepers of a core are woken in the order in which they went to sleep, each one once and
with a channel. -/
namespace Ricerca.Notifications

open Ricerca.Foundation

/-- The receiver that `user_raiser_enqueue_nolock` wakes, with the channel that it leaves
in the receiver's node. -/
def State.firstSleeper (s : State) (raiser id : Nat) : List (UserWaitQueueNode × UserRaiserChannel) :=
  match userLocalGlobalDequeue s.mailbox.taskQueue s.mailbox.isPerCpu id with
  | some (node, _) => [(node, s.channel raiser id)]
  | none => []

/-- The receiver that a step wakes. -/
def State.wakes (s : State) : Event → List (UserWaitQueueNode × UserRaiserChannel)
  | .send raiser id =>
      if s.mailbox.isShutDown then []
      else if s.pending (s.channel raiser id) + 1 = 1 then s.firstSleeper raiser id
      else []
  | .recieve _ id raiser _ =>
      if s.pending (s.channel raiser id) - 1 ≠ 0 then s.firstSleeper raiser id else []
  | _ => []

/-- The receivers that went to sleep on a queue, in order. -/
def sleepsAt (isPerCpu : Bool) (i : Nat) (trace : List Event) : List UserWaitQueueNode :=
  trace.filterMap fun
    | .sleep task id => if slot isPerCpu id = i then some ⟨task, id⟩ else none
    | _ => none

/-- The receivers that were woken from a queue, in order. -/
def wakesAt (isPerCpu : Bool) (i : Nat) (log : List (UserWaitQueueNode × UserRaiserChannel)) :
    List (UserWaitQueueNode × UserRaiserChannel) :=
  log.filter fun p => slot isPerCpu p.1.id = i

/-- Where a task can be that is inside a receive call. -/
inductive Spot where
  | asleep (i : Nat)
  | woken
  deriving DecidableEq

def State.tasks (s : State) : Spot → List Nat
  | .asleep i => (s.mailbox.taskQueue i).map (·.task)
  | .woken => s.woken.map (·.1.task)

/-- The task is inside a receive call and nobody has woken it. -/
def State.Suspended (s : State) (task : Nat) : Prop :=
  task ∈ s.receivers ∧ ∀ p ∈ s.woken, p.1.task ≠ task

/-- The invariant of the task queues. -/
structure Sleepers (isPerCpu : Bool) (trace : List Event) (s : State)
    (log : List (UserWaitQueueNode × UserRaiserChannel)) : Prop where
  sorted : Sorted s
  mode : s.mailbox.isPerCpu = isPerCpu
  quiet : ∀ i, s.mailbox.taskQueue i ≠ [] → s.mailbox.msgQueue i = []
  placed : Placement s.tasks (· ∈ s.receivers)
  nodup : s.receivers.Nodup
  order : ∀ i, sleepsAt isPerCpu i trace = (wakesAt isPerCpu i log).map Prod.fst ++ s.mailbox.taskQueue i
  channel : ∀ p ∈ log, p.2.index = slot isPerCpu p.1.id
  sub : s.woken.Sublist log

section Steps

variable {isPerCpu : Bool} {trace : List Event} {s s' : State}
  {log : List (UserWaitQueueNode × UserRaiserChannel)} {raiser id : Nat}

theorem Sleepers.congr (h : Sleepers isPerCpu trace s log)
    (hMode : s'.mailbox.isPerCpu = s.mailbox.isPerCpu)
    (hMsg : s'.mailbox.msgQueue = s.mailbox.msgQueue)
    (hTask : s'.mailbox.taskQueue = s.mailbox.taskQueue) (hWoken : s'.woken = s.woken)
    (hReceivers : s'.receivers = s.receivers) : Sleepers isPerCpu trace s' log := by
  have hTasks : s'.tasks = s.tasks := by
    funext spot
    cases spot <;> simp [State.tasks, hTask, hWoken]
  refine ⟨⟨?_, ?_, ?_⟩, hMode.trans h.mode, ?_, ?_, ?_, ?_, h.channel, ?_⟩
  · rw [hMsg]
    exact h.sorted.msg
  · rw [hTask, hMode]
    exact h.sorted.task
  · rw [hWoken, hMode]
    exact h.sorted.woken
  · rw [hTask, hMsg]
    exact h.quiet
  · rw [hTasks, hReceivers]
    exact h.placed
  · rw [hReceivers]
    exact h.nodup
  · rw [hTask]
    exact h.order
  · rw [hWoken]
    exact h.sub

theorem userLocalGlobalDequeue_none {α : Type} {queue : Nat → List α}
    (h : userLocalGlobalDequeue queue isPerCpu id = none) : queue (slot isPerCpu id) = [] := by
  simp only [userLocalGlobalDequeue] at h
  split at h
  · assumption
  · cases h

/-- The first sleeper is woken with the channel in its node. -/
theorem Sleepers.wake {node : UserWaitQueueNode} {rest : Nat → List UserWaitQueueNode}
    {ch : UserRaiserChannel} (h : Sleepers isPerCpu trace s log)
    (hQueue : userLocalGlobalDequeue s.mailbox.taskQueue s.mailbox.isPerCpu id = some (node, rest))
    (hChannel : ch.index = slot s.mailbox.isPerCpu id)
    (hMode : s'.mailbox.isPerCpu = s.mailbox.isPerCpu)
    (hMsg : s'.mailbox.msgQueue = s.mailbox.msgQueue) (hTask : s'.mailbox.taskQueue = rest)
    (hWoken : s'.woken = s.woken ++ [(node, ch)]) (hReceivers : s'.receivers = s.receivers)
    (hSorted : Sorted s') : Sleepers isPerCpu trace s' (log ++ [(node, ch)]) := by
  obtain ⟨hHead, hElse⟩ := userLocalGlobalDequeue_some hQueue
  have hNode : slot isPerCpu node.id = slot s.mailbox.isPerCpu id := by
    rw [← h.mode]
    exact h.sorted.task _ node (by rw [hHead]; exact List.mem_cons_self ..)
  refine ⟨hSorted, hMode.trans h.mode, fun i hi => ?_, ?_, ?_, fun i => ?_, fun p hp => ?_, ?_⟩
  · rw [hMsg]
    refine h.quiet i fun hNil => hi ?_
    rw [hTask]
    by_cases hEq : i = slot s.mailbox.isPerCpu id
    · subst hEq
      cases hHead.symm.trans hNil
    · rw [hElse i hEq, hNil]
  · rw [hReceivers]
    refine h.placed.move (p := .asleep (slot s.mailbox.isPerCpu id)) (q := .woken) (x := node.task)
      (by simp) ?_ ?_ fun spot hAsleep hWoke => ?_
    · simp [State.tasks, hTask, hHead]
    · simp only [State.tasks, hWoken, List.map_append, List.map_cons, List.map_nil]
      exact List.perm_append_singleton ..
    · cases spot with
      | asleep i =>
          have hi : i ≠ slot s.mailbox.isPerCpu id := fun hEq => hAsleep (hEq ▸ rfl)
          simp [State.tasks, hTask, hElse i hi]
      | woken => exact (hWoke rfl).elim
  · rw [hReceivers]
    exact h.nodup
  · rw [h.order i, hTask, wakesAt, wakesAt, List.filter_append]
    by_cases hEq : i = slot s.mailbox.isPerCpu id
    · subst hEq
      simp [hHead, hNode]
    · have hOther : slot isPerCpu node.id ≠ i := fun hSame => hEq (hSame.symm.trans hNode)
      simp [hElse i hEq, hOther]
  · rcases List.mem_append.mp hp with hp | hp
    · exact h.channel p hp
    · rw [List.mem_singleton.mp hp]
      exact hChannel.trans hNode.symm
  · rw [hWoken]
    exact h.sub.append (List.Sublist.refl _)

/-- The first sleeper gets the channel; without one, the channel is queued. -/
theorem Sleepers.enqueue (h : Sleepers isPerCpu trace s log) :
    Sleepers isPerCpu trace (userRaiserEnqueueNolock s raiser id)
      (log ++ s.firstSleeper raiser id) := by
  have hSorted : Sorted (userRaiserEnqueueNolock s raiser id) := h.sorted.enqueue
  rw [State.firstSleeper]
  cases hQueue : userLocalGlobalDequeue s.mailbox.taskQueue s.mailbox.isPerCpu id with
  | some found =>
      obtain ⟨node, rest⟩ := found
      have hEq : userRaiserEnqueueNolock s raiser id =
          { s.borrowRef raiser with
            mailbox.taskQueue := rest
            woken := s.woken ++ [(node, s.channel raiser id)] } := by
        simp only [userRaiserEnqueueNolock, State.borrowRef, State.mailbox_setRefcount, hQueue]
        rfl
      rw [hEq] at hSorted ⊢
      exact h.wake hQueue rfl rfl rfl rfl rfl rfl hSorted
  | none =>
      have hEq : userRaiserEnqueueNolock s raiser id =
          { s.borrowRef raiser with
            mailbox.msgQueue := userLocalGlobalEnqueue s.mailbox.msgQueue (s.channel raiser id)
              s.mailbox.isPerCpu id } := by
        simp only [userRaiserEnqueueNolock, State.borrowRef, State.mailbox_setRefcount, hQueue]
        rfl
      have hEmpty := userLocalGlobalDequeue_none hQueue
      rw [hEq] at hSorted ⊢
      rw [List.append_nil]
      refine ⟨hSorted, h.mode, fun i hi => ?_, h.placed, h.nodup, h.order, h.channel, h.sub⟩
      have hNe : i ≠ slot s.mailbox.isPerCpu id := by
        rintro rfl
        exact hi hEmpty
      simp only [userLocalGlobalEnqueue_apply, if_neg hNe]
      exact h.quiet i hi

theorem Sleepers.send (h : Sleepers isPerCpu trace s log) :
    Sleepers isPerCpu trace (userSendNotificationToCore s raiser id)
      (log ++ s.wakes (.send raiser id)) := by
  simp only [userSendNotificationToCore, State.wakes, State.pending_setPending, if_true]
  split_ifs
  · rw [List.append_nil]
    exact h
  · exact Sleepers.enqueue (h.congr rfl rfl rfl rfl rfl)
  · rw [List.append_nil]
    exact h.congr rfl rfl rfl rfl rfl

/-- The channel that a receiver takes goes on to the next receiver while something is
pending on it. -/
theorem Sleepers.take {ch : UserRaiserChannel} (h : Sleepers isPerCpu trace s log)
    (hChannel : ch = s.channel ch.owner id) (task : Nat) (notification : UserNotification) :
    Sleepers isPerCpu trace (takeNotification s ch id).2
      (log ++ s.wakes (.recieve task id ch.owner notification)) := by
  simp only [takeNotification, State.wakes, ← hChannel, State.pending_setPending, if_true]
  split_ifs
  · have hPassed : Sleepers isPerCpu trace
        (userRaiserEnqueueNolock (s.setPending ch (s.pending ch - 1)) ch.owner id)
        (log ++ s.firstSleeper ch.owner id) :=
      Sleepers.enqueue (h.congr rfl rfl rfl rfl rfl)
    exact hPassed.congr rfl rfl rfl rfl rfl
  · rw [List.append_nil]
    exact h.congr rfl rfl rfl rfl rfl

/-- A receiver that finds no message goes to sleep behind the others. -/
theorem Sleepers.sleep {task : Nat} (h : Sleepers isPerCpu trace s log) (hTask : task ∉ s.receivers)
    (hQueue : userLocalGlobalDequeue s.mailbox.msgQueue s.mailbox.isPerCpu id = none) :
    Sleepers isPerCpu (trace ++ [.sleep task id])
      { s with
        mailbox.taskQueue :=
          userLocalGlobalEnqueue s.mailbox.taskQueue ⟨task, id⟩ s.mailbox.isPerCpu id
        receivers := task :: s.receivers } log := by
  have hEmpty := userLocalGlobalDequeue_none hQueue
  refine ⟨⟨h.sorted.msg, fun i node hNode => ?_, h.sorted.woken⟩, h.mode, fun i hi => ?_, ?_,
    List.nodup_cons.mpr ⟨hTask, h.nodup⟩, fun i => ?_, h.channel, h.sub⟩
  · simp only [userLocalGlobalEnqueue_apply] at hNode
    split_ifs at hNode with hSlot
    · rcases List.mem_append.mp hNode with hNode | hNode
      · exact h.sorted.task i node hNode
      · rw [List.mem_singleton.mp hNode]
        exact hSlot.symm
    · exact h.sorted.task i node hNode
  · by_cases hEq : i = slot s.mailbox.isPerCpu id
    · subst hEq
      exact hEmpty
    · simp only [userLocalGlobalEnqueue_apply, if_neg hEq] at hi
      exact h.quiet i hi
  · refine h.placed.insert (q := .asleep (slot s.mailbox.isPerCpu id)) (x := task) hTask ?_
      (fun spot hSpot => ?_) fun y => List.mem_cons
    · simp only [State.tasks, userLocalGlobalEnqueue_apply, if_true, List.map_append, List.map_cons,
        List.map_nil]
      exact List.perm_append_singleton ..
    · cases spot with
      | asleep i =>
          have hi : i ≠ slot s.mailbox.isPerCpu id := fun hEq => hSpot (hEq ▸ rfl)
          simp [State.tasks, userLocalGlobalEnqueue_apply, hi]
      | woken => rfl
  · have hSleeps : sleepsAt isPerCpu i (trace ++ [.sleep task id]) =
        sleepsAt isPerCpu i trace ++ if slot isPerCpu id = i then [⟨task, id⟩] else [] := by
      rw [sleepsAt, List.filterMap_append, ← sleepsAt]
      by_cases hEq : slot isPerCpu id = i <;> simp [hEq]
    simp only [hSleeps, h.order i, userLocalGlobalEnqueue_apply, h.mode]
    by_cases hEq : slot isPerCpu id = i
    · simp [hEq]
    · simp [hEq, Ne.symm hEq]

/-- A woken receiver leaves. -/
theorem Sleepers.leave {node : UserWaitQueueNode} {ch : UserRaiserChannel}
    (h : Sleepers isPerCpu trace s log) (hWoken : (node, ch) ∈ s.woken) :
    Sleepers isPerCpu trace
      { s with
        woken := s.woken.erase (node, ch)
        receivers := s.receivers.erase node.task } log := by
  refine ⟨⟨h.sorted.msg, h.sorted.task, fun p hp => h.sorted.woken p (List.mem_of_mem_erase hp)⟩,
    h.mode, h.quiet, ?_, h.nodup.erase _, h.order, h.channel, (List.erase_sublist).trans h.sub⟩
  refine h.placed.remove (p := .woken) (x := node.task) ?_ (fun spot hSpot => ?_) fun y => ?_
  · exact ((List.perm_cons_erase hWoken).map (·.1.task))
  · cases spot with
    | asleep i => rfl
    | woken => exact (hSpot rfl).elim
  · exact h.nodup.mem_erase_iff

/-- A message is taken out of its queue. -/
theorem Sleepers.dequeue {ch : UserRaiserChannel} {rest : Nat → List UserRaiserChannel}
    (h : Sleepers isPerCpu trace s log)
    (hQueue : userLocalGlobalDequeue s.mailbox.msgQueue s.mailbox.isPerCpu id = some (ch, rest)) :
    Sleepers isPerCpu trace { s with mailbox.msgQueue := rest } log := by
  refine ⟨⟨fun i c hc => h.sorted.msg i c (mem_of_mem_rest hQueue hc), h.sorted.task, h.sorted.woken⟩,
    h.mode, fun i hi => ?_, h.placed, h.nodup, h.order, h.channel, h.sub⟩
  rw [List.eq_nil_iff_forall_not_mem]
  intro c hc
  have hOld := mem_of_mem_rest hQueue hc
  rw [h.quiet i hi] at hOld
  cases hOld

theorem Sleepers.dropRef (h : Sleepers isPerCpu trace s log) (raiser : Nat) :
    Sleepers isPerCpu trace (s.dropRef raiser) log := by
  simp only [State.dropRef]
  split_ifs
  · exact h.congr rfl rfl rfl rfl rfl
  · exact h.congr rfl rfl rfl rfl rfl

/-- Only `sleep` events count as going to sleep. -/
theorem Sleepers.event {event : Event} (h : Sleepers isPerCpu trace s log)
    (hEvent : ∀ i, sleepsAt isPerCpu i [event] = []) : Sleepers isPerCpu (trace ++ [event]) s log := by
  refine ⟨h.sorted, h.mode, h.quiet, h.placed, h.nodup, fun i => ?_, h.channel, h.sub⟩
  have hSame : sleepsAt isPerCpu i (trace ++ [event]) = sleepsAt isPerCpu i trace := by
    rw [sleepsAt, List.filterMap_append, ← sleepsAt, ← sleepsAt, hEvent, List.append_nil]
  rw [hSame]
  exact h.order i

theorem Sleepers.step {event : Event} (h : Sleepers isPerCpu trace s log) (hStep : Step s event s') :
    Sleepers isPerCpu (trace ++ [event]) s' (log ++ s.wakes event) := by
  cases hStep with
  | send raiser id => exact h.send.event fun _ => rfl
  | @recieveQueued task id channel rest _ _ hQueue notification _ hTaken =>
      have hHead := (userLocalGlobalDequeue_some hQueue).1
      have hIndex : channel.index = slot s.mailbox.isPerCpu id :=
        h.sorted.msg _ channel (by rw [hHead]; exact List.mem_cons_self ..)
      have hChannel : channel = s.channel channel.owner id := by rw [State.channel, ← hIndex]
      have hTake := (h.dequeue hQueue).take hChannel task notification
      rw [hTaken] at hTake
      exact hTake.event fun _ => rfl
  | recieveSleep task id hTask _ hQueue =>
      simp only [State.wakes, List.append_nil]
      exact h.sleep hTask hQueue
  | @recieveWoken node channel hWoken notification _ hTaken =>
      have hIndex : channel.index = slot s.mailbox.isPerCpu node.id := h.sorted.woken _ hWoken
      have hChannel : channel = s.channel channel.owner node.id := by rw [State.channel, ← hIndex]
      have hTake := (h.leave hWoken).take hChannel node.task notification
      rw [hTaken] at hTake
      exact hTake.event fun _ => rfl
  | drain _ hQueue =>
      simp only [State.wakes, List.append_nil]
      exact ((h.dequeue hQueue).dropRef _).event fun _ => rfl
  | dropRaiser =>
      simp only [State.wakes, List.append_nil]
      exact Sleepers.event ((h.dropRef _).congr rfl rfl rfl rfl rfl) fun _ => rfl
  | createRaiser | borrowRaiser | borrowMailbox | dropMailbox | release =>
      simp only [State.wakes, List.append_nil]
      exact Sleepers.event (h.congr rfl rfl rfl rfl rfl) fun _ => rfl

theorem Sleepers.start (h : (system isPerCpu).init s) : Sleepers isPerCpu [] s [] := by
  obtain ⟨hMailbox, -, -, -, hReceivers, hWoken, -⟩ := h
  have hTasks : ∀ spot, s.tasks spot = [] := by
    intro spot
    cases spot <;> simp [State.tasks, hMailbox, hWoken, userCreateMailbox]
  refine ⟨⟨?_, ?_, ?_⟩, ?_, ?_, ⟨fun p => ?_, fun p q x hx => ?_, fun x => ?_⟩, ?_, fun i => ?_, ?_, ?_⟩
  · simp [hMailbox, userCreateMailbox]
  · simp [hMailbox, userCreateMailbox]
  · simp [hWoken]
  · rw [hMailbox]
    rfl
  · simp [hMailbox, userCreateMailbox]
  · rw [hTasks]
    exact List.nodup_nil
  · rw [hTasks] at hx
    cases hx
  · simp [hTasks, hReceivers]
  · rw [hReceivers]
    exact List.nodup_nil
  · rw [hMailbox]
    rfl
  · simp
  · rw [hWoken]

end Steps

section Runs

variable {isPerCpu : Bool} {trace : List Event} {s : State}
  {log : List (UserWaitQueueNode × UserRaiserChannel)}

theorem Sleepers.run (run : ((system isPerCpu).record State.wakes).Execution trace (s, log)) :
    Sleepers isPerCpu trace s log := by
  refine run.invariant (P := fun trace s => Sleepers isPerCpu trace s.1 s.2) (fun s hs => ?_)
    fun trace s event s' _ h hStep => ?_
  · rw [hs.2]
    exact Sleepers.start hs.1
  · rw [hStep.2]
    exact h.step hStep.1

/-- A sleeper is suspended and stands in one queue, once. -/
theorem Sleepers.suspended {i : Nat} {node : UserWaitQueueNode} (h : Sleepers isPerCpu trace s log)
    (hNode : node ∈ s.mailbox.taskQueue i) : s.Suspended node.task ∧
      ((s.mailbox.taskQueue i).map (·.task)).count node.task = 1 ∧
      ∀ j, node.task ∈ (s.mailbox.taskQueue j).map (·.task) → j = i := by
  have hTask : node.task ∈ s.tasks (.asleep i) := List.mem_map_of_mem hNode
  refine ⟨⟨h.placed.live_of_mem hTask, fun p hp hEq => ?_⟩, ?_, fun j hj => ?_⟩
  · have hWoken : node.task ∈ s.tasks .woken := hEq ▸ List.mem_map_of_mem hp
    cases h.placed.disjoint _ _ _ hTask hWoken
  · exact List.count_eq_one_of_mem (h.placed.nodup (.asleep i)) hTask
  · exact Spot.asleep.inj (h.placed.disjoint (.asleep j) (.asleep i) _ hj hTask)

/-- In every reachable state of a mailbox, a queue with a sleeping receiver has no message.
Every sleeper is suspended and stands in one queue, once. The receivers that were woken
from a queue, with the channel set in their nodes, and after them those that still sleep
there, are exactly the receivers that went to sleep there, in this order. A receiver that
sleeps no more is held with the channel of its wake-up until it has returned. -/
theorem mailbox_sleepers (run : (system isPerCpu).Execution trace s) :
    ∃ log, ((system isPerCpu).record State.wakes).Execution trace (s, log) ∧
      (∀ i, s.mailbox.taskQueue i ≠ [] → s.mailbox.msgQueue i = []) ∧
      (∀ i, ∀ node ∈ s.mailbox.taskQueue i, s.Suspended node.task ∧
        ((s.mailbox.taskQueue i).map (·.task)).count node.task = 1 ∧
        ∀ j, node.task ∈ (s.mailbox.taskQueue j).map (·.task) → j = i) ∧
      (∀ i, sleepsAt isPerCpu i trace =
        (wakesAt isPerCpu i log).map Prod.fst ++ s.mailbox.taskQueue i) ∧
      (∀ p ∈ log, p.2.index = slot isPerCpu p.1.id) ∧ s.woken.Sublist log ∧
      ∀ task ∈ s.receivers, (∃ i, task ∈ (s.mailbox.taskQueue i).map (·.task)) ∨
        ∃ p ∈ s.woken, p.1.task = task := by
  obtain ⟨log, recorded⟩ := run.record State.wakes
  have h := Sleepers.run recorded
  refine ⟨log, recorded, h.quiet, fun i node hNode => ?_, h.order, h.channel, h.sub,
    fun task hReceiver => ?_⟩
  · exact h.suspended hNode
  · obtain ⟨spot, hSpot⟩ := (h.placed.live_iff task).mp hReceiver
    cases spot with
    | asleep i => exact .inl ⟨i, hSpot⟩
    | woken => exact .inr (List.mem_map.mp hSpot)

/-- Two receivers sleep on core 1 of a per-CPU mailbox and one notification is sent there:
the first of them is woken and the second one sleeps on. -/
theorem mailbox_sleepers_two_receivers :
    ∃ s, (system true).Execution
        [.createRaiser 0 ⟨0, 7⟩, .sleep 5 1, .borrowMailbox, .sleep 6 1, .send 0 1] s ∧
      s.mailbox.taskQueue 1 = [⟨6, 1⟩] ∧ s.mailbox.msgQueue 1 = [] ∧ s.Suspended 6 := by
  let s₀ : State :=
    ⟨userCreateMailbox true, fun _ => ⟨0, ⟨0, 0⟩, fun _ => 0⟩, 0, fun _ => 0, [], [], false⟩
  have start : (system true).Execution [] s₀ :=
    .start ⟨rfl, rfl, fun _ => rfl, fun _ => rfl, rfl, rfl, rfl⟩
  have created := start.step (Step.createRaiser ⟨0, 7⟩ (by decide))
  have first := created.step (Step.recieveSleep 5 1 (by decide) (by decide) (by decide))
  have borrowed := first.step (Step.borrowMailbox (by decide))
  have second := borrowed.step (Step.recieveSleep 6 1 (by decide) (by decide) (by decide))
  have run := second.step (Step.send 0 1 (by decide))
  obtain ⟨_, -, hQuiet, hAsleep, -⟩ := mailbox_sleepers run
  exact ⟨_, run, rfl, hQuiet 1 (by decide), (hAsleep 1 ⟨6, 1⟩ (by decide)).1⟩

end Runs

end Ricerca.Notifications
