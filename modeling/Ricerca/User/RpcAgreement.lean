import Ricerca.User.NotificationsDelivery
import Ricerca.User.RpcNotifications
import Ricerca.User.RpcShutdown

/-! The queues of RPC objects and the notifications about them agree. As long as a party and
its mailbox are open, every container that was put into the queue was notified about, but the
one whose section is still running; so nobody who was notified finds the queue empty. -/
namespace Ricerca.RpcNotifications

open Foundation

/-- The number of the object. -/
def Party.object : Party → Nat
  | .caller c => c
  | .callee k => k

/-- The party was not created yet. -/
def Fresh (s : Rpc.State) : Party → Prop
  | .caller c => s.callersCount ≤ c
  | .callee k => s.calleesCount ≤ k

/-- The step puts a container into the queue of the party. -/
def enqueues (party : Party) : Rpc.Outcome → Bool
  | .enqueued _ k => party = .callee k
  | .replied _ c => party = .caller c
  | _ => false

/-- The call asks for the next container of the party. -/
def asks (party : Party) : Rpc.Op → Bool
  | .accept k _ => party = .callee k
  | .getResult c _ => party = .caller c
  | _ => false

/-- The call got one. -/
def takes (party : Party) (op : Rpc.Op) (outcome : Rpc.Outcome) : Bool :=
  asks party op && match outcome with
    | .accepted _ _ | .result _ _ => true
    | _ => false

section Queues

variable {s s' : Rpc.State} {op : Rpc.Op} {outcome : Rpc.Outcome} {party : Party} {q' : List Nat}

/-- How an open party came to its queue in one step. -/
inductive Moved (s : Rpc.State) (op : Rpc.Op) (outcome : Rpc.Outcome) (party : Party)
    (q' : List Nat) : Prop where
  | created (fresh : Fresh s party) (outcome_eq : outcome = .created party.object) (empty : q' = [])
  | moved (q : List Nat) (before : queue s party = some (q, false))
      (length : q'.length + (takes party op outcome).toNat =
        q.length + (enqueues party outcome).toNat)

theorem Moved.kept (h : queue s party = some (q', false)) (hTakes : takes party op outcome = false)
    (hEnqueues : enqueues party outcome = false) : Moved s op outcome party q' :=
  .moved q' h (by rw [hTakes, hEnqueues])

/-- The callee is open if it was not touched, and its queue is the same. -/
theorem queue_callee_update {k k' : Nat} {callee : Rpc.UserRpcCallee}
    (h : queue (s.setCallee k' callee) (.callee k) = some (q', false)) :
    (k = k' ∧ callee.incomingRpcs = q' ∧ callee.isShutDown = false) ∨
      (k ≠ k' ∧ queue s (.callee k) = some (q', false)) := by
  by_cases hk : k = k'
  · subst hk
    simp only [queue, Rpc.State.setCallee, Function.update_self, Option.map_some, Option.some.injEq,
      Prod.mk.injEq] at h
    exact .inl ⟨rfl, h⟩
  · refine .inr ⟨hk, ?_⟩
    simpa [queue, Rpc.State.setCallee, hk] using h

theorem moved_callee {k : Nat} (hD : Rpc.Drained s k) (h : Rpc.Transition s op outcome s')
    (hOpen : queue s' (.callee k) = some (q', false)) : Moved s op outcome (.callee k) q' := by
  cases h with
  | failed status => exact .kept hOpen (by simp [takes]) rfl
  | createCallee hCount =>
      rcases queue_callee_update hOpen with ⟨rfl, hQueue, -⟩ | ⟨hk, hSame⟩
      · exact .created (Nat.le_refl _) rfl hQueue.symm
      · exact .kept hSame (by simp [takes, asks]) rfl
  | @enqueued id c k' x callee container hRun hCallee hContainer hLive =>
      rcases queue_callee_update hOpen with ⟨rfl, rfl, -⟩ | ⟨hk, hSame⟩
      · refine .moved callee.incomingRpcs (by simp [queue, hCallee, hLive]) ?_
        simp [takes, asks, enqueues]
      · exact .kept hSame (by simp [takes, asks]) (by simpa [enqueues] using hk)
  | @accepted k' x msg callee container rest hCallee hLive hQueue hContainer =>
      rcases queue_callee_update hOpen with ⟨rfl, rfl, -⟩ | ⟨hk, hSame⟩
      · refine .moved callee.incomingRpcs (by simp [queue, hCallee, hLive]) ?_
        simp [takes, asks, enqueues, hQueue]
      · exact .kept hSame (by simp [takes, asks, hk]) rfl
  | @returned k' x msg message callee container hCallee hLive hSearch hContainer hCopy =>
      rcases queue_callee_update hOpen with ⟨rfl, rfl, -⟩ | ⟨hk, hSame⟩
      · exact .kept (by simp [queue, hCallee, hLive]) (by simp [takes, asks]) rfl
      · exact .kept hSame (by simp [takes, asks]) rfl
  | calleeShutDown hCallee hLive hUnused =>
      rcases queue_callee_update hOpen with ⟨-, -, hShut⟩ | ⟨hk, hSame⟩
      · cases hShut
      · exact .kept hSame (by simp [takes, asks]) rfl
  | @incomingAborted id k' x callee container rest hRun hCallee hQueue hContainer =>
      rcases queue_callee_update hOpen with ⟨rfl, -, hLive⟩ | ⟨hk, hSame⟩
      · have hShut := hD.shut id none callee (by simp [Rpc.draining, hRun, Rpc.Running.draining])
          hCallee
        cases hLive.symm.trans hShut
      · exact .kept hSame (by simp [takes, asks]) rfl
  | @awaitingAborted id k' i x callee container rest hRun hCallee hBucket hQueue hContainer =>
      rcases queue_callee_update hOpen with ⟨rfl, -, hLive⟩ | ⟨hk, hSame⟩
      · have hShut := hD.shut id (some i) callee
          (by simp [Rpc.draining, hRun, Rpc.Running.draining]) hCallee
        cases hLive.symm.trans hShut
      · exact .kept hSame (by simp [takes, asks]) rfl
  | replied hRun hContainer hCaller => exact .kept hOpen (by simp [takes, asks]) (by simp [enqueues])
  | _ => exact .kept hOpen (by simp [takes, asks]) rfl

/-- The caller is open if it was not touched, and its queue is the same. -/
theorem queue_caller_update {c c' : Nat} {caller : Option Rpc.UserRpcCaller}
    (h : queue (s.setCaller c' caller) (.caller c) = some (q', false)) :
    (c = c' ∧ ∃ a, caller = some a ∧ a.incomingReplies = q' ∧ a.isShutDown = false) ∨
      (c ≠ c' ∧ queue s (.caller c) = some (q', false)) := by
  by_cases hc : c = c'
  · subst hc
    simp only [queue, Rpc.State.setCaller, Function.update_self, Option.map_eq_some_iff,
      Prod.mk.injEq] at h
    exact .inl ⟨rfl, h⟩
  · refine .inr ⟨hc, ?_⟩
    simpa [queue, Rpc.State.setCaller, hc] using h

/-- The caller keeps its queue and its flag when other fields change. -/
theorem moved_caller_kept {c c' : Nat} {caller caller' : Rpc.UserRpcCaller}
    (hCaller : s.callers c' = some caller)
    (hOpen : queue (s.setCaller c' (some caller')) (.caller c) = some (q', false))
    (hReplies : caller'.incomingReplies = caller.incomingReplies)
    (hShut : caller'.isShutDown = caller.isShutDown) :
    queue s (.caller c) = some (q', false) := by
  rcases queue_caller_update hOpen with ⟨rfl, a, hEq, hQueue, hLive⟩ | ⟨-, hSame⟩
  · cases hEq
    simp [queue, hCaller, ← hReplies, ← hShut, hQueue, hLive]
  · exact hSame

theorem obtained_queue {c x : Nat} {caller caller' : Rpc.UserRpcCaller}
    {container : Rpc.UserRpcContainer} (h : Rpc.Obtained s c caller x container caller') :
    caller'.incomingReplies = caller.incomingReplies ∧ caller'.isShutDown = caller.isShutDown := by
  cases h with
  | reused hFree hContainer => exact ⟨rfl, rfl⟩
  | allocated junk hFree hNew => exact ⟨rfl, rfl⟩

theorem moved_caller {c : Nat} (hR : Rpc.References s c) (h : Rpc.Transition s op outcome s')
    (hOpen : queue s' (.caller c) = some (q', false)) : Moved s op outcome (.caller c) q' := by
  cases h with
  | failed status => exact .kept hOpen (by simp [takes]) rfl
  | createCaller =>
      rcases queue_caller_update hOpen with ⟨rfl, a, hEq, hQueue, -⟩ | ⟨hk, hSame⟩
      · cases hEq
        exact .created (Nat.le_refl _) rfl hQueue.symm
      · exact .kept hSame (by simp [takes, asks]) rfl
  | rejected status hCaller hLive hObtained =>
      obtain ⟨hReplies, hShut⟩ := obtained_queue hObtained
      exact .kept (moved_caller_kept hCaller hOpen hReplies hShut) (by simp [takes, asks]) rfl
  | prepared hCaller hLive hCallee hObtained hCopy =>
      obtain ⟨hReplies, hShut⟩ := obtained_queue hObtained
      exact .kept (moved_caller_kept hCaller hOpen hReplies hShut) (by simp [takes, asks]) rfl
  | undelivered hRun hCaller hContainer =>
      exact .kept (moved_caller_kept hCaller hOpen rfl rfl) (by simp [takes, asks]) rfl
  | @replied id x after caller container hRun hContainer hCaller =>
      rcases queue_caller_update hOpen with ⟨rfl, a, hEq, hQueue, hLive⟩ | ⟨hc, hSame⟩
      · cases hEq
        refine .moved caller.incomingReplies (by simpa [queue, hCaller] using hLive) ?_
        simp [takes, asks, enqueues, ← hQueue]
      · exact .kept hSame (by simp [takes, asks]) (by simpa [enqueues] using hc)
  | dropped hRun hCaller hMore =>
      exact .kept (moved_caller_kept hCaller hOpen rfl rfl) (by simp [takes, asks]) rfl
  | droppedLast hRun hCaller hLast =>
      exact .kept (moved_caller_kept hCaller hOpen rfl rfl) (by simp [takes, asks]) rfl
  | @replyFreed id c' x after caller rest hRun hCaller hQueue =>
      rcases queue_caller_update hOpen with ⟨rfl, a, hEq, -, hLive⟩ | ⟨hc, hSame⟩
      · cases hEq
        have hFrees : Rpc.role s id = some (.frees c) := by simp [Rpc.role, hRun, Rpc.Running.role]
        exact absurd hFrees (hR.not_frees hCaller hLive id)
      · exact .kept hSame (by simp [takes, asks]) rfl
  | callerFreed hRun hCaller hQueue =>
      rcases queue_caller_update hOpen with ⟨-, a, hEq, -⟩ | ⟨hc, hSame⟩
      · cases hEq
      · exact .kept hSame (by simp [takes, asks]) rfl
  | @result c' x msg caller container rest hCaller hLive hQueue hContainer =>
      rcases queue_caller_update hOpen with ⟨rfl, a, hEq, hRest, -⟩ | ⟨hc, hSame⟩
      · cases hEq
        refine .moved caller.incomingReplies (by simp [queue, hCaller, hLive]) ?_
        simp [takes, asks, enqueues, hQueue, ← hRest]
      · exact .kept hSame (by simp [takes, asks, hc]) rfl
  | callerShutDown hCaller hLive hUnused =>
      rcases queue_caller_update hOpen with ⟨-, a, hEq, -, hShut⟩ | ⟨hc, hSame⟩
      · cases hEq
        cases hShut
      · exact .kept hSame (by simp [takes, asks]) rfl
  | containerFreed hRun hCaller hQueue =>
      exact .kept (moved_caller_kept hCaller hOpen rfl rfl) (by simp [takes, asks]) rfl
  | enqueued hRun hCallee hContainer hLive =>
      exact .kept hOpen (by simp [takes, asks]) (by simp [enqueues])
  | accepted hCallee hLive hQueue hContainer => exact .kept hOpen (by simp [takes, asks]) rfl
  | _ => exact .kept hOpen (by simp [takes, asks]) rfl

theorem moved_of_transition (hC : Rpc.Conserved s) (hD : ∀ k, Rpc.Drained s k)
    (h : Rpc.Transition s op outcome s') (hOpen : queue s' party = some (q', false)) :
    Moved s op outcome party q' := by
  cases party with
  | caller c => exact moved_caller (hC.references c) h hOpen
  | callee k => exact moved_callee (hD k) h hOpen

theorem Fresh.queue_eq_none (h : Fresh s party) (hA : Rpc.Allocated s) : queue s party = none := by
  cases party with
  | caller c => simp [queue, hA.callers c h]
  | callee k => simp [queue, hA.callees k h]

/-- Objects are only added. -/
theorem Fresh.of_transition (h : Rpc.Transition s op outcome s') (hFresh : Fresh s' party) :
    Fresh s party := by
  cases party with
  | caller c =>
      cases h with
      | createCaller => exact Nat.le_of_succ_le hFresh
      | _ => exact hFresh
  | callee k =>
      cases h with
      | createCallee => exact Nat.le_of_succ_le hFresh
      | _ => exact hFresh

/-- The party comes into being. -/
structure Creates (s s' : Rpc.State) (party : Party) : Prop where
  fresh : Fresh s party
  used : ¬Fresh s' party
  empty : queue s' party = some ([], false)
  others : ∀ other, other ≠ party → queue s' other = queue s other
  kept : ∀ other, Fresh s' other → Fresh s other

theorem creates_caller {c : Nat} (hExec : Rpc.exec s .createCaller = some (.created c, s')) :
    Creates s s' (.caller c) := by
  have hTransition := Rpc.exec_transition hExec
  cases hTransition with
  | createCaller =>
      refine ⟨Nat.le_refl _, Nat.not_succ_le_self _, by simp [queue, Rpc.State.setCaller],
        fun other hOther => ?_, fun other => Fresh.of_transition (Rpc.exec_transition hExec)⟩
      cases other with
      | caller c =>
          have hNe : c ≠ s.callersCount := fun hEq => hOther (hEq ▸ rfl)
          simp [queue, Rpc.State.setCaller, hNe]
      | callee k => rfl

theorem creates_callee {k buckets : Nat}
    (hExec : Rpc.exec s (.createCallee buckets) = some (.created k, s')) :
    Creates s s' (.callee k) := by
  have hTransition := Rpc.exec_transition hExec
  cases hTransition with
  | createCallee hCount =>
      refine ⟨Nat.le_refl _, Nat.not_succ_le_self _, by simp [queue, Rpc.State.setCallee],
        fun other hOther => ?_, fun other => Fresh.of_transition (Rpc.exec_transition hExec)⟩
      cases other with
      | caller c => rfl
      | callee k =>
          have hNe : k ≠ s.calleesCount := fun hEq => hOther (hEq ▸ rfl)
          simp [queue, Rpc.State.setCallee, hNe]

/-- A container goes into the queue of a party that is there, under the party's lock. -/
theorem enqueues_spec (h : Rpc.Transition s op outcome s') (hEnqueues : enqueues party outcome = true) :
    queue s party ≠ none ∧ lock s op = some party ∧ ∃ id, op = .run id := by
  cases h with
  | @enqueued id c k x callee container hRun hCallee hContainer hLive =>
      obtain rfl : party = .callee k := by simpa [enqueues] using hEnqueues
      exact ⟨by simp [queue, hCallee], by simp [lock, hRun], id, rfl⟩
  | @replied id x after caller container hRun hContainer hCaller =>
      obtain rfl : party = .caller container.caller := by simpa [enqueues] using hEnqueues
      exact ⟨by simp [queue, hCaller], by simp [lock, hRun, hContainer], id, rfl⟩
  | _ => cases hEnqueues

/-- A call asks a party that is there and not shut down, and fails only if the queue is empty. -/
theorem asks_spec (hAsks : asks party op = true) (h : Rpc.exec s op = some (outcome, s')) :
    ∃ q, queue s party = some (q, false) ∧ (outcome = .failed .empty → q = []) := by
  cases op with
  | accept k msg =>
      obtain rfl : party = .callee k := by simpa [asks] using hAsks
      simp only [Rpc.exec, Option.bind_eq_bind, Option.bind_eq_some_iff] at h
      obtain ⟨callee, hCallee, hResult⟩ := h
      split at hResult
      · cases hResult
      · rename_i hLive
        refine ⟨callee.incomingRpcs, by simpa [queue, hCallee] using hLive, fun hEmpty => ?_⟩
        subst hEmpty
        rw [Rpc.userRpcAccept] at hResult
        split at hResult
        · assumption
        · simp at hResult
  | getResult c msg =>
      obtain rfl : party = .caller c := by simpa [asks] using hAsks
      simp only [Rpc.exec, Option.bind_eq_bind, Option.bind_eq_some_iff] at h
      obtain ⟨caller, hCaller, hResult⟩ := h
      split at hResult
      · cases hResult
      · rename_i hLive
        refine ⟨caller.incomingReplies, by simpa [queue, hCaller] using hLive, fun hEmpty => ?_⟩
        subst hEmpty
        rw [Rpc.userRpcGetResult] at hResult
        split at hResult
        · assumption
        · simp at hResult
  | _ => cases hAsks

end Queues

section Labels

namespace Label

/-- The step puts a container into the queue of the party. -/
def enqueues (party : Party) : Label → Bool
  | .rpc _ outcome => RpcNotifications.enqueues party outcome
  | _ => false

/-- The step is a call of `user_rpc_accept` or `user_rpc_get_result` on the party. -/
def asks (party : Party) : Label → Bool
  | .rpc op _ => RpcNotifications.asks party op
  | _ => false

/-- The step is such a call that got a container. -/
def takes (party : Party) : Label → Bool
  | .rpc op outcome => RpcNotifications.takes party op outcome
  | _ => false

/-- The step is such a call that found nothing. -/
def isEmpty (party : Party) : Label → Prop
  | .rpc op outcome => RpcNotifications.asks party op = true ∧ outcome = .failed .empty
  | _ => False

/-- A section that has put a container into the queue of the party sends its notification. -/
def notifies (party : Party) : Label → Bool
  | .notified party' _ _ _ => party' = party
  | _ => false

/-- A notification is sent through this raiser. -/
def sends (mailbox raiser : Nat) : Label → Bool
  | .notified _ mailbox' raiser' _ => mailbox' = mailbox ∧ raiser' = raiser
  | .mailbox mailbox' (.send raiser' _) => mailbox' = mailbox ∧ raiser' = raiser
  | _ => false

/-- Somebody receives a notification of this raiser. -/
def recieves (mailbox raiser : Nat) : Label → Bool
  | .mailbox mailbox' (.recieve _ _ raiser' _) => mailbox' = mailbox ∧ raiser' = raiser
  | _ => false

/-- What the step is to the RPC objects. -/
def rpcSteps : Label → List (Rpc.Op × Rpc.Outcome)
  | .created op party _ _ _ => [(op, .created party.object)]
  | .rpc op outcome => [(op, outcome)]
  | _ => []

/-- What the step is to a mailbox. -/
def events (mailbox : Nat) : Label → List Notifications.Event
  | .created _ _ mailbox' raiser template =>
      if mailbox' = mailbox then [.createRaiser raiser template] else []
  | .rpc _ _ => []
  | .notified _ mailbox' raiser core => if mailbox' = mailbox then [.send raiser core] else []
  | .mailbox mailbox' event => if mailbox' = mailbox then [event] else []

end Label

end Labels

section Projections

variable {isPerCpu : Nat → Bool} {trace : List Label} {s s' : State}

theorem afterRpc_rpc {op : Rpc.Op} {outcome : Rpc.Outcome} {rpc : Rpc.State} :
    (s.afterRpc op outcome rpc).rpc = rpc := by
  simp only [State.afterRpc]
  split <;> rfl

theorem afterRpc_mailboxes {op : Rpc.Op} {outcome : Rpc.Outcome} {rpc : Rpc.State} :
    (s.afterRpc op outcome rpc).mailboxes = s.mailboxes ∧
      (s.afterRpc op outcome rpc).raiser = s.raiser := by
  simp only [State.afterRpc]
  split <;> exact ⟨rfl, rfl⟩

/-- The RPC objects go through one of their own runs. -/
theorem rpc_run (run : (system isPerCpu).Execution trace s) :
    Rpc.system.Execution (trace.flatMap Label.rpcSteps) s.rpc := by
  induction run with
  | start h => exact .start h.1
  | @step trace s s' label prior last ih =>
      rw [List.flatMap_append, List.flatMap_singleton]
      cases last with
      | createCaller hRaiser hExec => exact .step ih hExec
      | createCallee hRaiser hExec => exact .step ih hExec
      | rpc hKind hLock hOrder hExec =>
          rw [afterRpc_rpc]
          exact .step ih hExec
      | notify core hNotifying hRaiser hSend => simpa [Label.rpcSteps, State.setMailbox] using ih
      | mailbox hPermits hStep => simpa [Label.rpcSteps, State.setMailbox] using ih

/-- Every mailbox goes through one of its own runs. -/
theorem mailbox_run (run : (system isPerCpu).Execution trace s) (mailbox : Nat) :
    (Notifications.system (isPerCpu mailbox)).Execution (trace.flatMap (Label.events mailbox))
      (s.mailboxes mailbox) := by
  induction run with
  | start h => exact .start (h.2.1 mailbox)
  | @step trace s s' label prior last ih =>
      have hOne : ∀ (mailbox' : Nat) (event : Notifications.Event) (box : Notifications.State),
          Notifications.Step (s.mailboxes mailbox') event box →
          (Notifications.system (isPerCpu mailbox)).Execution
            (trace.flatMap (Label.events mailbox) ++ if mailbox' = mailbox then [event] else [])
            ((s.setMailbox mailbox' box).mailboxes mailbox) := by
        intro mailbox' event box hStep
        by_cases hSame : mailbox' = mailbox
        · subst hSame
          simp only [if_true, State.setMailbox, Function.update_self]
          exact .step ih hStep
        · simpa [hSame, State.setMailbox, Ne.symm hSame] using ih
      rw [List.flatMap_append, List.flatMap_singleton]
      cases last with
      | createCaller hRaiser hExec => exact hOne _ _ _ hRaiser
      | createCallee hRaiser hExec => exact hOne _ _ _ hRaiser
      | rpc hKind hLock hOrder hExec =>
          rw [afterRpc_mailboxes.1]
          simpa [Label.events] using ih
      | notify core hNotifying hRaiser hSend => exact hOne _ _ _ hSend
      | mailbox hPermits hStep => exact hOne _ _ _ hStep

end Projections

section Counts

variable {isPerCpu : Nat → Bool} {trace : List Label} {s s' : State} {label : Label} {party : Party}

theorem countP_concat (p : Label → Bool) (trace : List Label) (label : Label) :
    (trace ++ [label]).countP p = trace.countP p + (p label).toNat := by
  rw [List.countP_append, List.countP_singleton]
  cases p label <;> rfl

/-- What has happened to a party so far. A new party has been left alone. The containers that
went into the queue of an open party were taken out or are still there, and for all but the
one that is being notified about a notification was sent. -/
structure Paired (trace : List Label) (s : State) (party : Party) : Prop where
  unused : Fresh s.rpc party → s.raiser party = none ∧ s.notifying party = none ∧
    trace.countP (Label.enqueues party) = 0 ∧ trace.countP (Label.takes party) = 0 ∧
    trace.countP (Label.notifies party) = 0 ∧ trace.countP (Label.asks party) = 0
  queued : ∀ q, queue s.rpc party = some (q, false) → s.raiser party ≠ none ∧
    trace.countP (Label.enqueues party) = trace.countP (Label.takes party) + q.length ∧
    trace.countP (Label.notifies party) + (s.notifying party).isSome.toNat =
      trace.countP (Label.enqueues party)

/-- A party is created. -/
theorem Paired.created {op : Rpc.Op} {created : Party} {mailbox raiser : Nat} {rpc : Rpc.State}
    {template : Notifications.UserNotification} {box : Notifications.State}
    (h : Paired trace s party) (hCreates : Creates s.rpc rpc created) :
    Paired (trace ++ [.created op created mailbox raiser template])
      { s.setMailbox mailbox box with
        rpc := rpc
        raiser := Function.update s.raiser created (some (mailbox, raiser)) } party := by
  by_cases hParty : party = created
  · subst hParty
    refine ⟨fun hNew => absurd hNew hCreates.used, fun q hOpen => ?_⟩
    obtain ⟨-, hNone, hEnqueues, hTakes, hNotifies, -⟩ := h.unused hCreates.fresh
    have hEmpty : q = [] := by simpa [eq_comm] using hCreates.empty.symm.trans hOpen
    simp [hEmpty, hEnqueues, hTakes, hNotifies, hNone, Label.enqueues, Label.takes, Label.notifies,
      State.setMailbox]
  · refine ⟨fun hNew => ?_, fun q hOpen => ?_⟩
    · simpa [countP_concat, Label.enqueues, Label.takes, Label.notifies, Label.asks, hParty,
        State.setMailbox] using h.unused (hCreates.kept party hNew)
    · have hQueue := (hCreates.others party hParty).symm.trans hOpen
      simpa [countP_concat, Label.enqueues, Label.takes, Label.notifies, hParty,
        State.setMailbox] using h.queued q hQueue

theorem enqueues_of_toNotify {rpc : Rpc.State} {outcome : Rpc.Outcome}
    (h : toNotify rpc outcome = some party) : enqueues party outcome = true := by
  cases outcome with
  | enqueued r k =>
      cases h
      simp [enqueues]
  | replied r c =>
      simp only [toNotify] at h
      split at h
      · cases h
        simp [enqueues]
      · cases h
  | _ => cases h

theorem toNotify_of_enqueues {rpc : Rpc.State} {outcome : Rpc.Outcome} {q : List Nat}
    (h : enqueues party outcome = true) (hOpen : queue rpc party = some (q, false)) :
    toNotify rpc outcome = some party := by
  cases outcome with
  | enqueued r k =>
      obtain rfl : party = .callee k := by simpa [enqueues] using h
      rfl
  | replied r c =>
      obtain rfl : party = .caller c := by simpa [enqueues] using h
      simp [toNotify, hOpen]
  | _ => cases h

theorem afterRpc_notifying_of_ne {op : Rpc.Op} {outcome : Rpc.Outcome} {rpc : Rpc.State}
    (h : toNotify s.rpc outcome ≠ some party) :
    (s.afterRpc op outcome rpc).notifying party = s.notifying party := by
  simp only [State.afterRpc]
  split
  · rename_i id other hOther
    have hNe : party ≠ other := fun hEq => h (hEq ▸ hOther)
    simp [hNe]
  · rfl

theorem afterRpc_notifying_run {id : Nat} {outcome : Rpc.Outcome} {rpc : Rpc.State}
    (h : toNotify s.rpc outcome = some party) :
    (s.afterRpc (.run id) outcome rpc).notifying party = some id := by
  simp [State.afterRpc, h]

/-- A section of an RPC operation, up to its notification. -/
theorem Paired.rpc {op : Rpc.Op} {outcome : Rpc.Outcome} {rpc : Rpc.State}
    (hC : Rpc.Conserved s.rpc) (hD : ∀ k, Rpc.Drained s.rpc k) (h : Paired trace s party)
    (hKind : ∀ obj, outcome ≠ .created obj)
    (hLock : ∀ party, lock s.rpc op = some party → s.notifying party = none)
    (hExec : Rpc.exec s.rpc op = some (outcome, rpc)) :
    Paired (trace ++ [.rpc op outcome]) (s.afterRpc op outcome rpc) party := by
  have hTransition := Rpc.exec_transition hExec
  have hTakesAsks : asks party op = false → takes party op outcome = false := by
    intro hAsks
    simp only [takes, hAsks, Bool.false_and]
  refine ⟨fun hNew => ?_, fun q' hOpen => ?_⟩
  · rw [afterRpc_rpc] at hNew
    have hFresh := Fresh.of_transition hTransition hNew
    have hNone := hFresh.queue_eq_none hC.allocated
    have hEnqueues : enqueues party outcome = false := by
      by_contra hNot
      exact (enqueues_spec hTransition (by simpa using hNot)).1 hNone
    have hAsks : asks party op = false := by
      by_contra hNot
      obtain ⟨q, hOpen, -⟩ := asks_spec (by simpa using hNot) hExec
      simp [hNone] at hOpen
    have hNotify : toNotify s.rpc outcome ≠ some party := by
      intro hNotify
      rw [enqueues_of_toNotify hNotify] at hEnqueues
      cases hEnqueues
    rw [afterRpc_notifying_of_ne hNotify, afterRpc_mailboxes.2]
    simpa only [countP_concat, Label.enqueues, Label.takes, Label.notifies, Label.asks, hEnqueues,
      hTakesAsks hAsks, hAsks, Bool.toNat_false, Nat.add_zero] using h.unused hFresh
  · rw [afterRpc_rpc] at hOpen
    cases moved_of_transition hC hD hTransition hOpen with
    | created fresh outcome_eq empty => exact absurd outcome_eq (hKind _)
    | moved q before length =>
        obtain ⟨hRaiser, hQueue, hSent⟩ := h.queued q before
        rw [afterRpc_mailboxes.2]
        simp only [countP_concat, Label.enqueues, Label.takes, Label.notifies, Bool.toNat_false,
          Nat.add_zero]
        refine ⟨hRaiser, by omega, ?_⟩
        cases hEnqueues : enqueues party outcome with
        | true =>
            obtain ⟨-, hTaken, id, rfl⟩ := enqueues_spec hTransition hEnqueues
            rw [hLock party hTaken] at hSent
            rw [afterRpc_notifying_run (toNotify_of_enqueues hEnqueues before)]
            simpa using hSent
        | false =>
            have hNotify : toNotify s.rpc outcome ≠ some party := by
              intro hNotify
              rw [enqueues_of_toNotify hNotify] at hEnqueues
              cases hEnqueues
            rw [afterRpc_notifying_of_ne hNotify]
            simpa using hSent

theorem Paired.step (hC : Rpc.Conserved s.rpc) (hD : ∀ k, Rpc.Drained s.rpc k)
    (h : Paired trace s party) (hStep : Step s label s') : Paired (trace ++ [label]) s' party := by
  cases hStep with
  | createCaller hRaiser hExec => exact h.created (creates_caller hExec)
  | createCallee hRaiser hExec => exact h.created (creates_callee hExec)
  | rpc hKind hLock hOrder hExec => exact h.rpc hC hD hKind hLock hExec
  | @notify party' id mailbox raiser core box hNotifying hRaiser hSend =>
      by_cases hParty : party' = party
      · subst hParty
        refine ⟨fun hNew => ?_, fun q hOpen => ?_⟩
        · have hNone := (h.unused hNew).2.1
          rw [hNotifying] at hNone
          cases hNone
        · obtain ⟨hOwns, hQueue, hSent⟩ := h.queued q hOpen
          rw [hNotifying] at hSent
          refine ⟨hOwns, ?_, ?_⟩
          · simpa [countP_concat, Label.enqueues, Label.takes] using hQueue
          · simpa [countP_concat, Label.enqueues, Label.notifies] using hSent
      · refine ⟨fun hNew => ?_, fun q hOpen => ?_⟩
        · simpa [countP_concat, Label.enqueues, Label.takes, Label.notifies, Label.asks, hParty,
            Ne.symm hParty, State.setMailbox] using h.unused hNew
        · simpa [countP_concat, Label.enqueues, Label.takes, Label.notifies, hParty,
            Ne.symm hParty, State.setMailbox] using h.queued q hOpen
  | mailbox hPermits hStep =>
      refine ⟨fun hNew => ?_, fun q hOpen => ?_⟩
      · simpa [countP_concat, Label.enqueues, Label.takes, Label.notifies, Label.asks,
          State.setMailbox] using h.unused hNew
      · simpa [countP_concat, Label.enqueues, Label.takes, Label.notifies, State.setMailbox] using
          h.queued q hOpen

theorem Paired.run (run : (system isPerCpu).Execution trace s) (party : Party) :
    Paired trace s party := by
  induction run with
  | start h =>
      obtain ⟨hRpc, -, hRaiser, hNotifying⟩ := h
      refine ⟨fun _ => ⟨hRaiser party, hNotifying party, rfl, rfl, rfl, rfl⟩, fun q hOpen => ?_⟩
      rw [hRpc] at hOpen
      cases party with
      | caller c => cases hOpen
      | callee k => cases hOpen
  | step prior last ih =>
      exact ih.step (Rpc.Conserved.run (rpc_run prior)) (Rpc.Drained.run (rpc_run prior)) last

end Counts

section Raisers

variable {isPerCpu : Nat → Bool} {trace : List Label} {s s' : State} {label : Label}

theorem raisersCount_take {m m' : Notifications.State} {ch : Notifications.UserRaiserChannel} {id : Nat}
    {notification : Notifications.UserNotification}
    (h : Notifications.takeNotification m ch id = (notification, m')) :
    m'.raisersCount = m.raisersCount := by
  have hSame := (Notifications.takeNotification_frame m ch id).2.2.2.1
  rwa [h] at hSame

theorem notification_take {m m' : Notifications.State} {ch : Notifications.UserRaiserChannel} {id : Nat}
    {notification : Notifications.UserNotification}
    (h : Notifications.takeNotification m ch id = (notification, m')) (raiser : Nat) :
    (m'.raisers raiser).notification = (m.raisers raiser).notification := by
  have hSame := (Notifications.takeNotification_frame m ch id).2.2.2.2.2 raiser
  rwa [h] at hSame

/-- Raisers are only added, one after the other. -/
theorem raisersCount_step {m m' : Notifications.State} {event : Notifications.Event}
    (h : Notifications.Step m event m') :
    m.raisersCount ≤ m'.raisersCount ∧ ∀ raiser template, event = .createRaiser raiser template →
      raiser = m.raisersCount ∧ m'.raisersCount = m.raisersCount + 1 := by
  have hSame : (∀ raiser template, event ≠ .createRaiser raiser template) →
      m'.raisersCount = m.raisersCount → m.raisersCount ≤ m'.raisersCount ∧
        ∀ raiser template, event = .createRaiser raiser template →
          raiser = m.raisersCount ∧ m'.raisersCount = m.raisersCount + 1 :=
    fun hEvent hCount => ⟨Nat.le_of_eq hCount.symm,
      fun raiser template hEq => absurd hEq (hEvent raiser template)⟩
  cases h with
  | createRaiser template hRef =>
      refine ⟨Nat.le_succ _, fun raiser template' hEq => ?_⟩
      cases hEq
      exact ⟨rfl, rfl⟩
  | borrowRaiser | recieveSleep | borrowMailbox | dropMailbox | release =>
      exact hSame (by simp) rfl
  | dropRaiser hRef => exact hSame (by simp) (Notifications.Delivery.dropRef_frame m _).2.2.2.2.2.1
  | send raiser id hRef =>
      refine hSame (by simp) ?_
      simp only [Notifications.userSendNotificationToCore]
      split_ifs
      · rfl
      · exact (Notifications.userRaiserEnqueueNolock_frame _ raiser id).2.2.1
      · rfl
  | recieveQueued hTask hRef hQueue hTaken =>
      have hCount := raisersCount_take hTaken
      exact hSame (by simp) hCount
  | recieveWoken node channel hWoken hTaken =>
      have hCount := raisersCount_take hTaken
      exact hSame (by simp) hCount
  | drain hShutDown hQueue =>
      exact hSame (by simp) (Notifications.Delivery.dropRef_frame _ _).2.2.2.2.2.1

/-- A raiser keeps its notification. -/
theorem notification_step {m m' : Notifications.State} {event : Notifications.Event}
    (h : Notifications.Step m event m') {raiser : Nat} (hRaiser : raiser < m.raisersCount) :
    (m'.raisers raiser).notification = (m.raisers raiser).notification := by
  cases h with
  | createRaiser template hRef => simp [Nat.ne_of_lt hRaiser]
  | recieveSleep | borrowMailbox | dropMailbox | release => rfl
  | borrowRaiser hRef => exact Notifications.State.notification_setRefcount m _ _ raiser
  | dropRaiser hRef => exact (Notifications.Delivery.dropRef_frame m _).2.2.2.2.2.2.2 raiser
  | send raiser' id hRef =>
      simp only [Notifications.userSendNotificationToCore]
      split_ifs
      · rfl
      · rw [(Notifications.userRaiserEnqueueNolock_frame _ raiser' id).2.2.2.2 raiser]
        exact Notifications.State.notification_setPending m _ _ raiser
      · exact Notifications.State.notification_setPending m _ _ raiser
  | recieveQueued hTask hRef hQueue hTaken =>
      have hSame := notification_take hTaken raiser
      exact hSame
  | recieveWoken node channel hWoken hTaken =>
      have hSame := notification_take hTaken raiser
      exact hSame
  | drain hShutDown hQueue => exact (Notifications.Delivery.dropRef_frame _ _).2.2.2.2.2.2.2 raiser

/-- The type of the notifications about a party. -/
def Party.noteType : Party → UInt64
  | .caller _ => userNoteTypeRpcReply
  | .callee _ => userNoteTypeRpcIncoming

/-- Every party has a raiser of its own, with its own type of notification. -/
structure Owned (s : State) : Prop where
  unique : ∀ party party' mailbox raiser, s.raiser party = some (mailbox, raiser) →
    s.raiser party' = some (mailbox, raiser) → party = party'
  bound : ∀ party mailbox raiser, s.raiser party = some (mailbox, raiser) →
    raiser < (s.mailboxes mailbox).raisersCount
  type : ∀ party mailbox raiser, s.raiser party = some (mailbox, raiser) →
    ((s.mailboxes mailbox).raisers raiser).notification.type = party.noteType

/-- Only its owner has sent through a raiser, and nobody through one that is not there. -/
structure Private (trace : List Label) (s : State) (mailbox : Nat) : Prop where
  unused : ∀ raiser, (s.mailboxes mailbox).raisersCount ≤ raiser →
    trace.countP (Label.sends mailbox raiser) = 0
  owner : ∀ party raiser, s.raiser party = some (mailbox, raiser) →
    trace.countP (Label.sends mailbox raiser) = trace.countP (Label.notifies party)

theorem raisersCount_setMailbox {mailbox other : Nat} {box : Notifications.State}
    (h : (s.mailboxes mailbox).raisersCount ≤ box.raisersCount) :
    (s.mailboxes other).raisersCount ≤ ((s.setMailbox mailbox box).mailboxes other).raisersCount := by
  by_cases hOther : other = mailbox
  · subst hOther
    simpa [State.setMailbox] using h
  · simp [State.setMailbox, hOther]

theorem notification_setMailbox {mailbox other raiser : Nat} {event : Notifications.Event}
    {box : Notifications.State} (hStep : Notifications.Step (s.mailboxes mailbox) event box)
    (hRaiser : raiser < (s.mailboxes other).raisersCount) :
    (((s.setMailbox mailbox box).mailboxes other).raisers raiser).notification =
      ((s.mailboxes other).raisers raiser).notification := by
  by_cases hOther : other = mailbox
  · subst hOther
    simpa [State.setMailbox] using notification_step hStep hRaiser
  · simp [State.setMailbox, hOther]

/-- Something happens to a mailbox. -/
theorem Owned.setMailbox {mailbox : Nat} {event : Notifications.Event} {box : Notifications.State}
    {rpc : Rpc.State} {notifying : Party → Option Nat} (h : Owned s)
    (hStep : Notifications.Step (s.mailboxes mailbox) event box) :
    Owned { s.setMailbox mailbox box with rpc := rpc, notifying := notifying } := by
  refine ⟨h.unique, fun party mailbox' raiser hOwns => ?_, fun party mailbox' raiser hOwns => ?_⟩
  · exact Nat.lt_of_lt_of_le (h.bound party mailbox' raiser hOwns)
      (raisersCount_setMailbox (raisersCount_step hStep).1)
  · have hSame := notification_setMailbox hStep (h.bound party mailbox' raiser hOwns)
    exact (congrArg _ hSame).trans (h.type party mailbox' raiser hOwns)

/-- A party is created with a raiser. -/
theorem Owned.created {created : Party} {mailbox raiser : Nat} {rpc : Rpc.State}
    {template : Notifications.UserNotification} {box : Notifications.State} (h : Owned s)
    (hRaiser : Notifications.Step (s.mailboxes mailbox) (.createRaiser raiser template) box)
    (hType : template.type = created.noteType) :
    Owned { s.setMailbox mailbox box with
      rpc := rpc
      raiser := Function.update s.raiser created (some (mailbox, raiser)) } := by
  have hKept : Owned (s.setMailbox mailbox box) := h.setMailbox hRaiser
  obtain ⟨-, hNew⟩ := raisersCount_step hRaiser
  obtain ⟨rfl, hCount⟩ := hNew raiser template rfl
  have hOld : ∀ party, s.raiser party ≠ some (mailbox, (s.mailboxes mailbox).raisersCount) :=
    fun party hOwns => absurd (h.bound party _ _ hOwns) (Nat.lt_irrefl _)
  refine ⟨fun party party' mailbox' raiser' hOwns hOwns' => ?_,
    fun party mailbox' raiser' hOwns => ?_, fun party mailbox' raiser' hOwns => ?_⟩
  · by_cases hParty : party = created <;> by_cases hParty' : party' = created
    · rw [hParty, hParty']
    · subst hParty
      simp only [Function.update_self, ne_eq, hParty', not_false_eq_true, Function.update_of_ne]
        at hOwns hOwns'
      exact absurd (hOwns'.trans hOwns.symm) (hOld party')
    · subst hParty'
      simp only [Function.update_self, ne_eq, hParty, not_false_eq_true, Function.update_of_ne]
        at hOwns hOwns'
      exact absurd (hOwns.trans hOwns'.symm) (hOld party)
    · simp only [ne_eq, hParty, hParty', not_false_eq_true, Function.update_of_ne] at hOwns hOwns'
      exact h.unique party party' mailbox' raiser' hOwns hOwns'
  · by_cases hParty : party = created
    · subst hParty
      simp only [Function.update_self, Option.some.injEq, Prod.mk.injEq] at hOwns
      obtain ⟨rfl, rfl⟩ := hOwns
      simp [State.setMailbox, hCount]
    · simp only [ne_eq, hParty, not_false_eq_true, Function.update_of_ne] at hOwns
      exact hKept.bound party mailbox' raiser' hOwns
  · by_cases hParty : party = created
    · subst hParty
      simp only [Function.update_self, Option.some.injEq, Prod.mk.injEq] at hOwns
      obtain ⟨rfl, rfl⟩ := hOwns
      cases hRaiser with
      | createRaiser _ hRef => simpa [State.setMailbox] using hType
    · simp only [ne_eq, hParty, not_false_eq_true, Function.update_of_ne] at hOwns
      exact hKept.type party mailbox' raiser' hOwns

theorem Owned.run (run : (system isPerCpu).Execution trace s) : Owned s := by
  induction run with
  | start h =>
      refine ⟨fun party party' mailbox raiser hOwns => ?_, fun party mailbox raiser hOwns => ?_,
        fun party mailbox raiser hOwns => ?_⟩ <;>
      · rw [h.2.2.1 party] at hOwns
        cases hOwns
  | step prior last ih =>
      cases last with
      | createCaller hRaiser hExec => exact ih.created hRaiser rfl
      | createCallee hRaiser hExec => exact ih.created hRaiser rfl
      | rpc hKind hLock hOrder hExec =>
          obtain ⟨hMailboxes, hRaisers⟩ := afterRpc_mailboxes
          refine ⟨?_, ?_, ?_⟩ <;> rw [hRaisers]
          · exact ih.unique
          · rw [hMailboxes]
            exact ih.bound
          · rw [hMailboxes]
            exact ih.type
      | notify core hNotifying hRaiser hSend => exact ih.setMailbox hSend
      | mailbox hPermits hStep => exact ih.setMailbox hStep

/-- A mailbox that is open now was open before the step. -/
theorem isShutDown_of_step (hStep : Step s label s') {mailbox : Nat}
    (h : (s'.mailboxes mailbox).mailbox.isShutDown = false) :
    (s.mailboxes mailbox).mailbox.isShutDown = false := by
  have hOne : ∀ {other : Nat} {event : Notifications.Event} {box : Notifications.State},
      Notifications.Step (s.mailboxes other) event box →
      ((s.setMailbox other box).mailboxes mailbox).mailbox.isShutDown = false →
      (s.mailboxes mailbox).mailbox.isShutDown = false := by
    intro other event box hStep hOpen
    by_cases hOther : mailbox = other
    · subst hOther
      simp only [State.setMailbox, Function.update_self] at hOpen
      exact Notifications.isShutDown_step hStep hOpen
    · simpa [State.setMailbox, hOther] using hOpen
  cases hStep with
  | createCaller hRaiser hExec => exact hOne hRaiser h
  | createCallee hRaiser hExec => exact hOne hRaiser h
  | rpc hKind hLock hOrder hExec =>
      rw [afterRpc_mailboxes.1] at h
      exact h
  | notify core hNotifying hRaiser hSend => exact hOne hSend h
  | mailbox hPermits hStep => exact hOne hStep h

/-- A party is created with a raiser that nobody has sent through. -/
theorem Private.created {op : Rpc.Op} {created : Party} {mailbox raiser other : Nat} {rpc : Rpc.State}
    {template : Notifications.UserNotification} {box : Notifications.State}
    (h : Private trace s other) (hPaired : Paired trace s created)
    (hCreates : Creates s.rpc rpc created)
    (hRaiser : Notifications.Step (s.mailboxes mailbox) (.createRaiser raiser template) box) :
    Private (trace ++ [.created op created mailbox raiser template])
      { s.setMailbox mailbox box with
        rpc := rpc
        raiser := Function.update s.raiser created (some (mailbox, raiser)) } other := by
  obtain ⟨hLe, hNew⟩ := raisersCount_step hRaiser
  obtain ⟨rfl, hCount⟩ := hNew raiser template rfl
  refine ⟨fun raiser' hUnused => ?_, fun party raiser' hOwns => ?_⟩
  · simp only [countP_concat, Label.sends, Bool.toNat_false, Nat.add_zero]
    exact h.unused raiser' (Nat.le_trans (raisersCount_setMailbox hLe) hUnused)
  · simp only [countP_concat, Label.sends, Label.notifies, Bool.toNat_false, Nat.add_zero]
    by_cases hParty : party = created
    · subst hParty
      simp only [Function.update_self, Option.some.injEq, Prod.mk.injEq] at hOwns
      obtain ⟨rfl, rfl⟩ := hOwns
      rw [h.unused _ (Nat.le_refl _), (hPaired.unused hCreates.fresh).2.2.2.2.1]
    · simp only [ne_eq, hParty, not_false_eq_true, Function.update_of_ne] at hOwns
      exact h.owner party raiser' hOwns

theorem Private.run (run : (system isPerCpu).Execution trace s) (mailbox : Nat)
    (hOpen : (s.mailboxes mailbox).mailbox.isShutDown = false) : Private trace s mailbox := by
  induction run with
  | start h =>
      refine ⟨fun _ _ => rfl, fun party raiser hOwns => ?_⟩
      rw [h.2.2.1 party] at hOwns
      cases hOwns
  | @step trace s s' label prior last ih =>
      have hBefore := isShutDown_of_step last hOpen
      have h := ih hBefore
      have hOwned := Owned.run prior
      cases last with
      | createCaller hRaiser hExec =>
          exact h.created (Paired.run prior _) (creates_caller hExec) hRaiser
      | createCallee hRaiser hExec =>
          exact h.created (Paired.run prior _) (creates_callee hExec) hRaiser
      | rpc hKind hLock hOrder hExec =>
          refine ⟨fun raiser hUnused => ?_, fun party raiser hOwns => ?_⟩
          · rw [afterRpc_mailboxes.1] at hUnused
            simpa [countP_concat, Label.sends] using h.unused raiser hUnused
          · rw [afterRpc_mailboxes.2] at hOwns
            simpa [countP_concat, Label.sends, Label.notifies] using h.owner party raiser hOwns
      | @notify owner id mailbox' raiser' core box hNotifying hRaiser hSend =>
          refine ⟨fun raiser hUnused => ?_, fun party raiser hOwns => ?_⟩
          · have hUnused' := Nat.le_trans (raisersCount_setMailbox (raisersCount_step hSend).1) hUnused
            have hBound := hOwned.bound owner mailbox' raiser' hRaiser
            have hNe : ¬(mailbox' = mailbox ∧ raiser' = raiser) := by
              rintro ⟨rfl, rfl⟩
              exact absurd hBound (Nat.not_lt.mpr hUnused')
            simpa [countP_concat, Label.sends, hNe] using h.unused raiser hUnused'
          · have hIff : (mailbox' = mailbox ∧ raiser' = raiser) ↔ owner = party := by
              constructor
              · rintro ⟨rfl, rfl⟩
                exact hOwned.unique owner party mailbox' raiser' hRaiser hOwns
              · rintro rfl
                simpa using hRaiser.symm.trans hOwns
            rw [countP_concat, countP_concat, h.owner party raiser hOwns]
            simp only [Label.sends, Label.notifies, hIff]
      | @mailbox mailbox' event box hPermits hStep =>
          have hDelivery := Notifications.delivery_run (mailbox_run prior mailbox) hBefore
          refine ⟨fun raiser hUnused => ?_, fun party raiser hOwns => ?_⟩
          · have hUnused' := Nat.le_trans (raisersCount_setMailbox (raisersCount_step hStep).1) hUnused
            have hNot : Label.sends mailbox raiser (.mailbox mailbox' event) = false := by
              cases hStep with
              | send raiser' id hRef =>
                  simp only [Label.sends, decide_eq_false_iff_not]
                  rintro ⟨rfl, rfl⟩
                  rw [(hDelivery.unused raiser' hUnused').1] at hRef
                  exact absurd hRef (Nat.lt_irrefl 0)
              | _ => rfl
            rw [countP_concat, hNot]
            exact h.unused raiser hUnused'
          · have hNot : Label.sends mailbox raiser (.mailbox mailbox' event) = false := by
              cases event with
              | send raiser' id =>
                  simp only [Label.sends, decide_eq_false_iff_not]
                  rintro ⟨rfl, rfl⟩
                  exact hPermits party hOwns
              | _ => rfl
            rw [countP_concat, countP_concat, hNot]
            simpa [Label.notifies] using h.owner party raiser hOwns

end Raisers

section Received

variable {events : List Notifications.Event} {m : Notifications.State} {isPerCpu : Bool}

/-- The slot that a notification of the raiser is sent to. -/
def sentTo (isPerCpu : Bool) (raiser : Nat) : Notifications.Event → Option Nat
  | .send raiser' id => if raiser' = raiser then some (Notifications.slot isPerCpu id) else none
  | _ => none

/-- The slot that a notification of the raiser is received from. -/
def recievedFrom (isPerCpu : Bool) (raiser : Nat) : Notifications.Event → Option Nat
  | .recieve _ id raiser' _ =>
      if raiser' = raiser then some (Notifications.slot isPerCpu id) else none
  | _ => none

/-- No more notifications of a raiser are received than were sent. -/
theorem recieved_le_sent (h : Notifications.Delivery isPerCpu events m) (raiser : Nat) :
    events.countP (fun event => (recievedFrom isPerCpu raiser event).isSome) ≤
      events.countP (fun event => (sentTo isPerCpu raiser event).isSome) := by
  rw [← List.length_filterMap_eq_countP, ← List.length_filterMap_eq_countP]
  apply List.Subperm.length_le
  rw [List.subperm_ext_iff]
  intro i _
  have hBalance := h.balance ⟨raiser, i⟩
  have hSent : ∀ event, (sentTo isPerCpu raiser event == some i) =
      event.isSendTo isPerCpu ⟨raiser, i⟩ := by
    intro event
    cases event with
    | send raiser' id =>
        by_cases hEq : raiser' = raiser
        · simp [sentTo, Notifications.Event.isSendTo, hEq, Bool.beq_eq_decide_eq]
        · simp [sentTo, Notifications.Event.isSendTo, hEq]
    | _ => rfl
  have hRecieved : ∀ event, (recievedFrom isPerCpu raiser event == some i) =
      event.isRecieveOf isPerCpu ⟨raiser, i⟩ := by
    intro event
    cases event with
    | recieve task id raiser' notification =>
        by_cases hEq : raiser' = raiser
        · simp [recievedFrom, Notifications.Event.isRecieveOf, hEq, Bool.beq_eq_decide_eq]
        · simp [recievedFrom, Notifications.Event.isRecieveOf, hEq]
    | _ => rfl
  rw [List.count_filterMap, List.count_filterMap, funext hSent, funext hRecieved]
  exact hBalance

theorem countP_events {trace : List Label} {mailbox : Nat} {p : Notifications.Event → Bool}
    {q : Label → Bool} (h : ∀ label : Label, (label.events mailbox).countP p = (q label).toNat) :
    (trace.flatMap (Label.events mailbox)).countP p = trace.countP q := by
  induction trace with
  | nil => rfl
  | cons label trace ih =>
      rw [List.flatMap_cons, List.countP_append, ih, h, List.countP_cons]
      cases q label <;> simp [Nat.add_comm]

end Received

section Agreement

variable {isPerCpu : Nat → Bool} {trace : List Label} {s : State} {party : Party}
  {mailbox raiser : Nat}

theorem recieves_le_sends (run : (system isPerCpu).Execution trace s)
    (hOpen : (s.mailboxes mailbox).mailbox.isShutDown = false) :
    trace.countP (Label.recieves mailbox raiser) ≤ trace.countP (Label.sends mailbox raiser) := by
  have hLe := recieved_le_sent (Notifications.delivery_run (mailbox_run run mailbox) hOpen) raiser
  have hRecieves : ∀ label : Label, (label.events mailbox).countP
      (fun event => (recievedFrom (isPerCpu mailbox) raiser event).isSome) =
        (label.recieves mailbox raiser).toNat := by
    intro label
    cases label with
    | created op party mailbox' raiser' template =>
        simp only [Label.events]
        split <;> rfl
    | rpc op outcome => rfl
    | notified party mailbox' raiser' core =>
        simp only [Label.events]
        split <;> rfl
    | mailbox mailbox' event =>
        by_cases hSame : mailbox' = mailbox
        · cases event with
          | recieve task id raiser' notification =>
              by_cases hEq : raiser' = raiser
              · simp [Label.events, Label.recieves, recievedFrom, hSame, hEq]
              · simp [Label.events, Label.recieves, recievedFrom, hSame, hEq]
          | _ => simp [Label.events, Label.recieves, recievedFrom, hSame]
        · cases event <;> simp [Label.events, Label.recieves, hSame]
  have hSends : ∀ label : Label, (label.events mailbox).countP
      (fun event => (sentTo (isPerCpu mailbox) raiser event).isSome) =
        (label.sends mailbox raiser).toNat := by
    intro label
    cases label with
    | created op party mailbox' raiser' template =>
        simp only [Label.events]
        split <;> rfl
    | rpc op outcome => rfl
    | notified party mailbox' raiser' core =>
        by_cases hSame : mailbox' = mailbox <;> by_cases hEq : raiser' = raiser <;>
          simp [Label.events, Label.sends, sentTo, hSame, hEq]
    | mailbox mailbox' event =>
        by_cases hSame : mailbox' = mailbox
        · cases event with
          | send raiser' id =>
              by_cases hEq : raiser' = raiser
              · simp [Label.events, Label.sends, sentTo, hSame, hEq]
              · simp [Label.events, Label.sends, sentTo, hSame, hEq]
          | _ => simp [Label.events, Label.sends, sentTo, hSame]
        · cases event <;> simp [Label.events, Label.sends, hSame]
  rw [countP_events hRecieves, countP_events hSends] at hLe
  exact hLe

/-- The calls that ask for the next container of the party come after notifications: before
each of them, more notifications of the raiser were received than such calls were made. -/
def Paced (party : Party) (mailbox raiser : Nat) (trace : List Label) : Prop :=
  ∀ before label after, trace = before ++ label :: after → label.asks party = true →
    before.countP (Label.asks party) < before.countP (Label.recieves mailbox raiser)

theorem Paced.concat {label : Label} (h : Paced party mailbox raiser (trace ++ [label])) :
    Paced party mailbox raiser trace ∧ (label.asks party = true →
      trace.countP (Label.asks party) < trace.countP (Label.recieves mailbox raiser)) := by
  refine ⟨fun before label' after hTrace hAsks => ?_, h trace label [] rfl⟩
  apply h before label' (after ++ [label]) _ hAsks
  rw [hTrace, List.append_assoc, List.cons_append]

theorem takes_le_asks : trace.countP (Label.takes party) ≤ trace.countP (Label.asks party) := by
  apply List.countP_mono_left
  intro label _ hTakes
  cases label with
  | rpc op outcome =>
      simp only [Label.takes, takes, Bool.and_eq_true] at hTakes
      exact hTakes.1
  | _ => cases hTakes

/-- A party keeps its raiser. -/
theorem raiser_of_step {label : Label} {s' : State} (hStep : Step s label s') (party : Party) :
    s'.raiser party = s.raiser party ∨ Fresh s.rpc party := by
  cases hStep with
  | @createCaller mailbox raiser c value rpc box hRaiser hExec =>
      by_cases hParty : party = .caller c
      · exact .inr (hParty ▸ (creates_caller hExec).fresh)
      · exact .inl (by simp [hParty])
  | @createCallee mailbox raiser k buckets value rpc box hRaiser hExec =>
      by_cases hParty : party = .callee k
      · exact .inr (hParty ▸ (creates_callee hExec).fresh)
      · exact .inl (by simp [hParty])
  | rpc hKind hLock hOrder hExec => exact .inl (by rw [afterRpc_mailboxes.2])
  | notify core hNotifying hRaiser hSend => exact .inl rfl
  | mailbox hPermits hStep => exact .inl rfl

theorem asks_of_isEmpty {label : Label} (h : label.isEmpty party) : label.asks party = true := by
  cases label with
  | rpc op outcome => exact h.1
  | _ => cases h

/-- Who asks only after a notification finds something, if nothing but the next call is left. -/
theorem step_not_isEmpty {label : Label} {s' : State} (run : (system isPerCpu).Execution trace s)
    (hStep : Step s label s') (hRaiser : s.raiser party = some (mailbox, raiser))
    (hOpen : (s.mailboxes mailbox).mailbox.isShutDown = false)
    (hPaced : label.asks party = true →
      trace.countP (Label.asks party) < trace.countP (Label.recieves mailbox raiser)) :
    ¬label.isEmpty party := by
  intro hEmpty
  have hLess := hPaced (asks_of_isEmpty hEmpty)
  cases hStep with
  | rpc hKind hLock hOrder hExec =>
      obtain ⟨hAsks, rfl⟩ := hEmpty
      obtain ⟨q, hQueue, hNil⟩ := asks_spec hAsks hExec
      rw [hNil rfl] at hQueue
      obtain ⟨-, hBalance, hSent⟩ := (Paired.run run party).queued [] hQueue
      have hOwner := (Private.run run mailbox hOpen).owner party raiser hRaiser
      have hRecieved : trace.countP (Label.recieves mailbox raiser) ≤
          trace.countP (Label.sends mailbox raiser) := recieves_le_sends run hOpen
      have hTaken : trace.countP (Label.takes party) ≤ trace.countP (Label.asks party) := takes_le_asks
      rw [List.length_nil] at hBalance
      omega
  | _ => cases hEmpty

/-- Who asks for a container only after a notification about it finds one. -/
theorem not_isEmpty (run : (system isPerCpu).Execution trace s)
    (hRaiser : s.raiser party = some (mailbox, raiser))
    (hOpen : (s.mailboxes mailbox).mailbox.isShutDown = false)
    (hPaced : Paced party mailbox raiser trace) : ∀ label ∈ trace, ¬label.isEmpty party := by
  induction run with
  | start h => simp
  | @step trace s s' label prior last ih =>
      obtain ⟨hPacedBefore, hPacedLast⟩ := hPaced.concat
      have hOpenBefore := isShutDown_of_step last hOpen
      rcases raiser_of_step last party with hSame | hFresh
      · rw [hSame] at hRaiser
        intro label' hMem
        rcases List.mem_append.mp hMem with hMem | hMem
        · exact ih hRaiser hOpenBefore hPacedBefore label' hMem
        · rw [List.mem_singleton.mp hMem]
          exact step_not_isEmpty prior last hRaiser hOpenBefore hPacedLast
      · have hNone := hFresh.queue_eq_none (Rpc.Conserved.run (rpc_run prior)).allocated
        have hUnasked := ((Paired.run prior party).unused hFresh).2.2.2.2.2
        rw [List.countP_eq_zero] at hUnasked
        intro label' hMem hEmpty
        rcases List.mem_append.mp hMem with hMem | hMem
        · exact hUnasked label' hMem (asks_of_isEmpty hEmpty)
        · rw [List.mem_singleton.mp hMem] at hEmpty
          cases last with
          | rpc hKind hLock hOrder hExec =>
              obtain ⟨q, hQueue, -⟩ := asks_spec hEmpty.1 hExec
              cases hNone.symm.trans hQueue
          | _ => cases hEmpty

/-- What is received from the raiser of a party is about the party. -/
theorem type_of_recieved (run : (system isPerCpu).Execution trace s)
    (hRaiser : s.raiser party = some (mailbox, raiser))
    (hOpen : (s.mailboxes mailbox).mailbox.isShutDown = false) {task core : Nat}
    {notification : Notifications.UserNotification}
    (hMem : Label.mailbox mailbox (.recieve task core raiser notification) ∈ trace) :
    notification.type = party.noteType := by
  have hDelivery := Notifications.delivery_run (mailbox_run run mailbox) hOpen
  have hEvent : Notifications.Event.recieve task core raiser notification ∈
      trace.flatMap (Label.events mailbox) := by
    rw [List.mem_flatMap]
    exact ⟨_, hMem, by simp [Label.events]⟩
  rw [(hDelivery.notes task core raiser notification hEvent).2]
  exact (Owned.run run).type party mailbox raiser hRaiser

/-- For every party that is not shut down, with its raiser and a mailbox that is not shut down,
in every state that any interleaving reaches: at most as many notifications were sent through
the raiser as containers were put into the queue, and equally many unless a section holds the
lock that has still to send its notification. What is received from the raiser has the type of
the party. If everybody asks for the next container only after a notification of the raiser, and
once for each, then no call has found the queue empty. -/
theorem rpc_notifications_agree (run : (system isPerCpu).Execution trace s) {q : List Nat}
    (hParty : queue s.rpc party = some (q, false)) :
    ∃ mailbox raiser, s.raiser party = some (mailbox, raiser) ∧
      ((s.mailboxes mailbox).mailbox.isShutDown = false →
        trace.countP (Label.sends mailbox raiser) ≤ trace.countP (Label.enqueues party) ∧
        (s.notifying party = none →
          trace.countP (Label.sends mailbox raiser) = trace.countP (Label.enqueues party)) ∧
        (∀ task core notification,
          Label.mailbox mailbox (.recieve task core raiser notification) ∈ trace →
            notification.type = party.noteType) ∧
        (Paced party mailbox raiser trace → ∀ label ∈ trace, ¬label.isEmpty party)) := by
  obtain ⟨hOwns, -, hSent⟩ := (Paired.run run party).queued q hParty
  obtain ⟨⟨mailbox, raiser⟩, hRaiser⟩ := Option.ne_none_iff_exists'.mp hOwns
  refine ⟨mailbox, raiser, hRaiser, fun hOpen => ?_⟩
  have hOwner := (Private.run run mailbox hOpen).owner party raiser hRaiser
  refine ⟨by omega, fun hFree => ?_, fun _ _ _ hMem => type_of_recieved run hRaiser hOpen hMem,
    not_isEmpty run hRaiser hOpen⟩
  rw [hFree] at hSent
  simpa [hOwner] using hSent

/-- A request is put into the queue of a callee, the callee is notified, its server receives the
notification and accepts the request. -/
theorem rpc_notifications_agree_one_request :
    ∃ trace s, (system fun _ => false).Execution trace s ∧
      queue s.rpc (.callee 0) = some ([], false) ∧
      trace.countP (Label.takes (.callee 0)) = 1 ∧ trace.countP (Label.recieves 0 0) = 1 ∧
      trace.countP (Label.sends 0 0) = trace.countP (Label.enqueues (.callee 0)) := by
  let msg : Rpc.UserRpcMsg := ⟨5, 0, 0, fun _ => 0⟩
  let box : Notifications.State :=
    ⟨Notifications.userCreateMailbox false, fun _ => ⟨0, ⟨0, 0⟩, fun _ => 0⟩, 0, fun _ => 0, [], [],
      false⟩
  have start : (system fun _ => false).Execution []
      ⟨Rpc.initial, fun _ => box, fun _ => none, fun _ => none⟩ :=
    .start ⟨rfl, fun _ => ⟨rfl, rfl, fun _ => rfl, fun _ => rfl, rfl, rfl, rfl⟩, fun _ => rfl,
      fun _ => rfl⟩
  have callee := start.step (@Step.createCallee _ 0 _ _ 1 3 _ _
    (Notifications.Step.createRaiser _ (by decide)) rfl)
  have caller := callee.step (@Step.createCaller _ 0 _ _ 4 _ _
    (Notifications.Step.createRaiser _ (by decide)) rfl)
  have prepared := caller.step (@Step.rpc _ (.initiate 0 0 msg (some (0, ⟨msg, 0, 0, 0, 0, 0⟩)))
    (.prepared 0) _ (by simp) (fun _ _ => rfl) (fun _ _ hRun => by cases hRun) rfl)
  have enqueued := prepared.step (@Step.rpc _ (.run 0) (.enqueued 0 0) _ (by simp) (fun _ _ => rfl)
    (fun _ _ _ hBusy => by cases hBusy) rfl)
  have notified := enqueued.step (@Step.notify _ (.callee 0) _ _ _ 0 _ rfl rfl
    (Notifications.Step.send 0 0 (by decide)))
  have recieved := notified.step (@Step.mailbox _ 0 (.recieve 7 0 0 ⟨0, 3⟩) _ trivial
    (@Notifications.Step.recieveQueued _ 7 0 ⟨0, 0⟩ _ (by decide) (by decide) rfl _ _ rfl))
  have accepted := recieved.step (@Step.rpc _ (.accept 0 msg) _ _ (by simp)
    (fun _ hLock => by cases hLock; rfl) (fun _ _ hRun => by cases hRun) rfl)
  obtain ⟨mailbox, raiser, hRaiser, hAgree⟩ := @rpc_notifications_agree _ _ _ (.callee 0) accepted _ rfl
  refine ⟨_, _, accepted, rfl, rfl, rfl, ?_⟩
  cases hRaiser
  exact (hAgree (by decide)).2.1 rfl

end Agreement

end Ricerca.RpcNotifications
