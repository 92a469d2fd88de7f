import Ricerca.User.Rpc

/-! What one step can do, said once. Most steps hand one container from one place to
another one. -/
namespace Ricerca.Rpc

open Ricerca.Foundation Ricerca.Cookie Ricerca.Lib

/-- Where `user_rpc_initiate` gets a container from: the caller's pool, or the heap. -/
inductive Obtained (s : State) (c : Nat) (caller : UserRpcCaller) :
    Nat → UserRpcContainer → UserRpcCaller → Prop where
  | reused {x : Nat} {rest : List Nat} {container : UserRpcContainer}
      (hFree : caller.freeContainers = x :: rest) (hContainer : s.containers x = some container) :
      Obtained s c caller x container { caller with freeContainers := rest }
  | allocated {x : Nat} (junk : UserRpcContainer) (hFree : caller.freeContainers = [])
      (hNew : s.containers x = none) : Obtained s c caller x { junk with owner := c } caller

/-- The effect of a step on a state. -/
inductive Transition (s : State) : Op → Outcome → State → Prop where
  | failed {op : Op} (status : Status) : Transition s op (.failed status) s
  | createCaller :
      Transition s .createCaller (.created s.callersCount)
        { s.setCaller s.callersCount (some ⟨1, [], [], false⟩) with
          callersCount := s.callersCount + 1 }
  | createCallee {buckets count : Nat} (hCount : 0 < count) :
      Transition s (.createCallee buckets) (.created s.calleesCount)
        { s.setCallee s.calleesCount ⟨[], intmapInit count, 0, false⟩ with
          calleesCount := s.calleesCount + 1 }
  | rejected {c k x : Nat} {msg : UserRpcMsg} {heap : Option (Nat × UserRpcContainer)}
      {caller caller' : UserRpcCaller} {container : UserRpcContainer} (status : Status)
      (hCaller : s.callers c = some caller) (hLive : caller.isShutDown = false)
      (hObtained : Obtained s c caller x container caller') :
      Transition s (.initiate c k msg heap) (.failed status)
        ((s.setContainer x (some container)).setCaller c
          (some { caller' with freeContainers := caller'.freeContainers ++ [x] }))
  | prepared {c k x : Nat} {msg message : UserRpcMsg} {heap : Option (Nat × UserRpcContainer)}
      {caller caller' : UserRpcCaller} {callee : UserRpcCallee} {container : UserRpcContainer}
      (hCaller : s.callers c = some caller) (hLive : caller.isShutDown = false)
      (hCallee : s.callees k = some callee) (hObtained : Obtained s c caller x container caller')
      (hCopy : userRpcCopyContentsFromUser container.message msg = .ok message) :
      Transition s (.initiate c k msg heap) (.prepared s.opsCount)
        (((s.setContainer x (some { container with
            message := { message with status := msg.status }
            clientOpaque := msg.opaqueValue
            caller := c
            rpc := s.opsCount })).setCaller c
          (some { caller' with deallocRefcount := caller'.deallocRefcount + 1 })).start
          (.initiating c k x))
  | refused {id c k x : Nat} {callee : UserRpcCallee} (hRun : s.running id = some (.initiating c k x))
      (hCallee : s.callees k = some callee) (hShut : callee.isShutDown = true) :
      Transition s (.run id) .proceeded (s.setRunning id (some (.unreachable c x)))
  | enqueued {id c k x : Nat} {callee : UserRpcCallee} {container : UserRpcContainer}
      (hRun : s.running id = some (.initiating c k x)) (hCallee : s.callees k = some callee)
      (hContainer : s.containers x = some container) (hLive : callee.isShutDown = false) :
      Transition s (.run id) (.enqueued container.rpc k)
        ((s.setCallee k { callee with incomingRpcs := callee.incomingRpcs ++ [x] }).setRunning id none)
  | undelivered {id c x : Nat} {caller : UserRpcCaller} {container : UserRpcContainer}
      (hRun : s.running id = some (.unreachable c x)) (hCaller : s.callers c = some caller)
      (hContainer : s.containers x = some container) :
      Transition s (.run id) (.undelivered container.rpc)
        ((s.setCaller c (some { caller with
          freeContainers := caller.freeContainers ++ [x] })).setRunning id none)
  | accepted {k x : Nat} {msg : UserRpcMsg} {callee : UserRpcCallee} {container : UserRpcContainer}
      {rest : List Nat} (hCallee : s.callees k = some callee) (hLive : callee.isShutDown = false)
      (hQueue : callee.incomingRpcs = x :: rest) (hContainer : s.containers x = some container) :
      Transition s (.accept k msg)
        (.accepted container.rpc
          { userRpcCopyContentsFromKernel msg container.message with
            opaqueValue := callee.seq
            status := container.message.status })
        ((s.setContainer x (some { container with key := callee.seq })).setCallee k
          { callee with
            incomingRpcs := rest
            awaitingReply := intmapInsert callee.awaitingReply
              (s.setContainer x (some { container with key := callee.seq })).key x
            seq := callee.seq + 1 })
  | returned {k x : Nat} {msg message : UserRpcMsg} {callee : UserRpcCallee}
      {container : UserRpcContainer} (hCallee : s.callees k = some callee)
      (hLive : callee.isShutDown = false)
      (hSearch : intmapSearch callee.awaitingReply s.key msg.opaqueValue = some x)
      (hContainer : s.containers x = some container)
      (hCopy : userRpcCopyContentsFromUser container.message msg = .ok message) :
      Transition s (.returnRpc k msg) (.returned container.rpc)
        (((s.setContainer x (some { container with
            message := { message with status := msg.status } })).setCallee k
          { callee with awaitingReply := intmapRemove callee.awaitingReply s.key x }).start
          (.replying x (.returned k)))
  | replied {id x : Nat} {after : After} {caller : UserRpcCaller} {container : UserRpcContainer}
      (hRun : s.running id = some (.replying x after)) (hContainer : s.containers x = some container)
      (hCaller : s.callers container.caller = some caller) :
      Transition s (.run id) (.replied container.rpc container.caller)
        ((s.setCaller container.caller
          (some { caller with incomingReplies := caller.incomingReplies ++ [x] })).setRunning id
          (some (.droppingCaller container.caller after)))
  | dropped {id c : Nat} {after : After} {caller : UserRpcCaller}
      (hRun : s.running id = some (.droppingCaller c after)) (hCaller : s.callers c = some caller)
      (hMore : 1 < caller.deallocRefcount) :
      Transition s (.run id) .proceeded
        ((s.setCaller c (some { caller with
          deallocRefcount := caller.deallocRefcount - 1 })).setRunning id after.next)
  | droppedLast {id c : Nat} {after : After} {caller : UserRpcCaller}
      (hRun : s.running id = some (.droppingCaller c after)) (hCaller : s.callers c = some caller)
      (hLast : caller.deallocRefcount = 1) :
      Transition s (.run id) .proceeded
        ((s.setCaller c (some { caller with deallocRefcount := 0 })).setRunning id
          (some (.freeingReplies c after)))
  | replyFreed {id c x : Nat} {after : After} {caller : UserRpcCaller} {rest : List Nat}
      (hRun : s.running id = some (.freeingReplies c after)) (hCaller : s.callers c = some caller)
      (hQueue : caller.incomingReplies = x :: rest) :
      Transition s (.run id) .proceeded
        ((s.setCaller c (some { caller with incomingReplies := rest })).setContainer x none)
  | callerFreed {id c : Nat} {after : After} {caller : UserRpcCaller}
      (hRun : s.running id = some (.freeingReplies c after)) (hCaller : s.callers c = some caller)
      (hQueue : caller.incomingReplies = []) :
      Transition s (.run id) .proceeded ((s.setCaller c none).setRunning id after.next)
  | result {c x : Nat} {msg : UserRpcMsg} {caller : UserRpcCaller} {container : UserRpcContainer}
      {rest : List Nat} (hCaller : s.callers c = some caller) (hLive : caller.isShutDown = false)
      (hQueue : caller.incomingReplies = x :: rest) (hContainer : s.containers x = some container) :
      Transition s (.getResult c msg)
        (.result container.rpc
          { userRpcCopyContentsFromKernel msg container.message with
            opaqueValue := container.clientOpaque
            status := container.message.status })
        (s.setCaller c (some { caller with
          incomingReplies := rest
          freeContainers := caller.freeContainers ++ [x] }))
  | calleeShutDown {k : Nat} {callee : UserRpcCallee} (hCallee : s.callees k = some callee)
      (hLive : callee.isShutDown = false) (hUnused : ¬s.usesCallee k) :
      Transition s (.shutdownCallee k) (.started s.opsCount)
        ((s.setCallee k { callee with isShutDown := true }).start (.drainingIncoming k))
  | incomingAborted {id k x : Nat} {callee : UserRpcCallee} {container : UserRpcContainer}
      {rest : List Nat} (hRun : s.running id = some (.drainingIncoming k))
      (hCallee : s.callees k = some callee) (hQueue : callee.incomingRpcs = x :: rest)
      (hContainer : s.containers x = some container) :
      Transition s (.run id) (.aborted container.rpc)
        (((s.setContainer x (some { container with
            message := { container.message with
              status := userRpcStatusNoreply
              len := 0 } })).setCallee k
          { callee with incomingRpcs := rest }).setRunning id (some (.replying x (.incoming k))))
  | incomingDrained {id k : Nat} {callee : UserRpcCallee}
      (hRun : s.running id = some (.drainingIncoming k)) (hCallee : s.callees k = some callee)
      (hQueue : callee.incomingRpcs = []) :
      Transition s (.run id) .proceeded (s.setRunning id (some (.drainingAwaiting k 0)))
  | awaitingAborted {id k i x : Nat} {callee : UserRpcCallee} {container : UserRpcContainer}
      {rest : List Nat} (hRun : s.running id = some (.drainingAwaiting k i))
      (hCallee : s.callees k = some callee) (hBucket : i < callee.awaitingReply.bucketsCount)
      (hQueue : callee.awaitingReply.nodes i = x :: rest)
      (hContainer : s.containers x = some container) :
      Transition s (.run id) (.aborted container.rpc)
        (((s.setContainer x (some { container with
            message := { container.message with
              status := userRpcStatusNoreply
              len := 0 } })).setCallee k
          { callee with awaitingReply := callee.awaitingReply.removeHead i }).setRunning id
          (some (.replying x (.awaiting k i))))
  | bucketDrained {id k i : Nat} {callee : UserRpcCallee}
      (hRun : s.running id = some (.drainingAwaiting k i)) (hCallee : s.callees k = some callee)
      (hBucket : i < callee.awaitingReply.bucketsCount) (hQueue : callee.awaitingReply.nodes i = []) :
      Transition s (.run id) .proceeded (s.setRunning id (some (.drainingAwaiting k (i + 1))))
  | calleeDrained {id k i : Nat} {callee : UserRpcCallee}
      (hRun : s.running id = some (.drainingAwaiting k i)) (hCallee : s.callees k = some callee)
      (hBucket : callee.awaitingReply.bucketsCount ≤ i) :
      Transition s (.run id) .proceeded (s.setRunning id none)
  | callerShutDown {c : Nat} {caller : UserRpcCaller} (hCaller : s.callers c = some caller)
      (hLive : caller.isShutDown = false) (hUnused : ¬s.usesCaller c) :
      Transition s (.shutdownCaller c) (.started s.opsCount)
        ((s.setCaller c (some { caller with isShutDown := true })).start (.freeingContainers c))
  | containerFreed {id c x : Nat} {caller : UserRpcCaller} {rest : List Nat}
      (hRun : s.running id = some (.freeingContainers c)) (hCaller : s.callers c = some caller)
      (hQueue : caller.freeContainers = x :: rest) :
      Transition s (.run id) .proceeded
        ((s.setCaller c (some { caller with freeContainers := rest })).setContainer x none)
  | containersFreed {id c : Nat} {caller : UserRpcCaller}
      (hRun : s.running id = some (.freeingContainers c)) (hCaller : s.callers c = some caller)
      (hQueue : caller.freeContainers = []) :
      Transition s (.run id) .proceeded (s.setRunning id (some (.droppingCaller c .callerShutDown)))

section Calls

variable {s s' : State} {outcome : Outcome}

theorem fillContainer_transition {c k x : Nat} {msg : UserRpcMsg}
    {heap : Option (Nat × UserRpcContainer)} {caller caller' : UserRpcCaller} {callee : UserRpcCallee}
    {container : UserRpcContainer} (hCaller : s.callers c = some caller)
    (hLive : caller.isShutDown = false) (hCallee : s.callees k = some callee)
    (hObtained : Obtained s c caller x container caller')
    (h : fillContainer s c k caller' x container msg = (outcome, s')) :
    Transition s (.initiate c k msg heap) outcome s' := by
  simp only [fillContainer] at h
  split at h
  · obtain ⟨rfl, rfl⟩ := Prod.mk.inj h
    exact .rejected _ hCaller hLive hObtained
  · rename_i message hCopy
    obtain ⟨rfl, rfl⟩ := Prod.mk.inj h
    exact .prepared hCaller hLive hCallee hObtained hCopy

theorem userRpcInitiate_transition {c k : Nat} {msg : UserRpcMsg}
    {heap : Option (Nat × UserRpcContainer)} {caller : UserRpcCaller} {callee : UserRpcCallee}
    (hCaller : s.callers c = some caller) (hLive : caller.isShutDown = false)
    (hCallee : s.callees k = some callee)
    (h : userRpcInitiate s c k caller msg heap = some (outcome, s')) :
    Transition s (.initiate c k msg heap) outcome s' := by
  simp only [userRpcInitiate] at h
  split at h
  · rename_i x rest hFree
    obtain ⟨container, hContainer, hFill⟩ := Option.map_eq_some_iff.mp h
    exact fillContainer_transition hCaller hLive hCallee (.reused hFree hContainer) hFill
  · rename_i hFree
    split at h
    · obtain ⟨rfl, rfl⟩ := Prod.mk.inj (Option.some.inj h)
      exact .failed _
    · rename_i x junk
      split_ifs at h with hUsed
      have hNew : s.containers x = none := by simpa using hUsed
      exact fillContainer_transition hCaller hLive hCallee (.allocated junk hFree hNew)
        (Option.some.inj h)

theorem userRpcAccept_transition {k : Nat} {msg : UserRpcMsg} {callee : UserRpcCallee}
    (hCallee : s.callees k = some callee) (hLive : callee.isShutDown = false)
    (h : userRpcAccept s k callee msg = some (outcome, s')) :
    Transition s (.accept k msg) outcome s' := by
  simp only [userRpcAccept] at h
  split at h
  · obtain ⟨rfl, rfl⟩ := Prod.mk.inj (Option.some.inj h)
    exact .failed _
  · rename_i x rest hQueue
    obtain ⟨container, hContainer, hEq⟩ := Option.map_eq_some_iff.mp h
    obtain ⟨rfl, rfl⟩ := Prod.mk.inj hEq
    exact .accepted hCallee hLive hQueue hContainer

theorem userRpcReturn_transition {k : Nat} {msg : UserRpcMsg} {callee : UserRpcCallee}
    (hCallee : s.callees k = some callee) (hLive : callee.isShutDown = false)
    (h : userRpcReturn s k callee msg = some (outcome, s')) :
    Transition s (.returnRpc k msg) outcome s' := by
  simp only [userRpcReturn] at h
  split at h
  · obtain ⟨rfl, rfl⟩ := Prod.mk.inj (Option.some.inj h)
    exact .failed _
  · rename_i x hSearch
    obtain ⟨container, hContainer, hEq⟩ := Option.map_eq_some_iff.mp h
    split at hEq
    · obtain ⟨rfl, rfl⟩ := Prod.mk.inj hEq
      exact .failed _
    · rename_i message hCopy
      obtain ⟨rfl, rfl⟩ := Prod.mk.inj hEq
      exact .returned hCallee hLive hSearch hContainer hCopy

theorem userRpcGetResult_transition {c : Nat} {msg : UserRpcMsg} {caller : UserRpcCaller}
    (hCaller : s.callers c = some caller) (hLive : caller.isShutDown = false)
    (h : userRpcGetResult s c caller msg = some (outcome, s')) :
    Transition s (.getResult c msg) outcome s' := by
  simp only [userRpcGetResult] at h
  split at h
  · obtain ⟨rfl, rfl⟩ := Prod.mk.inj (Option.some.inj h)
    exact .failed _
  · rename_i x rest hQueue
    obtain ⟨container, hContainer, hEq⟩ := Option.map_eq_some_iff.mp h
    obtain ⟨rfl, rfl⟩ := Prod.mk.inj hEq
    exact .result hCaller hLive hQueue hContainer

theorem step_transition {id : Nat} {r : Running} (hRun : s.running id = some r)
    (h : step s id r = some (outcome, s')) : Transition s (.run id) outcome s' := by
  cases r with
  | initiating c k x =>
      simp only [step, Option.bind_eq_bind, Option.bind_eq_some_iff] at h
      obtain ⟨callee, hCallee, container, hContainer, hResult⟩ := h
      split_ifs at hResult with hShut
      · obtain ⟨rfl, rfl⟩ := Prod.mk.inj (Option.some.inj hResult)
        exact .refused hRun hCallee hShut
      · obtain ⟨rfl, rfl⟩ := Prod.mk.inj (Option.some.inj hResult)
        exact .enqueued hRun hCallee hContainer (by simpa using hShut)
  | unreachable c x =>
      simp only [step, Option.bind_eq_bind, Option.bind_eq_some_iff] at h
      obtain ⟨caller, hCaller, container, hContainer, hResult⟩ := h
      split_ifs at hResult with hShut
      obtain ⟨rfl, rfl⟩ := Prod.mk.inj (Option.some.inj hResult)
      exact .undelivered hRun hCaller hContainer
  | replying x after =>
      simp only [step, Option.bind_eq_bind, Option.bind_eq_some_iff] at h
      obtain ⟨container, hContainer, caller, hCaller, hResult⟩ := h
      obtain ⟨rfl, rfl⟩ := Prod.mk.inj (Option.some.inj hResult)
      exact .replied hRun hContainer hCaller
  | droppingCaller c after =>
      simp only [step, Option.bind_eq_bind, Option.bind_eq_some_iff] at h
      obtain ⟨caller, hCaller, hResult⟩ := h
      split_ifs at hResult with hZero hLast
      · obtain ⟨rfl, rfl⟩ := Prod.mk.inj (Option.some.inj hResult)
        have hStep := Transition.droppedLast hRun hCaller hLast
        rwa [hLast]
      · obtain ⟨rfl, rfl⟩ := Prod.mk.inj (Option.some.inj hResult)
        exact .dropped hRun hCaller (by omega)
  | freeingReplies c after =>
      simp only [step, Option.bind_eq_bind, Option.bind_eq_some_iff] at h
      obtain ⟨caller, hCaller, hResult⟩ := h
      split at hResult
      · rename_i x rest hQueue
        obtain ⟨rfl, rfl⟩ := Prod.mk.inj (Option.some.inj hResult)
        exact .replyFreed hRun hCaller hQueue
      · rename_i hQueue
        obtain ⟨rfl, rfl⟩ := Prod.mk.inj (Option.some.inj hResult)
        exact .callerFreed hRun hCaller hQueue
  | drainingIncoming k =>
      simp only [step, Option.bind_eq_bind, Option.bind_eq_some_iff] at h
      obtain ⟨callee, hCallee, hResult⟩ := h
      split at hResult
      · rename_i x rest hQueue
        obtain ⟨container, hContainer, hEq⟩ := Option.map_eq_some_iff.mp hResult
        obtain ⟨rfl, rfl⟩ := Prod.mk.inj hEq
        exact .incomingAborted hRun hCallee hQueue hContainer
      · rename_i hQueue
        obtain ⟨rfl, rfl⟩ := Prod.mk.inj (Option.some.inj hResult)
        exact .incomingDrained hRun hCallee hQueue
  | drainingAwaiting k i =>
      simp only [step, Option.bind_eq_bind, Option.bind_eq_some_iff] at h
      obtain ⟨callee, hCallee, hResult⟩ := h
      split_ifs at hResult with hBucket
      · split at hResult
        · rename_i x rest hQueue
          obtain ⟨container, hContainer, hEq⟩ := Option.map_eq_some_iff.mp hResult
          obtain ⟨rfl, rfl⟩ := Prod.mk.inj hEq
          exact .awaitingAborted hRun hCallee hBucket hQueue hContainer
        · rename_i hQueue
          obtain ⟨rfl, rfl⟩ := Prod.mk.inj (Option.some.inj hResult)
          exact .bucketDrained hRun hCallee hBucket hQueue
      · obtain ⟨rfl, rfl⟩ := Prod.mk.inj (Option.some.inj hResult)
        exact .calleeDrained hRun hCallee (Nat.not_lt.mp hBucket)
  | freeingContainers c =>
      simp only [step, Option.bind_eq_bind, Option.bind_eq_some_iff] at h
      obtain ⟨caller, hCaller, hResult⟩ := h
      split at hResult
      · rename_i x rest hQueue
        obtain ⟨rfl, rfl⟩ := Prod.mk.inj (Option.some.inj hResult)
        exact .containerFreed hRun hCaller hQueue
      · rename_i hQueue
        obtain ⟨rfl, rfl⟩ := Prod.mk.inj (Option.some.inj hResult)
        exact .containersFreed hRun hCaller hQueue

end Calls

/-- Every step is one of the transitions. -/
theorem exec_transition {s s' : State} {op : Op} {outcome : Outcome}
    (h : exec s op = some (outcome, s')) : Transition s op outcome s' := by
  cases op with
  | createCaller =>
      obtain ⟨rfl, rfl⟩ := Prod.mk.inj (Option.some.inj h)
      exact .createCaller
  | createCallee buckets =>
      obtain ⟨rfl, rfl⟩ := Prod.mk.inj (Option.some.inj h)
      refine .createCallee ?_
      split_ifs <;> omega
  | initiate c k msg heap =>
      simp only [exec, Option.bind_eq_bind, Option.bind_eq_some_iff] at h
      obtain ⟨caller, hCaller, callee, hCallee, hResult⟩ := h
      split_ifs at hResult with hShut
      exact userRpcInitiate_transition hCaller (by simpa using hShut) hCallee hResult
  | accept k msg =>
      simp only [exec, Option.bind_eq_bind, Option.bind_eq_some_iff] at h
      obtain ⟨callee, hCallee, hResult⟩ := h
      split_ifs at hResult with hShut
      exact userRpcAccept_transition hCallee (by simpa using hShut) hResult
  | returnRpc k msg =>
      simp only [exec, Option.bind_eq_bind, Option.bind_eq_some_iff] at h
      obtain ⟨callee, hCallee, hResult⟩ := h
      split_ifs at hResult with hShut
      exact userRpcReturn_transition hCallee (by simpa using hShut) hResult
  | getResult c msg =>
      simp only [exec, Option.bind_eq_bind, Option.bind_eq_some_iff] at h
      obtain ⟨caller, hCaller, hResult⟩ := h
      split_ifs at hResult with hShut
      exact userRpcGetResult_transition hCaller (by simpa using hShut) hResult
  | shutdownCallee k =>
      simp only [exec, Option.bind_eq_bind, Option.bind_eq_some_iff] at h
      obtain ⟨callee, hCallee, hResult⟩ := h
      split_ifs at hResult with hGuard
      simp only [not_or, Bool.not_eq_true] at hGuard
      obtain ⟨rfl, rfl⟩ := Prod.mk.inj (Option.some.inj hResult)
      exact .calleeShutDown hCallee hGuard.1 hGuard.2
  | shutdownCaller c =>
      simp only [exec, Option.bind_eq_bind, Option.bind_eq_some_iff] at h
      obtain ⟨caller, hCaller, hResult⟩ := h
      split_ifs at hResult with hGuard
      simp only [not_or, Bool.not_eq_true] at hGuard
      obtain ⟨rfl, rfl⟩ := Prod.mk.inj (Option.some.inj hResult)
      exact .callerShutDown hCaller hGuard.1 hGuard.2
  | run id =>
      simp only [exec, Option.bind_eq_bind, Option.bind_eq_some_iff] at h
      obtain ⟨r, hRun, hResult⟩ := h
      exact step_transition hRun hResult

end Ricerca.Rpc
