import Ricerca.User.RpcReferences

/-! Every step keeps every container in one place, with the owner that the place says,
and every reference to a caller counted. -/
namespace Ricerca.Rpc

open Ricerca.Foundation Ricerca.Cookie Ricerca.Lib

/-- The event in the life of a call that an outcome reports. -/
def Outcome.rpc : Outcome → Option Nat
  | .prepared r | .enqueued r _ | .undelivered r | .accepted r _ | .returned r | .aborted r
  | .replied r _ | .result r _ => some r
  | .failed _ | .created _ | .started _ | .proceeded => none

/-- The same length, status and payload. -/
structure Matches (m src : UserRpcMsg) : Prop where
  len : m.len = src.len
  status : m.status = src.status
  payload : ∀ i : Fin userRpcMaxPayloadSize, i.val < src.len.toNat → m.payload i = src.payload i

theorem Matches.trans {m₁ m₂ m₃ : UserRpcMsg} (h : Matches m₁ m₂) (h' : Matches m₂ m₃) :
    Matches m₁ m₃ := by
  refine ⟨h.len.trans h'.len, h.status.trans h'.status, fun i hi => ?_⟩
  exact (h.payload i (by rw [h'.len]; exact hi)).trans (h'.payload i hi)

/-- What `user_rpc_initiate` and `user_rpc_return` store is what they were given. -/
theorem matches_of_copy {dst src message : UserRpcMsg}
    (h : userRpcCopyContentsFromUser dst src = .ok message) :
    Matches { message with status := src.status } src := by
  simp only [userRpcCopyContentsFromUser] at h
  split_ifs at h
  obtain rfl := Except.ok.inj h
  exact ⟨rfl, rfl, fun i hi => if_pos hi⟩

/-- What `user_rpc_accept` and `user_rpc_get_result` hand out is what is stored. -/
theorem matches_stored (dst src : UserRpcMsg) (value : UInt64) :
    Matches { userRpcCopyContentsFromKernel dst src with opaqueValue := value, status := src.status }
      src :=
  ⟨rfl, rfl, fun _ hi => if_pos hi⟩

/-- What a step does to the containers. -/
inductive Effect (s : State) : Op → Outcome → State → Prop where
  | unmoved {op : Op} {outcome : Outcome} {s' : State} (hQuiet : outcome.rpc = none)
      (h : Unmoved s s') : Effect s op outcome s'
  | freed {id c x : Nat} {s' : State} (h : Removed s s' x)
      (hPlace : x ∈ held s (.free c) ∨ x ∈ held s (.replies c) ∧ role s id = some (.frees c)) :
      Effect s (.run id) .proceeded s'
  | rejected {c k x : Nat} {msg : UserRpcMsg} {heap : Option (Nat × UserRpcContainer)}
      {status : Status} {d : UserRpcContainer} {s' : State} (h : Placed s s' x (.free c) d)
      (hWas : x ∈ held s (.free c) ∨ s.containers x = none)
      (hOwner : s.containers x = some d ∨ d.owner = c) :
      Effect s (.initiate c k msg heap) (.failed status) s'
  | prepared {c k x : Nat} {msg : UserRpcMsg} {heap : Option (Nat × UserRpcContainer)}
      {d : UserRpcContainer} {s' : State} (h : Placed s s' x (.operation s.opsCount) d)
      (hWas : x ∈ held s (.free c) ∨ s.containers x = none)
      (hOwner : (∃ old, s.containers x = some old ∧ d.owner = old.owner) ∨ d.owner = c)
      (hRun : s'.running s.opsCount = some (.initiating c k x)) (hMessage : Matches d.message msg)
      (hOpaque : d.clientOpaque = msg.opaqueValue) (hCaller : d.caller = c)
      (hRpc : d.rpc = s.opsCount) : Effect s (.initiate c k msg heap) (.prepared s.opsCount) s'
  | refused {id c k x : Nat} {d : UserRpcContainer} {s' : State}
      (h : Placed s s' x (.operation id) d) (hRun : s.running id = some (.initiating c k x))
      (hData : s.containers x = some d) (hRun' : s'.running id = some (.unreachable c x)) :
      Effect s (.run id) .proceeded s'
  | enqueued {id c k x : Nat} {d : UserRpcContainer} {s' : State} (h : Placed s s' x (.incoming k) d)
      (hRun : s.running id = some (.initiating c k x)) (hData : s.containers x = some d) :
      Effect s (.run id) (.enqueued d.rpc k) s'
  | undelivered {id c x : Nat} {d : UserRpcContainer} {s' : State} (h : Placed s s' x (.free c) d)
      (hRun : s.running id = some (.unreachable c x)) (hData : s.containers x = some d) :
      Effect s (.run id) (.undelivered d.rpc) s'
  | accepted {k x : Nat} {msg : UserRpcMsg} {d : UserRpcContainer} {seq : UInt64} {s' : State}
      (h : Placed s s' x (.awaiting k) { d with key := seq }) (hWas : x ∈ held s (.incoming k))
      (hData : s.containers x = some d) :
      Effect s (.accept k msg)
        (.accepted d.rpc
          { userRpcCopyContentsFromKernel msg d.message with
            opaqueValue := seq
            status := d.message.status }) s'
  | returned {k x : Nat} {msg message : UserRpcMsg} {d : UserRpcContainer} {s' : State}
      (h : Placed s s' x (.operation s.opsCount) { d with message := message })
      (hWas : x ∈ held s (.awaiting k)) (hData : s.containers x = some d)
      (hKey : d.key = msg.opaqueValue) (hMessage : Matches message msg)
      (hRun : s'.running s.opsCount = some (.replying x (.returned k))) :
      Effect s (.returnRpc k msg) (.returned d.rpc) s'
  | aborted {id k x : Nat} {after : After} {d : UserRpcContainer} {s' : State}
      (h : Placed s s' x (.operation id)
        { d with message := { d.message with status := userRpcStatusNoreply, len := 0 } })
      (hWas : x ∈ held s (.incoming k) ∨ x ∈ held s (.awaiting k)) (hData : s.containers x = some d)
      (hRun : s'.running id = some (.replying x after)) : Effect s (.run id) (.aborted d.rpc) s'
  | replied {id x : Nat} {after : After} {d : UserRpcContainer} {s' : State}
      (h : Placed s s' x (.replies d.caller) d) (hRun : s.running id = some (.replying x after))
      (hData : s.containers x = some d) : Effect s (.run id) (.replied d.rpc d.caller) s'
  | result {c x : Nat} {msg : UserRpcMsg} {d : UserRpcContainer} {s' : State}
      (h : Placed s s' x (.free c) d) (hWas : x ∈ held s (.replies c)) (hData : s.containers x = some d) :
      Effect s (.getResult c msg)
        (.result d.rpc
          { userRpcCopyContentsFromKernel msg d.message with
            opaqueValue := d.clientOpaque
            status := d.message.status }) s'

/-- Whose container is in a place. -/
def Belongs (d : UserRpcContainer) : Place → Prop
  | .free c => d.owner = c
  | .replies c => d.owner = c ∧ d.caller = c
  | .incoming _ | .awaiting _ | .operation _ => d.caller = d.owner

/-- Addresses and numbers that were not given out are unused, and what an operation
points to is there. -/
structure Allocated (s : State) : Prop where
  ids : ∀ id, s.opsCount ≤ id → s.running id = none
  callers : ∀ c, s.callersCount ≤ c → s.callers c = none
  callees : ∀ k, s.calleesCount ≤ k → s.callees k = none
  buckets : ∀ k callee, s.callees k = some callee → 0 < callee.awaitingReply.bucketsCount

/-- The invariant. -/
structure Conserved (s : State) : Prop where
  allocated : Allocated s
  placement : Placement (held s) (live s)
  belongs : ∀ p x d, x ∈ held s p → s.containers x = some d → Belongs d p
  sent : ∀ id c x d, role s id = some (.holds c) → x ∈ held s (.operation id) →
    s.containers x = some d → d.caller = c
  references : ∀ c, References s c

section Effects

variable {s s' : State} {op : Op} {outcome : Outcome}

theorem data_of_mem {p : Place} {x : Nat} (h : Placement (held s) (live s)) (hx : x ∈ held s p) :
    ∃ d, s.containers x = some d :=
  Option.ne_none_iff_exists'.mp (h.live_of_mem hx)

theorem Obtained.was {c x : Nat} {caller caller' : UserRpcCaller} {d : UserRpcContainer}
    (hCaller : s.callers c = some caller) (h : Obtained s c caller x d caller') :
    (x ∈ held s (.free c) ∨ s.containers x = none) ∧ (s.containers x = some d ∨ d.owner = c) := by
  cases h with
  | reused hFree hContainer =>
      have hx : x ∈ held s (.free c) := by
        rw [held_free hCaller, hFree]
        exact List.mem_cons_self ..
      exact ⟨Or.inl hx, Or.inl hContainer⟩
  | allocated junk hFree hNew => exact ⟨Or.inr hNew, Or.inr rfl⟩

/-- A step that leaves the containers alone. -/
theorem Effect.of_unmoved (h : Placement (held s) (live s)) (hQuiet : outcome.rpc = none)
    (hUnmoved : Unmoved s s') : Placement (held s') (live s') ∧ Effect s op outcome s' :=
  ⟨hUnmoved.placement h, .unmoved hQuiet hUnmoved⟩

theorem unmoved_createCaller (hAllocated : Allocated s) (caller : UserRpcCaller)
    (hFree : caller.freeContainers = []) (hReplies : caller.incomingReplies = []) :
    Unmoved s { s.setCaller s.callersCount (some caller) with callersCount := s.callersCount + 1 } := by
  have hNew : s.callers s.callersCount = none := hAllocated.callers _ (Nat.le_refl _)
  refine .of_running ?_ rfl rfl
  have hHeld : held (s.setCaller s.callersCount (some caller)) = held s := by
    rw [held_setCaller]
    have hEmptyFree : held s (.free s.callersCount) = [] := by simp [held, hNew]
    have hEmptyReplies : held s (.replies s.callersCount) = [] := by simp [held, hNew]
    rw [Function.update_eq_self_iff (f := held s) |>.mpr, Function.update_eq_self_iff.mpr]
    · simp [hEmptyReplies, hReplies]
    · simp [hEmptyFree, hFree]
  rw [← hHeld]
  funext p
  cases p <;> rfl

theorem unmoved_createCallee (hAllocated : Allocated s) (count : Nat) :
    Unmoved s { s.setCallee s.calleesCount ⟨[], intmapInit count, 0, false⟩ with
      calleesCount := s.calleesCount + 1 } := by
  have hNew : s.callees s.calleesCount = none := hAllocated.callees _ (Nat.le_refl _)
  refine .of_running ?_ rfl rfl
  have hHeld : held (s.setCallee s.calleesCount ⟨[], intmapInit count, 0, false⟩) = held s := by
    rw [held_setCallee]
    have hEmptyIncoming : held s (.incoming s.calleesCount) = [] := by simp [held, hNew]
    have hEmptyAwaiting : held s (.awaiting s.calleesCount) = [] := by simp [held, hNew]
    rw [Function.update_eq_self_iff (f := held s) |>.mpr, Function.update_eq_self_iff.mpr]
    · simp [hEmptyAwaiting, all_init]
    · simp [hEmptyIncoming]
  rw [← hHeld]
  funext p
  cases p <;> rfl

theorem unmoved_setCaller {c : Nat} {caller a : UserRpcCaller} (hCaller : s.callers c = some caller)
    (hFree : a.freeContainers = caller.freeContainers)
    (hReplies : a.incomingReplies = caller.incomingReplies) : Unmoved s (s.setCaller c (some a)) :=
  .of_running (held_sameCaller hCaller hFree hReplies) rfl rfl

theorem unmoved_setCallee {k : Nat} {callee b : UserRpcCallee} (hCallee : s.callees k = some callee)
    (hIncoming : b.incomingRpcs = callee.incomingRpcs)
    (hAwaiting : b.awaitingReply = callee.awaitingReply) : Unmoved s (s.setCallee k b) :=
  .of_running (held_sameCallee hCallee hIncoming hAwaiting) rfl rfl

theorem unmoved_freeCaller {c : Nat} {caller : UserRpcCaller} (hCaller : s.callers c = some caller)
    (hFree : caller.freeContainers = []) (hReplies : caller.incomingReplies = []) :
    Unmoved s (s.setCaller c none) := by
  refine .of_running ?_ rfl rfl
  rw [held_setCaller, Function.update_eq_self_iff (f := held s) |>.mpr, Function.update_eq_self_iff.mpr]
  · simp [held_replies hCaller, hReplies]
  · simp [held_free hCaller, hFree]

theorem Transition.effect (hC : Conserved s) (h : Transition s op outcome s') :
    Placement (held s') (live s') ∧ Effect s op outcome s' := by
  have hP := hC.placement
  have hIds := hC.allocated.ids
  cases h with
  | failed status => exact Effect.of_unmoved hP rfl (.refl s)
  | createCaller => exact Effect.of_unmoved hP rfl (unmoved_createCaller hC.allocated _ rfl rfl)
  | createCallee hCount => exact Effect.of_unmoved hP rfl (unmoved_createCallee hC.allocated _)
  | rejected status hCaller hLive hObtained =>
      have hWas := hObtained.was hCaller
      exact (rejected_placed hP hCaller hObtained).imp_right fun h => .rejected h hWas.1 hWas.2
  | prepared hCaller hLive hCallee hObtained hCopy =>
      have hWas := hObtained.was hCaller
      refine (prepared_placed hP hIds hCaller hObtained _).imp_right fun h =>
        .prepared h hWas.1 ?_ (Function.update_self ..) (matches_of_copy hCopy) rfl rfl rfl
      rcases hWas.2 with hOld | hNew
      · exact Or.inl ⟨_, hOld, rfl⟩
      · exact Or.inr hNew
  | @refused id c k x callee hRun hCallee hShut =>
      have hx : x ∈ held s (.operation id) := mem_operation hRun (List.mem_singleton_self x)
      obtain ⟨d, hData⟩ := data_of_mem hP hx
      exact (refused_placed hP hRun hData).imp_right fun h =>
        .refused h hRun hData (Function.update_self ..)
  | enqueued hRun hCallee hContainer hLive =>
      exact (enqueued_placed hP hRun hCallee hContainer).imp_right fun h => .enqueued h hRun hContainer
  | undelivered hRun hCaller hContainer =>
      exact (undelivered_placed hP hRun hCaller hContainer).imp_right fun h =>
        .undelivered h hRun hContainer
  | @accepted k x msg callee d rest hCallee hLive hQueue hContainer =>
      have hx : x ∈ held s (.incoming k) := by
        rw [held_incoming hCallee, hQueue]
        exact List.mem_cons_self ..
      exact (accepted_placed hP hCallee (hC.allocated.buckets _ _ hCallee) hQueue _ _).imp_right
        fun h => .accepted h hx hContainer
  | @returned k x msg message callee d hCallee hLive hSearch hContainer hCopy =>
      have hFound := search_mem (hC.allocated.buckets _ _ hCallee) hSearch
      have hx : x ∈ held s (.awaiting k) := by
        rw [held_awaiting hCallee]
        exact hFound.1
      have hKey : d.key = msg.opaqueValue := by simpa [State.key, hContainer] using hFound.2.1
      have hTaken := all_remove (hC.allocated.buckets _ _ hCallee) hFound.2.2
      exact (returned_placed hP hIds hCallee hTaken _).imp_right fun h =>
        .returned h hx hContainer hKey (matches_of_copy hCopy) (Function.update_self ..)
  | replied hRun hContainer hCaller =>
      exact (replied_placed hP hRun hCaller hContainer).imp_right fun h => .replied h hRun hContainer
  | dropped hRun hCaller hMore =>
      exact Effect.of_unmoved hP rfl (.continue (unmoved_setCaller hCaller rfl rfl) rfl hRun rfl (After.container_next _))
  | droppedLast hRun hCaller hLast =>
      exact Effect.of_unmoved hP rfl (.continue (unmoved_setCaller hCaller rfl rfl) rfl hRun rfl rfl)
  | @replyFreed id c x after caller rest hRun hCaller hQueue =>
      have hx : x ∈ held s (.replies c) := by
        rw [held_replies hCaller, hQueue]
        exact List.mem_cons_self ..
      exact (replyFreed_removed hP hCaller hQueue).imp_right fun h =>
        .freed h (Or.inr ⟨hx, role_of_running hRun⟩)
  | callerFreed hRun hCaller hQueue =>
      have hPool := (hC.references _).pool_empty (role_of_running hRun) hCaller
      exact Effect.of_unmoved hP rfl
        ((unmoved_freeCaller hCaller hPool.2 hQueue).continue rfl hRun rfl (After.container_next _))
  | @result c x msg caller d rest hCaller hLive hQueue hContainer =>
      have hx : x ∈ held s (.replies c) := by
        rw [held_replies hCaller, hQueue]
        exact List.mem_cons_self ..
      exact (result_placed hP hCaller hQueue hContainer).imp_right fun h => .result h hx hContainer
  | calleeShutDown hCallee hLive hUnused =>
      exact Effect.of_unmoved hP rfl (.start (unmoved_setCallee hCallee rfl rfl) rfl rfl hIds rfl)
  | @incomingAborted id k x callee d rest hRun hCallee hQueue hContainer =>
      have hx : x ∈ held s (.incoming k) := by
        rw [held_incoming hCallee, hQueue]
        exact List.mem_cons_self ..
      exact (incomingAborted_placed hP hRun rfl hCallee hQueue).imp_right fun h =>
        .aborted h (Or.inl hx) hContainer (Function.update_self ..)
  | incomingDrained hRun hCallee hQueue =>
      exact Effect.of_unmoved hP rfl ((Unmoved.refl s).continue rfl hRun rfl rfl)
  | @awaitingAborted id k i x callee d rest hRun hCallee hBucket hQueue hContainer =>
      have hx : x ∈ held s (.awaiting k) := by
        rw [held_awaiting hCallee]
        exact mem_all.mpr ⟨i, hBucket, by rw [hQueue]; exact List.mem_cons_self ..⟩
      exact (awaitingAborted_placed hP hRun rfl hCallee hBucket hQueue).imp_right fun h =>
        .aborted h (Or.inr hx) hContainer (Function.update_self ..)
  | bucketDrained hRun hCallee hBucket hQueue =>
      exact Effect.of_unmoved hP rfl ((Unmoved.refl s).continue rfl hRun rfl rfl)
  | calleeDrained hRun hCallee hBucket =>
      exact Effect.of_unmoved hP rfl ((Unmoved.refl s).continue rfl hRun rfl rfl)
  | callerShutDown hCaller hLive hUnused =>
      exact Effect.of_unmoved hP rfl (.start (unmoved_setCaller hCaller rfl rfl) rfl rfl hIds rfl)
  | @containerFreed id c x caller rest hRun hCaller hQueue =>
      have hx : x ∈ held s (.free c) := by
        rw [held_free hCaller, hQueue]
        exact List.mem_cons_self ..
      exact (containerFreed_removed hP hCaller hQueue).imp_right fun h => .freed h (Or.inl hx)
  | containersFreed hRun hCaller hQueue =>
      exact Effect.of_unmoved hP rfl ((Unmoved.refl s).continue rfl hRun rfl rfl)

end Effects

section Allocation

variable {s s' : State} {op : Op} {outcome : Outcome}

theorem Allocated.setCaller {c : Nat} {caller : UserRpcCaller} {a : Option UserRpcCaller}
    (h : Allocated s) (hCaller : s.callers c = some caller) : Allocated (s.setCaller c a) := by
  refine ⟨h.ids, fun c' hc => ?_, h.callees, h.buckets⟩
  have hNe : c' ≠ c := by
    rintro rfl
    cases hCaller.symm.trans (h.callers c' hc)
  simpa [State.setCaller, Function.update_of_ne hNe] using h.callers c' hc

theorem Allocated.setCallee {k : Nat} {callee b : UserRpcCallee} (h : Allocated s)
    (hCallee : s.callees k = some callee)
    (hBuckets : b.awaitingReply.bucketsCount = callee.awaitingReply.bucketsCount) :
    Allocated (s.setCallee k b) := by
  refine ⟨h.ids, h.callers, fun k' hk => ?_, fun k' b' hb => ?_⟩
  · have hNe : k' ≠ k := by
      rintro rfl
      cases hCallee.symm.trans (h.callees k' hk)
    simpa [State.setCallee, Function.update_of_ne hNe] using h.callees k' hk
  · by_cases hEq : k' = k
    · subst hEq
      simp only [State.setCallee, Function.update_self, Option.some.injEq] at hb
      rw [← hb, hBuckets]
      exact h.buckets k' callee hCallee
    · simp only [State.setCallee, Function.update_of_ne hEq] at hb
      exact h.buckets k' b' hb

theorem Allocated.setContainer {x : Nat} {d : Option UserRpcContainer} (h : Allocated s) :
    Allocated (s.setContainer x d) :=
  ⟨h.ids, h.callers, h.callees, h.buckets⟩

theorem Allocated.setRunning {id : Nat} {r : Running} {r' : Option Running} (h : Allocated s)
    (hRun : s.running id = some r) : Allocated (s.setRunning id r') := by
  refine ⟨fun id' hid => ?_, h.callers, h.callees, h.buckets⟩
  have hNe : id' ≠ id := by
    rintro rfl
    cases hRun.symm.trans (h.ids id' hid)
  simpa [State.setRunning, Function.update_of_ne hNe] using h.ids id' hid

theorem Allocated.start {r : Running} (h : Allocated s) : Allocated (s.start r) := by
  refine ⟨fun id hid => ?_, h.callers, h.callees, h.buckets⟩
  simp only [State.start] at hid
  have hNe : id ≠ s.opsCount := by omega
  simpa [State.start, State.setRunning, Function.update_of_ne hNe] using h.ids id (by omega)

theorem Allocated.createCaller (h : Allocated s) (a : UserRpcCaller) :
    Allocated { s.setCaller s.callersCount (some a) with callersCount := s.callersCount + 1 } := by
  refine ⟨h.ids, fun c hc => ?_, h.callees, h.buckets⟩
  have hNe : c ≠ s.callersCount := fun hEq => absurd hc (by simp [hEq])
  simpa [State.setCaller, Function.update_of_ne hNe] using h.callers c (Nat.le_of_succ_le hc)

theorem Allocated.createCallee (h : Allocated s) (b : UserRpcCallee)
    (hBuckets : 0 < b.awaitingReply.bucketsCount) :
    Allocated { s.setCallee s.calleesCount b with calleesCount := s.calleesCount + 1 } := by
  refine ⟨h.ids, h.callers, fun k hk => ?_, fun k b' hb => ?_⟩
  · have hNe : k ≠ s.calleesCount := fun hEq => absurd hk (by simp [hEq])
    simpa [State.setCallee, Function.update_of_ne hNe] using h.callees k (Nat.le_of_succ_le hk)
  · by_cases hEq : k = s.calleesCount
    · subst hEq
      simp only [State.setCallee, Function.update_self, Option.some.injEq] at hb
      exact hb ▸ hBuckets
    · simp only [State.setCallee, Function.update_of_ne hEq] at hb
      exact h.buckets k b' hb

theorem Allocated.step (h : Allocated s) (hStep : Transition s op outcome s') : Allocated s' := by
  cases hStep with
  | failed => exact h
  | createCaller => exact h.createCaller _
  | createCallee hCount => exact h.createCallee _ hCount
  | rejected _ hCaller => exact .setCaller h.setContainer hCaller
  | prepared hCaller => exact .start (.setCaller h.setContainer hCaller)
  | refused hRun => exact h.setRunning hRun
  | enqueued hRun hCallee => exact .setRunning (.setCallee h hCallee rfl) hRun
  | undelivered hRun hCaller => exact .setRunning (h.setCaller hCaller) hRun
  | accepted hCallee => exact .setCallee h.setContainer hCallee rfl
  | returned hCallee => exact .start (.setCallee h.setContainer hCallee rfl)
  | replied hRun _ hCaller => exact .setRunning (h.setCaller hCaller) hRun
  | dropped hRun hCaller => exact .setRunning (h.setCaller hCaller) hRun
  | droppedLast hRun hCaller => exact .setRunning (h.setCaller hCaller) hRun
  | replyFreed _ hCaller => exact .setContainer (h.setCaller hCaller)
  | callerFreed hRun hCaller => exact .setRunning (h.setCaller hCaller) hRun
  | result hCaller => exact h.setCaller hCaller
  | calleeShutDown hCallee => exact .start (.setCallee h hCallee rfl)
  | incomingAborted hRun hCallee => exact .setRunning (.setCallee h.setContainer hCallee rfl) hRun
  | incomingDrained hRun => exact h.setRunning hRun
  | awaitingAborted hRun hCallee => exact .setRunning (.setCallee h.setContainer hCallee rfl) hRun
  | bucketDrained hRun => exact h.setRunning hRun
  | calleeDrained hRun => exact h.setRunning hRun
  | callerShutDown hCaller => exact .start (h.setCaller hCaller)
  | containerFreed _ hCaller => exact .setContainer (h.setCaller hCaller)
  | containersFreed hRun => exact h.setRunning hRun

end Allocation

section Ownership

variable {s s' : State} {op : Op} {outcome : Outcome}

theorem Placed.belongs {x : Nat} {q : Place} {d : UserRpcContainer} (h : Placed s s' x q d)
    (hOld : ∀ p y e, y ∈ held s p → s.containers y = some e → Belongs e p) (hNew : Belongs d q) :
    ∀ p y e, y ∈ held s' p → s'.containers y = some e → Belongs e p := by
  intro p y e hy he
  rw [h.containers_eq] at he
  rcases (h.mem p y).mp hy with ⟨rfl, rfl⟩ | ⟨hNe, hy⟩
  · rw [Function.update_self] at he
    exact Option.some.inj he ▸ hNew
  · rw [Function.update_of_ne hNe] at he
    exact hOld p y e hy he

theorem Placed.sent {x : Nat} {q : Place} {d : UserRpcContainer} (h : Placed s s' x q d)
    (hOld : ∀ id c y e, role s id = some (.holds c) → y ∈ held s (.operation id) →
      s.containers y = some e → e.caller = c)
    (hNew : ∀ id c, q = .operation id → role s' id = some (.holds c) → d.caller = c) :
    ∀ id c y e, role s' id = some (.holds c) → y ∈ held s' (.operation id) →
      s'.containers y = some e → e.caller = c := by
  intro id c y e hRole hy he
  rw [h.containers_eq] at he
  rcases (h.mem _ y).mp hy with ⟨rfl, hq⟩ | ⟨hNe, hy⟩
  · rw [Function.update_self] at he
    exact Option.some.inj he ▸ hNew id c hq.symm hRole
  · rw [Function.update_of_ne hNe] at he
    rw [role, h.untouched id y hNe hy] at hRole
    exact hOld id c y e hRole hy he

theorem Effect.belongs (hC : Conserved s) (h : Effect s op outcome s') :
    ∀ p x d, x ∈ held s' p → s'.containers x = some d → Belongs d p := by
  have hOld := hC.belongs
  cases h with
  | unmoved hQuiet h =>
      rw [h.held_eq, h.containers_eq]
      exact hOld
  | freed h hPlace =>
      intro p y e hy he
      rw [h.containers_eq] at he
      have hMem := (h.mem p y).mp hy
      rw [Function.update_of_ne hMem.1] at he
      exact hOld p y e hMem.2 he
  | rejected h hWas hOwner =>
      refine h.belongs hOld ?_
      rcases hOwner with hData | hOwner
      · have hx := hWas.resolve_right (by rw [hData]; exact Option.some_ne_none _)
        exact hOld _ _ _ hx hData
      · exact hOwner
  | prepared h hWas hOwner hRun hMessage hOpaque hCaller hRpc =>
      refine h.belongs hOld ?_
      rcases hOwner with ⟨old, hData, hOwner⟩ | hOwner
      · have hx := hWas.resolve_right (by rw [hData]; exact Option.some_ne_none _)
        have hFree : old.owner = _ := hOld _ _ _ hx hData
        exact hCaller.trans (hOwner.trans hFree).symm
      · exact hCaller.trans hOwner.symm
  | refused h hRun hData hRun' =>
      exact h.belongs hOld (hOld (.operation _) _ _ (mem_operation hRun (List.mem_singleton_self _)) hData)
  | enqueued h hRun hData =>
      exact h.belongs hOld (hOld (.operation _) _ _ (mem_operation hRun (List.mem_singleton_self _)) hData)
  | @undelivered id c x d _ h hRun hData =>
      have hx : x ∈ held s (.operation id) := mem_operation hRun (List.mem_singleton_self x)
      have hSent : d.caller = c := hC.sent id c x d (role_of_running hRun) hx hData
      have hOwn : d.caller = d.owner := hOld _ _ _ hx hData
      exact h.belongs hOld (hOwn.symm.trans hSent)
  | @accepted k x msg d seq _ h hWas hData =>
      have hOwn : d.caller = d.owner := hOld _ _ _ hWas hData
      exact h.belongs hOld hOwn
  | @returned k x msg message d _ h hWas hData =>
      have hOwn : d.caller = d.owner := hOld _ _ _ hWas hData
      exact h.belongs hOld hOwn
  | @aborted id k x after d _ h hWas hData =>
      have hOwn : d.caller = d.owner := hWas.elim (hOld _ _ _ · hData) (hOld _ _ _ · hData)
      exact h.belongs hOld hOwn
  | @replied id x after d _ h hRun hData =>
      have hx : x ∈ held s (.operation id) := mem_operation hRun (List.mem_singleton_self x)
      have hOwn : d.caller = d.owner := hOld _ _ _ hx hData
      exact h.belongs hOld ⟨hOwn.symm, rfl⟩
  | result h hWas hData => exact h.belongs hOld (hOld _ _ _ hWas hData).1

/-- What a container keeps outside of the pools and the replies. -/
theorem Effect.kept (hC : Conserved s) (h : Effect s op outcome s') {x : Nat} {p : Place}
    {d : UserRpcContainer} (hFree : ∀ c, p ≠ .free c) (hReplies : ∀ c, p ≠ .replies c)
    (hx : x ∈ held s p) (hData : s.containers x = some d) :
    ∃ d', s'.containers x = some d' ∧ d'.rpc = d.rpc ∧
      ((∀ k, p ≠ .incoming k) → d'.key = d.key) := by
  have hP := hC.placement
  have hOther : ∀ y e, x ≠ y → s'.containers = Function.update s.containers y e →
      ∃ d', s'.containers x = some d' ∧ d'.rpc = d.rpc ∧
        ((∀ k, p ≠ .incoming k) → d'.key = d.key) := by
    intro y e hNe hEq
    exact ⟨d, by rw [hEq, Function.update_of_ne hNe, hData], rfl, fun _ => rfl⟩
  have hPlaced : ∀ y q e e', Placed s s' y q e' → s.containers y = some e → e'.rpc = e.rpc →
      (x = y → (∀ k, p ≠ .incoming k) → e'.key = e.key) →
      ∃ d', s'.containers x = some d' ∧ d'.rpc = d.rpc ∧
        ((∀ k, p ≠ .incoming k) → d'.key = d.key) := by
    intro y q e e' hPlaced hOld hRpc hKey
    by_cases hEq : x = y
    · subst hEq
      obtain rfl := Option.some.inj (hData.symm.trans hOld)
      exact ⟨e', by rw [hPlaced.containers_eq, Function.update_self], hRpc, hKey rfl⟩
    · exact hOther y _ hEq hPlaced.containers_eq
  have hSpare : ∀ y c, (y ∈ held s (.free c) ∨ s.containers y = none) → x ≠ y := by
    rintro y c (hPool | hNone) rfl
    · exact hFree c (hP.disjoint _ _ x hx hPool)
    · exact hP.live_of_mem hx hNone
  cases h with
  | unmoved hQuiet h => exact ⟨d, by rw [h.containers_eq, hData], rfl, fun _ => rfl⟩
  | freed h hPlace =>
      refine hOther _ _ ?_ h.containers_eq
      rintro rfl
      rcases hPlace with hPool | ⟨hReply, -⟩
      · exact hFree _ (hP.disjoint _ _ x hx hPool)
      · exact hReplies _ (hP.disjoint _ _ x hx hReply)
  | rejected h hWas => exact hOther _ _ (hSpare _ _ hWas) h.containers_eq
  | prepared h hWas => exact hOther _ _ (hSpare _ _ hWas) h.containers_eq
  | refused h hRun hOld => exact hPlaced _ _ _ _ h hOld rfl fun _ _ => rfl
  | enqueued h hRun hOld => exact hPlaced _ _ _ _ h hOld rfl fun _ _ => rfl
  | undelivered h hRun hOld => exact hPlaced _ _ _ _ h hOld rfl fun _ _ => rfl
  | accepted h hWas hOld =>
      refine hPlaced _ _ _ _ h hOld rfl fun hEq hIncoming => ?_
      exact (hIncoming _ (hP.disjoint _ _ x hx (hEq ▸ hWas))).elim
  | returned h hWas hOld => exact hPlaced _ _ _ _ h hOld rfl fun _ _ => rfl
  | aborted h hWas hOld => exact hPlaced _ _ _ _ h hOld rfl fun _ _ => rfl
  | replied h hRun hOld => exact hPlaced _ _ _ _ h hOld rfl fun _ _ => rfl
  | result h hWas hOld => exact hPlaced _ _ _ _ h hOld rfl fun _ _ => rfl

theorem Effect.sent (hC : Conserved s) (h : Effect s op outcome s') :
    ∀ id c x d, role s' id = some (.holds c) → x ∈ held s' (.operation id) →
      s'.containers x = some d → d.caller = c := by
  have hOld := hC.sent
  cases h with
  | unmoved hQuiet h =>
      intro id c x d hRole hx hd
      rw [h.held_eq] at hx
      rw [h.containers_eq] at hd
      rw [role, h.untouched id x hx] at hRole
      exact hOld id c x d hRole hx hd
  | freed h hPlace =>
      intro id c x d hRole hx hd
      have hMem := (h.mem _ x).mp hx
      rw [h.containers_eq, Function.update_of_ne hMem.1] at hd
      rw [role, h.running_eq] at hRole
      exact hOld id c x d hRole hMem.2 hd
  | rejected h => exact h.sent hOld (by rintro _ _ ⟨⟩)
  | prepared h _ _ hRun _ _ hCaller =>
      refine h.sent hOld fun id c hq hRole => ?_
      obtain rfl := Place.operation.inj hq
      rw [role_of_running hRun] at hRole
      obtain rfl := Role.holds.inj (Option.some.inj hRole)
      exact hCaller
  | @refused id c k x d _ h hRun hData hRun' =>
      refine h.sent hOld fun id' c' hq hRole => ?_
      obtain rfl := Place.operation.inj hq
      rw [role_of_running hRun'] at hRole
      obtain rfl := Role.holds.inj (Option.some.inj hRole)
      exact hOld id c x d (role_of_running hRun) (mem_operation hRun (List.mem_singleton_self _)) hData
  | enqueued h => exact h.sent hOld (by rintro _ _ ⟨⟩)
  | undelivered h => exact h.sent hOld (by rintro _ _ ⟨⟩)
  | accepted h => exact h.sent hOld (by rintro _ _ ⟨⟩)
  | returned h _ _ _ _ hRun =>
      refine h.sent hOld fun id c hq hRole => ?_
      obtain rfl := Place.operation.inj hq
      rw [role_of_running hRun] at hRole
      cases hRole
  | aborted h _ _ hRun =>
      refine h.sent hOld fun id c hq hRole => ?_
      obtain rfl := Place.operation.inj hq
      rw [role_of_running hRun] at hRole
      cases hRole
  | replied h => exact h.sent hOld (by rintro _ _ ⟨⟩)
  | result h => exact h.sent hOld (by rintro _ _ ⟨⟩)

end Ownership

section Flight

variable {s s' : State} {op : Op} {outcome : Outcome}

theorem Placed.flight {x : Nat} {q : Place} {d : UserRpcContainer} (h : Placed s s' x q d) {c y : Nat}
    (hy : Token.container y ∈ owing s' c) :
    y = x ∧ q.inFlight ∧ d.caller = c ∨ y ≠ x ∧ Token.container y ∈ owing s c := by
  obtain ⟨p, e, hMem, hFlight, hData, hCaller⟩ := hy
  rw [h.containers_eq] at hData
  rcases (h.mem p y).mp hMem with ⟨rfl, rfl⟩ | ⟨hNe, hMem⟩
  · rw [Function.update_self] at hData
    exact Or.inl ⟨rfl, hFlight, Option.some.inj hData ▸ hCaller⟩
  · rw [Function.update_of_ne hNe] at hData
    exact Or.inr ⟨hNe, p, e, hMem, hFlight, hData, hCaller⟩

/-- The container was on its way to the same caller before. -/
theorem Placed.flight_same {x : Nat} {p q : Place} {d e : UserRpcContainer} (h : Placed s s' x q d)
    (hx : x ∈ held s p) (hFlight : p.inFlight) (hData : s.containers x = some e)
    (hCaller : d.caller = e.caller) {c y : Nat} (hy : Token.container y ∈ owing s' c) :
    Token.container y ∈ owing s c := by
  rcases h.flight hy with ⟨rfl, -, hEq⟩ | ⟨-, hOld⟩
  · exact ⟨p, e, hx, hFlight, hData, hCaller.symm.trans hEq⟩
  · exact hOld

/-- The container is not on its way any more. -/
theorem Placed.flight_landed {x : Nat} {q : Place} {d : UserRpcContainer} (h : Placed s s' x q d)
    (hFlight : ¬q.inFlight) {c y : Nat} (hy : Token.container y ∈ owing s' c) :
    y ≠ x ∧ Token.container y ∈ owing s c :=
  (h.flight hy).resolve_left fun hx => hFlight hx.2.1

/-- Only `user_rpc_initiate` sends a container on its way. -/
theorem Effect.flight (h : Effect s op outcome s') (hNot : outcome ≠ .prepared s.opsCount) {c y : Nat}
    (hy : Token.container y ∈ owing s' c) : Token.container y ∈ owing s c := by
  cases h with
  | unmoved hQuiet h =>
      obtain ⟨p, e, hMem, hFlight, hData, hCaller⟩ := hy
      exact ⟨p, e, h.held_eq ▸ hMem, hFlight, h.containers_eq ▸ hData, hCaller⟩
  | freed h hPlace =>
      obtain ⟨p, e, hMem, hFlight, hData, hCaller⟩ := hy
      have hOld := (h.mem p y).mp hMem
      rw [h.containers_eq, Function.update_of_ne hOld.1] at hData
      exact ⟨p, e, hOld.2, hFlight, hData, hCaller⟩
  | rejected h => exact (h.flight_landed (by simp [Place.inFlight]) hy).2
  | prepared => exact (hNot rfl).elim
  | refused h hRun hData =>
      exact h.flight_same (mem_operation hRun (List.mem_singleton_self _)) trivial hData rfl hy
  | enqueued h hRun hData =>
      exact h.flight_same (mem_operation hRun (List.mem_singleton_self _)) trivial hData rfl hy
  | undelivered h => exact (h.flight_landed (by simp [Place.inFlight]) hy).2
  | accepted h hWas hData => exact h.flight_same hWas trivial hData rfl hy
  | returned h hWas hData => exact h.flight_same hWas trivial hData rfl hy
  | aborted h hWas hData =>
      rcases hWas with hIncoming | hAwaiting
      · exact h.flight_same hIncoming trivial hData rfl hy
      · exact h.flight_same hAwaiting trivial hData rfl hy
  | replied h => exact (h.flight_landed (by simp [Place.inFlight]) hy).2
  | result h => exact (h.flight_landed (by simp [Place.inFlight]) hy).2

theorem Effect.flight_prepared {c k : Nat} {msg : UserRpcMsg} {heap : Option (Nat × UserRpcContainer)}
    (h : Effect s (.initiate c k msg heap) (.prepared s.opsCount) s') :
    ∃ x, ∀ c' y, Token.container y ∈ owing s' c' →
      y = x ∧ c' = c ∨ Token.container y ∈ owing s c' := by
  cases h with
  | unmoved hQuiet => cases hQuiet
  | @prepared _ _ x _ _ d _ h _ _ _ _ _ hCaller =>
      refine ⟨x, fun c' y hy => ?_⟩
      rcases h.flight hy with ⟨hEq, -, hTo⟩ | ⟨-, hOld⟩
      · exact Or.inl ⟨hEq, hTo.symm.trans hCaller⟩
      · exact Or.inr hOld

theorem Effect.flight_replied {id x r c : Nat} {after : After}
    (h : Effect s (.run id) (.replied r c) s') (hRun : s.running id = some (.replying x after))
    {c' y : Nat} (hy : Token.container y ∈ owing s' c') :
    y ≠ x ∧ Token.container y ∈ owing s c' := by
  cases h with
  | unmoved hQuiet => cases hQuiet
  | replied h hRun' =>
      obtain ⟨rfl, -⟩ := Running.replying.inj (Option.some.inj (hRun.symm.trans hRun'))
      exact h.flight_landed (by simp [Place.inFlight]) hy

end Flight

section Counting

variable {s s' : State} {op : Op} {outcome : Outcome}

theorem Obtained.refs {c x : Nat} {caller caller' : UserRpcCaller} {d : UserRpcContainer}
    (h : Obtained s c caller x d caller') :
    caller'.deallocRefcount = caller.deallocRefcount ∧ caller'.isShutDown = caller.isShutDown := by
  cases h <;> exact ⟨rfl, rfl⟩

theorem Allocated.usesCaller_of_holds {id c : Nat} (h : Allocated s)
    (hHolds : role s id = some (.holds c)) : s.usesCaller c := by
  have hSome : s.running id ≠ none := fun hNone => by simp [role, hNone] at hHolds
  refine ⟨id, Nat.lt_of_not_le fun hLe => hSome (h.ids id hLe), ?_⟩
  obtain ⟨r, hRun⟩ := Option.ne_none_iff_exists'.mp hSome
  rw [role_of_running hRun] at hHolds
  rw [hRun]
  cases r <;> simp_all [Running.role, Running.callerHandle]

theorem Allocated.role_new (h : Allocated s) : role s s.opsCount = none := by
  simp [role, h.ids s.opsCount (Nat.le_refl _)]

theorem References.step (hC : Conserved s) (hStep : Transition s op outcome s')
    (hEffect : Effect s op outcome s') (c' : Nat) : References s' c' := by
  have h := hC.references c'
  have hNew := hC.allocated.role_new
  cases hStep with
  | failed => exact h
  | createCaller =>
      have hFlight : ∀ y, Token.container y ∈ owing _ c' → Token.container y ∈ owing s c' :=
        fun y => hEffect.flight (by simp)
      by_cases hEq : c' = s.callersCount
      · subst hEq
        exact h.created (hC.allocated.callers _ (Nat.le_refl _)) (Function.update_self ..) rfl rfl rfl
          hFlight
      · exact h.steady (.of_same (Function.update_of_ne hEq ..) (.of_eq rfl) hFlight)
  | createCallee => exact h.steady (.of_same rfl (.of_eq rfl) fun y => hEffect.flight (by simp))
  | rejected status hCaller hLive hObtained =>
      refine h.steady (.of_queues rfl hCaller hObtained.refs.1 hObtained.refs.2 (fun hShut => ?_)
        (.of_eq rfl) fun y => hEffect.flight (by simp))
      cases hLive.symm.trans hShut
  | @prepared c k x msg message heap caller caller' callee d hCaller hLive hCallee hObtained hCopy =>
      obtain ⟨y₀, hFlight⟩ := hEffect.flight_prepared
      by_cases hEq : c' = c
      · subst hEq
        refine h.borrowed hCaller hLive (Function.update_self ..) ?_ ?_ (role_update rfl rfl)
          fun y hy => (hFlight c' y hy).imp_left And.left
        · exact congrArg (· + 1) hObtained.refs.1
        · exact hObtained.refs.2.trans hLive
      · refine h.steady (.other hEq rfl (role_update rfl rfl) (fun ρ hρ => by cases hNew.symm.trans hρ) (by simp [Running.role, Role.caller])
          fun y hy => (hFlight c' y hy).resolve_left fun hSame => hEq hSame.2)
  | @refused id c k x callee hRun hCallee hShut =>
      have hWas : role s id = some (.holds c) := role_of_running hRun
      refine h.steady (.of_same rfl (.update (role_update rfl rfl) (fun ρ _ hρ => hWas.trans hρ) fun hCloses => ?_)
        fun y => hEffect.flight (by simp))
      cases hWas.symm.trans hCloses
  | enqueued hRun hCallee hContainer hLive =>
      exact h.steady (.of_same rfl (.silent (role_update rfl rfl) (Or.inr ⟨_, role_of_running hRun⟩))
        fun y => hEffect.flight (by simp))
  | @undelivered id c x caller d hRun hCaller hContainer =>
      have hHolds : role s id = some (.holds c) := role_of_running hRun
      refine h.steady (.of_queues rfl hCaller rfl rfl (fun hShut => ?_)
        (.silent (role_update rfl rfl) (Or.inr ⟨c, hHolds⟩)) fun y => hEffect.flight (by simp))
      obtain ⟨b, hb, hOpen⟩ := (hC.references c).holding id hHolds
      obtain rfl := Option.some.inj (hCaller.symm.trans hb)
      cases hOpen.symm.trans hShut
  | accepted => exact h.steady (.of_same rfl (.of_eq rfl) fun y => hEffect.flight (by simp))
  | returned =>
      exact h.steady (.of_same rfl (.silent (role_update rfl rfl) (Or.inl hNew))
        fun y => hEffect.flight (by simp))
  | @replied id x after caller d hRun hContainer hCaller =>
      have hWas : role s id = none := role_of_running hRun
      by_cases hEq : c' = d.caller
      · subst hEq
        have hOwed : Token.container x ∈ owing s d.caller :=
          ⟨.operation id, d, mem_operation hRun (List.mem_singleton_self x), trivial, hContainer, rfl⟩
        exact h.delivered hCaller (Function.update_self ..) rfl rfl rfl (role_update rfl rfl) hWas hOwed
          fun y => hEffect.flight_replied hRun
      · exact h.steady (.other hEq rfl (role_update rfl rfl) (by simp [hWas]) (by simp [Running.role, Role.caller])
          fun y => hEffect.flight (by simp))
  | @dropped id c after caller hRun hCaller hMore =>
      have hWas : role s id = some (.drops c) := role_of_running hRun
      by_cases hEq : c' = c
      · subst hEq
        exact h.dropped hCaller (Function.update_self ..) rfl rfl rfl (role_update rfl after.role_next) hWas
          fun y => hEffect.flight (by simp)
      · exact h.steady (.other hEq rfl (role_update rfl after.role_next) (by simp [hWas, Role.caller]) (by simp)
          fun y => hEffect.flight (by simp))
  | @droppedLast id c after caller hRun hCaller hLast =>
      have hWas : role s id = some (.drops c) := role_of_running hRun
      by_cases hEq : c' = c
      · subst hEq
        exact h.droppedLast hCaller hLast (Function.update_self ..) rfl rfl rfl (role_update rfl rfl) hWas
          fun y => hEffect.flight (by simp)
      · exact h.steady (.other hEq rfl (role_update rfl rfl) (by simp [hWas, Role.caller])
          (by simp [Running.role, Role.caller]) fun y => hEffect.flight (by simp))
  | replyFreed hRun hCaller hQueue =>
      exact h.steady (.of_queues rfl hCaller rfl rfl (fun _ hEmpty => hEmpty) (.of_eq rfl)
        fun y => hEffect.flight (by simp))
  | @callerFreed id c after caller hRun hCaller hQueue =>
      have hWas : role s id = some (.frees c) := role_of_running hRun
      by_cases hEq : c' = c
      · subst hEq
        exact h.freed hCaller (Function.update_self ..) (role_update rfl after.role_next) hWas fun y => hEffect.flight (by simp)
      · exact h.steady (.other hEq rfl (role_update rfl after.role_next) (by simp [hWas, Role.caller]) (by simp)
          fun y => hEffect.flight (by simp))
  | result hCaller hLive hQueue hContainer =>
      refine h.steady (.of_queues rfl hCaller rfl rfl (fun hShut => ?_) (.of_eq rfl)
        fun y => hEffect.flight (by simp))
      cases hLive.symm.trans hShut
  | calleeShutDown =>
      exact h.steady (.of_same rfl (.silent (role_update rfl rfl) (Or.inl hNew))
        fun y => hEffect.flight (by simp))
  | incomingAborted hRun =>
      exact h.steady (.of_same rfl (.silent (role_update rfl rfl) (Or.inl (role_of_running hRun)))
        fun y => hEffect.flight (by simp))
  | incomingDrained hRun =>
      exact h.steady (.of_same rfl (.silent (role_update rfl rfl) (Or.inl (role_of_running hRun)))
        fun y => hEffect.flight (by simp))
  | awaitingAborted hRun =>
      exact h.steady (.of_same rfl (.silent (role_update rfl rfl) (Or.inl (role_of_running hRun)))
        fun y => hEffect.flight (by simp))
  | bucketDrained hRun =>
      exact h.steady (.of_same rfl (.silent (role_update rfl rfl) (Or.inl (role_of_running hRun)))
        fun y => hEffect.flight (by simp))
  | calleeDrained hRun =>
      exact h.steady (.of_same rfl (.silent (role_update rfl rfl) (Or.inl (role_of_running hRun)))
        fun y => hEffect.flight (by simp))
  | @callerShutDown c caller hCaller hLive hUnused =>
      by_cases hEq : c' = c
      · subst hEq
        refine h.shutDown hCaller hLive (fun i hHolds => hUnused ?_) (Function.update_self ..) rfl rfl
          (role_update rfl rfl) fun y => hEffect.flight (by simp)
        exact hC.allocated.usesCaller_of_holds hHolds
      · exact h.steady (.other hEq rfl (role_update rfl rfl) (fun ρ hρ => by cases hNew.symm.trans hρ) (by simp [Running.role, Role.caller])
          fun y => hEffect.flight (by simp))
  | containerFreed hRun hCaller hQueue =>
      refine h.steady (.of_queues rfl hCaller rfl rfl (fun _ hEmpty => ?_) (.of_eq rfl)
        fun y => hEffect.flight (by simp))
      cases hQueue.symm.trans hEmpty
  | @containersFreed id c caller hRun hCaller hQueue =>
      have hWas : role s id = some (.closes c) := role_of_running hRun
      by_cases hEq : c' = c
      · subst hEq
        exact h.closed hCaller hQueue hCaller (role_update rfl rfl) hWas fun y => hEffect.flight (by simp)
      · refine h.steady (.of_same rfl (.update (role_update rfl rfl) ?_ fun hCloses => ?_)
          fun y => hEffect.flight (by simp))
        · rintro ρ hρ ⟨⟩
          exact (hEq hρ.symm).elim
        · obtain rfl := Role.closes.inj (Option.some.inj (hWas.symm.trans hCloses))
          exact (hEq rfl).elim

end Counting

section Runs

variable {s s' : State} {op : Op} {outcome : Outcome}

theorem conserved_initial : Conserved initial where
  allocated := ⟨fun _ _ => rfl, fun _ _ => rfl, fun _ _ => rfl, by rintro _ _ ⟨⟩⟩
  placement := by
    have hEmpty : ∀ p, held initial p = [] := by
      intro p
      cases p <;> rfl
    refine ⟨fun p => ?_, fun p q x hx => ?_, fun x => ?_⟩
    · rw [hEmpty]
      exact List.nodup_nil
    · rw [hEmpty] at hx
      cases hx
    · simp only [hEmpty, List.not_mem_nil, exists_false, iff_false]
      exact fun hLive => hLive rfl
  belongs := by rintro _ _ _ _ ⟨⟩
  sent := by rintro _ _ _ _ ⟨⟩
  references c := by
    have hRole : ∀ id, role initial id = none := fun _ => rfl
    have hUnowed : ∀ t, t ∉ owing initial c := by
      rintro (_ | x | id) ht
      · rcases ht with ⟨_, ⟨⟩, _⟩ | ⟨_, ⟨⟩⟩
      · obtain ⟨_, _, _, _, ⟨⟩, _⟩ := ht
      · cases ht
    exact ⟨by rintro _ ⟨⟩, by rintro _ ⟨⟩, fun t ht => (hUnowed t ht).elim, by rintro _ ⟨⟩,
      by rintro _ _ ⟨⟩, by rintro _ ⟨⟩, by rintro _ _ ⟨⟩, by rintro _ ⟨⟩⟩

theorem Conserved.step (h : Conserved s) (hStep : Transition s op outcome s') :
    Conserved s' ∧ Effect s op outcome s' := by
  obtain ⟨hPlacement, hEffect⟩ := hStep.effect h
  exact ⟨⟨h.allocated.step hStep, hPlacement, hEffect.belongs h, hEffect.sent h,
    References.step h hStep hEffect⟩, hEffect⟩

theorem Conserved.run {trace : List (Op × Outcome)} (run : system.Execution trace s) : Conserved s := by
  refine run.stateInvariant (fun s hs => ?_) fun s label s' h hStep => ?_
  · obtain rfl := hs
    exact conserved_initial
  · exact (h.step (exec_transition hStep)).1

end Runs

end Ricerca.Rpc
