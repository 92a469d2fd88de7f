import Ricerca.User.RpcNotifications
import Ricerca.User.RpcShutdown

/-! Messages that are too long, and answers to requests that nobody waits for. The length of a
message is checked when it comes in and trusted from then on; a refused answer leaves the
request where it was. -/
namespace Ricerca.Rpc

open Ricerca.Foundation Ricerca.Cookie Ricerca.Lib

/-- The `memcpy` of `user_rpc_copy_contents_from_user`, if it comes to that. -/
def copyFromUserLengths (src : UserRpcMsg) : List Nat :=
  if src.len.toNat > userRpcMaxPayloadSize then [] else [src.len.toNat]

/-- The `memcpy` of `user_rpc_copy_contents_from_kernel`, from the head of a queue. -/
def copyFromKernelLengths (s : State) (queue : List Nat) : List Nat :=
  (queue.head?.bind s.containers).toList.map fun container => container.message.len.toNat

/-- How many bytes a step copies to or from a payload, for each copy. -/
def copyLengths (s : State) : Op → List Nat
  | .initiate c _ msg heap =>
      if held s (.free c) = [] ∧ heap.isNone then [] else copyFromUserLengths msg
  | .accept k _ => copyFromKernelLengths s (held s (.incoming k))
  | .returnRpc k msg =>
      match s.callees k with
      | none => []
      | some callee =>
          if (intmapSearch callee.awaitingReply s.key msg.opaqueValue).isNone then []
          else copyFromUserLengths msg
  | .getResult c _ => copyFromKernelLengths s (held s (.replies c))
  | _ => []

/-- Every message outside of the pools fits the payload. -/
def Fitting (s : State) : Prop :=
  ∀ p x d, (∀ c, p ≠ .free c) → x ∈ held s p → s.containers x = some d →
    d.message.len.toNat ≤ userRpcMaxPayloadSize

section Lengths

variable {s s' : State} {op : Op} {outcome : Outcome}

theorem copyFromUser_le {dst src message : UserRpcMsg}
    (h : userRpcCopyContentsFromUser dst src = .ok message) :
    src.len.toNat ≤ userRpcMaxPayloadSize := by
  simp only [userRpcCopyContentsFromUser] at h
  split_ifs at h with hLen
  exact Nat.not_lt.mp hLen

theorem Transition.prepared_le {c k r : Nat} {msg : UserRpcMsg}
    {heap : Option (Nat × UserRpcContainer)}
    (h : Transition s (.initiate c k msg heap) (.prepared r) s') :
    msg.len.toNat ≤ userRpcMaxPayloadSize := by
  cases h with
  | prepared hCaller hLive hCallee hObtained hCopy => exact copyFromUser_le hCopy

theorem Transition.returned_le {k r : Nat} {msg : UserRpcMsg}
    (h : Transition s (.returnRpc k msg) (.returned r) s') :
    msg.len.toNat ≤ userRpcMaxPayloadSize := by
  cases h with
  | returned hCallee hLive hSearch hContainer hCopy => exact copyFromUser_le hCopy

theorem Placed.fitting {x : Nat} {q : Place} {d : UserRpcContainer} (h : Placed s s' x q d)
    (hOld : Fitting s)
    (hNew : (∀ c, q ≠ .free c) → d.message.len.toNat ≤ userRpcMaxPayloadSize) : Fitting s' := by
  intro p y e hBusy hy he
  rw [h.containers_eq] at he
  rcases (h.mem p y).mp hy with ⟨rfl, rfl⟩ | ⟨hNe, hy⟩
  · rw [Function.update_self] at he
    exact Option.some.inj he ▸ hNew hBusy
  · rw [Function.update_of_ne hNe] at he
    exact hOld p y e hBusy hy he

theorem Fitting.step (hC : Conserved s) (h : Fitting s) (hStep : Transition s op outcome s') :
    Fitting s' := by
  have hOperation : ∀ {id x r d}, s.running id = some r → r.container = [x] →
      s.containers x = some d → d.message.len.toNat ≤ userRpcMaxPayloadSize := by
    intro id x r d hRun hOnly hData
    refine h (.operation id) x d (by simp) (mem_operation hRun ?_) hData
    rw [hOnly]
    exact List.mem_singleton_self x
  have hEffect := (hStep.effect hC).2
  cases hEffect with
  | unmoved hQuiet hSame =>
      intro p x d hBusy hx hd
      rw [hSame.held_eq] at hx
      rw [hSame.containers_eq] at hd
      exact h p x d hBusy hx hd
  | freed hRemoved hPlace =>
      intro p x d hBusy hx hd
      have hMem := (hRemoved.mem p x).mp hx
      rw [hRemoved.containers_eq, Function.update_of_ne hMem.1] at hd
      exact h p x d hBusy hMem.2 hd
  | rejected hPlaced => exact hPlaced.fitting h fun hBusy => (hBusy _ rfl).elim
  | prepared hPlaced hWas hOwner hRun hMessage =>
      refine hPlaced.fitting h fun _ => ?_
      rw [hMessage.len]
      exact hStep.prepared_le
  | refused hPlaced hRun hData => exact hPlaced.fitting h fun _ => hOperation hRun rfl hData
  | enqueued hPlaced hRun hData => exact hPlaced.fitting h fun _ => hOperation hRun rfl hData
  | undelivered hPlaced => exact hPlaced.fitting h fun hBusy => (hBusy _ rfl).elim
  | @accepted k x msg d seq _ hPlaced hWas hData =>
      have hOld := h (.incoming k) x d (by simp) hWas hData
      exact hPlaced.fitting h fun _ => hOld
  | returned hPlaced hWas hData hKey hMessage =>
      refine hPlaced.fitting h fun _ => ?_
      rw [hMessage.len]
      exact hStep.returned_le
  | aborted hPlaced => exact hPlaced.fitting h fun _ => Nat.zero_le _
  | replied hPlaced hRun hData => exact hPlaced.fitting h fun _ => hOperation hRun rfl hData
  | result hPlaced => exact hPlaced.fitting h fun hBusy => (hBusy _ rfl).elim

theorem Fitting.run {trace : List (Op × Outcome)} (run : system.Execution trace s) : Fitting s := by
  refine run.invariant (P := fun _ s => Fitting s) (fun s hs => ?_)
    fun trace s label s' prior h hStep => h.step (Conserved.run prior) (exec_transition hStep)
  obtain rfl := hs
  rintro p x d - - ⟨⟩

theorem copyFromUserLengths_le (src : UserRpcMsg) :
    ∀ n ∈ copyFromUserLengths src, n ≤ userRpcMaxPayloadSize := by
  intro n hn
  simp only [copyFromUserLengths] at hn
  split_ifs at hn with hLen
  · cases hn
  · obtain rfl := List.mem_singleton.mp hn
    exact Nat.not_lt.mp hLen

theorem Fitting.copyFromKernelLengths_le (h : Fitting s) {p : Place} (hBusy : ∀ c, p ≠ .free c) :
    ∀ n ∈ copyFromKernelLengths s (held s p), n ≤ userRpcMaxPayloadSize := by
  intro n hn
  simp only [copyFromKernelLengths, List.mem_map, Option.mem_toList, Option.bind_eq_some_iff]
    at hn
  obtain ⟨d, ⟨x, hHead, hData⟩, rfl⟩ := hn
  exact h p x d hBusy (List.mem_of_mem_head? hHead) hData

theorem Fitting.copyLengths_le (h : Fitting s) (op : Op) :
    ∀ n ∈ copyLengths s op, n ≤ userRpcMaxPayloadSize := by
  intro n hn
  cases op with
  | initiate c k msg heap =>
      simp only [copyLengths] at hn
      split_ifs at hn
      · cases hn
      · exact copyFromUserLengths_le msg n hn
  | accept k msg => exact h.copyFromKernelLengths_le (by simp) n hn
  | returnRpc k msg =>
      simp only [copyLengths] at hn
      split at hn
      · cases hn
      · split_ifs at hn
        · cases hn
        · exact copyFromUserLengths_le msg n hn
  | getResult c msg => exact h.copyFromKernelLengths_le (by simp) n hn
  | createCaller | createCallee | shutdownCallee | shutdownCaller | run => cases hn

end Lengths

/-- A request waits at an open callee for an answer with this number. -/
def Awaits (s : State) (k : Nat) (seq : UInt64) : Prop :=
  ∃ callee, s.callees k = some callee ∧ callee.isShutDown = false ∧
    ∃ x ∈ callee.awaitingReply.all, s.key x = seq

/-- Every request that waits stands in the bucket of its number. -/
def Hashing (s : State) : Prop :=
  ∀ k callee, s.callees k = some callee → callee.awaitingReply.Hashed s.key

section Awaiting

variable {s s' : State} {op : Op} {outcome : Outcome} {k : Nat} {seq : UInt64}
  {trace : List (Op × Outcome)}

/-- A request keeps its number while it waits. -/
theorem Transition.key_eq (hC : Conserved s) (h : Transition s op outcome s') {x : Nat}
    (hx : x ∈ held s (.awaiting k)) : s'.key x = s.key x := by
  obtain ⟨d, hData⟩ := data_of_mem hC.placement hx
  obtain ⟨d', hData', -, hKey⟩ := (h.effect hC).2.kept hC (by simp) (by simp) hx hData
  simp [State.key, hData, hData', hKey (by simp)]

/-- One callee changes. -/
theorem Hashing.update {k' : Nat} {callee' : UserRpcCallee} (hC : Conserved s) (h : Hashing s)
    (hStep : Transition s op outcome s')
    (hCallees : s'.callees = Function.update s.callees k' (some callee'))
    (hHashed : callee'.awaitingReply.Hashed s'.key) : Hashing s' := by
  intro k callee hCallee
  rw [hCallees] at hCallee
  by_cases hEq : k = k'
  · subst hEq
    rw [Function.update_self] at hCallee
    exact Option.some.inj hCallee ▸ hHashed
  · rw [Function.update_of_ne hEq] at hCallee
    refine (h k callee hCallee).congr fun x hx => hStep.key_eq hC (k := k) ?_
    rwa [held_awaiting hCallee]

theorem Hashing.step (hC : Conserved s) (h : Hashing s) (hStep : Transition s op outcome s') :
    Hashing s' := by
  have hKept : ∀ k callee, s.callees k = some callee → callee.awaitingReply.Hashed s'.key := by
    intro k callee hCallee
    refine (h k callee hCallee).congr fun x hx => hStep.key_eq hC (k := k) ?_
    rwa [held_awaiting hCallee]
  have hStep' := hStep
  cases hStep with
  | createCallee =>
      refine h.update hC hStep' rfl ?_
      rintro i - x ⟨⟩
  | enqueued hRun hCallee =>
      have hSame := hKept _ _ hCallee
      exact h.update hC hStep' rfl hSame
  | accepted hCallee => exact h.update hC hStep' rfl ((hKept _ _ hCallee).insert _)
  | @returned k x msg message callee d hCallee hLive hSearch =>
      obtain ⟨-, -, hBucket⟩ := search_mem (hC.allocated.buckets _ _ hCallee) hSearch
      have hRest := all_remove (hC.allocated.buckets _ _ hCallee) hBucket
      refine h.update hC hStep' rfl (((h _ _ hCallee).remove x).congr fun y hy => ?_)
      refine hStep'.key_eq hC (k := k) ?_
      rw [held_awaiting hCallee]
      exact hRest.mem_iff.mpr (List.mem_cons_of_mem x hy)
  | calleeShutDown hCallee =>
      have hSame := hKept _ _ hCallee
      exact h.update hC hStep' rfl hSame
  | incomingAborted hRun hCallee =>
      have hSame := hKept _ _ hCallee
      exact h.update hC hStep' rfl hSame
  | awaitingAborted hRun hCallee =>
      exact h.update hC hStep' rfl ((hKept _ _ hCallee).removeHead _)
  | failed | createCaller | rejected | prepared | refused | undelivered | replied | dropped
  | droppedLast | replyFreed | callerFreed | result | incomingDrained | bucketDrained
  | calleeDrained | callerShutDown | containerFreed | containersFreed => exact hKept

theorem Hashing.run (run : system.Execution trace s) : Hashing s := by
  refine run.invariant (P := fun _ s => Hashing s) (fun s hs => ?_)
    fun trace s label s' prior h hStep => h.step (Conserved.run prior) (exec_transition hStep)
  obtain rfl := hs
  rintro k callee ⟨⟩

theorem Awaits.update {k' : Nat} {callee callee' : UserRpcCallee} (hC : Conserved s)
    (h : Awaits s k seq) (hStep : Transition s op outcome s')
    (hCallees : s'.callees = Function.update s.callees k' (some callee'))
    (hCallee : s.callees k' = some callee)
    (hKeep : k = k' → callee.isShutDown = false → callee'.isShutDown = false ∧
      ∀ x ∈ callee.awaitingReply.all, s.key x = seq → x ∈ callee'.awaitingReply.all) :
    Awaits s' k seq := by
  obtain ⟨own, hOwn, hLive, x, hx, hKey⟩ := h
  have hKey' : s'.key x = seq := (hStep.key_eq hC (k := k) (by rwa [held_awaiting hOwn])).trans hKey
  by_cases hEq : k = k'
  · subst hEq
    obtain rfl := Option.some.inj (hOwn.symm.trans hCallee)
    obtain ⟨hOpen, hAll⟩ := hKeep rfl hLive
    exact ⟨callee', by rw [hCallees, Function.update_self], hOpen, x, hAll x hx hKey, hKey'⟩
  · exact ⟨own, by rw [hCallees, Function.update_of_ne hEq, hOwn], hLive, x, hx, hKey'⟩

/-- A request waits until it is answered or its callee is shut down. -/
theorem Awaits.step (hC : Conserved s) (hD : ∀ k, Drained s k) (h : Awaits s k seq)
    (hStep : Transition s op outcome s') (hOpen : op ≠ .shutdownCallee k)
    (hNot : ∀ msg r, op = .returnRpc k msg → outcome = .returned r → msg.opaqueValue ≠ seq) :
    Awaits s' k seq := by
  have hStep' := hStep
  cases hStep with
  | createCallee =>
      obtain ⟨own, hOwn, hLive, x, hx, hKey⟩ := h
      have hNe : k ≠ s.calleesCount := by
        rintro rfl
        cases hOwn.symm.trans (hC.allocated.callees _ (Nat.le_refl _))
      exact ⟨own, (Function.update_of_ne hNe ..).trans hOwn, hLive, x, hx, hKey⟩
  | enqueued hRun hCallee hContainer hLive =>
      exact h.update hC hStep' rfl hCallee fun _ hOld => ⟨hOld, fun x hx _ => hx⟩
  | accepted hCallee =>
      refine h.update hC hStep' rfl hCallee fun _ hOld => ⟨hOld, fun x hx _ => ?_⟩
      exact (all_insert (hC.allocated.buckets _ _ hCallee) _ _).mem_iff.mpr
        (List.mem_cons_of_mem _ hx)
  | @returned k' y msg message callee d hCallee hLive hSearch =>
      refine h.update hC hStep' rfl hCallee fun hEq hOld => ⟨hOld, fun x hx hKey => ?_⟩
      obtain ⟨-, hFound, hBucket⟩ := search_mem (hC.allocated.buckets _ _ hCallee) hSearch
      have hMem := (all_remove (hC.allocated.buckets _ _ hCallee) hBucket).mem_iff.mp hx
      refine (List.mem_cons.mp hMem).resolve_left ?_
      rintro rfl
      exact hNot msg _ (by rw [hEq]) rfl (hFound.symm.trans hKey)
  | calleeShutDown hCallee =>
      refine h.update hC hStep' rfl hCallee fun hEq => ?_
      exact (hOpen (by rw [hEq])).elim
  | incomingAborted hRun hCallee =>
      exact h.update hC hStep' rfl hCallee fun _ hOld => ⟨hOld, fun x hx _ => hx⟩
  | @awaitingAborted id k' i y callee d rest hRun hCallee =>
      refine h.update hC hStep' rfl hCallee fun _ hOld => ?_
      have hShut := (hD k').shut id _ callee (draining_of_running hRun) hCallee
      cases hOld.symm.trans hShut
  | failed | createCaller | rejected | prepared | refused | undelivered | replied | dropped
  | droppedLast | replyFreed | callerFreed | result | incomingDrained | bucketDrained
  | calleeDrained | callerShutDown | containerFreed | containersFreed =>
      obtain ⟨own, hOwn, hLive, x, hx, hKey⟩ := h
      refine ⟨own, hOwn, hLive, x, hx, (hStep'.key_eq hC (k := k) ?_).trans hKey⟩
      rwa [held_awaiting hOwn]

theorem Awaits.later {later : List (Op × Outcome)} (run : system.Execution trace s)
    (h : Awaits s k seq) (rest : (system.after s).Execution later s')
    (hOpen : ∀ label ∈ later, label.1 ≠ .shutdownCallee k)
    (hNot : ∀ msg r, (.returnRpc k msg, .returned r) ∈ later → msg.opaqueValue ≠ seq) :
    Awaits s' k seq := by
  induction rest with
  | start hs =>
      cases hs
      exact h
  | @step later t s' label prior last ih =>
      have run' := run.append prior
      have hWaits := ih (fun l hl => hOpen l (List.mem_append_left _ hl))
        fun msg r hl => hNot msg r (List.mem_append_left _ hl)
      refine hWaits.step (Conserved.run run') (Drained.run run') (exec_transition last)
        (hOpen label (by simp)) fun msg r hOp hOutcome => hNot msg r ?_
      obtain ⟨op, outcome⟩ := label
      simp only at hOp hOutcome
      simp [hOp, hOutcome]

end Awaiting

/-- Nothing changes but the pool of one caller and what its containers hold. -/
structure OnlyPool (s s' : State) (c : Nat) : Prop where
  held_eq : ∀ p, p ≠ .free c → held s' p = held s p
  containers_eq : ∀ p x, p ≠ .free c → x ∈ held s p → s'.containers x = s.containers x
  callees_eq : s'.callees = s.callees
  running_eq : s'.running = s.running
  deallocRefcount_eq : ∀ c', (s'.callers c').map (·.deallocRefcount) =
    (s.callers c').map (·.deallocRefcount)

section Calls

variable {s s' : State} {outcome : Outcome} {c k : Nat} {msg : UserRpcMsg}

theorem copyFromUser_tooLong (dst : UserRpcMsg) (hLong : userRpcMaxPayloadSize < msg.len.toNat) :
    userRpcCopyContentsFromUser dst msg = .error .invalidMsg :=
  if_pos hLong

theorem OnlyPool.refl (s : State) (c : Nat) : OnlyPool s s c :=
  ⟨fun _ _ => rfl, fun _ _ _ _ => rfl, rfl, rfl, fun _ => rfl⟩

/-- A container goes to the end of the pool. -/
theorem fillContainer_tooLong {caller caller' : UserRpcCaller} {x : Nat}
    {container : UserRpcContainer} (hP : Placement (held s) (live s))
    (hCaller : s.callers c = some caller) (hObtained : Obtained s c caller x container caller')
    (hLong : userRpcMaxPayloadSize < msg.len.toNat)
    (h : fillContainer s c k caller' x container msg = (outcome, s')) :
    outcome = .failed .invalidMsg ∧ OnlyPool s s' c := by
  simp only [fillContainer, copyFromUser_tooLong _ hLong] at h
  obtain ⟨rfl, rfl⟩ := Prod.mk.inj h
  have hSame : caller'.incomingReplies = caller.incomingReplies ∧
      caller'.deallocRefcount = caller.deallocRefcount := by
    cases hObtained <;> exact ⟨rfl, rfl⟩
  refine ⟨rfl, fun p hp => ?_, fun p y hp hy => ?_, rfl, rfl, fun c' => ?_⟩
  · have hHeld := held_setFree (s := s.setContainer x (some container))
      (a := { caller' with freeContainers := caller'.freeContainers ++ [x] }) hCaller hSame.1
    rw [hHeld, held_setContainer, Function.update_of_ne hp]
  · refine Function.update_of_ne ?_ ..
    rintro rfl
    rcases (hObtained.was hCaller).1 with hPool | hNone
    · exact hp (hP.disjoint _ _ _ hy hPool)
    · exact hP.live_of_mem hy hNone
  · simp only [State.setCaller, State.setContainer]
    by_cases hEq : c' = c
    · subst hEq
      simp [hCaller, hSame.2]
    · rw [Function.update_of_ne hEq]

theorem initiate_tooLong {heap : Option (Nat × UserRpcContainer)}
    (hP : Placement (held s) (live s)) (hLong : userRpcMaxPayloadSize < msg.len.toNat)
    (h : exec s (.initiate c k msg heap) = some (outcome, s')) :
    (outcome = .failed .invalidMsg ∨
      outcome = .failed .outOfMemory ∧ held s (.free c) = [] ∧ heap = none) ∧
    OnlyPool s s' c := by
  simp only [exec, Option.bind_eq_bind, Option.bind_eq_some_iff] at h
  obtain ⟨caller, hCaller, callee, hCallee, hResult⟩ := h
  split_ifs at hResult with hShut
  simp only [userRpcInitiate] at hResult
  split at hResult
  · rename_i x rest hFree
    obtain ⟨container, hContainer, hFill⟩ := Option.map_eq_some_iff.mp hResult
    exact (fillContainer_tooLong hP hCaller (.reused hFree hContainer) hLong hFill).imp_left .inl
  · rename_i hFree
    split at hResult
    · obtain ⟨rfl, rfl⟩ := Prod.mk.inj (Option.some.inj hResult)
      exact ⟨Or.inr ⟨rfl, (held_free hCaller).trans hFree, rfl⟩, .refl s c⟩
    · rename_i x junk
      split_ifs at hResult with hUsed
      have hNew : s.containers x = none := by simpa using hUsed
      exact (fillContainer_tooLong hP hCaller (.allocated junk hFree hNew) hLong
        (Option.some.inj hResult)).imp_left .inl

theorem returnRpc_unknown {callee : UserRpcCallee} (hC : Conserved s)
    (hCallee : s.callees k = some callee) (hLive : callee.isShutDown = false)
    (hUnknown : ∀ x ∈ callee.awaitingReply.all, s.key x ≠ msg.opaqueValue) :
    exec s (.returnRpc k msg) = some (.failed .invalidRpcId, s) := by
  have hSearch : intmapSearch callee.awaitingReply s.key msg.opaqueValue = none := by
    rw [Option.eq_none_iff_forall_ne_some]
    intro x hx
    obtain ⟨hMem, hKey, -⟩ := search_mem (hC.allocated.buckets _ _ hCallee) hx
    exact hUnknown x hMem hKey
  simp [exec, hCallee, hLive, userRpcReturn, hSearch]

/-- A request that waits is found by its number. -/
theorem Awaits.search (hC : Conserved s) (hHashing : Hashing s)
    (h : Awaits s k msg.opaqueValue) :
    ∃ callee x d, s.callees k = some callee ∧ callee.isShutDown = false ∧
      intmapSearch callee.awaitingReply s.key msg.opaqueValue = some x ∧
      s.containers x = some d := by
  obtain ⟨callee, hCallee, hLive, y, hy, hKey⟩ := h
  have hFound := search_isSome (hHashing k callee hCallee) hy
  rw [hKey, Option.isSome_iff_exists] at hFound
  obtain ⟨x, hx⟩ := hFound
  have hMem := (search_mem (hC.allocated.buckets _ _ hCallee) hx).1
  obtain ⟨d, hData⟩ := data_of_mem hC.placement (p := .awaiting k) (by rwa [held_awaiting hCallee])
  exact ⟨callee, x, d, hCallee, hLive, hx, hData⟩

theorem returnRpc_tooLong (hC : Conserved s) (hHashing : Hashing s)
    (h : Awaits s k msg.opaqueValue) (hLong : userRpcMaxPayloadSize < msg.len.toNat) :
    exec s (.returnRpc k msg) = some (.failed .invalidMsg, s) := by
  obtain ⟨callee, x, d, hCallee, hLive, hSearch, hData⟩ := h.search hC hHashing
  simp [exec, hCallee, hLive, userRpcReturn, hSearch, hData, copyFromUser_tooLong _ hLong]

theorem returnRpc_valid (hC : Conserved s) (hHashing : Hashing s) (h : Awaits s k msg.opaqueValue)
    (hFits : msg.len.toNat ≤ userRpcMaxPayloadSize) :
    ∃ rpc s', exec s (.returnRpc k msg) = some (.returned rpc, s') := by
  obtain ⟨callee, x, d, hCallee, hLive, hSearch, hData⟩ := h.search hC hHashing
  simp [exec, hCallee, hLive, userRpcReturn, hSearch, hData, userRpcCopyContentsFromUser,
    Nat.not_lt.mpr hFits]

end Calls

section Runs

variable {s : State} {trace : List (Op × Outcome)}

/-- Without memory, a request that is too long is refused for want of memory. -/
theorem too_long_without_memory :
    ∃ trace s msg, system.Execution trace s ∧ userRpcMaxPayloadSize < msg.len.toNat ∧
      exec s (.initiate 0 0 msg none) = some (.failed .outOfMemory, s) := by
  have run : system.Execution _ _ :=
    System.Execution.of_replay [.createCaller, .createCallee 1] rfl
  exact ⟨_, _, ⟨0, 0, 113, fun _ => 0⟩, run, by decide, rfl⟩

/-- No copy overruns a payload. A request that is too long is refused with `INVALID_MSG`, or
with `OUT_OF_MEMORY` when there is neither a free container nor memory, and only the pool of its
caller changes; an answer to an unknown request, or one that is too long, changes nothing, and
requests can be answered until they are or their callee is shut down. -/
theorem bad_messages_rejected (run : system.Execution trace s) :
    (∀ p x container, (∃ k, p = .incoming k ∨ p = .awaiting k ∨ p = .replies k) → x ∈ held s p →
      s.containers x = some container → container.message.len.toNat ≤ userRpcMaxPayloadSize) ∧
    (∀ op, ∀ n ∈ copyLengths s op, n ≤ userRpcMaxPayloadSize) ∧
    (∀ c k msg heap outcome s', userRpcMaxPayloadSize < msg.len.toNat →
      exec s (.initiate c k msg heap) = some (outcome, s') →
      (outcome = .failed .invalidMsg ∨
        outcome = .failed .outOfMemory ∧ held s (.free c) = [] ∧ heap = none) ∧
      OnlyPool s s' c ∧ RpcNotifications.toNotify s outcome = none) ∧
    (∀ k callee msg, s.callees k = some callee → callee.isShutDown = false →
      (¬Awaits s k msg.opaqueValue →
        exec s (.returnRpc k msg) = some (.failed .invalidRpcId, s)) ∧
      (Awaits s k msg.opaqueValue → userRpcMaxPayloadSize < msg.len.toNat →
        exec s (.returnRpc k msg) = some (.failed .invalidMsg, s))) ∧
    ∀ k seq later s', Awaits s k seq → (system.after s).Execution later s' →
      (∀ label ∈ later, label.1 ≠ .shutdownCallee k) →
      (∀ msg rpc, (.returnRpc k msg, .returned rpc) ∈ later → msg.opaqueValue ≠ seq) →
      ∀ msg, msg.opaqueValue = seq → msg.len.toNat ≤ userRpcMaxPayloadSize →
        ∃ rpc s'', exec s' (.returnRpc k msg) = some (.returned rpc, s'') := by
  have hC := Conserved.run run
  have hFitting := Fitting.run run
  have hHashing := Hashing.run run
  refine ⟨fun p x container hp hx hData => ?_, fun op => hFitting.copyLengths_le op,
    fun c k msg heap outcome s' hLong hExec => ?_, fun k callee msg hCallee hLive => ⟨?_, ?_⟩,
    fun k seq later s' hWaits rest hOpen hNot msg hSeq hFits => ?_⟩
  · refine hFitting p x container ?_ hx hData
    rintro c rfl
    simp at hp
  · obtain ⟨hOutcome, hPool⟩ := initiate_tooLong hC.placement hLong hExec
    refine ⟨hOutcome, hPool, ?_⟩
    rcases hOutcome with rfl | ⟨rfl, -⟩ <;> rfl
  · intro hUnknown
    refine returnRpc_unknown hC hCallee hLive fun x hx hKey => hUnknown ?_
    exact ⟨callee, hCallee, hLive, x, hx, hKey⟩
  · exact returnRpc_tooLong hC hHashing
  · subst hSeq
    have run' := run.append rest
    exact returnRpc_valid (Conserved.run run') (Hashing.run run')
      (hWaits.later run rest hOpen hNot) hFits

/-- A request that was accepted: an answer that is too long is refused, and the next one is
not. -/
theorem bad_messages_rejected_then_answered :
    ∃ trace s msg msg', system.Execution trace s ∧ msg.opaqueValue = msg'.opaqueValue ∧
      exec s (.returnRpc 0 msg) = some (.failed .invalidMsg, s) ∧
      ∃ rpc s', exec s (.returnRpc 0 msg') = some (.returned rpc, s') := by
  have run : system.Execution _ _ := System.Execution.of_replay [.createCaller, .createCallee 1,
    .initiate 0 0 ⟨7, 0, 3, fun _ => 1⟩ (some (0, ⟨⟨0, 0, 200, fun _ => 0⟩, 0, 0, 0, 0, 0⟩)),
    .run 0, .accept 0 ⟨0, 0, 0, fun _ => 0⟩] rfl
  obtain ⟨-, -, -, hReturn, hLater⟩ := bad_messages_rejected run
  refine ⟨_, _, ⟨0, 0, 113, fun _ => 0⟩, ⟨0, 0, 3, fun _ => 2⟩, run, rfl,
    (hReturn 0 _ _ rfl rfl).2 ?_ (by decide),
    hLater 0 0 [] _ ?_ (.start rfl) (by simp) (by simp) _ rfl (by decide)⟩ <;>
  exact ⟨_, rfl, rfl, 0, List.mem_singleton_self 0, rfl⟩

end Runs

end Ricerca.Rpc
