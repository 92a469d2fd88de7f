import Ricerca.User.RpcConservation

/-! Requests come out of a callee in the order they were put in, with numbers that count
up, and every result belongs to the call that it is handed out for. -/
namespace Ricerca.Rpc

open Ricerca.Foundation Ricerca.Cookie Ricerca.Lib

/-- The calls that were enqueued at a callee, in order. -/
def enqueuedAt (k : Nat) (trace : List (Op × Outcome)) : List Nat :=
  trace.filterMap fun
    | (_, .enqueued r k') => if k' = k then some r else none
    | _ => none

/-- The calls that `user_rpc_accept` handed out at a callee, in order, with what it wrote
into the buffer. -/
def acceptsAt (k : Nat) (trace : List (Op × Outcome)) : List (Nat × UserRpcMsg) :=
  trace.filterMap fun
    | (.accept k' _, .accepted r m) => if k' = k then some (r, m) else none
    | _ => none

/-- The answers that `user_rpc_return` stored for the call. -/
def returnsOf (r : Nat) (trace : List (Op × Outcome)) : List UserRpcMsg :=
  trace.filterMap fun
    | (.returnRpc _ msg, .returned r') => if r' = r then some msg else none
    | _ => none

/-- `user_rpc_initiate` began the call with these arguments, and no other call has its
number. -/
def Began (trace : List (Op × Outcome)) (r c k : Nat) (msg : UserRpcMsg) : Prop :=
  (∃ heap, (Op.initiate c k msg heap, Outcome.prepared r) ∈ trace) ∧
    ∀ op, (op, Outcome.prepared r) ∈ trace → ∃ heap, op = .initiate c k msg heap

/-- The call that a container was filled for last. -/
def rpcOf (s : State) (x : Nat) : Nat := ((s.containers x).map (·.rpc)).getD 0

/-- The order of the requests at one callee. -/
structure Ordered (trace : List (Op × Outcome)) (s : State) (k : Nat) : Prop where
  absent : s.callees k = none → enqueuedAt k trace = [] ∧ acceptsAt k trace = []
  seq : ∀ callee, s.callees k = some callee → callee.seq = UInt64.ofNat (acceptsAt k trace).length
  order : (acceptsAt k trace).map Prod.fst <+: enqueuedAt k trace
  queue : ∀ callee, s.callees k = some callee → callee.isShutDown = false →
    enqueuedAt k trace = (acceptsAt k trace).map Prod.fst ++ callee.incomingRpcs.map (rpcOf s)
  numbers : (acceptsAt k trace).map (·.2.opaqueValue) =
    (List.range (acceptsAt k trace).length).map UInt64.ofNat

section Labels

variable {k r : Nat} {trace : List (Op × Outcome)} {label : Op × Outcome}

theorem enqueuedAt_append (k : Nat) (trace : List (Op × Outcome)) (label : Op × Outcome) :
    enqueuedAt k (trace ++ [label]) = enqueuedAt k trace ++ enqueuedAt k [label] :=
  List.filterMap_append ..

theorem acceptsAt_append (k : Nat) (trace : List (Op × Outcome)) (label : Op × Outcome) :
    acceptsAt k (trace ++ [label]) = acceptsAt k trace ++ acceptsAt k [label] :=
  List.filterMap_append ..

end Labels

section Steps

variable {trace : List (Op × Outcome)} {s s' : State} {op : Op} {outcome : Outcome} {k : Nat}
  {label : Op × Outcome}

/-- A container that waits at a callee keeps its call. -/
theorem Effect.rpcOf_eq (hC : Conserved s) (h : Effect s op outcome s') {x : Nat}
    (hx : x ∈ held s (.incoming k)) : rpcOf s' x = rpcOf s x := by
  obtain ⟨d, hData⟩ := data_of_mem hC.placement hx
  obtain ⟨d', hData', hRpc, -⟩ := h.kept hC (by simp) (by simp) hx hData
  simp [rpcOf, hData, hData', hRpc]

/-- A step that neither enqueues nor accepts at this callee. -/
theorem Ordered.still (h : Ordered trace s k) (hEnqueued : enqueuedAt k [label] = [])
    (hAccepts : acceptsAt k [label] = []) (hKept : s.callees k ≠ none → s'.callees k ≠ none)
    (hCallee : ∀ b, s'.callees k = some b →
      (∃ callee, s.callees k = some callee ∧ b.seq = callee.seq ∧
        (b.isShutDown = false → callee.isShutDown = false ∧ b.incomingRpcs = callee.incomingRpcs)) ∨
      s.callees k = none ∧ b.seq = 0 ∧ b.incomingRpcs = [])
    (hRpc : ∀ x ∈ held s (.incoming k), rpcOf s' x = rpcOf s x) :
    Ordered (trace ++ [label]) s' k := by
  have hEnqueued' : enqueuedAt k (trace ++ [label]) = enqueuedAt k trace := by
    rw [enqueuedAt_append, hEnqueued, List.append_nil]
  have hAccepts' : acceptsAt k (trace ++ [label]) = acceptsAt k trace := by
    rw [acceptsAt_append, hAccepts, List.append_nil]
  refine ⟨fun hNone => ?_, fun b hb => ?_, ?_, fun b hb hOpen => ?_, ?_⟩
  · rw [hEnqueued', hAccepts']
    exact h.absent (by by_contra hSome; exact hKept hSome hNone)
  · rw [hAccepts']
    rcases hCallee b hb with ⟨callee, hOld, hSeq, -⟩ | ⟨hNone, hSeq, -⟩
    · exact hSeq.trans (h.seq callee hOld)
    · rw [hSeq, (h.absent hNone).2]
      rfl
  · rw [hEnqueued', hAccepts']
    exact h.order
  · rw [hEnqueued', hAccepts']
    rcases hCallee b hb with ⟨callee, hOld, -, hSame⟩ | ⟨hNone, -, hEmpty⟩
    · obtain ⟨hOpen', hIncoming⟩ := hSame hOpen
      rw [h.queue callee hOld hOpen', hIncoming]
      congr 1
      refine List.map_congr_left fun x hx => (hRpc x ?_).symm
      rw [held_incoming hOld]
      exact hx
    · rw [(h.absent hNone).1, (h.absent hNone).2, hEmpty]
      rfl
  · rw [hAccepts']
    exact h.numbers

theorem Ordered.same (h : Ordered trace s k) (hEnqueued : enqueuedAt k [label] = [])
    (hAccepts : acceptsAt k [label] = []) (hCallees : s'.callees = s.callees)
    (hRpc : ∀ x ∈ held s (.incoming k), rpcOf s' x = rpcOf s x) :
    Ordered (trace ++ [label]) s' k := by
  refine h.still hEnqueued hAccepts (fun hSome => hCallees ▸ hSome) (fun b hb => Or.inl ?_) hRpc
  exact ⟨b, hCallees ▸ hb, rfl, fun hOpen => ⟨hOpen, rfl⟩⟩

/-- One callee changes, but not the queue that it has while it is open. -/
theorem Ordered.update {k' : Nat} {callee callee' : UserRpcCallee} (h : Ordered trace s k)
    (hEnqueued : enqueuedAt k [label] = []) (hAccepts : acceptsAt k [label] = [])
    (hCallees : s'.callees = Function.update s.callees k' (some callee'))
    (hCallee : s.callees k' = some callee) (hSeq : callee'.seq = callee.seq)
    (hQueue : callee'.isShutDown = false →
      callee.isShutDown = false ∧ callee'.incomingRpcs = callee.incomingRpcs)
    (hRpc : ∀ x ∈ held s (.incoming k), rpcOf s' x = rpcOf s x) :
    Ordered (trace ++ [label]) s' k := by
  refine h.still hEnqueued hAccepts (fun hSome => ?_) (fun b hb => Or.inl ?_) hRpc
  · rw [hCallees]
    by_cases hEq : k = k'
    · simp [hEq]
    · rwa [Function.update_of_ne hEq]
  · rw [hCallees] at hb
    by_cases hEq : k = k'
    · subst hEq
      rw [Function.update_self] at hb
      obtain rfl := Option.some.inj hb
      exact ⟨callee, hCallee, hSeq, hQueue⟩
    · rw [Function.update_of_ne hEq] at hb
      exact ⟨b, hb, rfl, fun hOpen => ⟨hOpen, rfl⟩⟩

theorem Ordered.enqueued {id x : Nat} {callee : UserRpcCallee} {d : UserRpcContainer}
    (h : Ordered trace s k) (hCallee : s.callees k = some callee) (hData : s.containers x = some d)
    (hLive : callee.isShutDown = false)
    (hCallees : s'.callees k = some { callee with incomingRpcs := callee.incomingRpcs ++ [x] })
    (hRpc : rpcOf s' = rpcOf s) : Ordered (trace ++ [(.run id, .enqueued d.rpc k)]) s' k := by
  have hEnqueued : enqueuedAt k (trace ++ [(.run id, .enqueued d.rpc k)]) =
      enqueuedAt k trace ++ [d.rpc] := by
    rw [enqueuedAt_append]
    simp [enqueuedAt]
  have hAccepts : acceptsAt k (trace ++ [(.run id, .enqueued d.rpc k)]) = acceptsAt k trace := by
    rw [acceptsAt_append]
    simp [acceptsAt]
  refine ⟨fun hNone => ?_, fun b hb => ?_, ?_, fun b hb _ => ?_, ?_⟩
  · cases hNone.symm.trans hCallees
  · obtain rfl := Option.some.inj (hCallees.symm.trans hb)
    rw [hAccepts]
    exact h.seq callee hCallee
  · rw [hAccepts, hEnqueued]
    exact h.order.trans (List.prefix_append _ _)
  · obtain rfl := Option.some.inj (hCallees.symm.trans hb)
    have hNew : rpcOf s x = d.rpc := by simp [rpcOf, hData]
    rw [hAccepts, hEnqueued, h.queue callee hCallee hLive, hRpc, List.map_append, List.map_singleton,
      hNew, List.append_assoc]
  · rw [hAccepts]
    exact h.numbers

theorem Ordered.accepted {x : Nat} {rest : List Nat} {buffer m : UserRpcMsg}
    {callee callee' : UserRpcCallee} {d : UserRpcContainer} (h : Ordered trace s k)
    (hCallee : s.callees k = some callee) (hLive : callee.isShutDown = false)
    (hQueue : callee.incomingRpcs = x :: rest) (hData : s.containers x = some d)
    (hSeq : m.opaqueValue = callee.seq) (hCallees : s'.callees k = some callee')
    (hSeq' : callee'.seq = callee.seq + 1) (hQueue' : callee'.incomingRpcs = rest)
    (hRpc : ∀ y ∈ held s (.incoming k), rpcOf s' y = rpcOf s y) :
    Ordered (trace ++ [(.accept k buffer, .accepted d.rpc m)]) s' k := by
  have hEnqueued : enqueuedAt k (trace ++ [(.accept k buffer, .accepted d.rpc m)]) =
      enqueuedAt k trace := by
    rw [enqueuedAt_append]
    simp [enqueuedAt]
  have hAccepts : acceptsAt k (trace ++ [(.accept k buffer, .accepted d.rpc m)]) =
      acceptsAt k trace ++ [(d.rpc, m)] := by
    rw [acceptsAt_append]
    simp [acceptsAt]
  have hSplit : enqueuedAt k trace =
      ((acceptsAt k trace).map Prod.fst ++ [d.rpc]) ++ rest.map (rpcOf s) := by
    rw [h.queue callee hCallee hLive, hQueue, List.map_cons, List.append_assoc]
    simp [rpcOf, hData]
  refine ⟨fun hNone => ?_, fun b hb => ?_, ?_, fun b hb _ => ?_, ?_⟩
  · cases hNone.symm.trans hCallees
  · obtain rfl := Option.some.inj (hCallees.symm.trans hb)
    rw [hAccepts, hSeq', h.seq callee hCallee, List.length_append, UInt64.ofNat_add]
    rfl
  · rw [hAccepts, hEnqueued, hSplit, List.map_append]
    exact List.prefix_append _ _
  · obtain rfl := Option.some.inj (hCallees.symm.trans hb)
    have hRest : rest.map (rpcOf s') = rest.map (rpcOf s) := by
      refine List.map_congr_left fun y hy => hRpc y ?_
      rw [held_incoming hCallee, hQueue]
      exact List.mem_cons_of_mem x hy
    rw [hAccepts, hEnqueued, hSplit, hQueue', hRest, List.map_append]
    rfl
  · rw [hAccepts, List.map_append, h.numbers, List.length_append, List.length_singleton,
      List.range_succ, List.map_append]
    simp [hSeq, h.seq callee hCallee]

theorem Ordered.step (hC : Conserved s) (hD : ∀ k, Drained s k) (h : Ordered trace s k)
    (hStep : Transition s op outcome s') : Ordered (trace ++ [(op, outcome)]) s' k := by
  have hEffect := (hStep.effect hC).2
  have hRpc : ∀ x ∈ held s (.incoming k), rpcOf s' x = rpcOf s x := fun x => hEffect.rpcOf_eq hC
  cases hStep with
  | createCallee =>
      refine h.still rfl rfl (fun hSome => ?_) (fun b hb => ?_) hRpc
      · by_cases hEq : k = s.calleesCount
        · simp [hEq, State.setCallee]
        · simpa [State.setCallee, Function.update_of_ne hEq] using hSome
      · by_cases hEq : k = s.calleesCount
        · subst hEq
          simp only [State.setCallee, Function.update_self, Option.some.injEq] at hb
          subst hb
          exact Or.inr ⟨hC.allocated.callees _ (Nat.le_refl _), rfl, rfl⟩
        · simp only [State.setCallee, Function.update_of_ne hEq] at hb
          exact Or.inl ⟨b, hb, rfl, fun hOpen => ⟨hOpen, rfl⟩⟩
  | @enqueued id c k' x callee d hRun hCallee hContainer hLive =>
      by_cases hEq : k = k'
      · subst hEq
        exact h.enqueued hCallee hContainer hLive (Function.update_self ..) rfl
      · refine h.still ?_ rfl (fun hSome => ?_) (fun b hb => Or.inl ⟨b, ?_, rfl, fun hOpen => ⟨hOpen, rfl⟩⟩)
          hRpc
        · simp [enqueuedAt, Ne.symm hEq]
        · simpa [State.setCallee, State.setRunning, Function.update_of_ne hEq] using hSome
        · simpa [State.setCallee, State.setRunning, Function.update_of_ne hEq] using hb
  | @accepted k' x msg callee d rest hCallee hLive hQueue hContainer =>
      by_cases hEq : k = k'
      · subst hEq
        exact h.accepted hCallee hLive hQueue hContainer rfl (Function.update_self ..) rfl rfl hRpc
      · refine h.still rfl ?_ (fun hSome => ?_) (fun b hb => Or.inl ⟨b, ?_, rfl, fun hOpen => ⟨hOpen, rfl⟩⟩)
          hRpc
        · simp [acceptsAt, Ne.symm hEq]
        · simpa [State.setCallee, State.setContainer, Function.update_of_ne hEq] using hSome
        · simpa [State.setCallee, State.setContainer, Function.update_of_ne hEq] using hb
  | returned hCallee hLive =>
      exact h.update rfl rfl rfl hCallee rfl (fun _ => ⟨hLive, rfl⟩) hRpc
  | calleeShutDown hCallee hLive => exact h.update rfl rfl rfl hCallee rfl (by rintro ⟨⟩) hRpc
  | @incomingAborted id k' x callee d rest hRun hCallee hQueue =>
      have hShut := (hD k').shut id _ callee (draining_of_running hRun) hCallee
      refine h.update rfl rfl rfl hCallee rfl (fun hOpen => ?_) hRpc
      cases hOpen.symm.trans hShut
  | awaitingAborted hRun hCallee =>
      exact h.update rfl rfl rfl hCallee rfl (fun hOpen => ⟨hOpen, rfl⟩) hRpc
  | failed => exact h.same rfl (by cases op <;> rfl) rfl hRpc
  | createCaller | rejected | prepared | refused | undelivered | replied | dropped
  | droppedLast | replyFreed | callerFreed | result | incomingDrained | bucketDrained | calleeDrained
  | callerShutDown | containerFreed | containersFreed => exact h.same rfl rfl rfl hRpc

theorem Ordered.run (run : system.Execution trace s) (k : Nat) : Ordered trace s k := by
  refine run.invariant (P := fun trace s => Ordered trace s k) (fun s hs => ?_)
    fun trace s label s' prior h hStep => ?_
  · obtain rfl := hs
    exact ⟨fun _ => ⟨rfl, rfl⟩, by rintro _ ⟨⟩, List.nil_prefix, by rintro _ ⟨⟩, rfl⟩
  · exact h.step (Conserved.run prior) (Drained.run prior) (exec_transition hStep)

end Steps

section Answers

variable {r : Nat} {call : Call} {events : List (Op × Outcome)} {stage : Stage}

def Stage.answer : Stage → Option Answer
  | .answered answer | .delivered answer | .finished answer => some answer
  | _ => none

theorem Course.accepted_mem (h : Course r call events stage) {op : Op} {r' : Nat} {m : UserRpcMsg}
    (hMem : (op, .accepted r' m) ∈ events) :
    (∃ buffer, op = .accept call.callee buffer) ∧ r' = r ∧ Matches m call.msg := by
  induction h with
  | prepared => simp at hMem
  | accepted buffer m' _ hRequest ih =>
      simp only [List.mem_append, List.mem_singleton, Prod.mk.injEq, Outcome.accepted.injEq] at hMem
      rcases hMem with hOld | ⟨rfl, rfl, rfl⟩
      · exact ih hOld
      · exact ⟨⟨buffer, rfl⟩, rfl, hRequest⟩
  | undelivered _ _ ih | enqueued _ _ ih | returned _ _ ih | aborted _ _ ih
  | abortedLate _ _ ih | replied _ _ ih | result _ _ _ _ _ ih =>
      simp only [List.mem_append, List.mem_singleton, Prod.mk.injEq, reduceCtorEq, and_false,
        or_false] at hMem
      exact ih hMem

/-- A call that awaits its reply was accepted, under the number that it waits with. -/
theorem Course.exists_accepted {seq : UInt64} (h : Course r call events (.awaiting seq)) :
    ∃ buffer m, (.accept call.callee buffer, .accepted r m) ∈ events ∧ m.opaqueValue = seq := by
  cases h with
  | accepted buffer m =>
      exact ⟨buffer, m, List.mem_append_right _ (List.mem_singleton_self _), rfl⟩

/-- A return answers the call, and it is the only one that does. -/
theorem Course.returned_mem (h : Course r call events stage) {op : Op} {r' : Nat}
    (hMem : (op, .returned r') ∈ events) :
    ∃ msg, op = .returnRpc call.callee msg ∧ stage.answer = some (.reply msg) ∧
      ∃ buffer m, (.accept call.callee buffer, .accepted r m) ∈ events ∧
        m.opaqueValue = msg.opaqueValue := by
  induction h with
  | prepared => simp at hMem
  | @returned events msg hBefore ih =>
      obtain ⟨buffer, m, hAccepted, hSeq⟩ := hBefore.exists_accepted
      simp only [List.mem_append, List.mem_singleton, Prod.mk.injEq] at hMem
      rcases hMem with hOld | ⟨rfl, -⟩
      · obtain ⟨_, -, hNone, -⟩ := ih hOld
        cases hNone
      · exact ⟨msg, rfl, rfl, buffer, m, List.mem_append_left _ hAccepted, hSeq⟩
  | undelivered _ _ ih | enqueued _ _ ih | accepted _ _ _ _ ih | aborted _ _ ih
  | abortedLate _ _ ih =>
      simp only [List.mem_append, List.mem_singleton, Prod.mk.injEq, reduceCtorEq, and_false,
        or_false] at hMem
      obtain ⟨_, -, hNone, -⟩ := ih hMem
      cases hNone
  | replied _ _ ih | result _ _ _ _ _ ih =>
      simp only [List.mem_append, List.mem_singleton, Prod.mk.injEq, reduceCtorEq, and_false,
        or_false] at hMem
      obtain ⟨msg, hOp, hAnswer, buffer, m, hAccepted, hSeq⟩ := ih hMem
      exact ⟨msg, hOp, hAnswer, buffer, m, List.mem_append_left _ hAccepted, hSeq⟩

/-- The answer of a call comes from a return, or from a shutdown. -/
theorem Course.exists_answer (h : Course r call events stage) {answer : Answer}
    (hAnswer : stage.answer = some answer) :
    match answer with
    | .reply msg => (.returnRpc call.callee msg, .returned r) ∈ events
    | .noReply => ∃ id, (.run id, .aborted r) ∈ events := by
  induction h with
  | prepared | undelivered | enqueued | accepted => cases hAnswer
  | returned =>
      obtain rfl := Option.some.inj hAnswer
      exact List.mem_append_right _ (List.mem_singleton_self _)
  | aborted id | abortedLate id =>
      obtain rfl := Option.some.inj hAnswer
      exact ⟨id, List.mem_append_right _ (List.mem_singleton_self _)⟩
  | replied _ _ ih | result _ _ _ _ _ ih =>
      have hOld := ih hAnswer
      cases answer with
      | reply msg => exact List.mem_append_left _ hOld
      | noReply => exact hOld.imp fun id hMem => List.mem_append_left _ hMem

theorem Course.returnsOf_eq (h : Course r call events stage) :
    returnsOf r events = match stage.answer with
      | some (.reply msg) => [msg]
      | _ => [] := by
  induction h with
  | prepared | undelivered | enqueued | accepted | returned | aborted | abortedLate | replied | result =>
      simp_all [returnsOf, Stage.answer]

theorem Course.result_mem (h : Course r call events stage) {op : Op} {r' : Nat} {m : UserRpcMsg}
    (hMem : (op, .result r' m) ∈ events) :
    (∃ buffer, op = .getResult call.caller buffer) ∧ m.opaqueValue = call.msg.opaqueValue ∧
      ∃ answer, stage.answer = some answer ∧ answer.Matches m := by
  induction h with
  | prepared => simp at hMem
  | @result events buffer m' answer _ hOpaque hAnswer ih =>
      simp only [List.mem_append, List.mem_singleton, Prod.mk.injEq, Outcome.result.injEq] at hMem
      rcases hMem with hOld | ⟨rfl, -, rfl⟩
      · obtain ⟨hOp, hOpaque', answer', hEq, hMatches⟩ := ih hOld
        exact ⟨hOp, hOpaque', answer', hEq, hMatches⟩
      · exact ⟨⟨buffer, rfl⟩, hOpaque, answer, rfl, hAnswer⟩
  | undelivered _ _ ih | enqueued _ _ ih | accepted _ _ _ _ ih | returned _ _ ih | aborted _ _ ih
  | abortedLate _ _ ih =>
      simp only [List.mem_append, List.mem_singleton, Prod.mk.injEq, reduceCtorEq, and_false,
        or_false] at hMem
      obtain ⟨-, -, _, hNone, -⟩ := ih hMem
      cases hNone
  | replied _ _ ih =>
      simp only [List.mem_append, List.mem_singleton, Prod.mk.injEq, reduceCtorEq, and_false,
        or_false] at hMem
      exact ih hMem

end Answers

section Correlation

variable {trace : List (Op × Outcome)} {s : State} {r k : Nat}

theorem returnsOf_story (r : Nat) (trace : List (Op × Outcome)) :
    returnsOf r (story r trace) = returnsOf r trace := by
  rw [returnsOf, story, List.filterMap_filter, returnsOf]
  congr 1
  funext label
  obtain ⟨op, outcome⟩ := label
  cases outcome <;> cases op <;> simp [Outcome.rpc]

theorem mem_acceptsAt {buffer m : UserRpcMsg}
    (h : (Op.accept k buffer, Outcome.accepted r m) ∈ trace) : (r, m) ∈ acceptsAt k trace :=
  List.mem_filterMap.mpr ⟨_, h, by simp⟩

theorem acceptsAt_length_lt (k : Nat) (_ : system.Execution trace s) (h : trace.length < 2 ^ 64) :
    (acceptsAt k trace).length < 2 ^ 64 :=
  Nat.lt_of_le_of_lt (List.length_filterMap_le _ _) h

theorem Course.began {call : Call} {stage : Stage} (h : Course r call (story r trace) stage) :
    Began trace r call.caller call.callee call.msg := by
  obtain ⟨heap, hMem⟩ := h.exists_prepared
  exact ⟨⟨heap, mem_of_mem_story hMem⟩, fun op hOp => h.prepared_mem (mem_story hOp rfl)⟩

/-- Fewer accepts than numbers: no number is given out twice. -/
theorem Ordered.nodup (h : Ordered trace s k) (hBound : (acceptsAt k trace).length < 2 ^ 64) :
    ((acceptsAt k trace).map (·.2.opaqueValue)).Nodup := by
  rw [h.numbers]
  refine List.Nodup.map_on (fun i hi j hj hEq => ?_) List.nodup_range
  have hi' := List.mem_range.mp hi
  have hj' := List.mem_range.mp hj
  have hNat := congrArg UInt64.toNat hEq
  rwa [UInt64.toNat_ofNat', UInt64.toNat_ofNat', Nat.mod_eq_of_lt (by omega),
    Nat.mod_eq_of_lt (by omega)] at hNat

/-- Two accepted calls with one number are one call. -/
theorem Ordered.same_call (h : Ordered trace s k) (hBound : (acceptsAt k trace).length < 2 ^ 64)
    {r' : Nat} {buffer buffer' m m' : UserRpcMsg}
    (hMem : (Op.accept k buffer, Outcome.accepted r m) ∈ trace)
    (hMem' : (Op.accept k buffer', Outcome.accepted r' m') ∈ trace)
    (hEq : m.opaqueValue = m'.opaqueValue) : r = r' :=
  congrArg Prod.fst
    (List.inj_on_of_nodup_map (h.nodup hBound) (mem_acceptsAt hMem) (mem_acceptsAt hMem') hEq)

/-- A container that awaits its reply was accepted under the number in its intmap node. -/
theorem Ledger.awaiting (h : Ledger trace s) (hP : Placement (held s) (live s)) {x : Nat}
    {d : UserRpcContainer} (hx : x ∈ held s (.awaiting k)) (hData : s.containers x = some d) :
    (∃ buffer m, (Op.accept k buffer, Outcome.accepted d.rpc m) ∈ trace ∧ m.opaqueValue = d.key) ∧
      ∀ y p e, Carried s d.rpc y p e → y = x := by
  obtain ⟨call, stage, hCourse, hFits, -, -, hOnly⟩ :=
    (h.account d.rpc).of_carried hP ⟨hx, hData, rfl, by simp⟩
  refine ⟨?_, hOnly⟩
  cases hFits with
  | awaiting =>
      obtain ⟨buffer, m, hMem, hSeq⟩ := hCourse.exists_accepted
      exact ⟨buffer, m, mem_of_mem_story hMem, hSeq⟩

/-- As long as no callee has accepted 2^64 calls: a callee hands out its requests in the
order in which they were enqueued, each with the contents of its initiate, under numbers
that all differ, also among the calls that await their reply. Every result that a client
gets has the client's own opaque value of that call; its contents are those of the one
return that was made with the number that the call was accepted under, or, if the call was
never returned but aborted by a shutdown, length 0 and `USER_RPC_STATUS_NOREPLY`. -/
theorem rpc_correlation (run : system.Execution trace s)
    (hBound : ∀ k, (acceptsAt k trace).length < 2 ^ 64) :
    (∀ k, (acceptsAt k trace).map Prod.fst <+: enqueuedAt k trace ∧
      ((acceptsAt k trace).map (·.2.opaqueValue)).Nodup ∧
      ∀ x ∈ held s (.awaiting k), ∀ y ∈ held s (.awaiting k), s.key x = s.key y → x = y) ∧
    (∀ k buffer r m, (Op.accept k buffer, Outcome.accepted r m) ∈ trace →
      ∃ c msg, Began trace r c k msg ∧ Matches m msg) ∧
    ∀ c buffer r m, (Op.getResult c buffer, Outcome.result r m) ∈ trace →
      ∃ k msg, Began trace r c k msg ∧ m.opaqueValue = msg.opaqueValue ∧
        ((∃ answer buffer' request, returnsOf r trace = [answer] ∧ Matches m answer ∧
            (Op.returnRpc k answer, Outcome.returned r) ∈ trace ∧
            (Op.accept k buffer', Outcome.accepted r request) ∈ trace ∧
            answer.opaqueValue = request.opaqueValue ∧
            ∀ answer' r', (Op.returnRpc k answer', Outcome.returned r') ∈ trace →
              answer'.opaqueValue = request.opaqueValue → r' = r) ∨
          (returnsOf r trace = [] ∧ (∃ id, (Op.run id, Outcome.aborted r) ∈ trace) ∧
            m.len = 0 ∧ m.status = userRpcStatusNoreply)) := by
  have hP := (Conserved.run run).placement
  have hLedger := Ledger.run run
  have hCourse : ∀ label r, label ∈ trace → label.2.rpc = some r →
      ∃ call stage, Course r call (story r trace) stage := fun label r hMem hLabel =>
    (hLedger.account r).course (List.ne_nil_of_mem (mem_story hMem hLabel))
  refine ⟨fun k => ⟨(Ordered.run run k).order, (Ordered.run run k).nodup (hBound k), ?_⟩, ?_, ?_⟩
  · intro x hx y hy hKey
    obtain ⟨d, hData⟩ := data_of_mem hP hx
    obtain ⟨e, hData'⟩ := data_of_mem hP hy
    obtain ⟨⟨_, m, hMem, hSeq⟩, -⟩ := hLedger.awaiting hP hx hData
    obtain ⟨⟨_, m', hMem', hSeq'⟩, hOnly⟩ := hLedger.awaiting hP hy hData'
    simp only [State.key, hData, hData', Option.map_some, Option.getD_some] at hKey
    have hSame := (Ordered.run run k).same_call (hBound k) hMem hMem' (by rw [hSeq, hSeq', hKey])
    exact hOnly x _ d ⟨hx, hData, hSame, by simp⟩
  · intro k buffer r m hMem
    obtain ⟨call, stage, hCourse⟩ := hCourse _ r hMem rfl
    obtain ⟨⟨_, hOp⟩, -, hMatches⟩ := hCourse.accepted_mem (mem_story hMem rfl)
    obtain ⟨rfl, -⟩ := Op.accept.inj hOp
    exact ⟨call.caller, call.msg, hCourse.began, hMatches⟩
  · intro c buffer r m hMem
    obtain ⟨call, stage, hLife⟩ := hCourse _ r hMem rfl
    obtain ⟨⟨_, hOp⟩, hOpaque, answer, hAnswer, hMatches⟩ := hLife.result_mem (mem_story hMem rfl)
    obtain ⟨rfl, -⟩ := Op.getResult.inj hOp
    refine ⟨call.callee, call.msg, hLife.began, hOpaque, ?_⟩
    have hReturns := hLife.returnsOf_eq
    rw [returnsOf_story, hAnswer] at hReturns
    have hWhence := hLife.exists_answer hAnswer
    cases answer with
    | reply msg =>
        obtain ⟨_, hOp, -, buffer', request, hAccepted, hSeq⟩ := hLife.returned_mem hWhence
        obtain ⟨-, rfl⟩ := Op.returnRpc.inj hOp
        refine Or.inl ⟨msg, buffer', request, hReturns, hMatches, mem_of_mem_story hWhence,
          mem_of_mem_story hAccepted, hSeq.symm, fun answer' r' hMem' hEq => ?_⟩
        obtain ⟨call', stage', hLife'⟩ := hCourse _ r' hMem' rfl
        obtain ⟨_, hOp, -, _, request', hAccepted', hSeq'⟩ := hLife'.returned_mem (mem_story hMem' rfl)
        obtain ⟨hCallee, rfl⟩ := Op.returnRpc.inj hOp
        rw [← hCallee] at hAccepted'
        exact (Ordered.run run _).same_call (hBound _) (mem_of_mem_story hAccepted')
          (mem_of_mem_story hAccepted) (hSeq'.trans hEq)
    | noReply =>
        obtain ⟨id, hAborted⟩ := hWhence
        exact Or.inr ⟨hReturns, ⟨id, mem_of_mem_story hAborted⟩, hMatches⟩

/-- One call is returned with status 9 and another one is aborted: the first result is
the answer, the second one says that there was no reply. -/
theorem rpc_correlation_return_and_shutdown :
    ∃ trace s, ∃ first second : UserRpcMsg, system.Execution trace s ∧
      (∀ k, (acceptsAt k trace).length < 2 ^ 64) ∧ first.status = 9 ∧ second.status = 0 ∧
      (∃ k msg, Began trace 0 0 k msg ∧ first.opaqueValue = msg.opaqueValue) ∧
      ∃ k msg, Began trace 2 0 k msg ∧ second.opaqueValue = msg.opaqueValue := by
  let msg (value : UInt64) (status : UInt32) : UserRpcMsg := ⟨value, status, 1, fun _ => 4⟩
  let junk : UserRpcContainer := ⟨msg 0 0, 0, 0, 0, 0, 0⟩
  have run : system.Execution _ _ := System.Execution.of_replay
    [.createCaller, .createCallee 1, .initiate 0 0 (msg 7 1) (some (5, junk)), .run 0,
      .accept 0 (msg 0 0), .returnRpc 0 (msg 0 9), .run 1, .run 1,
      .initiate 0 0 (msg 8 2) (some (6, junk)), .run 2, .shutdownCallee 0, .run 3, .run 3, .run 3,
      .getResult 0 (msg 0 0), .getResult 0 (msg 0 0)] rfl
  have hBound := fun k => acceptsAt_length_lt k run (by decide)
  have hResults := (rpc_correlation run hBound).2.2
  obtain ⟨k, request, hBegan, hOpaque, -⟩ :=
    hResults 0 (msg 0 0) 0 _ (List.mem_of_getElem? (i := 14) rfl)
  obtain ⟨k', request', hBegan', hOpaque', -⟩ :=
    hResults 0 (msg 0 0) 2 _ (List.mem_of_getElem? (i := 15) rfl)
  exact ⟨_, _, _, _, run, hBound, rfl, rfl, ⟨k, request, hBegan, hOpaque⟩, k', request', hBegan',
    hOpaque'⟩

end Correlation

end Ricerca.Rpc
