import Ricerca.User.RpcReclaim

/-! The memory of callers and containers, as the heap sees it. -/
namespace Ricerca.Rpc

open Ricerca.Foundation Ricerca.Cookie Ricerca.Lib

/-- What `user/rpc.c` gets from the heap for callers. -/
inductive Memory where
  | caller (c : Nat)
  | container (x : Nat)
  deriving DecidableEq

inductive HeapCall where
  | alloc (m : Memory)
  | free (m : Memory)
  deriving DecidableEq

def allocated (s : State) : Memory → Bool
  | .caller c => (s.callers c).isSome
  | .container x => (s.containers x).isSome

/-- The memory that `user_rpc_dealloc_caller` frees next. -/
def nextReply (c : Nat) (caller : UserRpcCaller) : Memory :=
  match caller.incomingReplies with
  | x :: _ => .container x
  | [] => .caller c

/-- The calls of `mem_heap_alloc` that succeed, and of `mem_heap_free`, in a step. -/
def heapCalls (s : State) : Op × Outcome → List HeapCall
  | (.createCaller, _) => [.alloc (.caller s.callersCount)]
  | (.initiate c _ _ heap, _) =>
      match s.callers c, heap with
      | some caller, some (x, _) =>
          if caller.freeContainers = [] then [.alloc (.container x)] else []
      | _, _ => []
  | (.run id, _) =>
      match s.running id with
      | some (.freeingReplies c _) =>
          (s.callers c).toList.map fun caller => .free (nextReply c caller)
      | some (.freeingContainers c) =>
          match s.callers c with
          | some caller => (caller.freeContainers.head?).toList.map (.free <| .container ·)
          | none => []
      | _ => []
  | _ => []

section Allocation

variable {s s' : State} {op : Op} {outcome : Outcome}

@[simp]
theorem allocated_setRunning (s : State) (id : Nat) (r : Option Running) :
    allocated (s.setRunning id r) = allocated s := by
  funext m
  cases m <;> rfl

@[simp]
theorem allocated_start (s : State) (r : Running) : allocated (s.start r) = allocated s := by
  funext m
  cases m <;> rfl

@[simp]
theorem allocated_setCallee (s : State) (k : Nat) (callee : UserRpcCallee) :
    allocated (s.setCallee k callee) = allocated s := by
  funext m
  cases m <;> rfl

theorem allocated_setCaller (s : State) (c : Nat) (a : Option UserRpcCaller) :
    allocated (s.setCaller c a) = Function.update (allocated s) (.caller c) a.isSome := by
  funext m
  cases m with
  | caller c' =>
      by_cases hEq : c' = c
      · subst hEq
        simp [allocated, State.setCaller]
      · simp [allocated, State.setCaller, hEq]
  | container x => rfl

theorem allocated_setContainer (s : State) (x : Nat) (d : Option UserRpcContainer) :
    allocated (s.setContainer x d) = Function.update (allocated s) (.container x) d.isSome := by
  funext m
  cases m with
  | caller c => rfl
  | container y =>
      by_cases hEq : y = x
      · subst hEq
        simp [allocated, State.setContainer]
      · simp [allocated, State.setContainer, hEq]

theorem allocated_sameCaller {c : Nat} {a b : UserRpcCaller} (hCaller : s.callers c = some a) :
    allocated (s.setCaller c (some b)) = allocated s := by
  rw [allocated_setCaller]
  apply Function.update_eq_self_iff.mpr
  simp [allocated, hCaller]

theorem allocated_sameContainer {x : Nat} {d e : UserRpcContainer}
    (hData : s.containers x = some d) : allocated (s.setContainer x (some e)) = allocated s := by
  rw [allocated_setContainer]
  apply Function.update_eq_self_iff.mpr
  simp [allocated, hData]

/-- The calls of a step fit to what it does to the memory. -/
def Balanced (calls : List HeapCall) (s s' : State) : Prop :=
  ∀ m, calls.count (.alloc m) + (allocated s m).toNat =
    calls.count (.free m) + (allocated s' m).toNat

theorem Balanced.nil (h : allocated s' = allocated s) : Balanced [] s s' := by
  intro m
  simp [h]

theorem Balanced.alloc {m : Memory} (hNew : allocated s m = false)
    (h : allocated s' = Function.update (allocated s) m true) : Balanced [.alloc m] s s' := by
  intro m'
  rw [h]
  by_cases hEq : m' = m
  · subst hEq
    simp [hNew]
  · have hOther : HeapCall.alloc m ≠ .alloc m' := fun hSame => hEq (HeapCall.alloc.inj hSame).symm
    simp [Function.update_of_ne hEq, hOther]

theorem Balanced.free {m : Memory} (hOld : allocated s m = true)
    (h : allocated s' = Function.update (allocated s) m false) : Balanced [.free m] s s' := by
  intro m'
  rw [h]
  by_cases hEq : m' = m
  · subst hEq
    simp [hOld]
  · have hOther : HeapCall.free m ≠ .free m' := fun hSame => hEq (HeapCall.free.inj hSame).symm
    simp [Function.update_of_ne hEq, hOther]

theorem fillContainer_allocated {c : Nat} {caller : UserRpcCaller} (k x : Nat)
    (caller' : UserRpcCaller) (container : UserRpcContainer) (msg : UserRpcMsg) (hCaller : s.callers c = some caller) :
    allocated (fillContainer s c k caller' x container msg).2 =
      Function.update (allocated s) (.container x) true := by
  have hFilled : ∀ d b, allocated ((s.setContainer x (some d)).setCaller c (some b)) =
      Function.update (allocated s) (.container x) true := by
    intro d b
    rw [allocated_sameCaller (s := s.setContainer x (some d)) hCaller, allocated_setContainer]
    rfl
  simp only [fillContainer]
  split
  · exact hFilled _ _
  · rw [allocated_start]
    exact hFilled _ _

theorem heapCalls_initiate {c k : Nat} {caller : UserRpcCaller} {msg : UserRpcMsg}
    {heap : Option (Nat × UserRpcContainer)} (hCaller : s.callers c = some caller)
    (h : userRpcInitiate s c k caller msg heap = some (outcome, s')) :
    Balanced (heapCalls s (.initiate c k msg heap, outcome)) s s' := by
  simp only [userRpcInitiate] at h
  split at h
  · rename_i x rest hFree
    obtain ⟨d, hData, hFill⟩ := Option.map_eq_some_iff.mp h
    have hCalls : heapCalls s (.initiate c k msg heap, outcome) = [] := by
      simp only [heapCalls, hCaller]
      split <;> simp_all
    rw [hCalls]
    apply Balanced.nil
    have hSame := fillContainer_allocated k x { caller with freeContainers := rest } d msg hCaller
    rw [hFill] at hSame
    rw [hSame]
    apply Function.update_eq_self_iff.mpr
    simp [allocated, hData]
  · rename_i hFree
    split at h
    · obtain ⟨-, rfl⟩ := Prod.mk.inj (Option.some.inj h)
      simp only [heapCalls, hCaller]
      exact .nil rfl
    · rename_i x junk
      split_ifs at h with hUsed
      have hSame := fillContainer_allocated k x caller { junk with owner := c } msg hCaller
      rw [Option.some.inj h] at hSame
      simp only [heapCalls, hCaller, hFree, if_true]
      exact .alloc (by simpa [allocated] using hUsed) hSame

/-- Only operations that free something change what is allocated. -/
theorem Transition.allocated_run {id : Nat} (h : Transition s (.run id) outcome s')
    (hReplies : ∀ c after, s.running id ≠ some (.freeingReplies c after))
    (hContainers : ∀ c, s.running id ≠ some (.freeingContainers c)) :
    allocated s' = allocated s := by
  cases h with
  | failed => rfl
  | refused | incomingDrained | bucketDrained | calleeDrained | containersFreed =>
      exact allocated_setRunning ..
  | enqueued => rw [allocated_setRunning, allocated_setCallee]
  | undelivered _ hCaller | replied _ _ hCaller | dropped _ hCaller | droppedLast _ hCaller =>
      rw [allocated_setRunning, allocated_sameCaller hCaller]
  | replyFreed hRun | callerFreed hRun => exact (hReplies _ _ hRun).elim
  | incomingAborted _ _ _ hData | awaitingAborted _ _ _ _ hData =>
      rw [allocated_setRunning, allocated_setCallee, allocated_sameContainer hData]
  | containerFreed hRun => exact (hContainers _ hRun).elim

theorem heapCalls_run {id : Nat} {r : Running} (hC : Conserved s) (hRun : s.running id = some r)
    (h : step s id r = some (outcome, s')) : Balanced (heapCalls s (.run id, outcome)) s s' := by
  have hP := hC.placement
  cases r with
  | freeingReplies c after =>
      simp only [step, Option.bind_eq_bind, Option.bind_eq_some_iff] at h
      obtain ⟨caller, hCaller, hResult⟩ := h
      simp only [heapCalls, hRun, hCaller, Option.toList_some, List.map_cons, List.map_nil]
      split at hResult
      · rename_i x rest hQueue
        obtain ⟨-, rfl⟩ := Prod.mk.inj (Option.some.inj hResult)
        have hNext : nextReply c caller = .container x := by simp [nextReply, hQueue]
        rw [hNext]
        have hx : x ∈ held s (.replies c) := by
          rw [held_replies hCaller, hQueue]
          exact List.mem_cons_self ..
        obtain ⟨d, hData⟩ := data_of_mem hP hx
        apply Balanced.free
        · simp [allocated, hData]
        · rw [allocated_setContainer, allocated_sameCaller hCaller]
          rfl
      · rename_i hQueue
        obtain ⟨-, rfl⟩ := Prod.mk.inj (Option.some.inj hResult)
        have hNext : nextReply c caller = .caller c := by simp [nextReply, hQueue]
        rw [hNext]
        apply Balanced.free
        · simp [allocated, hCaller]
        · rw [allocated_setRunning, allocated_setCaller]
          rfl
  | freeingContainers c =>
      simp only [step, Option.bind_eq_bind, Option.bind_eq_some_iff] at h
      obtain ⟨caller, hCaller, hResult⟩ := h
      simp only [heapCalls, hRun, hCaller]
      split at hResult
      · rename_i x rest hQueue
        obtain ⟨-, rfl⟩ := Prod.mk.inj (Option.some.inj hResult)
        have hx : x ∈ held s (.free c) := by
          rw [held_free hCaller, hQueue]
          exact List.mem_cons_self ..
        obtain ⟨d, hData⟩ := data_of_mem hP hx
        rw [hQueue]
        apply Balanced.free
        · simp [allocated, hData]
        · rw [allocated_setContainer, allocated_sameCaller hCaller]
          rfl
      · rename_i hQueue
        obtain ⟨-, rfl⟩ := Prod.mk.inj (Option.some.inj hResult)
        rw [hQueue]
        exact .nil (allocated_setRunning ..)
  | initiating | unreachable | replying | droppingCaller | drainingIncoming | drainingAwaiting =>
      simp only [heapCalls, hRun]
      exact .nil ((step_transition hRun h).allocated_run (by simp [hRun]) (by simp [hRun]))

/-- Calls on an open object change no memory of a caller. -/
theorem Transition.allocated_call (h : Transition s op outcome s')
    (hCreate : op ≠ .createCaller) (hInitiate : ∀ c k msg heap, op ≠ .initiate c k msg heap)
    (hRun : ∀ id, op ≠ .run id) : allocated s' = allocated s := by
  cases h with
  | failed => rfl
  | createCaller => exact (hCreate rfl).elim
  | createCallee =>
      funext m
      cases m <;> rfl
  | rejected | prepared => exact (hInitiate _ _ _ _ rfl).elim
  | accepted _ _ _ hData => rw [allocated_setCallee, allocated_sameContainer hData]
  | returned _ _ _ hData =>
      rw [allocated_start, allocated_setCallee, allocated_sameContainer hData]
  | result hCaller => exact allocated_sameCaller hCaller
  | calleeShutDown => rw [allocated_start, allocated_setCallee]
  | callerShutDown hCaller => rw [allocated_start, allocated_sameCaller hCaller]
  | refused | enqueued | undelivered | replied | dropped | droppedLast | replyFreed | callerFreed
  | incomingAborted | incomingDrained | awaitingAborted | bucketDrained | calleeDrained
  | containerFreed | containersFreed => exact (hRun _ rfl).elim

theorem heapCalls_balanced (hC : Conserved s) (h : exec s op = some (outcome, s')) :
    Balanced (heapCalls s (op, outcome)) s s' := by
  cases op with
  | createCaller =>
      obtain ⟨-, rfl⟩ := Prod.mk.inj (Option.some.inj h)
      apply Balanced.alloc
      · simp [allocated, hC.allocated.callers s.callersCount (Nat.le_refl _)]
      · exact allocated_setCaller s s.callersCount (some ⟨1, [], [], false⟩)
  | initiate c k msg heap =>
      simp only [exec, Option.bind_eq_bind, Option.bind_eq_some_iff] at h
      obtain ⟨caller, hCaller, callee, hCallee, hResult⟩ := h
      split_ifs at hResult
      exact heapCalls_initiate hCaller hResult
  | run id =>
      simp only [exec, Option.bind_eq_bind, Option.bind_eq_some_iff] at h
      obtain ⟨r, hRun, hResult⟩ := h
      exact heapCalls_run hC hRun hResult
  | createCallee | accept | returnRpc | getResult | shutdownCallee | shutdownCaller =>
      exact .nil ((exec_transition h).allocated_call (by simp) (by simp) (by simp))

end Allocation

/-- The containers of a caller that are in a structure of a callee or local to a running
operation. -/
def travelling (s : State) (c : Nat) : Set Nat := {x | Token.container x ∈ owing s c}

/-- The operations that have queued the reply in a container, or have emptied the pool in
the caller's shutdown, and are about to drop their reference to the caller. -/
def dropping (s : State) (c : Nat) : Set Nat := {id | role s id = some (.drops c)}

open Classical in
/-- One until the shutdown of the caller has freed the containers in the pool. -/
noncomputable def handle (s : State) (c : Nat) : Nat := if Token.handle ∈ owing s c then 1 else 0

/-- Nothing refers to the caller any more: it was shut down and has no request in flight. -/
def Unused (s : State) (c : Nat) : Prop := c < s.callersCount ∧ owing s c = ∅

/-- The caller and all its containers were freed. -/
def Freed (s : State) (c : Nat) : Prop :=
  s.callers c = none ∧ ∀ x d, s.containers x = some d → d.owner ≠ c

/-- The contract of `dealloc_rc_base`: it counts what refers to the caller, memory is
freed once, not before the caller is unused, and then by the operation that made it
unused, without waiting for another one. -/
structure CallerContract (s : State) (log : List HeapCall) (c : Nat) : Prop where
  counted : ∀ caller, s.callers c = some caller → (owing s c).Finite ∧
    caller.deallocRefcount = handle s c + (travelling s c).ncard + (dropping s c).ncard
  once : ∀ m, log.count (.alloc m) = log.count (.free m) + (allocated s m).toNat
  onceCaller : log.count (.free (.caller c)) ≤ 1
  late : c < s.callersCount → s.callers c = none → Unused s c ∧ Freed s c
  prompt : Unused s c → Freed s c ∨ ∃ id n trace s', System.replay exec s
    (List.replicate n (.run id)) = some (trace, s') ∧ role s id = some (.frees c) ∧ Freed s' c

section Contract

variable {s s' : State} {op : Op} {outcome : Outcome} {c : Nat} {log : List HeapCall}
  {trace : List (Op × Outcome)}

theorem ncard_owing (hFinite : (owing s c).Finite) :
    (owing s c).ncard = handle s c + (travelling s c).ncard + (dropping s c).ncard := by
  classical
  have hSplit : owing s c = ({t | t = .handle ∧ t ∈ owing s c} ∪ Token.container '' travelling s c) ∪
      Token.operation '' dropping s c := by
    ext t
    cases t with
    | handle => simp
    | container x => simp [travelling]
    | operation id =>
        have hIff : Token.operation id ∈ owing s c ↔ id ∈ dropping s c := Iff.rfl
        simp [hIff]
  have hHandle : ({t | t = .handle ∧ t ∈ owing s c} : Set Token).ncard = handle s c := by
    rw [handle]
    split_ifs with hOpen
    · have hOne : {t | t = .handle ∧ t ∈ owing s c} = {Token.handle} := by
        ext t
        simp only [Set.mem_ofPred_eq, Set.mem_singleton_iff, and_iff_left_iff_imp]
        rintro rfl
        exact hOpen
      rw [hOne, Set.ncard_singleton]
    · have hNone : {t | t = .handle ∧ t ∈ owing s c} = ∅ := by
        ext t
        simp only [Set.mem_ofPred_eq, Set.mem_empty_iff_false, iff_false]
        rintro ⟨rfl, hMem⟩
        exact hOpen hMem
      rw [hNone, Set.ncard_empty]
  have hParts := hFinite
  rw [hSplit] at hParts
  have hLeft := hParts.subset Set.subset_union_left
  have hOperations := hParts.subset Set.subset_union_right
  have hContainers := hLeft.subset Set.subset_union_right
  have hHandles := hLeft.subset Set.subset_union_left
  conv_lhs => rw [hSplit]
  rw [Set.ncard_union_eq ?_ hLeft hOperations, Set.ncard_union_eq ?_ hHandles hContainers, hHandle,
    Set.ncard_image_of_injective _ fun x y h => Token.container.inj h,
    Set.ncard_image_of_injective _ fun x y h => Token.operation.inj h]
  · rw [Set.disjoint_left]
    rintro t ⟨rfl, -⟩ ⟨x, -, hEq⟩
    cases hEq
  · rw [Set.disjoint_left]
    rintro t hMem ⟨id, -, rfl⟩
    rcases hMem with ⟨hEq, -⟩ | ⟨x, -, hEq⟩
    · cases hEq
    · cases hEq

/-- Every live container belongs to a caller that is there. -/
theorem Conserved.freed (hC : Conserved s) (hNone : s.callers c = none) : Freed s c := by
  refine ⟨hNone, fun x d hData hOwner => ?_⟩
  have hLive : live s x := by simp [live, hData]
  obtain ⟨p, hx⟩ := (hC.placement.live_iff x).mp hLive
  have hBelongs := hC.belongs p x d hx hData
  have hUnowed : ∀ t, t ∉ owing s c := fun t ht => (hC.references c).owed t ht hNone
  cases p with
  | free c' =>
      obtain rfl : c' = c := hBelongs.symm.trans hOwner
      simp [held, hNone] at hx
  | replies c' =>
      obtain rfl : c' = c := hBelongs.1.symm.trans hOwner
      simp [held, hNone] at hx
  | incoming | awaiting | operation =>
      exact hUnowed (.container x) ⟨_, d, hx, trivial, hData, hBelongs.trans hOwner⟩

theorem frees_iff {id : Nat} :
    role s id = some (.frees c) ↔ ∃ after, s.running id = some (.freeingReplies c after) := by
  rw [role]
  cases hRun : s.running id with
  | none => simp
  | some r => cases r <;> simp [Running.role]

/-- The operation that frees a caller needs one step for each reply, and one more. -/
theorem replay_frees {id : Nat} {after : After} {a : UserRpcCaller} {replies : List Nat}
    (hRun : s.running id = some (.freeingReplies c after)) (hCaller : s.callers c = some a)
    (hReplies : a.incomingReplies = replies) :
    ∃ trace s', System.replay exec s (List.replicate (replies.length + 1) (.run id)) =
      some (trace, s') ∧ s'.callers c = none := by
  induction replies generalizing s a with
  | nil =>
      have hStep : exec s (.run id) =
          some (.proceeded, (s.setCaller c none).setRunning id after.next) := by
        simp [exec, hRun, step, hCaller, hReplies]
      refine ⟨[(.run id, .proceeded)], (s.setCaller c none).setRunning id after.next, ?_,
        Function.update_self ..⟩
      rw [List.length_nil, List.replicate_succ, System.replay, hStep]
      rfl
  | cons x rest ih =>
      have hStep : exec s (.run id) = some (.proceeded,
          (s.setCaller c (some { a with incomingReplies := rest })).setContainer x none) := by
        simp [exec, hRun, step, hCaller, hReplies]
      obtain ⟨trace, s', hReplay, hNone⟩ := ih
        (s := (s.setCaller c (some { a with incomingReplies := rest })).setContainer x none)
        (a := { a with incomingReplies := rest }) hRun (Function.update_self ..) rfl
      refine ⟨(.run id, .proceeded) :: trace, s', ?_, hNone⟩
      rw [List.length_cons, List.replicate_succ, System.replay, hStep]
      simp only [hReplay, Option.map_some]

theorem Transition.callersCount_eq (h : Transition s op outcome s') (hOther : op ≠ .createCaller) :
    s'.callersCount = s.callersCount := by
  cases h with
  | createCaller => exact (hOther rfl).elim
  | _ => rfl

/-- The heap is asked for a caller only when one is created. -/
theorem heapCalls_caller (hOther : op ≠ .createCaller) :
    (heapCalls s (op, outcome)).count (.alloc (.caller c)) = 0 := by
  rw [List.count_eq_zero]
  intro hMem
  cases op with
  | createCaller => exact hOther rfl
  | initiate c' k msg heap =>
      simp only [heapCalls] at hMem
      split at hMem
      · split_ifs at hMem <;> simp at hMem
      · cases hMem
  | run id =>
      simp only [heapCalls] at hMem
      split at hMem
      · simp at hMem
      · split at hMem <;> simp at hMem
      · cases hMem
  | createCallee | accept | returnRpc | getResult | shutdownCallee | shutdownCaller => cases hMem

/-- What the log of the heap calls says at any time. -/
structure Logged (s : State) (log : List HeapCall) : Prop where
  once : ∀ m, log.count (.alloc m) = log.count (.free m) + (allocated s m).toNat
  created : ∀ c, log.count (.alloc (.caller c)) = if c < s.callersCount then 1 else 0

theorem Logged.step (hC : Conserved s) (h : Logged s log) (hStep : exec s op = some (outcome, s')) :
    Logged s' (log ++ heapCalls s (op, outcome)) := by
  constructor
  · intro m
    have hOnce := h.once m
    have hBalance := heapCalls_balanced hC hStep m
    rw [List.count_append, List.count_append]
    omega
  · intro c
    rw [List.count_append, h.created c]
    by_cases hCreate : op = .createCaller
    · subst hCreate
      obtain ⟨-, rfl⟩ := Prod.mk.inj (Option.some.inj hStep)
      by_cases hEq : s.callersCount = c
      · simp [heapCalls, hEq]
      · simp only [heapCalls, List.count_singleton, beq_iff_eq, HeapCall.alloc.injEq,
          Memory.caller.injEq, hEq, if_false, Nat.add_zero]
        split_ifs <;> omega
    · rw [heapCalls_caller hCreate, (exec_transition hStep).callersCount_eq hCreate, Nat.add_zero]

theorem Logged.run (run : ((system.restrict Reached).record heapCalls).Execution trace (s, log)) :
    Logged s log := by
  apply run.invariant (P := fun _ p => Logged p.1 p.2)
  · rintro ⟨s, log⟩ ⟨rfl, rfl⟩
    exact ⟨fun m => by cases m <;> rfl, fun c => by simp [initial]⟩
  · rintro trace ⟨s, log⟩ ⟨op, outcome⟩ ⟨s', log'⟩ prior hLogged ⟨⟨-, hLast⟩, rfl⟩
    exact hLogged.step (Conserved.run prior.ofRecord.ofRestrict) hLast

/-- As long as no request meets a callee that was shut down, callers are counted and
reclaimed as `dealloc_rc_base` is meant to. -/
theorem rpc_callers_reclaimed
    (run : ((system.restrict Reached).record heapCalls).Execution trace (s, log)) (c : Nat) :
    CallerContract s log c := by
  have hRun : system.Execution trace s := run.ofRecord.ofRestrict
  have hC := Conserved.run hRun
  have hLogged := Logged.run run
  have hReclaimed := (Reclaimed.run run.ofRecord).2 c
  have hCount : ∀ caller, s.callers c = some caller →
      (owing s c).Finite ∧ (owing s c).ncard = caller.deallocRefcount := by
    intro caller hCaller
    exact (hReclaimed.covered caller hCaller).ncard_eq ((hC.references c).counted caller hCaller)
  constructor
  case counted =>
    intro caller hCaller
    obtain ⟨hFinite, hNcard⟩ := hCount caller hCaller
    exact ⟨hFinite, hNcard.symm.trans (ncard_owing hFinite)⟩
  case once => exact hLogged.once
  case onceCaller =>
    have hOnce := hLogged.once (.caller c)
    rw [hLogged.created c] at hOnce
    split_ifs at hOnce <;> omega
  case late =>
    intro hCreated hNone
    refine ⟨⟨hCreated, Set.eq_empty_of_forall_notMem fun t ht => ?_⟩, hC.freed hNone⟩
    exact (hC.references c).owed t ht hNone
  case prompt =>
    rintro ⟨-, hEmpty⟩
    cases hCaller : s.callers c with
    | none => exact Or.inl (hC.freed hCaller)
    | some caller =>
        have hZero : caller.deallocRefcount = 0 := by
          rw [← (hCount caller hCaller).2, hEmpty, Set.ncard_empty]
        obtain ⟨id, hFrees⟩ := hReclaimed.freeing caller hCaller hZero
        obtain ⟨after, hFreeing⟩ := frees_iff.mp hFrees
        obtain ⟨steps, s', hReplay, hNone⟩ := replay_frees hFreeing hCaller rfl
        refine Or.inr ⟨id, _, steps, s', hReplay, hFrees, ?_⟩
        exact (Conserved.run (System.Execution.append_replay hRun hReplay)).freed hNone

/-- Steps of requests that reach their callees. -/
def execReached (s : State) (op : Op) : Option (Outcome × State) :=
  if Reached s (op, .proceeded) then exec s op else none

theorem execution_of_reached (ops : List Op)
    (h : System.replay execReached initial ops = some (trace, s)) :
    (system.restrict Reached).Execution trace s := by
  have run := System.Execution.of_replay ops h
  clear h
  induction run with
  | start hInit => exact .start hInit
  | @step trace s s' label prior last ih =>
      obtain ⟨op, outcome⟩ := label
      have hStep : execReached s op = some (outcome, s') := last
      have hSame : Reached s (op, .proceeded) = Reached s (op, outcome) := by cases op <;> rfl
      rw [execReached, Option.ite_none_right_eq_some, hSame] at hStep
      exact .step ih hStep

/-- One request is answered; then the caller is shut down and freed with its container. -/
theorem rpc_callers_reclaimed_after_reply :
    ∃ trace s log, ((system.restrict Reached).record heapCalls).Execution trace (s, log) ∧
      s.callersCount = 1 ∧ Freed s 0 ∧ CallerContract s log 0 := by
  let msg : UserRpcMsg := ⟨0, 1, 3, fun i => i.val.toUInt8⟩
  have run := execution_of_reached [.createCaller, .createCallee 1,
    .initiate 0 0 msg (some (5, ⟨msg, 0, 0, 0, 0, 0⟩)), .run 0, .accept 0 msg, .returnRpc 0 msg,
    .run 1, .run 1, .shutdownCaller 0, .run 2, .run 2, .run 2, .run 2] rfl
  obtain ⟨log, recorded⟩ := run.record heapCalls
  have hContract := rpc_callers_reclaimed recorded 0
  exact ⟨_, _, log, recorded, rfl, (hContract.late (Nat.zero_lt_one) rfl).2, hContract⟩

/-- A caller is lost when it stays after its shutdown, although no operation runs and the
callees have nothing. -/
theorem lost_of_idle (hC : Conserved s) {caller : UserRpcCaller} (hCaller : s.callers c = some caller)
    (hShut : caller.isShutDown = true) (hIdle : ∀ id < s.opsCount, s.running id = none)
    (hEmpty : ∀ k < s.calleesCount, held s (.incoming k) = [] ∧ held s (.awaiting k) = []) :
    Unused s c ∧ (∀ id, s.running id = none) ∧ ∀ log, ¬CallerContract s log c := by
  have hAll : ∀ id, s.running id = none := by
    intro id
    rcases Nat.lt_or_ge id s.opsCount with hOld | hNew
    · exact hIdle id hOld
    · exact hC.allocated.ids id hNew
  have hRole : ∀ id, role s id = none := fun id => by simp [role, hAll]
  have hCallees : ∀ k, held s (.incoming k) = [] ∧ held s (.awaiting k) = [] := by
    intro k
    rcases Nat.lt_or_ge k s.calleesCount with hOld | hNew
    · exact hEmpty k hOld
    · simp [held, hC.allocated.callees k hNew]
  have hCreated : c < s.callersCount := by
    by_contra hLate
    cases (hC.allocated.callers c (Nat.le_of_not_lt hLate)).symm.trans hCaller
  have hUnused : Unused s c := by
    refine ⟨hCreated, Set.eq_empty_of_forall_notMem ?_⟩
    rintro (_ | x | id) ht
    · rcases ht with ⟨a, ha, hOpen⟩ | ⟨id, hCloses⟩
      · obtain rfl := Option.some.inj (hCaller.symm.trans ha)
        cases hShut.symm.trans hOpen
      · cases (hRole id).symm.trans hCloses
    · obtain ⟨p, d, hx, hFlight, -⟩ := ht
      cases p with
      | free | replies => exact hFlight
      | incoming k => simp [(hCallees k).1] at hx
      | awaiting k => simp [(hCallees k).2] at hx
      | operation id => simp [held, hAll] at hx
    · cases (hRole id).symm.trans ht
  refine ⟨hUnused, hAll, fun log hContract => ?_⟩
  rcases hContract.prompt hUnused with hFreed | ⟨id, n, steps, s', -, hFrees, -⟩
  · cases hFreed.1.symm.trans hCaller
  · cases (hRole id).symm.trans hFrees

/-- A request meets a callee that was shut down. After the caller's shutdown nothing
refers to the caller, and no operation runs, but its count is one and it stays. -/
theorem unreachable_callee_leaks_caller :
    ∃ trace s log, (system.record heapCalls).Execution trace (s, log) ∧ Unused s 0 ∧
      (∀ id, s.running id = none) ∧ (s.callers 0).map (·.deallocRefcount) = some 1 ∧
      ¬CallerContract s log 0 := by
  let msg : UserRpcMsg := ⟨0, 1, 3, fun i => i.val.toUInt8⟩
  have run : system.Execution _ _ := System.Execution.of_replay [.createCaller, .createCallee 1,
    .shutdownCallee 0, .run 0, .run 0, .run 0,
    .initiate 0 0 msg (some (5, ⟨msg, 0, 0, 0, 0, 0⟩)), .run 1, .run 1, .shutdownCaller 0, .run 2,
    .run 2, .run 2] rfl
  obtain ⟨log, recorded⟩ := run.record heapCalls
  obtain ⟨hUnused, hIdle, hLost⟩ := lost_of_idle (c := 0) (Conserved.run run) rfl rfl (by decide)
    (by decide)
  exact ⟨_, _, log, recorded, hUnused, hIdle, rfl, hLost log⟩

end Contract

end Ricerca.Rpc
