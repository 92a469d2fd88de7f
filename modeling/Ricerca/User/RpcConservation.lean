import Ricerca.User.RpcLife

/-! No call is lost, answered twice or answered to another caller, in any interleaving of
the calls and the two kinds of shutdown. -/
namespace Ricerca.Rpc

open Ricerca.Foundation Ricerca.Cookie Ricerca.Lib

/-- The callers that got an entry in `incoming_replies` for the call. -/
def repliesOf (r : Nat) (trace : List (Op × Outcome)) : List Nat :=
  trace.filterMap fun
    | (_, .replied r' c) => if r' = r then some c else none
    | _ => none

/-- The callers that `user_rpc_get_result` handed a result of the call to. -/
def resultsOf (r : Nat) (trace : List (Op × Outcome)) : List Nat :=
  trace.filterMap fun
    | (.getResult c _, .result r' _) => if r' = r then some c else none
    | _ => none

def Stage.replied : Stage → Bool
  | .delivered _ | .finished _ => true
  | _ => false

def Stage.finished? : Stage → Bool
  | .finished _ => true
  | _ => false

/-- `user_rpc_initiate` returned `USER_STATUS_SUCCESS`. -/
def Stage.sent : Stage → Bool
  | .preparing | .undelivered => false
  | _ => true

section Courses

variable {r : Nat} {call : Call} {events : List (Op × Outcome)} {stage : Stage}

theorem Course.repliesOf_eq (h : Course r call events stage) :
    repliesOf r events = if stage.replied then [call.caller] else [] := by
  induction h with
  | prepared | undelivered | enqueued | accepted | returned | aborted | abortedLate | replied | result =>
      simp_all [repliesOf, Stage.replied]

theorem Course.resultsOf_eq (h : Course r call events stage) :
    resultsOf r events = if stage.finished? then [call.caller] else [] := by
  induction h with
  | prepared | undelivered | enqueued | accepted | returned | aborted | abortedLate | replied | result =>
      simp_all [resultsOf, Stage.finished?]

theorem Course.prepared_mem (h : Course r call events stage) {op : Op} {r' : Nat}
    (hMem : (op, .prepared r') ∈ events) :
    ∃ heap, op = .initiate call.caller call.callee call.msg heap := by
  induction h with
  | prepared heap =>
      simp only [List.mem_singleton, Prod.mk.injEq] at hMem
      exact ⟨heap, hMem.1⟩
  | undelivered _ _ ih | enqueued _ _ ih | accepted _ _ _ _ ih | returned _ _ ih | aborted _ _ ih
  | abortedLate _ _ ih | replied _ _ ih | result _ _ _ _ _ ih =>
      simp only [List.mem_append, List.mem_singleton, Prod.mk.injEq, reduceCtorEq, and_false,
        or_false] at hMem
      exact ih hMem

theorem Course.exists_prepared (h : Course r call events stage) :
    ∃ heap, (.initiate call.caller call.callee call.msg heap, .prepared r) ∈ events := by
  induction h with
  | prepared heap => exact ⟨heap, List.mem_singleton_self _⟩
  | undelivered _ _ ih | enqueued _ _ ih | accepted _ _ _ _ ih | returned _ _ ih | aborted _ _ ih
  | abortedLate _ _ ih | replied _ _ ih | result _ _ _ _ _ ih =>
      obtain ⟨heap, hMem⟩ := ih
      exact ⟨heap, List.mem_append_left _ hMem⟩

theorem Course.enqueued_mem (h : Course r call events stage) {op : Op} {r' k : Nat}
    (hMem : (op, .enqueued r' k) ∈ events) : k = call.callee ∧ stage.sent = true := by
  induction h with
  | prepared => simp at hMem
  | undelivered _ _ ih =>
      simp only [List.mem_append, List.mem_singleton, Prod.mk.injEq, reduceCtorEq, and_false,
        or_false] at hMem
      cases (ih hMem).2
  | enqueued _ _ ih =>
      simp only [List.mem_append, List.mem_singleton, Prod.mk.injEq, Outcome.enqueued.injEq] at hMem
      rcases hMem with hOld | ⟨-, -, hEq⟩
      · cases (ih hOld).2
      · exact ⟨hEq, rfl⟩
  | accepted _ _ _ _ ih | returned _ _ ih | aborted _ _ ih | abortedLate _ _ ih | replied _ _ ih
  | result _ _ _ _ _ ih =>
      simp only [List.mem_append, List.mem_singleton, Prod.mk.injEq, reduceCtorEq, and_false,
        or_false] at hMem
      exact ⟨(ih hMem).1, rfl⟩

theorem Course.exists_enqueued (h : Course r call events stage) (hSent : stage.sent = true) :
    ∃ id, (.run id, .enqueued r call.callee) ∈ events := by
  induction h with
  | prepared | undelivered => cases hSent
  | enqueued id => exact ⟨id, List.mem_append_right _ (List.mem_singleton_self _)⟩
  | accepted _ _ _ _ ih | returned _ _ ih | aborted _ _ ih | abortedLate _ _ ih | replied _ _ ih
  | result _ _ _ _ _ ih =>
      obtain ⟨id, hMem⟩ := ih rfl
      exact ⟨id, List.mem_append_left _ hMem⟩

end Courses

section Events

variable {r : Nat} {trace : List (Op × Outcome)}

theorem mem_story {label : Op × Outcome} (hMem : label ∈ trace) (hLabel : label.2.rpc = some r) :
    label ∈ story r trace := by
  simpa [story, hLabel] using hMem

theorem mem_of_mem_story {label : Op × Outcome} (hMem : label ∈ story r trace) : label ∈ trace :=
  (List.mem_filter.mp hMem).1

theorem repliesOf_story (r : Nat) (trace : List (Op × Outcome)) :
    repliesOf r (story r trace) = repliesOf r trace := by
  rw [repliesOf, story, List.filterMap_filter, repliesOf]
  congr 1
  funext label
  obtain ⟨op, outcome⟩ := label
  cases outcome <;> simp [Outcome.rpc]

theorem resultsOf_story (r : Nat) (trace : List (Op × Outcome)) :
    resultsOf r (story r trace) = resultsOf r trace := by
  rw [resultsOf, story, List.filterMap_filter, resultsOf]
  congr 1
  funext label
  obtain ⟨op, outcome⟩ := label
  cases outcome <;> cases op <;> simp [Outcome.rpc]

end Events

/-- The call waits at its callee, or its answer is on the way to its caller. -/
def Unanswered (s : State) (r c k : Nat) : Prop :=
  ∃ x d, s.containers x = some d ∧ d.rpc = r ∧ d.caller = c ∧
    (x ∈ held s (.incoming k) ∨ x ∈ held s (.awaiting k) ∨
      ∃ id after, s.running id = some (.replying x after))

/-- The answer waits for `user_rpc_get_result`. -/
def Deliverable (s : State) (r c : Nat) : Prop :=
  ∃ x d, s.containers x = some d ∧ d.rpc = r ∧ x ∈ held s (.replies c)

section Conservation

variable {trace : List (Op × Outcome)} {s : State}

/-- Where a call is that `user_rpc_initiate` sent. -/
theorem Account.sent {r : Nat} (h : Account trace s r) (hStory : story r trace ≠ []) :
    ∃ call stage, Course r call (story r trace) stage ∧
      (stage.sent = true →
        (stage.replied = false ∧ Unanswered s r call.caller call.callee) ∨
        (stage.replied = true ∧ stage.finished? = false ∧
          (Deliverable s r call.caller ∨ Gone s call.caller)) ∨
        (stage.replied = true ∧ stage.finished? = true)) := by
  cases h with
  | unknown hNil => exact (hStory hNil).elim
  | @pending call stage x p d hCourse hCarried hFits hCaller =>
      refine ⟨call, stage, hCourse, fun hSent => ?_⟩
      have hMem := hCarried.mem
      cases hFits with
      | initiating | unreachable => cases hSent
      | queued => exact Or.inl ⟨rfl, x, d, hCarried.data, hCarried.rpc, hCaller, Or.inl hMem⟩
      | awaiting => exact Or.inl ⟨rfl, x, d, hCarried.data, hCarried.rpc, hCaller, Or.inr (Or.inl hMem)⟩
      | @answered id y after answer hRun =>
          rw [held_operation hRun] at hMem
          obtain rfl := List.mem_singleton.mp hMem
          exact Or.inl ⟨rfl, x, d, hCarried.data, hCarried.rpc, hCaller, Or.inr (Or.inr ⟨id, after, hRun⟩)⟩
      | delivered => exact Or.inr (Or.inl ⟨rfl, rfl, Or.inl ⟨x, d, hCarried.data, hCarried.rpc, hMem⟩⟩)
  | @closed call stage hCourse hClosed =>
      refine ⟨call, stage, hCourse, fun hSent => ?_⟩
      cases stage with
      | undelivered => cases hSent
      | delivered answer => exact Or.inr (Or.inl ⟨rfl, rfl, Or.inr hClosed⟩)
      | finished answer => exact Or.inr (Or.inr ⟨rfl, rfl⟩)
      | preparing | queued | awaiting | answered => exact hClosed.elim

/-- Every call whose events are known follows a course. -/
theorem Account.course {r : Nat} (h : Account trace s r) (hStory : story r trace ≠ []) :
    ∃ call stage, Course r call (story r trace) stage := by
  cases h with
  | unknown hNil => exact (hStory hNil).elim
  | pending hCourse => exact ⟨_, _, hCourse⟩
  | closed hCourse => exact ⟨_, _, hCourse⟩

/-- Every container that is allocated is in exactly one place, once, and in the queues of
a caller only if it is the caller's own. A call that `user_rpc_initiate` sent is queued or
awaiting at its callee (or its answer is with a running operation), or it was replied
exactly once, to its own caller, and then its result was handed out at most once; a reply
that was not handed out is in the caller's queue unless the caller is gone. There are no
other replies and results. A callee whose shutdown is over keeps no call, and no operation
is ever stuck. -/
theorem rpc_conservation (run : system.Execution trace s) :
    ((∀ x, s.containers x ≠ none → ∃! p, x ∈ held s p) ∧ (∀ p, (held s p).Nodup) ∧
      ∀ p x, x ∈ held s p → ∃ d, s.containers x = some d ∧ Belongs d p) ∧
    (∀ c k msg heap r id, (Op.initiate c k msg heap, Outcome.prepared r) ∈ trace →
      (Op.run id, Outcome.enqueued r k) ∈ trace →
      (repliesOf r trace = [] ∧ resultsOf r trace = [] ∧ Unanswered s r c k) ∨
      (repliesOf r trace = [c] ∧ resultsOf r trace = [] ∧ (Deliverable s r c ∨ Gone s c)) ∨
      (repliesOf r trace = [c] ∧ resultsOf r trace = [c])) ∧
    (∀ r c, c ∈ repliesOf r trace ++ resultsOf r trace →
      ∃ k msg heap id, (Op.initiate c k msg heap, Outcome.prepared r) ∈ trace ∧
        (Op.run id, Outcome.enqueued r k) ∈ trace) ∧
    (∀ k callee, s.callees k = some callee → callee.isShutDown = true →
      (∀ id position, draining s id ≠ some (k, position)) →
      held s (.incoming k) = [] ∧ held s (.awaiting k) = []) ∧
    ∀ op, Enabled s op → exec s op ≠ none := by
  have hC := Conserved.run run
  have hLedger := Ledger.run run
  have hP := hC.placement
  refine ⟨⟨fun x hx => ?_, hP.nodup, fun p x hx => ?_⟩, ?_, fun r c hMem => ?_, ?_,
    fun op => exec_ne_none hC (Drained.run run)⟩
  · obtain ⟨p, hp⟩ := (hP.live_iff x).mp hx
    exact ⟨p, hp, fun q hq => hP.disjoint q p x hq hp⟩
  · obtain ⟨d, hData⟩ := data_of_mem hP hx
    exact ⟨d, hData, hC.belongs p x d hx hData⟩
  · intro c k msg heap r id hPrepared hEnqueued
    have hPrepared' := mem_story hPrepared rfl
    obtain ⟨call, stage, hCourse, hSent⟩ := (hLedger.account r).sent (List.ne_nil_of_mem hPrepared')
    obtain ⟨heap', hEq⟩ := hCourse.prepared_mem hPrepared'
    obtain ⟨rfl, rfl, rfl, -⟩ := Op.initiate.inj hEq
    have hStage := (hCourse.enqueued_mem (mem_story hEnqueued rfl)).2
    rw [← repliesOf_story, ← resultsOf_story, hCourse.repliesOf_eq, hCourse.resultsOf_eq]
    rcases hSent hStage with ⟨hNot, hWaits⟩ | ⟨hReplied, hNot, hWaits⟩ | ⟨hReplied, hFinished⟩
    · refine Or.inl ⟨by simp [hNot], ?_, hWaits⟩
      cases stage <;> simp_all [Stage.replied, Stage.finished?]
    · exact Or.inr (Or.inl ⟨by simp [hReplied], by simp [hNot], hWaits⟩)
    · exact Or.inr (Or.inr ⟨by simp [hReplied], by simp [hFinished]⟩)
  · rw [← repliesOf_story, ← resultsOf_story] at hMem
    have hStory : story r trace ≠ [] := by
      intro hNil
      simp [hNil, repliesOf, resultsOf] at hMem
    obtain ⟨call, stage, hCourse⟩ := (hLedger.account r).course hStory
    rw [hCourse.repliesOf_eq, hCourse.resultsOf_eq] at hMem
    have hCaller : c = call.caller ∧ stage.sent = true := by
      cases stage <;> simp_all [Stage.replied, Stage.finished?, Stage.sent]
    obtain ⟨heap, hPrepared⟩ := hCourse.exists_prepared
    obtain ⟨id, hEnqueued⟩ := hCourse.exists_enqueued hCaller.2
    rw [hCaller.1]
    exact ⟨_, _, heap, id, mem_of_mem_story hPrepared, mem_of_mem_story hEnqueued⟩
  · intro k callee hCallee hShut hDone
    have hEmpty := ((Drained.run run k).drained callee hCallee hShut).resolve_right
      fun ⟨id, position, hDraining, _⟩ => hDone id position hDraining
    refine ⟨(held_incoming hCallee).trans hEmpty.1, ?_⟩
    rw [held_awaiting hCallee, List.eq_nil_iff_forall_not_mem]
    intro x hx
    obtain ⟨i, hi, hMem⟩ := mem_all.mp hx
    rw [hEmpty.2 i hi] at hMem
    cases hMem

/-- Two calls of one caller: the first is accepted and returned, the second one is
answered by the callee's shutdown. -/
theorem rpc_conservation_return_and_shutdown :
    ∃ trace s, system.Execution trace s ∧
      repliesOf 0 trace = [0] ∧ resultsOf 0 trace = [0] ∧ repliesOf 2 trace = [0] ∧
      resultsOf 2 trace = [] ∧ (Deliverable s 2 0 ∨ Gone s 0) ∧ ∃! p, 6 ∈ held s p := by
  let msg : UserRpcMsg := ⟨0, 1, 3, fun i => i.val.toUInt8⟩
  let junk : UserRpcContainer := ⟨msg, 0, 0, 0, 0, 0⟩
  have run : system.Execution _ _ := System.Execution.of_replay
    [.createCaller, .createCallee 1, .initiate 0 0 msg (some (5, junk)), .run 0, .accept 0 msg,
      .returnRpc 0 msg, .run 1, .run 1, .initiate 0 0 msg (some (6, junk)), .getResult 0 msg, .run 2,
      .shutdownCallee 0, .run 3, .run 3, .run 3] rfl
  obtain ⟨⟨hPlaces, -⟩, hCalls, -⟩ := rpc_conservation run
  have hSecond := hCalls 0 0 msg (some (6, junk)) 2 2 (List.mem_of_getElem? (i := 8) rfl)
    (List.mem_of_getElem? (i := 10) rfl)
  refine ⟨_, _, run, rfl, rfl, rfl, rfl, ?_, hPlaces 6 (Option.isSome_iff_ne_none.mp rfl)⟩
  rcases hSecond with ⟨hNone, -⟩ | ⟨-, -, hWaits⟩ | ⟨-, hResult⟩
  · cases hNone
  · exact hWaits
  · cases hResult

end Conservation

end Ricerca.Rpc
