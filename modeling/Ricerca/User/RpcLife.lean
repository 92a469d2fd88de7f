import Ricerca.User.RpcShutdown

/-! The life of one call, from `user_rpc_initiate` to `user_rpc_get_result`. In every run
the events of a call are a course of this life, and the place of its container says how
far the call has come. -/
namespace Ricerca.Rpc

open Ricerca.Foundation Ricerca.Cookie Ricerca.Lib

/-- The events in the life of a call, in order. -/
def story (r : Nat) (trace : List (Op × Outcome)) : List (Op × Outcome) :=
  trace.filter fun label => label.2.rpc = some r

/-- The arguments of `user_rpc_initiate`. -/
structure Call where
  caller : Nat
  callee : Nat
  msg : UserRpcMsg

/-- How a call was answered: by `user_rpc_return`, or by the callee's shutdown. -/
inductive Answer where
  | reply (msg : UserRpcMsg)
  | noReply

def Answer.Matches (m : UserRpcMsg) : Answer → Prop
  | .reply msg => Rpc.Matches m msg
  | .noReply => m.len = 0 ∧ m.status = userRpcStatusNoreply

theorem Answer.Matches.of_stored {m stored : UserRpcMsg} {answer : Answer}
    (h : answer.Matches stored) (hCopy : Rpc.Matches m stored) : answer.Matches m := by
  cases answer with
  | reply msg => exact hCopy.trans h
  | noReply => exact ⟨hCopy.len.trans h.1, hCopy.status.trans h.2⟩

/-- How far a call has come. -/
inductive Stage where
  | preparing
  | undelivered
  | queued
  | awaiting (seq : UInt64)
  | answered (answer : Answer)
  | delivered (answer : Answer)
  | finished (answer : Answer)

/-- The lives that a call can have, with what each step hands over. -/
inductive Course (r : Nat) (call : Call) : List (Op × Outcome) → Stage → Prop where
  | prepared (heap : Option (Nat × UserRpcContainer)) :
      Course r call [(.initiate call.caller call.callee call.msg heap, .prepared r)] .preparing
  | undelivered {events : List (Op × Outcome)} (id : Nat) (h : Course r call events .preparing) :
      Course r call (events ++ [(.run id, .undelivered r)]) .undelivered
  | enqueued {events : List (Op × Outcome)} (id : Nat) (h : Course r call events .preparing) :
      Course r call (events ++ [(.run id, .enqueued r call.callee)]) .queued
  | accepted {events : List (Op × Outcome)} (buffer m : UserRpcMsg) (h : Course r call events .queued)
      (hRequest : Matches m call.msg) :
      Course r call (events ++ [(.accept call.callee buffer, .accepted r m)]) (.awaiting m.opaqueValue)
  | returned {events : List (Op × Outcome)} (msg : UserRpcMsg)
      (h : Course r call events (.awaiting msg.opaqueValue)) :
      Course r call (events ++ [(.returnRpc call.callee msg, .returned r)]) (.answered (.reply msg))
  | aborted {events : List (Op × Outcome)} (id : Nat) (h : Course r call events .queued) :
      Course r call (events ++ [(.run id, .aborted r)]) (.answered .noReply)
  | abortedLate {events : List (Op × Outcome)} (id : Nat) {seq : UInt64}
      (h : Course r call events (.awaiting seq)) :
      Course r call (events ++ [(.run id, .aborted r)]) (.answered .noReply)
  | replied {events : List (Op × Outcome)} (id : Nat) {answer : Answer}
      (h : Course r call events (.answered answer)) :
      Course r call (events ++ [(.run id, .replied r call.caller)]) (.delivered answer)
  | result {events : List (Op × Outcome)} (buffer m : UserRpcMsg) {answer : Answer}
      (h : Course r call events (.delivered answer)) (hOpaque : m.opaqueValue = call.msg.opaqueValue)
      (hAnswer : answer.Matches m) :
      Course r call (events ++ [(.getResult call.caller buffer, .result r m)]) (.finished answer)

/-- Where the container of a call is at each stage, and what it holds. -/
inductive Fits (s : State) (call : Call) (d : UserRpcContainer) : Stage → Place → Prop where
  | initiating {id x : Nat} (hRun : s.running id = some (.initiating call.caller call.callee x))
      (hRequest : Matches d.message call.msg) : Fits s call d .preparing (.operation id)
  | unreachable {id x : Nat} (hRun : s.running id = some (.unreachable call.caller x))
      (hRequest : Matches d.message call.msg) : Fits s call d .preparing (.operation id)
  | queued (hRequest : Matches d.message call.msg) : Fits s call d .queued (.incoming call.callee)
  | awaiting (hRequest : Matches d.message call.msg) :
      Fits s call d (.awaiting d.key) (.awaiting call.callee)
  | answered {id x : Nat} {after : After} {answer : Answer}
      (hRun : s.running id = some (.replying x after)) (hAnswer : answer.Matches d.message) :
      Fits s call d (.answered answer) (.operation id)
  | delivered {answer : Answer} (hAnswer : answer.Matches d.message) :
      Fits s call d (.delivered answer) (.replies call.caller)

/-- A container that is not in a pool carries the call. -/
structure Carried (s : State) (r x : Nat) (p : Place) (d : UserRpcContainer) : Prop where
  mem : x ∈ held s p
  data : s.containers x = some d
  rpc : d.rpc = r
  busy : ∀ c, p ≠ .free c

/-- The last reference to the caller was dropped. -/
def Gone (s : State) (c : Nat) : Prop :=
  c < s.callersCount ∧ ∀ caller, s.callers c = some caller → caller.deallocRefcount = 0

/-- The call has no container any more. -/
def Closed (s : State) (call : Call) : Stage → Prop
  | .undelivered | .finished _ => True
  | .delivered _ => Gone s call.caller
  | _ => False

/-- What is known about one call: it did not begin, exactly one container carries it, or
it is over. -/
inductive Account (trace : List (Op × Outcome)) (s : State) (r : Nat) : Prop where
  | unknown (hStory : story r trace = []) (hNone : ∀ x p d, ¬Carried s r x p d)
  | pending {call : Call} {stage : Stage} {x : Nat} {p : Place} {d : UserRpcContainer}
      (hCourse : Course r call (story r trace) stage) (hCarried : Carried s r x p d)
      (hFits : Fits s call d stage p) (hCaller : d.caller = call.caller)
      (hOpaque : d.clientOpaque = call.msg.opaqueValue)
      (hOnly : ∀ y q e, Carried s r y q e → y = x)
  | closed {call : Call} {stage : Stage} (hCourse : Course r call (story r trace) stage)
      (hClosed : Closed s call stage) (hNone : ∀ x p d, ¬Carried s r x p d)

/-- The accounts of all calls. -/
structure Ledger (trace : List (Op × Outcome)) (s : State) : Prop where
  account : ∀ r, Account trace s r
  fresh : ∀ r, s.opsCount ≤ r → story r trace = []

section Stories

variable {r : Nat} {trace : List (Op × Outcome)} {label : Op × Outcome}

theorem story_own (h : label.2.rpc = some r) : story r (trace ++ [label]) = story r trace ++ [label] := by
  simp [story, h]

theorem story_other (h : label.2.rpc ≠ some r) : story r (trace ++ [label]) = story r trace := by
  simp [story, h]

theorem Course.ne_nil {call : Call} {events : List (Op × Outcome)} {stage : Stage}
    (h : Course r call events stage) : events ≠ [] := by
  cases h <;> simp

end Stories

section Accounts

variable {trace : List (Op × Outcome)} {s s' : State} {r x : Nat} {p q : Place}
  {d d' : UserRpcContainer} {label : Op × Outcome}

/-- The account of a call whose container is known. -/
theorem Account.of_carried (h : Account trace s r) (hPlacement : Placement (held s) (live s))
    (hCarried : Carried s r x p d) :
    ∃ call stage, Course r call (story r trace) stage ∧ Fits s call d stage p ∧
      d.caller = call.caller ∧ d.clientOpaque = call.msg.opaqueValue ∧
      ∀ y q e, Carried s r y q e → y = x := by
  cases h with
  | unknown hStory hNone => exact (hNone x p d hCarried).elim
  | @pending call stage y q e hCourse hOther hFits hCaller hOpaque hOnly =>
      obtain rfl := hOnly x p d hCarried
      obtain rfl := hPlacement.disjoint p q x hCarried.mem hOther.mem
      obtain rfl := Option.some.inj (hCarried.data.symm.trans hOther.data)
      exact ⟨call, stage, hCourse, hFits, hCaller, hOpaque, hOnly⟩
  | closed hCourse hClosed hNone => exact (hNone x p d hCarried).elim

theorem Fits.congr {call : Call} {stage : Stage} (h : Fits s call d stage p)
    (hSame : ∀ id, p = .operation id → s'.running id = s.running id) : Fits s' call d stage p := by
  cases h with
  | initiating hRun hRequest => exact .initiating ((hSame _ rfl).trans hRun) hRequest
  | unreachable hRun hRequest => exact .unreachable ((hSame _ rfl).trans hRun) hRequest
  | queued hRequest => exact .queued hRequest
  | awaiting hRequest => exact .awaiting hRequest
  | answered hRun hAnswer => exact .answered ((hSame _ rfl).trans hRun) hAnswer
  | delivered hAnswer => exact .delivered hAnswer

/-- A step that is not about this call. -/
theorem Account.frame (h : Account trace s r) (hLabel : label.2.rpc ≠ some r)
    (hGone : ∀ c, Gone s c → Gone s' c)
    (hSame : ∀ y i e, Carried s' r y i e ↔ Carried s r y i e)
    (hRunning : ∀ id y e, Carried s r y (.operation id) e → s'.running id = s.running id) :
    Account (trace ++ [label]) s' r := by
  have hStory' : story r (trace ++ [label]) = story r trace := story_other hLabel
  cases h with
  | unknown hStory hNone =>
      exact .unknown (hStory'.trans hStory) fun y i e hy => hNone y i e ((hSame y i e).mp hy)
  | pending hCourse hCarried hFits hCaller hOpaque hOnly =>
      refine .pending (hStory'.symm ▸ hCourse) ((hSame _ _ _).mpr hCarried) (hFits.congr ?_) hCaller
        hOpaque fun y i e hy => hOnly y i e ((hSame y i e).mp hy)
      rintro id rfl
      exact hRunning id _ _ hCarried
  | @closed call stage hCourse hClosed hNone =>
      refine .closed (hStory'.symm ▸ hCourse) ?_ fun y i e hy => hNone y i e ((hSame y i e).mp hy)
      cases stage with
      | delivered answer => exact hGone _ hClosed
      | undelivered | finished => trivial
      | preparing | queued | awaiting | answered => exact hClosed.elim

/-- The container of another call was moved. -/
theorem Account.frame_placed (h : Account trace s r) (hLabel : label.2.rpc ≠ some r)
    (hGone : ∀ c, Gone s c → Gone s' c) (hPlaced : Placed s s' x q d')
    (hBefore : ∀ p d, ¬Carried s r x p d) (hAfter : d'.rpc ≠ r ∨ ∃ c, q = .free c) :
    Account (trace ++ [label]) s' r := by
  refine h.frame hLabel hGone (fun y i e => ⟨fun hy => ?_, fun hy => ?_⟩) fun id y e hy => ?_
  · have hData := hy.data
    rw [hPlaced.containers_eq] at hData
    rcases (hPlaced.mem i y).mp hy.mem with ⟨rfl, rfl⟩ | ⟨hNe, hMem⟩
    · rw [Function.update_self] at hData
      obtain rfl := Option.some.inj hData
      rcases hAfter with hRpc | ⟨c, hFree⟩
      · exact (hRpc hy.rpc).elim
      · exact (hy.busy c hFree).elim
    · rw [Function.update_of_ne hNe] at hData
      exact ⟨hMem, hData, hy.rpc, hy.busy⟩
  · have hNe : y ≠ x := by
      rintro rfl
      exact hBefore i e hy
    refine ⟨(hPlaced.mem i y).mpr (Or.inr ⟨hNe, hy.mem⟩), ?_, hy.rpc, hy.busy⟩
    rw [hPlaced.containers_eq, Function.update_of_ne hNe]
    exact hy.data
  · have hNe : y ≠ x := by
      rintro rfl
      exact hBefore _ e hy
    exact hPlaced.untouched id y hNe hy.mem

/-- After its container was moved, the call is carried by it alone. -/
theorem Placed.carried_only (hPlaced : Placed s s' x q d')
    (hOnly : ∀ y i e, Carried s r y i e → y = x) :
    ∀ y i e, Carried s' r y i e → y = x ∧ i = q := by
  intro y i e hy
  have hData := hy.data
  rw [hPlaced.containers_eq] at hData
  rcases (hPlaced.mem i y).mp hy.mem with hSame | ⟨hNe, hMem⟩
  · exact hSame
  · rw [Function.update_of_ne hNe] at hData
    exact (hNe (hOnly y i e ⟨hMem, hData, hy.rpc, hy.busy⟩)).elim

theorem Placed.carried (hPlaced : Placed s s' x q d') (hRpc : d'.rpc = r) (hBusy : ∀ c, q ≠ .free c) :
    Carried s' r x q d' := by
  refine ⟨(hPlaced.mem q x).mpr (Or.inl ⟨rfl, rfl⟩), ?_, hRpc, hBusy⟩
  rw [hPlaced.containers_eq, Function.update_self]

end Accounts

section Goners

variable {s s' : State} {op : Op} {outcome : Outcome} {c : Nat}

theorem Gone.setCaller {c' : Nat} {a' : Option UserRpcCaller} (h : Gone s c)
    (hCallers : s'.callers = Function.update s.callers c' a') (hCount : s.callersCount ≤ s'.callersCount)
    (hZero : c = c' → ∀ b, a' = some b → b.deallocRefcount = 0) : Gone s' c := by
  refine ⟨Nat.lt_of_lt_of_le h.1 hCount, fun b hb => ?_⟩
  rw [hCallers] at hb
  by_cases hEq : c = c'
  · subst hEq
    rw [Function.update_self] at hb
    exact hZero rfl b hb
  · rw [Function.update_of_ne hEq] at hb
    exact h.2 b hb

theorem Gone.step (hC : Conserved s) (h : Gone s c) (hStep : Transition s op outcome s') :
    Gone s' c := by
  cases hStep with
  | createCaller =>
      refine h.setCaller rfl (Nat.le_succ _) fun hEq => ?_
      exact (Nat.lt_irrefl _ (hEq ▸ h.1)).elim
  | rejected status hCaller hLive hObtained =>
      refine h.setCaller rfl (Nat.le_refl _) ?_
      rintro rfl b ⟨⟩
      exact hObtained.refs.1.trans (h.2 _ hCaller)
  | @prepared c' k x msg message heap caller caller' callee d hCaller hLive =>
      refine h.setCaller rfl (Nat.le_refl _) ?_
      rintro rfl b ⟨⟩
      have hHandle : Token.handle ∈ owing s c := Or.inl ⟨caller, hCaller, hLive⟩
      have hPos := ((hC.references c).counted caller hCaller).pos hHandle
      rw [h.2 caller hCaller] at hPos
      exact (Nat.lt_irrefl 0 hPos).elim
  | undelivered hRun hCaller | replied hRun hContainer hCaller | replyFreed hRun hCaller
  | result hCaller | callerShutDown hCaller | containerFreed hRun hCaller =>
      refine h.setCaller rfl (Nat.le_refl _) ?_
      rintro rfl b ⟨⟩
      have hZero := h.2 _ hCaller
      exact hZero
  | dropped hRun hCaller hMore =>
      refine h.setCaller rfl (Nat.le_refl _) ?_
      rintro rfl b ⟨⟩
      exact congrArg (· - 1) (h.2 _ hCaller)
  | droppedLast =>
      refine h.setCaller rfl (Nat.le_refl _) ?_
      rintro rfl b ⟨⟩
      rfl
  | callerFreed =>
      refine h.setCaller rfl (Nat.le_refl _) ?_
      rintro rfl b ⟨⟩
  | failed | createCallee | refused | enqueued | accepted | returned | calleeShutDown
  | incomingAborted | incomingDrained | awaitingAborted | bucketDrained | calleeDrained
  | containersFreed => exact h

end Goners

section Steps

variable {trace : List (Op × Outcome)} {s s' : State} {op : Op} {outcome : Outcome}
  {label : Op × Outcome} {r x : Nat} {p q : Place} {d d' : UserRpcContainer}

theorem Transition.opsCount_le (h : Transition s op outcome s') : s.opsCount ≤ s'.opsCount := by
  cases h <;> first | exact Nat.le_refl _ | exact Nat.le_succ _

theorem Transition.prepared_lt (h : Transition s op (.prepared r) s') : r < s'.opsCount := by
  cases h
  exact Nat.lt_succ_self _

theorem Ledger.known (h : Ledger trace s) (hCarried : Carried s r x p d) : r < s.opsCount := by
  by_contra hLe
  have hStory := h.fresh r (Nat.le_of_not_lt hLe)
  cases h.account r with
  | unknown _ hNone => exact hNone _ _ _ hCarried
  | pending hCourse => exact hCourse.ne_nil hStory
  | closed _ _ hNone => exact hNone _ _ _ hCarried

/-- The container of the call `r` was moved; the other calls are not touched. -/
theorem Ledger.move (h : Ledger trace s) (hPlacement : Placement (held s) (live s))
    (hGone : ∀ c, Gone s c → Gone s' c) (hPlaced : Placed s s' x q d')
    (hCarried : Carried s r x p d) (hRpc : d'.rpc = r)
    (hLabel : ∀ r', r' ≠ r → label.2.rpc ≠ some r')
    (hOwn : Account (trace ++ [label]) s' r) (r' : Nat) : Account (trace ++ [label]) s' r' := by
  by_cases hEq : r' = r
  · subst hEq
    exact hOwn
  · refine (h.account r').frame_placed (hLabel r' hEq) hGone hPlaced (fun i e hx => ?_)
      (Or.inl fun hSame => hEq (hSame.symm.trans hRpc))
    obtain rfl := hPlacement.disjoint i p x hx.mem hCarried.mem
    obtain rfl := Option.some.inj (hx.data.symm.trans hCarried.data)
    exact hEq (hx.rpc.symm.trans hCarried.rpc)

/-- A container that was in a pool, or not allocated, carries no call. -/
theorem not_carried (hPlacement : Placement (held s) (live s)) {c : Nat}
    (hWas : x ∈ held s (.free c) ∨ s.containers x = none) : ¬Carried s r x p d := by
  intro hCarried
  rcases hWas with hFree | hNone
  · exact hCarried.busy c (hPlacement.disjoint p (.free c) x hCarried.mem hFree)
  · cases hNone.symm.trans hCarried.data

/-- The call goes on with its container at another place. -/
theorem Account.proceed {call : Call} {stage : Stage} (hPlaced : Placed s s' x q d')
    (hCourse : Course r call (story r trace ++ [label]) stage) (hLabel : label.2.rpc = some r)
    (hOnly : ∀ y i e, Carried s r y i e → y = x) (hRpc : d'.rpc = r) (hBusy : ∀ c, q ≠ .free c)
    (hFits : Fits s' call d' stage q) (hCaller : d'.caller = call.caller)
    (hOpaque : d'.clientOpaque = call.msg.opaqueValue) : Account (trace ++ [label]) s' r := by
  refine .pending ?_ (hPlaced.carried hRpc hBusy) hFits hCaller hOpaque
    fun y i e hy => (hPlaced.carried_only hOnly y i e hy).1
  rw [story_own hLabel]
  exact hCourse

/-- The call is over and its container goes back to the pool. -/
theorem Account.finish {call : Call} {stage : Stage} {c : Nat} (hPlaced : Placed s s' x (.free c) d')
    (hCourse : Course r call (story r trace ++ [label]) stage) (hLabel : label.2.rpc = some r)
    (hOnly : ∀ y i e, Carried s r y i e → y = x) (hClosed : Closed s' call stage) :
    Account (trace ++ [label]) s' r := by
  refine .closed ?_ hClosed fun y i e hy => hy.busy c (hPlaced.carried_only hOnly y i e hy).2
  rw [story_own hLabel]
  exact hCourse

/-- A container is freed; if it carried a call, its caller is gone. -/
theorem Ledger.freed (h : Ledger trace s) (hPlacement : Placement (held s) (live s))
    (hGone : ∀ c, Gone s c → Gone s' c) (hRemoved : Removed s s' x)
    (hPlace : ∃ c, x ∈ held s (.free c) ∨ x ∈ held s (.replies c) ∧ Gone s c)
    (hLabel : label.2.rpc = none) (r : Nat) : Account (trace ++ [label]) s' r := by
  have hCarried : ∀ y i e, Carried s' r y i e ↔ y ≠ x ∧ Carried s r y i e := by
    intro y i e
    constructor
    · intro hy
      have hMem := (hRemoved.mem i y).mp hy.mem
      have hData := hy.data
      rw [hRemoved.containers_eq, Function.update_of_ne hMem.1] at hData
      exact ⟨hMem.1, hMem.2, hData, hy.rpc, hy.busy⟩
    · rintro ⟨hNe, hy⟩
      refine ⟨(hRemoved.mem i y).mpr ⟨hNe, hy.mem⟩, ?_, hy.rpc, hy.busy⟩
      rw [hRemoved.containers_eq, Function.update_of_ne hNe]
      exact hy.data
  by_cases hWas : ∃ i e, Carried s r x i e
  · obtain ⟨i, e, hx⟩ := hWas
    obtain ⟨call, stage, hCourse, hFits, -, -, hOnly⟩ := (h.account r).of_carried hPlacement hx
    obtain ⟨c, hFree | ⟨hReplies, hLost⟩⟩ := hPlace
    · exact (hx.busy c (hPlacement.disjoint i _ x hx.mem hFree)).elim
    · obtain rfl := hPlacement.disjoint i _ x hx.mem hReplies
      have hStory : story r (trace ++ [label]) = story r trace := story_other (by simp [hLabel])
      refine .closed (hStory.symm ▸ hCourse) ?_ fun y j f hy => ?_
      · cases hFits
        exact hGone _ hLost
      · exact ((hCarried y j f).mp hy).1 (hOnly y j f ((hCarried y j f).mp hy).2)
  · refine (h.account r).frame (by simp [hLabel]) hGone (fun y i e => ?_)
      fun id y e hy => congrFun hRemoved.running_eq id
    rw [hCarried]
    refine ⟨And.right, fun hy => ⟨?_, hy⟩⟩
    rintro rfl
    exact hWas ⟨i, e, hy⟩

theorem Effect.account (hC : Conserved s) (h : Ledger trace s) (hGone : ∀ c, Gone s c → Gone s' c)
    (hEffect : Effect s op outcome s') : ∀ r, Account (trace ++ [(op, outcome)]) s' r := by
  have hP := hC.placement
  cases hEffect with
  | unmoved hQuiet hUnmoved =>
      intro r
      refine (h.account r).frame (by simp [hQuiet]) hGone (fun y i e => ?_)
        fun id y e hy => hUnmoved.untouched id y hy.mem
      constructor
      · exact fun hy => ⟨hUnmoved.held_eq ▸ hy.mem, hUnmoved.containers_eq ▸ hy.data, hy.rpc, hy.busy⟩
      · exact fun hy => ⟨hUnmoved.held_eq ▸ hy.mem, hUnmoved.containers_eq ▸ hy.data, hy.rpc, hy.busy⟩
  | @freed id c x _ hRemoved hPlace =>
      refine h.freed hP hGone hRemoved ⟨c, hPlace.imp_right fun ⟨hx, hFrees⟩ => ⟨hx, ?_⟩⟩ rfl
      obtain ⟨caller, hCaller, hZero⟩ := (hC.references c).dying id hFrees
      refine ⟨Nat.lt_of_not_le fun hLe => ?_, fun b hb => ?_⟩
      · cases (hC.allocated.callers c hLe).symm.trans hCaller
      · exact Option.some.inj (hCaller.symm.trans hb) ▸ hZero
  | @rejected c k x msg heap status d _ hPlaced hWas hOwner =>
      exact fun r => (h.account r).frame_placed (by simp [Outcome.rpc]) hGone hPlaced
        (fun p d => not_carried hP hWas) (Or.inr ⟨c, rfl⟩)
  | @prepared c k x msg heap d _ hPlaced hWas hOwner hRun hMessage hOpaque hCaller hRpc =>
      intro r
      by_cases hEq : r = s.opsCount
      · subst hEq
        have hStory : story s.opsCount trace = [] := h.fresh _ (Nat.le_refl _)
        have hNone : ∀ y i e, ¬Carried s s.opsCount y i e :=
          fun y i e hy => Nat.lt_irrefl _ (h.known hy)
        have hFits : Fits _ ⟨c, k, msg⟩ d .preparing (.operation s.opsCount) := .initiating hRun hMessage
        refine .proceed hPlaced ?_ rfl (fun y i e hy => (hNone y i e hy).elim) hRpc (by simp) hFits hCaller
          hOpaque
        rw [hStory]
        exact .prepared heap
      · exact (h.account r).frame_placed (by simpa [Outcome.rpc] using Ne.symm hEq) hGone hPlaced
          (fun p d => not_carried hP hWas) (Or.inl fun hSame => hEq (hSame.symm.trans hRpc))
  | @refused id c k x d _ hPlaced hRun hData hRun' =>
      have hx : Carried s d.rpc x (.operation id) d :=
        ⟨mem_operation hRun (List.mem_singleton_self x), hData, rfl, by simp⟩
      obtain ⟨call, stage, hCourse, hFits, hCaller, hOpaque, hOnly⟩ := (h.account _).of_carried hP hx
      refine h.move hP hGone hPlaced hx rfl (fun _ _ => by simp [Outcome.rpc]) ?_
      have hStory : story d.rpc (trace ++ [(.run id, .proceeded)]) = story d.rpc trace :=
        story_other (by simp [Outcome.rpc])
      refine .pending (hStory.symm ▸ hCourse) (hPlaced.carried rfl (by simp)) ?_ hCaller hOpaque
        fun y i e hy => (hPlaced.carried_only hOnly y i e hy).1
      cases hFits with
      | initiating hSame hRequest =>
          obtain ⟨rfl, -⟩ := Running.initiating.inj (Option.some.inj (hRun.symm.trans hSame))
          exact .unreachable hRun' hRequest
      | unreachable hSame => cases hRun.symm.trans hSame
      | answered hSame => cases hRun.symm.trans hSame
  | @enqueued id c k x d _ hPlaced hRun hData =>
      have hx : Carried s d.rpc x (.operation id) d :=
        ⟨mem_operation hRun (List.mem_singleton_self x), hData, rfl, by simp⟩
      obtain ⟨call, stage, hCourse, hFits, hCaller, hOpaque, hOnly⟩ := (h.account _).of_carried hP hx
      refine h.move hP hGone hPlaced hx rfl (fun r' hNe => by simpa [Outcome.rpc] using Ne.symm hNe) ?_
      cases hFits with
      | initiating hSame hRequest =>
          obtain ⟨-, rfl, -⟩ := Running.initiating.inj (Option.some.inj (hRun.symm.trans hSame))
          exact .proceed hPlaced (.enqueued id hCourse) rfl hOnly rfl (by simp) (.queued hRequest) hCaller
            hOpaque
      | unreachable hSame => cases hRun.symm.trans hSame
      | answered hSame => cases hRun.symm.trans hSame
  | @undelivered id c x d _ hPlaced hRun hData =>
      have hx : Carried s d.rpc x (.operation id) d :=
        ⟨mem_operation hRun (List.mem_singleton_self x), hData, rfl, by simp⟩
      obtain ⟨call, stage, hCourse, hFits, hCaller, hOpaque, hOnly⟩ := (h.account _).of_carried hP hx
      refine h.move hP hGone hPlaced hx rfl (fun r' hNe => by simpa [Outcome.rpc] using Ne.symm hNe) ?_
      cases hFits with
      | initiating hSame => cases hRun.symm.trans hSame
      | unreachable => exact .finish hPlaced (.undelivered id hCourse) rfl hOnly trivial
      | answered hSame => cases hRun.symm.trans hSame
  | @accepted k x msg d seq _ hPlaced hWas hData =>
      have hx : Carried s d.rpc x (.incoming k) d := ⟨hWas, hData, rfl, by simp⟩
      obtain ⟨call, stage, hCourse, hFits, hCaller, hOpaque, hOnly⟩ := (h.account _).of_carried hP hx
      refine h.move hP hGone hPlaced hx rfl (fun r' hNe => by simpa [Outcome.rpc] using Ne.symm hNe) ?_
      cases hFits with
      | queued hRequest =>
          exact .proceed hPlaced (.accepted msg _ hCourse ((matches_stored _ _ _).trans hRequest)) rfl
            hOnly rfl (by simp) (.awaiting hRequest) hCaller hOpaque
  | @returned k x msg message d _ hPlaced hWas hData hKey hMessage hRun =>
      have hx : Carried s d.rpc x (.awaiting k) d := ⟨hWas, hData, rfl, by simp⟩
      obtain ⟨call, stage, hCourse, hFits, hCaller, hOpaque, hOnly⟩ := (h.account _).of_carried hP hx
      refine h.move hP hGone hPlaced hx rfl (fun r' hNe => by simpa [Outcome.rpc] using Ne.symm hNe) ?_
      cases hFits with
      | awaiting hRequest =>
          exact .proceed hPlaced (.returned msg (hKey ▸ hCourse)) rfl hOnly rfl (by simp)
            (.answered hRun hMessage) hCaller hOpaque
  | @aborted id k x after d _ hPlaced hWas hData hRun =>
      have hx : ∃ p, Carried s d.rpc x p d ∧ (p = .incoming k ∨ p = .awaiting k) := by
        rcases hWas with hWas | hWas
        · exact ⟨_, ⟨hWas, hData, rfl, by simp⟩, Or.inl rfl⟩
        · exact ⟨_, ⟨hWas, hData, rfl, by simp⟩, Or.inr rfl⟩
      obtain ⟨p, hx, hPlace⟩ := hx
      obtain ⟨call, stage, hCourse, hFits, hCaller, hOpaque, hOnly⟩ := (h.account _).of_carried hP hx
      refine h.move hP hGone hPlaced hx rfl (fun r' hNe => by simpa [Outcome.rpc] using Ne.symm hNe) ?_
      have hCourse' : Course d.rpc call (story d.rpc trace ++ [(.run id, .aborted d.rpc)])
          (.answered .noReply) := by
        rcases hPlace with rfl | rfl
        · cases hFits
          exact .aborted id hCourse
        · cases hFits
          exact .abortedLate id hCourse
      exact .proceed hPlaced hCourse' rfl hOnly rfl (by simp) (.answered hRun ⟨rfl, rfl⟩) hCaller hOpaque
  | @replied id x after d _ hPlaced hRun hData =>
      have hx : Carried s d.rpc x (.operation id) d :=
        ⟨mem_operation hRun (List.mem_singleton_self x), hData, rfl, by simp⟩
      obtain ⟨call, stage, hCourse, hFits, hCaller, hOpaque, hOnly⟩ := (h.account _).of_carried hP hx
      refine h.move hP hGone hPlaced hx rfl (fun r' hNe => by simpa [Outcome.rpc] using Ne.symm hNe) ?_
      cases hFits with
      | initiating hSame => cases hRun.symm.trans hSame
      | unreachable hSame => cases hRun.symm.trans hSame
      | answered hSame hAnswer =>
          rw [hCaller] at hPlaced ⊢
          exact .proceed hPlaced (.replied id hCourse) rfl hOnly rfl (by simp) (.delivered hAnswer) hCaller
            hOpaque
  | @result c x msg d _ hPlaced hWas hData =>
      have hx : Carried s d.rpc x (.replies c) d := ⟨hWas, hData, rfl, by simp⟩
      obtain ⟨call, stage, hCourse, hFits, hCaller, hOpaque, hOnly⟩ := (h.account _).of_carried hP hx
      refine h.move hP hGone hPlaced hx rfl (fun r' hNe => by simpa [Outcome.rpc] using Ne.symm hNe) ?_
      cases hFits with
      | delivered hAnswer =>
          exact .finish hPlaced (.result msg _ hCourse hOpaque (hAnswer.of_stored (matches_stored _ _ _)))
            rfl hOnly trivial

/-- The event that a step reports is about a call that has begun. -/
theorem Effect.rpc_lt (h : Ledger trace s) (hStep : Transition s op outcome s')
    (hEffect : Effect s op outcome s') (hLabel : outcome.rpc = some r) : r < s'.opsCount := by
  have hLe := hStep.opsCount_le
  have hKnown : ∀ x p d, x ∈ held s p → s.containers x = some d → (∀ c, p ≠ .free c) →
      some d.rpc = some r → r < s'.opsCount := by
    intro x p d hMem hData hBusy hEq
    exact Nat.lt_of_lt_of_le (h.known ⟨hMem, hData, Option.some.inj hEq, hBusy⟩) hLe
  cases hEffect with
  | unmoved hQuiet => cases hQuiet.symm.trans hLabel
  | freed => cases hLabel
  | rejected => cases hLabel
  | prepared => exact Option.some.inj hLabel ▸ hStep.prepared_lt
  | refused => cases hLabel
  | enqueued _ hRun hData =>
      exact hKnown _ _ _ (mem_operation hRun (List.mem_singleton_self _)) hData (by simp) hLabel
  | undelivered _ hRun hData =>
      exact hKnown _ _ _ (mem_operation hRun (List.mem_singleton_self _)) hData (by simp) hLabel
  | accepted _ hWas hData => exact hKnown _ _ _ hWas hData (by simp) hLabel
  | returned _ hWas hData => exact hKnown _ _ _ hWas hData (by simp) hLabel
  | aborted _ hWas hData =>
      rcases hWas with hWas | hWas
      · exact hKnown _ _ _ hWas hData (by simp) hLabel
      · exact hKnown _ _ _ hWas hData (by simp) hLabel
  | replied _ hRun hData =>
      exact hKnown _ _ _ (mem_operation hRun (List.mem_singleton_self _)) hData (by simp) hLabel
  | result _ hWas hData => exact hKnown _ _ _ hWas hData (by simp) hLabel

theorem Ledger.step (hC : Conserved s) (h : Ledger trace s) (hStep : Transition s op outcome s') :
    Ledger (trace ++ [(op, outcome)]) s' := by
  have hEffect := (hStep.effect hC).2
  refine ⟨hEffect.account hC h fun c hGone => hGone.step hC hStep, fun r hr => ?_⟩
  have hNot : outcome.rpc ≠ some r := fun hLabel =>
    Nat.lt_irrefl _ (Nat.lt_of_lt_of_le (hEffect.rpc_lt h hStep hLabel) hr)
  rw [story_other hNot]
  exact h.fresh r (hStep.opsCount_le.trans hr)

theorem Ledger.run (run : system.Execution trace s) : Ledger trace s := by
  refine run.invariant (P := Ledger) (fun s hs => ?_) fun trace s label s' prior h hStep => ?_
  · obtain rfl := hs
    exact ⟨fun r => .unknown rfl fun x p d hx => (by cases hx.data), fun _ _ => rfl⟩
  · exact h.step (Conserved.run prior) (exec_transition hStep)

end Steps

end Ricerca.Rpc
