import Ricerca.User.RpcConserved

/-! A callee that was shut down keeps no request: as long as one is left, an operation
runs that answers it. And no operation is ever stuck: its next section finds all the
memory it uses. -/
namespace Ricerca.Rpc

open Ricerca.Foundation Ricerca.Cookie Ricerca.Lib

/-- How far the operation has come that empties a callee: it works on the queue
(`none`) or on a bucket of the map. -/
def After.draining : After → Option (Nat × Option Nat)
  | .incoming k => some (k, none)
  | .awaiting k i => some (k, some i)
  | .returned _ | .callerShutDown => none

def Running.draining : Running → Option (Nat × Option Nat)
  | .drainingIncoming k => some (k, none)
  | .drainingAwaiting k i => some (k, some i)
  | .replying _ after | .droppingCaller _ after | .freeingReplies _ after => after.draining
  | _ => none

/-- The callee that an operation goes to next. -/
def Running.target : Running → Option Nat
  | .initiating _ k _ => some k
  | r => r.draining.map Prod.fst

def draining (s : State) (id : Nat) : Option (Nat × Option Nat) := (s.running id).bind Running.draining

def target (s : State) (id : Nat) : Option Nat := (s.running id).bind Running.target

/-- What the operation has emptied so far. -/
def Emptied (callee : UserRpcCallee) : Option Nat → Prop
  | none => True
  | some i => callee.incomingRpcs = [] ∧ ∀ j < i, callee.awaitingReply.nodes j = []

/-- A callee that was shut down is empty, or an operation works on it. -/
structure Drained (s : State) (k : Nat) : Prop where
  targeted : ∀ id, target s id = some k → s.callees k ≠ none
  drained : ∀ callee, s.callees k = some callee → callee.isShutDown = true →
    Emptied callee (some callee.awaitingReply.bucketsCount) ∨
      ∃ id position, draining s id = some (k, position) ∧ Emptied callee position
  shut : ∀ id position callee, draining s id = some (k, position) → s.callees k = some callee →
    callee.isShutDown = true

section Views

variable {s s' : State} {id : Nat} {r : Option Running}

theorem draining_update {δ : Option (Nat × Option Nat)}
    (h : s'.running = Function.update s.running id r) (hDraining : r.bind Running.draining = δ) :
    draining s' = Function.update (draining s) id δ := by
  subst hDraining
  funext i
  by_cases hi : i = id
  · subst hi
    simp [draining, h]
  · simp [draining, h, Function.update_of_ne hi]

theorem draining_same (h : s'.running = Function.update s.running id r)
    (hDraining : r.bind Running.draining = draining s id) : draining s' = draining s := by
  rw [draining_update h hDraining]
  exact Function.update_eq_self ..

theorem target_cases (h : s'.running = Function.update s.running id r) {i k : Nat}
    (hTarget : target s' i = some k) : r.bind Running.target = some k ∨ target s i = some k := by
  by_cases hi : i = id
  · subst hi
    simp only [target, h, Function.update_self] at hTarget
    exact Or.inl hTarget
  · simp only [target, h, Function.update_of_ne hi] at hTarget
    exact Or.inr hTarget

theorem target_of_draining {k : Nat} {position : Option Nat} (h : draining s id = some (k, position)) :
    target s id = some k := by
  obtain ⟨r, hRun, hDraining⟩ := Option.bind_eq_some_iff.mp h
  rw [target, hRun]
  cases r <;> simp_all [Running.target, Running.draining]

theorem After.draining_next (after : After) : after.next.bind Running.draining = after.draining := by
  cases after <;> rfl

theorem After.target_next (after : After) :
    after.next.bind Running.target = after.draining.map Prod.fst := by
  cases after <;> rfl

end Views

/-- Queues can only become shorter. -/
structure Shrunk (callee callee' : UserRpcCallee) : Prop where
  shut : callee'.isShutDown = callee.isShutDown
  count : callee'.awaitingReply.bucketsCount = callee.awaitingReply.bucketsCount
  incoming : callee'.isShutDown = true → callee.incomingRpcs = [] → callee'.incomingRpcs = []
  nodes : callee'.isShutDown = true → ∀ i, callee.awaitingReply.nodes i = [] →
    callee'.awaitingReply.nodes i = []

section Steps

variable {s s' : State} {k id : Nat}

theorem Shrunk.refl (callee : UserRpcCallee) : Shrunk callee callee :=
  ⟨rfl, rfl, fun _ => id, fun _ _ => id⟩

/-- Nothing is promised about a callee that was not shut down. -/
theorem Shrunk.open {callee callee' : UserRpcCallee} (hOpen : callee.isShutDown = false)
    (hOpen' : callee'.isShutDown = false)
    (hCount : callee'.awaitingReply.bucketsCount = callee.awaitingReply.bucketsCount) :
    Shrunk callee callee' := by
  have hNot : callee'.isShutDown ≠ true := by simp [hOpen']
  exact ⟨hOpen'.trans hOpen.symm, hCount, fun h => (hNot h).elim, fun h => (hNot h).elim⟩

theorem Emptied.shrunk {callee callee' : UserRpcCallee} {position : Option Nat}
    (h : Emptied callee position) (hShrunk : Shrunk callee callee') (hShut : callee'.isShutDown = true) :
    Emptied callee' position := by
  cases position with
  | none => trivial
  | some i => exact ⟨hShrunk.incoming hShut h.1, fun j hj => hShrunk.nodes hShut j (h.2 j hj)⟩

/-- No operation that empties the callee goes on. -/
theorem Drained.still (h : Drained s k) (hDraining : draining s' = draining s)
    (hTargeted : ∀ id, target s' id = some k → s.callees k ≠ none)
    (hKept : s.callees k ≠ none → s'.callees k ≠ none)
    (hCallee : ∀ callee', s'.callees k = some callee' →
      (∃ callee, s.callees k = some callee ∧ Shrunk callee callee') ∨
        s.callees k = none ∧ callee'.isShutDown = false) : Drained s' k := by
  refine ⟨fun id hTarget => hKept (hTargeted id hTarget), fun callee' hCallee' hShut => ?_,
    fun id position callee' hId hCallee' => ?_⟩
  · rcases hCallee callee' hCallee' with ⟨callee, hOld, hShrunk⟩ | ⟨-, hOpen⟩
    · rw [hDraining, hShrunk.count]
      rcases h.drained callee hOld (hShrunk.shut ▸ hShut) with hDone | ⟨id, position, hId, hEmptied⟩
      · exact Or.inl (hDone.shrunk hShrunk hShut)
      · exact Or.inr ⟨id, position, hId, hEmptied.shrunk hShrunk hShut⟩
    · cases hOpen.symm.trans hShut
  · rw [hDraining] at hId
    rcases hCallee callee' hCallee' with ⟨callee, hOld, hShrunk⟩ | ⟨hNone, -⟩
    · exact hShrunk.shut.trans (h.shut id position callee hId hOld)
    · exact (h.targeted id (target_of_draining hId) hNone).elim

/-- One operation goes on, as a callee loses requests or gets some while it is open. -/
theorem Drained.update {k' : Nat} {r : Option Running} {callee callee' : UserRpcCallee}
    (h : Drained s k) (hRunning : s'.running = Function.update s.running id r)
    (hDraining : r.bind Running.draining = draining s id)
    (hTarget : r.bind Running.target = some k → target s id = some k ∨ s.callees k ≠ none)
    (hCallees : s'.callees = Function.update s.callees k' (some callee'))
    (hCallee : s.callees k' = some callee) (hShrunk : Shrunk callee callee') : Drained s' k := by
  refine h.still (draining_same hRunning hDraining) (fun i hi => ?_) (fun hSome => ?_)
    fun b hb => Or.inl ?_
  · rcases target_cases hRunning hi with hNew | hOld
    · exact (hTarget hNew).elim (h.targeted id) (fun hSome => hSome)
    · exact h.targeted i hOld
  · rw [hCallees]
    by_cases hEq : k = k'
    · simp [hEq]
    · rwa [Function.update_of_ne hEq]
  · rw [hCallees] at hb
    by_cases hEq : k = k'
    · subst hEq
      rw [Function.update_self] at hb
      obtain rfl := Option.some.inj hb
      exact ⟨callee, hCallee, hShrunk⟩
    · rw [Function.update_of_ne hEq] at hb
      exact ⟨b, hb, .refl b⟩

/-- One operation goes on and the callees stay as they are. -/
theorem Drained.continue {r : Option Running} (h : Drained s k)
    (hRunning : s'.running = Function.update s.running id r)
    (hDraining : r.bind Running.draining = draining s id)
    (hTarget : r.bind Running.target = some k → target s id = some k ∨ s.callees k ≠ none)
    (hCallees : s'.callees = s.callees) : Drained s' k := by
  refine h.still (draining_same hRunning hDraining) (fun i hi => ?_) (fun hSome => hCallees ▸ hSome)
    fun b hb => Or.inl ⟨b, hCallees ▸ hb, .refl b⟩
  rcases target_cases hRunning hi with hNew | hOld
  · exact (hTarget hNew).elim (h.targeted id) (fun hSome => hSome)
  · exact h.targeted i hOld

theorem Drained.same (h : Drained s k) (hRunning : s'.running = s.running)
    (hCallees : s'.callees = s.callees) : Drained s' k := by
  have hSame : draining s' = draining s := by
    funext i
    rw [draining, draining, hRunning]
  refine h.still hSame (fun i hi => ?_) (fun hSome => hCallees ▸ hSome)
    fun b hb => Or.inl ⟨b, hCallees ▸ hb, .refl b⟩
  exact h.targeted i (by rwa [target, hRunning] at hi)

/-- The operation that goes on does not empty this callee. -/
theorem Drained.other {r : Option Running} (h : Drained s k)
    (hRunning : s'.running = Function.update s.running id r)
    (hOther : ∀ position, draining s id ≠ some (k, position))
    (hTarget : r.bind Running.target = some k → target s id = some k ∨ s.callees k ≠ none)
    (hIs : ∀ position, r.bind Running.draining ≠ some (k, position))
    (hCallees : s'.callees k = s.callees k) : Drained s' k := by
  refine ⟨fun i hi => ?_, fun b hb hShut => ?_, fun i position b hDraining hb => ?_⟩
  · rw [hCallees]
    rcases target_cases hRunning hi with hNew | hOld
    · exact (hTarget hNew).elim (h.targeted id) (fun hSome => hSome)
    · exact h.targeted i hOld
  · rw [hCallees] at hb
    refine (h.drained b hb hShut).imp_right fun ⟨i, position, hDraining, hEmptied⟩ => ?_
    have hi : i ≠ id := by
      rintro rfl
      exact hOther position hDraining
    refine ⟨i, position, ?_, hEmptied⟩
    rw [draining_update hRunning rfl, Function.update_of_ne hi]
    exact hDraining
  · rw [hCallees] at hb
    rw [draining_update hRunning rfl] at hDraining
    by_cases hi : i = id
    · subst hi
      rw [Function.update_self] at hDraining
      exact (hIs position hDraining).elim
    · rw [Function.update_of_ne hi] at hDraining
      exact h.shut i position b hDraining hb

/-- The operation that empties this callee goes on. -/
theorem Drained.advance {r : Option Running} {callee : UserRpcCallee} {position : Option Nat}
    (h : Drained s k) (hRunning : s'.running = Function.update s.running id r)
    (hCallees : s'.callees = s.callees) (hCallee : s.callees k = some callee)
    (hWas : draining s id = some (k, position))
    (hDone : Emptied callee position →
      Emptied callee (some callee.awaitingReply.bucketsCount) ∨
        ∃ position', r.bind Running.draining = some (k, position') ∧ Emptied callee position') :
    Drained s' k := by
  refine ⟨fun i hi => ?_, fun b hb hShut => ?_, fun i position' b _ hb => ?_⟩
  · rw [hCallees, hCallee]
    exact Option.some_ne_none callee
  · rw [hCallees, hCallee] at hb
    obtain rfl := Option.some.inj hb
    rcases h.drained callee hCallee hShut with hAll | ⟨i, position', hDraining, hEmptied⟩
    · exact Or.inl hAll
    · by_cases hi : i = id
      · subst hi
        obtain ⟨-, rfl⟩ := Prod.mk.inj (Option.some.inj (hWas.symm.trans hDraining))
        refine (hDone hEmptied).imp_right fun ⟨position', hNext, hEmptied'⟩ => ?_
        exact ⟨i, position', by rw [draining_update hRunning hNext, Function.update_self], hEmptied'⟩
      · refine Or.inr ⟨i, position', ?_, hEmptied⟩
        rw [draining_update hRunning rfl, Function.update_of_ne hi]
        exact hDraining
  · rw [hCallees] at hb
    exact h.shut id position b hWas hb

end Steps

section Transitions

variable {s s' : State} {op : Op} {outcome : Outcome}

theorem draining_of_running {id : Nat} {r : Running} (hRun : s.running id = some r) :
    draining s id = r.draining := by
  simp [draining, hRun]

theorem target_of_running {id : Nat} {r : Running} (hRun : s.running id = some r) :
    target s id = r.target := by
  simp [target, hRun]

theorem Allocated.draining_new (h : Allocated s) : draining s s.opsCount = none := by
  simp [draining, h.ids s.opsCount (Nat.le_refl _)]

theorem Drained.createCallee {k count : Nat} (h : Drained s k) (hAllocated : Allocated s) :
    Drained { s.setCallee s.calleesCount ⟨[], intmapInit count, 0, false⟩ with
      calleesCount := s.calleesCount + 1 } k := by
  refine h.still rfl (fun id hTarget => h.targeted id hTarget) (fun hSome => ?_) fun b hb => ?_
  · by_cases hEq : k = s.calleesCount
    · exact (hSome (hAllocated.callees k (Nat.le_of_eq hEq.symm))).elim
    · simpa [State.setCallee, Function.update_of_ne hEq] using hSome
  · by_cases hEq : k = s.calleesCount
    · subst hEq
      simp only [State.setCallee, Function.update_self, Option.some.injEq] at hb
      subst hb
      exact Or.inr ⟨hAllocated.callees _ (Nat.le_refl _), rfl⟩
    · simp only [State.setCallee, Function.update_of_ne hEq] at hb
      exact Or.inl ⟨b, hb, .refl b⟩

theorem Drained.shutDown {k k' : Nat} {callee' : UserRpcCallee} (h : Drained s k)
    (hAllocated : Allocated s) (hRunning : s'.running = Function.update s.running s.opsCount
      (some (.drainingIncoming k')))
    (hCallees : s'.callees = Function.update s.callees k' (some callee'))
    (hShut : callee'.isShutDown = true) : Drained s' k := by
  by_cases hEq : k = k'
  · subst hEq
    refine ⟨fun _ _ => by simp [hCallees], fun b hb _ => Or.inr ⟨s.opsCount, none, ?_, trivial⟩,
      fun i position b _ hb => ?_⟩
    · rw [draining_update hRunning rfl, Function.update_self]
      rfl
    · rw [hCallees, Function.update_self] at hb
      exact Option.some.inj hb ▸ hShut
  · refine h.other hRunning (fun position => ?_) (fun hTarget => ?_) (fun position hIs => ?_) ?_
    · rw [hAllocated.draining_new]
      simp
    · exact (hEq (Option.some.inj hTarget).symm).elim
    · exact hEq (Prod.mk.inj (Option.some.inj hIs)).1.symm
    · rw [hCallees, Function.update_of_ne hEq]

theorem Drained.step {k : Nat} (hAllocated : Allocated s) (h : Drained s k)
    (hStep : Transition s op outcome s') : Drained s' k := by
  have hNew := hAllocated.draining_new
  cases hStep with
  | failed => exact h
  | createCaller => exact h.same rfl rfl
  | createCallee => exact h.createCallee hAllocated
  | rejected => exact h.same rfl rfl
  | prepared hCaller hLive hCallee =>
      refine h.continue rfl hNew.symm (fun hTarget => Or.inr ?_) rfl
      obtain rfl := Option.some.inj hTarget
      rw [hCallee]
      exact Option.some_ne_none _
  | refused hRun => exact h.continue rfl (draining_of_running hRun).symm (by rintro ⟨⟩) rfl
  | enqueued hRun hCallee hContainer hLive =>
      exact h.update rfl (draining_of_running hRun).symm (by rintro ⟨⟩) rfl hCallee (.open hLive hLive rfl)
  | undelivered hRun => exact h.continue rfl (draining_of_running hRun).symm (by rintro ⟨⟩) rfl
  | accepted hCallee hLive =>
      exact h.update (Function.update_eq_self 0 s.running).symm rfl Or.inl rfl hCallee (.open hLive hLive rfl)
  | returned hCallee hLive =>
      exact h.update rfl hNew.symm (by rintro ⟨⟩) rfl hCallee (.open hLive hLive rfl)
  | replied hRun =>
      exact h.continue rfl (draining_of_running hRun).symm
        (fun hTarget => Or.inl ((target_of_running hRun).trans hTarget)) rfl
  | @dropped id c after caller hRun =>
      exact h.continue rfl (after.draining_next.trans (draining_of_running hRun).symm)
        (fun hTarget => Or.inl ((target_of_running hRun).trans (after.target_next.symm.trans hTarget))) rfl
  | droppedLast hRun =>
      exact h.continue rfl (draining_of_running hRun).symm
        (fun hTarget => Or.inl ((target_of_running hRun).trans hTarget)) rfl
  | replyFreed => exact h.same rfl rfl
  | @callerFreed id c after caller hRun =>
      exact h.continue rfl (after.draining_next.trans (draining_of_running hRun).symm)
        (fun hTarget => Or.inl ((target_of_running hRun).trans (after.target_next.symm.trans hTarget))) rfl
  | result => exact h.same rfl rfl
  | calleeShutDown => exact h.shutDown hAllocated rfl rfl rfl
  | incomingAborted hRun hCallee hQueue =>
      refine h.update rfl (draining_of_running hRun).symm
        (fun hTarget => Or.inl ((target_of_running hRun).trans hTarget)) rfl hCallee
        ⟨rfl, rfl, fun _ hEmpty => ?_, fun _ _ hEmpty => hEmpty⟩
      cases hQueue.symm.trans hEmpty
  | @incomingDrained id k' callee hRun hCallee hQueue =>
      by_cases hEq : k = k'
      · subst hEq
        refine h.advance rfl rfl hCallee (draining_of_running hRun) fun _ => Or.inr ⟨some 0, rfl, hQueue, ?_⟩
        exact fun j hj => (Nat.not_lt_zero j hj).elim
      · refine h.other rfl (fun position hDraining => ?_)
          (fun hTarget => Or.inl ((target_of_running hRun).trans hTarget)) (fun position hIs => ?_) rfl
        · exact hEq (Prod.mk.inj (Option.some.inj (hDraining.symm.trans (draining_of_running hRun)))).1
        · exact hEq (Prod.mk.inj (Option.some.inj hIs)).1.symm
  | @awaitingAborted id k' i x callee d rest hRun hCallee hBucket hQueue =>
      refine h.update rfl (draining_of_running hRun).symm
        (fun hTarget => Or.inl ((target_of_running hRun).trans hTarget)) rfl hCallee
        ⟨rfl, rfl, fun _ hEmpty => hEmpty, fun _ j hEmpty => ?_⟩
      by_cases hj : j = i
      · subst hj
        cases hQueue.symm.trans hEmpty
      · simpa [Intmap.removeHead, Function.update_of_ne hj] using hEmpty
  | @bucketDrained id k' i callee hRun hCallee hBucket hQueue =>
      by_cases hEq : k = k'
      · subst hEq
        refine h.advance rfl rfl hCallee (draining_of_running hRun) fun hEmptied =>
          Or.inr ⟨some (i + 1), rfl, hEmptied.1, fun j hj => ?_⟩
        rcases Nat.lt_succ_iff_lt_or_eq.mp hj with hj | rfl
        · exact hEmptied.2 j hj
        · exact hQueue
      · refine h.other rfl (fun position hDraining => ?_)
          (fun hTarget => Or.inl ((target_of_running hRun).trans hTarget)) (fun position hIs => ?_) rfl
        · exact hEq (Prod.mk.inj (Option.some.inj (hDraining.symm.trans (draining_of_running hRun)))).1
        · exact hEq (Prod.mk.inj (Option.some.inj hIs)).1.symm
  | @calleeDrained id k' i callee hRun hCallee hBucket =>
      by_cases hEq : k = k'
      · subst hEq
        refine h.advance rfl rfl hCallee (draining_of_running hRun) fun hEmptied =>
          Or.inl ⟨hEmptied.1, fun j hj => hEmptied.2 j (Nat.lt_of_lt_of_le hj hBucket)⟩
      · refine h.other rfl (fun position hDraining => ?_) (by rintro ⟨⟩) (by rintro _ ⟨⟩) rfl
        exact hEq (Prod.mk.inj (Option.some.inj (hDraining.symm.trans (draining_of_running hRun)))).1
  | callerShutDown => exact h.continue rfl hNew.symm (by rintro ⟨⟩) rfl
  | containerFreed => exact h.same rfl rfl
  | containersFreed hRun => exact h.continue rfl (draining_of_running hRun).symm (by rintro ⟨⟩) rfl

theorem Drained.run {trace : List (Op × Outcome)} (run : system.Execution trace s) (k : Nat) :
    Drained s k := by
  refine run.invariant (P := fun _ s => Drained s k) (fun s hs => ?_)
    fun trace s label s' prior h hStep => ?_
  · obtain rfl := hs
    exact ⟨by rintro _ ⟨⟩, by rintro _ ⟨⟩, by rintro _ _ _ ⟨⟩⟩
  · exact h.step (Conserved.run prior).allocated (exec_transition hStep)

end Transitions

section Progress

variable {s : State}

/-- The callers of the API hold a reference to what they use, the last reference is
dropped only once, and `mem_heap_alloc` gives out unused memory. -/
def Enabled (s : State) : Op → Prop
  | .createCaller | .createCallee _ => True
  | .initiate c k _ heap =>
      (∃ caller, s.callers c = some caller ∧ caller.isShutDown = false) ∧ s.callees k ≠ none ∧
        ∀ x junk, heap = some (x, junk) → s.containers x = none
  | .accept k _ | .returnRpc k _ => ∃ callee, s.callees k = some callee ∧ callee.isShutDown = false
  | .getResult c _ => ∃ caller, s.callers c = some caller ∧ caller.isShutDown = false
  | .shutdownCallee k =>
      (∃ callee, s.callees k = some callee ∧ callee.isShutDown = false) ∧ ¬s.usesCallee k
  | .shutdownCaller c =>
      (∃ caller, s.callers c = some caller ∧ caller.isShutDown = false) ∧ ¬s.usesCaller c
  | .run id => s.running id ≠ none

theorem step_ne_none {id : Nat} {r : Running} (hC : Conserved s) (hD : ∀ k, Drained s k)
    (hRun : s.running id = some r) : step s id r ≠ none := by
  have hP := hC.placement
  have hCallee : ∀ k, r.target = some k → ∃ callee, s.callees k = some callee := fun k hTarget =>
    Option.ne_none_iff_exists'.mp ((hD k).targeted id ((target_of_running hRun).trans hTarget))
  have hLocal : ∀ x ∈ r.container, ∃ d, s.containers x = some d := fun x hx =>
    data_of_mem hP (mem_operation hRun hx)
  cases r with
  | initiating c k x =>
      obtain ⟨callee, hCallee⟩ := hCallee k rfl
      obtain ⟨d, hData⟩ := hLocal x (List.mem_singleton_self x)
      simp only [step, hCallee, hData, Option.bind_eq_bind, Option.bind_some]
      split_ifs <;> simp
  | unreachable c x =>
      obtain ⟨caller, hCaller, hOpen⟩ := (hC.references c).holding id (role_of_running hRun)
      obtain ⟨d, hData⟩ := hLocal x (List.mem_singleton_self x)
      simp [step, hCaller, hData, hOpen]
  | replying x after =>
      obtain ⟨d, hData⟩ := hLocal x (List.mem_singleton_self x)
      have hOwed : Token.container x ∈ owing s d.caller :=
        ⟨.operation id, d, mem_operation hRun (List.mem_singleton_self x), trivial, hData, rfl⟩
      obtain ⟨caller, hCaller⟩ :=
        Option.ne_none_iff_exists'.mp ((hC.references d.caller).owed _ hOwed)
      simp [step, hData, hCaller]
  | droppingCaller c after =>
      have hOwed : Token.operation id ∈ owing s c := role_of_running hRun
      obtain ⟨caller, hCaller⟩ := Option.ne_none_iff_exists'.mp ((hC.references c).owed _ hOwed)
      have hPos : 0 < caller.deallocRefcount := ((hC.references c).counted caller hCaller).pos hOwed
      simp [step, hCaller, Nat.pos_iff_ne_zero.mp hPos]
  | freeingReplies c after =>
      obtain ⟨caller, hCaller, -⟩ := (hC.references c).dying id (role_of_running hRun)
      simp only [step, hCaller, Option.bind_eq_bind, Option.bind_some]
      split <;> simp
  | drainingIncoming k =>
      obtain ⟨callee, hCallee⟩ := hCallee k rfl
      simp only [step, hCallee, Option.bind_eq_bind, Option.bind_some]
      split
      · rename_i x rest hQueue
        have hx : x ∈ held s (.incoming k) := by simp [held_incoming hCallee, hQueue]
        obtain ⟨d, hData⟩ := data_of_mem hP hx
        simp [abort, hData]
      · simp
  | drainingAwaiting k i =>
      obtain ⟨callee, hCallee⟩ := hCallee k rfl
      simp only [step, hCallee, Option.bind_eq_bind, Option.bind_some]
      split_ifs with hBucket
      · split
        · rename_i x rest hQueue
          have hx : x ∈ held s (.awaiting k) := by
            rw [held_awaiting hCallee]
            exact mem_all.mpr ⟨i, hBucket, by simp [hQueue]⟩
          obtain ⟨d, hData⟩ := data_of_mem hP hx
          simp [abort, hData]
        · simp
      · simp
  | freeingContainers c =>
      obtain ⟨caller, hCaller, -⟩ := (hC.references c).closing id (role_of_running hRun)
      simp only [step, hCaller, Option.bind_eq_bind, Option.bind_some]
      split <;> simp

/-- No call that may be made is stuck: it uses no memory that was freed and no assertion
in it fails. -/
theorem exec_ne_none {op : Op} (hC : Conserved s) (hD : ∀ k, Drained s k) (hEnabled : Enabled s op) :
    exec s op ≠ none := by
  have hP := hC.placement
  cases op with
  | createCaller => simp [exec]
  | createCallee buckets => simp [exec]
  | initiate c k msg heap =>
      obtain ⟨⟨caller, hCaller, hOpen⟩, hTarget, hHeap⟩ := hEnabled
      obtain ⟨callee, hCallee⟩ := Option.ne_none_iff_exists'.mp hTarget
      simp only [exec, hCaller, hCallee, hOpen, Option.bind_eq_bind, Option.bind_some,
        Bool.false_eq_true, if_false, userRpcInitiate]
      split
      · rename_i x rest hFree
        have hx : x ∈ held s (.free c) := by simp [held_free hCaller, hFree]
        obtain ⟨d, hData⟩ := data_of_mem hP hx
        simp [hData]
      · split
        · simp
        · rename_i x junk
          simp [hHeap x junk rfl]
  | accept k msg =>
      obtain ⟨callee, hCallee, hOpen⟩ := hEnabled
      simp only [exec, hCallee, hOpen, Option.bind_eq_bind, Option.bind_some, Bool.false_eq_true,
        if_false, userRpcAccept]
      split
      · simp
      · rename_i x rest hQueue
        have hx : x ∈ held s (.incoming k) := by simp [held_incoming hCallee, hQueue]
        obtain ⟨d, hData⟩ := data_of_mem hP hx
        simp [hData]
  | returnRpc k msg =>
      obtain ⟨callee, hCallee, hOpen⟩ := hEnabled
      simp only [exec, hCallee, hOpen, Option.bind_eq_bind, Option.bind_some, Bool.false_eq_true,
        if_false, userRpcReturn]
      split
      · simp
      · rename_i x hSearch
        have hx : x ∈ held s (.awaiting k) := by
          rw [held_awaiting hCallee]
          exact (search_mem (hC.allocated.buckets _ _ hCallee) hSearch).1
        obtain ⟨d, hData⟩ := data_of_mem hP hx
        simp [hData]
  | getResult c msg =>
      obtain ⟨caller, hCaller, hOpen⟩ := hEnabled
      simp only [exec, hCaller, hOpen, Option.bind_eq_bind, Option.bind_some, Bool.false_eq_true,
        if_false, userRpcGetResult]
      split
      · simp
      · rename_i x rest hQueue
        have hx : x ∈ held s (.replies c) := by simp [held_replies hCaller, hQueue]
        obtain ⟨d, hData⟩ := data_of_mem hP hx
        simp [hData]
  | shutdownCallee k =>
      obtain ⟨⟨callee, hCallee, hOpen⟩, hUnused⟩ := hEnabled
      simp [exec, hCallee, hOpen, hUnused]
  | shutdownCaller c =>
      obtain ⟨⟨caller, hCaller, hOpen⟩, hUnused⟩ := hEnabled
      simp [exec, hCaller, hOpen, hUnused]
  | run id =>
      obtain ⟨r, hRun⟩ := Option.ne_none_iff_exists'.mp hEnabled
      simp only [exec, hRun, Option.bind_eq_bind, Option.bind_some]
      exact step_ne_none hC hD hRun

end Progress

end Ricerca.Rpc
