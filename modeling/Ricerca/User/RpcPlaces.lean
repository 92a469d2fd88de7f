import Ricerca.Foundation.Placement
import Ricerca.User.RpcSteps

/-! Conservation of containers. A container that was allocated and not freed is in one
queue of its caller, in one of the two structures of a callee, or local to one running
operation. -/
namespace Ricerca.Rpc

open Ricerca.Foundation Ricerca.Cookie Ricerca.Lib

/-- Where a container can be. -/
inductive Place where
  | free (caller : Nat)
  | replies (caller : Nat)
  | incoming (callee : Nat)
  | awaiting (callee : Nat)
  | operation (id : Nat)
  deriving DecidableEq

/-- The container that only a running operation can reach. -/
def Running.container : Running → List Nat
  | .initiating _ _ x | .unreachable _ x | .replying x _ => [x]
  | _ => []

/-- The containers in a place. -/
def held (s : State) : Place → List Nat
  | .free c => ((s.callers c).map (·.freeContainers)).getD []
  | .replies c => ((s.callers c).map (·.incomingReplies)).getD []
  | .incoming k => ((s.callees k).map (·.incomingRpcs)).getD []
  | .awaiting k => ((s.callees k).map (·.awaitingReply.all)).getD []
  | .operation id => ((s.running id).map Running.container).getD []

/-- The memory of the container is allocated. -/
def live (s : State) (x : Nat) : Prop := s.containers x ≠ none

section Held

variable {s : State} {c k id : Nat} {caller a : UserRpcCaller} {callee b : UserRpcCallee}

theorem held_free (hCaller : s.callers c = some caller) : held s (.free c) = caller.freeContainers := by
  simp [held, hCaller]

theorem held_replies (hCaller : s.callers c = some caller) :
    held s (.replies c) = caller.incomingReplies := by
  simp [held, hCaller]

theorem held_incoming (hCallee : s.callees k = some callee) :
    held s (.incoming k) = callee.incomingRpcs := by
  simp [held, hCallee]

theorem held_awaiting (hCallee : s.callees k = some callee) :
    held s (.awaiting k) = callee.awaitingReply.all := by
  simp [held, hCallee]

theorem held_operation {r : Running} (hRun : s.running id = some r) :
    held s (.operation id) = r.container := by
  simp [held, hRun]

theorem mem_operation {r : Running} {x : Nat} (hRun : s.running id = some r) (hx : x ∈ r.container) :
    x ∈ held s (.operation id) := by
  rw [held_operation hRun]
  exact hx

@[simp]
theorem held_setContainer (s : State) (x : Nat) (container : Option UserRpcContainer) :
    held (s.setContainer x container) = held s := by
  funext p
  cases p <;> rfl

theorem held_setRunning (s : State) (id : Nat) (r : Option Running) :
    held (s.setRunning id r) =
      Function.update (held s) (.operation id) ((r.map Running.container).getD []) := by
  funext p
  by_cases hp : p = .operation id
  · subst hp
    simp [held, State.setRunning]
  · rw [Function.update_of_ne hp]
    cases p with
    | operation id' =>
        have hNe : id' ≠ id := fun hEq => hp (hEq ▸ rfl)
        simp [held, State.setRunning, Function.update_of_ne hNe]
    | _ => rfl

theorem held_start (s : State) (r : Running) :
    held (s.start r) = Function.update (held s) (.operation s.opsCount) r.container := by
  have hSame : held (s.start r) = held (s.setRunning s.opsCount (some r)) := by
    funext p
    cases p <;> rfl
  rw [hSame, held_setRunning]
  rfl

theorem held_setCaller (s : State) (c : Nat) (a : Option UserRpcCaller) :
    held (s.setCaller c a) =
      Function.update (Function.update (held s) (.free c) ((a.map (·.freeContainers)).getD []))
        (.replies c) ((a.map (·.incomingReplies)).getD []) := by
  funext p
  by_cases hReplies : p = .replies c
  · subst hReplies
    simp [held, State.setCaller]
  · rw [Function.update_of_ne hReplies]
    by_cases hFree : p = .free c
    · subst hFree
      simp [held, State.setCaller]
    · rw [Function.update_of_ne hFree]
      cases p with
      | free c' =>
          have hNe : c' ≠ c := fun hEq => hFree (hEq ▸ rfl)
          simp [held, State.setCaller, Function.update_of_ne hNe]
      | replies c' =>
          have hNe : c' ≠ c := fun hEq => hReplies (hEq ▸ rfl)
          simp [held, State.setCaller, Function.update_of_ne hNe]
      | _ => rfl

theorem held_setCallee (s : State) (k : Nat) (b : UserRpcCallee) :
    held (s.setCallee k b) =
      Function.update (Function.update (held s) (.incoming k) b.incomingRpcs)
        (.awaiting k) b.awaitingReply.all := by
  funext p
  by_cases hAwaiting : p = .awaiting k
  · subst hAwaiting
    simp [held, State.setCallee]
  · rw [Function.update_of_ne hAwaiting]
    by_cases hIncoming : p = .incoming k
    · subst hIncoming
      simp [held, State.setCallee]
    · rw [Function.update_of_ne hIncoming]
      cases p with
      | incoming k' =>
          have hNe : k' ≠ k := fun hEq => hIncoming (hEq ▸ rfl)
          simp [held, State.setCallee, Function.update_of_ne hNe]
      | awaiting k' =>
          have hNe : k' ≠ k := fun hEq => hAwaiting (hEq ▸ rfl)
          simp [held, State.setCallee, Function.update_of_ne hNe]
      | _ => rfl

/-- Only the pool of a caller changes. -/
theorem held_setFree (hCaller : s.callers c = some caller)
    (hSame : a.incomingReplies = caller.incomingReplies) :
    held (s.setCaller c (some a)) = Function.update (held s) (.free c) a.freeContainers := by
  rw [held_setCaller]
  refine Function.update_eq_self_iff.mpr ?_
  simp [held_replies hCaller, hSame]

/-- Only the replies of a caller change. -/
theorem held_setReplies (hCaller : s.callers c = some caller)
    (hSame : a.freeContainers = caller.freeContainers) :
    held (s.setCaller c (some a)) = Function.update (held s) (.replies c) a.incomingReplies := by
  rw [held_setCaller, Function.update_eq_self_iff (f := held s) |>.mpr]
  · rfl
  · simp [held_free hCaller, hSame]

theorem held_setIncoming (hCallee : s.callees k = some callee)
    (hSame : b.awaitingReply = callee.awaitingReply) :
    held (s.setCallee k b) = Function.update (held s) (.incoming k) b.incomingRpcs := by
  rw [held_setCallee]
  refine Function.update_eq_self_iff.mpr ?_
  simp [held_awaiting hCallee, hSame]

theorem held_setAwaiting (hCallee : s.callees k = some callee)
    (hSame : b.incomingRpcs = callee.incomingRpcs) :
    held (s.setCallee k b) = Function.update (held s) (.awaiting k) b.awaitingReply.all := by
  rw [held_setCallee, Function.update_eq_self_iff (f := held s) |>.mpr]
  simp [held_incoming hCallee, hSame]

/-- Neither queue of a caller changes. -/
theorem held_sameCaller (hCaller : s.callers c = some caller)
    (hFree : a.freeContainers = caller.freeContainers)
    (hReplies : a.incomingReplies = caller.incomingReplies) :
    held (s.setCaller c (some a)) = held s := by
  rw [held_setFree hCaller hReplies]
  refine Function.update_eq_self_iff.mpr ?_
  rw [held_free hCaller, hFree]

theorem held_sameCallee (hCallee : s.callees k = some callee)
    (hIncoming : b.incomingRpcs = callee.incomingRpcs)
    (hAwaiting : b.awaitingReply = callee.awaitingReply) : held (s.setCallee k b) = held s := by
  rw [held_setIncoming hCallee hAwaiting]
  refine Function.update_eq_self_iff.mpr ?_
  rw [held_incoming hCallee, hIncoming]

end Held

/-- No operation with another container than `x` has taken a step. -/
def Untouched (s s' : State) (x : Nat) : Prop :=
  ∀ id y, y ≠ x → y ∈ held s (.operation id) → s'.running id = s.running id

/-- Container `x` went to the place `q` and holds `d` there; everything else is as it
was. -/
structure Placed (s s' : State) (x : Nat) (q : Place) (d : UserRpcContainer) : Prop where
  mem : ∀ i y, y ∈ held s' i ↔ y = x ∧ i = q ∨ y ≠ x ∧ y ∈ held s i
  containers_eq : s'.containers = Function.update s.containers x (some d)
  untouched : Untouched s s' x

/-- Container `x` was freed. -/
structure Removed (s s' : State) (x : Nat) : Prop where
  mem : ∀ i y, y ∈ held s' i ↔ y ≠ x ∧ y ∈ held s i
  containers_eq : s'.containers = Function.update s.containers x none
  running_eq : s'.running = s.running

/-- All containers are as they were. -/
structure Unmoved (s s' : State) : Prop where
  held_eq : held s' = held s
  containers_eq : s'.containers = s.containers
  untouched : ∀ id y, y ∈ held s (.operation id) → s'.running id = s.running id

section Moves

variable {s s' : State} {x : Nat} {p q : Place} {d d' : UserRpcContainer} {l l' : List Nat}

theorem live_update (hData : s'.containers = Function.update s.containers x (some d)) (y : Nat) :
    live s' y ↔ y = x ∨ live s y := by
  rw [live, hData]
  by_cases hEq : y = x
  · simp [hEq]
  · simp [hEq, live]

theorem Untouched.same (hSame : s'.running = s.running) : Untouched s s' x :=
  fun id _ _ _ => congrFun hSame id

theorem Untouched.update {id : Nat} {r : Option Running}
    (hRunning : s'.running = Function.update s.running id r)
    (hOnly : ∀ y ∈ held s (.operation id), y = x) : Untouched s s' x := by
  intro i y hNe hy
  have hi : i ≠ id := fun hEq => hNe (hOnly y (hEq ▸ hy))
  rw [hRunning, Function.update_of_ne hi]

/-- A container goes from `p` to `q`. -/
theorem Placed.move (h : Placement (held s) (live s)) (hNe : p ≠ q)
    (hFrom : (held s p).Perm (x :: l)) (hTo : l'.Perm (x :: held s q))
    (hHeld : held s' = Function.update (Function.update (held s) p l) q l')
    (hData : s'.containers = Function.update s.containers x (some d)) (hUntouched : Untouched s s' x) :
    Placement (held s') (live s') ∧ Placed s s' x q d := by
  have hx : x ∈ held s p := hFrom.mem_iff.mpr (List.mem_cons_self ..)
  have hAt : held s' q = l' := by rw [hHeld, Function.update_self]
  have hLeft : held s' p = l := by rw [hHeld, Function.update_of_ne hNe, Function.update_self]
  have hRest : ∀ i, i ≠ p → i ≠ q → held s' i = held s i := fun i hp hq => by
    rw [hHeld, Function.update_of_ne hq, Function.update_of_ne hp]
  have hMoved : Placement (held s') (live s) :=
    h.move hNe (hLeft ▸ hFrom) (hAt ▸ hTo) hRest
  have hSame : ∀ y, live s' y ↔ live s y := by
    intro y
    rw [live_update hData]
    exact ⟨fun hy => hy.elim (fun hEq => hEq ▸ h.live_of_mem hx) id, Or.inr⟩
  refine ⟨⟨hMoved.nodup, hMoved.disjoint, fun y => (hSame y).trans (hMoved.live_iff y)⟩, ?_, hData, hUntouched⟩
  have hNodup := List.nodup_cons.mp (hFrom.nodup_iff.mp (h.nodup p))
  have hNotAt : x ∉ held s q := fun hq => hNe (h.disjoint p q x hx hq)
  intro i y
  by_cases hq : i = q
  · subst hq
    rw [hAt, hTo.mem_iff, List.mem_cons]
    by_cases hy : y = x
    · simp [hy]
    · simp [hy]
  · by_cases hp : i = p
    · subst hp
      rw [hLeft, hFrom.mem_iff, List.mem_cons]
      by_cases hy : y = x
      · simp [hy, hq, hNodup.1]
      · simp [hy]
    · rw [hRest i hp hq]
      by_cases hy : y = x
      · subst hy
        simp only [hq, and_false, ne_eq, not_true_eq_false, false_and, or_false, iff_false]
        exact fun hi => hp (h.disjoint i p y hi hx)
      · simp [hy]

/-- A container is allocated. -/
theorem Placed.insert (h : Placement (held s) (live s)) (hNew : s.containers x = none)
    (hTo : l'.Perm (x :: held s q)) (hHeld : held s' = Function.update (held s) q l')
    (hData : s'.containers = Function.update s.containers x (some d)) (hUntouched : Untouched s s' x) :
    Placement (held s') (live s') ∧ Placed s s' x q d := by
  have hDead : ¬live s x := fun hx => hx hNew
  have hAt : held s' q = l' := by rw [hHeld, Function.update_self]
  have hRest : ∀ i, i ≠ q → held s' i = held s i := fun i hq => by
    rw [hHeld, Function.update_of_ne hq]
  refine ⟨h.insert hDead (hAt ▸ hTo) hRest (live_update hData), ?_, hData, hUntouched⟩
  intro i y
  by_cases hq : i = q
  · subst hq
    rw [hAt, hTo.mem_iff, List.mem_cons]
    by_cases hy : y = x
    · simp [hy]
    · simp [hy]
  · rw [hRest i hq]
    by_cases hy : y = x
    · subst hy
      simp only [hq, and_false, ne_eq, not_true_eq_false, false_and, or_false, iff_false]
      exact fun hi => hDead (h.live_of_mem hi)
    · simp [hy]

/-- A container stays in its place. -/
theorem Placed.stay (h : Placement (held s) (live s)) (hx : x ∈ held s q)
    (hPerm : ∀ i, (held s' i).Perm (held s i))
    (hData : s'.containers = Function.update s.containers x (some d)) (hUntouched : Untouched s s' x) :
    Placement (held s') (live s') ∧ Placed s s' x q d := by
  have hStill := h.congr hPerm
  have hSame : ∀ y, live s' y ↔ live s y := by
    intro y
    rw [live_update hData]
    exact ⟨fun hy => hy.elim (fun hEq => hEq ▸ h.live_of_mem hx) id, Or.inr⟩
  refine ⟨⟨hStill.nodup, hStill.disjoint, fun y => (hSame y).trans (hStill.live_iff y)⟩, ?_, hData,
    hUntouched⟩
  intro i y
  rw [(hPerm i).mem_iff]
  by_cases hy : y = x
  · subst hy
    simp only [true_and, ne_eq, not_true_eq_false, false_and, or_false]
    exact ⟨fun hi => h.disjoint i q y hi hx, fun hi => hi ▸ hx⟩
  · simp [hy]

/-- A container is freed. -/
theorem Removed.take (h : Placement (held s) (live s)) (hFrom : (held s p).Perm (x :: l))
    (hHeld : held s' = Function.update (held s) p l)
    (hData : s'.containers = Function.update s.containers x none)
    (hRunning : s'.running = s.running) :
    Placement (held s') (live s') ∧ Removed s s' x := by
  have hx : x ∈ held s p := hFrom.mem_iff.mpr (List.mem_cons_self ..)
  have hLeft : held s' p = l := by rw [hHeld, Function.update_self]
  have hRest : ∀ i, i ≠ p → held s' i = held s i := fun i hp => by
    rw [hHeld, Function.update_of_ne hp]
  have hLive : ∀ y, live s' y ↔ y ≠ x ∧ live s y := by
    intro y
    rw [live, hData]
    by_cases hEq : y = x
    · simp [hEq]
    · simp [hEq, live]
  have hPlacement := h.remove (hLeft ▸ hFrom) hRest hLive
  refine ⟨hPlacement, fun i y => ?_, hData, hRunning⟩
  have hNodup := List.nodup_cons.mp (hFrom.nodup_iff.mp (h.nodup p))
  by_cases hp : i = p
  · subst hp
    rw [hLeft, hFrom.mem_iff, List.mem_cons]
    by_cases hy : y = x
    · simp [hy, hNodup.1]
    · simp [hy]
  · rw [hRest i hp]
    constructor
    · exact fun hi => ⟨fun hEq => hp (h.disjoint i p y hi (hEq ▸ hx)), hi⟩
    · exact And.right

end Moves

section Transitions

variable {s : State} {c k id x : Nat} {caller caller' : UserRpcCaller} {callee : UserRpcCallee}
  {d d' : UserRpcContainer} {rest : List Nat}

theorem held_new (hIds : ∀ id, s.opsCount ≤ id → s.running id = none) :
    held s (.operation s.opsCount) = [] := by
  simp [held, hIds s.opsCount (Nat.le_refl _)]

theorem untouched_new {s' : State} {r : Option Running}
    (hIds : ∀ id, s.opsCount ≤ id → s.running id = none)
    (hRunning : s'.running = Function.update s.running s.opsCount r) : Untouched s s' x := by
  refine Untouched.update hRunning fun y hy => ?_
  rw [held_new hIds] at hy
  cases hy

theorem untouched_own {s' : State} {r : Running} {r' : Option Running} (hRun : s.running id = some r)
    (hOnly : ∀ y ∈ r.container, y = x) (hRunning : s'.running = Function.update s.running id r') :
    Untouched s s' x := by
  refine Untouched.update hRunning fun y hy => ?_
  rw [held_operation hRun] at hy
  exact hOnly y hy

theorem setContainer_same (hContainer : s.containers x = some d) :
    s.containers = Function.update s.containers x (some d) :=
  (Function.update_eq_self_iff.mpr hContainer.symm).symm

/-- A container that was obtained goes to a running operation. -/
theorem prepared_placed (h : Placement (held s) (live s))
    (hIds : ∀ id, s.opsCount ≤ id → s.running id = none) (hCaller : s.callers c = some caller)
    (hObtained : Obtained s c caller x d caller') (count : Nat) :
    let s' := ((s.setContainer x (some d')).setCaller c
      (some { caller' with deallocRefcount := count })).start (.initiating c k x)
    Placement (held s') (live s') ∧ Placed s s' x (.operation s.opsCount) d' := by
  intro s'
  have hTo : [x].Perm (x :: held s (.operation s.opsCount)) := by rw [held_new hIds]
  cases hObtained with
  | reused hQueue hContainer =>
      rename_i rest
      have hHeld : held s' = Function.update (Function.update (held s) (.free c) rest)
          (.operation s.opsCount) [x] := by
        refine (held_start _ _).trans ?_
        rw [held_setFree (s := s.setContainer x (some d'))
          (a := { caller with deallocRefcount := count, freeContainers := rest }) hCaller rfl,
          held_setContainer]
        rfl
      have hFrom : (held s (.free c)).Perm (x :: rest) := by rw [held_free hCaller, hQueue]
      exact Placed.move h (by simp) hFrom hTo hHeld rfl (untouched_new hIds rfl)
  | allocated junk hQueue hNew =>
      have hHeld : held s' = Function.update (held s) (.operation s.opsCount) [x] := by
        refine (held_start _ _).trans ?_
        rw [held_sameCaller (s := s.setContainer x (some d'))
          (a := { caller with deallocRefcount := count }) hCaller rfl rfl, held_setContainer]
        rfl
      exact Placed.insert h hNew hTo hHeld rfl (untouched_new hIds rfl)

/-- A container that was obtained goes back to the pool. -/
theorem rejected_placed (h : Placement (held s) (live s)) (hCaller : s.callers c = some caller)
    (hObtained : Obtained s c caller x d caller') :
    let s' := (s.setContainer x (some d)).setCaller c
      (some { caller' with freeContainers := caller'.freeContainers ++ [x] })
    Placement (held s') (live s') ∧ Placed s s' x (.free c) d := by
  intro s'
  cases hObtained with
  | reused hQueue hContainer =>
      rename_i rest
      have hHeld : held s' = Function.update (held s) (.free c) (rest ++ [x]) := by
        refine (held_setFree (s := s.setContainer x (some d))
          (a := { caller with freeContainers := rest ++ [x] }) hCaller rfl).trans ?_
        rw [held_setContainer]
      have hx : x ∈ held s (.free c) := by
        rw [held_free hCaller, hQueue]
        exact List.mem_cons_self ..
      refine Placed.stay h hx (fun i => ?_) rfl (.same rfl)
      rw [hHeld]
      by_cases hi : i = .free c
      · subst hi
        rw [Function.update_self, held_free hCaller, hQueue]
        exact List.perm_append_singleton x rest
      · rw [Function.update_of_ne hi]
  | allocated junk hQueue hNew =>
      have hHeld : held s' = Function.update (held s) (.free c) [x] := by
        refine (held_setFree (s := s.setContainer x _)
          (a := { caller with freeContainers := caller.freeContainers ++ [x] }) hCaller rfl).trans ?_
        rw [held_setContainer, hQueue]
        rfl
      refine Placed.insert h hNew ?_ hHeld rfl (.same rfl)
      rw [held_free hCaller, hQueue]

theorem refused_placed (h : Placement (held s) (live s))
    (hRun : s.running id = some (.initiating c k x)) (hContainer : s.containers x = some d) :
    let s' := s.setRunning id (some (.unreachable c x))
    Placement (held s') (live s') ∧ Placed s s' x (.operation id) d := by
  intro s'
  have hx : x ∈ held s (.operation id) := mem_operation hRun (List.mem_singleton_self x)
  refine Placed.stay h hx (fun i => ?_) (setContainer_same hContainer)
    (untouched_own hRun (by simp [Running.container]) rfl)
  have hHeld : held s' = held s := by
    refine (held_setRunning _ _ _).trans (Function.update_eq_self_iff.mpr ?_)
    rw [held_operation hRun]
    rfl
  rw [hHeld]

theorem enqueued_placed (h : Placement (held s) (live s))
    (hRun : s.running id = some (.initiating c k x)) (hCallee : s.callees k = some callee)
    (hContainer : s.containers x = some d) :
    let s' := (s.setCallee k { callee with incomingRpcs := callee.incomingRpcs ++ [x] }).setRunning id
      none
    Placement (held s') (live s') ∧ Placed s s' x (.incoming k) d := by
  intro s'
  have hHeld : held s' = Function.update (Function.update (held s) (.operation id) [])
      (.incoming k) (callee.incomingRpcs ++ [x]) := by
    refine (held_setRunning _ _ _).trans ?_
    rw [held_setIncoming (b := { callee with incomingRpcs := callee.incomingRpcs ++ [x] }) hCallee rfl,
      Function.update_comm (by simp)]
    rfl
  have hFrom : (held s (.operation id)).Perm [x] := by rw [held_operation hRun, Running.container]
  refine Placed.move h (by simp) hFrom ?_ hHeld (setContainer_same hContainer)
    (untouched_own hRun (by simp [Running.container]) rfl)
  rw [held_incoming hCallee]
  exact List.perm_append_singleton x _

theorem undelivered_placed (h : Placement (held s) (live s))
    (hRun : s.running id = some (.unreachable c x)) (hCaller : s.callers c = some caller)
    (hContainer : s.containers x = some d) :
    let s' := (s.setCaller c (some { caller with
      freeContainers := caller.freeContainers ++ [x] })).setRunning id none
    Placement (held s') (live s') ∧ Placed s s' x (.free c) d := by
  intro s'
  have hHeld : held s' = Function.update (Function.update (held s) (.operation id) [])
      (.free c) (caller.freeContainers ++ [x]) := by
    refine (held_setRunning _ _ _).trans ?_
    rw [held_setFree (a := { caller with freeContainers := caller.freeContainers ++ [x] }) hCaller rfl,
      Function.update_comm (by simp)]
    rfl
  have hFrom : (held s (.operation id)).Perm [x] := by rw [held_operation hRun, Running.container]
  refine Placed.move h (by simp) hFrom ?_ hHeld (setContainer_same hContainer)
    (untouched_own hRun (by simp [Running.container]) rfl)
  rw [held_free hCaller]
  exact List.perm_append_singleton x _

theorem accepted_placed (h : Placement (held s) (live s)) (hCallee : s.callees k = some callee)
    (hBuckets : 0 < callee.awaitingReply.bucketsCount) (hQueue : callee.incomingRpcs = x :: rest)
    (key : Nat → UInt64) (seq : UInt64) :
    let s' := (s.setContainer x (some d')).setCallee k
      { callee with
        incomingRpcs := rest
        awaitingReply := intmapInsert callee.awaitingReply key x
        seq := seq }
    Placement (held s') (live s') ∧ Placed s s' x (.awaiting k) d' := by
  intro s'
  have hHeld : held s' = Function.update (Function.update (held s) (.incoming k) rest) (.awaiting k)
      (intmapInsert callee.awaitingReply key x).all := by
    refine (held_setCallee _ _ _).trans ?_
    rw [held_setContainer]
  refine Placed.move h (by simp) ?_ ?_ hHeld rfl (.same rfl)
  · rw [held_incoming hCallee, hQueue]
  · rw [held_awaiting hCallee]
    exact all_insert hBuckets key x

theorem returned_placed (h : Placement (held s) (live s))
    (hIds : ∀ id, s.opsCount ≤ id → s.running id = none) (hCallee : s.callees k = some callee)
    {map : Intmap Nat} (hTaken : callee.awaitingReply.all.Perm (x :: map.all)) (after : After) :
    let s' := ((s.setContainer x (some d')).setCallee k { callee with awaitingReply := map }).start
      (.replying x after)
    Placement (held s') (live s') ∧ Placed s s' x (.operation s.opsCount) d' := by
  intro s'
  have hHeld : held s' = Function.update (Function.update (held s) (.awaiting k) map.all)
      (.operation s.opsCount) [x] := by
    refine (held_start _ _).trans ?_
    rw [held_setAwaiting (s := s.setContainer x (some d'))
      (b := { callee with awaitingReply := map }) hCallee rfl, held_setContainer]
    rfl
  refine Placed.move h (by simp) ?_ ?_ hHeld rfl (untouched_new hIds rfl)
  · rw [held_awaiting hCallee]
    exact hTaken
  · rw [held_new hIds]

theorem replied_placed {after after' : After} (h : Placement (held s) (live s))
    (hRun : s.running id = some (.replying x after)) (hCaller : s.callers c = some caller)
    (hContainer : s.containers x = some d) :
    let s' := (s.setCaller c (some { caller with
      incomingReplies := caller.incomingReplies ++ [x] })).setRunning id
        (some (.droppingCaller c after'))
    Placement (held s') (live s') ∧ Placed s s' x (.replies c) d := by
  intro s'
  have hHeld : held s' = Function.update (Function.update (held s) (.operation id) [])
      (.replies c) (caller.incomingReplies ++ [x]) := by
    refine (held_setRunning _ _ _).trans ?_
    rw [held_setReplies (a := { caller with incomingReplies := caller.incomingReplies ++ [x] }) hCaller rfl,
      Function.update_comm (by simp)]
    rfl
  have hFrom : (held s (.operation id)).Perm [x] := by rw [held_operation hRun, Running.container]
  refine Placed.move h (by simp) hFrom ?_ hHeld (setContainer_same hContainer)
    (untouched_own hRun (by simp [Running.container]) rfl)
  rw [held_replies hCaller]
  exact List.perm_append_singleton x _

theorem result_placed (h : Placement (held s) (live s)) (hCaller : s.callers c = some caller)
    (hQueue : caller.incomingReplies = x :: rest) (hContainer : s.containers x = some d) :
    let s' := s.setCaller c (some { caller with
      incomingReplies := rest
      freeContainers := caller.freeContainers ++ [x] })
    Placement (held s') (live s') ∧ Placed s s' x (.free c) d := by
  intro s'
  have hHeld : held s' = Function.update (Function.update (held s) (.replies c) rest) (.free c)
      (caller.freeContainers ++ [x]) := by
    refine (held_setCaller _ _ _).trans ?_
    rw [Function.update_comm (by simp)]
    rfl
  refine Placed.move h (by simp) ?_ ?_ hHeld (setContainer_same hContainer) (.same rfl)
  · rw [held_replies hCaller, hQueue]
  · rw [held_free hCaller]
    exact List.perm_append_singleton x _

theorem incomingAborted_placed {r : Running} {after : After} (h : Placement (held s) (live s))
    (hRun : s.running id = some r) (hLocal : r.container = []) (hCallee : s.callees k = some callee)
    (hQueue : callee.incomingRpcs = x :: rest) :
    let s' := ((s.setContainer x (some d')).setCallee k
      { callee with incomingRpcs := rest }).setRunning id (some (.replying x after))
    Placement (held s') (live s') ∧ Placed s s' x (.operation id) d' := by
  intro s'
  have hHeld : held s' = Function.update (Function.update (held s) (.incoming k) rest)
      (.operation id) [x] := by
    refine (held_setRunning _ _ _).trans ?_
    rw [held_setIncoming (s := s.setContainer x (some d'))
      (b := { callee with incomingRpcs := rest }) hCallee rfl, held_setContainer]
    rfl
  refine Placed.move h (by simp) ?_ ?_ hHeld rfl
    (untouched_own hRun (by simp [hLocal]) rfl)
  · rw [held_incoming hCallee, hQueue]
  · rw [held_operation hRun, hLocal]

theorem awaitingAborted_placed {r : Running} {after : After} {i : Nat}
    (h : Placement (held s) (live s)) (hRun : s.running id = some r) (hLocal : r.container = [])
    (hCallee : s.callees k = some callee) (hBucket : i < callee.awaitingReply.bucketsCount)
    (hQueue : callee.awaitingReply.nodes i = x :: rest) :
    let s' := ((s.setContainer x (some d')).setCallee k
      { callee with awaitingReply := callee.awaitingReply.removeHead i }).setRunning id
        (some (.replying x after))
    Placement (held s') (live s') ∧ Placed s s' x (.operation id) d' := by
  intro s'
  have hHeld : held s' = Function.update
      (Function.update (held s) (.awaiting k) (callee.awaitingReply.removeHead i).all)
      (.operation id) [x] := by
    refine (held_setRunning _ _ _).trans ?_
    rw [held_setAwaiting (s := s.setContainer x (some d'))
      (b := { callee with awaitingReply := callee.awaitingReply.removeHead i }) hCallee rfl, held_setContainer]
    rfl
  refine Placed.move h (by simp) ?_ ?_ hHeld rfl
    (untouched_own hRun (by simp [hLocal]) rfl)
  · rw [held_awaiting hCallee]
    exact all_removeHead hBucket hQueue
  · rw [held_operation hRun, hLocal]

theorem replyFreed_removed (h : Placement (held s) (live s)) (hCaller : s.callers c = some caller)
    (hQueue : caller.incomingReplies = x :: rest) :
    let s' := (s.setCaller c (some { caller with incomingReplies := rest })).setContainer x none
    Placement (held s') (live s') ∧ Removed s s' x := by
  intro s'
  have hHeld : held s' = Function.update (held s) (.replies c) rest :=
    (held_setContainer _ _ _).trans (held_setReplies (a := { caller with incomingReplies := rest }) hCaller rfl)
  refine Removed.take h ?_ hHeld rfl rfl
  rw [held_replies hCaller, hQueue]

theorem containerFreed_removed (h : Placement (held s) (live s)) (hCaller : s.callers c = some caller)
    (hQueue : caller.freeContainers = x :: rest) :
    let s' := (s.setCaller c (some { caller with freeContainers := rest })).setContainer x none
    Placement (held s') (live s') ∧ Removed s s' x := by
  intro s'
  have hHeld : held s' = Function.update (held s) (.free c) rest :=
    (held_setContainer _ _ _).trans (held_setFree (a := { caller with freeContainers := rest }) hCaller rfl)
  refine Removed.take h ?_ hHeld rfl rfl
  rw [held_free hCaller, hQueue]

/-- An operation goes on without a container. -/
theorem held_continue {r : Running} {r' : Option Running} (hRun : s.running id = some r)
    (hLocal : r.container = []) (hLocal' : (r'.map Running.container).getD [] = []) :
    held (s.setRunning id r') = held s := by
  rw [held_setRunning, hLocal']
  refine Function.update_eq_self_iff.mpr ?_
  rw [held_operation hRun, hLocal]

end Transitions

section Unmoved

variable {s s₁ s' : State} {id : Nat} {r : Running} {r' : Option Running}

theorem Unmoved.placement (h : Unmoved s s') (hPlacement : Placement (held s) (live s)) :
    Placement (held s') (live s') := by
  have hLive : live s' = live s := by
    funext x
    rw [live, live, h.containers_eq]
  rw [h.held_eq, hLive]
  exact hPlacement

theorem Unmoved.refl (s : State) : Unmoved s s := ⟨rfl, rfl, fun _ _ _ => rfl⟩

theorem Unmoved.of_running (hHeld : held s' = held s) (hContainers : s'.containers = s.containers)
    (hRunning : s'.running = s.running) : Unmoved s s' :=
  ⟨hHeld, hContainers, fun i _ _ => congrFun hRunning i⟩

/-- An operation without a container goes on. -/
theorem Unmoved.continue (h : Unmoved s s₁) (hSame : s₁.running = s.running)
    (hRun : s.running id = some r) (hLocal : r.container = [])
    (hLocal' : (r'.map Running.container).getD [] = []) : Unmoved s (s₁.setRunning id r') := by
  have hRun₁ : s₁.running id = some r := by rw [hSame, hRun]
  refine ⟨(held_continue hRun₁ hLocal hLocal').trans h.held_eq, h.containers_eq, fun i y hy => ?_⟩
  have hi : i ≠ id := by
    rintro rfl
    rw [held_operation hRun, hLocal] at hy
    cases hy
  simp [State.setRunning, Function.update_of_ne hi, hSame]

/-- An operation without a container starts. -/
theorem Unmoved.start (h : Unmoved s s₁) (hSame : s₁.running = s.running)
    (hCount : s₁.opsCount = s.opsCount) (hIds : ∀ id, s.opsCount ≤ id → s.running id = none)
    (hLocal : r.container = []) : Unmoved s (s₁.start r) := by
  have hEmpty : held s (.operation s.opsCount) = [] := held_new hIds
  refine ⟨?_, h.containers_eq, fun i y hy => ?_⟩
  · rw [held_start, h.held_eq, hCount, hLocal]
    exact Function.update_eq_self_iff.mpr hEmpty.symm
  · have hi : i ≠ s₁.opsCount := by
      rintro rfl
      rw [hCount, hEmpty] at hy
      cases hy
    simp [State.start, State.setRunning, Function.update_of_ne hi, hSame]

theorem After.container_next (after : After) : (after.next.map Running.container).getD [] = [] := by
  cases after <;> rfl

end Unmoved

end Ricerca.Rpc
